import Dialectic.Proofs.Document.Positions

/-
  The lines of a document start one below the other, so the
  offsets at which they start do not decrease.

  Key definitions include:
    * `Position.Above`
    * `Line.starts`
    * `Line.Ordered`

  Main theorems:
    * `Span.mergeAll_start`
    * `Lexer.line_starts`
    * `Lexer.lex_ordered`
-/

namespace Dialectic

------------------------------------------------------------
-- Places Below Each Other
------------------------------------------------------------

/- A place is on an earlier line than another one. -/
def Position.Above (p q : Position) : Prop :=
  p.line < q.line ∧ p.offset ≤ q.offset

/- The earlier of two places is the one above. -/
theorem Position.Above.min_eq
    {p q : Position}
    (hAbove : p.Above q) :
    p.min q = p := by
  have hNot : q.before p = false := by
    have hLine := hAbove.1
    rw [before, if_neg (Nat.ne_of_gt hLine)]
    exact decide_eq_false (Nat.lt_asymm hLine)
  rw [Position.min, hNot]
  rfl

/- A span starts where it does if others start below. -/
theorem Span.mergeAll_start
    {s : Span}
    {ts : List Span}
    (hBelow : ∀ t ∈ ts,
      t.start = s.start ∨ s.start.Above t.start) :
    (s.mergeAll ts).start = s.start := by
  unfold mergeAll
  induction ts generalizing s with
  | nil => rfl
  | cons t ts ih =>
      have hFirst : (s.merge t).start = s.start := by
        rcases hBelow t List.mem_cons_self with hSame | hAbove
        · simp [merge, Position.min, hSame]
        · exact hAbove.min_eq
      rw [List.foldl_cons, ih, hFirst]
      rw [hFirst]
      exact fun u hu => hBelow u (List.mem_cons_of_mem t hu)

namespace Line

/- Where the content of a line starts, if it has some. -/
def start? : Line → Option Position
| .gap _ => none
| .filled line => some line.contentStart

/- Where the content of some lines starts. -/
def starts (lines : List Line) : List Position :=
  lines.filterMap start?

/- A line with content starts first. -/
@[simp]
theorem starts_filled (line : FilledLine) (lines : List Line) :
    starts (.filled line :: lines) =
      line.contentStart :: starts lines :=
  rfl

/- A gap starts no content. -/
@[simp]
theorem starts_gap (p : Position) (lines : List Line) :
    starts (.gap p :: lines) = starts lines :=
  rfl

/- Fewer lines start at fewer places. -/
theorem starts_sublist
    {fewer lines : List Line}
    (hFewer : fewer.Sublist lines) :
    (starts fewer).Sublist (starts lines) :=
  hFewer.filterMap start?

/- The content of lines starts on one line below the other. -/
def Ordered (lines : List Line) : Prop :=
  (starts lines).Pairwise Position.Above

/- Lines stay ordered if they start at fewer places. -/
theorem Ordered.of_sublist
    {fewer lines : List Line}
    (hOrdered : Ordered lines)
    (hFewer : (starts fewer).Sublist (starts lines)) :
    Ordered fewer :=
  hOrdered.sublist hFewer

end Line

namespace Lexer

------------------------------------------------------------
-- Lines of a Document
------------------------------------------------------------

/- A place in a line is on it and between its ends. -/
theorem Cut.on_line
    {source : SourceLine}
    (hFeed : '\n' ∉ source.text)
    {p : Position}
    (hCut : Cut source.start source.text p) :
    p.line = source.number ∧
      source.offset ≤ p.offset ∧
      p.offset ≤ source.offset + Text.byteSize source.text := by
  rcases hCut with ⟨before, after, ⟨hText, _⟩, rfl⟩
  have hBefore : '\n' ∉ before := by
    intro hMem
    rw [hText] at hFeed
    exact hFeed (List.mem_append_left after hMem)
  rw [Position.advanceBy_line _ hBefore,
    Position.advanceBy_offset, hText, Text.byteSize_append]
  refine ⟨rfl, Nat.le_add_right _ _, ?_⟩
  exact
    Nat.add_le_add_left (Nat.le_add_right _ _) source.offset

/- The content of a line starts at a place in it. -/
theorem line_starts
    (source : SourceLine) :
    ∀ p ∈ Line.starts [(line source).1],
      Cut source.start source.text p := by
  intro p hp
  have hTokens := (line_cuts source).tokens
  have hStart : ∀ l, (line source).1 = .filled l →
      l.start = source.start := by
    intro l hLine
    unfold line at hLine
    split at hLine
    · cases hLine
    · cases hLine
      rfl
  cases hLine : (line source).1 with
  | gap q => simp [hLine, Line.starts, Line.start?] at hp
  | filled l =>
      rw [hLine, Line.starts_filled] at hp
      rw [List.mem_singleton.mp hp]
      rw [hLine] at hTokens
      unfold FilledLine.contentStart
      split
      · next hIndent =>
          split
          · rw [hStart l hLine]
            exact Cut.first _ _
          · next token rest hSome =>
              apply hTokens token
              simp [Line.stream, FilledLine.stream, hIndent,
                hSome]
      · rw [hStart l hLine]
        exact Cut.first _ _

/- Lines that come one below the other start so. -/
theorem linesOf_ordered
    {sources : List SourceLine}
    (hSources : sources.Pairwise SourceLine.Above)
    (hFeed : ∀ source ∈ sources, '\n' ∉ source.text) :
    Line.Ordered (linesOf sources).1 ∧
      ∀ p ∈ Line.starts (linesOf sources).1,
        ∃ source ∈ sources,
          p.line = source.number ∧ source.offset ≤ p.offset := by
  induction sources with
  | nil =>
      exact ⟨List.Pairwise.nil, fun _ hp => by cases hp⟩
  | cons source sources ih =>
      rcases List.pairwise_cons.mp hSources with
        ⟨hFirst, hRest⟩
      rcases ih hRest
        (fun s hs => hFeed s (List.mem_cons_of_mem _ hs)) with
        ⟨hOrdered, hPlaces⟩
      have hHere : ∀ p ∈ Line.starts [(line source).1],
          p.line = source.number ∧
            source.offset ≤ p.offset ∧
            p.offset ≤
              source.offset + Text.byteSize source.text :=
        fun p hp =>
          (line_starts source p hp).on_line
            (hFeed source List.mem_cons_self)
      have hSplit :
          Line.starts (linesOf (source :: sources)).1 =
            Line.starts [(line source).1]
              ++ Line.starts (linesOf sources).1 :=
        List.filterMap_append (l := [(line source).1])
      have hSingle :
          (Line.starts [(line source).1]).Pairwise
            Position.Above := by
        cases (line source).1 with
        | gap q => exact List.Pairwise.nil
        | filled l => exact List.pairwise_singleton _ _
      constructor
      · unfold Line.Ordered
        rw [hSplit, List.pairwise_append]
        refine ⟨hSingle, hOrdered, ?_⟩
        intro p hp q hq
        rcases hPlaces q hq with ⟨other, hOther, hLine, hOffset⟩
        have hAbove := hFirst other hOther
        have hBounds := hHere p hp
        constructor
        · rw [hBounds.1, hLine]
          exact hAbove.1
        · have hEnd := hAbove.2
          omega
      · rw [hSplit]
        intro p hp
        rcases List.mem_append.mp hp with hp | hp
        · have hBounds := hHere p hp
          exact
            ⟨source, List.mem_cons_self, hBounds.1,
              hBounds.2.1⟩
        · rcases hPlaces p hp with ⟨other, hOther, hPlace⟩
          exact ⟨other, List.mem_cons_of_mem _ hOther, hPlace⟩

/- The lines of a document start one below the other. -/
theorem lex_ordered (input : String) :
    Line.Ordered (lex input).lines := by
  have hLines : ∀ {text : List Char} {sources},
      sources.Sublist (SourceLine.ofText text) →
        Line.Ordered (linesOf sources).1 := by
    intro text sources hSources
    exact
      (linesOf_ordered
        ((SourceLine.ofText_pairwise text).sublist hSources)
        (fun source hSource =>
          SourceLine.ofText_noFeed text source
            (hSources.subset hSource))).1
  unfold lex
  simp only
  split
  · next hFront => exact hLines (frontMatter?_lines hFront).1
  · exact hLines (List.Sublist.refl _)

end Lexer

end Dialectic
