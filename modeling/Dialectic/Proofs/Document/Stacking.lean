import Dialectic.Proofs.Document.SourceOrder
import Dialectic.Proofs.Source.Range

/-
  The lines of a document lie one below the other, and the
  tokens of a line lie in it one after the other.

  Key definitions include:
    * `Span.Before`
    * `FilledLine.Placed`
    * `Line.Stacked`

  Main theorems:
    * `Lexer.inlineFrom_sorted`
    * `Lexer.line_placed`
    * `Lexer.lex_stacked`
-/

namespace Dialectic

------------------------------------------------------------
-- Parts Below Each Other
------------------------------------------------------------

/- A place on an earlier line comes no later. -/
theorem Position.Above.le
    {p q : Position}
    (hAbove : p.Above q) :
    p ≤ q :=
  ⟨.inl hAbove.1, hAbove.2⟩

/- A part stops on a line above the one that another starts. -/
def Span.Before (s t : Span) : Prop :=
  s.stop.Above t.start

/- The lines with content cover these parts of the text. -/
def Line.spans (lines : List Line) : List Span :=
  lines.flatMap Parser.spanOf

/-
  A line with content is where its tokens say: these lie
  between its ends, which are on one line.
-/
structure FilledLine.Placed (line : FilledLine) : Prop where
  level : line.contentStart.line = line.stop.line
  tokens : ∀ token ∈ line.stream,
    line.contentStart ≤ token.position ∧
      token.position ≤ line.stop

/- Such a line starts no later than it stops. -/
theorem FilledLine.Placed.proper
    {line : FilledLine}
    (hPlaced : line.Placed) :
    line.contentStart ≤ line.stop := by
  refine (hPlaced.tokens ⟨.lineEnd, line.stop⟩ ?_).1
  unfold stream
  simp only
  split <;> simp

namespace Line

/- A line with content covers one part. -/
@[simp]
theorem spans_filled (line : FilledLine) (lines : List Line) :
    spans (.filled line :: lines) = line.span :: spans lines :=
  rfl

/- A gap covers none. -/
@[simp]
theorem spans_gap (p : Position) (lines : List Line) :
    spans (.gap p :: lines) = spans lines :=
  rfl

/- Lines that follow each other. -/
@[simp]
theorem spans_append (lines more : List Line) :
    spans (lines ++ more) = spans lines ++ spans more :=
  List.flatMap_append

/- A part that is covered is that of a line with content. -/
theorem mem_spans {lines : List Line} {s : Span} :
    s ∈ spans lines ↔
      ∃ line, .filled line ∈ lines ∧ s = line.span := by
  rw [spans, List.mem_flatMap]
  constructor
  · rintro ⟨position | line, hLine, hSpan⟩
    · cases hSpan
    · exact ⟨line, hLine, List.mem_singleton.mp hSpan⟩
  · rintro ⟨line, hLine, rfl⟩
    exact ⟨.filled line, hLine, List.mem_singleton_self _⟩

/- Lines with content are placed, one below the other. -/
structure Stacked (lines : List Line) : Prop where
  placed : ∀ line, .filled line ∈ lines → line.Placed
  apart : (spans lines).Pairwise Span.Before

end Line

namespace Lexer

------------------------------------------------------------
-- Tokens of a Line
------------------------------------------------------------

/- Tokens from a place on, one after the other. -/
structure Sorted (p : Position) (tokens : List Token) :
    Prop where
  bound : ∀ token ∈ tokens, p ≤ token.position
  order : tokens.Pairwise
    (fun s t => s.position ≤ t.position)

/- There is nothing out of order without tokens. -/
theorem Sorted.nil (p : Position) : Sorted p [] :=
  ⟨fun _ hNone => (by cases hNone), List.Pairwise.nil⟩

/- Tokens from a place on are tokens from an earlier one on. -/
theorem Sorted.of_le
    {p q : Position}
    {tokens : List Token}
    (hSorted : Sorted q tokens)
    (hLe : p ≤ q) :
    Sorted p tokens :=
  ⟨fun token hToken =>
      hLe.trans (hSorted.bound token hToken),
    hSorted.order⟩

/- A token comes before those from its place on. -/
theorem Sorted.cons
    {p : Position}
    {tokens : List Token}
    (hSorted : Sorted p tokens)
    (kind : TokenKind) :
    Sorted p (⟨kind, p⟩ :: tokens) :=
  ⟨List.forall_mem_cons.mpr
      ⟨le_rfl, hSorted.bound⟩,
    List.pairwise_cons.mpr ⟨hSorted.bound, hSorted.order⟩⟩

/- Some text comes before the tokens after it. -/
theorem Sorted.text
    {p q : Position}
    {tokens : List Token}
    (hSorted : Sorted q tokens)
    (text : List Char)
    (hLe : text ≠ [] → p ≤ q) :
    Sorted (if text.isEmpty then q else p)
      (textToken p text.reverse ++ tokens) := by
  cases text with
  | nil => exact hSorted
  | cons c text =>
      have hText : (c :: text).reverse.isEmpty = false := by
        simp
      rw [textToken, hText]
      exact (hSorted.of_le (hLe (List.cons_ne_nil _ _))).cons _

/-
  The tokens of the rest of a line are in order.  Text that has
  been read comes before them.
-/
theorem inlineFrom_sorted
    {textStart position : Position}
    {text : List Char}
    (hText : text ≠ [] → textStart ≤ position)
    (afterBlank : Bool)
    (skip : Nat)
    (cs : List Char) :
    Sorted (if text.isEmpty then position else textStart)
      (inlineFrom textStart text afterBlank skip position
        cs).1 := by
  induction cs generalizing textStart position text afterBlank
    skip with
  | nil =>
      have hLast :=
        (Sorted.nil position).text text hText
      rwa [List.append_nil] at hLast
  | cons c cs ih =>
      have hStep : position ≤ position.advance c :=
        Position.le_advanceBy position [c]
      have hFurther : text ≠ [] →
          textStart ≤ position.advance c :=
        fun hSome => (hText hSome).trans hStep
      cases skip with
      | succ skip =>
          refine (ih hFurther false skip).of_le ?_
          split
          · exact hStep
          · exact le_rfl
      | zero =>
          have hStart :
              (if text.isEmpty then position
                else textStart) ≤
                position.advance c := by
            cases text with
            | nil => exact hStep
            | cons d text => exact hFurther (by simp)
          -- more text starts where the text before it did
          have hMore := fun afterBlank =>
            @ih
              (if text.isEmpty then position else textStart)
              (position.advance c) (c :: text)
              (fun _ => hStart) afterBlank 0
          unfold inlineFrom
          simp only
          cases item afterBlank c cs with
          | plain => exact hMore _
          | broken cause => exact hMore _
          | token kind length =>
              have hLater :=
                @ih (position.advance c) (position.advance c) []
                  (fun hSome => absurd rfl hSome) false
                  (length - 1)
              exact
                ((hLater.of_le hStep).cons kind).text text hText

/- The tokens of the content of a line are in order. -/
theorem content_sorted
    (headAllowed : Bool)
    (position : Position)
    (cs : List Char) :
    Sorted position (content headAllowed position cs).1 := by
  have hInline : ∀ (p : Position) (cs : List Char),
      Sorted p (inlineTokens p cs).1 :=
    fun p cs =>
      inlineFrom_sorted (fun hSome => absurd rfl hSome) true 0 cs
  have hStart :=
    Position.le_advanceBy position (cs.takeWhile Text.isBlank)
  unfold content
  simp only
  split
  · next kind length _ =>
      refine Sorted.of_le ?_ hStart
      exact
        ((hInline _ _).of_le
          (Position.le_advanceBy _ _)).cons kind
  · exact (hInline _ _).of_le hStart
  · exact (hInline _ _).of_le hStart

/- The tokens of a line after its indentation are in order. -/
theorem body_sorted
    (indent : Nat)
    (position : Position)
    (cs : List Char) :
    Sorted position (body indent position cs).1 := by
  unfold body
  split
  · exact (Sorted.nil position).cons _
  · exact
      ((content_sorted _ _ _).of_le
        (Position.le_advanceBy _ _)).cons _
  · exact content_sorted _ _ _

------------------------------------------------------------
-- Lines of a Document
------------------------------------------------------------

/- A cut of a text comes no later than its end. -/
theorem Cut.le_last
    {origin p : Position}
    {text : List Char}
    (hCut : Cut origin text p) :
    origin ≤ p ∧ p ≤ origin.advanceBy text := by
  rcases hCut with ⟨before, after, ⟨rfl, _⟩, rfl⟩
  rw [Position.advanceBy_append]
  exact
    ⟨Position.le_advanceBy _ _, Position.le_advanceBy _ _⟩

/- A line with content is where its tokens say. -/
theorem line_placed
    {source : SourceLine}
    (hFeed : '\n' ∉ source.text)
    {l : FilledLine}
    (hLine : (line source).1 = .filled l) :
    l.Placed := by
  have hTokens := (line_cuts source).tokens
  have hCut : Cut source.start source.text l.contentStart := by
    apply line_starts
    rw [hLine, Line.starts_filled]
    exact List.mem_cons_self
  rw [hLine] at hTokens
  have hShape : l.start = source.start ∧
      l.stop = source.start.advanceBy source.text ∧
        ∃ p, Sorted p l.tokens := by
    unfold line at hLine
    split at hLine
    · cases hLine
    · cases hLine
      exact ⟨rfl, rfl, _, body_sorted _ _ _⟩
  rcases hShape with ⟨hStart, hStop, p, hSorted⟩
  have hProper : l.contentStart ≤ l.stop := by
    rw [hStop]
    exact hCut.le_last.2
  constructor
  · rw [(hCut.on_line hFeed).1, hStop,
      Position.advanceBy_line _ hFeed]
    rfl
  · intro token hToken
    have hPlace := (hTokens token hToken).le_last
    refine ⟨?_, hStop ▸ hPlace.2⟩
    unfold FilledLine.contentStart FilledLine.stream at *
    by_cases hIndent : l.indent = 0
    · rw [if_pos hIndent] at hProper ⊢
      simp only [hIndent, if_true] at hToken
      -- the first token comes before the others and the end
      cases hSome : l.tokens with
      | nil =>
          rw [hSome] at hProper
          rw [hSome, List.nil_append, List.mem_singleton]
            at hToken
          rw [hToken]
          exact hProper
      | cons first tokens =>
          rw [hSome] at hProper hSorted
          rw [hSome, List.mem_append, List.mem_singleton]
            at hToken
          rcases hToken with hToken | rfl
          · rcases List.mem_cons.mp hToken with rfl | hLater
            · exact le_rfl
            · exact
                (List.pairwise_cons.mp hSorted.order).1 token
                  hLater
          · exact hProper
    · rw [if_neg hIndent, hStart]
      exact hPlace.1

/- Lines that come one below the other are stacked. -/
theorem linesOf_stacked
    {sources : List SourceLine}
    (hSources : sources.Pairwise SourceLine.Above)
    (hFeed : ∀ source ∈ sources, '\n' ∉ source.text) :
    Line.Stacked (linesOf sources).1 := by
  induction sources with
  | nil =>
      exact
        ⟨fun _ hNone => (by cases hNone), List.Pairwise.nil⟩
  | cons source sources ih =>
      rcases List.pairwise_cons.mp hSources with
        ⟨hFirst, hRest⟩
      have hLater :=
        ih hRest
          (fun s hs => hFeed s (List.mem_cons_of_mem _ hs))
      have hOwn := hFeed source List.mem_cons_self
      have hPlaces :=
        (linesOf_ordered hRest
          (fun s hs => hFeed s (List.mem_cons_of_mem _ hs))).2
      have hLines :
          (linesOf (source :: sources)).1 =
            (line source).1 :: (linesOf sources).1 := rfl
      rw [hLines]
      cases hLine : (line source).1 with
      | gap p =>
          refine ⟨?_, hLater.apart⟩
          intro l hl
          rcases List.mem_cons.mp hl with hSame | hl
          · cases hSame
          · exact hLater.placed l hl
      | filled l =>
          constructor
          · intro other hOther
            rcases List.mem_cons.mp hOther with hSame | hOther
            · cases hSame
              exact line_placed hOwn hLine
            · exact hLater.placed other hOther
          · rw [Line.spans_filled]
            refine List.pairwise_cons.mpr ⟨?_, hLater.apart⟩
            intro t ht
            have hStop : Cut source.start source.text l.stop := by
              apply (line_cuts source).tokens
                ⟨.lineEnd, l.stop⟩
              rw [hLine]
              simp only [Line.stream, FilledLine.stream]
              split <;> simp
            rcases hPlaces t.start
                (Parser.start_mem_starts ht) with
              ⟨below, hBelow, hNumber, hOffset⟩
            have hBounds := hStop.on_line hOwn
            have hAbove := hFirst below hBelow
            constructor
            · rw [hNumber]
              exact hBounds.1 ▸ hAbove.1
            · have hEnd := hAbove.2
              have hLast := hBounds.2.2
              exact
                Nat.le_trans hLast
                  (Nat.le_trans (Nat.le_of_lt hEnd) hOffset)

/- The lines of a document are stacked. -/
theorem lex_stacked (input : String) :
    Line.Stacked (lex input).lines := by
  have hLines : ∀ {text : List Char} {sources},
      sources.Sublist (SourceLine.ofText text) →
        Line.Stacked (linesOf sources).1 := by
    intro text sources hSources
    exact
      linesOf_stacked
        ((SourceLine.ofText_pairwise text).sublist hSources)
        (fun source hSource =>
          SourceLine.ofText_noFeed text source
            (hSources.subset hSource))
  unfold lex
  simp only
  split
  · next hFront => exact hLines (frontMatter?_lines hFront).1
  · exact hLines (List.Sublist.refl _)

end Lexer

end Dialectic
