import Dialectic.Proofs.Document.Shift

/-
  Reading some lines that are moved down and followed by a gap:
  it goes on as before, up to the gap and not further.  What is
  read and the faults found are the same, moved down.

  Key definitions include:
    * `Parser.Lists`
    * `Parser.Follows`
    * `Parser.Apart`
    * `Parser.grow`

  Main theorems:
    * `Parser.follows_bind`
    * `Parser.relations_follows`
    * `Parser.reconstruction_follows`
    * `Parser.piece_follows`
    * `Parser.pieces_follow`
    * `Parser.assemble_map`
-/

namespace Dialectic

namespace Parser

------------------------------------------------------------
-- Readers
------------------------------------------------------------

section Readers

variable {α β α' β' : Type}

/- What is read, and the faults that are listed meanwhile. -/
def Lists
    (m : Parsing α)
    (a : α)
    (found : List SyntaxFault) : Prop :=
  ∀ faults, m faults = .ok (a, faults ++ found)

/- What is given without reading is given without faults. -/
theorem lists_pure (a : α) : Lists (pure a) a [] := by
  intro faults
  rw [List.append_nil]
  rfl

/- A fault that is met is listed. -/
theorem lists_report (fault : SyntaxFault) :
    Lists (report .recover fault) () [fault] :=
  fun _ => rfl

/- Faults are listed one after the other. -/
theorem Lists.bind
    {m : Parsing α}
    {f : α → Parsing β}
    {a : α}
    {b : β}
    {found later : List SyntaxFault}
    (hFirst : Lists m a found)
    (hSecond : Lists (f a) b later) :
    Lists (m >>= f) b (found ++ later) := by
  intro faults
  rw [← List.append_assoc]
  simp [Bind.bind, StateT.bind, Except.bind, hFirst faults,
    hSecond (faults ++ found)]

/- What is read may be changed. -/
theorem Lists.map
    {m : Parsing α}
    {a : α}
    {found : List SyntaxFault}
    (hRead : Lists m a found)
    (f : α → β) :
    Lists
      (do
        let a ← m
        pure (f a))
      (f a) found := by
  have hBoth :=
    hRead.bind (f := fun a => pure (f a)) (lists_pure (f a))
  rwa [List.append_nil] at hBoth

/- Only one thing is read, with one list of faults. -/
theorem Lists.unique
    {m : Parsing α}
    {a b : α}
    {found later : List SyntaxFault}
    (hOne : Lists m a found)
    (hOther : Lists m b later) :
    a = b ∧ found = later := by
  have hSame := (hOne []).symm.trans (hOther [])
  cases hSame
  exact ⟨rfl, rfl⟩

/-
  One reader gives what another one gives, but changed, and
  lists the same faults, but moved down.
-/
def Follows
    (d : Shift)
    (P : α → Prop)
    (f : α → β)
    (m : Parsing α)
    (m' : Parsing β) : Prop :=
  ∃ a found, P a ∧ Lists m a found ∧
    Lists m' (f a) (found.map (SyntaxFault.shift d))

variable {d : Shift}

/- What is given without reading is followed. -/
theorem follows_pure
    {P : α → Prop}
    {f : α → β}
    {a : α}
    {b : β}
    (hHere : P a)
    (hSame : b = f a) :
    Follows d P f (pure a) (pure b) :=
  ⟨a, [], hHere, lists_pure a, hSame ▸ lists_pure b⟩

/- A fault is followed by the same one, moved down. -/
theorem follows_report (fault : SyntaxFault) :
    Follows d (fun _ => True) id (report .recover fault)
      (report .recover (fault.shift d)) :=
  ⟨(), [fault], trivial, lists_report fault,
    lists_report (fault.shift d)⟩

/- Readers that are followed are followed in sequence. -/
theorem follows_bind
    {P : α → Prop}
    {Q : β → Prop}
    {f : α → α'}
    {g : β → β'}
    {m : Parsing α}
    {m' : Parsing α'}
    {k : α → Parsing β}
    {k' : α' → Parsing β'}
    (hFirst : Follows d P f m m')
    (hSecond : ∀ a, P a → Follows d Q g (k a) (k' (f a))) :
    Follows d Q g (m >>= k) (m' >>= k') := by
  rcases hFirst with ⟨a, found, hP, hRead, hFollows⟩
  rcases hSecond a hP with ⟨b, later, hQ, hNext, hAlong⟩
  refine ⟨b, found ++ later, hQ, hRead.bind hNext, ?_⟩
  rw [List.map_append]
  exact hFollows.bind hAlong

/- A weaker property of what is read may be given. -/
theorem Follows.imp
    {P Q : α → Prop}
    {f : α → β}
    {m : Parsing α}
    {m' : Parsing β}
    (hFollows : Follows d P f m m')
    (hWeaker : ∀ a, P a → Q a) :
    Follows d Q f m m' := by
  rcases hFollows with ⟨a, found, hP, hRead, hAlong⟩
  exact ⟨a, found, hWeaker a hP, hRead, hAlong⟩

/-
  One reader leaves a bounded number of lines, and another one
  leaves these moved down, with the same lines after them.
-/
def FollowsBefore
    (d : Shift)
    (tail : List Line)
    (bound : Nat)
    (f : α → β)
    (m : Parsing (α × List Line))
    (m' : Parsing (β × List Line)) : Prop :=
  Follows d (fun read => read.2.length ≤ bound)
    (fun read =>
      (f read.1, read.2.map (Line.shift d) ++ tail))
    m m'

/- More lines could be left. -/
theorem FollowsBefore.of_le
    {tail : List Line}
    {less bound : Nat}
    {f : α → β}
    {m : Parsing (α × List Line)}
    {m' : Parsing (β × List Line)}
    (hFollows : FollowsBefore d tail less f m m')
    (hLess : less ≤ bound) :
    FollowsBefore d tail bound f m m' :=
  hFollows.imp (fun _ hFew => Nat.le_trans hFew hLess)

/- What is given without reading is given before other lines. -/
theorem followsBefore_pure
    {tail rest : List Line}
    {bound : Nat}
    {f : α → β}
    {a : α}
    {b : β}
    (hFew : rest.length ≤ bound)
    (hSame : b = f a) :
    FollowsBefore d tail bound f (pure (a, rest))
      (pure (b, rest.map (Line.shift d) ++ tail)) :=
  follows_pure hFew (by rw [hSame])

/- A fault may be met before. -/
theorem FollowsBefore.reported
    {tail : List Line}
    {bound : Nat}
    {f : α → β}
    {m : Parsing (α × List Line)}
    {m' : Parsing (β × List Line)}
    (hFollows : FollowsBefore d tail bound f m m')
    (fault : SyntaxFault) :
    FollowsBefore d tail bound f
      (do
        report .recover fault
        m)
      (do
        report .recover (fault.shift d)
        m') :=
  follows_bind (follows_report fault) (fun _ _ => hFollows)

end Readers

variable {d : Shift}

------------------------------------------------------------
-- Inline Content
------------------------------------------------------------

/- Data that cannot be read is reported where it moves to. -/
theorem read_shift
    [YamlReader]
    (place : DataPlace)
    (content : String)
    (position : Position) :
    place.read content (position.shift d) =
      (place.read content position).mapError
        (SyntaxFault.shift d) := by
  unfold DataPlace.read
  split
  · rfl
  · split <;> rfl

/- Reading data is followed. -/
theorem readData_follows
    [YamlReader]
    (place : DataPlace)
    (content : String)
    (position : Position) :
    Follows d (fun _ => True) id
      (readData .recover place content position)
      (readData .recover place content
        (position.shift d)) := by
  unfold readData
  rw [read_shift]
  cases place.read content position with
  | ok fields => exact follows_pure trivial rfl
  | error fault =>
      exact
        follows_bind (follows_report fault)
          (fun _ _ => follows_pure trivial rfl)

/- Reading the content of tokens is followed. -/
theorem inlineAfter_follows
    [YamlReader]
    (content : Inline)
    (tokens : List Token) :
    Follows d (fun _ => True) id
      (inlineAfter .recover content tokens)
      (inlineAfter .recover content
        (tokens.map (Token.shift d))) := by
  induction tokens generalizing content with
  | nil => exact follows_pure trivial rfl
  | cons token tokens ih =>
      rcases token with ⟨kind, position⟩
      cases kind with
      | data text =>
          refine
            follows_bind (readData_follows _ text position)
              (fun fields _ => ?_)
          cases fields with
          | none => exact ih content
          | some fields => exact ih (content.addData fields)
      | _ => exact ih _

/- Reading the element of some tokens is followed. -/
theorem entry_follows
    [YamlReader]
    (tokens : List Token)
    (span : Span) :
    Follows d (fun _ => True) (Option.map (Entry.shift d))
      (entry .recover tokens span)
      (entry .recover (tokens.map (Token.shift d))
        (span.shift d)) := by
  cases tokens with
  | nil => exact follows_pure trivial rfl
  | cons token tokens =>
      have hUntitled : ∀ content : Inline,
          (untitledStatement? content (span.shift d)).map
              Entry.statement =
            ((untitledStatement? content span).map
              Entry.statement).map (Entry.shift d) := by
        intro content
        simp only [untitledStatement?]
        split <;> rfl
      rcases token with ⟨kind, position⟩
      cases kind with
      | statementDefinition title =>
          exact follows_bind (inlineAfter_follows _ tokens)
            (fun _ _ => follows_pure trivial rfl)
      | statementReference title =>
          exact follows_bind (inlineAfter_follows _ tokens)
            (fun _ _ => follows_pure trivial rfl)
      | argumentDefinition title =>
          exact follows_bind (inlineAfter_follows _ tokens)
            (fun _ _ => follows_pure trivial rfl)
      | argumentReference title =>
          exact follows_bind (inlineAfter_follows _ tokens)
            (fun _ _ => follows_pure trivial rfl)
      | _ =>
          exact follows_bind (inlineAfter_follows _ (_ :: tokens))
            (fun content _ =>
              follows_pure trivial (hUntitled content))

------------------------------------------------------------
-- Lines
------------------------------------------------------------

/-
  What stands after a text starts with a gap, if it is there at
  all, and does not go on with a premise-conclusion structure.
-/
structure Apart (tail : List Line) : Prop where
  gap : ∀ line ∈ tail.head?, ∃ position, line = .gap position
  stops : resumes tail = false

/- Nothing is apart. -/
theorem apart_nil : Apart [] :=
  ⟨fun _ hNone => (by cases hNone), rfl⟩

variable {tail : List Line}

/- Lines are taken as before, and none of those after them. -/
theorem takeWhile_shift
    (hApart : Apart tail)
    {p : Line → Bool}
    (hGap : ∀ position, p (.gap position) = false)
    (hShift : ∀ line, p (line.shift d) = p line)
    (lines : List Line) :
    (lines.map (Line.shift d) ++ tail).takeWhile p =
      (lines.takeWhile p).map (Line.shift d) := by
  induction lines with
  | nil =>
      cases tail with
      | nil => rfl
      | cons line tail =>
          rcases hApart.gap line rfl with ⟨position, rfl⟩
          simp [hGap]
  | cons line lines ih =>
      simp only [List.map_cons, List.cons_append,
        List.takeWhile_cons, hShift, ih]
      split <;> rfl

/- Lines are dropped as before, and none of those after them. -/
theorem dropWhile_shift
    (hApart : Apart tail)
    {p : Line → Bool}
    (hGap : ∀ position, p (.gap position) = false)
    (hShift : ∀ line, p (line.shift d) = p line)
    (lines : List Line) :
    (lines.map (Line.shift d) ++ tail).dropWhile p =
      (lines.dropWhile p).map (Line.shift d) ++ tail := by
  induction lines with
  | nil =>
      cases tail with
      | nil => rfl
      | cons line tail =>
          rcases hApart.gap line rfl with ⟨position, rfl⟩
          simp [hGap]
  | cons line lines ih =>
      simp only [List.map_cons, List.cons_append,
        List.dropWhile_cons, hShift, ih]
      split <;> rfl

/- A line that moves is as deep as before. -/
theorem isDeeper_shift (indent : Nat) (line : Line) :
    isDeeper indent (line.shift d) = isDeeper indent line := by
  cases line <;> rfl

/- A line that moves goes on with an element as before. -/
theorem continues_shift (above : Option Nat) (line : Line) :
    continues above (line.shift d) = continues above line := by
  cases line with
  | gap position => rfl
  | filled line =>
      simp only [Line.shift, continues,
        FilledLine.headKind?_shift]
      rfl

/- A line that moves is part of a structure as before. -/
theorem inReconstruction_shift (line : Line) :
    inReconstruction (line.shift d) = inReconstruction line := by
  cases line with
  | gap position => rfl
  | filled line =>
      simp only [Line.shift, inReconstruction,
        FilledLine.headKind?_shift]

/- Skipping deeper lines stops before what is apart. -/
theorem skipDeeper_shift
    (hApart : Apart tail)
    (indent : Nat)
    (lines : List Line) :
    skipDeeper indent (lines.map (Line.shift d) ++ tail) =
      (skipDeeper indent lines).map (Line.shift d) ++ tail :=
  dropWhile_shift hApart (fun _ => rfl) (isDeeper_shift indent)
    lines

/- So does skipping what is left of a structure. -/
theorem skipReconstruction_shift
    (hApart : Apart tail)
    (lines : List Line) :
    skipReconstruction (lines.map (Line.shift d) ++ tail) =
      (skipReconstruction lines).map (Line.shift d)
        ++ tail := by
  apply dropWhile_shift hApart (fun _ => rfl)
  intro line
  rw [isDeeper_shift, inReconstruction_shift]

/- A structure goes on as before. -/
theorem resumes_shift
    (hApart : Apart tail)
    (lines : List Line) :
    resumes (lines.map (Line.shift d) ++ tail) =
      resumes lines := by
  induction lines with
  | nil => exact hApart.stops
  | cons line lines ih =>
      cases line with
      | gap position => exact ih
      | filled line =>
          simp only [List.map_cons, List.cons_append, Line.shift,
            resumes, inReconstruction,
            FilledLine.headKind?_shift]
          rfl

/- Move an element down with the lines it goes on over. -/
def Extent.shift
    (d : Shift)
    (tail : List Line)
    (body : Extent) : Extent :=
  { tokens := body.tokens.map (Token.shift d)
    span := body.span.shift d
    rest := body.rest.map (Line.shift d) ++ tail }

/- An element goes on over the same lines. -/
theorem extent_shift
    (hApart : Apart tail)
    (above : Option Nat)
    (tokens : List Token)
    (span : Span)
    (lines : List Line) :
    extent above (tokens.map (Token.shift d)) (span.shift d)
        (lines.map (Line.shift d) ++ tail) =
      (extent above tokens span lines).shift d tail := by
  have hTokens : ∀ line : Line,
      continuationTokens (line.shift d) =
        (continuationTokens line).map (Token.shift d) := by
    rintro (position | line)
    · rfl
    · simp only [Line.shift, continuationTokens,
        FilledLine.contentStart_shift, List.map_cons]
      rfl
  have hSpans : ∀ line : Line,
      spanOf (line.shift d) =
        (spanOf line).map (Span.shift d) := by
    rintro (position | line)
    · rfl
    · simp only [Line.shift, spanOf, FilledLine.span_shift]
      rfl
  have hTaken :=
    takeWhile_shift (d := d) hApart (fun _ => rfl)
      (continues_shift above) lines
  have hDropped :=
    dropWhile_shift (d := d) hApart (fun _ => rfl)
      (continues_shift above) lines
  simp only [extent, Extent.shift, hTaken, hDropped,
    List.flatMap_map, hTokens, hSpans, ← List.map_flatMap,
    Span.mergeAll_shift, List.map_append]

/- An element leaves no more lines than there are. -/
theorem extent_length
    (above : Option Nat)
    (tokens : List Token)
    (span : Span)
    (lines : List Line) :
    (extent above tokens span lines).rest.length ≤
      lines.length :=
  (List.dropWhile_sublist _).length_le

------------------------------------------------------------
-- Relations
------------------------------------------------------------

/- No relation is read from what is apart. -/
theorem relations_apart
    [YamlReader]
    (hApart : Apart tail)
    (policy : FaultPolicy)
    (fuel parent : Nat) :
    relations policy fuel parent tail = pure ([], tail) := by
  cases fuel with
  | zero => rfl
  | succ fuel =>
      cases tail with
      | nil => rfl
      | cons line tail =>
          rcases hApart.gap line rfl with ⟨position, rfl⟩
          rfl

/- Skipping deeper lines leaves no more than there are. -/
theorem skipDeeper_length (indent : Nat) (lines : List Line) :
    (skipDeeper indent lines).length ≤ lines.length :=
  (List.dropWhile_sublist _).length_le

/-
  A relation line is followed if what is below its target and
  what comes after it are.
-/
theorem marker_follows
    [YamlReader]
    (hApart : Apart tail)
    {fuel fuel' : Nat}
    {rest : List Line}
    (hFewer : ∀ {left : List Line} (parent),
      left.length ≤ rest.length →
        FollowsBefore d tail left.length
          (RelationEntry.shiftAll d)
          (relations .recover fuel parent left)
          (relations .recover fuel' parent
            (left.map (Line.shift d) ++ tail)))
    {line : FilledLine}
    {parent : Nat}
    (hDeep : ¬ line.indent ≤ parent)
    {marker : Marker}
    {p : Position}
    {tokens : List Token}
    (hTokens : line.tokens = ⟨.relation marker, p⟩ :: tokens) :
    FollowsBefore d tail rest.length (RelationEntry.shiftAll d)
      (relations .recover (fuel + 1) parent
        (.filled line :: rest))
      (relations .recover (fuel' + 1) parent
        (.filled (line.shift d)
          :: (rest.map (Line.shift d) ++ tail))) := by
  have hLeft :=
    extent_length (some line.indent) tokens line.span rest
  simp only [relations, FilledLine.indent_shift, hDeep,
    if_false, FilledLine.tokens_shift, hTokens, List.map_cons,
    Token.shift, FilledLine.contentStart_shift,
    FilledLine.span_shift, extent_shift hApart, Extent.shift]
  refine follows_bind (entry_follows _ _) (fun found _ => ?_)
  cases found with
  | none =>
      have hSkipped :=
        Nat.le_trans (skipDeeper_length line.indent _) hLeft
      simp only [skipDeeper_shift hApart]
      exact
        ((hFewer parent hSkipped).of_le hSkipped).reported
          ⟨.relationWithoutTarget marker, line.contentStart⟩
  | some target =>
      refine
        follows_bind (hFewer line.indent hLeft)
          (fun read hChildren => ?_)
      have hMiddle := Nat.le_trans hChildren hLeft
      refine
        follows_bind (hFewer parent hMiddle)
          (fun later hSiblings => ?_)
      refine
        followsBefore_pure (Nat.le_trans hSiblings hMiddle) ?_
      rw [RelationEntry.shiftAll, RelationEntry.shift,
        RelationEntry.cover_shift]

/- A line that is no relation is skipped with those below it. -/
theorem relations_unexpected
    [YamlReader]
    (policy : FaultPolicy)
    (fuel : Nat)
    {line : FilledLine}
    {parent : Nat}
    (hDeep : ¬ line.indent ≤ parent)
    (hOther : ∀ marker,
      line.headKind? ≠ some (.relation marker))
    (rest : List Line) :
    relations policy (fuel + 1) parent (.filled line :: rest) =
      (do
        report policy ⟨.unexpectedIndentation, line.contentStart⟩
        relations policy fuel parent
          (skipDeeper line.indent rest)) := by
  simp only [relations, hDeep, if_false]
  split
  · next marker _ _ hTokens =>
      refine absurd ?_ (hOther marker)
      rw [FilledLine.headKind?, hTokens]
      rfl
  · rfl

/- Reading the relations below a line is followed. -/
theorem relations_follows
    [YamlReader]
    (hApart : Apart tail)
    {fuel fuel' : Nat}
    {lines : List Line}
    (hFuel : lines.length ≤ fuel)
    (hFuel' : lines.length ≤ fuel')
    (parent : Nat) :
    FollowsBefore d tail lines.length
      (RelationEntry.shiftAll d)
      (relations .recover fuel parent lines)
      (relations .recover fuel' parent
        (lines.map (Line.shift d) ++ tail)) := by
  have hNothing : ∀ fuel fuel' parent,
      FollowsBefore d tail 0 (RelationEntry.shiftAll d)
        (relations .recover fuel parent [])
        (relations .recover fuel' parent tail) := by
    intro fuel fuel' parent
    rw [relations_apart apart_nil, relations_apart hApart]
    exact followsBefore_pure (Nat.le_refl _) rfl
  -- the induction is on the fuel that the lines above leave
  induction fuel generalizing fuel' parent lines with
  | zero =>
      rw [List.eq_nil_of_length_eq_zero (Nat.le_zero.mp hFuel)]
      exact hNothing 0 fuel' parent
  | succ fuel ih =>
      rcases lines with _ | ⟨first, rest⟩
      · exact hNothing (fuel + 1) fuel' parent
      rcases fuel' with _ | fuel'
      · cases hFuel'
      have hFewer : ∀ {left : List Line} (parent),
          left.length ≤ rest.length →
            FollowsBefore d tail left.length
              (RelationEntry.shiftAll d)
              (relations .recover fuel parent left)
              (relations .recover fuel' parent
                (left.map (Line.shift d) ++ tail)) :=
        fun parent hLess =>
          ih
            (Nat.le_trans hLess (Nat.le_of_succ_le_succ hFuel))
            (Nat.le_trans hLess (Nat.le_of_succ_le_succ hFuel'))
            parent
      rcases first with position | line
      · exact followsBefore_pure (Nat.le_refl _) rfl
      by_cases hShallow : line.indent ≤ parent
      · simp only [List.map_cons, List.cons_append, Line.shift,
          relations, FilledLine.indent_shift, hShallow, if_true]
        exact followsBefore_pure (Nat.le_refl _) rfl
      by_cases hMarker :
          ∃ marker, line.headKind? = some (.relation marker)
      · rcases hMarker with ⟨marker, hKind⟩
        rcases FilledLine.tokens_of_headKind? hKind with
          ⟨p, tokens, hTokens⟩
        exact
          (marker_follows hApart hFewer hShallow hTokens).of_le
            (Nat.le_succ _)
      · have hOther := not_exists.mp hMarker
        have hMoved : ∀ marker,
            (line.shift d).headKind? ≠
              some (.relation marker) := by
          simpa only [FilledLine.headKind?_shift] using hOther
        have hDeep : ¬ (line.shift d).indent ≤ parent := hShallow
        have hSkipped := skipDeeper_length line.indent rest
        rw [List.map_cons, List.cons_append, Line.shift,
          relations_unexpected _ fuel hShallow hOther,
          relations_unexpected _ fuel' hDeep hMoved,
          FilledLine.contentStart_shift,
          FilledLine.indent_shift, skipDeeper_shift hApart]
        exact
          ((hFewer parent hSkipped).of_le
            (Nat.le_succ_of_le hSkipped)).reported
              ⟨.unexpectedIndentation, line.contentStart⟩

------------------------------------------------------------
-- Premise-Conclusion Structures
------------------------------------------------------------

/- A structure that does not go on has no more lines. -/
theorem reconstructionItems_stops
    [YamlReader]
    (policy : FaultPolicy)
    (fuel : Nat)
    {lines : List Line}
    (hStops : resumes lines = false) :
    reconstructionItems policy fuel lines =
      pure (some [], lines) := by
  rcases fuel with _ | fuel
  · rfl
  rcases lines with _ | ⟨position | line, rest⟩
  · rfl
  · have hRest : resumes rest = false := hStops
    simp only [reconstructionItems, hRest]
    rfl
  · unfold reconstructionItems
    unfold resumes inReconstruction FilledLine.headKind? at hStops
    split
    · next hIndent =>
        split
        · next hTokens => simp [hIndent, hTokens] at hStops
        · next hTokens => simp [hIndent, hTokens] at hStops
        · rfl
    · rfl

/- One that goes on does so with a statement or an inference. -/
theorem tokens_of_resumes
    {line : FilledLine}
    {rest : List Line}
    (hResumes : resumes (.filled line :: rest) = true) :
    line.indent = 0 ∧
      ((∃ number p tokens,
          line.tokens = ⟨.step number, p⟩ :: tokens) ∨
        ∃ rule p tokens,
          line.tokens = ⟨.inference rule, p⟩ :: tokens) := by
  simp only [resumes, inReconstruction, Bool.and_eq_true,
    beq_iff_eq] at hResumes
  refine ⟨hResumes.1, ?_⟩
  have hHead := hResumes.2
  split at hHead
  · next number hKind =>
      exact
        .inl ⟨number, FilledLine.tokens_of_headKind? hKind⟩
  · next rule hKind =>
      exact .inr ⟨rule, FilledLine.tokens_of_headKind? hKind⟩
  · cases hHead

/- Move the lines of a structure down, if there are any. -/
def shiftItems (d : Shift) :
    Option (List ReconstructionItem) →
      Option (List ReconstructionItem) :=
  Option.map (List.map (ReconstructionItem.shift d))

/- The line that comes first moves with the others. -/
theorem shiftItems_cons
    (item : ReconstructionItem)
    (items : Option (List ReconstructionItem)) :
    shiftItems d (items.map (item :: ·)) =
      (shiftItems d items).map (item.shift d :: ·) := by
  cases items <;> rfl

/- Skipping a structure leaves no more lines than there are. -/
theorem skipReconstruction_length (lines : List Line) :
    (skipReconstruction lines).length ≤ lines.length :=
  (List.dropWhile_sublist _).length_le

/-
  A numbered statement is followed if what comes after it is.
-/
theorem step_follows
    [YamlReader]
    (hApart : Apart tail)
    {fuel fuel' : Nat}
    {rest : List Line}
    (hFuel : rest.length ≤ fuel)
    (hFuel' : rest.length ≤ fuel')
    (hFewer : ∀ {left : List Line},
      left.length ≤ rest.length →
        FollowsBefore d tail left.length (shiftItems d)
          (reconstructionItems .recover fuel left)
          (reconstructionItems .recover fuel'
            (left.map (Line.shift d) ++ tail)))
    {line : FilledLine}
    (hIndent : line.indent = 0)
    {number : Nat}
    {p : Position}
    {tokens : List Token}
    (hTokens : line.tokens = ⟨.step number, p⟩ :: tokens) :
    FollowsBefore d tail rest.length (shiftItems d)
      (reconstructionItems .recover (fuel + 1)
        (.filled line :: rest))
      (reconstructionItems .recover (fuel' + 1)
        (.filled (line.shift d)
          :: (rest.map (Line.shift d) ++ tail))) := by
  have hLeft := extent_length none tokens line.span rest
  have hSkipped :=
    Nat.le_trans
      (skipReconstruction_length
        (extent none tokens line.span rest).rest)
      hLeft
  simp only [reconstructionItems, FilledLine.indent_shift,
    hIndent, if_true, FilledLine.tokens_shift, hTokens,
    List.map_cons, Token.shift, FilledLine.contentStart_shift,
    FilledLine.span_shift, extent_shift hApart, Extent.shift,
    skipReconstruction_shift hApart]
  refine follows_bind (entry_follows _ _) (fun found _ => ?_)
  rcases found with _ | statement | argument
  · exact
      (followsBefore_pure hSkipped rfl).reported
        ⟨.emptyStep number, line.contentStart⟩
  · refine
      follows_bind
        (relations_follows hApart (Nat.le_trans hLeft hFuel)
          (Nat.le_trans hLeft hFuel') 0)
        (fun read hRelated => ?_)
    have hMiddle := Nat.le_trans hRelated hLeft
    refine
      follows_bind (hFewer hMiddle) (fun later hItems => ?_)
    refine followsBefore_pure (Nat.le_trans hItems hMiddle) ?_
    rw [shiftItems_cons]
    rfl
  · exact
      (followsBefore_pure hSkipped rfl).reported
        ⟨.argumentAsStep, line.contentStart⟩

/- Reading the lines of a structure is followed. -/
theorem reconstructionItems_follows
    [YamlReader]
    (hApart : Apart tail)
    {fuel fuel' : Nat}
    {lines : List Line}
    (hFuel : lines.length ≤ fuel)
    (hFuel' : lines.length ≤ fuel') :
    FollowsBefore d tail lines.length (shiftItems d)
      (reconstructionItems .recover fuel lines)
      (reconstructionItems .recover fuel'
        (lines.map (Line.shift d) ++ tail)) := by
  have hStopped : ∀ fuel fuel' (lines : List Line),
      resumes lines = false →
        FollowsBefore d tail lines.length (shiftItems d)
          (reconstructionItems .recover fuel lines)
          (reconstructionItems .recover fuel'
            (lines.map (Line.shift d) ++ tail)) := by
    intro fuel fuel' lines hStops
    have hMoved :=
      (resumes_shift (d := d) hApart lines).trans hStops
    rw [reconstructionItems_stops _ _ hStops,
      reconstructionItems_stops _ _ hMoved]
    exact followsBefore_pure (Nat.le_refl _) rfl
  induction fuel generalizing fuel' lines with
  | zero =>
      rw [List.eq_nil_of_length_eq_zero (Nat.le_zero.mp hFuel)]
      exact hStopped 0 fuel' [] rfl
  | succ fuel ih =>
      cases hResumes : resumes lines with
      | false => exact hStopped (fuel + 1) fuel' lines hResumes
      | true =>
          rcases lines with _ | ⟨first, rest⟩
          · cases hResumes
          rcases fuel' with _ | fuel'
          · cases hFuel'
          have hRest := Nat.le_of_succ_le_succ hFuel
          have hRest' := Nat.le_of_succ_le_succ hFuel'
          rcases first with position | line
          · have hLater : resumes rest = true := hResumes
            simp only [List.map_cons, List.cons_append,
              Line.shift, reconstructionItems,
              resumes_shift hApart, hLater, if_true]
            exact (ih hRest hRest').of_le (Nat.le_succ _)
          · rcases tokens_of_resumes hResumes with
              ⟨hIndent, ⟨number, p, tokens, hTokens⟩ |
                ⟨rule, p, tokens, hTokens⟩⟩
            · exact
                (step_follows hApart hRest hRest'
                  (fun hLess =>
                    ih (Nat.le_trans hLess hRest)
                      (Nat.le_trans hLess hRest'))
                  hIndent hTokens).of_le (Nat.le_succ _)
            · simp only [List.map_cons, List.cons_append,
                Line.shift, reconstructionItems,
                FilledLine.indent_shift, hIndent, if_true,
                FilledLine.tokens_shift, hTokens, Token.shift,
                FilledLine.span_shift]
              refine
                follows_bind (ih hRest hRest')
                  (fun later hItems => ?_)
              refine
                followsBefore_pure (Nat.le_succ_of_le hItems) ?_
              rw [shiftItems_cons]
              rfl

/- Only the kinds of the lines matter for their order. -/
theorem orderFault?_map
    {f : ReconstructionItem → ReconstructionItem}
    (g : NumberedEntry → NumberedEntry)
    (h : InferenceEntry → InferenceEntry)
    (hStatement : ∀ step,
      f (.statement step) = .statement (g step))
    (hInference : ∀ found,
      f (.inference found) = .inference (h found))
    (items : List ReconstructionItem) :
    orderFault? (items.map f) = orderFault? items := by
  have hKind : ∀ item,
      (f item).isInference = item.isInference := by
    rintro (step | found)
    · rw [hStatement]
      rfl
    · rw [hInference]
      rfl
  have hAdjacent : ∀ items : List ReconstructionItem,
      hasAdjacentInferences (items.map f) =
        hasAdjacentInferences items := by
    intro items
    induction items with
    | nil => rfl
    | cons a items ih =>
        cases items with
        | nil => rfl
        | cons b items =>
            simp only [List.map_cons, hasAdjacentInferences,
              hKind] at ih ⊢
            rw [ih]
  unfold orderFault?
  rw [hAdjacent, ← List.map_reverse]
  generalize items.reverse = reversed
  rcases items with _ | ⟨_ | _, items⟩
  · rfl
  · rw [List.map_cons, hStatement]
    -- only the kinds of the last lines matter
    rcases reversed with _ | ⟨_ | _, _ | ⟨_ | _, _ | ⟨_, _⟩⟩⟩ <;>
      simp only [List.map_cons, List.map_nil, hStatement,
        hInference]
  · rw [List.map_cons, hInference]

/- Moving a structure does not change its order. -/
theorem orderFault?_shift (items : List ReconstructionItem) :
    orderFault? (items.map (ReconstructionItem.shift d)) =
      orderFault? items :=
  orderFault?_map (NumberedEntry.shift d)
    (InferenceEntry.shift d) (fun _ => rfl) (fun _ => rfl) items

/-
  A premise-conclusion structure is followed if its lines are.
-/
theorem reconstruction_follows
    [YamlReader]
    {fuel fuel' bound : Nat}
    {lines lines' : List Line}
    (hItems :
      FollowsBefore d tail bound (shiftItems d)
        (reconstructionItems .recover fuel lines)
        (reconstructionItems .recover fuel' lines'))
    (start : Position) :
    FollowsBefore d tail bound
      (Option.map (Reconstruction.shift d))
      (reconstruction .recover fuel start lines)
      (reconstruction .recover fuel' (start.shift d)
        lines') := by
  refine follows_bind hItems (fun read hRead => ?_)
  rcases read with ⟨_ | items, rest⟩
  · exact followsBefore_pure hRead rfl
  · simp only [shiftItems, Option.map_some, orderFault?_shift]
    cases orderFault? items with
    | some cause =>
        exact
          (followsBefore_pure hRead rfl).reported ⟨cause, start⟩
    | none =>
        refine followsBefore_pure hRead ?_
        have hSpans :
            (items.map (ReconstructionItem.shift d)).flatMap
                ReconstructionItem.spans =
              (items.flatMap ReconstructionItem.spans).map
                (Span.shift d) := by
          simp only [List.flatMap_map,
            ReconstructionItem.spans_shift, ← List.map_flatMap]
        rw [hSpans, Option.map_some, Reconstruction.shift,
          ← Span.mergeAll_shift]
        rfl

------------------------------------------------------------
-- Blocks
------------------------------------------------------------

/- Reading a heading is followed. -/
theorem heading_follows
    [YamlReader]
    (level : Nat)
    (tokens : List Token)
    (line : FilledLine) :
    Follows d (fun _ => True) (Option.map (Heading.shift d))
      (heading .recover level tokens line)
      (heading .recover level (tokens.map (Token.shift d))
        (line.shift d)) := by
  refine
    follows_bind (inlineAfter_follows _ tokens)
      (fun content _ => ?_)
  simp only [FilledLine.contentStart_shift,
    FilledLine.span_shift, id_eq]
  split
  · exact
      follows_bind
        (follows_report ⟨.headingWithoutTitle, line.contentStart⟩)
        (fun _ _ => follows_pure trivial rfl)
  · exact follows_pure trivial rfl

/- Reading an element at the top level is followed. -/
theorem elementBlock_follows
    [YamlReader]
    (hApart : Apart tail)
    {fuel fuel' : Nat}
    {lines : List Line}
    (hFuel : lines.length ≤ fuel)
    (hFuel' : lines.length ≤ fuel')
    (line : FilledLine) :
    FollowsBefore d tail lines.length
      (Option.map (ElementBlock.shift d))
      (elementBlock .recover fuel line lines)
      (elementBlock .recover fuel' (line.shift d)
        (lines.map (Line.shift d) ++ tail)) := by
  have hTokens :
      (line.shift d).tokens.dropWhile isBullet =
        (line.tokens.dropWhile isBullet).map
          (Token.shift d) := by
    rw [FilledLine.tokens_shift, List.dropWhile_map]
    rfl
  have hLeft :=
    extent_length none (line.tokens.dropWhile isBullet)
      line.span lines
  unfold elementBlock
  simp only [hTokens, FilledLine.span_shift,
    extent_shift hApart, Extent.shift,
    FilledLine.contentStart_shift, FilledLine.indent_shift]
  refine follows_bind (entry_follows _ _) (fun found _ => ?_)
  cases found with
  | none =>
      simp only [skipDeeper_shift hApart]
      have hSkipped :=
        Nat.le_trans (skipDeeper_length line.indent _) hLeft
      exact
        (followsBefore_pure hSkipped rfl).reported
          ⟨.missingElement, line.contentStart⟩
  | some element =>
      refine
        follows_bind
          (relations_follows hApart
            (Nat.le_trans hLeft hFuel)
            (Nat.le_trans hLeft hFuel') line.indent)
          (fun read hRelated => ?_)
      refine
        followsBefore_pure (Nat.le_trans hRelated hLeft) ?_
      simp only [Option.map_some, ElementBlock.shift,
        RelationEntry.cover_shift]
      rfl

/- Reading what a line starts is followed. -/
theorem piece_follows
    [YamlReader]
    (hApart : Apart tail)
    {fuel fuel' : Nat}
    {lines : List Line}
    (hFuel : lines.length ≤ fuel)
    (hFuel' : lines.length ≤ fuel')
    (line : FilledLine) :
    FollowsBefore d tail lines.length
      (Option.map (Piece.shift d))
      (piece .recover fuel line lines)
      (piece .recover fuel' (line.shift d)
        (lines.map (Line.shift d) ++ tail)) := by
  have hElement :
      FollowsBefore d tail lines.length
        (Option.map (Piece.shift d))
        (do
          let read ← elementBlock .recover fuel line lines
          pure
            (read.1.map (fun b => Piece.block (.element b)),
              read.2))
        (do
          let read ←
            elementBlock .recover fuel' (line.shift d)
              (lines.map (Line.shift d) ++ tail)
          pure
            (read.1.map (fun b => Piece.block (.element b)),
              read.2)) := by
    refine
      follows_bind
        (elementBlock_follows hApart hFuel hFuel' line)
        (fun read hRead => ?_)
    refine followsBefore_pure hRead ?_
    cases read.1 <;> rfl
  have hSkipped : ∀ fault : SyntaxFault,
      FollowsBefore d tail lines.length
        (Option.map (Piece.shift d))
        (do
          report .recover fault
          pure (none, skipDeeper 0 lines))
        (do
          report .recover (fault.shift d)
          pure
            (none,
              skipDeeper 0
                (lines.map (Line.shift d) ++ tail))) := by
    intro fault
    rw [skipDeeper_shift hApart]
    have hFew := skipDeeper_length 0 lines
    exact (followsBefore_pure hFew rfl).reported fault
  unfold piece
  simp only [FilledLine.tokens_shift,
    FilledLine.contentStart_shift, FilledLine.indent_shift]
  rcases hTokens : line.tokens with _ | ⟨⟨kind, p⟩, tokens⟩
  · exact hElement
  · cases kind with
    | heading level =>
        refine
          follows_bind (heading_follows level tokens line)
            (fun found _ => ?_)
        refine followsBefore_pure (Nat.le_refl _) ?_
        cases found <;> rfl
    | step number =>
        simp only [List.map_cons, Token.shift]
        by_cases hIndent : line.indent = 0
        · rw [if_pos hIndent, if_pos hIndent]
          have hItems :=
            step_follows (d := d) hApart hFuel hFuel'
              (fun hLess =>
                reconstructionItems_follows hApart
                  (Nat.le_trans hLess hFuel)
                  (Nat.le_trans hLess hFuel'))
              hIndent hTokens
          refine
            follows_bind
              (reconstruction_follows hItems line.contentStart)
              (fun read hRead => ?_)
          refine followsBefore_pure hRead ?_
          cases read.1 <;> rfl
        · rw [if_neg hIndent, if_neg hIndent]
          exact hElement
    | inference rule =>
        exact
          hSkipped
            ⟨.inferenceWithoutPremises, line.contentStart⟩
    | relation marker =>
        exact
          hSkipped
            ⟨.relationWithoutParent marker, line.contentStart⟩
    | _ => exact hElement

/-
  Reading the pieces of some lines is followed, and what comes
  after them is read as it is alone.
-/
theorem pieces_follow
    [YamlReader]
    (hApart : Apart tail)
    {last : List Piece}
    {later : List SyntaxFault}
    (hTail : ∀ fuel, tail.length ≤ fuel →
      Lists (pieces .recover fuel tail) last later)
    {fuel fuel' : Nat}
    {lines : List Line}
    (hFuel : lines.length ≤ fuel)
    (hFuel' : lines.length + tail.length ≤ fuel') :
    ∃ first found,
      Lists (pieces .recover fuel lines) first found ∧
        Lists
          (pieces .recover fuel'
            (lines.map (Line.shift d) ++ tail))
          (first.map (Piece.shift d) ++ last)
          (found.map (SyntaxFault.shift d) ++ later) := by
  have hNothing : ∀ fuel fuel', tail.length ≤ fuel' →
      ∃ first found,
        Lists (pieces .recover fuel []) first found ∧
          Lists (pieces .recover fuel' tail)
            (first.map (Piece.shift d) ++ last)
            (found.map (SyntaxFault.shift d) ++ later) := by
    intro fuel fuel' hEnough
    refine ⟨[], [], ?_, hTail fuel' hEnough⟩
    cases fuel <;> exact lists_pure []
  induction fuel generalizing fuel' lines with
  | zero =>
      have hNone :=
        List.eq_nil_of_length_eq_zero (Nat.le_zero.mp hFuel)
      subst hNone
      exact hNothing 0 fuel' (by simpa using hFuel')
  | succ fuel ih =>
      rcases lines with _ | ⟨first, rest⟩
      · exact hNothing (fuel + 1) fuel' (by simpa using hFuel')
      · have hRest : rest.length ≤ fuel :=
          Nat.le_of_succ_le_succ hFuel
        cases fuel' with
        | zero => simp at hFuel'
        | succ fuel' =>
            have hRest' : rest.length + tail.length ≤ fuel' := by
              simp only [List.length_cons] at hFuel'
              omega
            cases first with
            | gap position => exact ih hRest hRest'
            | filled line =>
                rcases piece_follows (d := d) hApart hRest
                    (Nat.le_trans (Nat.le_add_right _ _) hRest')
                    line with
                  ⟨⟨piece?, left⟩, found, hLeft, hRead, hAlong⟩
                rcases @ih fuel' left
                    (Nat.le_trans hLeft hRest)
                    (Nat.le_trans
                      (Nat.add_le_add_right hLeft _) hRest') with
                  ⟨more, others, hMore, hMoreAlong⟩
                refine
                  ⟨piece?.toList ++ more, found ++ others,
                    hRead.bind (hMore.map _), ?_⟩
                rw [List.map_append, List.map_append,
                  List.append_assoc, List.append_assoc]
                have hShift :
                    (piece?.map (Piece.shift d)).toList =
                      piece?.toList.map (Piece.shift d) := by
                  cases piece? <;> rfl
                rw [← hShift]
                exact hAlong.bind (hMoreAlong.map _)

------------------------------------------------------------
-- Assembly
------------------------------------------------------------

/- Put the next piece of a document to the blocks before it. -/
def grow (blocks : List Block) : Piece → List Block
| .block found => found :: blocks
| .reconstruction found => attach found blocks

/- Pieces are put together one after the other. -/
theorem assemble_eq (found : List Piece) :
    assemble found = (found.foldl grow []).reverse :=
  rfl

/- Pieces that are changed are put together as before. -/
theorem assemble_map
    {f : Block → Block}
    {g : Piece → Piece}
    (hGrow : ∀ blocks piece,
      grow (blocks.map f) (g piece) =
        (grow blocks piece).map f)
    (found : List Piece) :
    assemble (found.map g) = (assemble found).map f := by
  have hFold : ∀ blocks,
      (found.map g).foldl grow (blocks.map f) =
        (found.foldl grow blocks).map f := by
    intro blocks
    induction found generalizing blocks with
    | nil => rfl
    | cons piece found ih =>
        rw [List.map_cons, List.foldl_cons, List.foldl_cons,
          hGrow, ih]
  rw [assemble_eq, assemble_eq, List.map_reverse]
  exact congrArg List.reverse (hFold [])

end Parser

end Dialectic
