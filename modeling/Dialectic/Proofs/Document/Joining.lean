import Dialectic.Proofs.Document.Positions
import Dialectic.Proofs.Document.Shift
import Dialectic.Proofs.Text.Padding

/-
  The lines of two texts with a blank line between them: those
  of the first text, some gaps, and those of the second text,
  moved down.

  Key definitions include:
    * `SourceLine.shift`
    * `Lexer.frontOf`
    * `Lexer.Closed`

  Main theorems:
    * `Comment.blank_join`
    * `SourceLine.ofText_join`
    * `Lexer.line_shift`
    * `Lexer.frontOf_append`
    * `Lexer.lex_eq`
    * `Lexer.lex_join`
-/

namespace Dialectic

variable {d : Shift}

------------------------------------------------------------
-- Searching
------------------------------------------------------------

namespace Text

/- What a text starts with is found without the rest of it. -/
theorem startsWith_append
    {needle cs : List Char}
    (hEnough : needle.length ≤ cs.length)
    (rest : List Char) :
    startsWith needle (cs ++ rest) = startsWith needle cs := by
  rw [Bool.eq_iff_iff, startsWith_iff, startsWith_iff]
  exact
    ⟨fun hStarts =>
        List.prefix_of_prefix_length_le hStarts
          (List.prefix_append cs rest) hEnough,
      fun hStarts => hStarts.trans (List.prefix_append cs rest)⟩

/- A text is no longer than one that starts with it. -/
theorem length_le_of_startsWith
    {needle cs : List Char}
    (hStarts : startsWith needle cs = true) :
    needle.length ≤ cs.length :=
  (startsWith_iff.mp hStarts).length_le

/- What is found in a text is within it. -/
theorem find?_bound
    {needle cs : List Char}
    {n : Nat}
    (hFound : find? needle cs = some n) :
    n + needle.length ≤ cs.length := by
  induction cs generalizing n with
  | nil =>
      unfold find? at hFound
      split at hFound <;> cases hFound
      next hNone => simpa using hNone
  | cons c cs ih =>
      unfold find? at hFound
      split at hFound
      · next hStarts =>
          cases hFound
          simpa using length_le_of_startsWith hStarts
      · rcases Option.map_eq_some_iff.mp hFound with
          ⟨m, hLater, rfl⟩
        have hBound := ih hLater
        rw [List.length_cons]
        omega

/- What is found in a text is found if more follows. -/
theorem find?_append
    {needle cs : List Char}
    {n : Nat}
    (hFound : find? needle cs = some n)
    (rest : List Char) :
    find? needle (cs ++ rest) = some n := by
  induction cs generalizing n with
  | nil =>
      unfold find? at hFound
      split at hFound <;> cases hFound
      next hNone =>
        have hEmpty : needle = [] := by simpa using hNone
        subst hEmpty
        cases rest <;> rfl
  | cons c cs ih =>
      have hEnough : needle.length ≤ (c :: cs).length :=
        Nat.le_trans (Nat.le_add_left _ _) (find?_bound hFound)
      have hSame := startsWith_append hEnough rest
      unfold find? at hFound
      rw [List.cons_append] at hSame ⊢
      unfold find?
      rw [hSame]
      split at hFound
      · next hStarts => rw [if_pos hStarts, hFound]
      · next hStarts =>
          rw [if_neg hStarts]
          rcases Option.map_eq_some_iff.mp hFound with
            ⟨m, hLater, rfl⟩
          rw [ih hLater]
          rfl

end Text

------------------------------------------------------------
-- Comments
------------------------------------------------------------

namespace Comment

/- A comment that is closed in a text is so if more follows. -/
theorem enclosedLength_append
    {opening closing body : List Char}
    {length : Nat}
    (hClosed :
      enclosedLength opening closing body = (length, true))
    (rest : List Char) :
    enclosedLength opening closing (body ++ rest) =
        (length, true) ∧
      length ≤ opening.length + body.length := by
  unfold enclosedLength at hClosed
  split at hClosed
  · next n hFound =>
      cases hClosed
      have hBound := Text.find?_bound hFound
      refine ⟨?_, by omega⟩
      rw [enclosedLength, Text.find?_append hFound]
  · cases hClosed

/- A comment up to the end of its line ends there. -/
theorem lineLength_append (cs rest : List Char) :
    lineLength (cs ++ '\n' :: rest) = lineLength cs := by
  unfold lineLength
  induction cs with
  | nil => rfl
  | cons c cs ih =>
      rw [List.cons_append, List.takeWhile_cons,
        List.takeWhile_cons]
      split
      · rw [List.length_cons, List.length_cons, ih]
      · rfl

/- A comment that is closed is so if more lines follow. -/
theorem opening?_closed
    {afterBlank : Bool}
    {c : Char}
    {cs : List Char}
    {length : Nat}
    (hFound :
      opening? afterBlank (c :: cs) = some (length, true))
    (rest : List Char) :
    opening? afterBlank (c :: (cs ++ '\n' :: rest)) =
        some (length, true) ∧
      length ≤ cs.length + 1 := by
  unfold opening? at hFound
  split at hFound
  · next body hText =>
      cases hText
      rcases enclosedLength_append (Option.some.inj hFound)
          ('\n' :: rest) with
        ⟨hSame, hBound⟩
      refine ⟨congrArg some hSame, ?_⟩
      simp only [List.length_cons, List.length_nil] at hBound ⊢
      omega
  · next body hText =>
      cases hText
      rcases enclosedLength_append (Option.some.inj hFound)
          ('\n' :: rest) with
        ⟨hSame, hBound⟩
      refine ⟨congrArg some hSame, ?_⟩
      simp only [List.length_cons, List.length_nil] at hBound ⊢
      omega
  · next body hText =>
      cases hText
      split at hFound <;> cases hFound
      next hBlank =>
        refine ⟨?_, (List.takeWhile_sublist _).length_le⟩
        have hSame := lineLength_append ('/' :: '/' :: body) rest
        simp only [List.cons_append] at hSame
        simp [opening?, hBlank, hSame]
  · cases hFound

/- Where no comment starts none does if more lines follow. -/
theorem opening?_none
    {afterBlank : Bool}
    {c : Char}
    {cs : List Char}
    (hNone : opening? afterBlank (c :: cs) = none)
    (rest : List Char) :
    opening? afterBlank (c :: (cs ++ '\n' :: rest)) = none := by
  unfold opening?
  split
  · next body hText =>
      rcases cs with _ | ⟨c1, cs⟩
      · simp at hText
      · simp only [List.cons_append, List.cons.injEq] at hText
        rcases hText with ⟨rfl, rfl, _⟩
        simp [opening?] at hNone
  · next body hText =>
      rcases cs with _ | ⟨c1, _ | ⟨c2, _ | ⟨c3, cs⟩⟩⟩
      · simp at hText
      · simp at hText
      · simp at hText
      · simp only [List.cons_append, List.cons.injEq] at hText
        rcases hText with ⟨rfl, rfl, rfl, rfl, _⟩
        simp [opening?] at hNone
  · next body hText =>
      rcases cs with _ | ⟨c1, cs⟩
      · simp at hText
      · simp only [List.cons_append, List.cons.injEq] at hText
        rcases hText with ⟨rfl, rfl, _⟩
        cases afterBlank with
        | true => simp [opening?] at hNone
        | false => rfl
  · rfl

/-
  Comments that are all closed in some lines are blanked alike
  if more lines follow, and those of the lines that follow as
  at the start of a text.
-/
theorem blankFrom_join
    {inside : Nat}
    {afterBlank : Bool}
    {p : Position}
    {cs : List Char}
    (hInside : inside ≤ cs.length)
    (hClosed : (blankFrom inside afterBlank p cs).2 = [])
    (rest : List Char) :
    blankFrom inside afterBlank p (cs ++ '\n' :: rest) =
      ((blankFrom inside afterBlank p cs).1
          ++ '\n'
            :: (blankFrom 0 true (p.advanceBy (cs ++ ['\n']))
              rest).1,
        (blankFrom 0 true (p.advanceBy (cs ++ ['\n']))
          rest).2) := by
  induction cs generalizing inside afterBlank p with
  | nil =>
      rw [Nat.le_zero.mp hInside]
      rfl
  | cons c cs ih =>
      cases inside with
      | succ inside =>
          have hRest :=
            ih (Nat.le_of_succ_le_succ hInside) hClosed
          simp only [List.cons_append, blankFrom, hRest,
            List.append_assoc, Position.advanceBy_cons]
      | zero =>
          cases hOpening : opening? afterBlank (c :: cs) with
          | none =>
              simp only [blankFrom, hOpening] at hClosed
              have hRest := ih (Nat.zero_le _) hClosed
              simp only [List.cons_append, blankFrom, hOpening,
                opening?_none hOpening, hRest,
                Position.advanceBy_cons]
          | some found =>
              rcases found with ⟨length, closed⟩
              simp only [blankFrom, hOpening] at hClosed
              cases closed with
              | false => cases hClosed
              | true =>
                  rcases opening?_closed hOpening rest with
                    ⟨hSame, hBound⟩
                  have hRest :=
                    ih (Nat.sub_le_of_le_add hBound) hClosed
                  simp only [List.cons_append, blankFrom,
                    hOpening, hSame, hRest, List.append_assoc,
                    Position.advanceBy_cons, if_true]

/- Faults of comments move with the place of the text. -/
theorem blankFrom_shift
    (inside : Nat)
    (afterBlank : Bool)
    (p : Position)
    (cs : List Char) :
    blankFrom inside afterBlank (p.shift d) cs =
      ((blankFrom inside afterBlank p cs).1,
        (blankFrom inside afterBlank p cs).2.map
          (SyntaxFault.shift d)) := by
  induction cs generalizing inside afterBlank p with
  | nil => cases inside <;> rfl
  | cons c cs ih =>
      cases inside with
      | succ inside =>
          simp only [blankFrom, Position.advance_shift, ih]
      | zero =>
          unfold blankFrom
          cases opening? afterBlank (c :: cs) with
          | none => simp only [Position.advance_shift, ih]
          | some found =>
              rcases found with ⟨length, closed⟩
              simp only [Position.advance_shift, ih]
              cases closed <;> rfl

/-
  Comments that are all closed in a text are blanked alike if
  there is a blank line and another text after it.  Those of
  the other text are blanked as in it alone.
-/
theorem blank_join
    {first second : List Char}
    (hClosed : (blank first).2 = []) :
    blank (first ++ '\n' :: '\n' :: second) =
      ((blank first).1 ++ '\n' :: '\n' :: (blank second).1,
        (blank second).2.map
          (SyntaxFault.shift
            (.below (first ++ ['\n', '\n'])))) := by
  have hPlace :
      (Position.start.advanceBy (first ++ ['\n'])).advance
          '\n' =
        Position.start.shift
          (.below (first ++ ['\n', '\n'])) := by
    have hBelow :=
      Position.advanceBy_below (first ++ ['\n'])
    rw [List.append_assoc] at hBelow
    rw [← Position.advanceBy_nil (Position.advance _ _),
      ← Position.advanceBy_cons, ← Position.advanceBy_append,
      List.append_assoc]
    exact hBelow
  have hGap : ∀ p,
      blankFrom 0 true p ('\n' :: second) =
        ('\n' :: (blankFrom 0 true (p.advance '\n') second).1,
          (blankFrom 0 true (p.advance '\n') second).2) :=
    fun _ => rfl
  rw [blank, blankFrom_join (Nat.zero_le _) hClosed, hGap,
    hPlace, blankFrom_shift]
  rfl

/- Blanking comments keeps the line feeds and the bytes. -/
theorem below_blank (cs after : List Char) :
    Shift.below ((blank cs).1 ++ after) =
      Shift.below (cs ++ after) := by
  have hEnd := ofEnd_shown (marks cs)
  rw [← blank_eq, marks_fst] at hEnd
  have hLines := congrArg Position.line hEnd
  have hBytes := congrArg Position.offset hEnd
  simp only [Position.widen, Position.ofEnd,
    Position.advanceBy_lines] at hLines
  simp only [Position.widen, Position.ofEnd_offset] at hBytes
  simp only [Shift.below, List.count_append,
    Text.byteSize_append, hBytes, Nat.add_left_cancel hLines]

end Comment

------------------------------------------------------------
-- Source Lines
------------------------------------------------------------

namespace Text

/- The parts of two texts with a separator between them. -/
theorem splitOn_append
    (sep : Char)
    (as bs : List Char) :
    splitOn sep (as ++ sep :: bs) =
      splitOn sep as ++ splitOn sep bs := by
  induction as with
  | nil => simp [splitOn]
  | cons a as ih =>
      rw [List.cons_append, splitOn, splitOn]
      split
      · rw [ih, List.cons_append]
      · rw [ih]
        cases hParts : splitOn sep as with
        | nil => exact absurd hParts (splitOn_ne_nil sep as)
        | cons part parts => rfl

end Text

namespace SourceLine

/- Move a line of a text down. -/
def shift (d : Shift) (line : SourceLine) : SourceLine :=
  { line with
    number := line.number + d.lines
    offset := line.offset + d.bytes }

/- Lines that are numbered from a later place are moved down. -/
theorem numbered_shift
    (first offset : Nat)
    (parts : List (List Char)) :
    numbered (first + d.lines) (offset + d.bytes) parts =
      (numbered first offset parts).map (shift d) := by
  induction parts generalizing first offset with
  | nil => rfl
  | cons part parts ih =>
      have hFirst : first + d.lines + 1 = first + 1 + d.lines :=
        Nat.add_right_comm _ _ _
      have hOffset :
          offset + d.bytes + Text.byteSize part + 1 =
            offset + Text.byteSize part + 1 + d.bytes := by
        omega
      simp only [numbered, List.map_cons, hFirst, hOffset, ih]
      rfl

/-
  The lines of a text and of the parts that follow it after a
  line feed.
-/
theorem numbered_splitOn_append
    (first offset : Nat)
    (cs : List Char)
    (parts : List (List Char)) :
    numbered first offset (Text.splitOn '\n' cs ++ parts) =
      numbered first offset (Text.splitOn '\n' cs)
        ++ numbered (first + cs.count '\n' + 1)
          (offset + Text.byteSize cs + 1) parts := by
  induction cs generalizing first offset with
  | nil => simp [Text.splitOn, numbered]
  | cons c cs ih =>
      rw [Text.splitOn]
      by_cases hFeed : c = '\n'
      · have hRest := ih (first + 1) (offset + 1)
        have hLine :
            first + 1 + cs.count '\n' + 1 =
              first + (c :: cs).count '\n' + 1 := by
          rw [List.count_cons, hFeed]
          simp
          omega
        have hOffset :
            offset + 1 + Text.byteSize cs + 1 =
              offset + Text.byteSize (c :: cs) + 1 := by
          rw [Text.byteSize_cons, hFeed]
          have hSize : '\n'.utf8Size = 1 := rfl
          omega
        rw [if_pos hFeed, ← hLine, ← hOffset]
        simp only [List.cons_append, numbered,
          Text.byteSize_nil, Nat.add_zero, hRest]
      · have hRest := ih first (offset + c.utf8Size)
        have hLine :
            (c :: cs).count '\n' = cs.count '\n' := by
          rw [List.count_cons]
          simp [hFeed]
        rw [if_neg hFeed, hLine, Text.byteSize_cons,
          ← Nat.add_assoc offset]
        cases hParts : Text.splitOn '\n' cs with
        | nil => exact absurd hParts (Text.splitOn_ne_nil _ _)
        | cons part others =>
            rw [hParts] at hRest
            simp only [List.cons_append, numbered] at hRest ⊢
            rw [Text.byteSize_cons, ← Nat.add_assoc offset,
              (List.cons.inj hRest).2]

/- The lines of a text that ends with a line feed. -/
theorem ofText_feed (cs : List Char) :
    ofText (cs ++ ['\n']) =
      numbered 1 0 (Text.splitOn '\n' cs) := by
  have hParts :
      Text.splitOn '\n' (cs ++ ['\n']) =
        Text.splitOn '\n' cs ++ [[]] :=
    Text.splitOn_append '\n' cs []
  unfold ofText
  rw [List.getLast?_concat, hParts, numbered_splitOn_append]
  exact List.dropLast_concat

/- The lines of a text that does not end with a line feed. -/
theorem ofText_open
    {cs : List Char}
    (hOpen : cs.getLast? ≠ some '\n') :
    ofText cs = numbered 1 0 (Text.splitOn '\n' cs) := by
  unfold ofText
  split
  · next hLast => exact absurd hLast hOpen
  · rfl

/-
  The lines of a text without the end of the last one are those
  of the text, and an empty one if it ends with a line feed.
-/
theorem numbered_splitOn (cs : List Char) :
    ∃ gaps, (∀ gap ∈ gaps, isBlank gap = true) ∧
      numbered 1 0 (Text.splitOn '\n' cs) =
        ofText cs ++ gaps := by
  by_cases hLast : cs.getLast? = some '\n'
  · rcases List.getLast?_eq_some_iff.mp hLast with ⟨lead, rfl⟩
    have hParts :
        Text.splitOn '\n' (lead ++ ['\n']) =
          Text.splitOn '\n' lead ++ [[]] :=
      Text.splitOn_append '\n' lead []
    refine
      ⟨numbered (1 + lead.count '\n' + 1)
          (0 + Text.byteSize lead + 1) [[]],
        List.forall_mem_singleton.mpr rfl, ?_⟩
    rw [hParts, numbered_splitOn_append, ofText_feed]
  · refine ⟨[], fun _ hNone => (by cases hNone), ?_⟩
    rw [ofText_open hLast, List.append_nil]

/-
  The lines of two texts with a blank line between them: those
  of the second one are moved down.
-/
theorem ofText_join
    {first second : List Char}
    (hSome : second ≠ []) :
    ∃ gaps, gaps ≠ [] ∧ (∀ gap ∈ gaps, isBlank gap = true) ∧
      ofText (first ++ '\n' :: '\n' :: second) =
        ofText first
          ++ (gaps
            ++ (ofText second).map
              (shift (.below (first ++ ['\n', '\n'])))) := by
  let d := Shift.below (first ++ ['\n', '\n'])
  let empty : SourceLine :=
    ⟨1 + first.count '\n' + 1, 0 + Text.byteSize first + 1, []⟩
  have hNumbered : ∀ cs,
      numbered 1 0
          (Text.splitOn '\n' (first ++ '\n' :: '\n' :: cs)) =
        numbered 1 0 (Text.splitOn '\n' first)
          ++ (empty
            :: (numbered 1 0 (Text.splitOn '\n' cs)).map
              (shift d)) := by
    intro cs
    have hLine : 1 + d.lines = 1 + first.count '\n' + 1 + 1 := by
      simp [d, Shift.below, Nat.add_assoc]
    have hOffset :
        0 + d.bytes = 0 + Text.byteSize first + 1 + 0 + 1 := by
      have hSize : '\n'.utf8Size = 1 := rfl
      simp [d, Shift.below, hSize]
    rw [Text.splitOn_append, numbered_splitOn_append,
      ← numbered_shift, hLine, hOffset]
    rfl
  have hWhole :
      ofText (first ++ '\n' :: '\n' :: second) =
        numbered 1 0 (Text.splitOn '\n' first)
          ++ (empty :: (ofText second).map (shift d)) := by
    by_cases hLast : second.getLast? = some '\n'
    · rcases List.getLast?_eq_some_iff.mp hLast with
        ⟨lead, rfl⟩
      have hText :
          first ++ '\n' :: '\n' :: (lead ++ ['\n']) =
            (first ++ '\n' :: '\n' :: lead) ++ ['\n'] := by
        simp
      rw [hText, ofText_feed, ofText_feed, hNumbered]
    · have hOpen :
          (first ++ '\n' :: '\n' :: second).getLast? ≠
            some '\n' := by
        simpa [List.getLast?_append,
          List.getLast?_cons_of_ne_nil hSome, hSome] using hLast
      rw [ofText_open hOpen, ofText_open hLast, hNumbered]
  rcases numbered_splitOn first with ⟨gaps, hBlank, hFirst⟩
  refine ⟨gaps ++ [empty], by simp, ?_, ?_⟩
  · exact
      List.forall_mem_append.mpr
        ⟨hBlank, List.forall_mem_singleton.mpr rfl⟩
  · rw [hWhole, hFirst]
    simp [d]

end SourceLine

------------------------------------------------------------
-- Lines of Tokens
------------------------------------------------------------

namespace Lexer

/- Move the tokens and faults that were found down. -/
def shiftFound
    (d : Shift)
    (found : List Token × List SyntaxFault) :
    List Token × List SyntaxFault :=
  (found.1.map (Token.shift d),
    found.2.map (SyntaxFault.shift d))

/- The token of a text moves with the text. -/
theorem textToken_shift (p : Position) (text : List Char) :
    textToken (p.shift d) text =
      (textToken p text).map (Token.shift d) := by
  unfold textToken
  split <;> rfl

/- The tokens of the rest of a line move with it. -/
theorem inlineFrom_shift
    (textStart : Position)
    (text : List Char)
    (afterBlank : Bool)
    (skip : Nat)
    (p : Position)
    (cs : List Char) :
    inlineFrom (textStart.shift d) text afterBlank skip
        (p.shift d) cs =
      shiftFound d
        (inlineFrom textStart text afterBlank skip p cs) := by
  induction cs generalizing textStart text afterBlank skip p with
  | nil =>
      cases skip <;>
        simp [inlineFrom, shiftFound, textToken_shift]
  | cons c cs ih =>
      cases skip with
      | succ skip =>
          simp only [inlineFrom, Position.advance_shift, ih]
      | zero =>
          have hStart :
              (if text.isEmpty then p.shift d
                else textStart.shift d) =
                (if text.isEmpty then p
                  else textStart).shift d := by
            split <;> rfl
          simp only [inlineFrom, Position.advance_shift, hStart,
            ih]
          cases item afterBlank c cs with
          | plain => rfl
          | broken cause => rfl
          | token kind length =>
              simp only [shiftFound, textToken_shift,
                List.map_append, List.map_cons]
              rfl

/- The tokens of the content of a line move with it. -/
theorem content_shift
    (headAllowed : Bool)
    (p : Position)
    (cs : List Char) :
    content headAllowed (p.shift d) cs =
      shiftFound d (content headAllowed p cs) := by
  unfold content inlineTokens
  simp only [Position.advanceBy_shift, inlineFrom_shift]
  cases (if headAllowed = true then
      head (cs.dropWhile Text.isBlank) else .plain) with
  | plain => rfl
  | broken cause => rfl
  | token kind length => rfl

/- The tokens of a line after its indentation move with it. -/
theorem body_shift
    (indent : Nat)
    (p : Position)
    (cs : List Char) :
    body indent (p.shift d) cs =
      shiftFound d (body indent p cs) := by
  unfold body
  split
  · rfl
  · simp only [Position.advanceBy_shift, content_shift]
    rfl
  · exact content_shift true p cs

/- The line of tokens of a line of a text moves with it. -/
theorem line_shift (source : SourceLine) :
    line (source.shift d) =
      ((line source).1.shift d,
        (line source).2.map (SyntaxFault.shift d)) := by
  have hStart : (source.shift d).start = source.start.shift d :=
    rfl
  have hStop : (source.shift d).stop = source.stop.shift d :=
    Position.advanceBy_shift source.start source.text
  have hText : (source.shift d).text = source.text := rfl
  have hBlank : (source.shift d).isBlank = source.isBlank := rfl
  unfold line
  rw [hStart, hStop, hText, hBlank]
  split
  · rfl
  · simp only [Position.advanceBy_shift, body_shift]
    rfl

/- The lines of tokens of some lines move with them. -/
theorem linesOf_shift (sources : List SourceLine) :
    linesOf (sources.map (SourceLine.shift d)) =
      ((linesOf sources).1.map (Line.shift d),
        (linesOf sources).2.map (SyntaxFault.shift d)) := by
  have hLine : line ∘ SourceLine.shift d =
      fun source =>
        ((line source).1.shift d,
          (line source).2.map (SyntaxFault.shift d)) :=
    funext line_shift
  simp only [linesOf, List.map_map, hLine, List.flatMap_map,
    List.map_flatMap]
  rfl

/- The lines of tokens of lines that follow each other. -/
theorem linesOf_append (first second : List SourceLine) :
    linesOf (first ++ second) =
      ((linesOf first).1 ++ (linesOf second).1,
        (linesOf first).2 ++ (linesOf second).2) := by
  simp [linesOf]

/- Blank lines are gaps. -/
theorem linesOf_blank
    {sources : List SourceLine}
    (hBlank : ∀ source ∈ sources, source.isBlank = true) :
    (∀ gap ∈ (linesOf sources).1,
        ∃ position, gap = .gap position) ∧
      (linesOf sources).2 = [] := by
  have hLine : ∀ source ∈ sources,
      line source = (.gap source.start, []) := by
    intro source hSource
    rw [line, if_pos (hBlank source hSource)]
  constructor
  · intro gap hGap
    simp only [linesOf, List.map_map, List.mem_map] at hGap
    rcases hGap with ⟨source, hSource, rfl⟩
    exact ⟨source.start, by simp [hLine source hSource]⟩
  · simp only [linesOf, List.flatMap_map,
      List.flatMap_eq_nil_iff]
    intro source hSource
    rw [hLine source hSource]

------------------------------------------------------------
-- Front Matter
------------------------------------------------------------

/- There is no front matter if lines without it follow. -/
theorem frontMatter?_none_append
    {lines more : List SourceLine}
    (hNone : frontMatter? lines = none)
    (hMore : frontMatter? more = none) :
    frontMatter? (lines ++ more) = none := by
  unfold frontMatter? at hNone hMore ⊢
  rw [List.dropWhile_append]
  cases hFirst : lines.dropWhile SourceLine.isBlank with
  | nil => exact hMore
  | cons first rest =>
      rw [hFirst] at hNone
      simp only at hNone
      split at hNone
      · split at hNone <;> cases hNone
      · next hFence => simp [hFence]

/- Front matter that is closed is so if lines follow. -/
theorem frontMatter?_some_append
    {lines rest : List SourceLine}
    {found : FrontMatter}
    (hFound : frontMatter? lines = some (found, rest, []))
    (more : List SourceLine) :
    frontMatter? (lines ++ more) =
      some (found, rest ++ more, []) := by
  unfold frontMatter? at hFound ⊢
  rw [List.dropWhile_append]
  cases hFirst : lines.dropWhile SourceLine.isBlank with
  | nil =>
      rw [hFirst] at hFound
      cases hFound
  | cons first others =>
      rw [hFirst] at hFound
      simp only at hFound
      split at hFound
      · next hFence =>
          split at hFound
          · next fence after hClosed =>
              cases hFound
              have hTaken :
                  (others ++ more).takeWhile
                      (fun l => !l.isFence) =
                    others.takeWhile (fun l => !l.isFence) := by
                have hParts := congrArg List.length
                  (List.takeWhile_append_dropWhile
                    (p := fun l => !l.isFence) (l := others))
                rw [List.length_append, hClosed,
                  List.length_cons] at hParts
                rw [List.takeWhile_append, if_neg (by omega)]
              simp [hFence, List.dropWhile_append, hClosed,
                hTaken]
          · cases hFound
      · cases hFound

/-
  The front matter that some lines start with, the lines after
  it, and the faults of it.
-/
def frontOf (lines : List SourceLine) :
    Option FrontMatter × List SourceLine × List SyntaxFault :=
  match frontMatter? lines with
  | none => (none, lines, [])
  | some (found, rest, faults) => (some found, rest, faults)

/- All lines come after front matter that is not there. -/
theorem frontOf_none
    {lines : List SourceLine}
    (hNone : frontMatter? lines = none) :
    frontOf lines = (none, lines, []) := by
  rw [frontOf, hNone]

/- Only front matter that is not closed has faults. -/
theorem frontOf_faults (lines : List SourceLine) :
    ∀ fault ∈ (frontOf lines).2.2,
      fault.cause = .unterminatedFrontMatter := by
  unfold frontOf
  split
  · exact fun _ hNone => (by cases hNone)
  · next hFound =>
      rcases (frontMatter?_lines hFound).2 with
        ⟨_, _, _, hCauses⟩
      intro fault hFault
      rw [hCauses fault hFault]

/- More lines come after front matter that is closed. -/
theorem frontOf_append
    {lines more : List SourceLine}
    (hClosed : (frontOf lines).2.2 = [])
    (hMore : frontMatter? more = none) :
    frontOf (lines ++ more) =
      ((frontOf lines).1, (frontOf lines).2.1 ++ more, []) := by
  cases hFront : frontMatter? lines with
  | none =>
      rw [frontOf_none hFront,
        frontOf_none (frontMatter?_none_append hFront hMore)]
  | some front =>
      rcases front with ⟨found, rest, faults⟩
      have hLines :
          frontOf lines = (some found, rest, faults) := by
        rw [frontOf, hFront]
      rw [hLines] at hClosed ⊢
      have hEnded : faults = [] := hClosed
      subst hEnded
      rw [frontOf, frontMatter?_some_append hFront]

/-
  Lines that start with one that is neither blank nor a fence
  have no front matter, even after some blank lines.
-/
theorem frontMatter?_below
    {gaps sources : List SourceLine}
    (hGaps : ∀ gap ∈ gaps, gap.isBlank = true)
    {source : SourceLine}
    (hBlank : source.isBlank = false)
    (hFence : source.isFence = false) :
    frontMatter? (gaps ++ source :: sources) = none := by
  unfold frontMatter?
  rw [List.dropWhile_append_of_pos hGaps]
  simp [hBlank, hFence]

------------------------------------------------------------
-- Documents
------------------------------------------------------------

/- The tokens of a text are those after its front matter. -/
theorem lex_eq (input : String) :
    let blanked := Comment.blank input.toList
    let front := frontOf (SourceLine.ofText blanked.1)
    lex input =
      ⟨front.1, (linesOf front.2.1).1,
        Position.ofEnd input.toList,
        blanked.2 ++ front.2.2 ++ (linesOf front.2.1).2⟩ := by
  intro blanked front
  cases hFront :
      frontMatter? (SourceLine.ofText blanked.1) with
  | none =>
      have hBare : front = _ := frontOf_none hFront
      rw [hBare, List.append_nil]
      simp only [lex, blanked, hFront]
  | some found =>
      have hFound : front = (some found.1, found.2) := by
        simp only [front, frontOf, hFront]
      rw [hFound]
      simp only [lex, blanked, hFront]

/- All comments and the front matter of a text are closed. -/
def Closed (input : String) : Prop :=
  ∀ fault ∈ (lex input).faults,
    fault.cause ≠ .unterminatedComment ∧
      fault.cause ≠ .unterminatedFrontMatter

section Closing

variable {input : String}

/- A text that closes its comments has no faults of them. -/
theorem Closed.comments (hClosed : Closed input) :
    (Comment.blank input.toList).2 = [] := by
  apply List.eq_nil_iff_forall_not_mem.mpr
  intro fault hFault
  have hCause := (Comment.blank_faults _ fault hFault).1
  refine (hClosed fault ?_).1 hCause
  rw [lex_eq]
  exact List.mem_append_left _ (List.mem_append_left _ hFault)

/- Nor has one that closes its front matter faults of it. -/
theorem Closed.frontMatter (hClosed : Closed input) :
    (frontOf
      (SourceLine.ofText
        (Comment.blank input.toList).1)).2.2 = [] := by
  apply List.eq_nil_iff_forall_not_mem.mpr
  intro fault hFault
  have hCause := frontOf_faults _ fault hFault
  refine (hClosed fault ?_).2 hCause
  rw [lex_eq]
  exact List.mem_append_left _ (List.mem_append_right _ hFault)

end Closing

/-
  The lines of two texts with a blank line between them, if the
  first one is closed, and the second one starts with neither a
  blank line nor a fence.
-/
theorem lex_join
    {first second : String}
    (hClosed : Closed first)
    (hShift : Shift.below (first.toList ++ ['\n', '\n']) = d)
    {source : SourceLine}
    {sources : List SourceLine}
    (hSecond :
      SourceLine.ofText (Comment.blank second.toList).1 =
        source :: sources)
    (hBlank : source.isBlank = false)
    (hFence : source.isFence = false) :
    let whole := lex (first ++ "\n\n" ++ second)
    ∃ gaps, gaps ≠ [] ∧
      (∀ gap ∈ gaps, ∃ position, gap = Line.gap position) ∧
      whole.frontMatter = (lex first).frontMatter ∧
      whole.lines =
        (lex first).lines
          ++ (gaps ++ (lex second).lines.map (Line.shift d)) ∧
      whole.faults.Perm
        ((lex first).faults
          ++ (lex second).faults.map (SyntaxFault.shift d)) := by
  intro whole
  have hSome : (Comment.blank second.toList).1 ≠ [] := by
    intro hNone
    rw [hNone] at hSecond
    cases hSecond
    cases hBlank
  have hText :
      Comment.blank (first ++ "\n\n" ++ second).toList =
        ((Comment.blank first.toList).1
            ++ '\n' :: '\n' :: (Comment.blank second.toList).1,
          (Comment.blank second.toList).2.map
            (SyntaxFault.shift d)) := by
    rw [← hShift, ← Comment.blank_join hClosed.comments]
    simp
  rcases @SourceLine.ofText_join
      (Comment.blank first.toList).1 _ hSome with
    ⟨gaps, hGaps, hAllBlank, hLines⟩
  rw [Comment.below_blank, hShift, hSecond] at hLines
  rcases linesOf_blank hAllBlank with ⟨hGapLines, hNoFaults⟩
  have hAlone : frontMatter? (source :: sources) = none :=
    @frontMatter?_below [] sources
      (fun _ hNone => (by cases hNone)) source hBlank hFence
  have hBelow :
      frontMatter?
          (gaps ++ (source :: sources).map (SourceLine.shift d)) =
        none :=
    frontMatter?_below hAllBlank hBlank hFence
  have hWhole : whole = _ := lex_eq _
  have hLexFirst : lex first = _ := lex_eq first
  have hLexSecond : lex second = _ := lex_eq second
  rw [hText, hLines,
    frontOf_append hClosed.frontMatter hBelow] at hWhole
  rw [hClosed.comments, hClosed.frontMatter] at hLexFirst
  rw [hSecond, frontOf_none hAlone] at hLexSecond
  rw [hWhole, hLexFirst, hLexSecond]
  refine ⟨(linesOf gaps).1, ?_, hGapLines, rfl, ?_, ?_⟩
  · simpa [linesOf] using hGaps
  · simp only [linesOf_append, linesOf_shift]
  · simp only [linesOf_append, linesOf_shift, hNoFaults,
      List.nil_append, List.append_nil, List.map_append]
    exact List.perm_append_comm_assoc _ _ _

end Lexer

end Dialectic
