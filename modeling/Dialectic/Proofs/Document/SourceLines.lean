import Dialectic.Document.Lexer
import Dialectic.Proofs.Document.Comments
import Dialectic.Proofs.Source.Shift

/-
  The lines of a text divide it at its line feeds, so they
  stand in it one after the other, each at the place that it
  says.

  Key definitions include:
    * `SourceLine.Divide`
    * `SourceLine.StandsIn`
    * `SourceLine.Above`

  Main theorems:
    * `Text.joinLines_splitOn`
    * `SourceLine.ofText_divide`
    * `SourceLine.ofText_standsIn`
    * `SourceLine.ofText_pairwise`
-/

namespace Dialectic

------------------------------------------------------------
-- Splitting at Line Feeds
------------------------------------------------------------

/- There is at least one part. -/
theorem Text.splitOn_ne_nil (sep : Char) (cs : List Char) :
    Text.splitOn sep cs ≠ [] := by
  cases cs with
  | nil => simp [Text.splitOn]
  | cons c cs =>
      rw [Text.splitOn]
      split
      · simp
      · cases Text.splitOn sep cs <;> simp

/- The parts between line feeds make up the text. -/
theorem Text.joinLines_splitOn (cs : List Char) :
    Lexer.joinLines (Text.splitOn '\n' cs) = cs := by
  induction cs with
  | nil => rfl
  | cons c cs ih =>
      rw [Text.splitOn]
      split
      · next hFeed =>
          cases hParts : Text.splitOn '\n' cs with
          | nil => exact absurd hParts (splitOn_ne_nil _ _)
          | cons part parts =>
              rw [hParts] at ih
              rw [Lexer.joinLines, ih, hFeed]
              · rfl
              · simp
      · cases hParts : Text.splitOn '\n' cs with
        | nil => exact absurd hParts (splitOn_ne_nil _ _)
        | cons part parts =>
            rw [hParts] at ih
            cases parts with
            | nil => simpa [Lexer.joinLines] using ih
            | cons next parts =>
                simpa [Lexer.joinLines] using ih

/- No part has a line feed in it. -/
theorem Text.not_mem_splitOn
    {sep : Char}
    {cs part : List Char}
    (hPart : part ∈ Text.splitOn sep cs) :
    sep ∉ part := by
  induction cs generalizing part with
  | nil =>
      rw [Text.splitOn, List.mem_singleton] at hPart
      simp [hPart]
  | cons c cs ih =>
      rw [Text.splitOn] at hPart
      split at hPart
      · rcases List.mem_cons.mp hPart with hHere | hLater
        · simp [hHere]
        · exact ih hLater
      · next hOther =>
          cases hParts : Text.splitOn sep cs with
          | nil => exact absurd hParts (splitOn_ne_nil _ _)
          | cons first parts =>
              rw [hParts] at hPart ih
              rcases List.mem_cons.mp hPart with hHere | hLater
              · rw [hHere, List.mem_cons, not_or]
                exact
                  ⟨Ne.symm hOther, ih List.mem_cons_self⟩
              · exact ih (List.mem_cons_of_mem first hLater)

/- There is one part more than there are separators. -/
theorem Text.length_splitOn (sep : Char) (cs : List Char) :
    (splitOn sep cs).length = cs.count sep + 1 := by
  induction cs with
  | nil => rfl
  | cons c cs ih =>
      rw [splitOn, List.count_cons]
      split
      · next hSame =>
          rw [List.length_cons, ih, if_pos (by simp [hSame])]
      · next hOther =>
          rw [if_neg (by simpa using hOther), Nat.add_zero, ← ih]
          cases hParts : splitOn sep cs with
          | nil => exact absurd hParts (splitOn_ne_nil _ _)
          | cons part parts => rfl

namespace SourceLine

------------------------------------------------------------
-- Dividing a Text
------------------------------------------------------------

/-
  A line of a text.  It stands between line feeds or the ends
  of the text.  Its number counts the line feeds before it, and
  its offset the bytes.  One carriage return at its end does
  not belong to it.
-/
def IsLineOf (text : List Char) (line : SourceLine) : Prop :=
  ∃ before ending after,
    text = before ++ line.text ++ ending ++ after ∧
      '\n' ∉ line.text ∧
      (before = [] ∨ before.getLast? = some '\n') ∧
      (after = [] ∨ after.head? = some '\n') ∧
      (ending = ['\r'] ∨
        ending = [] ∧ line.text.getLast? ≠ some '\r') ∧
      line.number = before.count '\n' + 1 ∧
      line.offset = Text.byteSize before

/-
  All lines of a text, in order.  Each line feed ends a line,
  and what follows the last one is a line, too, unless it is
  empty because a line feed ends the text.
-/
structure Divide (text : List Char) (lines : List SourceLine) :
    Prop where
  places : ∀ line ∈ lines, line.IsLineOf text
  numbers : lines.map SourceLine.number =
    List.range' 1
      (text.count '\n'
        + if text.getLast? = some '\n' then 0 else 1)

/- A carriage return at the end of a line is dropped. -/
theorem dropReturn_cases (cs : List Char) :
    ∃ ending, cs = dropReturn cs ++ ending ∧
      (ending = ['\r'] ∨
        ending = [] ∧ (dropReturn cs).getLast? ≠ some '\r') := by
  unfold dropReturn
  split
  · next hLast =>
      rcases List.getLast?_eq_some_iff.mp hLast with
        ⟨others, hEq⟩
      refine ⟨['\r'], ?_, .inl rfl⟩
      rw [hEq, List.dropLast_concat]
  · next hLast =>
      exact ⟨[], (List.append_nil cs).symm, .inr ⟨rfl, hLast⟩⟩

/- The lines of some parts divide them, from a place on. -/
theorem numbered_divide
    {parts : List (List Char)}
    (hParts : ∀ part ∈ parts, '\n' ∉ part)
    {before : List Char}
    (hBefore : before = [] ∨ before.getLast? = some '\n') :
    (∀ line ∈ numbered (before.count '\n' + 1)
        (Text.byteSize before) parts,
      line.IsLineOf (before ++ Lexer.joinLines parts)) ∧
      (numbered (before.count '\n' + 1) (Text.byteSize before)
          parts).map SourceLine.number =
        List.range' (before.count '\n' + 1) parts.length := by
  induction parts generalizing before with
  | nil => exact ⟨fun _ hNone => (by cases hNone), rfl⟩
  | cons part parts ih =>
      have hFree := hParts part List.mem_cons_self
      -- what follows this part: nothing, or a line feed
      have hRest : ∃ rest,
          Lexer.joinLines (part :: parts) = part ++ rest ∧
            (rest = [] ∨ rest.head? = some '\n') ∧
            (parts ≠ [] →
              rest = '\n' :: Lexer.joinLines parts) := by
        cases parts with
        | nil => exact ⟨[], by simp [Lexer.joinLines], by simp⟩
        | cons next parts =>
            exact ⟨_, rfl, .inr rfl, fun _ => rfl⟩
      rcases hRest with ⟨rest, hJoin, hHead, hFeed⟩
      have hNext :=
        @ih (fun p hp => hParts p (List.mem_cons_of_mem _ hp))
          (before ++ part ++ ['\n']) (.inr (by simp))
      have hCount : (before ++ part ++ ['\n']).count '\n' =
          before.count '\n' + 1 := by
        rw [List.count_append, List.count_append,
          List.count_eq_zero.mpr hFree]
        rfl
      have hSize : Text.byteSize (before ++ part ++ ['\n']) =
          Text.byteSize before + Text.byteSize part + 1 := by
        rw [Text.byteSize_append, Text.byteSize_append]
        rfl
      rw [hCount, hSize] at hNext
      constructor
      · intro line hLine
        rcases List.mem_cons.mp hLine with rfl | hLater
        · rcases dropReturn_cases part with
            ⟨ending, hPart, hEnding⟩
          refine ⟨before, ending, rest, ?_, ?_, hBefore, hHead,
            hEnding, rfl, rfl⟩
          · rw [hJoin]
            conv => lhs; rw [hPart]
            simp only [List.append_assoc]
          · rw [hPart] at hFree
            exact fun hMem =>
              hFree (List.mem_append_left ending hMem)
        · have hSome : parts ≠ [] := by
            rintro rfl
            exact absurd hLater List.not_mem_nil
          have hDivides := hNext.1 line hLater
          rw [hJoin, hFeed hSome]
          simpa only [List.append_assoc, List.singleton_append]
            using hDivides
      · rw [numbered, List.map_cons, hNext.2, List.length_cons,
          List.range'_succ]

/- The lines of a text are its parts, the last one may lack. -/
theorem ofText_sublist (cs : List Char) :
    (ofText cs).Sublist
      (numbered 1 0 (Text.splitOn '\n' cs)) := by
  unfold ofText
  simp only
  split
  · exact List.dropLast_sublist _
  · exact List.Sublist.refl _

/- The lines of a text divide it. -/
theorem ofText_divide (text : List Char) :
    Divide text (ofText text) := by
  have hParts : ∀ part ∈ Text.splitOn '\n' text, '\n' ∉ part :=
    fun _ hPart => Text.not_mem_splitOn hPart
  rcases numbered_divide hParts (.inl rfl) with
    ⟨hPlaces, hNumbers⟩
  rw [List.nil_append, Text.joinLines_splitOn] at hPlaces
  rw [Text.length_splitOn] at hNumbers
  constructor
  · exact fun line hLine =>
      hPlaces line ((ofText_sublist text).subset hLine)
  · unfold ofText
    simp only
    split
    · next hLast =>
        rw [if_pos hLast, List.map_dropLast]
        exact
          (congrArg List.dropLast hNumbers).trans
            (by simp [List.range'_concat])
    · next hLast =>
        rw [if_neg hLast]
        exact hNumbers

/- No line of a text has a line feed in it. -/
theorem ofText_noFeed (cs : List Char) :
    ∀ line ∈ ofText cs, '\n' ∉ line.text := by
  intro line hLine
  rcases (ofText_divide cs).places line hLine with
    ⟨_, _, _, _, hFeed, _⟩
  exact hFeed

------------------------------------------------------------
-- Places of Lines
------------------------------------------------------------

/-
  A line stands in a text at the place that it says, and no
  space stands next to it.
-/
def StandsIn (text : List Char) (line : SourceLine) : Prop :=
  ∃ before after,
    text = before ++ line.text ++ after ∧
      line.start = Position.ofEnd before ∧
      before.getLast? ≠ some ' ' ∧
      after.head? ≠ some ' '

/- A line ends before another one starts. -/
def Above (line below : SourceLine) : Prop :=
  line.number < below.number ∧
    line.offset + Text.byteSize line.text < below.offset

/- The place where a line starts counts what is before it. -/
theorem ofEnd_break
    {before : List Char}
    (hBefore : before = [] ∨ before.getLast? = some '\n') :
    Position.ofEnd before =
      ⟨before.count '\n' + 1, 1, Text.byteSize before⟩ := by
  rcases hBefore with rfl | hLast
  · rfl
  · rcases List.getLast?_eq_some_iff.mp hLast with ⟨above, rfl⟩
    rw [Position.ofEnd, Position.advanceBy_below, Position.shift,
      Shift.below, Position.start]
    simp only [Nat.add_comm, Nat.zero_add]

/- The lines of a text stand in it. -/
theorem ofText_standsIn (cs : List Char) :
    ∀ line ∈ ofText cs, line.StandsIn cs := by
  intro line hLine
  rcases (ofText_divide cs).places line hLine with
    ⟨before, ending, after, hText, _, hBefore, hAfter, hEnding,
      hNumber, hOffset⟩
  refine ⟨before, ending ++ after, ?_, ?_, ?_, ?_⟩
  · rw [hText, List.append_assoc]
  · rw [ofEnd_break hBefore, start, hNumber, hOffset]
  · rcases hBefore with rfl | hLast
    · simp
    · rw [hLast]
      decide
  · rcases hEnding with rfl | ⟨rfl, _⟩
    · simp
    · rcases hAfter with rfl | hHead
      · simp
      · rw [List.nil_append, hHead]
        decide

/- The lines of a text come one below the other. -/
theorem ofText_pairwise (cs : List Char) :
    (ofText cs).Pairwise Above := by
  have hFrom : ∀ (parts : List (List Char))
      (first offset : Nat),
      (numbered first offset parts).Pairwise Above ∧
        ∀ line ∈ numbered first offset parts,
          first ≤ line.number ∧ offset ≤ line.offset := by
    intro parts
    induction parts with
    | nil => simp [numbered]
    | cons part parts ih =>
        intro first offset
        rcases ih (first + 1)
          (offset + Text.byteSize part + 1) with
          ⟨hPairs, hLater⟩
        have hSize :
            Text.byteSize (dropReturn part) ≤
              Text.byteSize part := by
          rcases dropReturn_cases part with ⟨ending, hEq, _⟩
          conv => rhs; rw [hEq]
          rw [Text.byteSize_append]
          exact Nat.le_add_right _ _
        refine ⟨List.pairwise_cons.mpr ⟨?_, hPairs⟩, ?_⟩
        · intro line hLine
          have hBelow := hLater line hLine
          constructor
          · exact hBelow.1
          · simp only
            omega
        · intro line hLine
          rcases List.mem_cons.mp hLine with hHere | hBelow
          · rw [hHere]
            exact ⟨Nat.le_refl _, Nat.le_refl _⟩
          · have hBound := hLater line hBelow
            constructor <;> omega
  exact (hFrom _ 1 0).1.sublist (ofText_sublist cs)

end SourceLine

end Dialectic
