import Dialectic.Document.Comment
import Dialectic.Proofs.Source.Walking

/-
  What blanking comments does to places: offsets and lines
  stay, but on the line of a comment each of its characters
  takes as many columns as it has bytes.

  Key definitions include:
    * `Comment.marks`
    * `Comment.shown`
    * `Comment.surplus`
    * `Comment.Splits`

  Main theorems:
    * `Comment.blank_eq`
    * `Comment.blank_faults`
    * `Comment.exists_marks_of_splits`
    * `Comment.ofEnd_shown`
-/

namespace Dialectic

namespace Comment

------------------------------------------------------------
-- Marks
------------------------------------------------------------

/-
  The characters of a text, each with whether it belongs to a
  comment.
-/
def marksFrom :
    (inside : Nat) →
    (afterBlank : Bool) →
    List Char →
    List (Char × Bool)
| _, _, [] => []
| inside + 1, _, c :: cs =>
    (c, true) :: marksFrom inside true cs
| 0, afterBlank, c :: cs =>
    match opening? afterBlank (c :: cs) with
    | some (length, _) =>
        (c, true) :: marksFrom (length - 1) true cs
    | none => (c, false) :: marksFrom 0 (Text.isBlank c) cs

/- The characters of a text, those of comments marked. -/
def marks (cs : List Char) : List (Char × Bool) :=
  marksFrom 0 true cs

/- What is left of a character when comments are blanked. -/
def shown : Char × Bool → List Char
| (c, true) => blankOf c
| (c, false) => [c]

/-
  By how many columns the place after a text is too far to the
  right, after one more character.
-/
def surplusAfter (columns : Nat) : Char × Bool → Nat
| (c, inside) =>
    if c = '\n' then 0
    else if inside then columns + (c.utf8Size - 1)
    else columns

/-
  The bytes beyond the first one of each character that stands
  in a comment on the last line of a text.
-/
def surplus (marked : List (Char × Bool)) : Nat :=
  marked.foldl surplusAfter 0

/- The marked characters are those of the text. -/
theorem marksFrom_fst
    (inside : Nat)
    (afterBlank : Bool)
    (cs : List Char) :
    (marksFrom inside afterBlank cs).map Prod.fst = cs := by
  induction cs generalizing inside afterBlank with
  | nil => cases inside <;> rfl
  | cons c cs ih =>
      cases inside with
      | succ inside => simp [marksFrom, ih]
      | zero =>
          unfold marksFrom
          cases opening? afterBlank (c :: cs) <;> simp [ih]

/- The marked characters are those of the text. -/
theorem marks_fst (cs : List Char) :
    (marks cs).map Prod.fst = cs :=
  marksFrom_fst 0 true cs

/- Blanking comments shows each character by itself. -/
theorem blankFrom_eq
    (inside : Nat)
    (afterBlank : Bool)
    (position : Position)
    (cs : List Char) :
    (blankFrom inside afterBlank position cs).1 =
      (marksFrom inside afterBlank cs).flatMap shown := by
  induction cs generalizing inside afterBlank position with
  | nil => cases inside <;> rfl
  | cons c cs ih =>
      cases inside with
      | succ inside =>
          simp [blankFrom, marksFrom, shown, ih]
      | zero =>
          unfold blankFrom marksFrom
          cases opening? afterBlank (c :: cs) with
          | none => simp [shown, ih]
          | some found => simp [shown, ih]

/- Blanking comments shows each character by itself. -/
theorem blank_eq (cs : List Char) :
    (blank cs).1 = (marks cs).flatMap shown :=
  blankFrom_eq 0 true Position.start cs

/-
  The only fault of comments is that one is not closed.  Its
  place is that of its first character.
-/
theorem blankFrom_faults
    (inside : Nat)
    (afterBlank : Bool)
    (before cs : List Char) :
    ∀ fault ∈ (blankFrom inside afterBlank
        (Position.ofEnd before) cs).2,
      fault.cause = .unterminatedComment ∧
        fault.position.IsPlaceIn (before ++ cs) := by
  have hNext : ∀ c, (Position.ofEnd before).advance c =
      Position.ofEnd (before ++ [c]) := by
    intro c
    rw [Position.ofEnd_append, Position.advanceBy_cons,
      Position.advanceBy_nil]
  induction cs generalizing inside afterBlank before with
  | nil => cases inside <;> simp [blankFrom]
  | cons c cs ih =>
      have hRest : ∀ rest blankBefore,
          ∀ fault ∈ (blankFrom rest blankBefore
              ((Position.ofEnd before).advance c) cs).2,
            fault.cause = .unterminatedComment ∧
              fault.position.IsPlaceIn (before ++ c :: cs) := by
        intro rest blankBefore
        rw [hNext]
        have hLater :=
          ih rest blankBefore (before ++ [c])
            (fun d => by
              rw [Position.ofEnd_append (before ++ [c]),
                Position.advanceBy_cons,
                Position.advanceBy_nil])
        rw [List.append_assoc] at hLater
        exact hLater
      cases inside with
      | succ inside => exact hRest inside true
      | zero =>
          unfold blankFrom
          cases opening? afterBlank (c :: cs) with
          | none => exact hRest 0 (Text.isBlank c)
          | some found =>
              rcases found with ⟨length, closed⟩
              cases closed with
              | true => exact hRest (length - 1) true
              | false =>
                  intro fault hFault
                  rcases List.mem_cons.mp hFault with
                    hHere | hLater
                  · rw [hHere]
                    exact ⟨rfl, before, c :: cs, rfl, rfl⟩
                  · exact hRest (length - 1) true fault hLater

/-
  The only fault of comments is that one is not closed.  Its
  place is that of its first character.
-/
theorem blank_faults (cs : List Char) :
    ∀ fault ∈ (blank cs).2,
      fault.cause = .unterminatedComment ∧
        fault.position.IsPlaceIn cs :=
  blankFrom_faults 0 true [] cs

------------------------------------------------------------
-- Places between Characters
------------------------------------------------------------

/-
  A text is split where no space stands on both sides.  So no
  character of a comment is split.
-/
def Splits (text before after : List Char) : Prop :=
  text = before ++ after ∧
    ¬ (before.getLast? = some ' ' ∧ after.head? = some ' ')

/- What is left of a character is itself or a row of spaces. -/
theorem shown_cases (m : Char × Bool) :
    (∃ c, shown m = [c]) ∨
      ∃ n, shown m = List.replicate n ' ' ∧ 0 < n := by
  rcases m with ⟨c, inside⟩
  cases inside with
  | false => exact .inl ⟨c, rfl⟩
  | true =>
      by_cases hFeed : c = '\n'
      · exact .inl ⟨'\n', by simp [shown, blankOf, hFeed]⟩
      · exact
          .inr ⟨c.utf8Size, by simp [shown, blankOf, hFeed],
            c.utf8Size_pos⟩

/- A row of spaces is not split. -/
theorem replicate_split
    {n : Nat}
    {before after rest : List Char}
    (hSplit :
      List.replicate n ' ' ++ rest = before ++ after)
    (hApart :
      ¬ (before.getLast? = some ' ' ∧
        after.head? = some ' '))
    (hSome : before ≠ []) :
    List.replicate n ' ' <+: before := by
  rcases List.prefix_or_prefix_of_prefix
      (List.prefix_append (List.replicate n ' ') rest)
      (hSplit ▸ List.prefix_append before after) with
    hAll | ⟨more, hMore⟩
  · exact hAll
  · cases more with
    | nil =>
        rw [List.append_nil] at hMore
        exact hMore ▸ List.prefix_rfl
    | cons d more =>
        exfalso
        have hSpaces : ∀ c ∈ before ++ d :: more, c = ' ' := by
          intro c hc
          rw [hMore] at hc
          exact List.eq_of_mem_replicate hc
        have hAfter : after = d :: more ++ rest := by
          rw [← hMore, List.append_assoc] at hSplit
          exact (List.append_cancel_left hSplit).symm
        apply hApart
        constructor
        · rw [List.getLast?_eq_some_getLast hSome]
          exact
            congrArg some
              (hSpaces _
                (List.mem_append_left _
                  (List.getLast_mem hSome)))
        · rw [hAfter]
          exact
            congrArg some
              (hSpaces d
                (List.mem_append_right _ List.mem_cons_self))

/- A split of what is shown is one of the marked characters. -/
theorem exists_marks_of_splits
    {marked : List (Char × Bool)}
    {before after : List Char}
    (hSplits : Splits (marked.flatMap shown) before after) :
    ∃ first rest, marked = first ++ rest ∧
      before = first.flatMap shown := by
  induction marked generalizing before with
  | nil =>
      refine ⟨[], [], rfl, ?_⟩
      exact (List.append_eq_nil_iff.mp hSplits.1.symm).1
  | cons m marked ih =>
      rcases hSplits with ⟨hText, hApart⟩
      rw [List.flatMap_cons] at hText
      by_cases hNone : before = []
      · exact ⟨[], m :: marked, rfl, hNone⟩
      have hFirst : shown m <+: before := by
        rcases shown_cases m with ⟨c, hc⟩ | ⟨n, hn, _⟩
        · rw [hc] at hText ⊢
          cases before with
          | nil => exact absurd rfl hNone
          | cons d before =>
              rw [List.cons_append, List.cons_append,
                List.cons.injEq] at hText
              rw [hText.1]
              exact ⟨before, rfl⟩
        · rw [hn] at hText ⊢
          exact replicate_split hText hApart hNone
      rcases hFirst with ⟨later, rfl⟩
      rw [List.append_assoc] at hText
      have hLater :
          Splits (marked.flatMap shown) later after := by
        refine ⟨List.append_cancel_left hText, ?_⟩
        rintro ⟨hLast, hHead⟩
        refine hApart ⟨?_, hHead⟩
        rw [List.getLast?_append, hLast]
        rfl
      rcases ih hLater with ⟨first, rest, hMarked, hBefore⟩
      exact
        ⟨m :: first, rest, by rw [hMarked]; rfl, by
          rw [hBefore, List.flatMap_cons]⟩

------------------------------------------------------------
-- Columns
------------------------------------------------------------

/- A row of spaces is passed on its line. -/
theorem advanceBy_spaces (p : Position) (n : Nat) :
    p.advanceBy (List.replicate n ' ') =
      ⟨p.line, p.column + n, p.offset + n⟩ := by
  induction n generalizing p with
  | zero => rfl
  | succ n ih =>
      have hSpace : p.advance ' ' =
          ⟨p.line, p.column + 1, p.offset + 1⟩ := rfl
      rw [List.replicate_succ, Position.advanceBy_cons, hSpace,
        ih]
      simp only [Position.mk.injEq, true_and]
      omega

/- What is shown of a character may widen its line. -/
theorem advanceBy_shown
    (p : Position)
    (columns : Nat)
    (m : Char × Bool) :
    (p.widen columns).advanceBy (shown m) =
      (p.advance m.1).widen (surplusAfter columns m) := by
  rcases m with ⟨c, inside⟩
  by_cases hFeed : c = '\n'
  · have hShown : shown (c, inside) = ['\n'] := by
      cases inside <;> simp [shown, blankOf, hFeed]
    rw [hShown, hFeed]
    rfl
  · cases inside with
    | false =>
        simp only [shown, Position.advanceBy_cons,
          Position.advanceBy_nil, Position.advance, hFeed,
          Position.widen, surplusAfter, if_false,
          Bool.false_eq_true, Position.mk.injEq, and_true,
          true_and]
        omega
    | true =>
        have hSize := c.utf8Size_pos
        rw [shown, blankOf, if_neg hFeed, advanceBy_spaces]
        simp only [Position.widen, Position.advance,
          surplusAfter, if_neg hFeed, if_true,
          Position.mk.injEq, and_true, true_and]
        omega

/-
  The place after what is shown of a text is the place after
  the text, too far to the right by its surplus.
-/
theorem ofEnd_shown (marked : List (Char × Bool)) :
    Position.ofEnd (marked.flatMap shown) =
      (Position.ofEnd (marked.map Prod.fst)).widen
        (surplus marked) := by
  have hFrom : ∀ (ms : List (Char × Bool)) (p : Position)
      (columns : Nat),
      (p.widen columns).advanceBy (ms.flatMap shown) =
        (p.advanceBy (ms.map Prod.fst)).widen
          (ms.foldl surplusAfter columns) := by
    intro ms
    induction ms with
    | nil => exact fun _ _ => rfl
    | cons m ms ih =>
        intro p columns
        rw [List.flatMap_cons, Position.advanceBy_append,
          advanceBy_shown, ih]
        rfl
  exact hFrom marked Position.start 0

end Comment

end Dialectic
