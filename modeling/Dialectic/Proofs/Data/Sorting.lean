import Dialectic.Data.Sequence
import Mathlib.Data.List.Basic

/-
  Sorting a list by a key keeps its items, and the keys do not
  decrease.  Sorting texts keeps them, too, but each once.

  Main theorems:
    * `Sequence.insertBefore_perm`
    * `Sequence.insertBefore_pairwise`
    * `Sequence.sortBy_perm`
    * `Sequence.sortBy_pairwise`
    * `Sequence.mem_sortedTexts`
-/

namespace Dialectic

namespace Sequence

variable {α : Type}

/- Inserting an item adds it. -/
theorem insertBefore_perm
    (before : α → α → Bool)
    (a : α)
    (as : List α) :
    (insertBefore before a as).Perm (a :: as) := by
  induction as with
  | nil => exact List.Perm.refl [a]
  | cons b as ih =>
      by_cases hHere : before a b = true
      · rw [insertBefore, if_pos hHere]
      · rw [insertBefore, if_neg hHere]
        exact (ih.cons b).trans (List.Perm.swap a b as)

/- Inserting items one by one adds them. -/
theorem foldl_insertBefore_perm
    (before : α → α → Bool)
    (as sorted : List α) :
    (as.foldl (fun sorted a => insertBefore before a sorted)
        sorted).Perm (sorted ++ as) := by
  induction as generalizing sorted with
  | nil => simp
  | cons a as ih =>
      have hFirst :
          (insertBefore before a sorted ++ as).Perm
            (a :: sorted ++ as) :=
        (insertBefore_perm before a sorted).append_right as
      exact
        (ih _).trans (hFirst.trans List.perm_middle.symm)

/- Sorting keeps the items of a list. -/
theorem sortBy_perm (key : α → Nat) (as : List α) :
    (sortBy key as).Perm as :=
  foldl_insertBefore_perm _ as []

/- Inserting an item keeps keys that do not decrease so. -/
theorem insertBefore_pairwise
    (key : α → Nat)
    (a : α)
    {as : List α}
    (hSorted : as.Pairwise (fun b c => key b ≤ key c)) :
    (insertBefore (fun b c => decide (key b < key c)) a
      as).Pairwise (fun b c => key b ≤ key c) := by
  induction as with
  | nil => exact List.pairwise_singleton _ a
  | cons b as ih =>
      rcases List.pairwise_cons.mp hSorted with
        ⟨hFirst, hRest⟩
      by_cases hHere : key a < key b
      · rw [insertBefore, if_pos (decide_eq_true hHere),
          List.pairwise_cons]
        refine ⟨?_, hSorted⟩
        intro c hc
        rcases List.mem_cons.mp hc with rfl | hLater
        · exact Nat.le_of_lt hHere
        · exact
            Nat.le_trans (Nat.le_of_lt hHere) (hFirst c hLater)
      · rw [insertBefore, if_neg (by simpa using hHere),
          List.pairwise_cons]
        refine ⟨?_, ih hRest⟩
        intro c hc
        have hItems :=
          (insertBefore_perm _ a as).mem_iff.mp hc
        rcases List.mem_cons.mp hItems with rfl | hLater
        · exact Nat.le_of_not_lt hHere
        · exact hFirst c hLater

/- The keys of a sorted list do not decrease. -/
theorem sortBy_pairwise (key : α → Nat) (as : List α) :
    (sortBy key as).Pairwise (fun b c => key b ≤ key c) := by
  have hAll : ∀ sorted : List α,
      sorted.Pairwise (fun b c => key b ≤ key c) →
        (as.foldl
          (fun sorted a =>
            insertBefore (fun b c => decide (key b < key c)) a
              sorted)
          sorted).Pairwise (fun b c => key b ≤ key c) := by
    induction as with
    | nil => exact fun _ hSorted => hSorted
    | cons a as ih =>
        exact fun sorted hSorted =>
          ih _ (insertBefore_pairwise key a hSorted)
  exact hAll [] List.Pairwise.nil

------------------------------------------------------------
-- Texts
------------------------------------------------------------

/- Inserting a text adds it. -/
theorem mem_insertText
    {t u : String}
    {us : List String} :
    u ∈ insertText t us ↔ u = t ∨ u ∈ us := by
  induction us with
  | nil => simp [insertText]
  | cons v us ih =>
      unfold insertText
      split
      · exact List.mem_cons
      · split
        · next hSame => simp [hSame]
        · rw [List.mem_cons, ih, List.mem_cons,
            or_left_comm]

/- The sorted texts are those of the list. -/
theorem mem_sortedTexts
    {ts : List String}
    {t : String} :
    t ∈ sortedTexts ts ↔ t ∈ ts := by
  have hAll : ∀ sorted : List String,
      t ∈ ts.foldl (fun sorted u => insertText u sorted)
          sorted ↔
        t ∈ sorted ∨ t ∈ ts := by
    induction ts with
    | nil => simp
    | cons u ts ih =>
        intro sorted
        rw [List.foldl_cons, ih, mem_insertText,
          List.mem_cons]
        tauto
  simpa [sortedTexts] using hAll []

end Sequence

end Dialectic
