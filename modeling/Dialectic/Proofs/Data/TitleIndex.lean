import Dialectic.Data.TitleIndex
import Dialectic.Proofs.Data.Sequence
import Mathlib.Data.List.Induction

/-
  An index of titles has for each title the last of its places.

  Main theorems:
    * `TitleIndex.get?_insert`
    * `TitleIndex.get?_ofTitles`
    * `TitleIndex.get?_ofTitles_eq_some_iff`
-/

namespace Dialectic

namespace TitleIndex

/- The place of a title in entries of which one is first. -/
theorem lookup_cons_eq
    (title sought : String)
    (place : Nat)
    (entries : List (String × Nat)) :
    ((title, place) :: entries).lookup sought =
      if sought = title then some place
      else entries.lookup sought := by
  rw [List.lookup_cons]
  by_cases hSought : sought = title
  · simp [hSought]
  · rw [beq_false_of_ne hSought, if_neg hSought]

/- The place of a title in entries that one was put in. -/
theorem lookup_putEntry
    (title sought : String)
    (place : Nat)
    (entries : List (String × Nat)) :
    (putEntry title place entries).lookup sought =
      if sought = title then some place
      else entries.lookup sought := by
  induction entries with
  | nil => exact lookup_cons_eq title sought place []
  | cons entry entries ih =>
      rcases entry with ⟨other, known⟩
      unfold putEntry
      split
      · next hTitle =>
          subst hTitle
          simp only [lookup_cons_eq]
          split <;> rfl
      · next hTitle =>
          simp only [lookup_cons_eq, ih]
          by_cases hSought : sought = other
          · simp [hSought, Ne.symm hTitle]
          · simp [hSought]

/- Only the title that is put at a place gets another one. -/
theorem get?_insert
    (index : TitleIndex)
    (title sought : String)
    (place : Nat) :
    (index.insert title place).get? sought =
      if sought = title then some place
      else index.get? sought :=
  lookup_putEntry title sought place index.entries

/- The place of a title is the last one where it is. -/
theorem get?_ofTitles (titles : List String) (title : String) :
    (ofTitles titles).get? title =
      Sequence.lastIndex? (· == title) titles := by
  induction titles using List.reverseRecOn with
  | nil => rfl
  | append_singleton titles last ih =>
      rw [ofTitles_concat, get?_insert, ih,
        Sequence.lastIndex?_append]
      by_cases hLast : title = last
      · simp [hLast]
      · simp [hLast, Ne.symm hLast]

/- Titles that occur once are each at their one place. -/
theorem get?_ofTitles_eq_some_iff
    {titles : List String}
    (hUnique : titles.Nodup)
    {title : String}
    {i : Nat} :
    (ofTitles titles).get? title = some i ↔
      titles[i]? = some title := by
  rw [get?_ofTitles, Sequence.lastIndex?_eq_some_iff]
  constructor
  · rintro ⟨⟨found, hHere, hSame⟩, _⟩
    rw [hHere, eq_of_beq hSame]
  · intro hHere
    refine ⟨⟨title, hHere, beq_self_eq_true title⟩, ?_⟩
    intro j other hLater hThere
    have hLess := (List.getElem?_eq_some_iff.mp hHere).1
    rw [beq_eq_false_iff_ne]
    rintro rfl
    have hSame :=
      (List.getElem?_inj hLess hUnique).mp
        (hHere.trans hThere.symm)
    exact Nat.ne_of_lt hLater hSame

end TitleIndex

end Dialectic
