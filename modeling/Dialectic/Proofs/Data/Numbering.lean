import Mathlib.Data.List.Nodup

/-
  Ids that are a letter with a running number.

  Key definitions include:
    * `Numbered`

  Main theorems:
    * `Numbered.append`
    * `Numbered.nodup`
    * `Numbered.next_not_mem`
    * `Numbered.ne_of_letters`
-/

namespace Dialectic

/- Numbers with the same digits are the same. -/
theorem toString_inj
    {m n : Nat}
    (hSame : toString m = toString n) :
    m = n := by
  have hDigits : Nat.toDigits 10 m = Nat.toDigits 10 n :=
    String.ofList_injective hSame
  calc
    m = Nat.ofDigitChars 10 (Nat.toDigits 10 m) 0 :=
      Nat.ofDigitChars_ten_toDigits.symm
    _ = Nat.ofDigitChars 10 (Nat.toDigits 10 n) 0 := by
      rw [hDigits]
    _ = n := Nat.ofDigitChars_ten_toDigits

/- The ids of a list are a letter and their index. -/
def Numbered (letter : Char) (ids : List String) : Prop :=
  ids =
    (List.range ids.length).map
      (fun i => letter.toString ++ toString i)

namespace Numbered

variable {letter : Char}
variable {ids : List String}

/- No ids are numbered. -/
theorem nil (letter : Char) : Numbered letter [] :=
  rfl

/- Ids stay numbered when the next one is added. -/
theorem append
    (hIds : Numbered letter ids) :
    Numbered letter
      (ids ++ [letter.toString ++ toString ids.length]) := by
  unfold Numbered at hIds ⊢
  rw [List.length_append, List.length_singleton,
    List.range_succ, List.map_append, ← hIds]
  rfl

/- A numbered id has a number below the length. -/
theorem eq_of_mem
    (hIds : Numbered letter ids)
    {id : String}
    (hMem : id ∈ ids) :
    ∃ i < ids.length, id = letter.toString ++ toString i := by
  rw [hIds] at hMem
  rcases List.mem_map.mp hMem with ⟨i, hi, hId⟩
  exact ⟨i, List.mem_range.mp hi, hId.symm⟩

/- Numbered ids are unique. -/
theorem nodup (hIds : Numbered letter ids) : ids.Nodup := by
  rw [hIds]
  apply List.nodup_range.map
  intro m n hSame
  exact
    toString_inj
      ((String.append_right_inj letter.toString).mp hSame)

/- The next id is a new one. -/
theorem next_not_mem (hIds : Numbered letter ids) :
    letter.toString ++ toString ids.length ∉ ids := by
  intro hMem
  rcases hIds.eq_of_mem hMem with ⟨i, hi, hSame⟩
  have hEq :=
    toString_inj
      ((String.append_right_inj letter.toString).mp hSame)
  omega

/- Ids of different letters are different. -/
theorem ne_of_letters
    {other : Char}
    {others : List String}
    (hIds : Numbered letter ids)
    (hOthers : Numbered other others)
    (hLetters : letter ≠ other)
    {id : String}
    (hMem : id ∈ ids) :
    id ∉ others := by
  intro hMemOther
  rcases hIds.eq_of_mem hMem with ⟨i, _, hId⟩
  rcases hOthers.eq_of_mem hMemOther with ⟨j, _, hOther⟩
  have hChars := congrArg String.toList (hId.symm.trans hOther)
  simp [Char.toString] at hChars
  exact hLetters hChars.1

end Numbered

end Dialectic
