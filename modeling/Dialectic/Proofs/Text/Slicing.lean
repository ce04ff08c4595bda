import Dialectic.Proofs.Source.Walking
import Dialectic.Proofs.Text.Finding

/-
  Parts of a text given by numbers of bytes.  There is no such
  part if it would start or end inside a character or beyond
  the end of the text.

  Key definitions include:
    * `Text.dropBytes?`
    * `Text.takeBytes?`
    * `Text.slice?`
    * `Text.findBytes?`

  Main theorems:
    * `Text.dropBytes?_eq_some_iff`
    * `Text.takeBytes?_eq_some_iff`
    * `Text.slice?_eq_some_iff`
-/

namespace Dialectic.Text

------------------------------------------------------------
-- Parts of a Text
------------------------------------------------------------

/- What follows the given number of bytes. -/
def dropBytes? : (bytes : Nat) → List Char → Option (List Char)
| 0, cs => some cs
| _ + 1, [] => none
| bytes + 1, c :: cs =>
    if c.utf8Size ≤ bytes + 1 then
      dropBytes? (bytes + 1 - c.utf8Size) cs
    else
      none

/- The characters that the given number of bytes makes up. -/
def takeBytes? : (bytes : Nat) → List Char → Option (List Char)
| 0, _ => some []
| _ + 1, [] => none
| bytes + 1, c :: cs =>
    if c.utf8Size ≤ bytes + 1 then
      (takeBytes? (bytes + 1 - c.utf8Size) cs).map (c :: ·)
    else
      none

/- The part between two numbers of bytes. -/
def slice? (first last : Nat) (cs : List Char) :
    Option (List Char) :=
  if first ≤ last then
    (dropBytes? first cs).bind (takeBytes? (last - first))
  else
    none

/- The number of bytes before the first occurrence. -/
def findBytes? (needle cs : List Char) : Option Nat :=
  (find? needle cs).map (fun n => byteSize (cs.take n))

/- The number of bytes before the first `c`. -/
def findCharBytes? (c : Char) (cs : List Char) : Option Nat :=
  (findChar? c cs).map (fun n => byteSize (cs.take n))

------------------------------------------------------------
-- Where Parts Are
------------------------------------------------------------

variable {cs : List Char}

/- What is left once the bytes of a beginning are dropped. -/
theorem dropBytes?_append (before after : List Char) :
    dropBytes? (byteSize before) (before ++ after) =
      some after := by
  induction before with
  | nil => cases after <;> rfl
  | cons c before ih =>
      have hSize := c.utf8Size_pos
      rw [byteSize_cons, List.cons_append]
      obtain ⟨n, hn⟩ :
          ∃ n, c.utf8Size + byteSize before = n + 1 :=
        ⟨c.utf8Size + byteSize before - 1, by omega⟩
      have hRest : n + 1 - c.utf8Size = byteSize before := by
        omega
      rw [hn, dropBytes?, if_pos (by omega), hRest, ih]

/- The bytes of a beginning make it up. -/
theorem takeBytes?_append (before after : List Char) :
    takeBytes? (byteSize before) (before ++ after) =
      some before := by
  induction before with
  | nil => cases after <;> rfl
  | cons c before ih =>
      have hSize := c.utf8Size_pos
      rw [byteSize_cons, List.cons_append]
      obtain ⟨n, hn⟩ :
          ∃ n, c.utf8Size + byteSize before = n + 1 :=
        ⟨c.utf8Size + byteSize before - 1, by omega⟩
      have hRest : n + 1 - c.utf8Size = byteSize before := by
        omega
      rw [hn, takeBytes?, if_pos (by omega), hRest, ih]
      rfl

/- Bytes are dropped just at the ends of characters. -/
theorem dropBytes?_eq_some_iff
    {bytes : Nat}
    {after : List Char} :
    dropBytes? bytes cs = some after ↔
      ∃ before, cs = before ++ after ∧
        byteSize before = bytes := by
  constructor
  · intro hFound
    induction cs generalizing bytes with
    | nil =>
        cases bytes with
        | zero => exact ⟨[], by simpa [dropBytes?] using hFound⟩
        | succ bytes => cases hFound
    | cons c cs ih =>
        cases bytes with
        | zero => exact ⟨[], by simpa [dropBytes?] using hFound⟩
        | succ bytes =>
            rw [dropBytes?] at hFound
            split at hFound
            · next hFits =>
                rcases ih hFound with ⟨before, rfl, hSize⟩
                refine ⟨c :: before, rfl, ?_⟩
                rw [byteSize_cons]
                omega
            · cases hFound
  · rintro ⟨before, rfl, rfl⟩
    exact dropBytes?_append before after

/- Bytes make up characters just up to the end of one. -/
theorem takeBytes?_eq_some_iff
    {bytes : Nat}
    {before : List Char} :
    takeBytes? bytes cs = some before ↔
      ∃ after, cs = before ++ after ∧
        byteSize before = bytes := by
  constructor
  · intro hFound
    induction cs generalizing bytes before with
    | nil =>
        cases bytes with
        | zero =>
            cases hFound
            exact ⟨[], rfl, rfl⟩
        | succ bytes => cases hFound
    | cons c cs ih =>
        cases bytes with
        | zero =>
            cases hFound
            exact ⟨c :: cs, rfl, rfl⟩
        | succ bytes =>
            rw [takeBytes?] at hFound
            split at hFound
            · next hFits =>
                rcases Option.map_eq_some_iff.mp hFound with
                  ⟨part, hPart, rfl⟩
                rcases ih hPart with ⟨after, rfl, hSize⟩
                refine ⟨after, rfl, ?_⟩
                rw [byteSize_cons]
                omega
            · cases hFound
  · rintro ⟨after, rfl, rfl⟩
    exact takeBytes?_append before after

/- A part starts and ends at the ends of characters. -/
theorem slice?_eq_some_iff
    {first last : Nat}
    {part : List Char} :
    slice? first last cs = some part ↔
      ∃ before after, cs = before ++ part ++ after ∧
        byteSize before = first ∧
        first + byteSize part = last := by
  unfold slice?
  constructor
  · intro hFound
    split at hFound
    · next hOrder =>
        rcases Option.bind_eq_some_iff.mp hFound with
          ⟨rest, hRest, hPart⟩
        rcases dropBytes?_eq_some_iff.mp hRest with
          ⟨before, rfl, hSize⟩
        rcases takeBytes?_eq_some_iff.mp hPart with
          ⟨after, rfl, hLength⟩
        refine ⟨before, after, by simp, hSize, ?_⟩
        omega
    · cases hFound
  · rintro ⟨before, after, rfl, rfl, rfl⟩
    rw [if_pos (Nat.le_add_right _ _), List.append_assoc,
      dropBytes?_append, Option.bind_some,
      Nat.add_sub_cancel_left, takeBytes?_append]

/- What follows the bytes of some first characters. -/
theorem dropBytes?_take (n : Nat) (cs : List Char) :
    dropBytes? (byteSize (cs.take n)) cs = some (cs.drop n) :=
  dropBytes?_eq_some_iff.mpr
    ⟨cs.take n, (List.take_append_drop n cs).symm, rfl⟩

------------------------------------------------------------
-- Searching
------------------------------------------------------------

/- Before a character that occurs are those before it. -/
theorem findCharBytes?_append
    {c : Char}
    {before : List Char}
    (hNone : c ∉ before)
    (after : List Char) :
    findCharBytes? c (before ++ c :: after) =
      some (byteSize before) := by
  have hFound :
      findChar? c (before ++ c :: after) =
        some before.length :=
    findChar?_eq_some_iff.mpr
      ⟨before, after, rfl, rfl, hNone⟩
  rw [findCharBytes?, hFound, Option.map_some, List.take_left]

/- A character that does not occur is not found. -/
theorem findCharBytes?_eq_none
    {c : Char}
    (hNone : c ∉ cs) :
    findCharBytes? c cs = none := by
  rw [findCharBytes?, findChar?_eq_none_iff.mpr hNone,
    Option.map_none]

/- Each character has some byte. -/
theorem length_le_byteSize (cs : List Char) :
    cs.length ≤ byteSize cs := by
  induction cs with
  | nil => exact Nat.le_refl 0
  | cons c cs ih =>
      have hSize := c.utf8Size_pos
      rw [byteSize_cons, List.length_cons]
      omega

/- Characters of one byte each. -/
theorem byteSize_of_narrow
    (hNarrow : ∀ c ∈ cs, c.utf8Size = 1) :
    byteSize cs = cs.length := by
  induction cs with
  | nil => rfl
  | cons c cs ih =>
      rw [byteSize_cons, hNarrow c List.mem_cons_self,
        ih (fun d hd => hNarrow d (List.mem_cons_of_mem c hd)),
        List.length_cons, Nat.add_comm]

/- A decimal digit has one byte. -/
theorem isDigit_utf8Size
    {c : Char}
    (hDigit : isDigit c = true) :
    c.utf8Size = 1 := by
  have hLast : c ≤ '9' := by
    simp only [isDigit, Bool.and_eq_true, decide_eq_true_eq]
      at hDigit
    exact hDigit.2
  have hSmall : c.val ≤ 0x7f :=
    UInt32.le_trans hLast (by decide)
  exact if_pos hSmall

end Dialectic.Text
