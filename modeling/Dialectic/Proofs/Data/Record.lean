import Dialectic.Data.Layer

/-
  Looking up and changing the fields of records, which need
  not be in order for it.

  Key definitions include:
    * `Record.assign`

  Main theorems:
    * `Record.get?_insert_self`, `Record.get?_insert_ne`
    * `Record.get?_extend_of_not_mem`
    * `Record.get?_ofList_value`
    * `Record.assign_extend`
    * `Value.get?_layFieldsOver_of_none`
    * `Value.layFieldsOver_assign`
-/

namespace Dialectic

namespace Record

------------------------------------------------------------
-- Look-Up
------------------------------------------------------------

/- Looking up finds the value that was set. -/
@[simp]
theorem get?_insert_self
    (r : Record)
    (key : String)
    (value : Value) :
    get? (insert r key value) key = some value := by
  induction r with
  | nil => simp [insert, get?]
  | cons field rest ih =>
      rcases field with ⟨k, v⟩
      by_cases hBefore : key < k
      · simp [insert, get?, hBefore]
      · by_cases hSame : key = k
        · simp [insert, get?, hSame]
        · have hOther : ¬ k = key := fun h => hSame h.symm
          simp [insert, get?, hBefore, hSame, hOther, ih]

/- Setting one value leaves those of other keys. -/
theorem get?_insert_ne
    (r : Record)
    {key other : String}
    (value : Value)
    (hOther : key ≠ other) :
    get? (insert r key value) other = get? r other := by
  induction r with
  | nil => simp [insert, get?, hOther]
  | cons field rest ih =>
      rcases field with ⟨k, v⟩
      by_cases hBefore : key < k
      · simp [insert, get?, hBefore, hOther]
      · by_cases hSame : key = k
        · subst hSame
          simp [insert, get?, hOther]
        · simp [insert, get?, hBefore, hSame, ih]

/- Setting values leaves those of other keys. -/
theorem get?_extend_of_not_mem
    (r : Record)
    {fields : List (String × Value)}
    {key : String}
    (hAbsent : ∀ field ∈ fields, field.1 ≠ key) :
    get? (extend r fields) key = get? r key := by
  induction fields generalizing r with
  | nil => rfl
  | cons field rest ih =>
      have hRest : ∀ f ∈ rest, f.1 ≠ key := fun f hMem =>
        hAbsent f (List.mem_cons_of_mem _ hMem)
      calc
        get? (extend r (field :: rest)) key =
            get? (extend (insert r field.1 field.2) rest)
              key := rfl
        _ = get? (insert r field.1 field.2) key :=
            ih _ hRest
        _ = get? r key :=
            get?_insert_ne r field.2 (hAbsent field (by simp))

/- A key has no value exactly if no field has it. -/
theorem get?_eq_none_iff (r : Record) (key : String) :
    get? r key = none ↔ ∀ field ∈ r, field.1 ≠ key := by
  induction r with
  | nil => simp [get?]
  | cons field rest ih =>
      rcases field with ⟨k, v⟩
      by_cases hSame : k = key <;> simp [get?, hSame, ih]

/- Only keys that have no value yet get one. -/
theorem get?_addMissing
    (r fields : Record)
    (key : String) :
    get? (addMissing r fields) key =
      (get? r key).or (get? fields key) := by
  induction fields generalizing r with
  | nil => simp [addMissing, get?]
  | cons field rest ih =>
      rcases field with ⟨k, v⟩
      have hFirst :
          get? (if has r k then r else insert r k v) key =
            (get? r key).or (if k = key then some v else none) := by
        by_cases hSame : k = key
        · subst hSame
          cases hHere : get? r k with
          | some w => simp [has, hHere]
          | none => simp [has, hHere, get?_insert_self]
        · rw [if_neg hSame, Option.or_none]
          split
          · rfl
          · exact get?_insert_ne r v hSame
      have hStep :
          addMissing r ((k, v) :: rest) =
            addMissing (if has r k then r else insert r k v)
              rest := rfl
      rw [hStep, ih, hFirst, Option.or_assoc]
      congr 1
      by_cases hSame : k = key <;> simp [get?, hSame]

/- The value of a key in a list where only one field has it. -/
theorem get?_ofList_value
    {before after : List (String × Value)}
    {key : String}
    (value : Value)
    (hAfter : ∀ field ∈ after, field.1 ≠ key) :
    get? (ofList (before ++ (key, value) :: after)) key =
      some value := by
  have hSplit :
      ofList (before ++ (key, value) :: after) =
        extend (insert (ofList before) key value) after := by
    simp [ofList, extend]
  rw [hSplit, get?_extend_of_not_mem _ hAfter]
  exact get?_insert_self _ key value

------------------------------------------------------------
-- Assignment
------------------------------------------------------------

/- Replace the value of a key wherever it stands. -/
def assign
    (r : Record)
    (key : String)
    (value : Value) : Record :=
  r.map (fun field =>
    if field.1 = key then (key, value) else field)

/- Replacing one value leaves those of other keys. -/
theorem get?_assign_ne
    (r : Record)
    {key other : String}
    (value : Value)
    (hOther : key ≠ other) :
    get? (assign r key value) other = get? r other := by
  induction r with
  | nil => rfl
  | cons field rest ih =>
      rcases field with ⟨k, v⟩
      unfold assign at ih ⊢
      by_cases hKey : k = key
      · subst hKey
        simpa [get?, hOther] using ih
      · by_cases hSame : k = other
        · have hTop : ¬ other = key := fun h => hOther h.symm
          simp [get?, hSame, hTop]
        · simp [get?, hKey, hSame, ih]

/- Looking up finds the value that replaces another one. -/
theorem get?_assign_self
    (r : Record)
    {key : String}
    (value : Value)
    (hPresent : get? r key ≠ none) :
    get? (assign r key value) key = some value := by
  induction r with
  | nil => exact absurd rfl hPresent
  | cons field rest ih =>
      rcases field with ⟨k, v⟩
      by_cases hKey : k = key
      · simp [assign, get?, hKey]
      · have hRest : get? rest key ≠ none := by
          simpa [get?, hKey] using hPresent
        simpa [assign, get?, hKey] using ih hRest

/- Replacing a value that is not there changes nothing. -/
theorem assign_of_none
    (r : Record)
    {key : String}
    (value : Value)
    (hAbsent : get? r key = none) :
    assign r key value = r := by
  rw [get?_eq_none_iff] at hAbsent
  calc
    assign r key value = r.map id := by
      apply List.map_congr_left
      intro field hMem
      simp [hAbsent field hMem]
    _ = r := List.map_id r

/- Fields that are chosen without a key keep when it changes. -/
theorem filter_assign
    (r : Record)
    {key : String}
    (value : Value)
    (keeps : String → Bool)
    (hKey : keeps key = false) :
    (assign r key value).filter (fun f => keeps f.1) =
      r.filter (fun f => keeps f.1) := by
  induction r with
  | nil => rfl
  | cons field rest ih =>
      rcases field with ⟨k, v⟩
      unfold assign at ih ⊢
      by_cases hSame : k = key
      · subst hSame
        simpa [hKey] using ih
      · simp [hSame, List.filter_cons, ih]

/- Values of different keys may be set in any order. -/
theorem assign_insert_ne
    (r : Record)
    {key other : String}
    (value given : Value)
    (hOther : other ≠ key) :
    assign (insert r other given) key value =
      insert (assign r key value) other given := by
  induction r with
  | nil => simp [assign, insert, hOther]
  | cons field rest ih =>
      rcases field with ⟨k, v⟩
      unfold assign at ih ⊢
      by_cases hBefore : other < k
      · by_cases hKey : k = key
        · subst hKey
          simp [insert, hBefore, hOther]
        · simp [insert, hBefore, hOther, hKey]
      · by_cases hSame : other = k
        · subst hSame
          simp [insert, hOther]
        · by_cases hKey : k = key
          · subst hKey
            simpa [insert, hBefore, hSame] using ih
          · simpa [insert, hBefore, hSame, hKey] using ih

/- A value that was set is replaced. -/
theorem assign_insert_self
    (r : Record)
    {key : String}
    (value given : Value)
    (hAbsent : get? r key = none) :
    assign (insert r key given) key value =
      insert r key value := by
  induction r with
  | nil => simp [assign, insert]
  | cons field rest ih =>
      rcases field with ⟨k, v⟩
      have hKey : ¬ k = key := by
        intro h
        simp [get?, h] at hAbsent
      have hRest : get? rest key = none := by
        simpa [get?, hKey] using hAbsent
      have hKeep := assign_of_none rest value hRest
      have hInsert := ih hRest
      unfold assign at hKeep hInsert ⊢
      have hSame : ¬ key = k := fun h => hKey h.symm
      by_cases hBefore : key < k
      · simp [insert, hBefore, hKey, hKeep]
      · simp [insert, hBefore, hSame, hKey, hInsert]

/- Replacing a value before or after setting other ones. -/
theorem assign_extend
    (r : Record)
    {fields : List (String × Value)}
    {key : String}
    (value : Value)
    (hAbsent : ∀ field ∈ fields, field.1 ≠ key) :
    assign (extend r fields) key value =
      extend (assign r key value) fields := by
  induction fields generalizing r with
  | nil => rfl
  | cons field rest ih =>
      have hRest : ∀ f ∈ rest, f.1 ≠ key := fun f hMem =>
        hAbsent f (List.mem_cons_of_mem _ hMem)
      calc
        assign (extend r (field :: rest)) key value =
            assign (extend (insert r field.1 field.2) rest)
              key value := rfl
        _ = extend (assign (insert r field.1 field.2) key value)
              rest := ih _ hRest
        _ = extend (insert (assign r key value) field.1 field.2)
              rest := by
            rw [assign_insert_ne r value field.2
              (hAbsent field (by simp))]
        _ = extend (assign r key value) (field :: rest) := rfl

/- Replacing the value of a key that one field has. -/
theorem assign_ofList
    {before after : List (String × Value)}
    {key : String}
    (value given : Value)
    (hBefore : ∀ field ∈ before, field.1 ≠ key)
    (hAfter : ∀ field ∈ after, field.1 ≠ key) :
    assign (ofList (before ++ (key, given) :: after)) key
        value =
      ofList (before ++ (key, value) :: after) := by
  have hSplit : ∀ v : Value,
      ofList (before ++ (key, v) :: after) =
        extend (insert (ofList before) key v) after := by
    intro v
    simp [ofList, extend]
  have hNew : get? (ofList before) key = none := by
    unfold ofList
    rw [get?_extend_of_not_mem [] hBefore]
    rfl
  rw [hSplit, hSplit, assign_extend _ value hAfter,
    assign_insert_self _ value given hNew]

end Record

------------------------------------------------------------
-- Layers
------------------------------------------------------------

namespace Value

open Record in
/- Keys without a field on top keep their values. -/
theorem get?_layFieldsOver_of_none
    (fields defaults merged : Record)
    {key : String}
    (hAbsent : get? fields key = none) :
    get? (layFieldsOver fields defaults merged) key =
      get? merged key := by
  induction fields generalizing merged with
  | nil => simp [layFieldsOver]
  | cons field rest ih =>
      rcases field with ⟨k, v⟩
      have hOther : ¬ k = key := by
        intro h
        simp [get?, h] at hAbsent
      have hRest : get? rest key = none := by
        simpa [get?, hOther] using hAbsent
      rw [layFieldsOver, ih _ hRest]
      exact get?_insert_ne merged _ hOther

open Record in
/- A value may be replaced below fields without its key. -/
theorem layFieldsOver_assign
    (fields defaults merged : Record)
    {key : String}
    (value : Value)
    (hAbsent : get? fields key = none) :
    layFieldsOver fields (assign defaults key value)
        (assign merged key value) =
      assign (layFieldsOver fields defaults merged) key
        value := by
  induction fields generalizing merged with
  | nil => simp [layFieldsOver]
  | cons field rest ih =>
      rcases field with ⟨k, v⟩
      have hOther : k ≠ key := by
        intro h
        simp [get?, h] at hAbsent
      have hRest : get? rest key = none := by
        simpa [get?, hOther] using hAbsent
      rw [layFieldsOver, layFieldsOver,
        get?_assign_ne defaults value hOther.symm,
        ← assign_insert_ne merged value _ hOther]
      exact ih _ hRest

end Value

end Dialectic
