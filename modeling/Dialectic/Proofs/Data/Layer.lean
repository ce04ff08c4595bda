import Dialectic.Proofs.Data.Record
import Mathlib.Data.String.Basic
import Mathlib.Tactic.Order

/-
  Records in the order of their keys, and the laws of laying
  them over other values: it is associative, and to do it
  twice is the same as once.

  Key definitions include:
    * `Record.InOrder`
    * `Value.InOrder`

  Main theorems:
    * `Record.inOrder_extend`
    * `Record.get?_extend_self`
    * `Value.layFieldsOver_insert_top`
    * `Value.layOver_self`
    * `Value.layOver_layOver`
    * `Value.layOver_assoc`
-/

namespace Dialectic

------------------------------------------------------------
-- Order
------------------------------------------------------------

/- The keys of a record increase. -/
def Record.InOrder (r : Record) : Prop :=
  r.Pairwise (fun f g => f.1 < g.1)

/- All records in a value are in order. -/
inductive Value.InOrder : Value → Prop where
| null : InOrder .null
| flag (b : Bool) : InOrder (.flag b)
| number (n : Number) : InOrder (.number n)
| text (s : String) : InOrder (.text s)
| list
    (items : List Value)
    (hItems : ∀ v ∈ items, InOrder v) :
    InOrder (.list items)
| record
    (fields : List (String × Value))
    (hKeys : Record.InOrder fields)
    (hFields : ∀ f ∈ fields, InOrder f.2) :
    InOrder (.record fields)

namespace Record

/- What a record has after a value was set. -/
theorem mem_insert
    {r : Record}
    {key : String}
    {value : Value}
    {field : String × Value}
    (hField : field ∈ insert r key value) :
    field = (key, value) ∨ field ∈ r := by
  induction r with
  | nil => simpa [insert] using hField
  | cons first rest ih =>
      rcases first with ⟨k, v⟩
      simp only [insert] at hField
      split at hField
      · simpa using hField
      · split at hField
        · rcases List.mem_cons.mp hField with hHere | hRest
          · exact Or.inl hHere
          · exact Or.inr (List.mem_cons_of_mem _ hRest)
        · rcases List.mem_cons.mp hField with hHere | hRest
          · exact Or.inr (by simp [hHere])
          · rcases ih hRest with hNew | hOld
            · exact Or.inl hNew
            · exact Or.inr (List.mem_cons_of_mem _ hOld)

/- Setting a value keeps a record in order. -/
theorem inOrder_insert
    {r : Record}
    (hOrder : InOrder r)
    (key : String)
    (value : Value) :
    InOrder (insert r key value) := by
  induction r with
  | nil => simp [insert, InOrder]
  | cons first rest ih =>
      rcases first with ⟨k, v⟩
      rcases List.pairwise_cons.mp hOrder with ⟨hFirst, hRest⟩
      unfold InOrder
      simp only [insert]
      split
      · next hBefore =>
          refine List.pairwise_cons.mpr ⟨?_, hOrder⟩
          intro field hField
          rcases List.mem_cons.mp hField with hHere | hLater
          · rw [hHere]
            exact hBefore
          · exact lt_trans hBefore (hFirst field hLater)
      · split
        · next hSame =>
            rw [← hSame] at hFirst
            exact List.pairwise_cons.mpr ⟨hFirst, hRest⟩
        · next hNotBefore hOther =>
            refine List.pairwise_cons.mpr ⟨?_, ih hRest⟩
            intro field hField
            rcases mem_insert hField with hNew | hOld
            · rw [hNew]
              exact
                lt_of_le_of_ne (not_lt.mp hNotBefore)
                  (fun hSame => hOther hSame.symm)
            · exact hFirst field hOld

/- Setting values keeps a record in order. -/
theorem inOrder_extend
    {r : Record}
    (hOrder : InOrder r)
    (fields : List (String × Value)) :
    InOrder (extend r fields) := by
  induction fields generalizing r with
  | nil => exact hOrder
  | cons field fields ih =>
      exact ih (inOrder_insert hOrder field.1 field.2)

/- Fields that are chosen from a record in order are so. -/
theorem inOrder_filter
    {r : Record}
    (hOrder : InOrder r)
    (keeps : String × Value → Bool) :
    InOrder (r.filter keeps) :=
  List.Pairwise.filter keeps hOrder

/- Looking up a key that is chosen finds the same value. -/
theorem get?_filter
    (r : Record)
    {key : String}
    (keeps : String → Bool)
    (hKey : keeps key = true) :
    get? (r.filter (fun f => keeps f.1)) key = get? r key := by
  induction r with
  | nil => rfl
  | cons field rest ih =>
      rcases field with ⟨k, v⟩
      by_cases hSame : k = key
      · simp [get?, hSame, hKey]
      · by_cases hKept : keeps k = true <;>
          simp [get?, hSame, hKept, ih]

/- Looking up finds each field of a record in order. -/
theorem get?_of_mem
    {r : Record}
    (hOrder : InOrder r)
    {field : String × Value}
    (hField : field ∈ r) :
    get? r field.1 = some field.2 := by
  induction r with
  | nil => cases hField
  | cons first rest ih =>
      rcases List.pairwise_cons.mp hOrder with ⟨hFirst, hRest⟩
      rcases List.mem_cons.mp hField with hHere | hLater
      · rw [hHere]
        simp [get?]
      · have hOther : first.1 ≠ field.1 :=
          ne_of_lt (hFirst field hLater)
        simp [get?, hOther, ih hRest hLater]

/- Setting a value that is there changes nothing. -/
theorem insert_of_mem
    {r : Record}
    (hOrder : InOrder r)
    {field : String × Value}
    (hField : field ∈ r) :
    insert r field.1 field.2 = r := by
  induction r with
  | nil => cases hField
  | cons first rest ih =>
      rcases List.pairwise_cons.mp hOrder with ⟨hFirst, hRest⟩
      rcases List.mem_cons.mp hField with hHere | hLater
      · rw [hHere]
        simp [insert]
      · have hBefore := hFirst field hLater
        have hNot : ¬ field.1 < first.1 := lt_asymm hBefore
        have hOther : field.1 ≠ first.1 :=
          (ne_of_lt hBefore).symm
        simp [insert, hNot, hOther, ih hRest hLater]

/- A value that is found is that of a field. -/
theorem mem_of_get?
    {r : Record}
    {key : String}
    {value : Value}
    (hFound : get? r key = some value) :
    (key, value) ∈ r := by
  induction r with
  | nil => cases hFound
  | cons first rest ih =>
      rcases first with ⟨k, v⟩
      by_cases hSame : k = key
      · simp [get?, hSame] at hFound
        simp [hSame, hFound]
      · simp only [get?, hSame, if_false] at hFound
        exact List.mem_cons_of_mem _ (ih hFound)

/- The fields of a record in order are set over another one. -/
theorem get?_extend_self
    (r : Record)
    {fields : Record}
    (hOrder : InOrder fields)
    {key : String}
    {value : Value}
    (hFound : get? fields key = some value) :
    get? (extend r fields) key = some value := by
  induction fields generalizing r with
  | nil => cases hFound
  | cons field rest ih =>
      rcases List.pairwise_cons.mp hOrder with ⟨hFirst, hRest⟩
      by_cases hSame : field.1 = key
      · simp only [get?, hSame, if_true, Option.some.injEq]
          at hFound
        have hAbsent : ∀ f ∈ rest, f.1 ≠ key := by
          intro f hMem hKey
          rw [← hSame] at hKey
          exact ne_of_lt (hFirst f hMem) hKey.symm
        calc
          get? (extend r (field :: rest)) key =
              get? (extend (insert r field.1 field.2) rest)
                key := rfl
          _ = get? (insert r field.1 field.2) key :=
              get?_extend_of_not_mem _ hAbsent
          _ = some value := by
              rw [hSame, hFound]
              exact get?_insert_self r key value
      · simp only [get?, hSame, if_false] at hFound
        exact ih _ hRest hFound

------------------------------------------------------------
-- Setting Twice
------------------------------------------------------------

/- Of two values that are set for one key, the last counts. -/
theorem insert_insert_self
    (r : Record)
    (key : String)
    (first last : Value) :
    insert (insert r key first) key last =
      insert r key last := by
  induction r with
  | nil => simp [insert]
  | cons field rest ih =>
      rcases field with ⟨k, v⟩
      by_cases hBefore : key < k
      · simp [insert, hBefore]
      · by_cases hSame : key = k
        · simp [insert, hSame]
        · simp [insert, hBefore, hSame, ih]

/- Values of increasing keys are set in any order. -/
theorem insert_comm_of_lt
    (r : Record)
    {key other : String}
    (hLess : key < other)
    (value given : Value) :
    insert (insert r key value) other given =
      insert (insert r other given) key value := by
  have hApart : ∀ {a b : String}, a < b →
      ¬ b < a ∧ b ≠ a ∧ a ≠ b := fun hLess =>
    ⟨lt_asymm hLess, (ne_of_lt hLess).symm, ne_of_lt hLess⟩
  induction r with
  | nil => simp [insert, hLess, hApart hLess]
  | cons field rest ih =>
      rcases field with ⟨k, v⟩
      rcases lt_trichotomy key k with hKey | rfl | hKey
      · rcases lt_trichotomy other k with hLast | rfl | hLast
        · simp [insert, hLess, hKey, hLast, hApart hLess]
        · simp [insert, hLess, hApart hLess]
        · simp [insert, hKey, hApart hLess, hApart hLast]
      · simp [insert, hApart hLess]
      · have hLast := lt_trans hKey hLess
        simp [insert, hApart hKey, hApart hLast, ih]

/- Values of different keys are set in any order. -/
theorem insert_comm
    (r : Record)
    {key other : String}
    (hOther : key ≠ other)
    (value given : Value) :
    insert (insert r key value) other given =
      insert (insert r other given) key value := by
  rcases lt_or_gt_of_ne hOther with hLess | hLess
  · exact insert_comm_of_lt r hLess value given
  · exact (insert_comm_of_lt r hLess given value).symm

end Record

------------------------------------------------------------
-- Layers
------------------------------------------------------------

namespace Value

/- Laying fields over a record in order keeps it so. -/
theorem inOrder_layFieldsOver
    (fields defaults : Record)
    {merged : Record}
    (hOrder : merged.InOrder) :
    Record.InOrder (layFieldsOver fields defaults merged) := by
  induction fields generalizing merged with
  | nil => simpa [layFieldsOver] using hOrder
  | cons field rest ih =>
      rcases field with ⟨k, v⟩
      rw [layFieldsOver]
      exact ih (Record.inOrder_insert hOrder _ _)

open Record in
/- A value of another key may be set before or after. -/
theorem layFieldsOver_insert
    {fields : Record}
    (defaults merged : Record)
    {key : String}
    (value : Value)
    (hAbsent : ∀ field ∈ fields, field.1 ≠ key) :
    layFieldsOver fields defaults (insert merged key value) =
      insert (layFieldsOver fields defaults merged) key
        value := by
  induction fields generalizing merged with
  | nil => simp [layFieldsOver]
  | cons field rest ih =>
      rcases field with ⟨k, v⟩
      have hOther : k ≠ key := hAbsent (k, v) (by simp)
      have hRest : ∀ f ∈ rest, f.1 ≠ key := fun f hMem =>
        hAbsent f (List.mem_cons_of_mem _ hMem)
      rw [layFieldsOver, layFieldsOver,
        insert_comm merged hOther.symm]
      exact ih _ hRest

open Record in
/- Each field on top has been laid over the default. -/
theorem insert_layFieldsOver
    {fields : Record}
    (hOrder : fields.InOrder)
    (defaults merged : Record)
    {field : String × Value}
    (hField : field ∈ fields) :
    insert (layFieldsOver fields defaults merged) field.1
        (layOver field.2
          ((get? defaults field.1).getD .null)) =
      layFieldsOver fields defaults merged := by
  induction fields generalizing merged with
  | nil => cases hField
  | cons first rest ih =>
      rcases first with ⟨k, v⟩
      rcases List.pairwise_cons.mp hOrder with ⟨hFirst, hRest⟩
      rw [layFieldsOver]
      rcases List.mem_cons.mp hField with hHere | hLater
      · have hAbsent : ∀ f ∈ rest, f.1 ≠ k := fun f hMem =>
          (ne_of_lt (hFirst f hMem)).symm
        subst hHere
        rw [layFieldsOver_insert _ _ _ hAbsent,
          insert_insert_self]
      · exact ih hRest _ hLater

open Record in
/- A field on top gives the value of its key. -/
theorem get?_layFieldsOver_of_mem
    {fields : Record}
    (hOrder : fields.InOrder)
    (defaults merged : Record)
    {field : String × Value}
    (hField : field ∈ fields) :
    get? (layFieldsOver fields defaults merged) field.1 =
      some
        (layOver field.2
          ((get? defaults field.1).getD .null)) := by
  rw [← insert_layFieldsOver hOrder defaults merged hField]
  exact get?_insert_self _ _ _

open Record in
/- Fields that are there already change nothing. -/
theorem layFieldsOver_of_fixed
    {fields : Record}
    (defaults merged : Record)
    (hFixed : ∀ field ∈ fields,
      insert merged field.1
          (layOver field.2
            ((get? defaults field.1).getD .null)) =
        merged) :
    layFieldsOver fields defaults merged = merged := by
  induction fields with
  | nil => simp [layFieldsOver]
  | cons field rest ih =>
      rcases field with ⟨k, v⟩
      have hHere := hFixed (k, v) (by simp)
      rw [layFieldsOver, hHere]
      exact ih (fun f hMem => hFixed f (by simp [hMem]))

/- A value in order that is laid over itself stays. -/
theorem layOver_self
    {value : Value}
    (hOrder : value.InOrder) :
    value.layOver value = value := by
  induction hOrder with
  | record fields hKeys _ ih =>
      rw [layOver, layFieldsOver_of_fixed]
      intro field hField
      rw [Record.get?_of_mem hKeys hField, Option.getD_some,
        ih field hField]
      exact Record.insert_of_mem hKeys hField
  | _ => simp [layOver]

/- To lay a value in order over another one twice is idle. -/
theorem layOver_layOver
    {value : Value}
    (hOrder : value.InOrder)
    (default : Value) :
    value.layOver (value.layOver default) =
      value.layOver default := by
  induction hOrder generalizing default with
  | record fields hKeys hFields ih =>
      cases default with
      | record defaults =>
          rw [layOver, layOver, layFieldsOver_of_fixed]
          intro field hField
          rw [get?_layFieldsOver_of_mem hKeys _ _ hField,
            Option.getD_some, ih field hField]
          exact insert_layFieldsOver hKeys _ _ hField
      | _ =>
          exact layOver_self (.record fields hKeys hFields)
  | _ => cases default <;> simp [layOver]

open Record in
/-
  The value of a key in fields that are laid over a record is
  that on top, laid over its default, or else that below.
-/
theorem get?_layFieldsOver
    {fields : Record}
    (hOrder : fields.InOrder)
    (defaults merged : Record)
    (key : String) :
    get? (layFieldsOver fields defaults merged) key =
      match get? fields key with
      | some value =>
          some (layOver value ((get? defaults key).getD .null))
      | none => get? merged key := by
  cases hFound : get? fields key with
  | some value =>
      exact
        get?_layFieldsOver_of_mem hOrder defaults merged
          (mem_of_get? hFound)
  | none => exact get?_layFieldsOver_of_none _ _ _ hFound

/- A value that is laid over null stays. -/
theorem layOver_null (value : Value) :
    value.layOver .null = value := by
  cases value <;> simp [layOver]

/- What a key gives in a record that is laid over another. -/
theorem getD_layFieldsOver
    {fields : Record}
    (hOrder : fields.InOrder)
    (defaults : Record)
    (key : String) :
    (Record.get? (layFieldsOver fields defaults defaults)
        key).getD .null =
      layOver ((Record.get? fields key).getD .null)
        ((Record.get? defaults key).getD .null) := by
  rw [get?_layFieldsOver hOrder]
  cases Record.get? fields key with
  | some value => rfl
  | none => simp [layOver]

open Record in
/- A field that is set on top is laid over its default. -/
theorem layFieldsOver_insert_top
    {fields : Record}
    (hOrder : fields.InOrder)
    (defaults merged : Record)
    (key : String)
    (value : Value) :
    layFieldsOver (insert fields key value) defaults merged =
      insert (layFieldsOver fields defaults merged) key
        (layOver value ((get? defaults key).getD .null)) := by
  induction fields generalizing merged with
  | nil => simp [Record.insert, layFieldsOver]
  | cons field rest ih =>
      rcases field with ⟨k, v⟩
      rcases List.pairwise_cons.mp hOrder with ⟨hFirst, hRest⟩
      by_cases hBefore : key < k
      · have hAbsent : ∀ f ∈ (k, v) :: rest, f.1 ≠ key := by
          intro f hMem hKey
          rcases List.mem_cons.mp hMem with hHere | hLater
          · rw [hHere] at hKey
            exact ne_of_lt hBefore hKey.symm
          · have hLess := hFirst f hLater
            rw [hKey] at hLess
            exact lt_asymm hBefore hLess
        rw [← layFieldsOver_insert _ _ _ hAbsent]
        simp only [Record.insert, hBefore, if_true,
          layFieldsOver]
      · by_cases hSame : key = k
        · subst hSame
          have hAbsent : ∀ f ∈ rest, f.1 ≠ key :=
            fun f hMem => (ne_of_lt (hFirst f hMem)).symm
          simp only [Record.insert, hBefore, if_true, if_false,
            layFieldsOver]
          rw [layFieldsOver_insert _ _ _ hAbsent,
            layFieldsOver_insert _ _ _ hAbsent,
            insert_insert_self]
        · simp only [Record.insert, hBefore, hSame, if_false,
            layFieldsOver]
          exact ih hRest _

/- The value of a key is in order if those of all fields are. -/
theorem inOrder_getD
    {fields : Record}
    (hFields : ∀ f ∈ fields, f.2.InOrder)
    (key : String) :
    ((Record.get? fields key).getD .null).InOrder := by
  cases hFound : Record.get? fields key with
  | none => exact .null
  | some value => exact hFields _ (Record.mem_of_get? hFound)

mutual

/- Three layers may be laid in either grouping. -/
theorem layOver_assoc :
    ∀ (top : Value) {middle : Value} (bottom : Value),
      middle.InOrder →
        top.layOver (middle.layOver bottom) =
          (top.layOver middle).layOver bottom
| .record fields, _, bottom, .record inner hKeys hInner => by
    cases bottom with
    | record outer =>
        simp only [layOver, record.injEq]
        exact
          layFieldsOver_assoc fields hKeys hInner outer hKeys
    | _ => simp [layOver]
| .record _, _, bottom, .null
| .record _, _, bottom, .flag _
| .record _, _, bottom, .number _
| .record _, _, bottom, .text _
| .record _, _, bottom, .list _ _ => by
    cases bottom <;> simp [layOver]
| .null, _, _, _ => by simp [layOver]
| .flag _, middle, bottom, _
| .number _, middle, bottom, _
| .text _, middle, bottom, _
| .list _, middle, bottom, _ => by
    cases middle <;> cases bottom <;> simp [layOver]

/- So may the fields of three layers. -/
theorem layFieldsOver_assoc :
    ∀ (fields : Record) {inner : Record},
      inner.InOrder →
        (∀ f ∈ inner, f.2.InOrder) →
          ∀ (outer : Record) {merged : Record},
            merged.InOrder →
              layFieldsOver fields
                  (layFieldsOver inner outer outer)
                  (layFieldsOver merged outer outer) =
                layFieldsOver
                  (layFieldsOver fields inner merged) outer
                  outer
| [], _, _, _, _, _, _ => by simp [layFieldsOver]
| (key, value) :: rest, inner, hKeys, hInner, outer, merged,
    hMerged => by
    rw [layFieldsOver, layFieldsOver,
      getD_layFieldsOver hKeys,
      layOver_assoc value _ (inOrder_getD hInner key),
      ← layFieldsOver_insert_top hMerged,
      layFieldsOver_assoc rest hKeys hInner outer
        (Record.inOrder_insert hMerged _ _)]

end

end Value

end Dialectic
