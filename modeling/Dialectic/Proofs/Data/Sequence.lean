import Dialectic.Data.Sequence
import Mathlib.Data.List.Forall2
import Mathlib.Data.List.Nodup

/-
  What changing one item of a list keeps, and which item is
  the last one of a key.

  Key definitions include:
    * `Sequence.lastWith`

  Main theorems:
    * `Sequence.map_modifyFirst`
    * `Sequence.modifyFirst_eq_map`
    * `Sequence.find?_key_eq_some_iff`
    * `Sequence.mem_modifyFirst`
    * `Sequence.mem_modify`
    * `Sequence.flatMap_modify_perm`
    * `Sequence.countP_holders`
    * `Sequence.filter_modifyFirst`
    * `Sequence.forall₂_modify`
    * `Sequence.mem_addNew`
    * `Sequence.mem_addAllNew`
    * `Sequence.eraseDups_concat`
    * `Sequence.lastWith_append`
    * `Sequence.lastWith_modify`
    * `Sequence.lastWith_eq_some_iff`
-/

namespace Dialectic

namespace Sequence

variable {α β : Type}

------------------------------------------------------------
-- Changes
------------------------------------------------------------

/- What a change of the first item keeps of it stays. -/
theorem map_modifyFirst
    (p : α → Bool)
    (f : α → α)
    (key : α → β)
    (hKey : ∀ a, key (f a) = key a)
    (as : List α) :
    (modifyFirst p f as).map key = as.map key := by
  induction as with
  | nil => rfl
  | cons a as ih =>
      by_cases hHere : p a = true
      · simp [modifyFirst, hHere, hKey]
      · simp [modifyFirst, hHere, ih]

/-
  If keys are unique, changing the first item of a key changes
  each item of it.
-/
theorem modifyFirst_eq_map
    [DecidableEq β]
    {key : α → β}
    {as : List α}
    (hUnique : (as.map key).Nodup)
    (k : β)
    (f : α → α) :
    modifyFirst (fun a => key a == k) f as =
      as.map (fun a => if key a = k then f a else a) := by
  induction as with
  | nil => rfl
  | cons a as ih =>
      rw [List.map_cons, List.nodup_cons] at hUnique
      by_cases hHere : key a = k
      · have hRest :
            as.map (fun a => if key a = k then f a else a) =
              as.map id := by
          apply List.map_congr_left
          intro b hb
          have hOther : key b ≠ k := by
            intro hSame
            exact hUnique.1
              (List.mem_map.mpr ⟨b, hb, hSame.trans hHere.symm⟩)
          simp [hOther]
        simp [modifyFirst, hHere, hRest]
      · simp [modifyFirst, hHere, ih hUnique.2]

/- If keys are unique, the item of a key is found by it. -/
theorem find?_key_eq_some_iff
    [DecidableEq β]
    {key : α → β}
    {as : List α}
    (hUnique : (as.map key).Nodup)
    {k : β}
    {a : α} :
    as.find? (fun b => key b == k) = some a ↔
      a ∈ as ∧ key a = k := by
  constructor
  · intro hFound
    exact
      ⟨List.mem_of_find?_eq_some hFound,
        by simpa using List.find?_some hFound⟩
  · rintro ⟨ha, hKey⟩
    cases hFound : as.find? (fun b => key b == k) with
    | none =>
        have hNone := List.find?_eq_none.mp hFound a ha
        simp [hKey] at hNone
    | some b =>
        have hb := List.mem_of_find?_eq_some hFound
        have hSame : key b = k := by
          simpa using List.find?_some hFound
        rw [List.inj_on_of_nodup_map hUnique hb ha
          (hSame.trans hKey.symm)]

/- Each item after a change is one from before or changed. -/
theorem mem_modifyFirst
    {p : α → Bool}
    {f : α → α}
    {as : List α}
    {b : α}
    (hMem : b ∈ modifyFirst p f as) :
    b ∈ as ∨ ∃ a ∈ as, p a = true ∧ b = f a := by
  induction as with
  | nil => simp [modifyFirst] at hMem
  | cons a as ih =>
      by_cases hHere : p a = true
      · rw [modifyFirst, if_pos hHere, List.mem_cons] at hMem
        rcases hMem with hFirst | hRest
        · exact Or.inr ⟨a, by simp, hHere, hFirst⟩
        · exact Or.inl (List.mem_cons_of_mem a hRest)
      · rw [modifyFirst, if_neg hHere, List.mem_cons] at hMem
        rcases hMem with hFirst | hRest
        · exact Or.inl (by simp [hFirst])
        · rcases ih hRest with hOld | ⟨c, hc, hp, hb⟩
          · exact Or.inl (List.mem_cons_of_mem a hOld)
          · exact Or.inr
              ⟨c, List.mem_cons_of_mem a hc, hp, hb⟩

/- Each item is one from before or changed from one. -/
theorem mem_modify
    {i : Nat}
    {f : α → α}
    {as : List α}
    {b : α}
    (hMem : b ∈ as.modify i f) :
    b ∈ as ∨ ∃ a ∈ as, b = f a := by
  rcases List.mem_iff_getElem?.mp hMem with ⟨j, hj⟩
  rw [List.getElem?_modify] at hj
  rcases Option.map_eq_some_iff.mp hj with ⟨a, ha, hChange⟩
  have hOld : a ∈ as := List.mem_of_getElem? ha
  by_cases hHere : i = j
  · rw [if_pos hHere] at hChange
    exact Or.inr ⟨a, hOld, hChange.symm⟩
  · rw [if_neg hHere] at hChange
    exact Or.inl (hChange ▸ hOld)

/- What a change adds to an item is what some item gains. -/
theorem exists_mem_modify_iff
    {i : Nat}
    {f : α → α}
    {as : List α}
    {a : α}
    (hHere : as[i]? = some a)
    {p : α → Prop}
    {q : Prop}
    (hGain : ∀ a, p (f a) ↔ p a ∨ q) :
    (∃ b ∈ as.modify i f, p b) ↔ (∃ b ∈ as, p b) ∨ q := by
  induction as generalizing i with
  | nil => cases hHere
  | cons b as ih =>
      cases i with
      | zero =>
          simp only [List.modify_zero_cons,
            List.exists_mem_cons_iff, hGain]
          exact or_right_comm
      | succ i =>
          simp only [List.modify_succ_cons,
            List.exists_mem_cons_iff, ih hHere]
          exact or_assoc.symm

/-
  If a change of an item adds to what the item holds, it adds
  to what all items hold.
-/
theorem flatMap_modify_perm
    {i : Nat}
    {f : α → α}
    {held : α → List β}
    {as : List α}
    {a : α}
    (hHere : as[i]? = some a)
    {added : List β}
    (hAdded : held (f a) = held a ++ added) :
    ((as.modify i f).flatMap held).Perm
      (as.flatMap held ++ added) := by
  induction as generalizing i with
  | nil => cases hHere
  | cons b as ih =>
      cases i with
      | zero =>
          cases hHere
          rw [List.modify_zero_cons, List.flatMap_cons,
            List.flatMap_cons, hAdded, List.append_assoc,
            List.append_assoc]
          exact List.perm_append_comm.append_left (held a)
      | succ i =>
          rw [List.modify_succ_cons, List.flatMap_cons,
            List.flatMap_cons, List.append_assoc]
          exact (ih hHere).append_left (held b)

/- An item of a list to which one has been added. -/
theorem getElem?_concat_iff
    {as : List α}
    {a b : α}
    {i : Nat} :
    (as ++ [a])[i]? = some b ↔
      as[i]? = some b ∨ (i = as.length ∧ a = b) := by
  rcases Nat.lt_trichotomy i as.length with
    hLess | hSame | hMore
  · rw [List.getElem?_append_left hLess]
    simp [Nat.ne_of_lt hLess]
  · subst hSame
    simp
  · rw [List.getElem?_eq_none (by simp; omega),
      List.getElem?_eq_none (by omega)]
    simp [Nat.ne_of_gt hMore]

/- If no item is held twice, one holder holds it. -/
theorem countP_holders
    [DecidableEq β]
    {held : α → List β}
    {as : List α}
    (hUnique : (as.flatMap held).Nodup)
    {b : β}
    (hMem : b ∈ as.flatMap held) :
    as.countP (fun a => decide (b ∈ held a)) = 1 := by
  induction as with
  | nil => simp at hMem
  | cons a as ih =>
      rw [List.flatMap_cons, List.nodup_append] at hUnique
      rcases hUnique with ⟨_, hRest, hApart⟩
      rw [List.flatMap_cons, List.mem_append] at hMem
      by_cases hHere : b ∈ held a
      · have hNone :
            as.countP (fun a => decide (b ∈ held a)) = 0 := by
          rw [List.countP_eq_zero]
          intro other hOther hHeld
          exact
            hApart b hHere b
              (List.mem_flatMap.mpr
                ⟨other, hOther, of_decide_eq_true hHeld⟩)
              rfl
        simp [hHere, hNone]
      · simp [hHere, ih hRest (hMem.resolve_left hHere)]

/- Changing an item changes the first one that is chosen. -/
theorem filter_modifyFirst
    {p : α → Bool}
    {f : α → α}
    (hKept : ∀ a, p a = true → p (f a) = true)
    (as : List α) :
    (modifyFirst p f as).filter p =
      match as.filter p with
      | [] => []
      | a :: rest => f a :: rest := by
  induction as with
  | nil => rfl
  | cons a as ih =>
      by_cases hHere : p a = true
      · simp [modifyFirst, hHere, hKept]
      · simp [modifyFirst, hHere, ih]

/- Changing an item leaves those that are chosen without it. -/
theorem filter_modifyFirst_of_apart
    {p q : α → Bool}
    {f : α → α}
    (hApart : ∀ a, p a = true → q a = false ∧ q (f a) = false)
    (as : List α) :
    (modifyFirst p f as).filter q = as.filter q := by
  induction as with
  | nil => rfl
  | cons a as ih =>
      by_cases hHere : p a = true
      · simp [modifyFirst, hHere, hApart a hHere]
      · rw [modifyFirst, if_neg hHere, List.filter_cons,
          List.filter_cons, ih]

/- An item of a list to which one is added unless there. -/
theorem mem_addNew
    [BEq α]
    [LawfulBEq α]
    {as : List α}
    {a b : α} :
    b ∈ addNew as a ↔ b ∈ as ∨ b = a := by
  unfold addNew
  by_cases hThere : as.contains a = true
  · rw [if_pos hThere]
    have hMem : a ∈ as := List.contains_iff_mem.mp hThere
    constructor
    · exact Or.inl
    · rintro (hOld | rfl)
      · exact hOld
      · exact hMem
  · rw [if_neg hThere, List.mem_append, List.mem_singleton]

/- An item that is new comes last when it is added. -/
theorem addNew_of_not_mem
    [BEq α]
    [LawfulBEq α]
    {as : List α}
    {a : α}
    (hNew : a ∉ as) :
    addNew as a = as ++ [a] :=
  if_neg (fun hThere => hNew (List.contains_iff_mem.mp hThere))

/- Adding an item that is there changes nothing. -/
theorem addNew_of_mem
    [BEq α]
    [LawfulBEq α]
    {as : List α}
    {a : α}
    (hThere : a ∈ as) :
    addNew as a = as :=
  if_pos (List.contains_iff_mem.mpr hThere)

/- A list to which an item has been added has some item. -/
theorem addNew_ne_nil
    [BEq α]
    [LawfulBEq α]
    (as : List α)
    (a : α) :
    addNew as a ≠ [] := by
  intro hNone
  have hMem : a ∈ addNew as a := mem_addNew.mpr (Or.inr rfl)
  rw [hNone] at hMem
  exact List.not_mem_nil hMem

/- Adding an item keeps a list without repetition. -/
theorem nodup_addNew
    [BEq α]
    [LawfulBEq α]
    {as : List α}
    (hUnique : as.Nodup)
    (a : α) :
    (addNew as a).Nodup := by
  by_cases hThere : a ∈ as
  · rw [addNew_of_mem hThere]
    exact hUnique
  · rw [addNew_of_not_mem hThere, List.nodup_append]
    refine ⟨hUnique, by simp, ?_⟩
    intro b hb c hc hSame
    rw [List.mem_singleton.mp hc] at hSame
    exact hThere (hSame ▸ hb)

/- Items without repetition when one more is added. -/
theorem eraseDups_concat
    [BEq α]
    [LawfulBEq α]
    (as : List α)
    (a : α) :
    (as ++ [a]).eraseDups = addNew as.eraseDups a := by
  rw [List.eraseDups_append]
  by_cases hThere : a ∈ as
  · rw [addNew_of_mem (List.mem_eraseDups.mpr hThere)]
    simp [List.removeAll, hThere]
  · rw [addNew_of_not_mem (mt List.mem_eraseDups.mp hThere)]
    simp [List.removeAll, hThere, List.eraseDups_cons]

/- Items without repetition when several ones are added. -/
theorem eraseDups_addAllNew
    [BEq α]
    [LawfulBEq α]
    (as bs : List α) :
    (as ++ bs).eraseDups = addAllNew as.eraseDups bs := by
  unfold addAllNew
  induction bs generalizing as with
  | nil => rw [List.append_nil, List.foldl_nil]
  | cons b bs ih =>
      rw [List.foldl_cons, ← eraseDups_concat, ← ih,
        List.append_assoc, List.singleton_append]

/- Items without repetition are all kept. -/
theorem eraseDups_of_nodup
    [BEq α]
    [LawfulBEq α]
    {as : List α}
    (hUnique : as.Nodup) :
    as.eraseDups = as := by
  induction as with
  | nil => rfl
  | cons a as ih =>
      rw [List.nodup_cons] at hUnique
      have hRest : as.filter (fun b => !b == a) = as := by
        rw [List.filter_eq_self]
        intro b hb
        have hApart : b ≠ a :=
          fun hSame => hUnique.1 (hSame ▸ hb)
        simpa using hApart
      rw [List.eraseDups_cons, hRest, ih hUnique.2]

/- An item of a list to which others are added unless there. -/
theorem mem_addAllNew
    [BEq α]
    [LawfulBEq α]
    {as bs : List α}
    {b : α} :
    b ∈ addAllNew as bs ↔ b ∈ as ∨ b ∈ bs := by
  unfold addAllNew
  induction bs generalizing as with
  | nil => simp
  | cons a bs ih =>
      rw [List.foldl_cons, ih, mem_addNew, List.mem_cons,
        or_assoc]

/- Adding items keeps a list without repetition. -/
theorem nodup_addAllNew
    [BEq α]
    [LawfulBEq α]
    {as : List α}
    (hUnique : as.Nodup)
    (bs : List α) :
    (addAllNew as bs).Nodup := by
  unfold addAllNew
  induction bs generalizing as with
  | nil => exact hUnique
  | cons b bs ih => exact ih (nodup_addNew hUnique b)

------------------------------------------------------------
-- Item by Item
------------------------------------------------------------

/- A change of one item is a change item by item. -/
theorem forall₂_modify
    {R : α → α → Prop}
    (hSame : ∀ a, R a a)
    {i : Nat}
    {f : α → α}
    {as : List α}
    (hHere : ∀ a, as[i]? = some a → R a (f a)) :
    List.Forall₂ R as (as.modify i f) := by
  have hAll : ∀ bs : List α, List.Forall₂ R bs bs :=
    fun _ => List.forall₂_same.mpr (fun b _ => hSame b)
  induction as generalizing i with
  | nil =>
      rw [List.modify_nil]
      exact .nil
  | cons a as ih =>
      cases i with
      | zero =>
          rw [List.modify_zero_cons]
          exact .cons (hHere a rfl) (hAll as)
      | succ i =>
          rw [List.modify_succ_cons]
          exact .cons (hSame a) (ih (fun b hb => hHere b hb))

/- Changes item by item may follow each other. -/
theorem forall₂_trans
    {R S T : α → α → Prop}
    (hTrans : ∀ a b c, R a b → S b c → T a c)
    {as bs cs : List α}
    (hFirst : List.Forall₂ R as bs)
    (hSecond : List.Forall₂ S bs cs) :
    List.Forall₂ T as cs := by
  induction hFirst generalizing cs with
  | nil =>
      cases hSecond
      exact .nil
  | cons hHead _ ih =>
      cases hSecond with
      | cons hNext hRest =>
          exact .cons (hTrans _ _ _ hHead hNext) (ih hRest)

/- What holds of all second items may be said of each pair. -/
theorem forall₂_and_right
    {β : Type}
    {R : α → β → Prop}
    {p : β → Prop}
    {as : List α}
    {bs : List β}
    (hAll : List.Forall₂ R as bs)
    (hEach : ∀ b ∈ bs, p b) :
    List.Forall₂ (fun a b => R a b ∧ p b) as bs := by
  induction hAll with
  | nil => exact .nil
  | cons hHead _ ih =>
      rcases List.forall_mem_cons.mp hEach with ⟨hFirst, hRest⟩
      exact .cons ⟨hHead, hFirst⟩ (ih hRest)

------------------------------------------------------------
-- Last Items
------------------------------------------------------------

/- The last item that satisfies `p` does so. -/
theorem lastIndex?_some
    {p : α → Bool}
    {as : List α}
    {i : Nat}
    (hFound : lastIndex? p as = some i) :
    ∃ a, as[i]? = some a ∧ p a = true := by
  induction as generalizing i with
  | nil => cases hFound
  | cons b as ih =>
      unfold lastIndex? at hFound
      cases hRest : lastIndex? p as with
      | some j =>
          rw [hRest] at hFound
          cases hFound
          exact ih hRest
      | none =>
          simp only [hRest] at hFound
          split at hFound
          · next hHere =>
              cases hFound
              exact ⟨b, rfl, hHere⟩
          · cases hFound

/- There is a last item that satisfies `p` if some item does. -/
theorem lastIndex?_isSome
    (p : α → Bool)
    (as : List α) :
    (lastIndex? p as).isSome = as.any p := by
  induction as with
  | nil => rfl
  | cons a as ih =>
      rw [List.any_cons, ← ih, lastIndex?]
      cases lastIndex? p as <;> cases p a <;> rfl

/- No item satisfies `p` if there is no last one. -/
theorem lastIndex?_eq_none_iff {p : α → Bool} {as : List α} :
    lastIndex? p as = none ↔ ∀ a ∈ as, p a = false := by
  rw [← Option.isNone_iff_eq_none, ← Option.not_isSome,
    lastIndex?_isSome, Bool.not_eq_true', List.any_eq_false]
  simp only [Bool.not_eq_true]

/- The last item that satisfies `p` when one is added. -/
theorem lastIndex?_append
    (p : α → Bool)
    (as : List α)
    (a : α) :
    lastIndex? p (as ++ [a]) =
      if p a then some as.length else lastIndex? p as := by
  induction as with
  | nil => simp [lastIndex?]
  | cons b as ih =>
      by_cases hHere : p a = true
      · simp [lastIndex?, ih, hHere]
      · simp [lastIndex?, ih, hHere]

/- No item after the last one that satisfies `p` does so. -/
theorem lastIndex?_eq_some_iff
    {p : α → Bool}
    {as : List α}
    {i : Nat} :
    lastIndex? p as = some i ↔
      (∃ a, as[i]? = some a ∧ p a = true) ∧
        ∀ (j : Nat) b, i < j → as[j]? = some b →
          p b = false := by
  have hAfter : ∀ {i}, lastIndex? p as = some i →
      ∀ (j : Nat) b, i < j → as[j]? = some b →
        p b = false := by
    intro i hFound j b hLater hThere
    induction as generalizing i j with
    | nil => cases hFound
    | cons a as ih =>
        rcases j with _ | j
        · cases hLater
        · rw [List.getElem?_cons_succ] at hThere
          rw [lastIndex?] at hFound
          cases hRest : lastIndex? p as with
          | some k =>
              rw [hRest] at hFound
              cases hFound
              exact
                ih hRest j (Nat.lt_of_succ_lt_succ hLater) hThere
          | none =>
              exact
                lastIndex?_eq_none_iff.mp hRest b
                  (List.mem_of_getElem? hThere)
  constructor
  · exact fun hFound => ⟨lastIndex?_some hFound, hAfter hFound⟩
  · rintro ⟨⟨a, hHere, hSatisfies⟩, hLast⟩
    cases hFound : lastIndex? p as with
    | none =>
        have hNot :=
          lastIndex?_eq_none_iff.mp hFound a
            (List.mem_of_getElem? hHere)
        rw [hSatisfies] at hNot
        cases hNot
    | some k =>
        rcases lastIndex?_some hFound with ⟨b, hThere, hOther⟩
        rcases Nat.lt_trichotomy i k with hLess | rfl | hLess
        · rw [hLast k b hLess hThere] at hOther
          cases hOther
        · rfl
        · rw [hAfter hFound i a hLess hHere] at hSatisfies
          cases hSatisfies

/- Whether items satisfy `p` decides which one is the last. -/
theorem lastIndex?_congr
    {p : α → Bool}
    {as bs : List α}
    (hSame : as.map p = bs.map p) :
    lastIndex? p as = lastIndex? p bs := by
  induction as generalizing bs with
  | nil =>
      cases bs with
      | nil => rfl
      | cons b bs => cases hSame
  | cons a as ih =>
      cases bs with
      | nil => cases hSame
      | cons b bs =>
          rw [List.map_cons, List.map_cons, List.cons.injEq]
            at hSame
          simp only [lastIndex?, ih hSame.2, hSame.1]

/- The last item whose image satisfies `p`. -/
theorem lastIndex?_map
    (p : β → Bool)
    (f : α → β)
    (as : List α) :
    lastIndex? p (as.map f) =
      lastIndex? (fun a => p (f a)) as := by
  induction as with
  | nil => rfl
  | cons a as ih => simp only [List.map_cons, lastIndex?, ih]

/- The last item of a key. -/
def lastWith [BEq β] (key : α → β) (k : β) (as : List α) :
    Option α :=
  (lastIndex? (fun a => key a == k) as).bind (as[·]?)

/- There is a last item of a key if one has an index. -/
theorem lastWith_isSome
    [BEq β]
    (key : α → β)
    (k : β)
    (as : List α) :
    (lastWith key k as).isSome =
      (lastIndex? (fun a => key a == k) as).isSome := by
  unfold lastWith
  cases hIndex : lastIndex? (fun a => key a == k) as with
  | none => rfl
  | some i =>
      rcases lastIndex?_some hIndex with ⟨a, ha, _⟩
      simp [ha]

/- The last item of a key has the key. -/
theorem lastWith_key
    [BEq β]
    [LawfulBEq β]
    {key : α → β}
    {k : β}
    {as : List α}
    {a : α}
    (hFound : lastWith key k as = some a) :
    key a = k := by
  rcases Option.bind_eq_some_iff.mp hFound with ⟨i, hIndex, ha⟩
  rcases lastIndex?_some hIndex with ⟨b, hb, hKey⟩
  cases ha.symm.trans hb
  exact eq_of_beq hKey

/- The last item of a key when an item is added. -/
theorem lastWith_append
    [BEq β]
    (key : α → β)
    (k : β)
    (as : List α)
    (a : α) :
    lastWith key k (as ++ [a]) =
      if key a == k then some a else lastWith key k as := by
  unfold lastWith
  rw [lastIndex?_append]
  by_cases hHere : (key a == k) = true
  · simp [hHere]
  · rw [if_neg hHere, if_neg hHere]
    cases hIndex : lastIndex? (fun a => key a == k) as with
    | none => rfl
    | some i =>
        rcases lastIndex?_some hIndex with ⟨b, hb, _⟩
        have hLess := (List.getElem?_eq_some_iff.mp hb).1
        simp [List.getElem?_append_left hLess]

/- The last item of a key when all items keep their keys. -/
theorem lastWith_map
    [BEq β]
    {key : α → β}
    {f : α → α}
    (hKey : ∀ a, key (f a) = key a)
    (k : β)
    (as : List α) :
    lastWith key k (as.map f) = (lastWith key k as).map f := by
  have hSame :
      lastIndex? (fun a => key a == k) (as.map f) =
        lastIndex? (fun a => key a == k) as := by
    apply lastIndex?_congr
    simp [Function.comp_def, hKey]
  unfold lastWith
  rw [hSame]
  cases lastIndex? (fun a => key a == k) as <;> simp

/- If keys are unique, each item is the last one of its key. -/
theorem lastWith_eq_some_iff
    [BEq β]
    [LawfulBEq β]
    {key : α → β}
    {as : List α}
    (hUnique : (as.map key).Nodup)
    (k : β)
    (a : α) :
    lastWith key k as = some a ↔ a ∈ as ∧ key a = k := by
  constructor
  · intro hFound
    rcases Option.bind_eq_some_iff.mp hFound with
      ⟨i, hIndex, ha⟩
    rcases lastIndex?_some hIndex with ⟨b, hb, hKey⟩
    rw [hb] at ha
    cases ha
    exact ⟨List.mem_of_getElem? hb, eq_of_beq hKey⟩
  · rintro ⟨hMem, hKey⟩
    have hThere : (lastWith key k as).isSome = true := by
      rw [lastWith_isSome, lastIndex?_isSome, List.any_eq_true]
      exact ⟨a, hMem, by simp [hKey]⟩
    rcases Option.isSome_iff_exists.mp hThere with ⟨b, hb⟩
    rcases Option.bind_eq_some_iff.mp hb with
      ⟨i, hIndex, hFound⟩
    rcases lastIndex?_some hIndex with ⟨c, hc, hOther⟩
    rw [hFound] at hc
    cases hc
    have hSame : a = b :=
      List.inj_on_of_nodup_map hUnique hMem
        (List.mem_of_getElem? hFound)
        (hKey.trans (eq_of_beq hOther).symm)
    rw [hb, hSame]

/-
  If the last item of a key is changed but keeps its key, it
  is still the last one, and so are those of other keys.
-/
theorem lastWith_modify
    [BEq β]
    [LawfulBEq β]
    [DecidableEq β]
    {key : α → β}
    {k : β}
    {as : List α}
    {i : Nat}
    (hIndex : lastIndex? (fun a => key a == k) as = some i)
    {f : α → α}
    (hKey : ∀ a, key (f a) = key a)
    (other : β) :
    lastWith key other (as.modify i f) =
      if other = k then (lastWith key other as).map f
      else lastWith key other as := by
  have hSame :
      lastIndex? (fun a => key a == other) (as.modify i f) =
        lastIndex? (fun a => key a == other) as := by
    apply lastIndex?_congr
    exact map_modify i f _ (fun a => by simp [hKey]) as
  unfold lastWith
  rw [hSame]
  cases hFound : lastIndex? (fun a => key a == other) as with
  | none => simp
  | some j =>
      simp only [Option.bind_some, List.getElem?_modify]
      by_cases hHere : other = k
      · subst hHere
        rw [hIndex] at hFound
        cases hFound
        cases as[i]? <;> simp
      · have hApart : ¬ i = j := by
          intro hEq
          subst hEq
          rcases lastIndex?_some hIndex with ⟨a, ha, hK⟩
          rcases lastIndex?_some hFound with ⟨b, hb, hOther⟩
          rw [ha] at hb
          cases hb
          simp only [beq_iff_eq] at hK hOther
          exact hHere (hOther.symm.trans hK)
        cases as[j]? <;> simp [hHere, hApart]

end Sequence

end Dialectic
