import Dialectic.Data.DisjointSets
import Mathlib.Logic.Basic
import Mathlib.Logic.Relation

/-
  The tree of a number ends at a root, which is the smallest
  number of its set.  Looking for it leaves all roots as they
  are, and joining two sets gives both the smaller root, so
  that two numbers have the same root if and only if joined
  pairs connect them.

  Key definitions include:
    * `DisjointSets.root`
    * `DisjointSets.SameRoots`
    * `DisjointSets.Connects`

  Main theorems:
    * `DisjointSets.root_withParent`
    * `DisjointSets.find_spec`
    * `DisjointSets.root_join`
    * `DisjointSets.representatives_eq`
    * `DisjointSets.Connects.joinAll`
-/

namespace Dialectic.DisjointSets

variable {sets other : DisjointSets} {i j p : Nat}

------------------------------------------------------------
-- Roots
------------------------------------------------------------

/- The number where the way from parent to parent ends. -/
def root (sets : DisjointSets) (i : Nat) : Nat :=
  if sets.parent i = i then i
  else sets.root (sets.parent i)
termination_by i
decreasing_by
  exact Nat.lt_of_le_of_ne (sets.parent_le i) (by assumption)

/- A number that is its own parent is its own root. -/
theorem root_of_parent_eq (hRoot : sets.parent i = i) :
    sets.root i = i := by
  rw [root, if_pos hRoot]

/- A number has the root of its parent. -/
theorem root_parent (sets : DisjointSets) (i : Nat) :
    sets.root (sets.parent i) = sets.root i := by
  by_cases hRoot : sets.parent i = i
  · rw [hRoot]
  · have hStep : sets.root i = sets.root (sets.parent i) := by
      rw [root, if_neg hRoot]
    exact hStep.symm

/- The root of a number is a root, and it is not greater. -/
theorem root_spec (sets : DisjointSets) (i : Nat) :
    sets.parent (sets.root i) = sets.root i ∧
      sets.root i ≤ i := by
  induction i using Nat.strongRecOn with
  | ind i ih =>
      by_cases hRoot : sets.parent i = i
      · rw [root_of_parent_eq hRoot]
        exact ⟨hRoot, Nat.le_refl i⟩
      · have hLess : sets.parent i < i :=
          Nat.lt_of_le_of_ne (sets.parent_le i) hRoot
        rw [← root_parent]
        rcases ih _ hLess with ⟨hEnd, hLower⟩
        exact ⟨hEnd, Nat.le_trans hLower (sets.parent_le i)⟩

/- The root of a set is not greater than any of its numbers. -/
theorem root_le (sets : DisjointSets) (i : Nat) :
    sets.root i ≤ i :=
  (sets.root_spec i).2

/- A root is its own root. -/
theorem root_root (sets : DisjointSets) (i : Nat) :
    sets.root (sets.root i) = sets.root i :=
  root_of_parent_eq (sets.root_spec i).1

/- At first each number is its own root. -/
theorem root_singletons (n i : Nat) :
    (singletons n).root i = i := by
  apply root_of_parent_eq
  unfold parent singletons
  by_cases hItem : i < n
  · simp [hItem]
  · rw [List.getElem?_eq_none (by simpa using hItem)]
    rfl

------------------------------------------------------------
-- Other Parents
------------------------------------------------------------

/- How many numbers have an entry. -/
def size (sets : DisjointSets) : Nat :=
  sets.parents.length

/- The parents when a number has been given another one. -/
theorem parent_withParent
    (hItem : i < sets.size)
    (hOrder : p ≤ i)
    (j : Nat) :
    (sets.withParent i p hOrder).parent j =
      if j = i then p else sets.parent j := by
  unfold parent withParent
  rw [List.getElem?_set]
  by_cases hHere : j = i
  · subst hHere
    have hHere : j < sets.parents.length := hItem
    rw [if_pos rfl, if_pos rfl, if_pos hHere]
    rfl
  · rw [if_neg (Ne.symm hHere), if_neg hHere]

/-
  A root that gets a smaller root as its parent passes its
  numbers on to it.
-/
theorem root_withParent
    (hItem : i < sets.size)
    (hRoot : sets.parent i = i)
    (hParent : sets.parent p = p)
    (hLess : p < i)
    (j : Nat) :
    (sets.withParent i p (Nat.le_of_lt hLess)).root j =
      if sets.root j = i then p else sets.root j := by
  have hParents :=
    parent_withParent hItem (Nat.le_of_lt hLess)
  induction j using Nat.strongRecOn with
  | ind j ih =>
      have hNext := hParents j
      by_cases hHere : j = i
      · have hEnd := hParents p
        rw [if_neg (Nat.ne_of_lt hLess), hParent] at hEnd
        rw [if_pos hHere] at hNext
        rw [← root_parent, hNext, root_of_parent_eq hEnd, hHere,
          root_of_parent_eq hRoot, if_pos rfl]
      · rw [if_neg hHere] at hNext
        by_cases hOwn : sets.parent j = j
        · rw [root_of_parent_eq (hNext.trans hOwn),
            root_of_parent_eq hOwn, if_neg hHere]
        · have hStep : sets.parent j < j :=
            Nat.lt_of_le_of_ne (sets.parent_le j) hOwn
          rw [← root_parent, hNext, ih _ hStep, root_parent]

/- Two forests of as many numbers have the same roots. -/
structure SameRoots (sets other : DisjointSets) : Prop where
  size : other.size = sets.size
  roots : ∀ j, other.root j = sets.root j

/-
  A number that gets a smaller one of its set as its parent
  leaves all roots as they are.
-/
theorem withParent_same
    (hItem : i < sets.size)
    (hSet : sets.root p = sets.root i)
    (hLess : p < i) :
    SameRoots sets
      (sets.withParent i p (Nat.le_of_lt hLess)) := by
  have hParents :=
    parent_withParent hItem (Nat.le_of_lt hLess)
  refine ⟨List.length_set, fun j => ?_⟩
  induction j using Nat.strongRecOn with
  | ind j ih =>
      have hNext := hParents j
      by_cases hHere : j = i
      · rw [if_pos hHere] at hNext
        rw [← root_parent, hNext, ih p (hHere ▸ hLess), hSet,
          hHere]
      · rw [if_neg hHere] at hNext
        by_cases hOwn : sets.parent j = j
        · rw [root_of_parent_eq (hNext.trans hOwn),
            root_of_parent_eq hOwn]
        · have hStep : sets.parent j < j :=
            Nat.lt_of_le_of_ne (sets.parent_le j) hOwn
          rw [← root_parent, hNext, ih _ hStep, root_parent]

------------------------------------------------------------
-- Representatives
------------------------------------------------------------

/- A number whose parent is another one has an entry. -/
theorem lt_size_of_parent_ne (hChild : sets.parent i ≠ i) :
    i < sets.size := by
  rcases Nat.lt_or_ge i sets.size with hItem | hNone
  · exact hItem
  · exfalso
    apply hChild
    rw [parent, List.getElem?_eq_none hNone]
    rfl

/- Looking for a root finds it, and leaves all roots. -/
theorem find_spec (sets : DisjointSets) (i : Nat) :
    (sets.find i).2 = sets.root i ∧
      SameRoots sets (sets.find i).1 := by
  -- the next number on the way is smaller
  induction i using Nat.strongRecOn generalizing sets with
  | ind i ih =>
      rw [find]
      split
      · next hRoot =>
          exact
            ⟨(root_of_parent_eq hRoot).symm, rfl, fun _ => rfl⟩
      · next hChild =>
          have hUp :
              sets.root (sets.parent (sets.parent i)) =
                sets.root i := by
            rw [root_parent, root_parent]
          have hLess : sets.parent (sets.parent i) < i :=
            Nat.lt_of_le_of_lt (sets.parent_le _)
              (Nat.lt_of_le_of_ne (sets.parent_le i) hChild)
          have hHalved :=
            withParent_same (lt_size_of_parent_ne hChild) hUp
              hLess
          rcases ih _ hLess
              (sets.withParent i _ (Nat.le_of_lt hLess)) with
            ⟨hFound, hSame⟩
          exact
            ⟨hFound.trans ((hHalved.roots _).trans hUp),
              hSame.size.trans hHalved.size,
              fun j => (hSame.roots j).trans (hHalved.roots j)⟩

/- Representatives are roots. -/
theorem representatives_eq
    (sets : DisjointSets)
    (is : List Nat) :
    sets.representatives is = is.map sets.root := by
  induction is generalizing sets with
  | nil => rfl
  | cons i is ih =>
      rcases sets.find_spec i with ⟨hFound, hSame⟩
      rw [representatives, List.map_cons]
      simp only
      rw [hFound, ih, funext hSame.roots]

------------------------------------------------------------
-- Joined Sets
------------------------------------------------------------

/- The root of two sets that are joined is the smaller one. -/
theorem root_join
    {pair : Nat × Nat}
    (hPair : pair.1 < sets.size ∧ pair.2 < sets.size) :
    (sets.join pair).size = sets.size ∧
      ∀ j, (sets.join pair).root j =
        if sets.root j =
            max (sets.root pair.1) (sets.root pair.2) then
          min (sets.root pair.1) (sets.root pair.2)
        else sets.root j := by
  rcases sets.find_spec pair.1 with ⟨hFirst, hSame⟩
  rcases (sets.find pair.1).1.find_spec pair.2 with
    ⟨hSecond, hLater⟩
  unfold join
  simp only
  generalize hSets : (sets.find pair.1).1.find pair.2 = found
    at hSecond hLater
  rw [hSame.roots] at hSecond
  have hRoots : ∀ j, found.1.root j = sets.root j := fun j =>
    (hLater.roots j).trans (hSame.roots j)
  have hSize : found.1.size = sets.size :=
    hLater.size.trans hSame.size
  rw [hFirst, hSecond]
  -- both are roots of the forest in which they are joined
  have hOwn : ∀ j, found.1.parent (sets.root j) =
      sets.root j := fun j => by
    rw [← hRoots]
    exact (found.1.root_spec j).1
  have hThere : ∀ {j}, j < sets.size →
      sets.root j < found.1.size := fun hItem => by
    rw [hSize]
    exact Nat.lt_of_le_of_lt (sets.root_le _) hItem
  split
  · next hLess =>
      refine ⟨List.length_set.trans hSize, fun j => ?_⟩
      rw [root_withParent (hThere hPair.2) (hOwn _) (hOwn _)
        hLess, hRoots, Nat.max_eq_right (Nat.le_of_lt hLess),
        Nat.min_eq_left (Nat.le_of_lt hLess)]
  · split
    · next hLess =>
        refine ⟨List.length_set.trans hSize, fun j => ?_⟩
        rw [root_withParent (hThere hPair.1) (hOwn _) (hOwn _)
          hLess, hRoots, Nat.max_eq_left (Nat.le_of_lt hLess),
          Nat.min_eq_right (Nat.le_of_lt hLess)]
    · next hNotLess hNotGreater =>
        refine ⟨hSize, fun j => ?_⟩
        have hBoth : sets.root pair.1 = sets.root pair.2 := by
          omega
        rw [hRoots, hBoth, Nat.max_self, Nat.min_self]
        split
        · next hHere => exact hHere
        · rfl

/-
  Numbers have the same root if and only if they are connected
  by what generates an equivalence.
-/
def Connects
    (sets : DisjointSets)
    (r : Nat → Nat → Prop) : Prop :=
  ∀ x y, sets.root x = sets.root y ↔ Relation.EqvGen r x y

/- At first nothing is connected. -/
theorem connects_singletons (n : Nat) :
    (singletons n).Connects (fun _ _ => False) := by
  intro x y
  rw [root_singletons, root_singletons]
  constructor
  · rintro rfl
    exact .refl x
  · intro hJoined
    exact
      eq_equivalence.eqvGen_iff.mp
        (hJoined.mono (fun _ _ hFalse => hFalse.elim))

/- Joining the sets of two numbers connects these, too. -/
theorem Connects.join
    {r : Nat → Nat → Prop}
    (hConnects : sets.Connects r)
    {pair : Nat × Nat}
    (hPair : pair.1 < sets.size ∧ pair.2 < sets.size) :
    (sets.join pair).Connects
      (fun a b => r a b ∨ (a, b) = pair) := by
  rcases pair with ⟨i, j⟩
  have hRoots := (root_join hPair).2
  have hOld : ∀ {a b}, sets.root a = sets.root b →
      Relation.EqvGen (fun a b => r a b ∨ (a, b) = (i, j))
        a b :=
    fun hSame =>
      ((hConnects _ _).mp hSame).mono (fun _ _ => Or.inl)
  have hNew :
      Relation.EqvGen (fun a b => r a b ∨ (a, b) = (i, j))
        i j :=
    .rel i j (Or.inr rfl)
  intro x y
  constructor
  · intro hEq
    have hCases :
        sets.root x = sets.root y ∨
          (sets.root x = sets.root i ∧
            sets.root y = sets.root j) ∨
          (sets.root x = sets.root j ∧
            sets.root y = sets.root i) := by
      rw [hRoots, hRoots] at hEq
      simp only at hEq
      split at hEq <;> split at hEq <;> omega
    rcases hCases with hBoth | ⟨hx, hy⟩ | ⟨hx, hy⟩
    · exact hOld hBoth
    · exact
        ((hOld hx).trans _ _ _ hNew).trans _ _ _ (hOld hy.symm)
    · exact
        ((hOld hx).trans _ _ _ hNew.symm).trans _ _ _
          (hOld hy.symm)
  · have hEquivalence :
        Equivalence (fun a b =>
          (sets.join (i, j)).root a =
            (sets.join (i, j)).root b) :=
      ⟨fun _ => rfl, Eq.symm, Eq.trans⟩
    intro hGenerated
    refine hEquivalence.eqvGen_iff.mp (hGenerated.mono ?_)
    rintro a b (hRel | hHere)
    · have hSame := (hConnects a b).mpr (.rel a b hRel)
      rw [hRoots, hRoots, hSame]
    · cases hHere
      rw [hRoots, hRoots]
      simp only
      split <;> split <;> omega

/- Joining the sets of several pairs connects them all. -/
theorem Connects.joinAll
    {r : Nat → Nat → Prop}
    (hConnects : sets.Connects r)
    {pairs : List (Nat × Nat)}
    (hPairs : ∀ pair ∈ pairs,
      pair.1 < sets.size ∧ pair.2 < sets.size) :
    (pairs.foldl DisjointSets.join sets).Connects
      (fun a b => r a b ∨ (a, b) ∈ pairs) := by
  induction pairs generalizing sets r with
  | nil => simpa [Connects] using hConnects
  | cons pair pairs ih =>
      rcases List.forall_mem_cons.mp hPairs with
        ⟨hFirst, hLater⟩
      have hNext := hConnects.join hFirst
      rw [← (root_join hFirst).1] at hLater
      simpa only [List.foldl_cons, List.mem_cons, or_assoc]
        using ih hNext hLater

end Dialectic.DisjointSets
