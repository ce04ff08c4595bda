/-
  This file defines disjoint sets of numbers, each of which is
  a tree with the smallest number of the set at its root.

  Key definitions include:
    * `DisjointSets`
    * `DisjointSets.singletons`
    * `DisjointSets.find`
    * `DisjointSets.join`
    * `DisjointSets.representatives`
-/

namespace Dialectic

/-
  Disjoint sets of numbers.  Each number has a parent, which is
  not greater; one that is its own parent represents its set.
-/
structure DisjointSets where
  parents : List Nat
  ordered : ∀ i p : Nat, parents[i]? = some p → p ≤ i

namespace DisjointSets

/- The first numbers, each one as a set of its own. -/
def singletons (n : Nat) : DisjointSets where
  parents := List.range n
  ordered := by
    intro i p hParent
    rcases List.getElem?_eq_some_iff.mp hParent with
      ⟨hLess, hHere⟩
    rw [List.getElem_range] at hHere
    exact Nat.le_of_eq hHere.symm

/- The parent of a number; one without an entry is its own. -/
def parent (sets : DisjointSets) (i : Nat) : Nat :=
  sets.parents[i]?.getD i

/- Parents are not greater. -/
theorem parent_le (sets : DisjointSets) (i : Nat) :
    sets.parent i ≤ i := by
  unfold parent
  cases hParent : sets.parents[i]? with
  | none => exact Nat.le_refl i
  | some p => exact sets.ordered i p hParent

/- Give a number another parent. -/
def withParent
    (sets : DisjointSets)
    (i p : Nat)
    (hOrder : p ≤ i) : DisjointSets where
  parents := sets.parents.set i p
  ordered := by
    intro j q hParent
    rw [List.getElem?_set] at hParent
    split at hParent
    · next hHere =>
        split at hParent
        · cases hParent
          exact hHere ▸ hOrder
        · cases hParent
    · exact sets.ordered j q hParent

/-
  Find the number that represents the set of another one.  The
  way to it is halved: each number on it that is visited gets
  the parent of its parent.
-/
def find (sets : DisjointSets) (i : Nat) :
    DisjointSets × Nat :=
  if hRoot : sets.parent i = i then
    (sets, i)
  else
    let up := sets.parent (sets.parent i)
    have hUp : up < i :=
      Nat.lt_of_le_of_lt (sets.parent_le (sets.parent i))
        (Nat.lt_of_le_of_ne (sets.parent_le i) hRoot)
    find (sets.withParent i up (Nat.le_of_lt hUp)) up
termination_by i

/- Join the sets of two numbers. -/
def join (sets : DisjointSets) (pair : Nat × Nat) :
    DisjointSets :=
  let (sets, a) := sets.find pair.1
  let (sets, b) := sets.find pair.2
  if hFirst : a < b then
    sets.withParent b a (Nat.le_of_lt hFirst)
  else if hSecond : b < a then
    sets.withParent a b (Nat.le_of_lt hSecond)
  else
    sets

/- Find the representatives of numbers, one after the other. -/
def representatives (sets : DisjointSets) :
    List Nat → List Nat
| [] => []
| i :: is =>
    let (sets, root) := sets.find i
    root :: sets.representatives is

end DisjointSets

end Dialectic
