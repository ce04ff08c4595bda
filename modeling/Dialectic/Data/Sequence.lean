/-
  This file defines operations on lists whose order matters:
  those that keep the order in which items were first seen,
  and sorting.

  Key definitions include:
    * `Sequence.lastIndex?`
    * `Sequence.addNew`
    * `Sequence.addAllNew`
    * `Sequence.modifyFirst`
    * `Sequence.sortWith`
    * `Sequence.sortBy`
    * `Sequence.insertText`
    * `Sequence.sortedTexts`
-/

namespace Dialectic

namespace Sequence

/- The index of the last item that satisfies `p`. -/
def lastIndex? {α : Type} (p : α → Bool) :
    List α → Option Nat
| [] => none
| a :: as =>
    match lastIndex? p as with
    | some n => some (n + 1)
    | none => if p a then some 0 else none

/- Add an item to the end of a list that does not have it. -/
def addNew {α : Type} [BEq α] (as : List α) (a : α) : List α :=
  if as.contains a then as else as ++ [a]

/- Add each item of a list that is not there yet. -/
def addAllNew {α : Type} [BEq α] (as bs : List α) : List α :=
  bs.foldl addNew as

/- Change the first item that satisfies `p`. -/
def modifyFirst {α : Type} (p : α → Bool) (f : α → α) :
    List α → List α
| [] => []
| a :: as =>
    if p a then f a :: as else a :: modifyFirst p f as

/- Insert an item before the first one that it precedes. -/
def insertBefore
    {α : Type}
    (before : α → α → Bool)
    (a : α) : List α → List α
| [] => [a]
| b :: bs =>
    if before a b then a :: b :: bs
    else b :: insertBefore before a bs

/-
  Sort a list.  Items of which none precedes the other keep
  their order.
-/
def sortWith
    {α : Type}
    (before : α → α → Bool)
    (as : List α) : List α :=
  as.foldl (fun sorted a => insertBefore before a sorted) []

/- Sort a list by a key. -/
def sortBy {α : Type} (key : α → Nat) (as : List α) : List α :=
  sortWith (fun a b => decide (key a < key b)) as

/- Insert a text into increasing ones that do not have it. -/
def insertText (t : String) : List String → List String
| [] => [t]
| u :: us =>
    if t < u then t :: u :: us
    else if t = u then u :: us
    else u :: insertText t us

/- The texts of a list in increasing order, each once. -/
def sortedTexts (ts : List String) : List String :=
  ts.foldl (fun sorted t => insertText t sorted) []

------------------------------------------------------------
-- Keys
------------------------------------------------------------

/- What a change keeps of the item at an index stays. -/
theorem map_modify_of_kept
    {α β : Type}
    {i : Nat}
    {f : α → α}
    {key : α → β}
    {as : List α}
    (hKey : ∀ a, as[i]? = some a → key (f a) = key a) :
    (as.modify i f).map key = as.map key := by
  apply List.ext_getElem?
  intro j
  rw [List.getElem?_map, List.getElem?_map,
    List.getElem?_modify]
  cases hHere : as[j]? with
  | none => rfl
  | some a =>
      by_cases hSame : i = j
      · subst hSame
        simp [hKey a hHere]
      · simp [hSame]

/- What a change of the item at an index keeps of it stays. -/
theorem map_modify
    {α β : Type}
    (i : Nat)
    (f : α → α)
    (key : α → β)
    (hKey : ∀ a, key (f a) = key a)
    (as : List α) :
    (as.modify i f).map key = as.map key :=
  map_modify_of_kept (fun a _ => hKey a)

/- What a change of all items keeps of each of them stays. -/
theorem map_map_of_kept
    {α β : Type}
    {f : α → α}
    {key : α → β}
    (hKey : ∀ a, key (f a) = key a)
    (as : List α) :
    (as.map f).map key = as.map key := by
  rw [List.map_map]
  exact List.map_congr_left (fun a _ => hKey a)

end Sequence

end Dialectic
