/-
  This file defines indices, which tell for titles at which
  places of a list they are.

  Key definitions include:
    * `TitleIndex`
    * `TitleIndex.get?`
    * `TitleIndex.insert`
    * `TitleIndex.ofTitles`
-/

namespace Dialectic

/- An index has one place for each title that it knows. -/
structure TitleIndex where
  entries : List (String × Nat)
deriving DecidableEq, Repr

namespace TitleIndex

/- An index that knows no title. -/
def empty : TitleIndex :=
  ⟨[]⟩

/- The place of a title. -/
def get? (index : TitleIndex) (title : String) : Option Nat :=
  index.entries.lookup title

/- Put the place of a title instead of the one it had. -/
def putEntry (title : String) (place : Nat) :
    List (String × Nat) → List (String × Nat)
| [] => [(title, place)]
| (other, known) :: entries =>
    if title = other then (title, place) :: entries
    else (other, known) :: putEntry title place entries

/- Put a title at a place. -/
def insert
    (index : TitleIndex)
    (title : String)
    (place : Nat) : TitleIndex :=
  ⟨putEntry title place index.entries⟩

/-
  The index of a list of titles.  A title that is in it more
  than once is at the last of its places.
-/
def ofTitles (titles : List String) : TitleIndex :=
  titles.zipIdx.foldl
    (fun index (title, place) => index.insert title place)
    empty

/- The index of a list that one more title was added to. -/
theorem ofTitles_concat (titles : List String) (title : String) :
    ofTitles (titles ++ [title]) =
      (ofTitles titles).insert title titles.length := by
  simp [ofTitles, List.zipIdx_append]

end TitleIndex

end Dialectic
