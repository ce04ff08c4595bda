import Dialectic.Data.Sequence
import Dialectic.Data.Value
import Dialectic.Model.Element

/-
  This file defines the selection of the elements of a model
  that a map shows.

  Key definitions include:
    * `Selection`
    * `Selection.ofTitles`
    * `Selection.contains`
    * `Selection.Filters`
-/

namespace Dialectic

------------------------------------------------------------
-- Selections
------------------------------------------------------------

/-
  The titles of the selected classes and arguments, in
  increasing order.
-/
structure Selection where
  statements : List String
  arguments : List String
deriving DecidableEq, Repr

namespace Selection

/- Nothing is selected. -/
def empty : Selection :=
  ⟨[], []⟩

instance : Inhabited Selection :=
  ⟨empty⟩

/- The selection of the elements with the given titles. -/
def ofTitles (statements arguments : List String) : Selection :=
  ⟨Sequence.sortedTexts statements,
    Sequence.sortedTexts arguments⟩

/- An element is selected. -/
def contains (s : Selection) : Element → Bool
| .statement title => s.statements.contains title
| .argument title => s.arguments.contains title

/- Nothing is selected. -/
def isEmpty (s : Selection) : Bool :=
  s.statements.isEmpty && s.arguments.isEmpty

/- The number of selected elements. -/
def size (s : Selection) : Nat :=
  s.statements.length + s.arguments.length

/- The value of a selection. -/
def toValue (s : Selection) : Value :=
  Record.value [
    ("statements", .texts s.statements),
    ("arguments", .texts s.arguments)
  ]

end Selection

------------------------------------------------------------
-- Filters
------------------------------------------------------------

/-
  Which elements may be selected.  Without selected tags or
  sections every tag or section is fine; excluding an element
  counts more than including it.
-/
structure Selection.Filters where
  selectedTags : Option (List String)
  selectElementsWithoutTag : Bool
  selectedSections : Option (List String)
  selectElementsWithoutSection : Bool
  includeStatements : List String
  excludeStatements : List String
  excludeArguments : List String
  ignoreIsInMap : Bool
deriving DecidableEq, Repr

namespace Selection.Filters

/- Filters that let every element pass. -/
def standard : Filters :=
  { selectedTags := none
    selectElementsWithoutTag := true
    selectedSections := none
    selectElementsWithoutSection := true
    includeStatements := []
    excludeStatements := []
    excludeArguments := []
    ignoreIsInMap := false }

instance : Inhabited Filters :=
  ⟨standard⟩

end Selection.Filters

end Dialectic
