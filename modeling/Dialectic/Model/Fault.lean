import Dialectic.Model.Element

/-
  This file defines the faults that building a model can find.

  Key definitions include:
    * `ModelFault`
    * `ModelFault.message`
-/

namespace Dialectic

/-
  What is wrong with the declarations of a document.  Only
  the declaration at fault is skipped.
-/
inductive ModelFault where
| conflictingReconstruction (argument : String)
| conflictingEquivalence (first second relation : String)
| equivalenceWithArgument (argument : String)
| selfRelation (element : String)
| danglingReference (element : String)
deriving DecidableEq, Repr

namespace ModelFault

/- The message of a fault. -/
def message : ModelFault → String
| conflictingReconstruction argument =>
    "argument <" ++ argument
      ++ "> has two different premise-conclusion structures"
| conflictingEquivalence first second relation =>
    "[" ++ first ++ "] and [" ++ second
      ++ "] cannot be equivalent: they " ++ relation
      ++ " each other"
| equivalenceWithArgument argument =>
    "equivalence can only be declared between statements, "
      ++ "found <" ++ argument ++ ">"
| selfRelation element =>
    element ++ " cannot relate to itself"
| danglingReference element =>
    "dangling reference to " ++ element

end ModelFault

end Dialectic
