import Dialectic.Model.Derive

/-
  This file defines how models are to be built.

  Key definitions include:
    * `ModelSettings`
-/

namespace Dialectic

/-
  Whether tags are removed from texts, what is done about
  derived relations next to declared ones, and whether
  arguments with several inferences are split.
-/
structure ModelSettings where
  removeTagsFromText : Bool
  relationConflictPolicy : ConflictPolicy
  explodeArguments : Bool
deriving DecidableEq, Repr

end Dialectic
