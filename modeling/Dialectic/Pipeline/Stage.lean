/-
  This file defines the stages of a run.

  Key definitions include:
    * `Stage`
    * `Stage.ofName`
    * `Stage.name`
    * `Stage.before`
-/

namespace Dialectic

/-
  A stage of a run.  Any name that is not that of a built-in
  stage is the name of a custom one.
-/
inductive Stage where
| parseInput
| buildModel
| buildMap
| transformClosedGroups
| colorize
| exportDot
| exportJson
| custom (name : String)
deriving DecidableEq, Repr

namespace Stage

/- The built-in stages in their order. -/
def builtIn : List Stage := [
  parseInput, buildModel, buildMap, transformClosedGroups,
  colorize, exportDot, exportJson
]

/- The name of a stage. -/
def name : Stage → String
| parseInput => "parse-input"
| buildModel => "build-model"
| buildMap => "build-map"
| transformClosedGroups => "transform-closed-groups"
| colorize => "colorize"
| exportDot => "export-dot"
| exportJson => "export-json"
| custom name => name

/- The stage of a name. -/
def ofName (given : String) : Stage :=
  match builtIn.find? (fun s => s.name == given) with
  | some s => s
  | none => custom given

/- A stage is built in. -/
def isBuiltIn : Stage → Bool
| custom _ => false
| _ => true

/- The place of a stage among the built-in ones. -/
def rank (s : Stage) : Nat :=
  builtIn.findIdx (· == s)

/-
  Built-in stages come first, in their order; custom ones are
  ordered by their names.
-/
def before (s t : Stage) : Bool :=
  if s.rank = t.rank then decide (s.name < t.name)
  else decide (s.rank < t.rank)

end Stage

end Dialectic
