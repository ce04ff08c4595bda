import Dialectic.Model.Basic

/-
  This file defines how arguments with several inferences are
  split into one argument for each inference.

  Key definitions include:
    * `Explosion.inferences`
    * `Explosion.freeNumber`
    * `Explosion.withPart`
    * `Explosion.split`
    * `Model.explode`
-/

namespace Dialectic

namespace Explosion

------------------------------------------------------------
-- Inferences
------------------------------------------------------------

/-
  The steps of each inference, after the steps read for the
  next one.  A conclusion ends its inference as the main
  conclusion and is a premise of the next one.
-/
def inferencesAfter :
    (read : List Step) → List Step → List (List Step)
| _, [] => []
| read, step :: steps =>
    if step.role = .premise then
      inferencesAfter (read ++ [step]) steps
    else
      let conclusion := { step with role := .mainConclusion }
      let premise :=
        { step with role := .premise, inference := none }
      (read ++ [conclusion]) :: inferencesAfter [premise] steps

/- The steps of each inference. -/
def inferences (steps : List Step) : List (List Step) :=
  inferencesAfter [] steps

------------------------------------------------------------
-- Titles
------------------------------------------------------------

/- The title of a part of an argument. -/
def partTitle (title : String) (number : Nat) : String :=
  title ++ " (" ++ toString number ++ ")"

/-
  The first number from the given one on whose title is free.
  Each number that is taken is that of another argument, so
  `fuel` is enough if it is the number of arguments.
-/
def freeNumber (m : Model) (title : String) :
    (fuel : Nat) → (number : Nat) → Nat
| 0, number => number
| fuel + 1, number =>
    if (m.argument? (partTitle title number)).isNone then
      number
    else
      freeNumber m title fuel (number + 1)

------------------------------------------------------------
-- Splitting
------------------------------------------------------------

/- Note that the classes of some steps are premises. -/
def markPremises (m : Model) (steps : List Step) : Model :=
  (steps.filter (fun s => s.role == .premise)).foldl
    (fun m s =>
      m.modifyClass s.title
        (fun c => { c with isUsedAsPremise := true }))
    m

/-
  Give an argument the steps of one inference.  A part of
  another argument also gets its section and tags.
-/
def fill
    (origin : Argument)
    (isPart : Bool)
    (steps : List Step)
    (a : Argument) : Argument :=
  let a := { a with steps := steps }
  if isPart then
    { a with
      sectionId := origin.sectionId
      isAutoTitled := true
      tags := Sequence.addAllNew a.tags origin.tags
      data :=
        Record.insert a.data "explodedFrom"
          (.text origin.title) }
  else
    a

/- Filling an argument keeps its title. -/
theorem fill_title
    (origin : Argument)
    (isPart : Bool)
    (steps : List Step)
    (a : Argument) :
    (fill origin isPart steps a).title = a.title := by
  cases isPart <;> rfl

/- A model with a part of an argument that is not linked yet. -/
def withPart
    (m : Model)
    (origin : Argument)
    (current : String)
    (steps : List Step) : Model :=
  let m := markPremises m steps
  let m := m.ensureArgument current
  m.modifyArgument current
    (fill origin (current != origin.title) steps)
    (fill_title origin _ steps)

/- Each part supports the next one. -/
def link
    (m : Model)
    (previous : Option String)
    (current : String) : Model :=
  match previous with
  | some title =>
      (m.addRelation (.argument title) (.argument current)
        .support .explicit none).1
  | none => m

/-
  Add the parts of an argument after the previous one.  The
  last part keeps the title; the others are numbered from
  `number` on.
-/
def addParts
    (origin : Argument) :
    (previous : Option String) →
    (number : Nat) →
    Model →
    List (List Step) →
    Model
| _, _, m, [] => m
| previous, number, m, steps :: rest =>
    let free :=
      freeNumber m origin.title m.arguments.length number
    let current :=
      if rest.isEmpty then origin.title
      else partTitle origin.title free
    let m := withPart m origin current steps
    let m := link m previous current
    addParts origin (some current) (free + 1) m rest

/- Split the argument of a title. -/
def split (m : Model) (title : String) : Model :=
  match m.argument? title with
  | some a => addParts a none 1 m (inferences a.steps)
  | none => m

end Explosion

/-
  Split each argument with several inferences.  Also gives
  their number.
-/
def Model.explode (m : Model) : Model × Nat :=
  let titles :=
    (m.arguments.filter Argument.hasSeveralInferences).map
      Argument.title
  (titles.foldl Explosion.split m, titles.length)

end Dialectic
