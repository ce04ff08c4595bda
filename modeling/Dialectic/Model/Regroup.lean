import Dialectic.Model.Basic

/-
  This file defines how the sections of a model are replaced
  by configured ones.

  Key definitions include:
    * `SectionPlan`
    * `Regrouping.addSections`
    * `Regrouping.placeListed`
    * `Regrouping.placeTagged`
    * `Model.regroup`
-/

namespace Dialectic

/-
  A section to be set up: the elements that it lists, the tags
  that bring further elements into it, and the sections in it.
-/
structure SectionPlan where
  title : String
  statements : List String
  arguments : List String
  tags : List String
  isClosed : Option Bool
  children : List SectionPlan
deriving Repr

namespace Regrouping

------------------------------------------------------------
-- Sections
------------------------------------------------------------

/- The sections added, each with its plan. -/
abbrev Placements := List (Nat × SectionPlan)

/- The data of a section that is set up by a plan. -/
def planData (isClosed : Option Bool) : Record :=
  match isClosed with
  | some closed => [("isClosed", .flag closed)]
  | none => []

mutual

/- Add the section of a plan and those in it. -/
def addSection
    (m : Model)
    (parent : Option Nat)
    (level : Nat) :
    SectionPlan → Model × Placements
| ⟨title, statements, arguments, tags, isClosed, children⟩ =>
    let plan : SectionPlan :=
      ⟨title, statements, arguments, tags, isClosed, children⟩
    let id := m.nextSection
    let m :=
      m.addSection title level parent [] (planData isClosed)
        Span.origin
    let (m, placements) :=
      addSections m (some id) (level + 1) children
    (m, (id, plan) :: placements)

/- Add the sections of some plans. -/
def addSections
    (m : Model)
    (parent : Option Nat)
    (level : Nat) :
    List SectionPlan → Model × Placements
| [] => (m, [])
| plan :: plans =>
    let (m, first) := addSection m parent level plan
    let (m, rest) := addSections m parent level plans
    (m, first ++ rest)

end

------------------------------------------------------------
-- Placement
------------------------------------------------------------

/-
  Put a class and its members into a section, unless the class
  is in one already.
-/
def placeStatement (id : Nat) (m : Model) (title : String) :
    Model :=
  match m.class? title with
  | some c =>
      if c.sectionId.isNone then
        let m :=
          m.modifyClass title
            (fun c => { c with sectionId := some id })
        c.members.foldl
          (fun m s =>
            m.modifyStatement s
              (fun s => { s with sectionId := some id }))
          m
      else
        m
  | none => m

/-
  Put an argument into a section, unless it is in one already.
-/
def placeArgument (id : Nat) (m : Model) (title : String) :
    Model :=
  m.modifyArgument title
    (fun a =>
      if a.sectionId.isNone then
        { a with sectionId := some id }
      else
        a)
    (fun _ => by split <;> rfl)

/-
  Put the listed elements of a plan into its section.
-/
def placeListed (m : Model) (place : Nat × SectionPlan) :
    Model :=
  let m :=
    place.2.statements.foldl (placeStatement place.1) m
  place.2.arguments.foldl (placeArgument place.1) m

/- The listed elements of a plan that a model does not have. -/
def unknownElements (m : Model) (plan : SectionPlan) :
    List Element :=
  let listed :=
    plan.statements.map Element.statement
      ++ plan.arguments.map Element.argument
  listed.filter (fun e => !m.contains e)

/- An element that is in no section has a tag of a plan. -/
def attracts
    (plan : SectionPlan)
    (sectionId : Option Nat)
    (tags : List String) : Bool :=
  sectionId.isNone && tags.any plan.tags.contains

/-
  Put the elements that have a tag of a plan into its section,
  if they are in none.
-/
def placeTagged (m : Model) (place : Nat × SectionPlan) :
    Model :=
  let (id, plan) := place
  let statements :=
    (m.classes.filter
      (fun c => attracts plan c.sectionId c.tags)).map
      EquivalenceClass.title
  let arguments :=
    (m.arguments.filter
      (fun a => attracts plan a.sectionId a.tags)).map
      Argument.title
  let m := statements.foldl (placeStatement id) m
  arguments.foldl
    (fun m title =>
      m.modifyArgument title
        (fun a => { a with sectionId := some id }))
    m

end Regrouping

/-
  Replace the sections of a model by those of some plans.
  Elements are placed where they are listed first; tags place
  those that are listed nowhere.  Also gives the listed
  elements that the model does not have.
-/
def Model.regroup
    (m : Model)
    (plans : List SectionPlan) : Model × List Element :=
  let (m, placements) :=
    Regrouping.addSections m.clearSections none 1 plans
  let unknown :=
    placements.flatMap
      (fun place => Regrouping.unknownElements m place.2)
  let m := placements.foldl Regrouping.placeListed m
  (placements.foldl Regrouping.placeTagged m, unknown)

end Dialectic
