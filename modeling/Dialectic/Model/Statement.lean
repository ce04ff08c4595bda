import Dialectic.Data.Value
import Dialectic.Document.Tree

/-
  This file defines statements, the classes of equivalent
  statements, arguments and sections of a model.

  Key definitions include:
    * `StatementRole`
    * `Statement`
    * `EquivalenceClass`
    * `Step`
    * `Argument`
    * `Section`
-/

namespace Dialectic

------------------------------------------------------------
-- Statements
------------------------------------------------------------

/- The role in which a statement occurs in a document. -/
inductive StatementRole where
| top
| premise (argument : String) (number : Nat)
| conclusion (argument : String) (number : Nat)
| intermediaryConclusion (argument : String) (number : Nat)
| relationTarget
deriving DecidableEq, Repr

/-
  An occurrence of a statement.  Its title is that of its
  class; `relations` holds the relations that it declares.
-/
structure Statement where
  id : Nat
  title : String
  text : Option String
  tags : List String
  sectionId : Option Nat
  role : StatementRole
  isReference : Bool
  mentions : List Mention
  data : Record
  relations : List Nat
  span : Span
  isInMap : Bool
deriving DecidableEq, Repr

namespace Statement

/- An occurrence of which only title and role are known. -/
def new (title : String) (role : StatementRole) : Statement :=
  { id := 0
    title := title
    text := none
    tags := []
    sectionId := none
    role := role
    isReference := false
    mentions := []
    data := []
    relations := []
    span := Span.origin
    isInMap := false }

end Statement

------------------------------------------------------------
-- Equivalence Classes
------------------------------------------------------------

/-
  The statements of one title.  Tags, relations and data are
  those of its members; the first value of a key counts.
  `equivalentTo` holds the titles of the classes that were
  declared equivalent.
-/
structure EquivalenceClass where
  title : String
  members : List Nat
  tags : List String
  relations : List Nat
  data : Record
  equivalentTo : List String
  isAutoTitled : Bool
  isUsedAsTopLevelStatement : Bool
  isUsedAsPremise : Bool
  isUsedAsConclusion : Bool
  sectionId : Option Nat
  order : Nat
  isInMap : Bool
  color : Option String
deriving DecidableEq, Repr

namespace EquivalenceClass

/- The class of a title that has no members yet. -/
def new (title : String) (order : Nat) : EquivalenceClass :=
  { title := title
    members := []
    tags := []
    relations := []
    data := []
    equivalentTo := []
    isAutoTitled := false
    isUsedAsTopLevelStatement := false
    isUsedAsPremise := false
    isUsedAsConclusion := false
    sectionId := none
    order := order
    isInMap := false
    color := none }

/- Some statement of a class is a step of an argument. -/
def isUsedInArgument (c : EquivalenceClass) : Bool :=
  c.isUsedAsPremise || c.isUsedAsConclusion

/- Note the role of a new member. -/
def noteRole
    (c : EquivalenceClass) :
    StatementRole → EquivalenceClass
| .top => { c with isUsedAsTopLevelStatement := true }
| .premise _ _ => { c with isUsedAsPremise := true }
| .conclusion _ _ => { c with isUsedAsConclusion := true }
| .intermediaryConclusion _ _ =>
    { c with isUsedAsConclusion := true }
| .relationTarget => c

/- Noting a role leaves the title. -/
theorem noteRole_title
    (c : EquivalenceClass)
    (role : StatementRole) :
    (c.noteRole role).title = c.title := by
  cases role <;> rfl

end EquivalenceClass

------------------------------------------------------------
-- Arguments
------------------------------------------------------------

/- The role of a step of a premise-conclusion structure. -/
inductive StepRole where
| premise
| intermediaryConclusion
| mainConclusion
deriving DecidableEq, Repr

namespace StepRole

/- All roles. -/
def all : List StepRole :=
  [premise, intermediaryConclusion, mainConclusion]

/- The name of a role. -/
def name : StepRole → String
| premise => "premise"
| intermediaryConclusion => "intermediary-conclusion"
| mainConclusion => "main-conclusion"

/- The role of a statement that is a step of an argument. -/
def inArgument
    (role : StepRole)
    (argument : String)
    (number : Nat) : StatementRole :=
  match role with
  | premise => .premise argument number
  | intermediaryConclusion =>
      .intermediaryConclusion argument number
  | mainConclusion => .conclusion argument number

end StepRole

/-
  A step of a premise-conclusion structure.  Its title is that
  of a class, and a conclusion may name the rule of its
  inference.
-/
structure Step where
  number : Nat
  title : String
  role : StepRole
  inference : Option String
deriving DecidableEq, Repr

/- An argument with its premise-conclusion structure. -/
structure Argument where
  title : String
  descriptions : List String
  steps : List Step
  tags : List String
  sectionId : Option Nat
  data : Record
  relations : List Nat
  isAutoTitled : Bool
  order : Nat
  isInMap : Bool
  color : Option String
  span : Span
deriving DecidableEq, Repr

namespace Argument

/- An argument of which only the title is known. -/
def new (title : String) (order : Nat) : Argument :=
  { title := title
    descriptions := []
    steps := []
    tags := []
    sectionId := none
    data := []
    relations := []
    isAutoTitled := false
    order := order
    isInMap := false
    color := none
    span := Span.origin }

/- The steps that are premises. -/
def premises (a : Argument) : List Step :=
  a.steps.filter (fun step => step.role == .premise)

/- The step that is the main conclusion. -/
def mainConclusion? (a : Argument) : Option Step :=
  a.steps.find? (fun step => step.role == .mainConclusion)

/- The first description. -/
def description? (a : Argument) : Option String :=
  a.descriptions.head?

/- Some step is an intermediary conclusion. -/
def hasSeveralInferences (a : Argument) : Bool :=
  a.steps.any
    (fun step => step.role == .intermediaryConclusion)

end Argument

------------------------------------------------------------
-- Sections
------------------------------------------------------------

/- A section, which a heading opens. -/
structure Section where
  id : Nat
  title : String
  level : Nat
  parent : Option Nat
  tags : List String
  data : Record
  span : Span
deriving DecidableEq, Repr

namespace Section

/- A section is a group unless its data denies it. -/
def isGroup (s : Section) : Bool :=
  Record.flag? s.data "isGroup" != some false

/- A section is closed if its data says so. -/
def isClosed (s : Section) : Bool :=
  Record.flag? s.data "isClosed" == some true

end Section

end Dialectic
