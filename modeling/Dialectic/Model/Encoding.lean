import Dialectic.Document.Encoding
import Dialectic.Model.Basic

/-
  This file defines the values that stand for models, and how
  models are read back from them.

  Key definitions include:
    * `Element.toValue`, `Element.ofValue?`
    * `Relation.toValue`, `Relation.ofValue?`
    * `Statement.toValue`, `Statement.ofValue?`
    * `EquivalenceClass.toValue`, `EquivalenceClass.ofValue?`
    * `Argument.toValue`, `Argument.ofValue?`
    * `Section.toValue`, `Section.ofValue?`
    * `Model.toValue`, `ModelData.ofValue?`, `Model.ofValue?`
-/

namespace Dialectic

------------------------------------------------------------
-- Relations
------------------------------------------------------------

namespace Element

/- The value of an element. -/
def toValue : Element → Value
| statement title =>
    Record.value [
      ("type", .text "statement"),
      ("title", .text title)
    ]
| argument title =>
    Record.value [
      ("type", .text "argument"),
      ("title", .text title)
    ]

/- The element that a value stands for. -/
def ofValue? (value : Value) : Option Element := do
  let given ← Decode.fields ["type", "title"] false value
  let type ← Decode.required given "type" Decode.text
  let title ← Decode.required given "title" Decode.text
  match type with
  | "statement" => pure (.statement title)
  | "argument" => pure (.argument title)
  | _ => none

end Element

namespace Origin

/- The value of an origin. -/
def toValue : Origin → Value
| explicit => Record.value [("origin", .text "explicit")]
| derived rule =>
    Record.value [
      ("origin", .text "derived"),
      ("rule", .text rule.name)
    ]

/- The origin that a value stands for. -/
def ofValue? (value : Value) : Option Origin := do
  let given ← Decode.fields ["origin", "rule"] true value
  let origin ← Decode.required given "origin" Decode.text
  match origin with
  | "explicit" =>
      if (given.get? "rule").getD .null = .null then
        pure .explicit
      else
        none
  | "derived" =>
      let rule ← Decode.required given "rule"
        (Decode.name DerivationRule.all DerivationRule.name)
      pure (.derived rule)
  | _ => none

end Origin

namespace RelationKind

/- The kind that a value stands for. -/
def ofValue? : Value → Option RelationKind :=
  Decode.name all name

end RelationKind

/- The value of a list of indices. -/
def indicesValue (ids : List Nat) : Value :=
  .list (ids.map .ofNat)

/- The indices that a value stands for. -/
def indicesOfValue? : Value → Option (List Nat) :=
  Decode.list Decode.natural

namespace Relation

/- The value of a relation. -/
def toValue (r : Relation) : Value :=
  Record.value [
    ("id", .ofNat r.id),
    ("from", r.source.toValue),
    ("to", r.target.toValue),
    ("kind", .text r.kind.name),
    ("origin", r.origin.toValue),
    ("occurrences", indicesValue r.occurrences)
  ]

/- The relation that a value stands for. -/
def ofValue? (value : Value) : Option Relation := do
  let given ←
    Decode.fields
      ["id", "from", "to", "kind", "origin", "occurrences"]
      false value
  pure
    { id := ← Decode.required given "id" Decode.natural
      source := ← Decode.required given "from" Element.ofValue?
      target := ← Decode.required given "to" Element.ofValue?
      kind := ← Decode.required given "kind"
        RelationKind.ofValue?
      origin := ← Decode.required given "origin"
        Origin.ofValue?
      occurrences := ← Decode.required given "occurrences"
        indicesOfValue? }

end Relation

------------------------------------------------------------
-- Statements
------------------------------------------------------------

namespace StatementRole

/- The value of the role of a step. -/
def stepValue
    (role : String)
    (argument : String)
    (number : Nat) : Value :=
  Record.value [
    ("role", .text role),
    ("argument", .text argument),
    ("number", .ofNat number)
  ]

/- The value of a role. -/
def toValue : StatementRole → Value
| top => Record.value [("role", .text "top")]
| premise argument number =>
    stepValue "premise" argument number
| conclusion argument number =>
    stepValue "conclusion" argument number
| intermediaryConclusion argument number =>
    stepValue "intermediary-conclusion" argument number
| relationTarget =>
    Record.value [("role", .text "relation-target")]

/- Read the argument and the number of the role of a step. -/
def stepOf?
    (given : Record)
    (make : String → Nat → StatementRole) :
    Option StatementRole := do
  let argument ← Decode.required given "argument" Decode.text
  let number ←
    Decode.required given "number" Decode.smallNatural
  pure (make argument number)

/- The role that a value stands for. -/
def ofValue? (value : Value) : Option StatementRole := do
  let given ←
    Decode.fields ["role", "argument", "number"] true value
  let role ← Decode.required given "role" Decode.text
  match role with
  | "top" => pure .top
  | "premise" => stepOf? given .premise
  | "conclusion" => stepOf? given .conclusion
  | "intermediary-conclusion" =>
      stepOf? given .intermediaryConclusion
  | "relation-target" => pure .relationTarget
  | _ => none

end StatementRole

namespace Statement

/- The names of the fields of a statement. -/
def fieldNames : List String := [
  "id", "title", "text", "tags", "section", "role",
  "is_reference", "mentions", "data", "relations", "span",
  "is_in_map"
]

/- The value of a statement. -/
def toValue (s : Statement) : Value :=
  Record.value [
    ("id", .ofNat s.id),
    ("title", .text s.title),
    ("text", .ofOption .text s.text),
    ("tags", .texts s.tags),
    ("section", .ofOption .ofNat s.sectionId),
    ("role", s.role.toValue),
    ("is_reference", .flag s.isReference),
    ("mentions", .list (s.mentions.map Mention.toValue)),
    ("data", .record s.data),
    ("relations", indicesValue s.relations),
    ("span", s.span.toValue),
    ("is_in_map", .flag s.isInMap)
  ]

/- The statement that a value stands for. -/
def ofValue? (value : Value) : Option Statement := do
  let given ← Decode.fields fieldNames false value
  pure
    { id := ← Decode.required given "id" Decode.natural
      title := ← Decode.required given "title" Decode.text
      text := ← Decode.optional given "text" Decode.text
      tags := ← Decode.required given "tags" Decode.texts
      sectionId := ← Decode.optional given "section"
        Decode.natural
      role := ← Decode.required given "role"
        StatementRole.ofValue?
      isReference := ← Decode.required given "is_reference"
        Decode.flag
      mentions := ← Decode.required given "mentions"
        (Decode.list Mention.ofValue?)
      data := ← Decode.required given "data" Decode.record
      relations := ← Decode.required given "relations"
        indicesOfValue?
      span := ← Decode.required given "span" Span.ofValue?
      isInMap := ← Decode.required given "is_in_map"
        Decode.flag }

end Statement

------------------------------------------------------------
-- Equivalence Classes
------------------------------------------------------------

namespace EquivalenceClass

/- The names of the fields of a class. -/
def fieldNames : List String := [
  "title", "members", "tags", "relations", "data",
  "equivalent_to", "is_auto_titled",
  "is_used_as_top_level_statement", "is_used_as_premise",
  "is_used_as_conclusion", "section", "order", "is_in_map",
  "color"
]

/- The value of a class. -/
def toValue (c : EquivalenceClass) : Value :=
  Record.value [
    ("title", .text c.title),
    ("members", indicesValue c.members),
    ("tags", .texts c.tags),
    ("relations", indicesValue c.relations),
    ("data", .record c.data),
    ("equivalent_to", .texts c.equivalentTo),
    ("is_auto_titled", .flag c.isAutoTitled),
    ("is_used_as_top_level_statement",
      .flag c.isUsedAsTopLevelStatement),
    ("is_used_as_premise", .flag c.isUsedAsPremise),
    ("is_used_as_conclusion", .flag c.isUsedAsConclusion),
    ("section", .ofOption .ofNat c.sectionId),
    ("order", .ofNat c.order),
    ("is_in_map", .flag c.isInMap),
    ("color", .ofOption .text c.color)
  ]

/- The class that a value stands for. -/
def ofValue? (value : Value) : Option EquivalenceClass := do
  let given ← Decode.fields fieldNames false value
  pure
    { title := ← Decode.required given "title" Decode.text
      members := ← Decode.required given "members"
        indicesOfValue?
      tags := ← Decode.required given "tags" Decode.texts
      relations := ← Decode.required given "relations"
        indicesOfValue?
      data := ← Decode.required given "data" Decode.record
      equivalentTo := ← Decode.required given "equivalent_to"
        Decode.texts
      isAutoTitled := ← Decode.required given
        "is_auto_titled" Decode.flag
      isUsedAsTopLevelStatement := ← Decode.required given
        "is_used_as_top_level_statement" Decode.flag
      isUsedAsPremise := ← Decode.required given
        "is_used_as_premise" Decode.flag
      isUsedAsConclusion := ← Decode.required given
        "is_used_as_conclusion" Decode.flag
      sectionId := ← Decode.optional given "section"
        Decode.natural
      order := ← Decode.required given "order" Decode.natural
      isInMap := ← Decode.required given "is_in_map"
        Decode.flag
      color := ← Decode.optional given "color" Decode.text }

end EquivalenceClass

------------------------------------------------------------
-- Arguments
------------------------------------------------------------

namespace Step

/- The value of a step. -/
def toValue (step : Step) : Value :=
  Record.value [
    ("number", .ofNat step.number),
    ("title", .text step.title),
    ("role", .text step.role.name),
    ("inference", .ofOption .text step.inference)
  ]

/- The step that a value stands for. -/
def ofValue? (value : Value) : Option Step := do
  let given ←
    Decode.fields ["number", "title", "role", "inference"]
      false value
  pure
    { number := ← Decode.required given "number"
        Decode.smallNatural
      title := ← Decode.required given "title" Decode.text
      role := ← Decode.required given "role"
        (Decode.name StepRole.all StepRole.name)
      inference := ← Decode.optional given "inference"
        Decode.text }

end Step

namespace Argument

/- The names of the fields of an argument. -/
def fieldNames : List String := [
  "title", "descriptions", "pcs", "tags", "section", "data",
  "relations", "is_auto_titled", "order", "is_in_map",
  "color", "span"
]

/- The value of an argument. -/
def toValue (a : Argument) : Value :=
  Record.value [
    ("title", .text a.title),
    ("descriptions", .texts a.descriptions),
    ("pcs", .list (a.steps.map Step.toValue)),
    ("tags", .texts a.tags),
    ("section", .ofOption .ofNat a.sectionId),
    ("data", .record a.data),
    ("relations", indicesValue a.relations),
    ("is_auto_titled", .flag a.isAutoTitled),
    ("order", .ofNat a.order),
    ("is_in_map", .flag a.isInMap),
    ("color", .ofOption .text a.color),
    ("span", a.span.toValue)
  ]

/- The argument that a value stands for. -/
def ofValue? (value : Value) : Option Argument := do
  let given ← Decode.fields fieldNames false value
  pure
    { title := ← Decode.required given "title" Decode.text
      descriptions := ← Decode.required given "descriptions"
        Decode.texts
      steps := ← Decode.required given "pcs"
        (Decode.list Step.ofValue?)
      tags := ← Decode.required given "tags" Decode.texts
      sectionId := ← Decode.optional given "section"
        Decode.natural
      data := ← Decode.required given "data" Decode.record
      relations := ← Decode.required given "relations"
        indicesOfValue?
      isAutoTitled := ← Decode.required given
        "is_auto_titled" Decode.flag
      order := ← Decode.required given "order" Decode.natural
      isInMap := ← Decode.required given "is_in_map"
        Decode.flag
      color := ← Decode.optional given "color" Decode.text
      span := ← Decode.required given "span" Span.ofValue? }

end Argument

------------------------------------------------------------
-- Sections
------------------------------------------------------------

namespace Section

/- The value of a section. -/
def toValue (s : Section) : Value :=
  Record.value [
    ("id", .ofNat s.id),
    ("title", .text s.title),
    ("level", .ofNat s.level),
    ("parent", .ofOption .ofNat s.parent),
    ("tags", .texts s.tags),
    ("data", .record s.data),
    ("span", s.span.toValue)
  ]

/- The section that a value stands for. -/
def ofValue? (value : Value) : Option Section := do
  let given ←
    Decode.fields
      ["id", "title", "level", "parent", "tags", "data",
        "span"]
      false value
  pure
    { id := ← Decode.required given "id" Decode.natural
      title := ← Decode.required given "title" Decode.text
      level := ← Decode.required given "level" Decode.natural
      parent := ← Decode.optional given "parent"
        Decode.natural
      tags := ← Decode.required given "tags" Decode.texts
      data := ← Decode.required given "data" Decode.record
      span := ← Decode.required given "span" Span.ofValue? }

end Section

------------------------------------------------------------
-- Models
------------------------------------------------------------

namespace ModelFault

/- The fault that a value stands for. -/
def ofValue? : Value → Option ModelFault
| .record [(name, given)] => do
    let given ← Decode.record given
    let text := fun key => Decode.required given key Decode.text
    match name with
    | "ConflictingPcs" =>
        pure (.conflictingReconstruction (← text "argument"))
    | "ConflictingEquivalence" =>
        pure
          (.conflictingEquivalence (← text "first")
            (← text "second") (← text "relation"))
    | "EquivalenceWithArgument" =>
        pure (.equivalenceWithArgument (← text "argument"))
    | "SelfRelation" => pure (.selfRelation (← text "element"))
    | "DanglingReference" =>
        pure (.danglingReference (← text "element"))
    | _ => none
| _ => none

end ModelFault

namespace Model

/- The value of a model. -/
def toValue (m : Model) : Value :=
  Record.value [
    ("statements", .list (m.statements.map Statement.toValue)),
    ("classes",
      .list (m.classes.map EquivalenceClass.toValue)),
    ("arguments", .list (m.arguments.map Argument.toValue)),
    ("relations", .list (m.relations.map Relation.toValue)),
    ("sections", .list (m.sections.map Section.toValue)),
    ("tags", .texts m.tags)
  ]

end Model

/- The data of a model that a value stands for. -/
def ModelData.ofValue? (value : Value) : Option ModelData := do
  let given ←
    Decode.fields
      ["statements", "classes", "arguments", "relations",
        "sections", "tags"]
      false value
  pure
    { statements := ← Decode.required given "statements"
        (Decode.list Statement.ofValue?)
      classes := ← Decode.required given "classes"
        (Decode.list EquivalenceClass.ofValue?)
      arguments := ← Decode.required given "arguments"
        (Decode.list Argument.ofValue?)
      relations := ← Decode.required given "relations"
        (Decode.list Relation.ofValue?)
      sections := ← Decode.required given "sections"
        (Decode.list Section.ofValue?)
      tags := ← Decode.required given "tags" Decode.texts }

/- The model that a value stands for. -/
def Model.ofValue? (value : Value) : Option Model :=
  (ModelData.ofValue? value).map Model.ofData

end Dialectic
