import Dialectic.Color.Basic
import Dialectic.Data.Decoding
import Dialectic.Export.Dot
import Dialectic.Export.Json
import Dialectic.Map.Builder
import Dialectic.Map.Grouping
import Dialectic.Model.Settings
import Dialectic.Selection.Choice

/-
  This file defines the settings that hold without any
  configuration, the values that stand for settings, and how
  settings are read from them.  A field that is missing keeps
  its standard value.

  Key definitions include:
    * `ModelSettings.standard`, `ModelSettings.ofValue?`
    * `GroupSettings.standard`, `GroupSettings.ofValue?`
    * `ColorSettings.ofValue?`
    * `Selection.Filters.ofFields?`
-/

namespace Dialectic

------------------------------------------------------------
-- Models
------------------------------------------------------------

namespace ModelSettings

/- The standard settings. -/
def standard : ModelSettings :=
  ⟨false, .explicitWins, false⟩

/- The value of the settings. -/
def toValue (s : ModelSettings) : Value :=
  Record.value [
    ("removeTagsFromText", .flag s.removeTagsFromText),
    ("relationConflictPolicy",
      .text s.relationConflictPolicy.name),
    ("explodeArguments", .flag s.explodeArguments)
  ]

/- The settings that a value stands for. -/
def ofValue? (value : Value) : Option ModelSettings := do
  let given ←
    Decode.fields
      ["removeTagsFromText", "relationConflictPolicy",
        "explodeArguments"]
      true value
  pure
    { removeTagsFromText := ← Decode.withDefault given
        "removeTagsFromText" standard.removeTagsFromText
        Decode.flag
      relationConflictPolicy := ← Decode.withDefault given
        "relationConflictPolicy"
        standard.relationConflictPolicy
        (Decode.name ConflictPolicy.all ConflictPolicy.name)
      explodeArguments := ← Decode.withDefault given
        "explodeArguments" standard.explodeArguments
        Decode.flag }

end ModelSettings

------------------------------------------------------------
-- Selections
------------------------------------------------------------

namespace Selection

namespace StatementSettings

/- The standard settings. -/
def standard : StatementSettings :=
  ⟨.withTitle, false⟩

/- The value of the settings. -/
def toValue (s : StatementSettings) : Value :=
  Record.value [
    ("mode", .text s.mode.name),
    ("excludeDisconnected", .flag s.excludeDisconnected)
  ]

/- The settings that a value stands for. -/
def ofValue? (value : Value) : Option StatementSettings := do
  let given ←
    Decode.fields ["mode", "excludeDisconnected"] true value
  pure
    { mode := ← Decode.withDefault given "mode" standard.mode
        (Decode.name StatementMode.modes StatementMode.name)
      excludeDisconnected := ← Decode.withDefault given
        "excludeDisconnected" standard.excludeDisconnected
        Decode.flag }

end StatementSettings

namespace ArgumentSettings

/- The standard settings. -/
def standard : ArgumentSettings :=
  ⟨.all, false⟩

/- The value of the settings. -/
def toValue (s : ArgumentSettings) : Value :=
  Record.value [
    ("mode", .text s.mode.name),
    ("excludeDisconnected", .flag s.excludeDisconnected)
  ]

/- The settings that a value stands for. -/
def ofValue? (value : Value) : Option ArgumentSettings := do
  let given ←
    Decode.fields ["mode", "excludeDisconnected"] true value
  pure
    { mode := ← Decode.withDefault given "mode" standard.mode
        (Decode.name ArgumentMode.modes ArgumentMode.name)
      excludeDisconnected := ← Decode.withDefault given
        "excludeDisconnected" standard.excludeDisconnected
        Decode.flag }

end ArgumentSettings

namespace Filters

/- The names of the fields of filters. -/
def fieldNames : List String := [
  "selectedTags", "selectElementsWithoutTag",
  "selectedSections", "selectElementsWithoutSection",
  "includeStatements", "excludeStatements",
  "excludeArguments", "ignoreIsInMap"
]

/- The fields of filters. -/
def toFields (f : Filters) : List (String × Value) := [
  ("selectedTags", .ofOption .texts f.selectedTags),
  ("selectElementsWithoutTag",
    .flag f.selectElementsWithoutTag),
  ("selectedSections", .ofOption .texts f.selectedSections),
  ("selectElementsWithoutSection",
    .flag f.selectElementsWithoutSection),
  ("includeStatements", .texts f.includeStatements),
  ("excludeStatements", .texts f.excludeStatements),
  ("excludeArguments", .texts f.excludeArguments),
  ("ignoreIsInMap", .flag f.ignoreIsInMap)
]

/- The filters that some fields stand for. -/
def ofFields? (given : Record) : Option Filters := do
  pure
    { selectedTags := ← Decode.optional given "selectedTags"
        Decode.texts
      selectElementsWithoutTag := ← Decode.withDefault given
        "selectElementsWithoutTag" true Decode.flag
      selectedSections := ← Decode.optional given
        "selectedSections" Decode.texts
      selectElementsWithoutSection := ← Decode.withDefault
        given "selectElementsWithoutSection" true Decode.flag
      includeStatements := ← Decode.withDefault given
        "includeStatements" [] Decode.texts
      excludeStatements := ← Decode.withDefault given
        "excludeStatements" [] Decode.texts
      excludeArguments := ← Decode.withDefault given
        "excludeArguments" [] Decode.texts
      ignoreIsInMap := ← Decode.withDefault given
        "ignoreIsInMap" false Decode.flag }

end Filters

end Selection

------------------------------------------------------------
-- Maps
------------------------------------------------------------

namespace MapSettings

/- The standard settings. -/
def standard : MapSettings :=
  ⟨true, false⟩

/- The value of the settings. -/
def toValue (s : MapSettings) : Value :=
  Record.value [
    ("includeDerived", .flag s.includeDerived),
    ("includeReciprocal", .flag s.includeReciprocal)
  ]

/- The settings that a value stands for. -/
def ofValue? (value : Value) : Option MapSettings := do
  let given ←
    Decode.fields ["includeDerived", "includeReciprocal"] true
      value
  pure
    { includeDerived := ← Decode.withDefault given
        "includeDerived" standard.includeDerived Decode.flag
      includeReciprocal := ← Decode.withDefault given
        "includeReciprocal" standard.includeReciprocal
        Decode.flag }

end MapSettings

namespace SectionPlan

mutual

/- The value of a plan. -/
def toValue : SectionPlan → Value
| ⟨title, statements, arguments, tags, isClosed, children⟩ =>
    Record.value [
      ("title", .text title),
      ("statements", .texts statements),
      ("arguments", .texts arguments),
      ("tags", .texts tags),
      ("isClosed", .ofOption .flag isClosed),
      ("children", .list (toValues children))
    ]

/- The values of some plans. -/
def toValues : List SectionPlan → List Value
| [] => []
| plan :: plans => toValue plan :: toValues plans

end

/-
  The plan that a value stands for.  Plans in plans are deeper
  in the value, so `fuel` is enough if it is its depth.
-/
def ofValueWithin? :
    (fuel : Nat) → Value → Option SectionPlan
| 0, _ => none
| fuel + 1, value => do
    let given ←
      Decode.fields
        ["title", "statements", "arguments", "tags",
          "isClosed", "children"]
        true value
    pure
      { title := ← Decode.withDefault given "title" ""
          Decode.text
        statements := ← Decode.withDefault given "statements"
          [] Decode.texts
        arguments := ← Decode.withDefault given "arguments" []
          Decode.texts
        tags := ← Decode.withDefault given "tags" []
          Decode.texts
        isClosed := ← Decode.optional given "isClosed"
          Decode.flag
        children := ← Decode.withDefault given "children" []
          (Decode.list (ofValueWithin? fuel)) }

/- The plan that a value stands for. -/
def ofValue? (value : Value) : Option SectionPlan :=
  ofValueWithin? value.depth value

end SectionPlan

namespace GroupSettings

/- The standard settings. -/
def standard : GroupSettings :=
  ⟨2, [], none, none⟩

/- The value of the settings. -/
def toValue (s : GroupSettings) : Value :=
  Record.value [
    ("groupDepth", .ofNat s.groupDepth),
    ("closedGroups", .texts s.closedGroups),
    ("closeDepth", .ofOption .ofNat s.closeDepth),
    ("regroup",
      .ofOption
        (fun plans => .list (SectionPlan.toValues plans))
        s.regroup)
  ]

/- The settings that a value stands for. -/
def ofValue? (value : Value) : Option GroupSettings := do
  let given ←
    Decode.fields
      ["groupDepth", "closedGroups", "closeDepth", "regroup"]
      true value
  pure
    { groupDepth := ← Decode.withDefault given "groupDepth"
        standard.groupDepth Decode.natural
      closedGroups := ← Decode.withDefault given
        "closedGroups" standard.closedGroups Decode.texts
      closeDepth := ← Decode.optional given "closeDepth"
        Decode.natural
      regroup := ← Decode.optional given "regroup"
        (Decode.list SectionPlan.ofValue?) }

end GroupSettings

------------------------------------------------------------
-- Colors
------------------------------------------------------------

namespace ColorSettings

/- Read the colors of tags. -/
def tagColorsOfValue? (value : Value) :
    Option (List (String × String)) := do
  let given ← Decode.record value
  given.mapM (fun (tag, color) => do
    let color ← Decode.text color
    pure (tag, color))

/- The value of the settings. -/
def toValue (s : ColorSettings) : Value :=
  Record.value [
    ("colorScheme", .texts s.colorScheme),
    ("tagColors",
      .record
        (s.tagColors.map
          (fun (tag, color) => (tag, .text color)))),
    ("colorizeByRelation", .flag s.colorizeByRelation),
    ("groupColors", .texts s.groupColors),
    ("statementColor", .text s.statementColor),
    ("argumentColor", .text s.argumentColor),
    ("proColor", .text s.proColor),
    ("conColor", .text s.conColor)
  ]

/- The settings that a value stands for. -/
def ofValue? (value : Value) : Option ColorSettings := do
  let given ←
    Decode.fields
      ["colorScheme", "tagColors", "colorizeByRelation",
        "groupColors", "statementColor", "argumentColor",
        "proColor", "conColor"]
      true value
  pure
    { colorScheme := ← Decode.withDefault given "colorScheme"
        standard.colorScheme Decode.texts
      tagColors := ← Decode.withDefault given "tagColors"
        standard.tagColors tagColorsOfValue?
      colorizeByRelation := ← Decode.withDefault given
        "colorizeByRelation" standard.colorizeByRelation
        Decode.flag
      groupColors := ← Decode.withDefault given "groupColors"
        standard.groupColors Decode.texts
      statementColor := ← Decode.withDefault given
        "statementColor" standard.statementColor Decode.text
      argumentColor := ← Decode.withDefault given
        "argumentColor" standard.argumentColor Decode.text
      proColor := ← Decode.withDefault given "proColor"
        standard.proColor Decode.text
      conColor := ← Decode.withDefault given "conColor"
        standard.conColor Decode.text }

end ColorSettings

------------------------------------------------------------
-- Exports
------------------------------------------------------------

namespace DotSettings

/- The standard settings. -/
def standard : DotSettings :=
  ⟨"Argument Map", "BT", false, true⟩

/- The value of the settings. -/
def toValue (s : DotSettings) : Value :=
  Record.value [
    ("graphName", .text s.graphName),
    ("rankDir", .text s.rankDir),
    ("concentrate", .flag s.concentrate),
    ("showLabelText", .flag s.showLabelText)
  ]

/- The settings that a value stands for. -/
def ofValue? (value : Value) : Option DotSettings := do
  let given ←
    Decode.fields
      ["graphName", "rankDir", "concentrate", "showLabelText"]
      true value
  pure
    { graphName := ← Decode.withDefault given "graphName"
        standard.graphName Decode.text
      rankDir := ← Decode.withDefault given "rankDir"
        standard.rankDir Decode.text
      concentrate := ← Decode.withDefault given "concentrate"
        standard.concentrate Decode.flag
      showLabelText := ← Decode.withDefault given
        "showLabelText" standard.showLabelText Decode.flag }

end DotSettings

namespace JsonSettings

/- The standard settings. -/
def standard : JsonSettings :=
  ⟨true, true, false⟩

/- The value of the settings. -/
def toValue (s : JsonSettings) : Value :=
  Record.value [
    ("pretty", .flag s.pretty),
    ("exportMap", .flag s.exportMap),
    ("removeEmbeddedRelations",
      .flag s.removeEmbeddedRelations)
  ]

/- The settings that a value stands for. -/
def ofValue? (value : Value) : Option JsonSettings := do
  let given ←
    Decode.fields
      ["pretty", "exportMap", "removeEmbeddedRelations"] true
      value
  pure
    { pretty := ← Decode.withDefault given "pretty"
        standard.pretty Decode.flag
      exportMap := ← Decode.withDefault given "exportMap"
        standard.exportMap Decode.flag
      removeEmbeddedRelations := ← Decode.withDefault given
        "removeEmbeddedRelations"
        standard.removeEmbeddedRelations Decode.flag }

end JsonSettings

end Dialectic
