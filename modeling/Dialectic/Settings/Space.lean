import Dialectic.Data.Layer
import Dialectic.Settings.Encoding

/-
  This file defines the spaces of settings.  The settings of a
  space have a name under which they are configured, and a
  slot for settings that have been prepared.

  Key definitions include:
    * `PreparedSettings`
    * `SettingsSpace`
    * `SettingsSpace.resolve?`
    * `SettingsSpace.model` and the other spaces
-/

namespace Dialectic

------------------------------------------------------------
-- Prepared Settings
------------------------------------------------------------

/- The settings that have been prepared, one for each space. -/
structure PreparedSettings where
  model : Option ModelSettings
  statements : Option Selection.StatementSettings
  arguments : Option Selection.ArgumentSettings
  map : Option MapSettings
  group : Option GroupSettings
  color : Option ColorSettings
  dot : Option DotSettings
  json : Option JsonSettings
deriving Repr

namespace PreparedSettings

/- Nothing has been prepared. -/
def empty : PreparedSettings :=
  ⟨none, none, none, none, none, none, none, none⟩

end PreparedSettings

------------------------------------------------------------
-- Spaces
------------------------------------------------------------

/-
  A space of settings: its name, its standard settings, how
  they are written and read, and its slot.
-/
structure SettingsSpace (σ : Type) where
  name : String
  standard : σ
  toValue : σ → Value
  ofValue? : Value → Option σ
  slot : PreparedSettings → Option σ
  fill : PreparedSettings → σ → PreparedSettings

namespace SettingsSpace

/- Lay a configuration over defaults and read the settings. -/
def resolve?
    {σ : Type}
    (space : SettingsSpace σ)
    (defaults : σ)
    (configured : Value) : Option σ :=
  space.ofValue? (configured.layOver (space.toValue defaults))

/- How models are built. -/
def model : SettingsSpace ModelSettings where
  name := "model"
  standard := .standard
  toValue := ModelSettings.toValue
  ofValue? := ModelSettings.ofValue?
  slot := PreparedSettings.model
  fill := fun p s => { p with model := some s }

/- How classes are selected. -/
def statements :
    SettingsSpace Selection.StatementSettings where
  name := "statementSelection"
  standard := .standard
  toValue := Selection.StatementSettings.toValue
  ofValue? := Selection.StatementSettings.ofValue?
  slot := PreparedSettings.statements
  fill := fun p s => { p with statements := some s }

/- How arguments are selected. -/
def arguments : SettingsSpace Selection.ArgumentSettings where
  name := "argumentSelection"
  standard := .standard
  toValue := Selection.ArgumentSettings.toValue
  ofValue? := Selection.ArgumentSettings.ofValue?
  slot := PreparedSettings.arguments
  fill := fun p s => { p with arguments := some s }

/- How maps are built. -/
def map : SettingsSpace MapSettings where
  name := "map"
  standard := .standard
  toValue := MapSettings.toValue
  ofValue? := MapSettings.ofValue?
  slot := PreparedSettings.map
  fill := fun p s => { p with map := some s }

/- How nodes are grouped. -/
def group : SettingsSpace GroupSettings where
  name := "group"
  standard := .standard
  toValue := GroupSettings.toValue
  ofValue? := GroupSettings.ofValue?
  slot := PreparedSettings.group
  fill := fun p s => { p with group := some s }

/- How colors are chosen. -/
def color : SettingsSpace ColorSettings where
  name := "color"
  standard := .standard
  toValue := ColorSettings.toValue
  ofValue? := ColorSettings.ofValue?
  slot := PreparedSettings.color
  fill := fun p s => { p with color := some s }

/- How maps are written. -/
def dot : SettingsSpace DotSettings where
  name := "dot"
  standard := .standard
  toValue := DotSettings.toValue
  ofValue? := DotSettings.ofValue?
  slot := PreparedSettings.dot
  fill := fun p s => { p with dot := some s }

/- How models are written. -/
def json : SettingsSpace JsonSettings where
  name := "json"
  standard := .standard
  toValue := JsonSettings.toValue
  ofValue? := JsonSettings.ofValue?
  slot := PreparedSettings.json
  fill := fun p s => { p with json := some s }

/- The names of all spaces. -/
def names : List String := [
  model.name, statements.name, arguments.name, map.name,
  group.name, color.name, dot.name, json.name
]

end SettingsSpace

end Dialectic
