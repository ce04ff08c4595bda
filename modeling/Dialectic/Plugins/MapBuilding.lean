import Dialectic.Map.Builder
import Dialectic.Map.Collapse
import Dialectic.Map.Grouping
import Dialectic.Pipeline.Plugin
import Dialectic.Selection.Choice

/-
  This file defines the plugins that select elements and build
  the map of a model.

  Key definitions include:
    * `Plugin.preselection`
    * `Plugin.statementSelection`
    * `Plugin.argumentSelection`
    * `Plugin.map`
    * `Plugin.group`
    * `Plugin.closedGroup`
-/

namespace Dialectic

namespace Plugin

------------------------------------------------------------
-- Selection
------------------------------------------------------------

/- Select the elements that pass the filters. -/
def runPreselection
    (r : Request)
    (response : Response)
    (_ : Logger) : RunOutcome :=
  match response.model with
  | none => .failed response (missing "preselection" .model)
  | some m =>
      .done
        { response with
          selection := some (Selection.preselect m r.filters) }
        []

/- Selects elements by tag and section. -/
def preselection : Plugin where
  name := "preselection"
  isAsync := false
  capabilities := .runOnly
  requires := [.model]
  prepare := prepareNothing
  run := runPreselection

/-
  Narrow the selection down.  The selection is used up; if
  there is no model, none is left.
-/
def runNarrowing
    {σ : Type}
    (name : String)
    (space : SettingsSpace σ)
    (narrow :
      Model → Selection → σ → Selection.Filters →
        Model × Selection)
    (r : Request)
    (response : Response)
    (_ : Logger) : RunOutcome :=
  match r.settings space with
  | .error failure => .failed response failure
  | .ok settings =>
      match response.selection, response.model with
      | none, _ => .failed response (missing name .selection)
      | some _, none =>
          .failed { response with selection := none }
            (missing name .model)
      | some s, some m =>
          let (m, s) := narrow m s settings r.filters
          .done
            { response with model := some m, selection := some s }
            []

/- Chooses the classes that a map shows. -/
def statementSelection : Plugin where
  name := "statement-selection"
  isAsync := false
  capabilities := .both
  requires := [.model, .selection]
  prepare := prepareSpace SettingsSpace.statements
  run :=
    runNarrowing "statement-selection" SettingsSpace.statements
      Selection.narrowStatements

/- Chooses the arguments that a map shows. -/
def argumentSelection : Plugin where
  name := "argument-selection"
  isAsync := false
  capabilities := .both
  requires := [.model, .selection]
  prepare := prepareSpace SettingsSpace.arguments
  run :=
    runNarrowing "argument-selection" SettingsSpace.arguments
      Selection.narrowArguments

------------------------------------------------------------
-- Maps
------------------------------------------------------------

/- Build the map of the selection. -/
def runMap
    (r : Request)
    (response : Response)
    (_ : Logger) : RunOutcome :=
  match r.settings SettingsSpace.map with
  | .error failure => .failed response failure
  | .ok settings =>
      match response.model, response.selection with
      | none, _ => .failed response (missing "map" .model)
      | some _, none =>
          .failed response (missing "map" .selection)
      | some m, some s =>
          .done
            { response with
              map := some (ArgumentMap.build m s settings) }
            []

/- Builds the map of a selection. -/
def map : Plugin where
  name := "map"
  isAsync := false
  capabilities := .both
  requires := [.model, .selection]
  prepare := prepareSpace SettingsSpace.map
  run := runMap

/-
  Put the nodes of the map into groups.  The map is taken out
  of the response and put back, also if there is no model.
-/
def runGroup
    (r : Request)
    (response : Response)
    (_ : Logger) : RunOutcome :=
  match r.settings SettingsSpace.group with
  | .error failure => .failed response failure
  | .ok settings =>
      match response.map with
      | none => .failed response (missing "group" .map)
      | some map =>
          let taken := { response with map := none }
          let (map, failure) :=
            match taken.model with
            | none => (map, some (missing "group" .model))
            | some m => (map.buildGroups m settings, none)
          { response := { taken with map := some map }
            logs := []
            cancels := false
            failure := failure }

/- Puts the nodes of a map into groups. -/
def group : Plugin where
  name := "group"
  isAsync := false
  capabilities := .both
  requires := [.model, .map]
  prepare := prepareSpace SettingsSpace.group
  run := runGroup

/- Replace the closed groups of the map by nodes. -/
def runClosedGroup
    (_ : Request)
    (response : Response)
    (logger : Logger) : RunOutcome :=
  match response.map with
  | none => .failed response (missing "closed-group" .map)
  | some map =>
      let (map, count) := map.collapse
      .done { response with map := some map }
        (if count = 0 then []
        else
          logger.log .verbose
            ("collapsed " ++ toString count
              ++ " closed groups"))

/- Replaces the closed groups of a map by nodes. -/
def closedGroup : Plugin where
  name := "closed-group"
  isAsync := false
  capabilities := .runOnly
  requires := [.map]
  prepare := prepareNothing
  run := runClosedGroup

end Plugin

end Dialectic
