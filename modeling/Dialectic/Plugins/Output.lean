import Dialectic.Color.Assignment
import Dialectic.Export.Dot
import Dialectic.Export.Json
import Dialectic.Pipeline.Plugin

/-
  This file defines the plugins that color and write models
  and maps.

  Key definitions include:
    * `Plugin.color`
    * `Plugin.dotExport`
    * `Plugin.jsonExport`
-/

namespace Dialectic

namespace Plugin

------------------------------------------------------------
-- Colors
------------------------------------------------------------

/- Color the model, and the map if there is one. -/
def runColor
    (r : Request)
    (response : Response)
    (_ : Logger) : RunOutcome :=
  match r.settings SettingsSpace.color with
  | .error failure => .failed response failure
  | .ok settings =>
      match response.model with
      | none => .failed response (missing "color" .model)
      | some m =>
          let (m, colors) := m.colorize settings
          match response.map with
          | none =>
              .done
                { response with
                  model := some m
                  colors := some colors }
                []
          | some map =>
              let (map, colors) := map.colorize settings colors
              .done
                { response with
                  model := some m
                  map := some map
                  colors := some colors }
                []

/- Colors tags, elements and groups. -/
def color : Plugin where
  name := "color"
  isAsync := false
  capabilities := .both
  requires := [.model]
  prepare := prepareSpace SettingsSpace.color
  run := runColor

------------------------------------------------------------
-- Exports
------------------------------------------------------------

/- Write the map. -/
def runDotExport
    (r : Request)
    (response : Response)
    (_ : Logger) : RunOutcome :=
  match r.settings SettingsSpace.dot with
  | .error failure => .failed response failure
  | .ok settings =>
      match response.map with
      | none => .failed response (missing "dot-export" .map)
      | some map =>
          .done
            { response with dot := some (map.toDot settings) }
            []

/- Writes maps for graph drawing tools. -/
def dotExport : Plugin where
  name := "dot-export"
  isAsync := false
  capabilities := .both
  requires := [.map]
  prepare := prepareSpace SettingsSpace.dot
  run := runDotExport

/- Write the model and, if wished, the map. -/
def runJsonExport
    (r : Request)
    (response : Response)
    (_ : Logger) : RunOutcome :=
  match r.settings SettingsSpace.json with
  | .error failure => .failed response failure
  | .ok settings =>
      match response.model with
      | none => .failed response (missing "json-export" .model)
      | some m =>
          let map :=
            if settings.exportMap then response.map else none
          .done
            { response with json := some (m.toJson map settings) }
            []

/- Writes models as JSON texts. -/
def jsonExport : Plugin where
  name := "json-export"
  isAsync := false
  capabilities := .both
  requires := [.model]
  prepare := prepareSpace SettingsSpace.json
  run := runJsonExport

end Plugin

end Dialectic
