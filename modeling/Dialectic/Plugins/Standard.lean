import Dialectic.Pipeline.Application
import Dialectic.Plugins.MapBuilding
import Dialectic.Plugins.ModelBuilding
import Dialectic.Plugins.Output
import Dialectic.Plugins.Reading

/-
  This file defines the application with all built-in plugins.

  Key definitions include:
    * `Plugin.builtIn`
    * `Application.standard`
-/

namespace Dialectic

variable [YamlReader]

/-
  The built-in plugins with their stages.  Front matter comes
  before the plugins that prepare settings.
-/
def Plugin.builtIn : List (Plugin × Stage) := [
  (parser, .parseInput),
  (data, .buildModel),
  (model, .buildModel),
  (explodeArguments, .buildModel),
  (regroup, .buildModel),
  (derive, .buildModel),
  (preselection, .buildMap),
  (statementSelection, .buildMap),
  (argumentSelection, .buildMap),
  (map, .buildMap),
  (group, .buildMap),
  (closedGroup, .transformClosedGroups),
  (color, .colorize),
  (dotExport, .exportDot),
  (jsonExport, .exportJson)
]

/- The built-in plugin of a name. -/
def Plugin.builtIn? (name : String) : Option Plugin :=
  (builtIn.find? (fun p => p.1.name == name)).map Prod.fst

namespace Application

/- The processes that are defined at first. -/
def standardProcesses : List (String × List Stage) := [
  ("export-dot",
    [.parseInput, .buildModel, .buildMap,
      .transformClosedGroups, .colorize, .exportDot]),
  ("export-json",
    [.parseInput, .buildModel, .buildMap, .colorize,
      .exportJson]),
  ("build-map",
    [.parseInput, .buildModel, .buildMap,
      .transformClosedGroups, .colorize]),
  ("build-model", [.parseInput, .buildModel])
]

/- The application with all built-in plugins. -/
def standard : Application :=
  Plugin.builtIn.foldl
    (fun app entry => app.add entry.1 entry.2)
    { empty with processes := standardProcesses }

end Application

end Dialectic
