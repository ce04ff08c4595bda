import Dialectic.Pipeline.Request
import Dialectic.Pipeline.Response

/-
  This file defines the plugins that do the work of a stage.

  Key definitions include:
    * `Capabilities`
    * `PrepareOutcome`
    * `RunOutcome`
    * `Plugin`
    * `Plugin.missingField?`
-/

namespace Dialectic

/- The hooks that a plugin has. -/
structure Capabilities where
  prepare : Bool
  run : Bool
deriving DecidableEq, Repr

namespace Capabilities

/- Only the hook that runs. -/
def runOnly : Capabilities :=
  ⟨false, true⟩

/- Only the hook that prepares. -/
def prepareOnly : Capabilities :=
  ⟨true, false⟩

/- Both hooks. -/
def both : Capabilities :=
  ⟨true, true⟩

end Capabilities

/-
  The request after a hook has prepared it, and how the hook
  failed, if it did.
-/
structure PrepareOutcome where
  request : Request
  failure : Option Failure

namespace PrepareOutcome

/- The outcome of a hook that edits the request. -/
def ofEdit
    {α : Type}
    (edit : RequestEdit α)
    (r : Request) : PrepareOutcome :=
  match edit r with
  | (.ok _, edited) => ⟨edited, none⟩
  | (.error failure, edited) => ⟨edited, some failure⟩

end PrepareOutcome

/-
  The response after a hook has run, what it has logged,
  whether it has cancelled the run, and how it failed, if it
  did.
-/
structure RunOutcome where
  response : Response
  logs : List LogEntry
  cancels : Bool
  failure : Option Failure

namespace RunOutcome

/- The outcome of a hook that has not failed. -/
def done (response : Response) (logs : List LogEntry) :
    RunOutcome :=
  ⟨response, logs, false, none⟩

/- The outcome of a hook that has failed. -/
def failed (response : Response) (failure : Failure) :
    RunOutcome :=
  ⟨response, [], false, some failure⟩

end RunOutcome

/-
  A plugin: its name, whether it may wait for something, its
  hooks, and the fields of the response that it needs to run.
-/
structure Plugin where
  name : String
  isAsync : Bool
  capabilities : Capabilities
  requires : List ResponseField
  prepare : Request → Response → PrepareOutcome
  run : Request → Response → Logger → RunOutcome

namespace Plugin

/- A hook that prepares nothing. -/
def prepareNothing (r : Request) (_ : Response) :
    PrepareOutcome :=
  ⟨r, none⟩

/- A hook that prepares the settings of a space. -/
def prepareSpace
    {σ : Type}
    (space : SettingsSpace σ)
    (r : Request)
    (_ : Response) : PrepareOutcome :=
  .ofEdit (Request.prepare space) r

/- A plugin lacks a field of the response. -/
def missing (plugin : String) (field : ResponseField) :
    Failure :=
  .missingDependency plugin field.display

/- The failure of the first required field that is missing. -/
def missingField? (p : Plugin) (response : Response) :
    Option Failure :=
  (p.requires.find? (fun f => !response.has f)).map
    (missing p.name)

end Plugin

end Dialectic
