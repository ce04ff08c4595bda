import Dialectic.Pipeline.Run

/-
  This file defines applications, which hold the plugins of
  each stage and named processes.

  Key definitions include:
    * `Application`
    * `RunMode`
    * `Application.add`
    * `Application.remove`
    * `Application.define`
    * `Application.resolve`
    * `Application.runBlocking`
    * `Application.runAwaiting`
    * `Application.run`
-/

namespace Dialectic

/-
  The plugins of each stage, in the order in which they were
  registered, and the stages of each named process.
-/
structure Application where
  registry : List (Stage × List Plugin)
  processes : List (String × List Stage)

/- A run may wait for plugins that are not done at once. -/
inductive RunMode where
| blocking
| awaiting
deriving DecidableEq, Repr

namespace Application

/- An application without plugins. -/
def empty : Application :=
  ⟨[], []⟩

------------------------------------------------------------
-- Plugins
------------------------------------------------------------

/- The plugins of a stage. -/
def plugins (app : Application) (stage : Stage) : List Plugin :=
  (app.registry.lookup stage).getD []

/- The stages that have plugins. -/
def stages (app : Application) : List Stage :=
  (app.registry.filter (fun e => !e.2.isEmpty)).map Prod.fst

/- Register a plugin behind those of its stage. -/
def register (p : Plugin) (stage : Stage) :
    List (Stage × List Plugin) → List (Stage × List Plugin)
| [] => [(stage, [p])]
| (s, ps) :: rest =>
    if s = stage then (s, ps ++ [p]) :: rest
    else (s, ps) :: register p stage rest

/- Add a plugin to a stage. -/
def add (app : Application) (p : Plugin) (stage : Stage) :
    Application :=
  { app with registry := register p stage app.registry }

/- A stage has a plugin of a name. -/
def hasPlugin
    (app : Application)
    (name : String)
    (stage : Stage) : Bool :=
  (app.plugins stage).any (fun p => p.name == name)

/- Remove the plugins of a name from a stage. -/
def remove
    (app : Application)
    (name : String)
    (stage : Stage) : Application :=
  { app with
    registry :=
      app.registry.map (fun (s, ps) =>
        if s = stage then
          (s, ps.filter (fun p => p.name != name))
        else
          (s, ps)) }

------------------------------------------------------------
-- Processes
------------------------------------------------------------

/- Define the stages of a process. -/
def define
    (app : Application)
    (name : String)
    (stages : List Stage) : Application :=
  { app with processes := (name, stages) :: app.processes }

/- The stages of a process. -/
def process? (app : Application) (name : String) :
    Option (List Stage) :=
  app.processes.lookup name

/-
  The stages that a request chooses.  Its own processes come
  before those of the application.
-/
def chosenStages (app : Application) (r : Request) :
    Except Failure (List Stage) :=
  match r.process with
  | none => .error (.unknownProcess "")
  | some (.stages names) => .ok (names.map Stage.ofName)
  | some (.named name) =>
      match r.processes.lookup name, app.process? name with
      | some names, _ => .ok (names.map Stage.ofName)
      | none, some stages => .ok stages
      | none, none => .error (.unknownProcess name)

/- The stages of a request; each of them has plugins. -/
def resolve (app : Application) (r : Request) :
    Except Failure (List Stage) :=
  match app.chosenStages r with
  | .error failure => .error failure
  | .ok stages =>
      match stages.find? (fun s => (app.plugins s).isEmpty) with
      | some s => .error (.unknownStage s.name)
      | none => .ok stages

------------------------------------------------------------
-- Runs
------------------------------------------------------------

/-
  What has come of a run, its log, and what the runner has
  told.
-/
structure Report where
  result : Except Failure Response
  logs : List LogEntry
  events : List RunEvent

namespace Report

/- The report of a request that no run was begun for. -/
def refused (failure : Failure) : Report :=
  ⟨.error failure, [], []⟩

/- The report of a run that has ended. -/
def ofEnd (done : Except Failure Unit × RunState) : Report :=
  ⟨done.1.map (fun _ => done.2.response), done.2.logs,
    done.2.events⟩

end Report

/- Run the process of a request without waiting. -/
def runBlocking (app : Application) (r : Request) : Report :=
  match app.resolve r with
  | .error failure => .refused failure
  | .ok stages =>
      .ofEnd
        (Running.Blocking.run app.plugins stages (.start r))

/- Run the process of a request, waiting for each plugin. -/
def runAwaiting (app : Application) (r : Request) : Report :=
  match app.resolve r with
  | .error failure => .refused failure
  | .ok stages =>
      .ofEnd
        (Running.Awaiting.run app.plugins stages (.start r))

/- Run the process of a request. -/
def run (app : Application) : RunMode → Request → Report
| .blocking => app.runBlocking
| .awaiting => app.runAwaiting

end Application

end Dialectic
