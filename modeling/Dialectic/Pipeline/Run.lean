import Dialectic.Pipeline.Plugin
import Dialectic.Pipeline.Stage

/-
  This file defines how the plugins of some stages are run,
  one after the other.  There are two runners: one fails at
  plugins that may wait, the other one waits for them.

  Key definitions include:
    * `RunEvent`
    * `RunState`
    * `Running`
    * `Running.fail`
    * `Running.beginStage`
    * `Running.prepareAll`
    * `Running.Blocking.run`
    * `Running.Awaiting.run`
-/

namespace Dialectic

/-
  What a runner tells of a run, besides the log of the
  plugins.  The start has the runner's own message.
-/
inductive RunEvent where
| starting (message : String) (stages : Nat)
| entering (stage : Stage) (plugins : Nat)
| cancelled (stage : Stage)
| finished (exceptions : Nat)
deriving DecidableEq, Repr

/-
  The request, the response and the log of a run so far, and
  what the runner has told.
-/
structure RunState where
  request : Request
  response : Response
  logs : List LogEntry
  events : List RunEvent

/- Nothing has been done yet. -/
def RunState.start (r : Request) : RunState :=
  ⟨r, Response.empty, [], []⟩

/- The state when a plugin has run, before it may fail. -/
def RunState.settle (s : RunState) (done : RunOutcome) :
    RunState :=
  { s with
    request :=
      { s.request with
        isCancelled := s.request.isCancelled || done.cancels }
    response := done.response
    logs := s.logs ++ done.logs }

/-
  A part of a run.  It may end the run with a failure; what
  was logged until then stays.
-/
abbrev Running (α : Type) : Type :=
  ExceptT Failure (StateM RunState) α

namespace Running

------------------------------------------------------------
-- Failures
------------------------------------------------------------

/- End the run. -/
def abort (failure : Failure) : Running Unit :=
  fun state => (.error failure, state)

/- Add to the log of the run. -/
def note (entries : List LogEntry) : Running Unit :=
  fun state =>
    (.ok (), { state with logs := state.logs ++ entries })

/- Tell something of the run. -/
def tell (event : RunEvent) : Running Unit :=
  fun state =>
    (.ok (), { state with events := state.events ++ [event] })

/- The message that a plugin has failed, if it is logged. -/
def failureEntries
    (r : Request)
    (plugin : String)
    (failure : Failure) : List LogEntry :=
  if r.logExceptions then
    [⟨.error, plugin, failure.display, some failure.code⟩]
  else
    []

/-
  Meet the failure of a plugin.  It ends the run, or it is
  logged and listed, as the request has it.
-/
def fail (plugin : String) (failure : Failure) : Running Unit :=
  fun state =>
    if state.request.throwExceptions then
      (.error failure, state)
    else
      let entries := failureEntries state.request plugin failure
      ( .ok (),
        { state with
          response := state.response.report [failure]
          logs := state.logs ++ entries } )

/- Meet a failure, if there is one; gives whether there is. -/
def failIf (plugin : String) :
    Option Failure → Running Bool
| none => pure false
| some failure => do
    fail plugin failure
    pure true

------------------------------------------------------------
-- What Both Runners Do
------------------------------------------------------------

/- Enter a stage.  A run that is cancelled ends before it. -/
def beginStage (s : Stage) (plugins : List Plugin) :
    Running Unit := do
  if (← get).request.isCancelled then
    tell (.cancelled s)
    abort (.cancelled s.name)
  else
    tell (.entering s plugins.length)

/-
  Let a plugin prepare; gives whether it may run.  The level
  of the request before that decides what is logged.
-/
def prepareOne (p : Plugin) : Running Bool := do
  if p.capabilities.prepare then
    let state ← get
    let logger : Logger := ⟨state.request.logLevel, p.name⟩
    note (logger.log .verbose "preparing")
    let outcome := p.prepare state.request state.response
    modify (fun s => { s with request := outcome.request })
    let failed ← failIf p.name outcome.failure
    pure (p.capabilities.run && !failed)
  else
    pure p.capabilities.run

/- Let all plugins prepare; gives those that may run. -/
def prepareAll : List Plugin → Running (List Plugin)
| [] => pure []
| p :: ps => do
    let runs ← prepareOne p
    let rest ← prepareAll ps
    pure (if runs then p :: rest else rest)

------------------------------------------------------------
-- Without Waiting
------------------------------------------------------------

namespace Blocking

/- A run that does not wait met a plugin that may wait. -/
def cannotWait (p : Plugin) : Failure :=
  .plugin p.name "async-plugin"
    "asynchronous plugin cannot run in a synchronous run"

/-
  What a plugin does, or why it may not do it.  One that may
  wait is not begun.
-/
def outcome
    (p : Plugin)
    (level : LogLevel)
    (state : RunState) : RunOutcome :=
  match p.missingField? state.response, p.isAsync with
  | some failure, _ => .failed state.response failure
  | none, false =>
      p.run state.request state.response ⟨level, p.name⟩
  | none, true => .failed state.response (cannotWait p)

/- Let plugins run, one after the other. -/
def runAll (level : LogLevel) : List Plugin → Running Unit
| [] => pure ()
| p :: ps => do
    let done := outcome p level (← get)
    modify (fun s => s.settle done)
    let _ ← failIf p.name done.failure
    runAll level ps

/-
  Go through stages.  In each of them all its plugins prepare,
  then those that may do so run.
-/
def stages (pluginsOf : Stage → List Plugin) :
    List Stage → Running Unit
| [] => pure ()
| s :: rest => do
    beginStage s (pluginsOf s)
    let ready ← prepareAll (pluginsOf s)
    runAll (← get).request.logLevel ready
    stages pluginsOf rest

/- A whole run. -/
def run
    (pluginsOf : Stage → List Plugin)
    (ss : List Stage) : Running Unit := do
  tell (.starting "starting run" ss.length)
  stages pluginsOf ss
  tell (.finished (← get).response.exceptions.length)

end Blocking

------------------------------------------------------------
-- Waiting
------------------------------------------------------------

namespace Awaiting

/-
  What a plugin does, or why it may not do it.  The runner
  waits until the plugin is done.
-/
def outcome
    (p : Plugin)
    (level : LogLevel)
    (state : RunState) : RunOutcome :=
  match p.missingField? state.response with
  | some failure => .failed state.response failure
  | none =>
      p.run state.request state.response ⟨level, p.name⟩

/- Let plugins run, each when the one before is done. -/
def runAll (level : LogLevel) : List Plugin → Running Unit
| [] => pure ()
| p :: ps => do
    let done := outcome p level (← get)
    modify (fun s => s.settle done)
    let _ ← failIf p.name done.failure
    runAll level ps

/-
  Go through stages.  In each of them all its plugins prepare,
  then those that may do so run.
-/
def stages (pluginsOf : Stage → List Plugin) :
    List Stage → Running Unit
| [] => pure ()
| s :: rest => do
    beginStage s (pluginsOf s)
    let ready ← prepareAll (pluginsOf s)
    runAll (← get).request.logLevel ready
    stages pluginsOf rest

/- A whole run. -/
def run
    (pluginsOf : Stage → List Plugin)
    (ss : List Stage) : Running Unit := do
  tell (.starting "starting async run" ss.length)
  stages pluginsOf ss
  tell (.finished (← get).response.exceptions.length)

end Awaiting

end Running

end Dialectic
