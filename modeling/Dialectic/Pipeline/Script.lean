import Dialectic.Pipeline.Plugin

/-
  This file defines plugins that are given by scripts, lists
  of simple actions.  They show what hooks can see and do.

  Key definitions include:
    * `PrepareAction`
    * `RunAction`
    * `Script.prepare`
    * `Script.run`
    * `Plugin.ofScript`
-/

namespace Dialectic

------------------------------------------------------------
-- Actions
------------------------------------------------------------

/- What a script does to prepare a request. -/
inductive PrepareAction where
| fail (code message : String)
| configure (space : String) (value : Value)
| setLevel (level : LogLevel)
| setThrow (throws : Bool)
| setLog (logs : Bool)
| cancel

/-
  What a script does to produce a response.  To record a
  value is to add it to the output `trace`, unless that is no
  list.
-/
inductive RunAction where
| fail (code message : String)
| cancel
| record (value : Value)
| recordSpace (space : String)
| recordSpaces
| recordLevel
| output (key : String) (value : Value)
| log (level : LogLevel) (message : String)
| provide (field : ResponseField)
| wait

namespace Script

------------------------------------------------------------
-- Preparing
------------------------------------------------------------

/- Do some actions until one fails. -/
def prepare (name : String) :
    List PrepareAction → Request → PrepareOutcome
| [], r => ⟨r, none⟩
| .fail code message :: _, r =>
    ⟨r, some (.plugin name code message)⟩
| .configure space value :: rest, r =>
    prepare name rest (r.configure space value)
| .setLevel level :: rest, r =>
    prepare name rest { r with logLevel := level }
| .setThrow throws :: rest, r =>
    prepare name rest { r with throwExceptions := throws }
| .setLog logs :: rest, r =>
    prepare name rest { r with logExceptions := logs }
| .cancel :: rest, r =>
    prepare name rest { r with isCancelled := true }

------------------------------------------------------------
-- Running
------------------------------------------------------------

/- Add a value to the output `trace`. -/
def record (response : Response) (value : Value) : Response :=
  let outputs :=
    match (Record.get? response.outputs "trace") with
    | none =>
        Record.insert response.outputs "trace" (.list [value])
    | some (.list items) =>
        Record.insert response.outputs "trace"
          (.list (items ++ [value]))
    | some _ => response.outputs
  { response with outputs := outputs }

/- Produce an empty value for a field. -/
def provide (response : Response) : ResponseField → Response
| .ast => { response with ast := some ⟨none, []⟩ }
| .model => { response with model := some Model.empty }
| .selection =>
    { response with selection := some Selection.empty }
| .map => { response with map := some ArgumentMap.empty }
| .colors => { response with colors := some Coloring.empty }
| .dot => { response with dot := some "" }
| .json => { response with json := some "" }
| .output key =>
    { response with
      outputs := Record.insert response.outputs key .null }

/- The response and the log after an action. -/
def act
    (r : Request)
    (logger : Logger)
    (response : Response) :
    RunAction → Response × List LogEntry
| .record value => (record response value, [])
| .recordSpace space =>
    (record response ((r.configured? space).getD .null), [])
| .recordSpaces =>
    (record response (.texts (Record.keys r.raw)), [])
| .recordLevel =>
    (record response (.text logger.level.name), [])
| .output key value =>
    ({ response with
      outputs := Record.insert response.outputs key value }, [])
| .log level message => (response, logger.log level message)
| .provide field => (provide response field, [])
| _ => (response, [])

/- Do some actions until one fails. -/
def run
    (name : String)
    (r : Request)
    (logger : Logger) :
    List RunAction → RunOutcome → RunOutcome
| [], done => done
| .fail code message :: _, done =>
    { done with failure := some (.plugin name code message) }
| .cancel :: rest, done =>
    run name r logger rest { done with cancels := true }
| action :: rest, done =>
    let (response, logs) := act r logger done.response action
    run name r logger rest
      { done with
        response := response
        logs := done.logs ++ logs }

end Script

/- The plugin whose hooks are given by scripts. -/
def Plugin.ofScript
    (name : String)
    (isAsync : Bool)
    (capabilities : Capabilities)
    (requires : List ResponseField)
    (preparing : List PrepareAction)
    (running : List RunAction) : Plugin where
  name := name
  isAsync := isAsync
  capabilities := capabilities
  requires := requires
  prepare := fun r _ => Script.prepare name preparing r
  run := fun r response logger =>
    Script.run name r logger running (.done response [])

end Dialectic
