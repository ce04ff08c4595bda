import Dialectic.Notation.Reader
import Dialectic.Pipeline.Failure
import Dialectic.Pipeline.Log
import Dialectic.Settings.Space

/-
  This file defines what a run is asked to do.

  Key definitions include:
    * `ProcessChoice`
    * `Request`
    * `Request.ofValue?`, `Request.toValue`
    * `Request.ofToml?`
    * `Request.settings`
    * `RequestEdit`
    * `Request.prepare`
    * `Request.overlay`
-/

namespace Dialectic

------------------------------------------------------------
-- Processes
------------------------------------------------------------

/- A list of stages, or the name of a process. -/
inductive ProcessChoice where
| stages (names : List String)
| named (name : String)
deriving DecidableEq, Repr

namespace ProcessChoice

/- The value of a choice. -/
def toValue : ProcessChoice → Value
| stages names => .texts names
| named name => .text name

/- The choice that a value stands for. -/
def ofValue? : Value → Option ProcessChoice
| .list items => (Decode.texts (.list items)).map stages
| .text name => some (named name)
| _ => none

end ProcessChoice

------------------------------------------------------------
-- Requests
------------------------------------------------------------

/-
  The text to be read and the configuration of a run.
  `processes` are those of the request itself, and `raw` holds
  the configured settings of each space.  A run that is
  cancelled ends before its next stage.
-/
structure Request where
  input : Option String
  process : Option ProcessChoice
  processes : List (String × List String)
  logLevel : LogLevel
  throwExceptions : Bool
  logExceptions : Bool
  filters : Selection.Filters
  raw : Record
  isCancelled : Bool
  prepared : PreparedSettings
deriving Repr

namespace Request

/- The request that asks for nothing. -/
def empty : Request :=
  { input := none
    process := none
    processes := []
    logLevel := .error
    throwExceptions := false
    logExceptions := true
    filters := .standard
    raw := []
    isCancelled := false
    prepared := .empty }

instance : Inhabited Request :=
  ⟨empty⟩

------------------------------------------------------------
-- Values
------------------------------------------------------------

/- The names of the fields that are no spaces of settings. -/
def fieldNames : List String :=
  ["input", "process", "processes", "logLevel",
    "throwExceptions", "logExceptions"]
    ++ Selection.Filters.fieldNames

/- Read processes, each a list of stages. -/
def processesOfValue? (value : Value) :
    Option (List (String × List String)) := do
  let given ← Decode.record value
  given.mapM (fun (name, stages) => do
    let stages ← Decode.texts stages
    pure (name, stages))

/- The value of some processes. -/
def processesValue (processes : List (String × List String)) :
    Value :=
  .record
    (processes.map (fun (name, stages) => (name, .texts stages)))

/-
  The request that a value stands for.  A key that is not the
  name of a field is that of a space of settings.
-/
def ofValue? (value : Value) : Option Request := do
  let given ← Decode.record value
  pure
    { input := ← Decode.optional given "input" Decode.text
      process := ← Decode.optional given "process"
        ProcessChoice.ofValue?
      processes := ← Decode.withDefault given "processes" []
        processesOfValue?
      logLevel := ← Decode.withDefault given "logLevel" .error
        (Decode.name LogLevel.all LogLevel.name)
      throwExceptions := ← Decode.withDefault given
        "throwExceptions" false Decode.flag
      logExceptions := ← Decode.withDefault given
        "logExceptions" true Decode.flag
      filters := ← Selection.Filters.ofFields? given
      raw :=
        given.filter (fun field => !fieldNames.contains field.1)
      isCancelled := false
      prepared := .empty }

/-
  The value of a request.  The name of a space may be that of
  a field; then its settings stand for the field.
-/
def toValue (r : Request) : Value :=
  let fields :=
    [ ("input", .ofOption .text r.input),
      ("process", .ofOption ProcessChoice.toValue r.process),
      ("processes", processesValue r.processes),
      ("logLevel", .text r.logLevel.name),
      ("throwExceptions", .flag r.throwExceptions),
      ("logExceptions", .flag r.logExceptions) ]
      ++ r.filters.toFields
  .record (Record.extend (Record.ofList fields) r.raw)

------------------------------------------------------------
-- TOML
------------------------------------------------------------

/-
  The fields that may be missing.  TOML has no null, so null
  is there what a number that is not finite is read as, and
  such a number stands for none of these fields.
-/
def optionalNames : List String :=
  ["input", "process", "selectedTags", "selectedSections"]

/-
  The name that a value of TOML gives: besides a text, the key
  of a table that maps it to an empty table or list.
-/
def nameOfToml? : Value → Option String
| .text s => some s
| .record [(s, .record [])] => some s
| .record [(s, .list [])] => some s
| _ => none

/- The request that a TOML text stands for. -/
def ofToml? [TomlReader] (text : String) : Option Request := do
  let given ← TomlReader.read? text
  let isNull := fun name => Record.get? given name matches some .null
  guard (!optionalNames.any isNull)
  match Record.get? given "logLevel" with
  | some level =>
      let name ← nameOfToml? level
      ofValue?
        (.record (Record.insert given "logLevel" (.text name)))
  | none => ofValue? (.record given)

------------------------------------------------------------
-- Settings
------------------------------------------------------------

/- The configured settings of a space. -/
def configured? (r : Request) (space : String) : Option Value :=
  Record.get? r.raw space

/- Configure the settings of a space. -/
def configure
    (r : Request)
    (space : String)
    (value : Value) : Request :=
  { r with raw := Record.insert r.raw space value }

/- The configured settings of a space, laid over defaults. -/
def resolve
    {σ : Type}
    (r : Request)
    (space : SettingsSpace σ)
    (defaults : σ) : Except Failure σ :=
  let given := (r.configured? space.name).getD .null
  match space.resolve? defaults given with
  | some s => .ok s
  | none => .error (.unreadableSettings space.name)

/-
  The settings of a space: those prepared, if there are any,
  else the configured ones over the standard ones.
-/
def settings
    {σ : Type}
    (r : Request)
    (space : SettingsSpace σ) : Except Failure σ :=
  match space.slot r.prepared with
  | some s => .ok s
  | none => r.resolve space space.standard

end Request

------------------------------------------------------------
-- Edits
------------------------------------------------------------

/-
  An edit of a request.  It may fail; then the request is as
  it was edited until then.
-/
abbrev RequestEdit (α : Type) : Type :=
  ExceptT Failure (StateM Request) α

namespace Request

/- Prepare the settings of a space, laid over defaults. -/
def prepareWith
    {σ : Type}
    (space : SettingsSpace σ)
    (defaults : σ) : RequestEdit σ := do
  match (← get).resolve space defaults with
  | .error failure => throw failure
  | .ok s =>
      modify (fun r =>
        { r with prepared := space.fill r.prepared s })
      pure s

/- Prepare the settings of a space. -/
def prepare {σ : Type} (space : SettingsSpace σ) :
    RequestEdit σ :=
  prepareWith space space.standard

/- Take what was prepared; nothing is left prepared. -/
def takePrepared : RequestEdit PreparedSettings :=
  modifyGet (fun r =>
    (r.prepared, { r with prepared := .empty }))

/- The keys that front matter does not change. -/
def protectedKeys : List String :=
  ["input", "process", "processes"]

/- The fields of front matter that may change a request. -/
def changes (frontMatter : Record) : Record :=
  frontMatter.filter
    (fun field => !protectedKeys.contains field.1)

/-
  Put another request in the place of one.  What was prepared,
  and whether the run is cancelled, stay.
-/
def replaceBy (next : Request) : RequestEdit Unit := do
  let isCancelled := (← get).isCancelled
  let prepared ← takePrepared
  set
    { next with
      isCancelled := isCancelled
      prepared := prepared }

/-
  Put the request that a value stands for in the place of one.
  Nothing is taken from the request before it is known that
  the value stands for one.
-/
def replaceByRead (value : Value) : RequestEdit Unit :=
  match ofValue? value with
  | none => throw .unreadableRequest
  | some next => replaceBy next

/- Lay the front matter of a document over a request. -/
def overlay (frontMatter : Record) : RequestEdit Unit :=
  if (changes frontMatter).isEmpty then
    pure ()
  else do
    let current := (← get).toValue
    replaceByRead
      ((Value.record (changes frontMatter)).layOver current)

end Request

end Dialectic
