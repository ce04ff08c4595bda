import Dialectic.Document.Fault
import Dialectic.Model.Fault
import Dialectic.Settings.Space
import Dialectic.Source.Encoding

/-
  This file defines how a run or one of its plugins can fail.

  Key definitions include:
    * `Failure`
    * `Failure.code`
    * `Failure.display`
    * `Failure.elided`
    * `Failure.toValue`, `Failure.ofValue?`
-/

namespace Dialectic

/-
  A failure of a run or of a plugin.  Faults of a document are
  failures if the run does not go on in spite of them.
-/
inductive Failure where
| syntaxFault (message : String) (position : Position)
| model (message : String)
| missingDependency (owner field : String)
| plugin (owner code message : String)
| unknownProcess (name : String)
| unknownStage (name : String)
| cancelled (stage : String)
| invalidConfiguration (message : String)
deriving DecidableEq, Repr

namespace Failure

------------------------------------------------------------
-- Causes
------------------------------------------------------------

/- A fault of the text of a document. -/
def ofSyntaxFault (fault : SyntaxFault) : Failure :=
  syntaxFault fault.message fault.position

/- A fault of the model of a document. -/
def ofModelFault (fault : ModelFault) : Failure :=
  model fault.message

/- What stands for a reason that is not told. -/
def elision : String := "*"

/- A request that cannot be read. -/
def unreadableRequest : Failure :=
  invalidConfiguration elision

/- Settings of a space that cannot be read. -/
def unreadableSettings (space : String) : Failure :=
  invalidConfiguration (space ++ ": " ++ elision)

------------------------------------------------------------
-- Messages
------------------------------------------------------------

/- The code of a failure; plugins have codes of their own. -/
def code : Failure → String
| syntaxFault _ _ => "syntax"
| model _ => "model"
| missingDependency _ _ => "missing-dependency"
| plugin _ code _ => code
| unknownProcess _ => "unknown-process"
| unknownStage _ => "unknown-stage"
| cancelled _ => "cancelled"
| invalidConfiguration _ => "invalid-config"

/- The message of a failure. -/
def display : Failure → String
| syntaxFault message position =>
    SyntaxFault.textAt message position
| model message => "model error: " ++ message
| missingDependency owner field =>
    "plugin " ++ owner ++ " requires response field `"
      ++ field ++ "`, which is missing"
| plugin owner code message =>
    "plugin " ++ owner ++ " failed (" ++ code ++ "): "
      ++ message
| unknownProcess name => "unknown process `" ++ name ++ "`"
| unknownStage name =>
    "no plugins registered for stage `" ++ name ++ "`"
| cancelled stage =>
    "run cancelled before stage `" ++ stage ++ "`"
| invalidConfiguration message =>
    "invalid configuration: " ++ message

/-
  Elide the reason after the first of some openings that a
  message has.
-/
def elideAfter? (openings : List String) (message : String) :
    Option String :=
  (openings.find? (fun o => o.isPrefixOf message)).map
    (· ++ elision)

/-
  Leave out why data, front matter or settings are unreadable.
-/
def elided : Failure → Failure
| syntaxFault message position =>
    let openings := ["invalid data: ", "invalid front matter: "]
    syntaxFault ((elideAfter? openings message).getD message)
      position
| invalidConfiguration message =>
    let openings := SettingsSpace.names.map (· ++ ": ")
    invalidConfiguration
      ((elideAfter? openings message).getD elision)
| failure => failure

------------------------------------------------------------
-- Values
------------------------------------------------------------

/- The value of a failure of some type. -/
def tagged (type : String) (fields : List (String × String)) :
    Value :=
  Record.value
    (("type", .text type)
      :: fields.map (fun (key, text) => (key, .text text)))

/- The value of a failure. -/
def toValue : Failure → Value
| syntaxFault message position =>
    Record.value [
      ("type", .text "syntax"),
      ("message", .text message),
      ("position", position.toValue)
    ]
| model message => tagged "model" [("message", message)]
| missingDependency owner field =>
    tagged "missing-dependency"
      [("plugin", owner), ("field", field)]
| plugin owner code message =>
    tagged "plugin"
      [("plugin", owner), ("code", code),
        ("message", message)]
| unknownProcess name =>
    tagged "unknown-process" [("name", name)]
| unknownStage name => tagged "unknown-stage" [("name", name)]
| cancelled stage => tagged "cancelled" [("stage", stage)]
| invalidConfiguration message =>
    tagged "invalid-config" [("message", message)]

/- The failure that a value stands for. -/
def ofValue? (value : Value) : Option Failure := do
  let given ← Decode.record value
  let type ← Decode.required given "type" Decode.text
  let text := fun key => Decode.required given key Decode.text
  match type with
  | "syntax" =>
      let position ←
        Decode.required given "position" Position.ofValue?
      pure (.syntaxFault (← text "message") position)
  | "model" => pure (.model (← text "message"))
  | "missing-dependency" =>
      pure (.missingDependency (← text "plugin") (← text "field"))
  | "plugin" =>
      pure
        (.plugin (← text "plugin") (← text "code")
          (← text "message"))
  | "unknown-process" => pure (.unknownProcess (← text "name"))
  | "unknown-stage" => pure (.unknownStage (← text "name"))
  | "cancelled" => pure (.cancelled (← text "stage"))
  | "invalid-config" =>
      pure (.invalidConfiguration (← text "message"))
  | _ => none

end Failure

end Dialectic
