import Dialectic.Data.Value

/-
  This file defines the messages that plugins log, and the
  levels that decide which of them are kept.

  Key definitions include:
    * `LogLevel`
    * `LogEntry`
    * `Logger`
    * `Logger.enabled`
    * `Logger.log`
-/

namespace Dialectic

------------------------------------------------------------
-- Levels
------------------------------------------------------------

/-
  The level of a message, or the least level of the messages
  that are kept.  At level `none` none is kept.
-/
inductive LogLevel where
| verbose
| info
| warning
| error
| none
deriving DecidableEq, Repr

namespace LogLevel

/- All levels in increasing order. -/
def all : List LogLevel :=
  [verbose, info, warning, error, none]

/- The name of a level in settings. -/
def name : LogLevel → String
| verbose => "verbose"
| info => "info"
| warning => "warning"
| error => "error"
| none => "none"

/- The name of the level of a message in a log. -/
def severity : LogLevel → String
| verbose => "debug"
| info => "info"
| warning => "warn"
| error => "error"
| none => "none"

/- The place of a level in their order. -/
def rank : LogLevel → Nat
| verbose => 0
| info => 1
| warning => 2
| error => 3
| none => 4

end LogLevel

------------------------------------------------------------
-- Logs
------------------------------------------------------------

/- A message of a plugin; that of a failure has a code. -/
structure LogEntry where
  level : LogLevel
  plugin : String
  message : String
  code : Option String
deriving DecidableEq, Repr

/- The value of a message of a log. -/
def LogEntry.toValue (e : LogEntry) : Value :=
  let code :=
    match e.code with
    | some code => [("code", .text code)]
    | none => []
  Record.value
    ([ ("level", .text e.level.severity),
      ("plugin", .text e.plugin),
      ("message", .text e.message) ]
      ++ code)

/- A logger keeps the messages of a plugin from a level on. -/
structure Logger where
  level : LogLevel
  plugin : String
deriving DecidableEq, Repr

namespace Logger

/- A logger keeps messages of a level. -/
def enabled (logger : Logger) (level : LogLevel) : Bool :=
  level != .none && logger.level != .none
    && decide (logger.level.rank ≤ level.rank)

/- The log of one message. -/
def log
    (logger : Logger)
    (level : LogLevel)
    (message : String) : List LogEntry :=
  if logger.enabled level then
    [⟨level, logger.plugin, message, none⟩]
  else
    []

end Logger

end Dialectic
