import Dialectic.Data.Decoding
import Dialectic.Source.Position

/-
  This file defines the values that stand for places in a
  source text.

  Key definitions include:
    * `Position.toValue`
    * `Position.ofValue?`
    * `Span.toValue`
    * `Span.ofValue?`
-/

namespace Dialectic

------------------------------------------------------------
-- Positions
------------------------------------------------------------

namespace Position

/- The value of a position. -/
def toValue (p : Position) : Value :=
  Record.value [
    ("line", .ofNat p.line),
    ("column", .ofNat p.column),
    ("offset", .ofNat p.offset)
  ]

/- The position that a value stands for. -/
def ofValue? (value : Value) : Option Position := do
  let given ←
    Decode.fields ["line", "column", "offset"] false value
  let line ← Decode.required given "line" Decode.natural
  let column ← Decode.required given "column" Decode.natural
  let offset ← Decode.required given "offset" Decode.natural
  pure ⟨line, column, offset⟩

end Position

------------------------------------------------------------
-- Spans
------------------------------------------------------------

namespace Span

/- The value of a span. -/
def toValue (s : Span) : Value :=
  Record.value [
    ("start", s.start.toValue),
    ("end", s.stop.toValue)
  ]

/- The span that a value stands for. -/
def ofValue? (value : Value) : Option Span := do
  let given ← Decode.fields ["start", "end"] false value
  let start ← Decode.required given "start" Position.ofValue?
  let stop ← Decode.required given "end" Position.ofValue?
  pure ⟨start, stop⟩

end Span

end Dialectic
