import Dialectic.Data.Value

/-
  This file defines how values are written as JSON, on one
  line or indented.

  Key definitions include:
    * `Json.quote`
    * `Json.realText`
    * `Json.compact`
    * `Json.pretty`
-/

namespace Dialectic.Json

------------------------------------------------------------
-- Scalars
------------------------------------------------------------

/- A digit of a lower case hexadecimal number. -/
def hexDigit (n : Nat) : Char :=
  Char.ofNat (if n < 10 then 48 + n else 87 + n)

/- A character inside a quoted text. -/
def quoteChar (c : Char) : List Char :=
  if c = '"' then ['\\', '"']
  else if c = '\\' then ['\\', '\\']
  else if c = '\n' then ['\\', 'n']
  else if c = '\r' then ['\\', 'r']
  else if c = '\t' then ['\\', 't']
  else if c.toNat = 8 then ['\\', 'b']
  else if c.toNat = 12 then ['\\', 'f']
  else if c.toNat < 32 then
    ['\\', 'u', '0', '0',
      hexDigit (c.toNat / 16), hexDigit (c.toNat % 16)]
  else [c]

/- A text in double quotes. -/
def quote (s : String) : String :=
  String.ofList ('"' :: s.toList.flatMap quoteChar ++ ['"'])

/- `n` zeros. -/
def zeros (n : Nat) : String :=
  String.ofList (List.replicate n '0')

/-
  The shortest decimal of a number.  It is positional if the
  point stands at most five places before the first and at
  most sixteen places after it, and has at least one place
  after the point; all other numbers have an exponent.
-/
def realText (x : Binary64) : String :=
  let sign := if x.isNegative then "-" else ""
  let (digits, k) := x.shortest
  let shown := toString digits
  let size : Int := shown.length
  let point := size + k
  let body :=
    if digits = 0 then
      "0.0"
    else if 0 ≤ k && point ≤ 16 then
      shown ++ zeros k.toNat ++ ".0"
    else if 0 < point && point ≤ 16 then
      let whole := shown.toList.take point.toNat
      let rest := shown.toList.drop point.toNat
      String.ofList (whole ++ '.' :: rest)
    else if -5 < point && point ≤ 0 then
      "0." ++ zeros (-point).toNat ++ shown
    else
      let first := shown.toList.take 1
      let rest := shown.toList.drop 1
      let tail := if rest.isEmpty then [] else '.' :: rest
      String.ofList (first ++ tail) ++ "e"
        ++ toString (point - 1)
  sign ++ body

/- A number. -/
def numberText : Number → String
| .whole n => toString n
| .real x => realText x

------------------------------------------------------------
-- One Line
------------------------------------------------------------

mutual

/- A value without any blanks. -/
def compact : Value → String
| .null => "null"
| .flag b => if b then "true" else "false"
| .number n => numberText n
| .text s => quote s
| .list items => "[" ++ compactItems true items ++ "]"
| .record fields =>
    "\x7b" ++ compactFields true fields ++ "\x7d"

/- The items of a list, with a comma before all but one. -/
def compactItems (first : Bool) : List Value → String
| [] => ""
| v :: rest =>
    (if first then "" else ",") ++ compact v
      ++ compactItems false rest

/- The fields of a record, with a comma before all but one. -/
def compactFields (first : Bool) :
    List (String × Value) → String
| [] => ""
| (key, v) :: rest =>
    (if first then "" else ",") ++ quote key ++ ":" ++ compact v
      ++ compactFields false rest

end

------------------------------------------------------------
-- Indented
------------------------------------------------------------

/- A line break and the indentation of a nesting depth. -/
def newline (depth : Nat) : String :=
  "\n" ++ String.ofList (List.replicate (2 * depth) ' ')

mutual

/- A value with each item and field on a line of its own. -/
def indented (depth : Nat) : Value → String
| .null => "null"
| .flag b => if b then "true" else "false"
| .number n => numberText n
| .text s => quote s
| .list [] => "[]"
| .list (v :: rest) =>
    "[" ++ newline (depth + 1) ++ indented (depth + 1) v
      ++ indentedItems (depth + 1) rest
      ++ newline depth ++ "]"
| .record [] => "\x7b\x7d"
| .record ((key, v) :: rest) =>
    "\x7b" ++ newline (depth + 1) ++ quote key ++ ": "
      ++ indented (depth + 1) v
      ++ indentedFields (depth + 1) rest
      ++ newline depth ++ "\x7d"

/- The items after the first one of a list. -/
def indentedItems (depth : Nat) : List Value → String
| [] => ""
| v :: rest =>
    "," ++ newline depth ++ indented depth v
      ++ indentedItems depth rest

/- The fields after the first one of a record. -/
def indentedFields (depth : Nat) :
    List (String × Value) → String
| [] => ""
| (key, v) :: rest =>
    "," ++ newline depth ++ quote key ++ ": "
      ++ indented depth v
      ++ indentedFields depth rest

end

/- A value as an indented text. -/
def pretty (v : Value) : String :=
  indented 0 v

end Dialectic.Json
