import Dialectic.Data.Value

/-
  This file defines how values are read as data of other
  types.  Nothing is converted: a flag is no number, and a
  number is no text.

  Key definitions include:
    * `Decode.flag`
    * `Decode.text`
    * `Decode.natural`
    * `Decode.list`
    * `Decode.option`
    * `Decode.name`
    * `Decode.fields`
    * `Decode.required`
    * `Decode.optional`
-/

namespace Dialectic

namespace Decode

------------------------------------------------------------
-- Single Values
------------------------------------------------------------

/- Read a flag. -/
def flag : Value → Option Bool
| .flag b => some b
| _ => none

/- Read a text. -/
def text : Value → Option String
| .text s => some s
| _ => none

/- Read a whole number from zero up to a bound. -/
def naturalBelow (bound : Nat) : Value → Option Nat
| .number (.whole (.ofNat n)) =>
    if n < bound then some n else none
| _ => none

/- Read a natural number that fits into 64 bits. -/
def natural : Value → Option Nat :=
  naturalBelow (Nat.pow 2 64)

/- Read a natural number that fits into 32 bits. -/
def smallNatural : Value → Option Nat :=
  naturalBelow (Nat.pow 2 32)

/- Read a record. -/
def record : Value → Option Record
| .record fields => some fields
| _ => none

/- Read a list of values. -/
def list
    {α : Type}
    (item : Value → Option α) : Value → Option (List α)
| .list items => items.mapM item
| _ => none

/- Read a list of texts. -/
def texts : Value → Option (List String) :=
  list text

/- Read a value that may be null. -/
def option
    {α : Type}
    (item : Value → Option α) : Value → Option (Option α)
| .null => some none
| value => (item value).map some

/-
  Read one of some named things.  It is given by its name, or
  by a record that maps its name to null.
-/
def name
    {α : Type}
    (all : List α)
    (nameOf : α → String) : Value → Option α
| .text s => all.find? (fun a => nameOf a == s)
| .record [(s, .null)] => all.find? (fun a => nameOf a == s)
| _ => none

------------------------------------------------------------
-- Records
------------------------------------------------------------

/-
  Read the fields of a structure.  They may also stand in a
  list, in the order of their names; then none may be missing,
  unless `partially` allows the last ones to be.
-/
def fields
    (names : List String)
    (partially : Bool) : Value → Option Record
| .record given => some given
| .list items =>
    if items.length = names.length
        || (partially && items.length < names.length) then
      some (Record.ofList (names.zip items))
    else
      none
| _ => none

/- Read a field that may not be missing. -/
def required
    {α : Type}
    (given : Record)
    (key : String)
    (item : Value → Option α) : Option α :=
  (given.get? key).bind item

/- Read a field that may be missing or null. -/
def optional
    {α : Type}
    (given : Record)
    (key : String)
    (item : Value → Option α) : Option (Option α) :=
  match given.get? key with
  | some value => option item value
  | none => some none

/- Read a field that stands for `default` if it is missing. -/
def withDefault
    {α : Type}
    (given : Record)
    (key : String)
    (default : α)
    (item : Value → Option α) : Option α :=
  match given.get? key with
  | some value => item value
  | none => some default

end Decode

end Dialectic
