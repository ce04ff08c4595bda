import Dialectic.Data.Binary64

/-
  This file defines the values that documents and settings
  carry as data, and records, whose keys are kept in order.

  Key definitions include:
    * `Number`
    * `Value`
    * `Record`
    * `Record.get?`
    * `Record.insert`
    * `Record.erase`
    * `Record.ofList`
    * `Record.extend`
    * `Record.addMissing`
-/

namespace Dialectic

------------------------------------------------------------
-- Values
------------------------------------------------------------

/- A number is whole, or a finite binary64 number. -/
inductive Number where
| whole (value : Int)
| real (value : Binary64)
deriving DecidableEq, Repr, Inhabited

/-
  A value is null, a flag, a number, a text, a list of values
  or a record of named values.
-/
inductive Value where
| null
| flag (value : Bool)
| number (value : Number)
| text (value : String)
| list (items : List Value)
| record (fields : List (String × Value))
deriving Repr, Inhabited

/- Named values in increasing order of their keys. -/
abbrev Record := List (String × Value)

namespace Value

mutual

/- Equality of values is decidable. -/
def decEq : (v w : Value) → Decidable (v = w)
| .null, .null => isTrue rfl
| .flag a, .flag b =>
    if h : a = b then isTrue (by rw [h])
    else isFalse (by intro e; cases e; exact h rfl)
| .number a, .number b =>
    if h : a = b then isTrue (by rw [h])
    else isFalse (by intro e; cases e; exact h rfl)
| .text a, .text b =>
    if h : a = b then isTrue (by rw [h])
    else isFalse (by intro e; cases e; exact h rfl)
| .list a, .list b =>
    match decEqList a b with
    | isTrue h => isTrue (by rw [h])
    | isFalse h => isFalse (by intro e; cases e; exact h rfl)
| .record a, .record b =>
    match decEqFields a b with
    | isTrue h => isTrue (by rw [h])
    | isFalse h => isFalse (by intro e; cases e; exact h rfl)
| .null, .flag _ | .null, .number _ | .null, .text _
| .null, .list _ | .null, .record _
| .flag _, .null | .flag _, .number _ | .flag _, .text _
| .flag _, .list _ | .flag _, .record _
| .number _, .null | .number _, .flag _ | .number _, .text _
| .number _, .list _ | .number _, .record _
| .text _, .null | .text _, .flag _ | .text _, .number _
| .text _, .list _ | .text _, .record _
| .list _, .null | .list _, .flag _ | .list _, .number _
| .list _, .text _ | .list _, .record _
| .record _, .null | .record _, .flag _ | .record _, .number _
| .record _, .text _ | .record _, .list _ =>
    isFalse (by intro e; cases e)

/- Equality of lists of values is decidable. -/
def decEqList : (vs ws : List Value) → Decidable (vs = ws)
| [], [] => isTrue rfl
| [], _ :: _ => isFalse (by intro e; cases e)
| _ :: _, [] => isFalse (by intro e; cases e)
| v :: vs, w :: ws =>
    match decEq v w, decEqList vs ws with
    | isTrue h, isTrue t => isTrue (by rw [h, t])
    | isFalse h, _ => isFalse (by intro e; cases e; exact h rfl)
    | _, isFalse t => isFalse (by intro e; cases e; exact t rfl)

/- Equality of lists of fields is decidable. -/
def decEqFields :
    (r s : List (String × Value)) → Decidable (r = s)
| [], [] => isTrue rfl
| [], _ :: _ => isFalse (by intro e; cases e)
| _ :: _, [] => isFalse (by intro e; cases e)
| (k, v) :: r, (l, w) :: s =>
    if hk : k = l then
      match decEq v w, decEqFields r s with
      | isTrue h, isTrue t => isTrue (by rw [hk, h, t])
      | isFalse h, _ =>
          isFalse (by intro e; cases e; exact h rfl)
      | _, isFalse t =>
          isFalse (by intro e; cases e; exact t rfl)
    else
      isFalse (by intro e; cases e; exact hk rfl)

end

instance : DecidableEq Value :=
  decEq

/- The number with the given natural value. -/
def ofNat (n : Nat) : Value :=
  .number (.whole n)

/- A list of texts. -/
def texts (ts : List String) : Value :=
  .list (ts.map .text)

/- A value if there is one, else null. -/
def ofOption {α : Type} (f : α → Value) : Option α → Value
| some a => f a
| none => .null

/- The name of the kind of a value in messages. -/
def kindName : Value → String
| .null => "null"
| .flag _ => "a boolean"
| .number _ => "a number"
| .text _ => "a string"
| .list _ => "a list"
| .record _ => "a mapping"

mutual

/- How deep lists and records are nested in a value. -/
def depth : Value → Nat
| .list items => depthOfItems items + 1
| .record fields => depthOfFields fields + 1
| _ => 1

/- How deep the deepest value of a list is. -/
def depthOfItems : List Value → Nat
| [] => 0
| v :: vs => max (depth v) (depthOfItems vs)

/- How deep the deepest value of some fields is. -/
def depthOfFields : List (String × Value) → Nat
| [] => 0
| (_, v) :: fields => max (depth v) (depthOfFields fields)

end

end Value

------------------------------------------------------------
-- Records
------------------------------------------------------------

namespace Record

/- The value of a key. -/
def get? (r : Record) (key : String) : Option Value :=
  match r with
  | [] => none
  | (k, v) :: rest =>
      if k = key then some v else get? rest key

/- A record has a value for a key. -/
def has (r : Record) (key : String) : Bool :=
  (get? r key).isSome

/- The keys of a record in increasing order. -/
def keys (r : Record) : List String :=
  r.map Prod.fst

/- Set the value of a key. -/
def insert
    (r : Record)
    (key : String)
    (value : Value) : Record :=
  match r with
  | [] => [(key, value)]
  | (k, v) :: rest =>
      if key < k then
        (key, value) :: (k, v) :: rest
      else if key = k then
        (key, value) :: rest
      else
        (k, v) :: insert rest key value

/- Remove a key. -/
def erase (r : Record) (key : String) : Record :=
  r.filter (fun field => field.1 != key)

/- Set the values of all keys of a list, one after the other. -/
def extend (r : Record) (fields : List (String × Value)) :
    Record :=
  fields.foldl (fun acc field => acc.insert field.1 field.2) r

/- The record of a list of fields; a later one wins. -/
def ofList (fields : List (String × Value)) : Record :=
  extend [] fields

/- Set only the keys that have no value yet. -/
def addMissing (r : Record) (fields : Record) : Record :=
  fields.foldl
    (fun acc field =>
      if acc.has field.1 then acc
      else acc.insert field.1 field.2)
    r

/- The value of a key that is a flag. -/
def flag? (r : Record) (key : String) : Option Bool :=
  match r.get? key with
  | some (.flag b) => some b
  | _ => none

/- The record value of a list of fields. -/
def value (fields : List (String × Value)) : Value :=
  .record (ofList fields)

end Record

end Dialectic
