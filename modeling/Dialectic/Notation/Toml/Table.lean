import Dialectic.Notation.Toml.Scalar

/-
  This file defines the tables of a TOML document while they
  are built.  A table may be opened by a header once, and a
  table that a path of keys has made may only be extended by
  such paths.

  Key definitions include:
    * `Toml.Entry`
    * `Toml.setAt?`
    * `Toml.openAt?`
    * `Toml.addAt?`
    * `Toml.Entry.value`
-/

namespace Dialectic.Toml

------------------------------------------------------------
-- Entries
------------------------------------------------------------

/-
  How a table came into being: by its header, as part of the
  path of another header, or as part of the path of a key.
-/
inductive Opening where
| header
| path
| dotted
deriving DecidableEq, Repr

/-
  An entry is a value that is complete, a table, or a list of
  tables, of which the last one can be extended.
-/
inductive Entry where
| value (v : Value)
| table (opening : Opening) (fields : List (String × Entry))
| tables
    (before : List (List (String × Entry)))
    (last : List (String × Entry))

instance : Inhabited Entry :=
  ⟨.table .header []⟩

/- Named entries. -/
abbrev Fields := List (String × Entry)

namespace Fields

/- The entry of a key. -/
def get? (fields : Fields) (key : String) : Option Entry :=
  (List.find? (fun f => f.1 = key) fields).map Prod.snd

/- Set the entry of a key. -/
def set (fields : Fields) (key : String) (e : Entry) : Fields :=
  match fields with
  | [] => [(key, e)]
  | (k, old) :: rest =>
      if k = key then (key, e) :: rest
      else (k, old) :: set rest key e

end Fields

------------------------------------------------------------
-- Paths
------------------------------------------------------------

/-
  Change the table at the end of a path.  Missing tables on
  the way are made.  A path of keys may not pass through a
  table that has a header, and the change learns how the last
  table came into being.
-/
def changeAt?
    (dotted : Bool)
    (change : Opening → Fields → Option Fields)
    (here : Opening) :
    (path : List String) → Fields → Option Fields
| [], fields => change here fields
| key :: path, fields =>
    let made := if dotted then Opening.dotted else .path
    match fields.get? key with
    | none =>
        (changeAt? dotted change made path []).map
          (fun inner => fields.set key (.table made inner))
    | some (.value _) => none
    | some (.table opening inner) =>
        if dotted && opening = .header then
          none
        else
          (changeAt? dotted change opening path inner).map
            (fun inner => fields.set key (.table opening inner))
    | some (.tables before last) =>
        (changeAt? dotted change .header path last).map
          (fun last => fields.set key (.tables before last))

/-
  Set a value below a table.  The last table of a longer path
  has to be one that such paths make.
-/
def setAt?
    (path : List String)
    (key : String)
    (e : Entry)
    (fields : Fields) : Option Fields :=
  changeAt? true
    (fun opening fields =>
      let fits := path.isEmpty || opening = .dotted
      if fits && (fields.get? key).isNone then
        some (fields.set key e)
      else
        none)
    .header path fields

/- Open the table of a header. -/
def openAt?
    (path : List String)
    (key : String)
    (fields : Fields) : Option Fields :=
  changeAt? false
    (fun _ fields =>
      match fields.get? key with
      | none => some (fields.set key (.table .header []))
      | some (.table .path inner) =>
          some (fields.set key (.table .header inner))
      | _ => none)
    .header path fields

/- Add a table to the list of tables of a header. -/
def addAt?
    (path : List String)
    (key : String)
    (fields : Fields) : Option Fields :=
  changeAt? false
    (fun _ fields =>
      match fields.get? key with
      | none => some (fields.set key (.tables [] []))
      | some (.tables before last) =>
          some (fields.set key (.tables (before ++ [last]) []))
      | _ => none)
    .header path fields

/- Set a value in the table of the last header. -/
def setUnder?
    (header path : List String)
    (key : String)
    (e : Entry)
    (fields : Fields) : Option Fields :=
  changeAt? false
    (fun _ fields => setAt? path key e fields)
    .header header fields

------------------------------------------------------------
-- Values
------------------------------------------------------------

mutual

/- The value of an entry. -/
def Entry.toValue : Entry → Value
| .value v => v
| .table _ fields => .record (fieldsValue [] fields)
| .tables before last =>
    .list (tablesValue before ++ [.record (fieldsValue [] last)])

/- The record of named entries, added to the fields so far. -/
def fieldsValue (read : Record) :
    List (String × Entry) → Record
| [] => read
| (key, e) :: rest =>
    fieldsValue (read.insert key e.toValue) rest

/- The values of a list of tables. -/
def tablesValue :
    List (List (String × Entry)) → List Value
| [] => []
| fields :: rest =>
    .record (fieldsValue [] fields) :: tablesValue rest

end

end Dialectic.Toml
