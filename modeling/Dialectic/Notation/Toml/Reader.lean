import Dialectic.Notation.Reader
import Dialectic.Notation.Toml.Table

/-
  This file defines the record that a TOML document stands
  for.

  Key definitions include:
    * `Toml.readValue?`
    * `Toml.read?`
    * `Toml.reader`
-/

namespace Dialectic.Toml

open Dialectic.Text

------------------------------------------------------------
-- Values
------------------------------------------------------------

mutual

/-
  Read a value whose collections are nested at most `depth`
  times.
-/
def readValue? (depth : Nat) : (fuel : Nat) → List Char →
    Option (Value × List Char)
| 0, _ => none
| fuel + 1, cs =>
    match cs with
    | '[' :: rest =>
        if depth = 0 then none
        else readItems? (depth - 1) fuel [] rest
    | '\x7b' :: rest =>
        if depth = 0 then
          none
        else
          match skipGap rest with
          | '\x7d' :: rest => some (.record [], rest)
          | rest => readFields? (depth - 1) fuel [] rest
    | c :: _ =>
        if c = '"' || c = apostrophe then
          (readString? cs).map (fun (s, rest) => (.text s, rest))
        else
          readWord? cs
    | [] => none

/- Read the items of a list, after those read so far. -/
def readItems? (depth : Nat) : (fuel : Nat) →
    (read : List Value) → List Char →
      Option (Value × List Char)
| 0, _, _ => none
| fuel + 1, read, cs =>
    match skipLines? (cs.length + 1) cs with
    | none => none
    | some (']' :: rest) => some (.list read.reverse, rest)
    | some cs =>
        match readValue? depth fuel cs with
        | none => none
        | some (v, rest) =>
            match skipLines? (rest.length + 1) rest with
            | some (',' :: rest) =>
                readItems? depth fuel (v :: read) rest
            | some (']' :: rest) =>
                some (.list (v :: read).reverse, rest)
            | _ => none

/- Read the fields of an inline table, after those read so far. -/
def readFields? (depth : Nat) : (fuel : Nat) →
    (read : Fields) → List Char →
      Option (Value × List Char)
| 0, _, _ => none
| fuel + 1, read, cs =>
    match readPath? cs with
    | some (path, '=' :: rest) =>
        match readValue? depth fuel (skipGap rest) with
        | none => none
        | some (v, rest) =>
            match path.getLast?.bind (fun key =>
                setAt? path.dropLast key (.value v) read) with
            | none => none
            | some read =>
                match skipGap rest with
                | ',' :: rest => readFields? depth fuel read rest
                | '\x7d' :: rest =>
                    some (.record (fieldsValue [] read), rest)
                | _ => none
    | _ => none

end

------------------------------------------------------------
-- Documents
------------------------------------------------------------

/-
  The tables read so far, and the path of the last header.
-/
structure Draft where
  root : Fields
  header : List String

/- Read the rest of a header of a table. -/
def readTableHeader? (d : Draft) (cs : List Char) :
    Option (Draft × List Char) :=
  match readPath? cs with
  | some (path, ']' :: rest) =>
      match path.getLast?.bind (fun key =>
          openAt? path.dropLast key d.root) with
      | none => none
      | some root =>
          (skipLineEnd? rest).map (fun rest => (⟨root, path⟩, rest))
  | _ => none

/- Read the rest of a header of a table in a list. -/
def readItemHeader? (d : Draft) (cs : List Char) :
    Option (Draft × List Char) :=
  match readPath? cs with
  | some (path, ']' :: ']' :: rest) =>
      match path.getLast?.bind (fun key =>
          addAt? path.dropLast key d.root) with
      | none => none
      | some root =>
          (skipLineEnd? rest).map (fun rest => (⟨root, path⟩, rest))
  | _ => none

/- Read a key and its value. -/
def readField? (d : Draft) (cs : List Char) :
    Option (Draft × List Char) :=
  match readPath? cs with
  | some (path, '=' :: rest) =>
      let rest := skipGap rest
      match readValue? maxDepth (2 * rest.length + 2) rest with
      | none => none
      | some (v, rest) =>
          match path.getLast?.bind (fun key =>
              setUnder? d.header path.dropLast key (.value v)
                d.root) with
          | none => none
          | some root =>
              (skipLineEnd? rest).map
                (fun rest => ({ d with root := root }, rest))
  | _ => none

/- Read the lines of a document. -/
def readLinesOf? : (fuel : Nat) → Draft → List Char →
    Option Draft
| 0, _, _ => none
| fuel + 1, d, cs =>
    match skipLines? (cs.length + 1) cs with
    | none => none
    | some [] => some d
    | some cs =>
        let step :=
          match cs with
          | '[' :: '[' :: rest => readItemHeader? d rest
          | '[' :: rest => readTableHeader? d rest
          | _ => readField? d cs
        match step with
        | none => none
        | some (d, rest) => readLinesOf? fuel d rest

/- The record that a document stands for. -/
def read? (s : String) : Option Record :=
  let cs := s.toList
  let cs :=
    match cs with
    | c :: rest => if c.toNat = 0xFEFF then rest else cs
    | [] => []
  (readLinesOf? (cs.length + 1) ⟨[], []⟩ cs).map
    (fun d => fieldsValue [] d.root)

/- Running takes this reader for requests. -/
scoped instance reader : TomlReader :=
  ⟨read?⟩

end Dialectic.Toml
