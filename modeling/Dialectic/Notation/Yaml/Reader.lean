import Dialectic.Notation.Reader
import Dialectic.Notation.Yaml.Node

/-
  This file defines the value that a YAML text stands for.
  The words for null, flags and numbers are those of the core
  schema of YAML 1.2.  A key is the text of its scalar, and of
  two fields with one key the later one wins.  How deep
  collections are nested and how often aliases are followed is
  bounded.

  Key definitions include:
    * `Yaml.plainValue?`
    * `Yaml.scalarValue?`
    * `Yaml.Graph.value?`
    * `Yaml.read?`
    * `Yaml.reader`
-/

namespace Dialectic.Yaml

open Dialectic.Text

------------------------------------------------------------
-- Whole Numbers
------------------------------------------------------------

/- The flag that a word stands for. -/
def flagOf? (word : String) : Option Bool :=
  if ["true", "True", "TRUE"].contains word then some true
  else if ["false", "False", "FALSE"].contains word then
    some false
  else none

/- The words for null. -/
def isNull (word : String) : Bool :=
  ["null", "Null", "NULL", "~"].contains word

/-
  Several digits that start with a zero are no number.  A sign
  may stand before them.
-/
def isPadded (cs : List Char) : Bool :=
  let digits :=
    match cs with
    | '-' :: rest | '+' :: rest => rest
    | _ => cs
  match digits with
  | '0' :: d :: rest => (d :: rest).all isDigit
  | _ => false

/- The magnitude that is written with a letter for its base. -/
def basedValue? : List Char → Option Nat
| '0' :: 'x' :: rest => digitsValue? 16 rest
| '0' :: 'o' :: rest => digitsValue? 8 rest
| '0' :: 'b' :: rest => digitsValue? 2 rest
| _ => none

/- The magnitude that is written in some base. -/
def magnitude? (cs : List Char) : Option Nat :=
  match basedValue? cs with
  | some n => some n
  | none => digitsValue? 10 cs

/- The whole number that is written as a word. -/
def wholeOf? (cs : List Char) : Option Int :=
  if isPadded cs then
    none
  else
    match cs with
    | '-' :: rest => (magnitude? rest).map (fun n => -(n : Int))
    | '+' :: rest => (magnitude? rest).map (fun n => (n : Int))
    | _ => (magnitude? cs).map (fun n => (n : Int))

------------------------------------------------------------
-- Real Numbers
------------------------------------------------------------

/- The digits and the exponent of a decimal, if it is one. -/
def decimalParts? (cs : List Char) : Option (Nat × Int) :=
  let whole := cs.takeWhile isDigit
  let rest := cs.dropWhile isDigit
  let (places, rest) :=
    match rest with
    | '.' :: tail => (tail.takeWhile isDigit, tail.dropWhile isDigit)
    | _ => ([], rest)
  let digits := whole ++ places
  let value := decimalValue digits
  let scale : Int := -(places.length : Int)
  if digits.isEmpty then
    none
  else
    match rest with
    | [] => some (value, scale)
    | e :: rest =>
        if e = 'e' || e = 'E' then
          let (negative, rest) :=
            match rest with
            | '-' :: tail => (true, tail)
            | '+' :: tail => (false, tail)
            | _ => (false, rest)
          (digitsValue? 10 rest).map (fun n =>
            (value, if negative then scale - n else scale + n))
        else
          none

/-
  The value of a word for a real number.  What is not finite
  has no value as data, so it is null; a decimal that is too
  large is no number.
-/
def realOf? (cs : List Char) : Option Value :=
  let word := String.ofList cs
  let special :=
    [".inf", ".Inf", ".INF", "+.inf", "+.Inf", "+.INF",
      "-.inf", "-.Inf", "-.INF", ".nan", ".NaN", ".NAN"]
  if special.contains word then
    some .null
  else
    let (negative, rest) :=
      match cs with
      | '-' :: rest => (true, rest)
      | '+' :: rest => (false, rest)
      | _ => (false, cs)
    match decimalParts? rest with
    | none => none
    | some (digits, exponent) =>
        (Binary64.ofDecimal? negative digits exponent).map
          (fun x => .number (.real x))

------------------------------------------------------------
-- Scalars
------------------------------------------------------------

/-
  The value of a whole number: it has to fit into sixty-four
  bits.
-/
def wholeValue? (n : Int) : Option Value :=
  if -Int.ofNat (Nat.pow 2 63) ≤ n
      && n < Int.ofNat (Nat.pow 2 64) then
    some (.number (.whole n))
  else
    none

/- Whole numbers up to this size are read as whole numbers. -/
def readsAsWhole (n : Int) : Bool :=
  -Int.ofNat (Nat.pow 2 127) ≤ n
    && n < Int.ofNat (Nat.pow 2 128)

/- The value of a plain scalar without a tag. -/
def plainValue? (text : String) : Option Value :=
  let cs := text.toList
  if text = "" || isNull text then
    some .null
  else
    match flagOf? text with
    | some b => some (.flag b)
    | none =>
        match (wholeOf? cs).filter readsAsWhole with
        | some n => wholeValue? n
        | none =>
            if isPadded cs then
              some (.text text)
            else
              some ((realOf? cs).getD (.text text))

/- A collection with a tag of the document's own has no value. -/
def hasOwnTag (tag : Option Tag) : Bool :=
  tag.any Tag.isOwn

/-
  The value of a scalar.  The tags of the schema choose the
  kind of value; a tag of the document's own has none.  A lone
  exclamation mark is such a tag, so that `! 5` is no value.
  A tag that starts like one of the document's own but is no
  text does not count.
-/
def scalarValue?
    (tag : Option Tag)
    (text : String)
    (plain : Bool) : Option Value :=
  let untagged :=
    if plain then plainValue? text else some (.text text)
  match tag with
  | none => untagged
  | some tag =>
      if tag.isOwn then
        none
      else if tag = Tag.ofSchema "bool" then
        (flagOf? text).map .flag
      else if tag = Tag.ofSchema "int" then
        ((wholeOf? text.toList).filter readsAsWhole).bind
          wholeValue?
      else if tag = Tag.ofSchema "float" then
        realOf? text.toList
      else if tag = Tag.ofSchema "null" then
        if isNull text then some .null else none
      else if tag.head? = some Tag.mark then
        untagged
      else
        some (.text text)

------------------------------------------------------------
-- Nodes
------------------------------------------------------------

namespace Graph

/-
  A reading that follows aliases.  Its state is the number of
  times that an alias may still be followed.
-/
abbrev Reading := StateT Nat Option

/- Follow a node that is an alias. -/
def follow (g : Graph) (node : Node) : Reading Node :=
  match node with
  | .alias number =>
      fun left =>
        match left with
        | 0 => none
        | left + 1 =>
            (g.target? number).map (fun node => (node, left))
  | node => pure node

/- Read a node as a key: it has to be a scalar. -/
def readKey (g : Graph) (node : Node) : Reading String := do
  match ← g.follow node with
  | .scalar _ text _ => pure text
  | _ => failure

/- Read the fields of a record one by one. -/
def readFields
    (g : Graph)
    (inner : Node → Reading Value)
    (fields : List (Node × Node)) : Reading Record :=
  fields.foldlM
    (fun record (key, node) => do
      let key ← g.readKey key
      let value ← inner node
      pure (record.insert key value))
    []

/-
  Read a node, with `inner` for the nodes inside collections;
  if there is no `inner`, collections are refused.
-/
def readWith
    (g : Graph)
    (inner : Option (Node → Reading Value))
    (node : Node) : Reading Value := do
  match ← g.follow node, inner with
  | .scalar tag text plain, _ =>
      StateT.lift (scalarValue? tag text plain)
  | .list tag items, some inner =>
      if hasOwnTag tag then failure
      else Value.list <$> items.mapM inner
  | .record tag fields, some inner =>
      if hasOwnTag tag then failure
      else Value.record <$> g.readFields inner fields
  | _, _ => failure

/-
  Read a node whose collections are nested at most `depth`
  times.
-/
def readWithin (g : Graph) : (depth : Nat) →
    Node → Reading Value
| 0 => g.readWith none
| depth + 1 => g.readWith (some (g.readWithin depth))

/- Collections may be nested this many times. -/
def maxDepth : Nat := 128

/-
  The value of a document.  Aliases may be followed a hundred
  times for each part of its root.
-/
def value? (g : Graph) : Option Value :=
  (g.readWithin maxDepth g.root (100 * g.root.size)).map
    Prod.fst

end Graph

/- The value that a text stands for. -/
def read? (s : String) : Option Value :=
  match tokens? s.toList with
  | none => none
  | some tokens =>
      (Graph.ofTokens? tokens).bind Graph.value?

/- Running takes this reader for data and front matter. -/
scoped instance reader : YamlReader :=
  ⟨read?⟩

end Dialectic.Yaml
