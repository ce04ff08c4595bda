import Dialectic.Notation.Yaml.Cursor

/-
  This file defines the tags of YAML nodes and how they are
  read.  A tag is written as a handle, which stands for some
  text, and a suffix.

  Key definitions include:
    * `Yaml.Tag`
    * `Yaml.Tag.isOwn`
    * `Yaml.readTagHandle?`
    * `Yaml.readTagSuffix?`
    * `Yaml.readTagParts?`
-/

namespace Dialectic.Yaml

open Dialectic.Text

------------------------------------------------------------
-- Tags
------------------------------------------------------------

/-
  A tag is a list of bytes: escapes may give bytes that are
  not the UTF-8 of any text.
-/
abbrev Tag := List UInt8

namespace Tag

/- The tag that is given by a text. -/
def ofText (s : String) : Tag :=
  s.toUTF8.toList

/- The start of the tags that the schema of YAML defines. -/
def schema : Tag :=
  ofText "tag:yaml.org,2002:"

/- A tag of the schema. -/
def ofSchema (name : String) : Tag :=
  schema ++ ofText name

/- The byte of an exclamation mark. -/
def mark : UInt8 :=
  33

/-
  A tag of the document's own starts with an exclamation mark
  and is a text.
-/
def isOwn (tag : Tag) : Bool :=
  tag.head? = some mark
    && (String.fromUTF8? ⟨tag.toArray⟩).isSome

end Tag

------------------------------------------------------------
-- Escapes
------------------------------------------------------------

/- Read the byte that two digits after a percent sign give. -/
def readTagByte? (c : Cursor) : Option (Nat × Cursor) :=
  match c.rest with
  | '%' :: a :: b :: _ =>
      (digitsValue? 16 [a, b]).map
        (fun byte => (byte, c.skipMany 3))
  | _ => none

/-
  The number of bytes that continue a character after its
  first byte in UTF-8.
-/
def followerCount? (byte : Nat) : Option Nat :=
  if byte < 0x80 then some 0
  else if byte / 32 = 6 then some 1
  else if byte / 16 = 14 then some 2
  else if byte / 8 = 30 then some 3
  else none

/- Read `n` bytes that continue a character. -/
def readFollowers? : (n : Nat) → Cursor →
    Option (List Nat × Cursor)
| 0, c => some ([], c)
| n + 1, c =>
    match readTagByte? c with
    | none => none
    | some (byte, next) =>
        if byte / 64 = 2 then
          (readFollowers? n next).map
            (fun (bytes, next) => (byte :: bytes, next))
        else
          none

/- Read the bytes of one escaped character. -/
def readTagEscape? (c : Cursor) : Option (Tag × Cursor) :=
  match readTagByte? c with
  | none => none
  | some (byte, next) =>
      ((followerCount? byte).bind (readFollowers? · next)).map
        (fun (bytes, next) =>
          ((byte :: bytes).map UInt8.ofNat, next))

------------------------------------------------------------
-- Suffixes and Handles
------------------------------------------------------------

/- The characters that may occur in the suffix of a tag. -/
def isTagChar (verbatim : Bool) (c : Char) : Bool :=
  isNameChar c
    || [';', '/', '?', ':', '@', '&', '=', '+', '$', '.', '%',
        '!', '~', '*', apostrophe, '(', ')'].contains c
    || (verbatim && [',', '[', ']'].contains c)

/- Read the characters of the suffix of a tag. -/
def readTagChars? (verbatim : Bool) : (fuel : Nat) →
    (read : Tag) → Cursor → Option (Tag × Cursor)
| 0, _, _ => none
| fuel + 1, read, c =>
    match c.rest with
    | [] => some (read, c)
    | d :: _ =>
        if d = '%' then
          match readTagEscape? c with
          | none => none
          | some (bytes, next) =>
              readTagChars? verbatim fuel (read ++ bytes) next
        else if isTagChar verbatim d then
          readTagChars? verbatim fuel (read ++ [d.toUInt8])
            c.skip
        else
          some (read, c)

/-
  Read the suffix of a tag after a head, whose first character
  does not belong to it; head and suffix may not both be
  empty.  A suffix ends before its first zero byte.
-/
def readTagSuffix?
    (verbatim : Bool)
    (head : List Char)
    (c : Cursor) : Option (Tag × Cursor) :=
  match readTagChars? verbatim (c.rest.length + 1) [] c with
  | none => none
  | some (read, next) =>
      if head.isEmpty && next.offset = c.offset then
        none
      else
        let whole := (head.drop 1).map Char.toUInt8 ++ read
        some (whole.takeWhile (· != 0), next)

/-
  Read the handle of a tag: an exclamation mark, a name, and
  another exclamation mark if there is one.
-/
def readTagHandle? (c : Cursor) : Option (List Char × Cursor) :=
  match c.rest with
  | '!' :: rest =>
      let name := rest.takeWhile isNameChar
      let next := c.skipMany (name.length + 1)
      if atChar '!' next.rest then
        some ('!' :: name ++ ['!'], next.skip)
      else
        some ('!' :: name, next)
  | _ => none

------------------------------------------------------------
-- Tags of Nodes
------------------------------------------------------------

/-
  Read the handle and the suffix of a tag up to the character
  after it.  A lone exclamation mark is a suffix that has no
  handle, and it is kept: it does not stand for no tag.
-/
def readTagParts? (c : Cursor) :
    Option (List Char × Tag × Cursor) :=
  if atChar '<' c.skip.rest then
    match readTagSuffix? true [] (c.skipMany 2) with
    | none => none
    | some (suffix, next) =>
        if atChar '>' next.rest then some ([], suffix, next.skip)
        else none
  else
    match readTagHandle? c with
    | none => none
    | some (handle, next) =>
        if handle.length != 1 && handle.getLast? = some '!' then
          (readTagSuffix? false [] next).map
            (fun (suffix, next) => (handle, suffix, next))
        else
          match readTagSuffix? false handle next with
          | none => none
          | some (suffix, next) =>
              if suffix.isEmpty then
                some ([], [Tag.mark], next)
              else
                some (['!'], suffix, next)

end Dialectic.Yaml
