import Dialectic.Text.Search

/-
  This file defines a place in a YAML text together with the
  characters that follow it, and the character classes of
  YAML.

  Key definitions include:
    * `Yaml.isBreak`
    * `Yaml.Cursor`
    * `Yaml.Cursor.skip`
    * `Yaml.Cursor.readBreak`
-/

namespace Dialectic.Yaml

open Dialectic.Text

------------------------------------------------------------
-- Characters
------------------------------------------------------------

/- The characters that may occur in a YAML text. -/
def isAllowed (c : Char) : Bool :=
  let n := c.toNat
  n == 0x9 || n == 0xA || n == 0xD || n == 0x85
    || (0x20 ≤ n && n ≤ 0x7E)
    || (0xA0 ≤ n && n ≤ 0xFFFD)
    || 0x10000 ≤ n

/- The quote around a scalar without escapes. -/
def apostrophe : Char :=
  Char.ofNat 39

/- A space or a tab. -/
def isSpaceOrTab (c : Char) : Bool :=
  c = ' ' || c = '\t'

/- A character that ends a line. -/
def isBreak (c : Char) : Bool :=
  c = '\n' || c = '\r'
    || c.toNat == 0x85 || c.toNat == 0x2028 || c.toNat == 0x2029

/- A space, a tab or the end of a line. -/
def isGap (c : Char) : Bool :=
  isSpaceOrTab c || isBreak c

/- The characters of anchors and of the names of directives. -/
def isNameChar (c : Char) : Bool :=
  c.isAlphanum || c = '_' || c = '-'

/- The place before a gap or at the end of a text. -/
def atGap : List Char → Bool
| [] => true
| c :: _ => isGap c

/- The place at the end of a line or of a text. -/
def atLineEnd : List Char → Bool
| [] => true
| c :: _ => isBreak c

/- The place before a line break. -/
def atBreak : List Char → Bool
| [] => false
| c :: _ => isBreak c

/- The place before a space or a tab. -/
def atSpaceOrTab : List Char → Bool
| [] => false
| c :: _ => isSpaceOrTab c

/- The place before a given character. -/
def atChar (d : Char) : List Char → Bool
| [] => false
| c :: _ => c = d

/- The place before one of the given characters. -/
def atAny (ds : List Char) : List Char → Bool
| [] => false
| c :: _ => ds.contains c

/-
  The place before three times the character `d` and a gap, as
  the marks around documents are written.
-/
def atMark (d : Char) : List Char → Bool
| a :: b :: c :: rest => a = d && b = d && c = d && atGap rest
| _ => false

/- The place before a mark that starts or ends a document. -/
def atDocumentMark (cs : List Char) : Bool :=
  atMark '-' cs || atMark '.' cs

------------------------------------------------------------
-- Cursors
------------------------------------------------------------

/-
  A place in a text: the characters that follow, the number
  of lines before it, the number of characters before it on
  its line, and the number of bytes before it.
-/
structure Cursor where
  rest : List Char
  line : Nat
  column : Nat
  offset : Nat
deriving Repr, Inhabited

namespace Cursor

/- The start of a text. -/
def ofText (cs : List Char) : Cursor :=
  ⟨cs, 0, 0, 0⟩

/- The cursor after several characters of its line. -/
def skipMany (c : Cursor) (n : Nat) : Cursor :=
  { c with
    rest := c.rest.drop n
    column := c.column + n
    offset := c.offset + byteSize (c.rest.take n) }

/- The cursor after one character of its line. -/
def skip (c : Cursor) : Cursor :=
  c.skipMany 1

/- The cursor after the characters that satisfy `p`. -/
def skipWhile (c : Cursor) (p : Char → Bool) : Cursor :=
  c.skipMany (c.rest.takeWhile p).length

/- The cursor at the end of its line. -/
def skipToLineEnd (c : Cursor) : Cursor :=
  c.skipWhile (fun d => !isBreak d)

/-
  The text that a line break stands for, and the cursor at the
  start of the next line.
-/
def readBreak (c : Cursor) : List Char × Cursor :=
  match c.rest with
  | '\r' :: '\n' :: rest =>
      (['\n'], ⟨rest, c.line + 1, 0, c.offset + 2⟩)
  | b :: rest =>
      let text :=
        if b.toNat == 0x2028 || b.toNat == 0x2029 then [b]
        else ['\n']
      if isBreak b then
        (text, ⟨rest, c.line + 1, 0, c.offset + b.utf8Size⟩)
      else
        ([], c)
  | [] => ([], c)

/- The cursor after a line break. -/
def skipBreak (c : Cursor) : Cursor :=
  c.readBreak.2

end Cursor

end Dialectic.Yaml
