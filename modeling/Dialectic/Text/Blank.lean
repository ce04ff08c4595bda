/-
  This file defines which characters are blank and the text
  operations that depend on it.

  Key definitions include:
    * `isBlank`
    * `trimStart`
    * `trimEnd`
    * `trim`
    * `words`
    * `squeeze`
-/

namespace Dialectic.Text

------------------------------------------------------------
-- Blank Characters
------------------------------------------------------------

/-
  The characters of the Unicode property `White_Space`.
-/
def isBlank (c : Char) : Bool :=
  let n := c.toNat
  (9 ≤ n && n ≤ 13)
    || n == 0x20
    || n == 0x85
    || n == 0xA0
    || n == 0x1680
    || (0x2000 ≤ n && n ≤ 0x200A)
    || n == 0x2028
    || n == 0x2029
    || n == 0x202F
    || n == 0x205F
    || n == 0x3000

/- A text whose characters are all blank. -/
def allBlank (cs : List Char) : Bool :=
  cs.all isBlank

/- The end of a text, or a text that starts with a blank. -/
def atBreak : List Char → Bool
| [] => true
| c :: _ => isBlank c

------------------------------------------------------------
-- Trimming
------------------------------------------------------------

/- Drop the longest end whose characters all satisfy `p`. -/
def dropEndWhile
    (p : Char → Bool)
    (cs : List Char) : List Char :=
  (cs.reverse.dropWhile p).reverse

/- Drop the blanks before a text. -/
def trimStart (cs : List Char) : List Char :=
  cs.dropWhile isBlank

/- Drop the blanks after a text. -/
def trimEnd (cs : List Char) : List Char :=
  dropEndWhile isBlank cs

/- Drop the blanks around a text. -/
def trim (cs : List Char) : List Char :=
  trimEnd (trimStart cs)

------------------------------------------------------------
-- Words
------------------------------------------------------------

/-
  The words of a text that follow an unfinished word, whose
  characters are given last one first.
-/
def wordsAfter
    (word : List Char) :
    List Char → List (List Char)
| [] => if word.isEmpty then [] else [word.reverse]
| c :: cs =>
    if isBlank c then
      if word.isEmpty then
        wordsAfter [] cs
      else
        word.reverse :: wordsAfter [] cs
    else
      wordsAfter (c :: word) cs

/- The longest runs of characters that are not blank. -/
def words (cs : List Char) : List (List Char) :=
  wordsAfter [] cs

/- Put one space between two neighbouring words. -/
def joinWords : List (List Char) → List Char
| [] => []
| [w] => w
| w :: ws => w ++ ' ' :: joinWords ws

/-
  Trim a text and write one space for every run of blanks
  inside it.
-/
def squeeze (cs : List Char) : List Char :=
  joinWords (words cs)

end Dialectic.Text
