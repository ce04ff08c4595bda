/-
  This file defines searching, replacing and splitting of
  texts given as lists of characters.

  Key definitions include:
    * `stripPrefix?`
    * `find?`
    * `replace`
    * `splitOn`
    * `byteSize`
    * `digitsValue?`
-/

namespace Dialectic.Text

------------------------------------------------------------
-- Searching
------------------------------------------------------------

/- What follows `lead` in a text that starts with it. -/
def stripPrefix? :
    (lead cs : List Char) → Option (List Char)
| [], cs => some cs
| _ :: _, [] => none
| p :: ps, c :: cs =>
    if p = c then stripPrefix? ps cs else none

/- A text that starts with `lead`. -/
def startsWith (lead cs : List Char) : Bool :=
  (stripPrefix? lead cs).isSome

/-
  The number of characters before the first occurrence of
  `needle`.
-/
def find? (needle : List Char) :
    List Char → Option Nat
| [] => if needle.isEmpty then some 0 else none
| c :: cs =>
    if startsWith needle (c :: cs) then
      some 0
    else
      (find? needle cs).map (· + 1)

/- The number of characters before the first `c`. -/
def findChar? (c : Char) (cs : List Char) : Option Nat :=
  cs.findIdx? (· == c)

/-
  Replace each occurrence of `needle`, the leftmost first,
  after `skip` characters that belong to the last one.
-/
def replaceAfter
    (needle fresh : List Char) :
    (skip : Nat) → List Char → List Char
| _, [] => []
| skip + 1, _ :: cs => replaceAfter needle fresh skip cs
| 0, c :: cs =>
    if startsWith needle (c :: cs) then
      fresh ++ replaceAfter needle fresh (needle.length - 1) cs
    else
      c :: replaceAfter needle fresh 0 cs

/- Replace each occurrence of a nonempty text. -/
def replace
    (needle fresh cs : List Char) : List Char :=
  replaceAfter needle fresh 0 cs

/-
  The parts of a text between the characters `sep`; one part
  more than there are such characters.
-/
def splitOn (sep : Char) : List Char → List (List Char)
| [] => [[]]
| c :: cs =>
    if c = sep then
      [] :: splitOn sep cs
    else
      match splitOn sep cs with
      | [] => [[c]]
      | part :: parts => (c :: part) :: parts

------------------------------------------------------------
-- Measures
------------------------------------------------------------

/- The number of bytes of a text in UTF-8. -/
def byteSize (cs : List Char) : Nat :=
  cs.foldl (fun n c => n + c.utf8Size) 0

/- An ASCII decimal digit. -/
def isDigit (c : Char) : Bool :=
  '0' ≤ c && c ≤ '9'

/- The value of an ASCII digit up to base sixteen. -/
def digitValue? (c : Char) : Option Nat :=
  if '0' ≤ c && c ≤ '9' then
    some (c.toNat - 48)
  else if 'a' ≤ c && c ≤ 'f' then
    some (c.toNat - 87)
  else if 'A' ≤ c && c ≤ 'F' then
    some (c.toNat - 55)
  else
    none

/- The digit below the given base that a character stands for. -/
def digitBelow? (base : Nat) (c : Char) : Option Nat :=
  match digitValue? c with
  | some d => if d < base then some d else none
  | none => none

/-
  The number that a nonempty text of digits in the given base
  stands for.
-/
def digitsValue? (base : Nat) (cs : List Char) : Option Nat :=
  match cs with
  | [] => none
  | _ =>
      cs.foldl
        (fun n c =>
          match n, digitBelow? base c with
          | some n, some d => some (n * base + d)
          | _, _ => none)
        (some 0)

/- The number that ASCII decimal digits stand for. -/
def decimalValue (cs : List Char) : Nat :=
  cs.foldl (fun n c => n * 10 + (c.toNat - 48)) 0

end Dialectic.Text
