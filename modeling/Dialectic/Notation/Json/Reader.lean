import Dialectic.Data.Value
import Dialectic.Text.Search

/-
  This file defines how values are read from JSON.  A number
  without a point and an exponent is whole if it fits into
  sixty-four bits, and a real number otherwise.  Of two fields
  with one key the later one wins.

  Key definitions include:
    * `Json.readNumber?`
    * `Json.readText?`
    * `Json.read?`
-/

namespace Dialectic.Json

open Dialectic.Text

------------------------------------------------------------
-- Blanks
------------------------------------------------------------

/- A blank between the tokens of JSON. -/
def isGap (c : Char) : Bool :=
  c = ' ' || c = '\t' || c = '\n' || c = '\r'

/- Skip the blanks before a token. -/
def skipGap (cs : List Char) : List Char :=
  cs.dropWhile isGap

------------------------------------------------------------
-- Numbers
------------------------------------------------------------

/- Whole numbers fit into sixty-four bits. -/
def fitsWhole (n : Int) : Bool :=
  -Int.ofNat (Nat.pow 2 63) ≤ n
    && n < Int.ofNat (Nat.pow 2 64)

/- The number with the given sign, digits and exponent. -/
def decimalNumber?
    (negative : Bool)
    (digits : Nat)
    (exponent : Int) : Option Number :=
  (Binary64.ofDecimal? negative digits exponent).map .real

/- Read the digits after the mark of an exponent. -/
def readExponent? (cs : List Char) :
    Option (Int × List Char) :=
  let (negative, cs) :=
    match cs with
    | '-' :: rest => (true, rest)
    | '+' :: rest => (false, rest)
    | _ => (false, cs)
  let digits := cs.takeWhile isDigit
  if digits.isEmpty then
    none
  else
    let n : Int := decimalValue digits
    some (if negative then -n else n, cs.dropWhile isDigit)

/- Read a number that a sign or a digit starts. -/
def readNumber? (cs : List Char) :
    Option (Number × List Char) :=
  let (negative, cs) :=
    match cs with
    | '-' :: rest => (true, rest)
    | _ => (false, cs)
  let whole := cs.takeWhile isDigit
  let cs := cs.dropWhile isDigit
  if whole.isEmpty || (whole.head? = some '0' && whole.length != 1)
  then
    none
  else
    let (places, hasPoint, cs) :=
      match cs with
      | '.' :: rest =>
          (rest.takeWhile isDigit, true, rest.dropWhile isDigit)
      | _ => ([], false, cs)
    if hasPoint && places.isEmpty then
      none
    else
      let digits := decimalValue (whole ++ places)
      let scale : Int := -(places.length : Int)
      match cs with
      | 'e' :: rest | 'E' :: rest =>
          match readExponent? rest with
          | none => none
          | some (e, rest) =>
              (decimalNumber? negative digits (scale + e)).map
                (fun n => (n, rest))
      | _ =>
          let n : Int := digits
          let n := if negative then -n else n
          let isZero := negative && digits = 0
          if hasPoint || isZero || !fitsWhole n then
            (decimalNumber? negative digits scale).map
              (fun n => (n, cs))
          else
            some (.whole n, cs)

------------------------------------------------------------
-- Texts
------------------------------------------------------------

/- The number that four hexadecimal digits stand for. -/
def readUnit? (cs : List Char) : Option (Nat × List Char) :=
  match cs with
  | a :: b :: c :: d :: rest =>
      (digitsValue? 16 [a, b, c, d]).map (fun n => (n, rest))
  | _ => none

/-
  Read the character that an escape with the given first unit
  stands for; a pair of surrogates stands for one character.
-/
def readEscape? (unit : Nat) (cs : List Char) :
    Option (Char × List Char) :=
  if 0xD800 ≤ unit && unit < 0xDC00 then
    match cs with
    | '\\' :: 'u' :: rest =>
        match readUnit? rest with
        | some (low, rest) =>
            if 0xDC00 ≤ low && low < 0xE000 then
              let high := (unit - 0xD800) * 0x400
              some (Char.ofNat
                (0x10000 + high + (low - 0xDC00)), rest)
            else
              none
        | none => none
    | _ => none
  else if 0xDC00 ≤ unit && unit < 0xE000 then
    none
  else
    some (Char.ofNat unit, cs)

/- The character that a letter after a backslash stands for. -/
def simpleEscape? (c : Char) : Option Char :=
  if c = '"' then some '"'
  else if c = '\\' then some '\\'
  else if c = '/' then some '/'
  else if c = 'b' then some (Char.ofNat 8)
  else if c = 'f' then some (Char.ofNat 12)
  else if c = 'n' then some '\n'
  else if c = 'r' then some '\r'
  else if c = 't' then some '\t'
  else none

/-
  Read the rest of a quoted text, after the characters read so
  far, the last one first.
-/
def readTextAfter? : (fuel : Nat) → (read : List Char) →
    List Char → Option (String × List Char)
| 0, _, _ => none
| _ + 1, _, [] => none
| _ + 1, read, '"' :: rest =>
    some (String.ofList read.reverse, rest)
| fuel + 1, read, '\\' :: 'u' :: rest =>
    match readUnit? rest with
    | none => none
    | some (unit, rest) =>
        match readEscape? unit rest with
        | none => none
        | some (c, rest) => readTextAfter? fuel (c :: read) rest
| fuel + 1, read, '\\' :: c :: rest =>
    match simpleEscape? c with
    | none => none
    | some c => readTextAfter? fuel (c :: read) rest
| fuel + 1, read, c :: rest =>
    if c.toNat < 32 || c = '\\' then
      none
    else
      readTextAfter? fuel (c :: read) rest

/- Read the rest of a quoted text. -/
def readText? (cs : List Char) : Option (String × List Char) :=
  readTextAfter? (cs.length + 1) [] cs

------------------------------------------------------------
-- Values
------------------------------------------------------------

/- The value that a word of letters stands for. -/
def wordValue? (word : List Char) : Option Value :=
  if word = ['n', 'u', 'l', 'l'] then some .null
  else if word = ['t', 'r', 'u', 'e'] then some (.flag true)
  else if word = ['f', 'a', 'l', 's', 'e'] then
    some (.flag false)
  else none

mutual

/- Read one value and what follows it. -/
def readValue? : (fuel : Nat) → List Char →
    Option (Value × List Char)
| 0, _ => none
| fuel + 1, cs =>
    match skipGap cs with
    | [] => none
    | '"' :: rest =>
        (readText? rest).map (fun (s, rest) => (.text s, rest))
    | '[' :: rest =>
        match skipGap rest with
        | ']' :: rest => some (.list [], rest)
        | rest => readItems? fuel [] rest
    | '\x7b' :: rest =>
        match skipGap rest with
        | '\x7d' :: rest => some (.record [], rest)
        | rest => readFields? fuel [] rest
    | c :: rest =>
        if c = '-' || isDigit c then
          (readNumber? (c :: rest)).map
            (fun (n, rest) => (.number n, rest))
        else
          let word := (c :: rest).takeWhile Char.isAlpha
          (wordValue? word).map
            (fun v => (v, (c :: rest).dropWhile Char.isAlpha))

/- Read the items of a list after those read, last one first. -/
def readItems? : (fuel : Nat) → (read : List Value) →
    List Char → Option (Value × List Char)
| 0, _, _ => none
| fuel + 1, read, cs =>
    match readValue? fuel cs with
    | none => none
    | some (v, rest) =>
        match skipGap rest with
        | ',' :: rest => readItems? fuel (v :: read) rest
        | ']' :: rest => some (.list (v :: read).reverse, rest)
        | _ => none

/- Read the fields of a record and add them to those read. -/
def readFields? : (fuel : Nat) → (read : Record) →
    List Char → Option (Value × List Char)
| 0, _, _ => none
| fuel + 1, read, cs =>
    match skipGap cs with
    | '"' :: rest =>
        match readText? rest with
        | none => none
        | some (key, rest) =>
            match skipGap rest with
            | ':' :: rest =>
                match readValue? fuel rest with
                | none => none
                | some (v, rest) =>
                    let read := read.insert key v
                    match skipGap rest with
                    | ',' :: rest => readFields? fuel read rest
                    | '\x7d' :: rest => some (.record read, rest)
                    | _ => none
            | _ => none
    | _ => none

end

/- The value that a whole text stands for. -/
def read? (s : String) : Option Value :=
  let cs := s.toList
  match readValue? (2 * cs.length + 1) cs with
  | some (v, rest) =>
      if (skipGap rest).isEmpty then some v else none
  | none => none

end Dialectic.Json
