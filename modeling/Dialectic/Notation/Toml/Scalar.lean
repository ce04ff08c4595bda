import Dialectic.Data.Value
import Dialectic.Text.Search

/-
  This file defines how the keys and the scalars of TOML are
  read.  A reader takes what is left of a text and gives what
  it has read together with what is left after it.

  Key definitions include:
    * `Toml.readPath?`
    * `Toml.readString?`
    * `Toml.readNumber?`
    * `Toml.readMoment?`
-/

namespace Dialectic.Toml

open Dialectic.Text

------------------------------------------------------------
-- Gaps
------------------------------------------------------------

/- A space or a tab. -/
def isGap (c : Char) : Bool :=
  c = ' ' || c = '\t'

/- Skip spaces and tabs. -/
def skipGap (cs : List Char) : List Char :=
  cs.dropWhile isGap

/- A control character that may not stand in a text. -/
def isControl (c : Char) : Bool :=
  (c.toNat < 32 && c != '\t') || c.toNat = 127

/- The text after a line break, if there is one. -/
def stripBreak? : List Char → Option (List Char)
| '\n' :: rest => some rest
| '\r' :: '\n' :: rest => some rest
| _ => none

/-
  Skip a comment; nothing if there is a control character in
  it.
-/
def skipComment? (cs : List Char) : Option (List Char) :=
  match cs with
  | '#' :: rest =>
      let after :=
        rest.dropWhile (fun c => c != '\n' && !isControl c)
      if after.isEmpty || (stripBreak? after).isSome then
        some after
      else
        none
  | _ => some cs

/- Skip gaps, comments and line breaks. -/
def skipLines? : (fuel : Nat) → List Char →
    Option (List Char)
| 0, _ => none
| fuel + 1, cs =>
    match skipComment? (skipGap cs) with
    | none => none
    | some rest =>
        match stripBreak? rest with
        | some rest => skipLines? fuel rest
        | none => some rest

/- Skip the end of a line, which a comment may stand before. -/
def skipLineEnd? (cs : List Char) : Option (List Char) :=
  match skipComment? (skipGap cs) with
  | some [] => some []
  | some rest => stripBreak? rest
  | none => none

------------------------------------------------------------
-- Strings
------------------------------------------------------------

/- The quote around strings without escapes. -/
def apostrophe : Char :=
  Char.ofNat 39

/- The character with a given number, if there is one. -/
def charOf? (n : Nat) : Option Char :=
  if n < 0xD800 || (0xE000 ≤ n && n < 0x110000) then
    some (Char.ofNat n)
  else
    none

/- Read the escape after a backslash. -/
def readEscape? : List Char → Option (Char × List Char)
| 'b' :: rest => some (Char.ofNat 8, rest)
| 't' :: rest => some ('\t', rest)
| 'n' :: rest => some ('\n', rest)
| 'f' :: rest => some (Char.ofNat 12, rest)
| 'r' :: rest => some ('\r', rest)
| '"' :: rest => some ('"', rest)
| '\\' :: rest => some ('\\', rest)
| 'u' :: rest =>
    if (rest.take 4).length = 4 then
      ((digitsValue? 16 (rest.take 4)).bind charOf?).map
        (fun c => (c, rest.drop 4))
    else
      none
| 'U' :: rest =>
    if (rest.take 8).length = 8 then
      ((digitsValue? 16 (rest.take 8)).bind charOf?).map
        (fun c => (c, rest.drop 8))
    else
      none
| _ => none

/-
  Read the rest of a string on one line, after the characters
  read so far, the last one first.
-/
def readLine? (quote : Char) : (fuel : Nat) →
    (read : List Char) → List Char →
      Option (String × List Char)
| 0, _, _ => none
| _ + 1, _, [] => none
| fuel + 1, read, c :: rest =>
    if c = quote then
      some (String.ofList read.reverse, rest)
    else if c = '\\' && quote = '"' then
      match readEscape? rest with
      | none => none
      | some (c, rest) => readLine? quote fuel (c :: read) rest
    else if isControl c then
      none
    else
      readLine? quote fuel (c :: read) rest

/- The number of quotes at the start of a text. -/
def quoteCount (quote : Char) (cs : List Char) : Nat :=
  (cs.takeWhile (· == quote)).length

/- Skip spaces, tabs and line breaks. -/
def skipBlank : List Char → List Char
| '\r' :: '\n' :: rest => skipBlank rest
| c :: rest =>
    if isGap c || c = '\n' then skipBlank rest else c :: rest
| [] => []

/-
  The text after a backslash that ends a line: the blanks and
  line breaks up to the next character are left out.
-/
def skipFold? (cs : List Char) : Option (List Char) :=
  (stripBreak? (skipGap cs)).map skipBlank

/-
  Read the rest of a string on several lines.  Up to two
  quotes may stand before the three that end it.
-/
def readLines? (quote : Char) : (fuel : Nat) →
    (read : List Char) → List Char →
      Option (String × List Char)
| 0, _, _ => none
| _ + 1, _, [] => none
| fuel + 1, read, c :: rest =>
    if c = quote then
      let n := quoteCount quote (c :: rest)
      if n < 3 then
        readLines? quote fuel (c :: read) rest
      else if n < 6 then
        let read := List.replicate (n - 3) quote ++ read
        some (String.ofList read.reverse, (c :: rest).drop n)
      else
        none
    else if c = '\\' && quote = '"' then
      match skipFold? rest with
      | some rest => readLines? quote fuel read rest
      | none =>
          match readEscape? rest with
          | none => none
          | some (c, rest) =>
              readLines? quote fuel (c :: read) rest
    else
      match stripBreak? (c :: rest) with
      | some rest => readLines? quote fuel ('\n' :: read) rest
      | none =>
          if isControl c then none
          else readLines? quote fuel (c :: read) rest

/- Read a string, whose first quote comes next. -/
def readString? (cs : List Char) :
    Option (String × List Char) :=
  match cs with
  | q :: rest =>
      if q = '"' || q = apostrophe then
        if startsWith [q, q, q] cs then
          let body := cs.drop 3
          let body := (stripBreak? body).getD body
          readLines? q (body.length + 1) [] body
        else
          readLine? q (rest.length + 1) [] rest
      else
        none
  | [] => none

------------------------------------------------------------
-- Keys
------------------------------------------------------------

/- A character of a key without quotes. -/
def isKeyChar (c : Char) : Bool :=
  c.isAlphanum || c = '_' || c = '-'

/- Read one part of a key. -/
def readKey? (cs : List Char) : Option (String × List Char) :=
  match cs with
  | c :: rest =>
      if c = '"' || c = apostrophe then
        readLine? c (rest.length + 1) [] rest
      else
        let name := cs.takeWhile isKeyChar
        if name.isEmpty then none
        else some (String.ofList name, cs.dropWhile isKeyChar)
  | [] => none

/- Read the parts of a key, with points between them. -/
def readKeyPath? : (fuel : Nat) → List Char →
    Option (List String × List Char)
| 0, _ => none
| fuel + 1, cs =>
    match readKey? (skipGap cs) with
    | none => none
    | some (key, rest) =>
        match skipGap rest with
        | '.' :: rest =>
            (readKeyPath? fuel rest).map
              (fun (path, rest) => (key :: path, rest))
        | rest => some ([key], rest)

/- Collections may be nested, and tables named, this deep. -/
def maxDepth : Nat := 79

/- Read a key, which may be a path of several parts. -/
def readPath? (cs : List Char) :
    Option (List String × List Char) :=
  (readKeyPath? (cs.length + 1) cs).filter
    (fun (path, _) => path.length ≤ maxDepth)

------------------------------------------------------------
-- Numbers
------------------------------------------------------------

/-
  The digits of a number in a given base.  An underscore may
  stand between two digits.
-/
def digitsOf? (base : Nat) : List Char → Option (List Char)
| [] => none
| [d] => if (digitBelow? base d).isSome then some [d] else none
| d :: '_' :: rest =>
    if (digitBelow? base d).isSome then
      (digitsOf? base rest).map (d :: ·)
    else
      none
| d :: rest =>
    if (digitBelow? base d).isSome then
      (digitsOf? base rest).map (d :: ·)
    else
      none

/- Decimal digits that do not start with a needless zero. -/
def decimalDigits? (cs : List Char) : Option (List Char) :=
  (digitsOf? 10 cs).filter
    (fun ds => ds.length = 1 || ds.head? != some '0')

/- Whole numbers fit into sixty-four bits with a sign. -/
def whole? (n : Int) : Option Value :=
  let bound := Int.ofNat (Nat.pow 2 63)
  if -bound ≤ n && n < bound then
    some (.number (.whole n))
  else
    none

/- Split off a sign. -/
def signOf : List Char → Bool × List Char
| '-' :: rest => (true, rest)
| '+' :: rest => (false, rest)
| cs => (false, cs)

/- The whole number that a word stands for. -/
def wholeOf? (word : List Char) : Option Value :=
  match word with
  | '0' :: 'x' :: rest =>
      ((digitsOf? 16 rest).bind (digitsValue? 16)).bind
        (fun n => whole? n)
  | '0' :: 'o' :: rest =>
      ((digitsOf? 8 rest).bind (digitsValue? 8)).bind
        (fun n => whole? n)
  | '0' :: 'b' :: rest =>
      ((digitsOf? 2 rest).bind (digitsValue? 2)).bind
        (fun n => whole? n)
  | _ =>
      let (negative, rest) := signOf word
      match decimalDigits? rest with
      | none => none
      | some ds =>
          let n : Int := decimalValue ds
          whole? (if negative then -n else n)

/-
  The real number that a word stands for: it has a point or an
  exponent.  What is not finite is null: a magnitude that is
  too large is refused when positive, and the negative
  infinity otherwise.
-/
def realOf? (word : List Char) : Option Value :=
  let (negative, rest) := signOf word
  if rest = ['i', 'n', 'f'] || rest = ['n', 'a', 'n'] then
    some .null
  else
    let isMark := fun c => c = 'e' || c = 'E'
    let mantissa := rest.takeWhile (fun c => !isMark c)
    let exponent :=
      match rest.dropWhile (fun c => !isMark c) with
      | [] => some 0
      | _ :: tail =>
          let (negative, tail) := signOf tail
          (digitsOf? 10 tail).map (fun ds =>
            let n : Int := decimalValue ds
            if negative then -n else n)
    let whole := mantissa.takeWhile (· != '.')
    let places :=
      match mantissa.dropWhile (· != '.') with
      | [] => some []
      | _ :: tail => digitsOf? 10 tail
    match decimalDigits? whole, places, exponent with
    | some ds, some places, some e =>
        let scale : Int := -(places.length : Int)
        let digits := decimalValue (ds ++ places)
        if whole.length = rest.length then
          none
        else
          match
            Binary64.ofDecimal? negative digits (scale + e)
          with
          | some x => some (.number (.real x))
          | none => if negative then some .null else none
    | _, _, _ => none

/- The number that a word stands for. -/
def numberOf? (word : List Char) : Option Value :=
  match wholeOf? word with
  | some v => some v
  | none => realOf? word

------------------------------------------------------------
-- Moments
------------------------------------------------------------

/- The key of the text that a moment of time is given by. -/
def momentKey : String :=
  "$__toml_private_datetime"

/- Read `n` digits that stand for at most `high`. -/
def readDigits? (n low high : Nat) (cs : List Char) :
    Option (Nat × List Char) :=
  let digits := cs.take n
  if digits.length = n && digits.all isDigit then
    let value := decimalValue digits
    if low ≤ value && value ≤ high then
      some (value, cs.drop n)
    else
      none
  else
    none

/- Read a given character. -/
def readChar? (c : Char) (cs : List Char) :
    Option (List Char) :=
  stripPrefix? [c] cs

/- A number with at least `n` digits. -/
def padded (n value : Nat) : List Char :=
  let digits := (toString value).toList
  List.replicate (n - digits.length) '0' ++ digits

/- The number of days of a month. -/
def daysOf (year month : Nat) : Nat :=
  if month = 2 then
    if (year % 4 = 0 && year % 100 != 0) || year % 400 = 0 then
      29
    else
      28
  else if [4, 6, 9, 11].contains month then
    30
  else
    31

/- Read a date. -/
def readDate? (cs : List Char) :
    Option (List Char × List Char) :=
  match readDigits? 4 0 9999 cs with
  | none => none
  | some (year, cs) =>
      match (readChar? '-' cs).bind (readDigits? 2 1 12) with
      | none => none
      | some (month, cs) =>
          ((readChar? '-' cs).bind
            (readDigits? 2 1 (daysOf year month))).map
            (fun (day, cs) =>
              (padded 4 year ++ '-' :: padded 2 month
                ++ '-' :: padded 2 day, cs))

/- Drop the zeros at the end of a list of digits. -/
def dropZeros (ds : List Char) : List Char :=
  (ds.reverse.dropWhile (· == '0')).reverse

/-
  Read a time of day.  Of the places of its seconds at most
  nine count.
-/
def readTime? (cs : List Char) :
    Option (List Char × List Char) :=
  match readDigits? 2 0 23 cs with
  | none => none
  | some (hour, cs) =>
      match (readChar? ':' cs).bind (readDigits? 2 0 59) with
      | none => none
      | some (minute, cs) =>
          match (readChar? ':' cs).bind (readDigits? 2 0 60) with
          | none => none
          | some (second, cs) =>
              let text :=
                padded 2 hour ++ ':' :: padded 2 minute
                  ++ ':' :: padded 2 second
              match cs with
              | '.' :: rest =>
                  let places := rest.takeWhile isDigit
                  let shown := dropZeros (places.take 9)
                  let tail :=
                    if shown.isEmpty then [] else '.' :: shown
                  if places.isEmpty then none
                  else some (text ++ tail, rest.dropWhile isDigit)
              | _ => some (text, cs)

/-
  Read the distance of a time from universal time; a distance
  of zero has a plus.
-/
def readZone? (cs : List Char) :
    Option (List Char × List Char) :=
  match cs with
  | 'Z' :: rest | 'z' :: rest => some (['Z'], rest)
  | s :: rest =>
      if s = '+' || s = '-' then
        match readDigits? 2 0 23 rest with
        | none => none
        | some (hour, rest) =>
            ((readChar? ':' rest).bind (readDigits? 2 0 59)).map
              (fun (minute, rest) =>
                let s := if hour + minute = 0 then '+' else s
                (s :: padded 2 hour ++ ':' :: padded 2 minute,
                  rest))
      else
        some ([], cs)
  | [] => some ([], [])

/- The mark between a date and a time of day. -/
def stripTimeMark? : List Char → Option (List Char)
| 'T' :: rest | 't' :: rest | ' ' :: rest => some rest
| _ => none

/- Read a date, a time of day, or both with or without zone. -/
def readMoment? (cs : List Char) :
    Option (List Char × List Char) :=
  match readDate? cs with
  | some (date, rest) =>
      match (stripTimeMark? rest).bind readTime? with
      | some (time, rest) =>
          (readZone? rest).map (fun (zone, rest) =>
            (date ++ 'T' :: time ++ zone, rest))
      | none => some (date, rest)
  | none => readTime? cs

/- The value of a moment of time. -/
def momentValue (text : List Char) : Value :=
  .record [(momentKey, .text (String.ofList text))]

------------------------------------------------------------
-- Words
------------------------------------------------------------

/- A character of a flag or a number. -/
def isWordChar (c : Char) : Bool :=
  isKeyChar c || c = '+' || c = '.'

/- Read a flag, a number or a moment of time. -/
def readWord? (cs : List Char) : Option (Value × List Char) :=
  match readMoment? cs with
  | some (text, rest) => some (momentValue text, rest)
  | none =>
      let word := cs.takeWhile isWordChar
      let rest := cs.dropWhile isWordChar
      let value :=
        if word = ['t', 'r', 'u', 'e'] then some (.flag true)
        else if word = ['f', 'a', 'l', 's', 'e'] then
          some (.flag false)
        else numberOf? word
      value.map (fun v => (v, rest))

end Dialectic.Toml
