import Dialectic.Notation.Yaml.Cursor

/-
  This file defines how the scalars of YAML are read: plain,
  quoted and block scalars.

  Key definitions include:
    * `Yaml.readPlain?`
    * `Yaml.readQuoted?`
    * `Yaml.readBlock?`
-/

namespace Dialectic.Yaml

open Dialectic.Text

------------------------------------------------------------
-- Gaps Inside Scalars
------------------------------------------------------------

/-
  The gap between two parts of a scalar: the blanks before its
  first line break, this line break, and the further ones.
-/
structure ScalarGap where
  blanks : List Char
  first : Option (List Char)
  further : List Char
deriving Repr, Inhabited

namespace ScalarGap

/- No gap. -/
def none : ScalarGap :=
  ⟨[], Option.none, []⟩

/- A gap has a line break. -/
def hasBreak (g : ScalarGap) : Bool :=
  g.first.isSome

/-
  The text of a gap.  One line break is folded into a space,
  and of several ones the first is left out.
-/
def text (g : ScalarGap) : List Char :=
  match g.first with
  | Option.none => g.blanks
  | some ['\n'] =>
      if g.further.isEmpty then [' '] else g.further
  | some first => first ++ g.further

end ScalarGap

/-
  Read a gap.  After a line break, a tab before the column
  `indent` is refused.
-/
def readGap? (indent : Nat) : (fuel : Nat) → ScalarGap →
    Cursor → Option (ScalarGap × Cursor)
| 0, _, _ => none
| fuel + 1, gap, c =>
    match c.rest with
    | [] => some (gap, c)
    | d :: _ =>
        if isSpaceOrTab d then
          if gap.hasBreak then
            if d = '\t' && c.column < indent then
              none
            else
              readGap? indent fuel gap c.skip
          else
            readGap? indent fuel
              { gap with blanks := gap.blanks ++ [d] } c.skip
        else if isBreak d then
          let (text, next) := c.readBreak
          let gap :=
            if gap.hasBreak then
              { gap with further := gap.further ++ text }
            else
              { gap with blanks := [], first := some text }
          readGap? indent fuel gap next
        else
          some (gap, c)

------------------------------------------------------------
-- Plain Scalars
------------------------------------------------------------

/- The characters that end a plain scalar in a collection. -/
def flowMarks : List Char :=
  [',', '[', ']', '\x7b', '\x7d']

/-
  The part of a plain scalar up to the next gap or mark, the
  last character first; nothing at a colon that may not stand
  in a collection.
-/
def readPlainPart? (inFlow : Bool) : (fuel : Nat) →
    (read : List Char) → Cursor → Option (List Char × Cursor)
| 0, _, _ => none
| fuel + 1, read, c =>
    match c.rest with
    | [] => some (read, c)
    | d :: rest =>
        if isGap d then
          some (read, c)
        else if inFlow && d = ':'
            && atAny ('?' :: flowMarks) rest then
          none
        else if d = ':' && atGap rest then
          some (read, c)
        else if inFlow && flowMarks.contains d then
          some (read, c)
        else
          readPlainPart? inFlow fuel (d :: read) c.skip

/-
  Read the parts of a plain scalar, after the text and the gap
  read so far.  The last gap read is the one after it.
-/
def readPlainAfter?
    (inFlow : Bool)
    (indent : Nat) : (fuel : Nat) → (read : List Char) →
      ScalarGap → Cursor →
      Option (List Char × ScalarGap × Cursor)
| 0, _, _, _ => none
| fuel + 1, read, gap, c =>
    if (c.column = 0 && atDocumentMark c.rest)
        || atChar '#' c.rest then
      some (read, gap, c)
    else
      match readPlainPart? inFlow (c.rest.length + 1) [] c with
      | none => none
      | some (part, next) =>
          let joined :=
            if part.isEmpty then (read, gap)
            else (part ++ gap.text.reverse ++ read,
              ScalarGap.none)
          if !(atSpaceOrTab next.rest || atBreak next.rest) then
            some (joined.1, joined.2, next)
          else
            match readGap? indent (next.rest.length + 1)
                joined.2 next with
            | none => none
            | some (gap, next) =>
                if !inFlow && next.column < indent then
                  some (joined.1, gap, next)
                else
                  readPlainAfter? inFlow indent fuel joined.1
                    gap next

/-
  Read a plain scalar whose lines have to stand at the column
  `indent` or after it.  The flag tells whether a line break
  follows the scalar.
-/
def readPlain?
    (inFlow : Bool)
    (indent : Nat)
    (c : Cursor) : Option (String × Bool × Cursor) :=
  match readPlainAfter? inFlow indent (c.rest.length + 1) []
      .none c with
  | none => none
  | some (read, gap, next) =>
      some (String.ofList read.reverse, gap.hasBreak, next)

------------------------------------------------------------
-- Quoted Scalars
------------------------------------------------------------

/- The character that a letter after a backslash stands for. -/
def simpleEscape? (c : Char) : Option Char :=
  match c with
  | '0' => some (Char.ofNat 0)
  | 'a' => some (Char.ofNat 7)
  | 'b' => some (Char.ofNat 8)
  | 't' | '\t' => some '\t'
  | 'n' => some '\n'
  | 'v' => some (Char.ofNat 11)
  | 'f' => some (Char.ofNat 12)
  | 'r' => some '\r'
  | 'e' => some (Char.ofNat 27)
  | ' ' => some ' '
  | '"' => some '"'
  | '/' => some '/'
  | '\\' => some '\\'
  | 'N' => some (Char.ofNat 0x85)
  | '_' => some (Char.ofNat 0xA0)
  | 'L' => some (Char.ofNat 0x2028)
  | 'P' => some (Char.ofNat 0x2029)
  | _ => none

/- The number of digits of an escape that gives a number. -/
def escapeLength? (c : Char) : Option Nat :=
  match c with
  | 'x' => some 2
  | 'u' => some 4
  | 'U' => some 8
  | _ => none

/- The character with a given number, if there is one. -/
def charOf? (n : Nat) : Option Char :=
  if n < 0xD800 || (0xE000 ≤ n && n < 0x110000) then
    some (Char.ofNat n)
  else
    none

/- Read the escape after a backslash. -/
def readEscape? (c : Cursor) : Option (Char × Cursor) :=
  match c.rest with
  | _ :: letter :: rest =>
      match escapeLength? letter with
      | some n =>
          let digits := rest.take n
          if digits.length = n then
            match (digitsValue? 16 digits).bind charOf? with
            | some d => some (d, c.skipMany (n + 2))
            | none => none
          else
            none
      | none =>
          (simpleEscape? letter).map
            (fun d => (d, c.skipMany 2))
  | _ => none

/-
  Read the part of a quoted scalar up to the next gap or the
  closing quote, the last character first.  The flag tells
  whether an escaped line break ended the part.
-/
def readQuotedPart? (single : Bool) : (fuel : Nat) →
    (read : List Char) → Cursor →
      Option (List Char × Bool × Cursor)
| 0, _, _ => none
| fuel + 1, read, c =>
    match c.rest with
    | [] => some (read, false, c)
    | d :: rest =>
        if isGap d then
          some (read, false, c)
        else if single then
          if d = apostrophe then
            if atChar apostrophe rest then
              readQuotedPart? single fuel (d :: read)
                (c.skipMany 2)
            else
              some (read, false, c)
          else
            readQuotedPart? single fuel (d :: read) c.skip
        else if d = '"' then
          some (read, false, c)
        else if d = '\\' then
          if atBreak rest then
            some (read, true, c.skip.skipBreak)
          else
            match readEscape? c with
            | none => none
            | some (d, next) =>
                readQuotedPart? single fuel (d :: read) next
        else
          readQuotedPart? single fuel (d :: read) c.skip

/- Read the parts of a quoted scalar, after the text so far. -/
def readQuotedAfter? (single : Bool) : (fuel : Nat) →
    (read : List Char) → Cursor →
      Option (List Char × Cursor)
| 0, _, _ => none
| fuel + 1, read, c =>
    if c.column = 0 && atDocumentMark c.rest then
      none
    else if c.rest.isEmpty then
      none
    else
      match readQuotedPart? single (c.rest.length + 1) read c
      with
      | none => none
      | some (read, broken, next) =>
          let quote := if single then apostrophe else '"'
          if atChar quote next.rest then
            some (read, next.skip)
          else
            let start :=
              if broken then
                { ScalarGap.none with first := some [] }
              else
                .none
            match readGap? 0 (next.rest.length + 1) start next
            with
            | none => none
            | some (gap, next) =>
                readQuotedAfter? single fuel
                  (gap.text.reverse ++ read) next

/- Read a quoted scalar, whose first quote comes next. -/
def readQuoted? (single : Bool) (c : Cursor) :
    Option (String × Cursor) :=
  match readQuotedAfter? single (c.rest.length + 1) [] c.skip
  with
  | none => none
  | some (read, next) => some (String.ofList read.reverse, next)

------------------------------------------------------------
-- Block Scalars
------------------------------------------------------------

/- What happens to the line breaks after a block scalar. -/
inductive Chomping where
| strip
| clip
| keep
deriving DecidableEq, Repr

/- The chomping that a character stands for. -/
def chompingOf? : List Char → Option Chomping
| '+' :: _ => some .keep
| '-' :: _ => some .strip
| _ => none

/- The indentation that a digit stands for. -/
def indentOf? : List Char → Option Nat
| d :: _ => if isDigit d then digitValue? d else none
| [] => none

/-
  Read the two indicators of a block scalar, in either order;
  an indentation of zero is refused.
-/
def readHeader? (c : Cursor) :
    Option (Chomping × Nat × Cursor) :=
  let found :=
    match chompingOf? c.rest with
    | some chomping =>
        match indentOf? c.skip.rest with
        | some n => (chomping, some n, c.skip.skip)
        | none => (chomping, none, c.skip)
    | none =>
        match indentOf? c.rest with
        | some n =>
            match chompingOf? c.skip.rest with
            | some chomping => (chomping, some n, c.skip.skip)
            | none => (.clip, some n, c.skip)
        | none => (.clip, none, c)
  match found with
  | (_, some 0, _) => none
  | (chomping, n, next) => some (chomping, n.getD 0, next)

/-
  Skip spaces up to the column `indent`, or all spaces if it
  is zero.
-/
def skipIndent (indent : Nat) (c : Cursor) : Cursor :=
  let spaces := (c.rest.takeWhile (· == ' ')).length
  if indent = 0 then
    c.skipMany spaces
  else
    c.skipMany (min spaces (indent - c.column))

/-
  Read the empty lines before the next line of a block scalar
  together with its indentation.  Besides the breaks, the
  result is the greatest column reached.
-/
def readEmptyLines? (indent : Nat) : (fuel : Nat) →
    (deepest : Nat) → (breaks : List Char) → Cursor →
      Option (List Char × Nat × Cursor)
| 0, _, _, _ => none
| fuel + 1, deepest, breaks, c =>
    let c := skipIndent indent c
    let deepest := max deepest c.column
    if (indent = 0 || c.column < indent)
        && atChar '\t' c.rest then
      none
    else if atBreak c.rest then
      let (text, next) := c.readBreak
      readEmptyLines? indent fuel deepest (breaks ++ text) next
    else
      some (breaks, deepest, c)

/-
  The text between two lines of a block scalar: the break of
  the first one and the breaks of the empty lines between
  them.  In a folded scalar a single break between two lines
  that start with no blank becomes a space.
-/
def blockGap
    (literal blankBefore blankAfter : Bool)
    (last further : List Char) : List Char :=
  if !literal && last = ['\n'] && !blankBefore && !blankAfter
  then
    (if further.isEmpty then [' '] else []) ++ further
  else
    last ++ further

/-
  Read the lines of a block scalar, after the text read so
  far, the break of the last line and the further breaks.
-/
def readBlockLines?
    (literal : Bool)
    (indent : Nat) : (fuel : Nat) → (read : List Char) →
      (blankBefore : Bool) → (last further : List Char) →
      Cursor → Option
        (List Char × List Char × List Char × Cursor)
| 0, _, _, _, _, _ => none
| fuel + 1, read, blankBefore, last, further, c =>
    if c.column = indent && !c.rest.isEmpty then
      let blank := atSpaceOrTab c.rest
      let gap := blockGap literal blankBefore blank last further
      let line := c.rest.takeWhile (fun d => !isBreak d)
      let (text, next) := c.skipToLineEnd.readBreak
      match readEmptyLines? indent (next.rest.length + 1) 0 []
          next with
      | none => none
      | some (breaks, _, next) =>
          readBlockLines? literal indent fuel
            (read ++ gap ++ line) blank text breaks next
    else
      some (read, last, further, c)

/-
  Read a block scalar, whose first mark comes next, in a block
  at the column `parent`, if there is one.
-/
def readBlock?
    (literal : Bool)
    (parent : Option Nat)
    (c : Cursor) : Option (String × Cursor) :=
  match readHeader? c.skip with
  | none => none
  | some (chomping, increment, next) =>
      let next := next.skipWhile isSpaceOrTab
      let next :=
        if atChar '#' next.rest then next.skipToLineEnd else next
      if !atLineEnd next.rest then
        none
      else
        let next := next.skipBreak
        let given :=
          if increment = 0 then 0
          else parent.getD 0 + increment
        match readEmptyLines? given (next.rest.length + 1) 0 []
            next with
        | none => none
        | some (breaks, deepest, next) =>
            let least := (parent.map (· + 1)).getD 0
            let indent :=
              if given = 0 then max (max deepest least) 1
              else given
            match readBlockLines? literal indent
                (next.rest.length + 1) [] false [] breaks next
            with
            | none => none
            | some (read, last, further, next) =>
                let tail :=
                  match chomping with
                  | .strip => []
                  | .clip => last
                  | .keep => last ++ further
                some (String.ofList (read ++ tail), next)

end Dialectic.Yaml
