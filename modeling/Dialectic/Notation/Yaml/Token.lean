import Dialectic.Notation.Yaml.Scalar
import Dialectic.Notation.Yaml.Tag

/-
  This file defines the tokens of YAML and how a text is
  divided into them.  Besides the tokens that are written,
  there are tokens that indentation and simple keys imply:
  the starts and ends of block collections, and the marks of
  keys.

  Key definitions include:
    * `Yaml.Token`
    * `Yaml.Scanner`
    * `Yaml.Scanner.step?`
    * `Yaml.tokens?`
-/

namespace Dialectic.Yaml

open Dialectic.Text

------------------------------------------------------------
-- Tokens
------------------------------------------------------------

/- The tokens of YAML. -/
inductive Token where
| version (major minor : Nat)
| tagDirective (handle : String) (lead : Tag)
| documentStart
| documentEnd
| blockListStart
| blockRecordStart
| blockEnd
| flowListStart
| flowListEnd
| flowRecordStart
| flowRecordEnd
| blockEntry
| flowEntry
| key
| value
| alias (name : String)
| anchor (name : String)
| tag (handle : String) (suffix : Tag)
| scalar (text : String) (plain : Bool)
| streamEnd
deriving DecidableEq, Repr, Inhabited

------------------------------------------------------------
-- Scanner States
------------------------------------------------------------

/-
  A place at which a simple key may have started: the number
  of tokens before it and the cursor there.  A required key
  has to be followed by a colon.
-/
structure SimpleKey where
  required : Bool
  tokenCount : Nat
  line : Nat
  column : Nat
  offset : Nat
deriving Repr, Inhabited

/-
  The state of a scanner: its place, the tokens found so far,
  the column of each open block, the innermost first, and for
  each open flow collection and the text around them the
  place of a possible simple key, the innermost first.
-/
structure Scanner where
  cursor : Cursor
  tokens : List Token
  blocks : List Nat
  flowDepth : Nat
  keys : List (Option SimpleKey)
  keyAllowed : Bool
deriving Repr, Inhabited

namespace Scanner

/- The state before a text. -/
def ofText (cs : List Char) : Scanner where
  cursor := Cursor.ofText cs
  tokens := []
  blocks := []
  flowDepth := 0
  keys := [none]
  keyAllowed := true

/- The place is inside a flow collection. -/
def inFlow (s : Scanner) : Bool :=
  s.flowDepth != 0

/- Add a token. -/
def push (s : Scanner) (t : Token) : Scanner :=
  { s with tokens := s.tokens ++ [t] }

/- Add a token that is written with `n` characters. -/
def pushMark (s : Scanner) (t : Token) (n : Nat) : Scanner :=
  { s with
    tokens := s.tokens ++ [t]
    cursor := s.cursor.skipMany n }

/- Allow or forbid a simple key at the next place. -/
def allowKey (s : Scanner) (allowed : Bool) : Scanner :=
  { s with keyAllowed := allowed }

------------------------------------------------------------
-- Simple Keys
------------------------------------------------------------

/-
  A key that a colon may no longer follow: it stands on one
  line and has at most 1024 bytes.
-/
def isStale (c : Cursor) (k : SimpleKey) : Bool :=
  k.line < c.line || k.offset + 1024 < c.offset

/-
  Forget the keys that a colon may no longer follow; nothing
  if one of them is required.
-/
def dropStale? (s : Scanner) : Option Scanner :=
  let stale := isStale s.cursor
  let lost := fun (k : SimpleKey) => stale k && k.required
  if s.keys.any (fun key => key.any lost) then
    none
  else
    some { s with
      keys := s.keys.map (fun key => key.filter (!stale ·)) }

/- Forget the innermost key; nothing if it is required. -/
def dropKey? (s : Scanner) : Option Scanner :=
  match s.keys with
  | some k :: rest =>
      if k.required then none
      else some { s with keys := none :: rest }
  | _ => some s

/- The column at which the innermost block stands. -/
def blockColumn? (s : Scanner) : Option Nat :=
  s.blocks.head?

/- Note that a simple key may start at the place. -/
def saveKey? (s : Scanner) : Option Scanner :=
  if s.keyAllowed then
    match s.dropKey? with
    | none => none
    | some s =>
        let key : SimpleKey :=
          { required :=
              !s.inFlow && s.blockColumn? = some s.cursor.column
            tokenCount := s.tokens.length
            line := s.cursor.line
            column := s.cursor.column
            offset := s.cursor.offset }
        some { s with keys := some key :: s.keys.drop 1 }
  else
    some s

------------------------------------------------------------
-- Indentation
------------------------------------------------------------

/-
  Open a block at a column if it is deeper than the innermost
  block.  Its token stands after the first `count` tokens.
-/
def openBlock
    (s : Scanner)
    (column count : Nat)
    (t : Token) : Scanner :=
  let deeper :=
    match s.blockColumn? with
    | some c => decide (c < column)
    | none => true
  if !s.inFlow && deeper then
    { s with
      blocks := column :: s.blocks
      tokens := s.tokens.insertIdx count t }
  else
    s

/- Close the blocks that are deeper than a column. -/
def closeBlocks (s : Scanner) (column : Nat) : Scanner :=
  if s.inFlow then
    s
  else
    let closed := s.blocks.takeWhile (fun c => column < c)
    { s with
      blocks := s.blocks.drop closed.length
      tokens := s.tokens ++ closed.map (fun _ => .blockEnd) }

/- Close all blocks. -/
def closeAllBlocks (s : Scanner) : Scanner :=
  if s.inFlow then
    s
  else
    { s with
      blocks := []
      tokens := s.tokens ++ s.blocks.map (fun _ => .blockEnd) }

------------------------------------------------------------
-- Gaps Between Tokens
------------------------------------------------------------

/- Skip blanks, comments and line breaks before a token. -/
def skipGap : (fuel : Nat) → Scanner → Scanner
| 0, s => s
| fuel + 1, s =>
    let c := s.cursor
    let c :=
      if c.column = 0 && atChar (Char.ofNat 0xFEFF) c.rest then
        c.skip
      else
        c
    let c :=
      c.skipWhile (fun d =>
        d = ' ' || ((s.inFlow || !s.keyAllowed) && d = '\t'))
    let c := if atChar '#' c.rest then c.skipToLineEnd else c
    if atBreak c.rest then
      skipGap fuel
        { s with
          cursor := c.skipBreak
          keyAllowed := s.keyAllowed || !s.inFlow }
    else
      { s with cursor := c }

------------------------------------------------------------
-- Directives
------------------------------------------------------------

/- Read a number of at most nine digits. -/
def readVersionPart? (c : Cursor) : Option (Nat × Cursor) :=
  let digits := c.rest.takeWhile isDigit
  if digits.isEmpty || 9 < digits.length then
    none
  else
    some (decimalValue digits, c.skipMany digits.length)

/- Read the value of a directive with the given name. -/
def readDirectiveValue? (name : List Char) (c : Cursor) :
    Option (Token × Cursor) :=
  let c := c.skipWhile isSpaceOrTab
  if name = ['Y', 'A', 'M', 'L'] then
    match readVersionPart? c with
    | none => none
    | some (major, c) =>
        if atChar '.' c.rest then
          match readVersionPart? c.skip with
          | none => none
          | some (minor, c) => some (.version major minor, c)
        else
          none
  else if name = ['T', 'A', 'G'] then
    match readTagHandle? c with
    | none => none
    | some (handle, c) =>
        let closed := handle = ['!'] || handle.getLast? = some '!'
        if closed && atSpaceOrTab c.rest then
          match readTagSuffix? true []
              (c.skipWhile isSpaceOrTab) with
          | none => none
          | some (lead, c) =>
              if atGap c.rest then
                some
                  (.tagDirective (String.ofList handle) lead, c)
              else
                none
        else
          none
  else
    none

/- Read a directive and the rest of its line. -/
def readDirective? (c : Cursor) : Option (Token × Cursor) :=
  let c := c.skip
  let name := c.rest.takeWhile isNameChar
  let c := c.skipMany name.length
  if name.isEmpty || !atGap c.rest then
    none
  else
    match readDirectiveValue? name c with
    | none => none
    | some (t, c) =>
        let c := c.skipWhile isSpaceOrTab
        let c :=
          if atChar '#' c.rest then c.skipToLineEnd else c
        if atLineEnd c.rest then some (t, c.skipBreak) else none

------------------------------------------------------------
-- Anchors and Tags
------------------------------------------------------------

/- Read the name of an anchor or an alias after its mark. -/
def readName? (c : Cursor) : Option (String × Cursor) :=
  let c := c.skip
  let name := c.rest.takeWhile isNameChar
  let next := c.skipMany name.length
  let ended :=
    atGap next.rest
      || atAny ['?', ':', ',', ']', '\x7d', '%', '@', '\x60']
          next.rest
  if name.isEmpty || !ended then
    none
  else
    some (String.ofList name, next)

/- Read a tag, which a gap or a comma has to follow. -/
def readTag? (inFlow : Bool) (c : Cursor) :
    Option (Token × Cursor) :=
  match readTagParts? c with
  | none => none
  | some (handle, suffix, next) =>
      if atGap next.rest || (inFlow && atChar ',' next.rest) then
        some (.tag (String.ofList handle) suffix, next)
      else
        none

------------------------------------------------------------
-- Marks
------------------------------------------------------------

/- A directive or a mark between documents. -/
def fetchDocumentPart? (s : Scanner)
    (read? : Cursor → Option (Token × Cursor)) :
    Option Scanner :=
  match s.closeAllBlocks.dropKey? with
  | none => none
  | some s =>
      match read? s.cursor with
      | none => none
      | some (t, c) =>
          some { s.push t with cursor := c, keyAllowed := false }

/- The start of a flow collection. -/
def fetchFlowStart? (s : Scanner) (t : Token) :
    Option Scanner :=
  s.saveKey?.map (fun s =>
    { s.pushMark t 1 with
      keys := none :: s.keys
      flowDepth := s.flowDepth + 1
      keyAllowed := true })

/- The end of a flow collection. -/
def fetchFlowEnd? (s : Scanner) (t : Token) : Option Scanner :=
  s.dropKey?.map (fun s =>
    let s :=
      if s.inFlow then
        { s with
          keys := s.keys.drop 1
          flowDepth := s.flowDepth - 1 }
      else
        s
    (s.pushMark t 1).allowKey false)

/- A comma in a flow collection. -/
def fetchFlowEntry? (s : Scanner) : Option Scanner :=
  s.dropKey?.map (fun s =>
    (s.pushMark .flowEntry 1).allowKey true)

/- The dash of an entry of a block list. -/
def fetchBlockEntry? (s : Scanner) : Option Scanner :=
  if s.inFlow || s.keyAllowed then
    let s :=
      s.openBlock s.cursor.column s.tokens.length .blockListStart
    s.dropKey?.map (fun s =>
      (s.pushMark .blockEntry 1).allowKey true)
  else
    none

/- The question mark before a key. -/
def fetchKey? (s : Scanner) : Option Scanner :=
  if s.inFlow || s.keyAllowed then
    let s :=
      s.openBlock s.cursor.column s.tokens.length
        .blockRecordStart
    s.dropKey?.map (fun s =>
      (s.pushMark .key 1).allowKey (!s.inFlow))
  else
    none

/- The colon before a value. -/
def fetchValue? (s : Scanner) : Option Scanner :=
  match s.keys with
  | some k :: rest =>
      let s :=
        { s with
          tokens := s.tokens.insertIdx k.tokenCount .key
          keys := none :: rest }
      let s := s.openBlock k.column k.tokenCount .blockRecordStart
      some ((s.pushMark .value 1).allowKey false)
  | _ =>
      if s.inFlow || s.keyAllowed then
        let s :=
          s.openBlock s.cursor.column s.tokens.length
            .blockRecordStart
        some ((s.pushMark .value 1).allowKey (!s.inFlow))
      else
        none

/- A token that may start a simple key. -/
def fetchKeyPart? (s : Scanner)
    (read? : Cursor → Option (Token × Bool × Cursor)) :
    Option Scanner :=
  match s.saveKey? with
  | none => none
  | some s =>
      match read? s.cursor with
      | none => none
      | some (t, allowed, c) =>
          some { s.push t with cursor := c, keyAllowed := allowed }

/- A block scalar. -/
def fetchBlockScalar? (s : Scanner) (literal : Bool) :
    Option Scanner :=
  match s.dropKey? with
  | none => none
  | some s =>
      match readBlock? literal s.blockColumn? s.cursor with
      | none => none
      | some (text, c) =>
          some { s.push (.scalar text false) with
            cursor := c
            keyAllowed := true }

/- The end of a text. -/
def fetchEnd? (s : Scanner) : Option Scanner :=
  s.closeAllBlocks.dropKey?.map (fun s =>
    (s.push .streamEnd).allowKey false)

------------------------------------------------------------
-- Steps
------------------------------------------------------------

/- The characters that may not start a plain scalar. -/
def indicators : List Char :=
  ['-', '?', ':', ',', '[', ']', '\x7b', '\x7d', '#', '&', '*',
    '!', '|', '>', apostrophe, '"', '%', '@', '\x60']

/- A plain scalar may start with `c` before `rest`. -/
def startsPlain (inFlow : Bool) (c : Char) (rest : List Char) :
    Bool :=
  !(isGap c || indicators.contains c)
    || (c = '-' && !atSpaceOrTab rest)
    || (!inFlow && (c = '?' || c = ':') && !atGap rest)

/-
  Read the token that starts at the place of the scanner,
  which no gap starts.
-/
def fetch? (s : Scanner) : Option Scanner :=
  let c := s.cursor
  match c.rest with
  | [] => s.fetchEnd?
  | d :: rest =>
      let mark := atGap rest
      if c.column = 0 && d = '%' then
        s.fetchDocumentPart? readDirective?
      else if c.column = 0 && atMark '-' c.rest then
        s.fetchDocumentPart?
          (fun c => some (.documentStart, c.skipMany 3))
      else if c.column = 0 && atMark '.' c.rest then
        s.fetchDocumentPart?
          (fun c => some (.documentEnd, c.skipMany 3))
      else if d = '[' then s.fetchFlowStart? .flowListStart
      else if d = '\x7b' then s.fetchFlowStart? .flowRecordStart
      else if d = ']' then s.fetchFlowEnd? .flowListEnd
      else if d = '\x7d' then s.fetchFlowEnd? .flowRecordEnd
      else if d = ',' then s.fetchFlowEntry?
      else if d = '-' && mark then s.fetchBlockEntry?
      else if d = '?' && (s.inFlow || mark) then s.fetchKey?
      else if d = ':' && (s.inFlow || mark) then s.fetchValue?
      else if d = '*' then
        s.fetchKeyPart? (fun c =>
          (readName? c).map (fun (n, c) => (.alias n, false, c)))
      else if d = '&' then
        s.fetchKeyPart? (fun c =>
          (readName? c).map (fun (n, c) => (.anchor n, false, c)))
      else if d = '!' then
        s.fetchKeyPart? (fun c =>
          (readTag? s.inFlow c).map (fun (t, c) => (t, false, c)))
      else if d = '|' && !s.inFlow then
        s.fetchBlockScalar? true
      else if d = '>' && !s.inFlow then
        s.fetchBlockScalar? false
      else if d = apostrophe || d = '"' then
        s.fetchKeyPart? (fun c =>
          (readQuoted? (d = apostrophe) c).map
            (fun (text, c) => (.scalar text false, false, c)))
      else if startsPlain s.inFlow d rest then
        let indent := (s.blockColumn?.map (· + 1)).getD 0
        s.fetchKeyPart? (fun c =>
          (readPlain? s.inFlow indent c).map
            (fun (text, broken, c) =>
              (.scalar text true, broken, c)))
      else
        none

/- Skip to the next token and read it. -/
def step? (s : Scanner) : Option Scanner :=
  match (skipGap (s.cursor.rest.length + 1) s).dropStale? with
  | none => none
  | some s => (s.closeBlocks s.cursor.column).fetch?

/- Read all tokens. -/
def run? : (fuel : Nat) → Scanner → Option (List Token)
| 0, _ => none
| fuel + 1, s =>
    match s.step? with
    | none => none
    | some s =>
        if s.tokens.getLast? = some .streamEnd then
          some s.tokens
        else
          run? fuel s

end Scanner

/- The tokens of a text of allowed characters. -/
def tokens? (cs : List Char) : Option (List Token) :=
  if cs.all isAllowed then
    Scanner.run? (cs.length + 2) (Scanner.ofText cs)
  else
    none

end Dialectic.Yaml
