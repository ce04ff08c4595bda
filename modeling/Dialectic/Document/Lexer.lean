import Dialectic.Document.Comment
import Dialectic.Document.Token
import Dialectic.Text.Alphanumeric

/-
  This file defines how a source text is split into lines of
  tokens.

  Key definitions include:
    * `SourceLine`
    * `Lexer.opening?`
    * `Lexer.head`
    * `Lexer.inlineFrom`
    * `Lexer.line`
    * `Lexed`
    * `Lexer.lex`
-/

namespace Dialectic

------------------------------------------------------------
-- Source Lines
------------------------------------------------------------

/-
  A line of a source text: its number, the number of bytes
  before it, and its characters without the line feed.
-/
structure SourceLine where
  number : Nat
  offset : Nat
  text : List Char
deriving DecidableEq, Repr

namespace SourceLine

/- The place of the first character of a line. -/
def start (line : SourceLine) : Position :=
  ⟨line.number, 1, line.offset⟩

/- The place after the last character of a line. -/
def stop (line : SourceLine) : Position :=
  line.start.advanceBy line.text

/- Drop one carriage return at the end of a line. -/
def dropReturn (cs : List Char) : List Char :=
  match cs.getLast? with
  | some '\r' => cs.dropLast
  | _ => cs

/- Number the parts of a text between its line feeds. -/
def numbered :
    (first offset : Nat) →
    List (List Char) →
    List SourceLine
| _, _, [] => []
| first, offset, part :: parts =>
    ⟨first, offset, dropReturn part⟩
      :: numbered (first + 1) (offset + Text.byteSize part + 1)
          parts

/-
  The lines of a text.  There is no line after a line feed
  that ends the text.
-/
def ofText (cs : List Char) : List SourceLine :=
  let lines := numbered 1 0 (Text.splitOn '\n' cs)
  match cs.getLast? with
  | some '\n' => lines.dropLast
  | _ => lines

/- A line is empty or blank. -/
def isBlank (line : SourceLine) : Bool :=
  Text.allBlank line.text

/- A line that opens or closes the front matter. -/
def isFence (line : SourceLine) : Bool :=
  Text.trim line.text == ['=', '=', '=']

end SourceLine

namespace Lexer

------------------------------------------------------------
-- Line Openings
------------------------------------------------------------

/- The columns of a tabulator. -/
def tabWidth : Nat := 4

/- The level of the deepest headings. -/
def deepestHeading : Nat := 6

/- A character that indents a line. -/
def isIndentation (c : Char) : Bool :=
  c == ' ' || c == '\t'

/- The width of a text of spaces and tabulators. -/
def width (cs : List Char) : Nat :=
  cs.foldl
    (fun n c => if c = '\t' then n + tabWidth else n + 1)
    0

/-
  A heading opens with one to six number signs before a blank
  or the end of the line.
-/
def heading? (cs : List Char) : Option (TokenKind × Nat) :=
  let level := (cs.takeWhile (· == '#')).length
  if 0 < level && level ≤ deepestHeading
      && Text.atBreak (cs.drop level) then
    some (.heading level, level)
  else
    none

/-
  An inference line starts with two hyphens.  Between the
  hyphens around it may stand the name of a rule.
-/
def inference? (cs : List Char) : Option (TokenKind × Nat) :=
  let line := Text.trimEnd cs
  if Text.startsWith ['-', '-'] line then
    let inner :=
      Text.trim
        (Text.dropEndWhile (· == '-')
          (line.dropWhile (· == '-')))
    let rule :=
      if inner.isEmpty then none
      else some (String.ofList inner)
    some (.inference rule, cs.length)
  else
    none

/- A marker stands before a blank or the end of the line. -/
def opensWith (marker : Marker) (cs : List Char) : Bool :=
  match Text.stripPrefix? marker.symbol.toList cs with
  | some after => Text.atBreak after
  | none => false

/- A line that opens with a marker is a relation line. -/
def relation? (cs : List Char) : Option (TokenKind × Nat) :=
  match Marker.inMatchingOrder.find? (opensWith · cs) with
  | some marker =>
      some (.relation marker, marker.symbol.length)
  | none => none

/- The numbers of statements stay below this bound. -/
def stepBound : Nat := Nat.pow 2 32

/-
  A statement of a premise-conclusion structure opens with its
  number in parentheses, before a blank or the end of the
  line.
-/
def step? : List Char → Option (TokenKind × Nat)
| '(' :: cs =>
    let digits := cs.takeWhile Text.isDigit
    match cs.drop digits.length with
    | ')' :: after =>
        let number := Text.decimalValue digits
        if digits.isEmpty || !Text.atBreak after
            || stepBound ≤ number then
          none
        else
          some (.step number, digits.length + 2)
    | _ => none
| _ => none

/-
  A list item opens with an asterisk, or with digits and a
  point, before a space.
-/
def bullet? (cs : List Char) : Option (TokenKind × Nat) :=
  let digits := cs.takeWhile Text.isDigit
  if Text.startsWith ['*', ' '] cs then
    some (.bullet, 1)
  else if !digits.isEmpty
      && Text.startsWith ['.', ' '] (cs.drop digits.length) then
    some (.bullet, digits.length + 1)
  else
    none

/-
  The token that opens the line with the given indentation,
  and the number of characters that it takes.  Only a line
  without indentation is a heading.
-/
def opening?
    (indent : Nat)
    (cs : List Char) : Option (TokenKind × Nat) :=
  (if indent = 0 then heading? cs else none)
    <|> inference? cs
    <|> relation? cs
    <|> step? cs
    <|> bullet? cs

------------------------------------------------------------
-- Inline Tokens
------------------------------------------------------------

/-
  What starts at some character: plain text, something broken
  that is read as plain text, or a token that takes a number
  of characters.
-/
inductive Item where
| plain
| broken (cause : SyntaxFault.Cause)
| token (kind : TokenKind) (length : Nat)
deriving DecidableEq, Repr

/-
  The title up to the closing character, without the blanks
  around it, and what follows the closing character.
-/
def title?
    (closing : Char)
    (cs : List Char) : Option (List Char × List Char) :=
  match Text.findChar? closing cs with
  | some n => some (Text.trim (cs.take n), cs.drop (n + 1))
  | none => none

/-
  The head of an element is a title in brackets.  Brackets
  around a blank title, and square brackets before an opening
  parenthesis, are plain text.
-/
def head : List Char → Item
| '[' :: cs =>
    match title? ']' cs with
    | none => .broken .unclosedStatementTitle
    | some ([], _) => .plain
    | some (_, '(' :: _) => .plain
    | some (title, ':' :: after) =>
        .token (.statementDefinition (String.ofList title))
          (cs.length - after.length + 1)
    | some (title, after) =>
        .token (.statementReference (String.ofList title))
          (cs.length - after.length + 1)
| '<' :: cs =>
    match title? '>' cs with
    | none => .broken .unclosedArgumentTitle
    | some ([], _) => .plain
    | some (title, ':' :: after) =>
        .token (.argumentDefinition (String.ofList title))
          (cs.length - after.length + 1)
    | some (title, after) =>
        .token (.argumentReference (String.ofList title))
          (cs.length - after.length + 1)
| _ => .plain

/- A character of a tag without parentheses. -/
def isTagChar (c : Char) : Bool :=
  Text.isAlphanumeric c || c == '-' || c == '_' || c == '/'

/- The tag that starts with the number sign before a text. -/
def tag : List Char → Item
| '(' :: cs =>
    match title? ')' cs with
    | none => .broken .unclosedTag
    | some ([], _) => .plain
    | some (name, after) =>
        .token (.tag (String.ofList name))
          (cs.length - after.length + 2)
| cs =>
    let name := cs.takeWhile isTagChar
    if name.isEmpty then .plain
    else .token (.tag (String.ofList name)) (name.length + 1)

/- The mention that starts with the at sign before a text. -/
def mention : List Char → Item
| '[' :: cs =>
    match title? ']' cs with
    | some (c :: name, after) =>
        .token (.statementMention (String.ofList (c :: name)))
          (cs.length - after.length + 2)
    | _ => .plain
| '<' :: cs =>
    match title? '>' cs with
    | some (c :: name, after) =>
        .token (.argumentMention (String.ofList (c :: name)))
          (cs.length - after.length + 2)
    | _ => .plain
| _ => .plain

/-
  The number of characters up to the brace that closes the
  outermost one, at the given depth of open braces.
-/
def closingBrace? :
    (depth : Nat) → List Char → Option Nat
| _, [] => none
| depth, '\x7b' :: cs =>
    (closingBrace? (depth + 1) cs).map (· + 1)
| depth, '\x7d' :: cs =>
    if depth ≤ 1 then
      some 1
    else
      (closingBrace? (depth - 1) cs).map (· + 1)
| depth, _ :: cs =>
    (closingBrace? depth cs).map (· + 1)

/-
  A block in braces is data if only blanks follow it on its
  line; these belong to the token.
-/
def data (cs : List Char) : Item :=
  match closingBrace? 0 cs with
  | some n =>
      if Text.allBlank (cs.drop n) then
        .token (.data (String.ofList (cs.take n))) cs.length
      else
        .plain
  | none => .plain

/-
  What starts with the given character.  A tag has to follow
  a blank or start the content of its line.
-/
def item (afterBlank : Bool) (c : Char) (cs : List Char) :
    Item :=
  match c with
  | '#' => if afterBlank then tag cs else .plain
  | '@' => mention cs
  | '\x7b' => data (c :: cs)
  | _ => .plain

/- The token of some text, if there is any. -/
def textToken
    (position : Position)
    (text : List Char) : List Token :=
  if text.isEmpty then []
  else [⟨.text (String.ofList text), position⟩]

/-
  The tokens of the rest of a line at `position`, after `skip`
  characters that belong to the token before it.  The text
  that was read since that token starts at `textStart`; its
  characters are given last one first.
-/
def inlineFrom :
    (textStart : Position) →
    (text : List Char) →
    (afterBlank : Bool) →
    (skip : Nat) →
    (position : Position) →
    List Char →
    List Token × List SyntaxFault
| textStart, text, _, _, _, [] =>
    (textToken textStart text.reverse, [])
| textStart, text, _, skip + 1, position, c :: cs =>
    inlineFrom textStart text false skip
      (position.advance c) cs
| textStart, text, afterBlank, 0, position, c :: cs =>
    let next := position.advance c
    match item afterBlank c cs with
    | .token kind length =>
        let (tokens, faults) :=
          inlineFrom next [] false (length - 1) next cs
        ( textToken textStart text.reverse
            ++ ⟨kind, position⟩ :: tokens,
          faults )
    | .broken cause =>
        let (tokens, faults) :=
          inlineFrom
            (if text.isEmpty then position else textStart)
            (c :: text) (Text.isBlank c) 0 next cs
        (tokens, ⟨cause, position⟩ :: faults)
    | .plain =>
        inlineFrom
          (if text.isEmpty then position else textStart)
          (c :: text) (Text.isBlank c) 0 next cs

/- The tokens of a text at the given position. -/
def inlineTokens
    (position : Position)
    (cs : List Char) : List Token × List SyntaxFault :=
  inlineFrom position [] true 0 position cs

------------------------------------------------------------
-- Lines
------------------------------------------------------------

/-
  The tokens of the content of a line after its opening: the
  head of an element, if one is possible here, and inline
  tokens.
-/
def content
    (headAllowed : Bool)
    (position : Position)
    (cs : List Char) : List Token × List SyntaxFault :=
  let blanks := cs.takeWhile Text.isBlank
  let body := cs.dropWhile Text.isBlank
  let start := position.advanceBy blanks
  match if headAllowed then head body else .plain with
  | .token kind length =>
      let (tokens, faults) :=
        inlineTokens
          (start.advanceBy (body.take length))
          (body.drop length)
      (⟨kind, start⟩ :: tokens, faults)
  | .broken cause =>
      let (tokens, faults) := inlineTokens start body
      (tokens, ⟨cause, start⟩ :: faults)
  | .plain => inlineTokens start body

/- The tokens of a line after its indentation. -/
def body
    (indent : Nat)
    (position : Position)
    (cs : List Char) : List Token × List SyntaxFault :=
  match opening? indent cs with
  | some (.inference rule, _) =>
      ([⟨.inference rule, position⟩], [])
  | some (kind, length) =>
      let headAllowed :=
        match kind with
        | .heading _ => false
        | _ => true
      let (tokens, faults) :=
        content headAllowed
          (position.advanceBy (cs.take length))
          (cs.drop length)
      (⟨kind, position⟩ :: tokens, faults)
  | none => content true position cs

/- The tokens of a source line. -/
def line (source : SourceLine) : Line × List SyntaxFault :=
  if source.isBlank then
    (.gap source.start, [])
  else
    let lead := source.text.takeWhile isIndentation
    let rest := source.text.dropWhile isIndentation
    let indent := width lead
    let (tokens, faults) :=
      body indent (source.start.advanceBy lead) rest
    (.filled ⟨source.start, indent, tokens, source.stop⟩, faults)

------------------------------------------------------------
-- Front Matter
------------------------------------------------------------

/- Put a line feed between two neighbouring texts. -/
def joinLines : List (List Char) → List Char
| [] => []
| [text] => text
| text :: texts => text ++ '\n' :: joinLines texts

/- The front matter of a document. -/
structure FrontMatter where
  content : String
  position : Position
deriving DecidableEq, Repr

/-
  Split the front matter off the lines of a text.  It stands
  between two fences, the first of which is the first line
  that is not blank.  Without a second fence it takes all
  lines.
-/
def frontMatter? (lines : List SourceLine) :
    Option (FrontMatter × List SourceLine × List SyntaxFault) :=
  match lines.dropWhile SourceLine.isBlank with
  | [] => none
  | first :: rest =>
      if first.isFence then
        let inner := rest.takeWhile (fun l => !l.isFence)
        let found :=
          ⟨String.ofList (joinLines (inner.map SourceLine.text)),
            first.start⟩
        match rest.dropWhile (fun l => !l.isFence) with
        | _ :: after => some (found, after, [])
        | [] =>
            some (found, [],
              [⟨.unterminatedFrontMatter, first.start⟩])
      else
        none

------------------------------------------------------------
-- Documents
------------------------------------------------------------

/-
  The tokens of a document: its front matter, its lines and
  the place of its end, with the faults found.
-/
structure Lexed where
  frontMatter : Option FrontMatter
  lines : List Line
  stop : Position
  faults : List SyntaxFault
deriving DecidableEq, Repr

/- The tokens of the given source lines, and their faults. -/
def linesOf (sources : List SourceLine) :
    List Line × List SyntaxFault :=
  let scanned := sources.map line
  (scanned.map Prod.fst, scanned.flatMap Prod.snd)

/- Split a source text into tokens. -/
def lex (input : String) : Lexed :=
  let cs := input.toList
  let (text, commentFaults) := Comment.blank cs
  let sources := SourceLine.ofText text
  let stop := Position.ofEnd cs
  match frontMatter? sources with
  | some (found, rest, frontFaults) =>
      let (lines, faults) := linesOf rest
      ⟨some found, lines, stop,
        commentFaults ++ frontFaults ++ faults⟩
  | none =>
      let (lines, faults) := linesOf sources
      ⟨none, lines, stop, commentFaults ++ faults⟩

namespace Lexed

/- All tokens of a document in order. -/
def tokens (lexed : Lexed) : List Token :=
  (match lexed.frontMatter with
    | some found =>
        [⟨.frontMatter found.content, found.position⟩]
    | none => [])
    ++ lexed.lines.flatMap Line.stream
    ++ [⟨.documentEnd, lexed.stop⟩]

end Lexed

end Lexer

end Dialectic
