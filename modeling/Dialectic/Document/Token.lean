import Dialectic.Source.Position
import Dialectic.Document.Marker

/-
  This file defines the tokens of a document and the lines
  that they form.

  Key definitions include:
    * `TokenKind`
    * `TokenKind.opensLine`
    * `Token`
    * `FilledLine`
    * `Line`
    * `Line.stream`
-/

namespace Dialectic

------------------------------------------------------------
-- Tokens
------------------------------------------------------------

/-
  The kinds of tokens.  `step` is the number of a statement of
  a premise-conclusion structure.  The head of an element is a
  definition if a colon follows its title, else a reference.
-/
inductive TokenKind where
| frontMatter (content : String)
| indentation (width : Nat)
| blankLine
| lineEnd
| heading (level : Nat)
| relation (marker : Marker)
| step (number : Nat)
| inference (rule : Option String)
| bullet
| statementDefinition (title : String)
| statementReference (title : String)
| statementMention (title : String)
| argumentDefinition (title : String)
| argumentReference (title : String)
| argumentMention (title : String)
| tag (name : String)
| data (content : String)
| text (content : String)
| documentEnd
deriving DecidableEq, Repr

namespace TokenKind

/-
  A token that opens a line of its own, which never continues
  the element above it.
-/
def opensLine : TokenKind → Bool
| heading _ => true
| relation _ => true
| step _ => true
| inference _ => true
| bullet => true
| _ => false

/- A token that starts the definition of an element. -/
def opensDefinition : TokenKind → Bool
| statementDefinition _ => true
| argumentDefinition _ => true
| _ => false

end TokenKind

/- A token and the place of its first character. -/
structure Token where
  kind : TokenKind
  position : Position
deriving DecidableEq, Repr

------------------------------------------------------------
-- Lines
------------------------------------------------------------

/-
  A line with content: where it starts and ends, the width of
  its indentation, and the tokens after the indentation.
-/
structure FilledLine where
  start : Position
  indent : Nat
  tokens : List Token
  stop : Position
deriving DecidableEq, Repr

namespace FilledLine

/- The kind of the first token of a line. -/
def headKind? (line : FilledLine) : Option TokenKind :=
  line.tokens.head?.map Token.kind

/-
  Where the content of a line starts: at its indentation, or
  at its first token if it has none.
-/
def contentStart (line : FilledLine) : Position :=
  if line.indent = 0 then
    match line.tokens with
    | [] => line.start
    | token :: _ => token.position
  else
    line.start

/- The part of the source text that a line covers. -/
def span (line : FilledLine) : Span :=
  ⟨line.contentStart, line.stop⟩

/- The tokens of a line with its indentation and its end. -/
def stream (line : FilledLine) : List Token :=
  let content := line.tokens ++ [⟨.lineEnd, line.stop⟩]
  if line.indent = 0 then
    content
  else
    ⟨.indentation line.indent, line.start⟩ :: content

end FilledLine

/- A line is a gap between blocks, or has content. -/
inductive Line where
| gap (position : Position)
| filled (line : FilledLine)
deriving DecidableEq, Repr

namespace Line

/- The tokens of a line. -/
def stream : Line → List Token
| gap position => [⟨.blankLine, position⟩]
| filled line => line.stream

end Line

end Dialectic
