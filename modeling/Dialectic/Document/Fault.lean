import Dialectic.Source.Position
import Dialectic.Document.Marker

/-
  This file defines the faults that reading a document can
  find, and their messages.

  Key definitions include:
    * `SyntaxFault.Cause`
    * `SyntaxFault`
    * `SyntaxFault.message`
    * `SyntaxFault.display`
-/

namespace Dialectic

------------------------------------------------------------
-- Places of Data
------------------------------------------------------------

/-
  Data stands in a block at the end of a line or in the front
  matter of a document.
-/
inductive DataPlace where
| block
| frontMatter
deriving DecidableEq, Repr

/- The name of a place of data in messages. -/
def DataPlace.name : DataPlace → String
| block => "data"
| frontMatter => "front matter"

------------------------------------------------------------
-- Causes
------------------------------------------------------------

/-
  What is wrong with a document.  `unreadableData` is data
  that is not well formed, `foreignData` well-formed data of
  another kind than a mapping.
-/
inductive SyntaxFault.Cause where
| unterminatedComment
| unterminatedFrontMatter
| unclosedStatementTitle
| unclosedArgumentTitle
| unclosedTag
| unreadableData (place : DataPlace)
| foreignData (place : DataPlace) (kind : String)
| headingWithoutTitle
| inferenceWithoutPremises
| relationWithoutParent (marker : Marker)
| relationWithoutTarget (marker : Marker)
| unexpectedIndentation
| missingElement
| argumentAsStep
| emptyStep (number : Nat)
| startWithoutPremise
| consecutiveInferences
| endWithoutConclusion
deriving DecidableEq, Repr

namespace SyntaxFault.Cause

/-
  The message of a cause.  The reason why data is unreadable
  is elided.
-/
def message : Cause → String
| unterminatedComment => "unterminated comment"
| unterminatedFrontMatter => "unterminated front matter"
| unclosedStatementTitle =>
    "unclosed statement title: missing `]`"
| unclosedArgumentTitle =>
    "unclosed argument title: missing `>`"
| unclosedTag => "unclosed tag: missing `)`"
| unreadableData place => "invalid " ++ place.name ++ ": *"
| foreignData place kind =>
    place.name ++ " must be a mapping, found " ++ kind
| headingWithoutTitle => "heading without title"
| inferenceWithoutPremises =>
    "inference without preceding premises"
| relationWithoutParent marker =>
    "relation `" ++ marker.symbol ++ "` without parent element"
| relationWithoutTarget marker =>
    "relation `" ++ marker.symbol ++ "` without target"
| unexpectedIndentation =>
    "unexpected indented line, expected a relation"
| missingElement => "expected a statement or argument"
| argumentAsStep =>
    "premise-conclusion structures may only contain statements"
| emptyStep number =>
    "empty statement (" ++ toString number ++ ")"
| startWithoutPremise =>
    "premise-conclusion structure must start with a premise"
| consecutiveInferences =>
    "two consecutive inferences in premise-conclusion structure"
| endWithoutConclusion =>
    "premise-conclusion structure must end with an inference "
      ++ "and a conclusion"

end SyntaxFault.Cause

------------------------------------------------------------
-- Faults
------------------------------------------------------------

/- A fault and the place where it was found. -/
structure SyntaxFault where
  cause : SyntaxFault.Cause
  position : Position
deriving DecidableEq, Repr

namespace SyntaxFault

/- The message of a fault, without its place. -/
def message (fault : SyntaxFault) : String :=
  fault.cause.message

/- The text of a syntax message at a place. -/
def textAt
    (message : String)
    (position : Position) : String :=
  "syntax error at " ++ position.display ++ ": " ++ message

/- The message of a fault with its place. -/
def display (fault : SyntaxFault) : String :=
  textAt fault.message fault.position

end SyntaxFault

end Dialectic
