import Dialectic.Document.Fault
import Dialectic.Text.Blank
import Dialectic.Text.Search

/-
  This file defines how comments are blanked out of a source
  text.  Every byte of a comment that is not a line feed
  becomes a space, so that offsets stay as they are.

  Key definitions include:
    * `Comment.opening?`
    * `Comment.blankFrom`
    * `Comment.blank`
-/

namespace Dialectic

namespace Comment

------------------------------------------------------------
-- Openings
------------------------------------------------------------

/-
  The number of characters of a comment that runs to the end
  of the line.
-/
def lineLength (cs : List Char) : Nat :=
  (cs.takeWhile (· != '\n')).length

/-
  The number of characters of the comment that the text after
  its opening belongs to, and whether it is closed.  One that
  is not closed takes the rest of the text.
-/
def enclosedLength
    (opening closing : List Char)
    (body : List Char) : Nat × Bool :=
  match Text.find? closing body with
  | some n => (opening.length + n + closing.length, true)
  | none => (opening.length + body.length, false)

/-
  The length of the comment that starts a text, and whether
  it is closed.  A line comment has to follow a blank or
  start the text, so that the slashes of an address start
  none.
-/
def opening?
    (afterBlank : Bool)
    (cs : List Char) : Option (Nat × Bool) :=
  match cs with
  | '/' :: '*' :: body =>
      some (enclosedLength ['/', '*'] ['*', '/'] body)
  | '<' :: '!' :: '-' :: '-' :: body =>
      some
        (enclosedLength ['<', '!', '-', '-'] ['-', '-', '>']
          body)
  | '/' :: '/' :: _ =>
      if afterBlank then some (lineLength cs, true) else none
  | _ => none

------------------------------------------------------------
-- Blanking
------------------------------------------------------------

/- What stands for a character of a comment. -/
def blankOf (c : Char) : List Char :=
  if c = '\n' then ['\n'] else List.replicate c.utf8Size ' '

/-
  Blank the comments of the text at `position`, after `inside`
  characters that belong to the comment before it.
-/
def blankFrom :
    (inside : Nat) →
    (afterBlank : Bool) →
    (position : Position) →
    List Char →
    List Char × List SyntaxFault
| _, _, _, [] => ([], [])
| inside + 1, _, position, c :: cs =>
    let (out, faults) :=
      blankFrom inside true (position.advance c) cs
    (blankOf c ++ out, faults)
| 0, afterBlank, position, c :: cs =>
    match opening? afterBlank (c :: cs) with
    | some (length, closed) =>
        let (out, faults) :=
          blankFrom (length - 1) true (position.advance c) cs
        ( blankOf c ++ out,
          if closed then faults
          else ⟨.unterminatedComment, position⟩ :: faults )
    | none =>
        let (out, faults) :=
          blankFrom 0 (Text.isBlank c) (position.advance c) cs
        (c :: out, faults)

/- Blank all comments of a text. -/
def blank (cs : List Char) : List Char × List SyntaxFault :=
  blankFrom 0 true Position.start cs

end Comment

end Dialectic
