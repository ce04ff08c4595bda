/-
  This file defines places in a source text.

  Key definitions include:
    * `Position`
    * `Position.advance`
    * `Position.advanceBy`
    * `Position.ofEnd`
    * `Span`
    * `Span.merge`
-/

namespace Dialectic

------------------------------------------------------------
-- Positions
------------------------------------------------------------

/-
  A place in a source text: the line and the column, both
  counted in characters from one, and the number of bytes
  before it.
-/
structure Position where
  line : Nat
  column : Nat
  offset : Nat
deriving DecidableEq, Repr

namespace Position

/- The place of the first character of a text. -/
def start : Position :=
  ⟨1, 1, 0⟩

instance : Inhabited Position :=
  ⟨start⟩

/- The place after one character. -/
def advance (p : Position) (c : Char) : Position :=
  if c = '\n' then
    ⟨p.line + 1, 1, p.offset + c.utf8Size⟩
  else
    ⟨p.line, p.column + 1, p.offset + c.utf8Size⟩

/- The place after a list of characters. -/
def advanceBy (p : Position) (cs : List Char) : Position :=
  cs.foldl advance p

/- The place after the last character of a text. -/
def ofEnd (cs : List Char) : Position :=
  start.advanceBy cs

/- Positions are ordered by line, then column, then offset. -/
def before (p q : Position) : Bool :=
  if p.line = q.line then
    if p.column = q.column then
      decide (p.offset < q.offset)
    else
      decide (p.column < q.column)
  else
    decide (p.line < q.line)

/- The earlier of two positions. -/
def min (p q : Position) : Position :=
  if q.before p then q else p

/- The later of two positions. -/
def max (p q : Position) : Position :=
  if p.before q then q else p

/- The text of a position in messages. -/
def display (p : Position) : String :=
  s!"{p.line}:{p.column}"

end Position

------------------------------------------------------------
-- Spans
------------------------------------------------------------

/- The part of a source text from `start` up to `stop`. -/
structure Span where
  start : Position
  stop : Position
deriving DecidableEq, Repr

namespace Span

/- The empty span before the first character. -/
def origin : Span :=
  ⟨Position.start, Position.start⟩

instance : Inhabited Span :=
  ⟨origin⟩

/- The smallest span that covers two spans. -/
def merge (s t : Span) : Span :=
  ⟨s.start.min t.start, s.stop.max t.stop⟩

/- The smallest span that covers a span and those of a list. -/
def mergeAll (s : Span) (ts : List Span) : Span :=
  ts.foldl merge s

/- The text of a span: its two positions. -/
def display (s : Span) : String :=
  s!"{s.start.display}-{s.stop.display}"

end Span

end Dialectic
