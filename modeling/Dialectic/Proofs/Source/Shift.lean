import Dialectic.Proofs.Source.Walking

/-
  Places that are moved down, as they are by a text that is put
  before theirs.  All that is computed from places moves along.

  Key definitions include:
    * `Shift`
    * `Shift.below`
    * `Position.shift`
    * `Span.shift`

  Main theorems:
    * `Position.advanceBy_shift`
    * `Position.advanceBy_below`
    * `Span.mergeAll_shift`
-/

namespace Dialectic

------------------------------------------------------------
-- Shifts
------------------------------------------------------------

/- The numbers of lines and bytes that places are moved down. -/
structure Shift where
  lines : Nat
  bytes : Nat
deriving DecidableEq, Repr

namespace Shift

/- Places stay where they are. -/
def zero : Shift :=
  ⟨0, 0⟩

/- Places are moved below a text of whole lines. -/
def below (cs : List Char) : Shift :=
  ⟨cs.count '\n', Text.byteSize cs⟩

end Shift

variable {d : Shift}

------------------------------------------------------------
-- Positions
------------------------------------------------------------

namespace Position

/- Move a place down. -/
def shift (d : Shift) (p : Position) : Position :=
  ⟨p.line + d.lines, p.column, p.offset + d.bytes⟩

/- A place that is not moved stays. -/
@[simp]
theorem shift_zero (p : Position) : p.shift .zero = p :=
  rfl

/- The place after a character moves with the one before. -/
theorem advance_shift (p : Position) (c : Char) :
    (p.shift d).advance c = (p.advance c).shift d := by
  unfold advance shift
  split <;> simp <;> omega

/- So does the place after a text. -/
theorem advanceBy_shift (p : Position) (cs : List Char) :
    (p.shift d).advanceBy cs = (p.advanceBy cs).shift d := by
  induction cs generalizing p with
  | nil => rfl
  | cons c cs ih =>
      rw [advanceBy_cons, advanceBy_cons, advance_shift, ih]

/- The line feeds of a text lead to lines below. -/
theorem advanceBy_lines (p : Position) (cs : List Char) :
    (p.advanceBy cs).line = p.line + cs.count '\n' := by
  induction cs generalizing p with
  | nil => rfl
  | cons c cs ih =>
      rw [advanceBy_cons, ih, List.count_cons]
      unfold advance
      by_cases hFeed : c = '\n'
      · simp [hFeed]
        omega
      · simp [hFeed]

/- After a text of whole lines comes the start below it. -/
theorem advanceBy_below (cs : List Char) :
    start.advanceBy (cs ++ ['\n']) =
      start.shift (.below (cs ++ ['\n'])) := by
  have hLine := advanceBy_lines start (cs ++ ['\n'])
  have hOffset := advanceBy_offset start (cs ++ ['\n'])
  have hColumn : (start.advanceBy (cs ++ ['\n'])).column = 1 := by
    rw [advanceBy_append]
    rfl
  unfold shift Shift.below
  rw [← hLine, ← hOffset]
  exact congrArg (Position.mk _ · _) hColumn

/- Moving keeps the order of places. -/
theorem before_shift (p q : Position) :
    (p.shift d).before (q.shift d) = p.before q := by
  unfold before shift
  by_cases hLine : p.line = q.line <;>
    by_cases hColumn : p.column = q.column <;>
      simp [hLine, hColumn]

/- The earlier of two places moves with them. -/
theorem min_shift (p q : Position) :
    (p.shift d).min (q.shift d) = (p.min q).shift d := by
  unfold min
  rw [before_shift]
  split <;> rfl

/- So does the later one. -/
theorem max_shift (p q : Position) :
    (p.shift d).max (q.shift d) = (p.max q).shift d := by
  unfold max
  rw [before_shift]
  split <;> rfl

end Position

------------------------------------------------------------
-- Spans
------------------------------------------------------------

namespace Span

/- Move a span down. -/
def shift (d : Shift) (s : Span) : Span :=
  ⟨s.start.shift d, s.stop.shift d⟩

/- A span that is not moved stays. -/
@[simp]
theorem shift_zero (s : Span) : s.shift .zero = s :=
  rfl

/- The span that covers two moves with them. -/
theorem merge_shift (s t : Span) :
    (s.shift d).merge (t.shift d) = (s.merge t).shift d := by
  simp [merge, shift, Position.min_shift, Position.max_shift]

/- So does the span that covers several. -/
theorem mergeAll_shift (s : Span) (ts : List Span) :
    (s.shift d).mergeAll (ts.map (shift d)) =
      (s.mergeAll ts).shift d := by
  unfold mergeAll
  induction ts generalizing s with
  | nil => rfl
  | cons t ts ih =>
      rw [List.map_cons, List.foldl_cons, List.foldl_cons,
        merge_shift, ih]

end Span

end Dialectic
