import Dialectic.Source.Position
import Dialectic.Text.Search

/-
  Walking through a text: the place after some characters, and
  how its offset tells which characters these are.

  Key definitions include:
    * `Position.IsPlaceIn`
    * `Position.widen`

  Main theorems:
    * `Position.advanceBy_append`
    * `Position.advanceBy_offset`
    * `Position.advanceBy_line`
    * `Position.advanceBy_eq`
    * `Text.eq_of_byteSize`
-/

namespace Dialectic

namespace Text

------------------------------------------------------------
-- Sizes
------------------------------------------------------------

/- The empty text has no bytes. -/
@[simp]
theorem byteSize_nil : byteSize [] = 0 :=
  rfl

/- The bytes of a text are those of its characters. -/
@[simp]
theorem byteSize_cons (c : Char) (cs : List Char) :
    byteSize (c :: cs) = c.utf8Size + byteSize cs := by
  have hFrom : ∀ (ds : List Char) (n : Nat),
      ds.foldl (fun n c => n + c.utf8Size) n =
        n + byteSize ds := by
    intro ds
    induction ds with
    | nil => simp
    | cons d ds ih =>
        intro n
        rw [byteSize, List.foldl_cons, List.foldl_cons, ih,
          ih (0 + d.utf8Size)]
        omega
  rw [byteSize, List.foldl_cons, hFrom]
  omega

/- The bytes of two texts that follow each other. -/
@[simp]
theorem byteSize_append (as bs : List Char) :
    byteSize (as ++ bs) = byteSize as + byteSize bs := by
  induction as with
  | nil => simp
  | cons a as ih => simp [ih, Nat.add_assoc]

/- Only the empty text has no bytes. -/
theorem eq_nil_of_byteSize
    {cs : List Char}
    (hNone : byteSize cs = 0) :
    cs = [] := by
  cases cs with
  | nil => rfl
  | cons c cs =>
      rw [byteSize_cons] at hNone
      have hSome := c.utf8Size_pos
      omega

/-
  Two beginnings of a text that have the same number of bytes
  are the same.
-/
theorem eq_of_byteSize
    {cs as bs : List Char}
    (hFirst : as <+: cs)
    (hSecond : bs <+: cs)
    (hSize : byteSize as = byteSize bs) :
    as = bs := by
  rcases List.prefix_or_prefix_of_prefix hFirst hSecond with
    ⟨more, rfl⟩ | ⟨more, rfl⟩
  all_goals
    rw [byteSize_append] at hSize
    have hNone : more = [] := eq_nil_of_byteSize (by omega)
    rw [hNone, List.append_nil]

end Text

namespace Position

------------------------------------------------------------
-- Walking
------------------------------------------------------------

/- A place that is reached by walking through a text. -/
def IsPlaceIn (cs : List Char) (p : Position) : Prop :=
  ∃ before after, cs = before ++ after ∧ p = ofEnd before

/- A place some columns further on its line. -/
def widen (p : Position) (columns : Nat) : Position :=
  { p with column := p.column + columns }

/- Without characters the place stays. -/
@[simp]
theorem advanceBy_nil (p : Position) : p.advanceBy [] = p :=
  rfl

/- The first character is passed first. -/
@[simp]
theorem advanceBy_cons
    (p : Position)
    (c : Char)
    (cs : List Char) :
    p.advanceBy (c :: cs) = (p.advance c).advanceBy cs :=
  rfl

/- Two texts are passed one after the other. -/
theorem advanceBy_append
    (p : Position)
    (as bs : List Char) :
    p.advanceBy (as ++ bs) =
      (p.advanceBy as).advanceBy bs := by
  rw [advanceBy, List.foldl_append]
  rfl

/- The place after a text goes on from the place before it. -/
theorem ofEnd_append (as bs : List Char) :
    ofEnd (as ++ bs) = (ofEnd as).advanceBy bs :=
  advanceBy_append start as bs

/- A character moves the offset by its bytes. -/
theorem advance_offset (p : Position) (c : Char) :
    (p.advance c).offset = p.offset + c.utf8Size := by
  unfold advance
  split <;> rfl

/- A text moves the offset by its bytes. -/
theorem advanceBy_offset (p : Position) (cs : List Char) :
    (p.advanceBy cs).offset =
      p.offset + Text.byteSize cs := by
  induction cs generalizing p with
  | nil => rfl
  | cons c cs ih =>
      rw [advanceBy_cons, ih, advance_offset,
        Text.byteSize_cons, Nat.add_assoc]

/- The offset of a place is the number of bytes before it. -/
theorem ofEnd_offset (cs : List Char) :
    (ofEnd cs).offset = Text.byteSize cs := by
  rw [ofEnd, advanceBy_offset]
  exact Nat.zero_add _

/- A text without line feeds stays on its line. -/
theorem advanceBy_line
    (p : Position)
    {cs : List Char}
    (hLine : '\n' ∉ cs) :
    (p.advanceBy cs).line = p.line := by
  induction cs generalizing p with
  | nil => rfl
  | cons c cs ih =>
      rw [List.mem_cons, not_or] at hLine
      rw [advanceBy_cons, ih _ hLine.2, advance,
        if_neg (Ne.symm hLine.1)]

/- A text without line feeds moves the column and the offset. -/
theorem advanceBy_eq
    (p : Position)
    {cs : List Char}
    (hLine : '\n' ∉ cs) :
    p.advanceBy cs =
      ⟨p.line, p.column + cs.length,
        p.offset + Text.byteSize cs⟩ := by
  induction cs generalizing p with
  | nil => rfl
  | cons c cs ih =>
      rw [List.mem_cons, not_or] at hLine
      rw [advanceBy_cons, ih _ hLine.2, advance,
        if_neg (Ne.symm hLine.1), Text.byteSize_cons,
        List.length_cons]
      simp only [mk.injEq, true_and]
      omega

/- A place is one that the offset and the column say. -/
theorem widen_isPlaceIn_iff
    {before after : List Char}
    {columns : Nat} :
    ((ofEnd before).widen columns).IsPlaceIn
        (before ++ after) ↔
      columns = 0 := by
  constructor
  · rintro ⟨first, rest, hText, hPlace⟩
    have hOffset := congrArg Position.offset hPlace
    have hSame : before = first :=
      Text.eq_of_byteSize (List.prefix_append before after)
        (hText ▸ List.prefix_append first rest)
        (by simpa [widen, ofEnd_offset] using hOffset)
    have hColumn := congrArg Position.column hPlace
    rw [← hSame] at hColumn
    simpa [widen] using hColumn
  · rintro rfl
    exact ⟨before, after, rfl, rfl⟩

end Position

end Dialectic
