import Dialectic.Document.Fault
import Dialectic.Proofs.Document.Stacking

/-
  Parts of a document that stand on its lines one below the
  other, with nothing between them but lines that are reported
  as faulty.  A line stands here for the part of the text that
  it covers.

  Key definitions include:
    * `Span.Stacked`
    * `Span.Covers`
    * `Tiled`

  Main theorems:
    * `Tiled.merge`
    * `Tiled.mergeAll`
    * `Tiled.apart`
    * `Tiled.covered`
    * `Tiled.blamed_between`
-/

namespace Dialectic

namespace Span

------------------------------------------------------------
-- Lines
------------------------------------------------------------

/- Parts of one line each, one below the other. -/
structure Stacked (rows : List Span) : Prop where
  level : ∀ row ∈ rows, row.start.line = row.stop.line
  proper : ∀ row ∈ rows, row.start ≤ row.stop
  apart : rows.Pairwise Before

variable {rows here middle after : List Span}
variable {s t row : Span}

/- Some of such lines are such lines. -/
theorem Stacked.of_sublist
    (hStacked : Stacked rows)
    (hFewer : here.Sublist rows) :
    Stacked here :=
  ⟨fun row hRow => hStacked.level row (hFewer.subset hRow),
    fun row hRow => hStacked.proper row (hFewer.subset hRow),
    hStacked.apart.sublist hFewer⟩

/- The first ones of such lines. -/
theorem Stacked.left
    (hStacked : Stacked (here ++ after)) :
    Stacked here :=
  hStacked.of_sublist (List.sublist_append_left _ _)

/- The last ones of such lines. -/
theorem Stacked.right
    (hStacked : Stacked (here ++ after)) :
    Stacked after :=
  hStacked.of_sublist (List.sublist_append_right _ _)

/- The first ones are above the last ones. -/
theorem Stacked.above
    (hStacked : Stacked (here ++ after)) :
    ∀ s ∈ here, ∀ t ∈ after, s.Before t :=
  (List.pairwise_append.mp hStacked.apart).2.2

------------------------------------------------------------
-- Parts of Several Lines
------------------------------------------------------------

/- A part of a text goes from the first to the last line. -/
structure Covers (s : Span) (rows : List Span) : Prop where
  first : ∃ row ∈ rows.head?, s.start = row.start
  last : ∃ row ∈ rows.getLast?, s.stop = row.stop

/- A line covers itself. -/
theorem Covers.single (row : Span) : row.Covers [row] :=
  ⟨⟨row, rfl, rfl⟩, ⟨row, rfl, rfl⟩⟩

/- It starts on one of the lines, and it stops on one. -/
theorem Covers.ends
    (hCovers : s.Covers rows) :
    (∃ row ∈ rows, s.start = row.start) ∧
      ∃ row ∈ rows, s.stop = row.stop := by
  rcases hCovers with
    ⟨⟨first, hFirst, hStart⟩, ⟨last, hLast, hStop⟩⟩
  exact
    ⟨⟨first, List.mem_of_mem_head? hFirst, hStart⟩,
      ⟨last, List.mem_of_mem_getLast? hLast, hStop⟩⟩

/- Each of the lines lies in it. -/
theorem Covers.within
    (hCovers : s.Covers rows)
    (hStacked : Stacked rows)
    (hRow : row ∈ rows) :
    row.Within s := by
  rcases hCovers with
    ⟨⟨first, hFirst, hStart⟩, ⟨last, hLast, hStop⟩⟩
  have hProper := hStacked.proper
  constructor
  · rw [hStart]
    rcases List.head?_eq_some_iff.mp hFirst with ⟨tail, rfl⟩
    rcases List.mem_cons.mp hRow with rfl | hLater
    · exact le_rfl
    · have hAbove :=
        (List.pairwise_cons.mp hStacked.apart).1 row hLater
      exact
        (hProper first List.mem_cons_self).trans hAbove.le
  · rw [hStop]
    rcases List.getLast?_eq_some_iff.mp hLast with
      ⟨front, rfl⟩
    rcases List.mem_append.mp hRow with hEarlier | hSame
    · have hAbove :=
        hStacked.above row hEarlier last List.mem_cons_self
      exact hAbove.le.trans (hProper last (by simp))
    · rw [List.mem_singleton.mp hSame]

/- It starts no later than it stops. -/
theorem Covers.proper
    (hCovers : s.Covers rows)
    (hStacked : Stacked rows) :
    s.start ≤ s.stop := by
  rcases hCovers.ends.1 with ⟨row, hRow, _⟩
  have hWithin := hCovers.within hStacked hRow
  exact
    (hWithin.start.trans (hStacked.proper row hRow)).trans
      hWithin.stop

/- Parts on lines below each other are below each other. -/
theorem Covers.before
    (hFirst : s.Covers here)
    (hSecond : t.Covers after)
    (hAbove : ∀ a ∈ here, ∀ b ∈ after, a.Before b) :
    s.Before t := by
  rcases hFirst.ends.2 with ⟨a, ha, hStop⟩
  rcases hSecond.ends.1 with ⟨b, hb, hStart⟩
  unfold Before
  rw [hStop, hStart]
  exact hAbove a ha b hb

/- Such parts cover together all lines from one to the other. -/
theorem Covers.merge
    (hFirst : s.Covers here)
    (hSecond : t.Covers after)
    (hStacked : Stacked (here ++ (middle ++ after))) :
    (s.merge t).Covers (here ++ (middle ++ after)) := by
  have hStart := hFirst.proper hStacked.left
  have hStop := hSecond.proper hStacked.right.right
  have hBefore : s.Before t :=
    hFirst.before hSecond
      (fun a ha b hb =>
        hStacked.above a ha b (List.mem_append_right _ hb))
  rw [merge_eq (hStart.trans hBefore.le)
    (hBefore.le.trans hStop)]
  rcases hFirst.first with ⟨first, hHead, hSame⟩
  rcases hSecond.last with ⟨last, hLast, hSame'⟩
  refine ⟨⟨first, ?_, hSame⟩, ⟨last, ?_, hSame'⟩⟩
  · rw [List.head?_append, Option.mem_def.mp hHead]
    rfl
  · rw [List.getLast?_append, List.getLast?_append,
      Option.mem_def.mp hLast]
    rfl

end Span

/- The lines of a document are such lines. -/
theorem Line.Stacked.rows
    {lines : List Line}
    (hStacked : Line.Stacked lines) :
    Span.Stacked (Line.spans lines) := by
  refine ⟨?_, ?_, hStacked.apart⟩
  all_goals
    intro row hRow
    rcases Line.mem_spans.mp hRow with ⟨line, hLine, rfl⟩
  · exact (hStacked.placed line hLine).level
  · exact (hStacked.placed line hLine).proper

------------------------------------------------------------
-- Tilings
------------------------------------------------------------

/- A fault is reported where one of some lines starts. -/
def Blamed
    (found : List SyntaxFault)
    (rows : List Span) : Prop :=
  ∃ row ∈ rows, ∃ cause, ⟨cause, row.start⟩ ∈ found

/-
  Parts of a text stand one below the other on some lines:

    * `part`: the first part covers the first lines;
    * `skipped`: the first lines belong to no part, but one of
      them is faulty.
-/
inductive Tiled (found : List SyntaxFault) :
    (rows : List Span) →
    (parts : List Span) →
    Prop
| nil : Tiled found [] []
| part
    {s : Span}
    {here rows parts : List Span}
    (hCovers : s.Covers here)
    (hRest : Tiled found rows parts) :
    Tiled found (here ++ rows) (s :: parts)
| skipped
    {skip rows parts : List Span}
    (hBlamed : Blamed found skip)
    (hRest : Tiled found rows parts) :
    Tiled found (skip ++ rows) parts

namespace Tiled

variable {found more : List SyntaxFault}
variable {rows below parts others : List Span}
variable {s t row : Span}

/- More faults may be reported. -/
theorem mono
    (hTiled : Tiled found rows parts)
    (hMore : found ⊆ more) :
    Tiled more rows parts := by
  induction hTiled with
  | nil => exact .nil
  | part hCovers _ ih => exact .part hCovers ih
  | skipped hBlamed _ ih =>
      rcases hBlamed with ⟨row, hRow, cause, hFault⟩
      exact .skipped ⟨row, hRow, cause, hMore hFault⟩ ih

/- One part alone. -/
theorem single
    (hCovers : s.Covers rows) :
    Tiled found rows [s] := by
  have hPart : Tiled found (rows ++ []) [s] :=
    part hCovers nil
  rwa [List.append_nil] at hPart

/- Each line is a part of its own. -/
theorem refl (rows : List Span) : Tiled found rows rows := by
  induction rows with
  | nil => exact nil
  | cons row rows ih => exact ih.part (.single row)

/- Lines without any part. -/
theorem none
    (hBlamed : Blamed found rows) :
    Tiled found rows [] := by
  have hSkipped : Tiled found (rows ++ []) [] :=
    skipped hBlamed nil
  rwa [List.append_nil] at hSkipped

/- Parts on the lines below follow those above. -/
theorem append
    (hTiled : Tiled found rows parts)
    (hBelow : Tiled found below others) :
    Tiled found (rows ++ below) (parts ++ others) := by
  induction hTiled with
  | nil => exact hBelow
  | part hCovers _ ih =>
      rw [List.append_assoc]
      exact .part hCovers ih
  | skipped hBlamed _ ih =>
      rw [List.append_assoc]
      exact .skipped hBlamed ih

/- Each part covers some of the lines. -/
theorem split
    (hTiled : Tiled found rows (parts ++ s :: others)) :
    ∃ before here after,
      rows = before ++ (here ++ after) ∧
        Tiled found before parts ∧ s.Covers here ∧
          Tiled found after others := by
  generalize hAll : parts ++ s :: others = all at hTiled
  induction hTiled generalizing parts with
  | nil => cases parts <;> cases hAll
  | @part first here rows rest hCovers hRest ih =>
      cases parts with
      | nil =>
          cases hAll
          exact ⟨[], here, rows, rfl, nil, hCovers, hRest⟩
      | cons part parts =>
          cases hAll
          rcases ih rfl with
            ⟨before, there, after, rfl, hBefore, hThere, hAfter⟩
          exact
            ⟨here ++ before, there, after,
              (List.append_assoc _ _ _).symm,
              hBefore.part hCovers, hThere, hAfter⟩
  | @skipped skip rows rest hBlamed hRest ih =>
      rcases ih hAll with
        ⟨before, there, after, rfl, hBefore, hThere, hAfter⟩
      exact
        ⟨skip ++ before, there, after,
          (List.append_assoc _ _ _).symm,
          hBefore.skipped hBlamed, hThere, hAfter⟩

/- Two parts that follow each other may be put together. -/
theorem merge
    (hTiled : Tiled found rows (parts ++ s :: t :: others))
    (hStacked : Span.Stacked rows) :
    Tiled found rows (parts ++ s.merge t :: others) := by
  rcases hTiled.split with
    ⟨before, here, rest, rfl, hBefore, hHere, hRest⟩
  have hNext : Tiled found rest ([] ++ t :: others) := hRest
  rcases hNext.split with
    ⟨middle, there, after, rfl, _, hThere, hAfter⟩
  have hBoth :
      Span.Stacked (here ++ (middle ++ there)) := by
    refine hStacked.right.of_sublist ?_
    exact
      ((List.sublist_append_left _ _).append_left _).append_left
        _
  have hMerged := hHere.merge hThere hBoth
  rw [← List.append_assoc middle, ← List.append_assoc here]
  exact hBefore.append (hAfter.part hMerged)

/- So may all of them. -/
theorem mergeAll
    (hTiled : Tiled found rows (s :: parts))
    (hStacked : Span.Stacked rows) :
    Tiled found rows [s.mergeAll parts] := by
  induction parts generalizing s with
  | nil => exact hTiled
  | cons t parts ih =>
      have hFirst : Tiled found rows ([] ++ s :: t :: parts) :=
        hTiled
      exact ih (hFirst.merge hStacked)

------------------------------------------------------------
-- Parts of a Tiling
------------------------------------------------------------

/- Each part starts no later than it stops. -/
theorem proper
    (hTiled : Tiled found rows parts)
    (hStacked : Span.Stacked rows)
    (hPart : s ∈ parts) :
    s.start ≤ s.stop := by
  rcases List.append_of_mem hPart with ⟨first, last, rfl⟩
  rcases hTiled.split with
    ⟨before, here, after, rfl, _, hHere, _⟩
  exact hHere.proper hStacked.right.left

/- A part that covers some of the lines lies among them. -/
theorem ends
    (hTiled : Tiled found rows parts)
    (hPart : s ∈ parts) :
    (∃ row ∈ rows, s.start = row.start) ∧
      ∃ row ∈ rows, s.stop = row.stop := by
  rcases List.append_of_mem hPart with ⟨first, last, rfl⟩
  rcases hTiled.split with
    ⟨before, here, after, rfl, _, hHere, _⟩
  rcases hHere.ends with ⟨⟨a, ha, hStart⟩, ⟨b, hb, hStop⟩⟩
  exact ⟨⟨a, by simp [ha], hStart⟩, ⟨b, by simp [hb], hStop⟩⟩

/- The parts are one below the other. -/
theorem apart
    (hTiled : Tiled found rows parts)
    (hStacked : Span.Stacked rows) :
    parts.Pairwise Span.Before := by
  induction hTiled with
  | nil => exact .nil
  | @part first here rows parts hCovers hRest ih =>
      refine List.pairwise_cons.mpr ⟨?_, ih hStacked.right⟩
      intro t ht
      rcases hCovers.ends.2 with ⟨a, ha, hStop⟩
      rcases (hRest.ends ht).1 with ⟨b, hb, hStart⟩
      unfold Span.Before
      rw [hStop, hStart]
      exact hStacked.above a ha b hb
  | skipped _ _ ih => exact ih hStacked.right

/- They are in order. -/
theorem inOrder
    (hTiled : Tiled found rows parts)
    (hStacked : Span.Stacked rows) :
    Span.InOrder parts := by
  have hProper : ∀ s ∈ parts, s.start ≤ s.stop :=
    fun s hs => hTiled.proper hStacked hs
  refine (hTiled.apart hStacked).imp_of_mem ?_
  intro s t hs ht hBefore
  exact
    ⟨(hProper s hs).trans hBefore.le,
      hBefore.le.trans (hProper t ht)⟩

/- Each part lies in what all of them cover. -/
theorem within_mergeAll
    (hTiled : Tiled found rows (s :: parts))
    (hStacked : Span.Stacked rows)
    (hPart : t ∈ s :: parts) :
    t.Within (s.mergeAll parts) :=
  (hTiled.inOrder hStacked).mergeAll_within t hPart

/- If nothing is faulty, each line lies in one of the parts. -/
theorem covered
    (hTiled : Tiled [] rows parts)
    (hStacked : Span.Stacked rows)
    (hRow : row ∈ rows) :
    ∃ s ∈ parts, row.Within s := by
  induction hTiled with
  | nil => cases hRow
  | part hCovers _ ih =>
      rcases List.mem_append.mp hRow with hHere | hBelow
      · exact
          ⟨_, List.mem_cons_self,
            hCovers.within hStacked.left hHere⟩
      · rcases ih hStacked.right hBelow with ⟨s, hs, hWithin⟩
        exact ⟨s, List.mem_cons_of_mem _ hs, hWithin⟩
  | skipped hBlamed _ ih =>
      rcases hBlamed with ⟨_, _, _, hNone⟩
      cases hNone

/- Lines without any part are blamed, if there are some. -/
theorem blamed
    (hTiled : Tiled found rows [])
    (hRow : row ∈ rows) :
    Blamed found rows := by
  cases hTiled with
  | nil => cases hRow
  | skipped hBlamed _ =>
      rcases hBlamed with ⟨other, hOther, hFault⟩
      exact ⟨other, List.mem_append_left _ hOther, hFault⟩

/-
  The lines between two parts that follow each other are those
  that belong to no part there.
-/
theorem between
    (hTiled : Tiled found rows (parts ++ s :: t :: others))
    (hStacked : Span.Stacked rows) :
    ∃ middle, Tiled found middle [] ∧
      ∀ row, row ∈ middle ↔
        row ∈ rows ∧ s.stop.line < row.start.line ∧
          row.start.line < t.start.line := by
  rcases hTiled.split with
    ⟨before, here, rest, rfl, _, hHere, hRest⟩
  have hNext : Tiled found rest ([] ++ t :: others) := hRest
  rcases hNext.split with
    ⟨middle, there, after, rfl, hMiddle, hThere, _⟩
  rcases hHere.ends.2 with ⟨a, ha, hStop⟩
  rcases hThere.ends.1 with ⟨b, hb, hStart⟩
  have hLevel := hStacked.level
  have hBelow := hStacked.right.right
  have hLevelA := hLevel a (by simp [ha])
  have hLevelB := hLevel b (by simp [hb])
  refine ⟨middle, hMiddle, fun row => ⟨fun hRow => ?_, ?_⟩⟩
  · have hAfter :=
      (hStacked.right.above a ha row (by simp [hRow])).1
    have hBefore := (hBelow.above row hRow b (by simp [hb])).1
    rw [hStop, hStart, hLevel row (by simp [hRow])]
    exact
      ⟨by simp [hRow], hLevel row (by simp [hRow]) ▸ hAfter,
        hBefore⟩
  · rintro ⟨hRow, hAfter, hBefore⟩
    rw [hStop] at hAfter
    rw [hStart] at hBefore
    have hLevelRow := hLevel row hRow
    rcases List.mem_append.mp hRow with hEarlier | hRow
    · have hAbove :=
        (hStacked.above row hEarlier a (by simp [ha])).1
      omega
    rcases List.mem_append.mp hRow with hFirst | hRow
    · have hWithin := hHere.within hStacked.right.left hFirst
      have hLine := Position.line_le (hStop ▸ hWithin.stop)
      omega
    rcases List.mem_append.mp hRow with hMiddle | hRow
    · exact hMiddle
    rcases List.mem_append.mp hRow with hSecond | hLater
    · have hWithin := hThere.within hBelow.right.left hSecond
      have hLine := Position.line_le (hStart ▸ hWithin.start)
      omega
    · have hAbove := (hBelow.right.above b hb row hLater).1
      omega

/- If there is a line between them, one there is blamed. -/
theorem blamed_between
    (hTiled : Tiled found rows (parts ++ s :: t :: others))
    (hStacked : Span.Stacked rows)
    (hRow : row ∈ rows)
    (hAfter : s.stop.line < row.start.line)
    (hBefore : row.start.line < t.start.line) :
    ∃ other ∈ rows,
      s.stop.line < other.start.line ∧
        other.start.line < t.start.line ∧
          ∃ cause, ⟨cause, other.start⟩ ∈ found := by
  rcases hTiled.between hStacked with ⟨middle, hMiddle, hIff⟩
  have hHere := (hIff row).mpr ⟨hRow, hAfter, hBefore⟩
  rcases hMiddle.blamed hHere with ⟨other, hOther, hFault⟩
  rcases (hIff other).mp hOther with ⟨hAmong, hLines⟩
  exact ⟨other, hAmong, hLines.1, hLines.2, hFault⟩

end Tiled

end Dialectic
