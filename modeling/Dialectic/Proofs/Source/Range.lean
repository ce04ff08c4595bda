import Dialectic.Proofs.Source.Walking
import Mathlib.Order.Basic

/-
  The order of places in a text, and parts of a text that lie
  in other parts.

  Key definitions include:
    * `Span.Within`
    * `Span.InOrder`

  Main theorems:
    * `Position.le_advanceBy`
    * `Position.max_eq_right`
    * `Span.InOrder.mergeAll_within`
-/

namespace Dialectic

namespace Position

------------------------------------------------------------
-- Order
------------------------------------------------------------

/-
  A place comes no later than another one, by lines and columns
  as well as by bytes.
-/
instance : LE Position :=
  ⟨fun p q =>
    (p.line < q.line ∨ p.line = q.line ∧ p.column ≤ q.column) ∧
      p.offset ≤ q.offset⟩

instance (p q : Position) : Decidable (p ≤ q) :=
  inferInstanceAs (Decidable (_ ∧ _))

/- Lines count first, then columns; offsets agree with them. -/
theorem le_iff {p q : Position} :
    p ≤ q ↔
      (p.line < q.line ∨
          p.line = q.line ∧ p.column ≤ q.column) ∧
        p.offset ≤ q.offset :=
  Iff.rfl

/- Places come one after the other. -/
instance : Preorder Position where
  le_refl _ := ⟨.inr ⟨rfl, Nat.le_refl _⟩, Nat.le_refl _⟩
  le_trans p q r hFirst hSecond := by
    rw [le_iff] at *
    omega

/- What comes no later is on no later line. -/
theorem line_le
    {p q : Position}
    (hLe : p ≤ q) :
    p.line ≤ q.line := by
  rw [le_iff] at hLe
  omega

/- Walking leads to no earlier place. -/
theorem le_advanceBy (p : Position) (cs : List Char) :
    p ≤ p.advanceBy cs := by
  induction cs generalizing p with
  | nil => exact le_rfl
  | cons c cs ih =>
      have hStep : p ≤ p.advance c := by
        unfold advance
        split
        · exact ⟨.inl (Nat.lt_succ_self _), Nat.le_add_right _ _⟩
        · exact
            ⟨.inr ⟨rfl, Nat.le_succ _⟩, Nat.le_add_right _ _⟩
      exact hStep.trans (ih (p.advance c))

/- What comes no later does not come after. -/
theorem before_eq_false
    {p q : Position}
    (hLe : p ≤ q) :
    q.before p = false := by
  rw [le_iff] at hLe
  unfold before
  split
  · split <;> exact decide_eq_false (by omega)
  · exact decide_eq_false (by omega)

/- Of two places in order, the first one is the earlier. -/
theorem min_eq_left
    {p q : Position}
    (hLe : p ≤ q) :
    p.min q = p := by
  rw [min, before_eq_false hLe]
  rfl

/- Of two places in order, the second one is the later. -/
theorem max_eq_right
    {p q : Position}
    (hLe : p ≤ q) :
    p.max q = q := by
  unfold max
  split
  · rfl
  · next hNot =>
      -- neither comes before the other, so they are the same
      rw [le_iff] at hLe
      unfold before at hNot
      rcases p with ⟨line, column, offset⟩
      rcases q with ⟨line', column', offset'⟩
      grind

end Position

namespace Span

------------------------------------------------------------
-- Parts
------------------------------------------------------------

/- A part of a text lies in another one. -/
structure Within (s t : Span) : Prop where
  start : t.start ≤ s.start
  stop : s.stop ≤ t.stop

instance (s t : Span) : Decidable (s.Within t) :=
  decidable_of_iff
    (t.start ≤ s.start ∧ s.stop ≤ t.stop)
    ⟨fun hBoth => ⟨hBoth.1, hBoth.2⟩,
      fun hWithin => ⟨hWithin.start, hWithin.stop⟩⟩

/- A part lies in itself. -/
@[refl]
theorem Within.refl (s : Span) : s.Within s :=
  ⟨le_rfl, le_rfl⟩

/- Parts lie in each other. -/
theorem Within.trans
    {s t u : Span}
    (hInner : s.Within t)
    (hOuter : t.Within u) :
    s.Within u :=
  ⟨hOuter.start.trans hInner.start,
    hInner.stop.trans hOuter.stop⟩

------------------------------------------------------------
-- Parts in Order
------------------------------------------------------------

/- Parts that start and stop one no later than the other. -/
def InOrder (ts : List Span) : Prop :=
  ts.Pairwise
    (fun s t => s.start ≤ t.start ∧ s.stop ≤ t.stop)

variable {s t : Span} {ts : List Span}

/- Two parts in order cover from one start to the other stop. -/
theorem merge_eq
    (hStart : s.start ≤ t.start)
    (hStop : s.stop ≤ t.stop) :
    s.merge t = ⟨s.start, t.stop⟩ := by
  rw [merge, Position.min_eq_left hStart,
    Position.max_eq_right hStop]

/-
  What is covered by the first two of some parts in order, and
  the other ones.
-/
theorem InOrder.merge
    (hOrder : InOrder (s :: t :: ts)) :
    s.merge t = ⟨s.start, t.stop⟩ ∧
      InOrder (s.merge t :: ts) := by
  rcases List.pairwise_cons.mp hOrder with ⟨hFirst, hRest⟩
  rcases List.pairwise_cons.mp hRest with ⟨hSecond, hLater⟩
  have hHere := hFirst t List.mem_cons_self
  have hMerged := merge_eq hHere.1 hHere.2
  refine ⟨hMerged, List.pairwise_cons.mpr ⟨?_, hLater⟩⟩
  intro u hu
  rw [hMerged]
  exact
    ⟨(hFirst u (List.mem_cons_of_mem t hu)).1,
      (hSecond u hu).2⟩

/- Parts in order cover from where the first one starts. -/
theorem InOrder.mergeAll_start
    (hOrder : InOrder (s :: ts)) :
    (s.mergeAll ts).start = s.start := by
  induction ts generalizing s with
  | nil => rfl
  | cons t ts ih =>
      rcases hOrder.merge with ⟨hMerged, hLater⟩
      rw [mergeAll, List.foldl_cons]
      exact (ih hLater).trans (by rw [hMerged])

/- Each of some parts in order lies in what they cover. -/
theorem InOrder.mergeAll_within
    (hOrder : InOrder (s :: ts)) :
    ∀ t ∈ s :: ts, t.Within (s.mergeAll ts) := by
  induction ts generalizing s with
  | nil =>
      intro t ht
      rw [List.mem_singleton.mp ht]
      exact .refl s
  | cons t ts ih =>
      rcases hOrder.merge with ⟨hMerged, hLater⟩
      have hHere :=
        (List.pairwise_cons.mp hOrder).1 t List.mem_cons_self
      have hBoth := ih hLater _ List.mem_cons_self
      rw [mergeAll, List.foldl_cons]
      intro u hu
      rcases List.mem_cons.mp hu with rfl | hu
      · refine .trans ⟨?_, ?_⟩ hBoth <;> rw [hMerged]
        exact hHere.2
      · rcases List.mem_cons.mp hu with rfl | hu
        · refine .trans ⟨?_, ?_⟩ hBoth <;> rw [hMerged]
          exact hHere.1
        · exact ih hLater u (List.mem_cons_of_mem _ hu)

/- The place where the first one starts adds nothing. -/
theorem mergeAll_start_cons
    (hProper : s.start ≤ s.stop) :
    mergeAll ⟨s.start, s.start⟩ (s :: ts) = s.mergeAll ts := by
  have hFirst : merge ⟨s.start, s.start⟩ s = s :=
    merge_eq (Preorder.le_refl s.start) hProper
  rw [mergeAll, List.foldl_cons, hFirst]
  rfl

end Span

end Dialectic
