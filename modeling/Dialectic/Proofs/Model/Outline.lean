import Dialectic.Model.Regroup
import Dialectic.Proofs.Data.Sequence

/-
  Plans that are set up give an outline: they are listed in
  preorder, each with its depth.  The sections that are added
  are those of the outline, in its order.  No tree is needed
  to tell which entry another one is in: it is the last one
  before it that is one level up.

  Key definitions include:
    * `SectionPlan.preorder`
    * `Outline.enclosing?`
    * `Outline.sections`
    * `Outline.places`

  Main theorems:
    * `Outline.enclosing_child`
    * `Outline.enclosing_none`
    * `Regrouping.addSections_eq`
-/

namespace Dialectic

------------------------------------------------------------
-- Outlines
------------------------------------------------------------

/- The entries of an outline: plans, and how deep they are. -/
abbrev Outline := List (Nat × SectionPlan)

namespace SectionPlan

mutual

/- A plan and those in it, in preorder. -/
def preorder (depth : Nat) : SectionPlan → Outline
| ⟨title, statements, arguments, tags, isClosed, children⟩ =>
    (depth,
        ⟨title, statements, arguments, tags, isClosed, children⟩)
      :: preorderOf (depth + 1) children

/- Some plans and those in them, in preorder. -/
def preorderOf (depth : Nat) : List SectionPlan → Outline
| [] => []
| plan :: plans => plan.preorder depth ++ preorderOf depth plans

end

mutual

/- No plan within another one is less deep. -/
theorem le_depth
    {depth : Nat}
    {e : Nat × SectionPlan} :
    (plan : SectionPlan) →
      e ∈ plan.preorder depth → depth ≤ e.1
| ⟨_, _, _, _, _, children⟩, hMem => by
    rw [preorder, List.mem_cons] at hMem
    rcases hMem with hHere | hChild
    · exact Nat.le_of_eq (congrArg Prod.fst hHere).symm
    · exact Nat.le_of_succ_le (le_depthOf children hChild)

/- No plan within some plans is less deep. -/
theorem le_depthOf
    {depth : Nat}
    {e : Nat × SectionPlan} :
    (plans : List SectionPlan) →
      e ∈ preorderOf depth plans → depth ≤ e.1
| [], hMem => absurd hMem List.not_mem_nil
| plan :: plans, hMem =>
    (List.mem_append.mp hMem).elim
      (le_depth plan) (le_depthOf plans)

end

end SectionPlan

namespace Outline

variable {before more : Outline}

/- The last entry that is one level up from a depth. -/
def enclosing? (entries : Outline) (depth : Nat) :
    Option Nat :=
  Sequence.lastIndex? (fun e => e.1 + 1 == depth) entries

/- Nothing encloses the first entry. -/
theorem enclosing?_nil (depth : Nat) :
    enclosing? [] depth = none :=
  rfl

/- An entry encloses the one that comes next, one level down. -/
theorem enclosing?_concat
    (before : Outline)
    (depth : Nat)
    (plan : SectionPlan) :
    enclosing? (before ++ [(depth, plan)]) (depth + 1) =
      some before.length := by
  unfold enclosing?
  rw [Sequence.lastIndex?_append]
  simp

/- Entries that are no less deep do not enclose. -/
theorem enclosing?_append
    {depth : Nat}
    (hDeep : ∀ e ∈ more, depth ≤ e.1) :
    enclosing? (before ++ more) depth =
      enclosing? before depth := by
  unfold enclosing?
  induction more generalizing before with
  | nil => rw [List.append_nil]
  | cons e more ih =>
      have hHere := hDeep e List.mem_cons_self
      have hApart : ¬ (e.1 + 1 == depth) = true := by
        simp only [beq_iff_eq]
        omega
      rw [List.append_cons,
        ih (fun f hf => hDeep f (List.mem_cons_of_mem e hf)),
        Sequence.lastIndex?_append, if_neg hApart]

------------------------------------------------------------
-- Enclosing Entries
------------------------------------------------------------

/-
  An entry that comes after some others either is the next one
  of those plans, at the same depth, or it is in an entry that
  encloses it and lists its plan as a child.
-/
def Hangs
    (before : Outline)
    (depth : Nat)
    (plans : List SectionPlan)
    (entries : Outline) : Prop :=
  ∀ (i : Nat) (e : Nat × SectionPlan), entries[i]? = some e →
    (e.1 = depth ∧ e.2 ∈ plans ∧
      enclosing? (before ++ entries.take i) e.1 =
        enclosing? before depth) ∨
      ∃ p q,
        enclosing? (before ++ entries.take i) e.1 = some p ∧
          (before ++ entries.take i)[p]? = some q ∧
          e.1 = q.1 + 1 ∧ e.2 ∈ q.2.children

/- Entries hang on each other one after the other. -/
theorem Hangs.append
    {depth : Nat}
    {plan : SectionPlan}
    {plans : List SectionPlan}
    {entries rest : Outline}
    (hDeep : ∀ e ∈ entries, depth ≤ e.1)
    (hFirst : Hangs before depth [plan] entries)
    (hRest : Hangs (before ++ entries) depth plans rest) :
    Hangs before depth (plan :: plans) (entries ++ rest) := by
  intro i e hHere
  by_cases hEarly : i < entries.length
  · rw [List.getElem?_append_left hEarly] at hHere
    rw [List.take_append_of_le_length (Nat.le_of_lt hEarly)]
    refine (hFirst i e hHere).imp ?_ id
    rintro ⟨hDepth, hPlan, hEnclosing⟩
    rw [List.mem_singleton] at hPlan
    exact ⟨hDepth, by simp [hPlan], hEnclosing⟩
  · have hLate : entries.length ≤ i := Nat.not_lt.mp hEarly
    rw [List.getElem?_append_right hLate] at hHere
    rw [List.take_append, List.take_of_length_le hLate,
      ← List.append_assoc]
    refine (hRest _ e hHere).imp ?_ id
    rintro ⟨hDepth, hPlan, hEnclosing⟩
    rw [enclosing?_append hDeep] at hEnclosing
    exact ⟨hDepth, List.mem_cons_of_mem plan hPlan, hEnclosing⟩

mutual

/- A plan and those in it hang on what comes before. -/
theorem hangs_preorder
    (before : Outline)
    (depth : Nat) :
    (plan : SectionPlan) →
      Hangs before depth [plan] (plan.preorder depth)
| ⟨title, statements, arguments, tags, isClosed, children⟩ => by
    let plan : SectionPlan :=
      ⟨title, statements, arguments, tags, isClosed, children⟩
    have hChildren :=
      hangs_preorderOf (before ++ [(depth, plan)]) (depth + 1)
        children
    intro i e hHere
    cases i with
    | zero =>
        cases hHere
        refine Or.inl ⟨rfl, List.mem_singleton_self _, ?_⟩
        rw [List.take_zero, List.append_nil]
    | succ i =>
        -- within the plan, what it is in comes before
        right
        rw [SectionPlan.preorder, List.getElem?_cons_succ]
          at hHere
        rw [SectionPlan.preorder, List.take_succ_cons,
          List.append_cons]
        rcases hChildren i e hHere with
          ⟨hDepth, hChild, hEnclosing⟩ | hInside
        · refine
            ⟨before.length, (depth, plan), ?_, ?_, hDepth,
              hChild⟩
          · rw [hEnclosing, enclosing?_concat]
          · simp [plan]
        · exact hInside

/- Some plans and those in them hang on what comes before. -/
theorem hangs_preorderOf
    (before : Outline)
    (depth : Nat) :
    (plans : List SectionPlan) →
      Hangs before depth plans
        (SectionPlan.preorderOf depth plans)
| [] => by
    intro i e hHere
    cases hHere
| plan :: plans =>
    (hangs_preorder before depth plan).append
      (fun _ => plan.le_depth)
      (hangs_preorderOf (before ++ plan.preorder depth) depth
        plans)

end

/- An entry that nothing encloses is an outermost plan. -/
theorem enclosing_none
    {plans : List SectionPlan}
    {i : Nat}
    {e : Nat × SectionPlan}
    (hHere :
      (SectionPlan.preorderOf 1 plans)[i]? = some e)
    (hNone :
      enclosing? ((SectionPlan.preorderOf 1 plans).take i) e.1 =
        none) :
    e.1 = 1 ∧ e.2 ∈ plans := by
  rcases hangs_preorderOf [] 1 plans i e hHere with
    ⟨hDepth, hPlan, _⟩ | ⟨p, _, hFound, _⟩
  · exact ⟨hDepth, hPlan⟩
  · rw [List.nil_append, hNone] at hFound
    cases hFound

/-
  The entry that encloses another one comes before it, is one
  level up, and has the other one's plan as a child.
-/
theorem enclosing_child
    {plans : List SectionPlan}
    {i p : Nat}
    {e : Nat × SectionPlan}
    (hHere :
      (SectionPlan.preorderOf 1 plans)[i]? = some e)
    (hSome :
      enclosing? ((SectionPlan.preorderOf 1 plans).take i) e.1 =
        some p) :
    p < i ∧
      ∃ q, (SectionPlan.preorderOf 1 plans)[p]? = some q ∧
        e.1 = q.1 + 1 ∧ e.2 ∈ q.2.children := by
  rcases hangs_preorderOf [] 1 plans i e hHere with
    ⟨_, _, hOutermost⟩ |
      ⟨r, q, hFound, hThere, hDepth, hChild⟩
  · rw [List.nil_append, hSome, enclosing?_nil] at hOutermost
    cases hOutermost
  · rw [List.nil_append, hSome] at hFound
    cases hFound
    rw [List.nil_append, List.getElem?_take] at hThere
    by_cases hBefore : p < i
    · rw [if_pos hBefore] at hThere
      exact ⟨hBefore, q, hThere, hDepth, hChild⟩
    · rw [if_neg hBefore] at hThere
      cases hThere

------------------------------------------------------------
-- Sections
------------------------------------------------------------

/- The section of an entry after some others. -/
def sectionOf
    (before : Outline)
    (e : Nat × SectionPlan) : Section :=
  ⟨before.length, e.2.title, e.1, enclosing? before e.1, [],
    Regrouping.planData e.2.isClosed, Span.origin⟩

/-
  The sections of an outline: the id of each is its place, and
  its parent is the entry that encloses it.
-/
def sections (entries : Outline) : List Section :=
  entries.mapIdx (fun i e => sectionOf (entries.take i) e)

/- The sections of an outline when one entry is added. -/
theorem sections_concat
    (before : Outline)
    (e : Nat × SectionPlan) :
    (before ++ [e]).sections =
      before.sections ++ [sectionOf before e] := by
  unfold sections
  rw [List.mapIdx_concat, List.take_left]
  congr 1
  apply List.mapIdx_eq_mapIdx_iff.mpr
  intro i hi
  rw [List.take_append_of_le_length (Nat.le_of_lt hi)]

/- Each entry has a section. -/
theorem length_sections (entries : Outline) :
    entries.sections.length = entries.length :=
  List.length_mapIdx

/- The plans of entries, with the ids of their sections. -/
def places (first : Nat) (entries : Outline) :
    Regrouping.Placements :=
  entries.mapIdx (fun i e => (first + i, e.2))

/- The places of an entry and of those after it. -/
theorem places_cons
    (first : Nat)
    (e : Nat × SectionPlan)
    (entries : Outline) :
    places first (e :: entries) =
      (first, e.2) :: places (first + 1) entries := by
  unfold places
  rw [List.mapIdx_cons, Nat.add_zero]
  congr 2
  funext i f
  rw [Nat.add_assoc, Nat.add_comm i]

/- The places of entries that come one after the other. -/
theorem places_append
    (first : Nat)
    (entries rest : Outline) :
    places first (entries ++ rest) =
      places first entries
        ++ places (first + entries.length) rest := by
  unfold places
  rw [List.mapIdx_append]
  congr 2
  funext i e
  rw [Nat.add_assoc, Nat.add_comm i]

end Outline

------------------------------------------------------------
-- Added Sections
------------------------------------------------------------

namespace Regrouping

/- A model with the sections of an outline. -/
def outlined (m : Model) (entries : Outline) : Model :=
  { m with sections := entries.sections }

/- Adding the section of an entry continues an outline. -/
theorem addSection_outlined
    (m : Model)
    (before : Outline)
    (depth : Nat)
    (plan : SectionPlan) :
    (outlined m before).addSection plan.title depth
        (before.enclosing? depth) [] (planData plan.isClosed)
        Span.origin =
      outlined m (before ++ [(depth, plan)]) := by
  unfold outlined
  rw [Outline.sections_concat]
  unfold Model.addSection Model.nextSection
  simp only [Outline.length_sections]
  rfl

mutual

/- Setting up a plan continues an outline with its preorder. -/
theorem addSection_eq
    (m : Model)
    (before : Outline)
    (depth : Nat) :
    (plan : SectionPlan) →
      addSection (outlined m before) (before.enclosing? depth)
          depth plan =
        (outlined m (before ++ plan.preorder depth),
          Outline.places before.length (plan.preorder depth))
| ⟨title, statements, arguments, tags, isClosed, children⟩ => by
    let plan : SectionPlan :=
      ⟨title, statements, arguments, tags, isClosed, children⟩
    have hAdded := addSection_outlined m before depth plan
    have hNext :
        (outlined m before).nextSection = before.length :=
      Outline.length_sections before
    have hChildren :=
      addSections_eq m (before ++ [(depth, plan)]) (depth + 1)
        children
    rw [Outline.enclosing?_concat, List.length_append,
      List.length_singleton, ← List.append_cons] at hChildren
    unfold addSection
    simp only
    rw [hAdded, hNext, hChildren, SectionPlan.preorder,
      Outline.places_cons]

/- Setting up plans continues an outline with their preorder. -/
theorem addSections_eq
    (m : Model)
    (before : Outline)
    (depth : Nat) :
    (plans : List SectionPlan) →
      addSections (outlined m before) (before.enclosing? depth)
          depth plans =
        (outlined m
            (before ++ SectionPlan.preorderOf depth plans),
          Outline.places before.length
            (SectionPlan.preorderOf depth plans))
| [] => by
    rw [SectionPlan.preorderOf, List.append_nil]
    rfl
| plan :: plans => by
    have hRest :=
      addSections_eq m (before ++ plan.preorder depth) depth
        plans
    rw [Outline.enclosing?_append (fun _ => plan.le_depth)]
      at hRest
    unfold addSections
    simp only
    rw [addSection_eq m before depth plan, hRest,
      SectionPlan.preorderOf, Outline.places_append,
      List.append_assoc, List.length_append]

end

end Regrouping

end Dialectic
