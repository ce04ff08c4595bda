import Dialectic.Color.Assignment
import Dialectic.Model.Builder
import Dialectic.Model.Derive
import Dialectic.Model.Explode
import Dialectic.Model.Regroup
import Dialectic.Proofs.Model.Growth
import Dialectic.Proofs.Model.Sections
import Dialectic.Selection.Choice

/-
  The sections of a model are ordered when it has been built,
  and whatever completes or changes it keeps them so.

  Key definitions include:
    * `Builder.SameSections`
    * `Builder.Ordered`

  Main theorems:
    * `Builder.addReconstruction_cases`
    * `Builder.addBlock_ordered`
    * `Model.build_ordered`
    * `Model.explode_sections`
    * `Model.derive_sections`
    * `Model.regroup_ordered`
-/

namespace Dialectic

namespace Builder

variable {b : Builder}

------------------------------------------------------------
-- Elements and Relations
------------------------------------------------------------

/- Sections and open sections are the same. -/
structure SameSections (b c : Builder) : Prop where
  sections : c.model.sections = b.model.sections
  openSections : c.openSections = b.openSections

/- Nothing changes nothing. -/
theorem SameSections.refl (b : Builder) : SameSections b b :=
  ⟨rfl, rfl⟩

/- What two steps leave, they leave one after the other. -/
theorem SameSections.trans
    {b c d : Builder}
    (hFirst : SameSections b c)
    (hSecond : SameSections c d) :
    SameSections b d :=
  ⟨hSecond.sections.trans hFirst.sections,
    hSecond.openSections.trans hFirst.openSections⟩

/- Adding a statement leaves the sections. -/
theorem addStatement_same
    (withoutTags : Bool)
    (b : Builder)
    (entry : StatementEntry)
    (role : StatementRole) :
    SameSections b
      (addStatement withoutTags b entry role).1 := by
  refine ⟨?_, rfl⟩
  unfold addStatement
  simp only
  split <;> simp

/- Adding an argument leaves the sections. -/
theorem addArgument_same
    (withoutTags : Bool)
    (b : Builder)
    (entry : ArgumentEntry) :
    SameSections b (addArgument withoutTags b entry).1 := by
  refine ⟨?_, rfl⟩
  unfold addArgument
  simp only
  split <;> simp

/- Adding an element leaves the sections. -/
theorem addEntry_same
    (withoutTags : Bool)
    (b : Builder)
    (entry : Entry)
    (role : StatementRole) :
    SameSections b (addEntry withoutTags b entry role).1 := by
  cases entry with
  | statement entry =>
      exact addStatement_same withoutTags b entry role
  | argument entry => exact addArgument_same withoutTags b entry

/- Relating two elements leaves the sections. -/
theorem relate_same
    (b : Builder)
    (parent target : Element)
    (marker : Marker)
    (occurrence : Option Nat) :
    SameSections b (b.relate parent target marker occurrence) := by
  unfold relate
  split
  · exact ⟨rfl, rfl⟩
  · cases RelationKind.ofMarker? marker with
    | some kind => exact ⟨by simp, rfl⟩
    | none =>
        cases parent <;> cases target <;>
          simp [equate, report] <;> constructor <;> simp

mutual

/- Adding a relation line leaves the sections. -/
theorem addRelationTree_same
    (withoutTags : Bool)
    (b : Builder)
    (parent : Element)
    (occurrence : Option Nat) :
    (tree : RelationEntry) →
      SameSections b
        (addRelationTree withoutTags b parent occurrence tree)
| ⟨_, entry, children, _⟩ =>
    ((addEntry_same withoutTags b entry _).trans
      (relate_same _ _ _ _ _)).trans
        (addRelationTrees_same withoutTags _ _ _ children)

/- Adding relation lines leaves the sections. -/
theorem addRelationTrees_same
    (withoutTags : Bool)
    (b : Builder)
    (parent : Element)
    (occurrence : Option Nat) :
    (trees : List RelationEntry) →
      SameSections b
        (addRelationTrees withoutTags b parent occurrence trees)
| [] => SameSections.refl b
| tree :: trees =>
    (addRelationTree_same withoutTags b parent occurrence
      tree).trans
        (addRelationTrees_same withoutTags _ parent occurrence
          trees)

end

------------------------------------------------------------
-- Premise-Conclusion Structures
------------------------------------------------------------

/- Adding a step leaves the sections. -/
theorem addStep_same
    (withoutTags : Bool)
    (argument : String)
    (b : Builder)
    (given : RoledEntry) :
    SameSections b
      (addStep withoutTags argument b given).1 :=
  (addStatement_same withoutTags b _ _).trans
    (addRelationTrees_same withoutTags _ _ _ _)

/- Adding steps leaves the sections. -/
theorem addSteps_same
    (withoutTags : Bool)
    (argument : String)
    (b : Builder)
    (given : List RoledEntry) :
    SameSections b
      (addSteps withoutTags argument b given).1 := by
  induction given generalizing b with
  | nil => exact SameSections.refl b
  | cons first rest ih =>
      exact (addStep_same withoutTags argument b first).trans
        (ih _)

/- A structure repeats the steps that there are. -/
def repeatsSteps (steps : List Step) (given : List RoledEntry) :
    Bool :=
  decide (steps.length = given.length)
    && (steps.zip given).all (fun p => repeats p.1 p.2)

/-
  A first structure adds its steps, one that repeats them adds
  nothing, and any other one is a fault.
-/
theorem addReconstruction_cases
    (withoutTags : Bool)
    (b : Builder)
    (argument : String)
    (r : Reconstruction) :
    (b.model.stepsOf argument = [] ∧
        addReconstruction withoutTags b argument r =
          (addSteps withoutTags argument b (roles r)).1.withSteps
            argument
            (addSteps withoutTags argument b (roles r)).2) ∨
      (b.model.stepsOf argument ≠ [] ∧
        repeatsSteps (b.model.stepsOf argument) (roles r) = true ∧
        addReconstruction withoutTags b argument r = b) ∨
      addReconstruction withoutTags b argument r =
        b.report (.conflictingReconstruction argument) := by
  have hUnfold :
      addReconstruction withoutTags b argument r =
        if (b.model.stepsOf argument).isEmpty then
          (addSteps withoutTags argument b (roles r)).1.withSteps
            argument
            (addSteps withoutTags argument b (roles r)).2
        else if
            repeatsSteps (b.model.stepsOf argument)
              (roles r) then
          b
        else
          b.report (.conflictingReconstruction argument) := rfl
  rw [hUnfold]
  by_cases hFirst : (b.model.stepsOf argument).isEmpty = true
  · left
    rw [if_pos hFirst]
    exact ⟨List.isEmpty_iff.mp hFirst, rfl⟩
  · right
    rw [if_neg hFirst]
    by_cases hRepeats :
        repeatsSteps (b.model.stepsOf argument) (roles r) = true
    · left
      rw [if_pos hRepeats]
      exact
        ⟨fun hEmpty => hFirst (List.isEmpty_iff.mpr hEmpty),
          hRepeats, rfl⟩
    · right
      rw [if_neg hRepeats]

/- Adding a structure leaves the sections. -/
theorem addReconstruction_same
    (withoutTags : Bool)
    (b : Builder)
    (argument : String)
    (r : Reconstruction) :
    SameSections b
      (addReconstruction withoutTags b argument r) := by
  have hSteps :=
    addSteps_same withoutTags argument b (roles r)
  rcases addReconstruction_cases withoutTags b argument r with
    ⟨_, hAdded⟩ | ⟨_, _, hSame⟩ | hFault
  · rw [hAdded]
    exact
      ⟨by simpa [withSteps] using hSteps.sections,
        hSteps.openSections⟩
  · rw [hSame]
    exact SameSections.refl b
  · rw [hFault]
    exact ⟨rfl, rfl⟩

------------------------------------------------------------
-- Blocks
------------------------------------------------------------

/- The sections are ordered, and the open ones are known. -/
structure Ordered (b : Builder) : Prop where
  sections : SectionsOrdered b.model.sections
  known : ∀ id ∈ b.openSections, id < b.model.sections.length

/- What leaves the sections leaves them ordered. -/
theorem Ordered.of_same
    {b c : Builder}
    (hOrdered : b.Ordered)
    (hSame : SameSections b c) :
    c.Ordered := by
  constructor
  · rw [hSame.sections]
    exact hOrdered.sections
  · rw [hSame.sections, hSame.openSections]
    exact hOrdered.known

/- A heading opens a section behind those that it is in. -/
theorem openSection_ordered
    (hOrdered : b.Ordered)
    (heading : Heading) :
    (b.openSection heading).Ordered := by
  have hEnclosing : ∀ id ∈ b.openSections.dropWhile
      (fun id => !encloses b.model heading.level id),
      id < b.model.sections.length := fun id hId =>
    hOrdered.known id
      ((List.dropWhile_sublist _).subset hId)
  constructor
  · apply Model.addSection_ordered hOrdered.sections
    intro p hParent
    exact hEnclosing p (List.mem_of_head? hParent)
  · intro id hId
    have hLength :
        (b.openSection heading).model.sections.length =
          b.model.sections.length + 1 := by
      simp [openSection, Model.addSection_sections]
    rw [hLength]
    rcases List.mem_cons.mp hId with hNew | hOld
    · rw [hNew]
      exact Nat.lt_succ_self _
    · exact Nat.lt_succ_of_lt (hEnclosing id hOld)

/- Each block keeps the sections ordered. -/
theorem addBlock_ordered
    (withoutTags : Bool)
    (hOrdered : b.Ordered)
    (block : Block) :
    (addBlock withoutTags b block).Ordered := by
  cases block with
  | heading heading => exact openSection_ordered hOrdered heading
  | element block =>
      have hEntry :=
        hOrdered.of_same
          (addEntry_same withoutTags b block.element .top)
      unfold addBlock
      simp only
      refine Ordered.of_same ?_
        (addRelationTrees_same withoutTags _ _ _ _)
      split
      · exact hEntry.of_same
          (addReconstruction_same withoutTags _ _ _)
      · exact hEntry

/- Checking equivalences leaves the model. -/
theorem checkEquivalences_model (b : Builder) :
    b.checkEquivalences.model = b.model := by
  have hAll : ∀ (pairs : List (String × String))
      (c : Builder),
      (pairs.foldl checkEquivalence c).model = c.model := by
    intro pairs
    induction pairs with
    | nil => exact fun _ => rfl
    | cons pair pairs ih =>
        intro c
        rw [List.foldl_cons, ih]
        unfold checkEquivalence
        cases conflict? c.model pair.1 pair.2 <;> rfl
  exact hAll b.equivalences b

end Builder

namespace Model

------------------------------------------------------------
-- Models of Documents
------------------------------------------------------------

/- The model of a document is what its blocks add up to. -/
theorem build_model
    (withoutTags : Bool)
    (d : Document) :
    (build withoutTags d).1 =
      (d.blocks.foldl (Builder.addBlock withoutTags)
        Builder.empty).model :=
  Builder.checkEquivalences_model _

/- The sections of a model that has been built are ordered. -/
theorem build_ordered
    (withoutTags : Bool)
    (document : Document) :
    SectionsOrdered
      (build withoutTags document).1.sections := by
  have hBlocks : ∀ (blocks : List Block) {b : Builder},
      b.Ordered →
        (blocks.foldl (Builder.addBlock withoutTags)
          b).Ordered := by
    intro blocks
    induction blocks with
    | nil => exact fun hOrdered => hOrdered
    | cons block blocks ih =>
        intro b hOrdered
        exact
          ih (Builder.addBlock_ordered withoutTags hOrdered
            block)
  have hEmpty : Builder.empty.Ordered :=
    ⟨sectionsOrdered_nil, by simp [Builder.empty]⟩
  rw [build_model]
  exact (hBlocks document.blocks hEmpty).sections

------------------------------------------------------------
-- Completed Models
------------------------------------------------------------

/- Marking premises leaves the sections. -/
theorem markPremises_sections
    (m : Model)
    (steps : List Step) :
    (Explosion.markPremises m steps).sections =
      m.sections := by
  unfold Explosion.markPremises
  induction steps.filter (fun s => s.role == .premise)
      generalizing m with
  | nil => rfl
  | cons step steps ih =>
      rw [List.foldl_cons, ih, modifyClass_sections]

/- Adding one part of an argument leaves the sections. -/
theorem withPart_sections
    (m : Model)
    (origin : Argument)
    (current : String)
    (steps : List Step) :
    (Explosion.withPart m origin current steps).sections =
      m.sections := by
  rw [Explosion.withPart, modifyArgument_sections,
    ensureArgument_sections, markPremises_sections]

/- Adding the parts of an argument leaves the sections. -/
theorem addParts_sections
    (origin : Argument)
    (previous : Option String)
    (number : Nat)
    (m : Model)
    (parts : List (List Step)) :
    (Explosion.addParts origin previous number m
      parts).sections = m.sections := by
  induction parts generalizing previous number m with
  | nil => rfl
  | cons steps parts ih =>
      unfold Explosion.addParts
      simp only
      rw [ih]
      cases previous <;>
        simp [Explosion.link, withPart_sections]

/- Splitting arguments leaves the sections. -/
theorem explode_sections (m : Model) :
    m.explode.1.sections = m.sections := by
  have hAll : ∀ (titles : List String) (m : Model),
      (titles.foldl Explosion.split m).sections =
        m.sections := by
    intro titles
    induction titles with
    | nil => exact fun _ => rfl
    | cons title titles ih =>
        intro m
        rw [List.foldl_cons, ih]
        unfold Explosion.split
        cases m.argument? title with
        | none => rfl
        | some a => exact addParts_sections _ _ _ _ _
  exact hAll _ m

/- Deriving relations leaves the sections. -/
theorem derive_sections
    (m : Model)
    (policy : ConflictPolicy) :
    (m.derive policy).1.sections = m.sections := by
  have hAll : ∀ (candidates : List Derivation.Candidate)
      (state : Model × Derivation.Counts),
      (candidates.foldl (Derivation.consider policy)
        state).1.sections = state.1.sections := by
    intro candidates
    induction candidates with
    | nil => exact fun _ => rfl
    | cons c candidates ih =>
        intro state
        rw [List.foldl_cons, ih]
        unfold Derivation.consider
        simp only
        repeat' split
        all_goals simp
  exact hAll _ (m, Derivation.Counts.zero)

mutual

/- The section of a plan, and those in it, are ordered. -/
theorem regroupingSection_ordered
    {m : Model}
    (hOrdered : SectionsOrdered m.sections)
    {parent : Option Nat}
    (hParent : ∀ p, parent = some p → p < m.sections.length)
    (level : Nat) :
    (plan : SectionPlan) →
      SectionsOrdered
          (Regrouping.addSection m parent level
            plan).1.sections ∧
        m.sections.length ≤
          (Regrouping.addSection m parent level
            plan).1.sections.length
| ⟨title, statements, arguments, tags, isClosed, children⟩ => by
    have hAdded :=
      addSection_ordered hOrdered hParent title level []
        (Regrouping.planData isClosed) Span.origin
    have hLength :
        (m.addSection title level parent []
            (Regrouping.planData isClosed)
            Span.origin).sections.length =
          m.sections.length + 1 := by
      simp [addSection_sections]
    have hInside : ∀ p, some m.nextSection = some p →
        p < (m.addSection title level parent []
          (Regrouping.planData isClosed)
          Span.origin).sections.length := by
      intro p hSame
      rw [← Option.some.inj hSame, hLength]
      exact Nat.lt_succ_self _
    have hChildren :=
      regroupingSections_ordered hAdded hInside (level + 1)
        children
    refine ⟨hChildren.1, Nat.le_trans ?_ hChildren.2⟩
    omega

/- The sections of some plans are ordered. -/
theorem regroupingSections_ordered
    {m : Model}
    (hOrdered : SectionsOrdered m.sections)
    {parent : Option Nat}
    (hParent : ∀ p, parent = some p → p < m.sections.length)
    (level : Nat) :
    (plans : List SectionPlan) →
      SectionsOrdered
          (Regrouping.addSections m parent level
            plans).1.sections ∧
        m.sections.length ≤
          (Regrouping.addSections m parent level
            plans).1.sections.length
| [] => ⟨hOrdered, Nat.le_refl _⟩
| plan :: plans => by
    have hFirst :=
      regroupingSection_ordered hOrdered hParent level plan
    have hRest :=
      regroupingSections_ordered hFirst.1
        (fun p hSame =>
          Nat.lt_of_lt_of_le (hParent p hSame) hFirst.2)
        level plans
    unfold Regrouping.addSections
    exact ⟨hRest.1, Nat.le_trans hFirst.2 hRest.2⟩

end

/- What one step leaves, any number of steps leave. -/
theorem foldl_kept
    {α β : Type}
    (part : Model → β)
    {f : Model → α → Model}
    (hKeep : ∀ m a, part (f m a) = part m)
    (as : List α)
    (m : Model) :
    part (as.foldl f m) = part m := by
  induction as generalizing m with
  | nil => rfl
  | cons a as ih => rw [List.foldl_cons, ih, hKeep]

/- Whatever leaves the sections may be done many times. -/
theorem foldl_sections
    {α : Type}
    {f : Model → α → Model}
    (hKeep : ∀ m a, (f m a).sections = m.sections)
    (as : List α)
    (m : Model) :
    (as.foldl f m).sections = m.sections :=
  foldl_kept Model.sections hKeep as m

/- Putting a class into a section leaves the sections. -/
theorem placeStatement_sections
    (id : Nat)
    (m : Model)
    (title : String) :
    (Regrouping.placeStatement id m title).sections =
      m.sections := by
  unfold Regrouping.placeStatement
  cases m.class? title with
  | none => rfl
  | some c =>
      simp only
      split
      · rw [foldl_sections (fun m s => modifyStatement_sections m s _),
          modifyClass_sections]
      · rfl

/- Putting an argument into a section leaves the sections. -/
theorem placeArgument_sections
    (id : Nat)
    (m : Model)
    (title : String) :
    (Regrouping.placeArgument id m title).sections =
      m.sections :=
  modifyArgument_sections m title _

/- Placing listed elements leaves the sections. -/
theorem placeListed_sections
    (m : Model)
    (place : Nat × SectionPlan) :
    (Regrouping.placeListed m place).sections =
      m.sections := by
  unfold Regrouping.placeListed
  simp only
  rw [foldl_sections (placeArgument_sections place.1),
    foldl_sections (placeStatement_sections place.1)]

/- Placing elements by their tags leaves the sections. -/
theorem placeTagged_sections
    (m : Model)
    (place : Nat × SectionPlan) :
    (Regrouping.placeTagged m place).sections =
      m.sections := by
  unfold Regrouping.placeTagged
  simp only
  rw [foldl_sections (fun m t => modifyArgument_sections m t _),
    foldl_sections (placeStatement_sections place.1)]

/- Sections that replace those of a model are ordered. -/
theorem regroup_ordered
    (m : Model)
    (plans : List SectionPlan) :
    SectionsOrdered (m.regroup plans).1.sections := by
  have hCleared : SectionsOrdered m.clearSections.sections :=
    sectionsOrdered_nil
  have hOutermost : ∀ p, (none : Option Nat) = some p →
      p < m.clearSections.sections.length := by
    intro p hSame
    cases hSame
  have hAdded :=
    regroupingSections_ordered hCleared hOutermost 1 plans
  unfold regroup
  simp only
  rw [foldl_sections placeTagged_sections,
    foldl_sections placeListed_sections]
  exact hAdded.1

end Model

end Dialectic
