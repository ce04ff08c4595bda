import Dialectic.Proofs.Model.Completeness

/-
  What each step of building a model keeps holds when the
  whole document has been read.  What only headings change
  holds as long as there is none.

  Key definitions include:
    * `Builder.Steady`
    * `Builder.Kept`

  Main theorems:
    * `Builder.Steady.addRelationTrees`
    * `Builder.Steady.addSteps`
    * `Builder.Steady.addElement`
    * `Builder.Kept.addBlock`
    * `Builder.Kept.addBlocks`
-/

namespace Dialectic

namespace Builder

------------------------------------------------------------
-- Steps
------------------------------------------------------------

/-
  Each step that adds an element keeps a property.  Elements
  are only related when they are there, and an argument only
  gets steps whose classes are.
-/
structure Steady
    (withoutTags : Bool)
    (p : Builder → Prop) : Prop where
  statement : ∀ {b} entry role,
    p b → p (addStatement withoutTags b entry role).1
  argument : ∀ {b} entry,
    p b → p (addArgument withoutTags b entry).1
  relate : ∀ {b} {parent target} marker occurrence,
    b.model.contains parent = true →
      b.model.contains target = true →
        p b → p (b.relate parent target marker occurrence)
  steps : ∀ {b} title {steps},
    (∀ s ∈ steps,
      b.model.contains (.statement s.title) = true) →
        p b → p (b.withSteps title steps)
  conflict : ∀ {b} title,
    p b → p (b.report (.conflictingReconstruction title))

/- Each step that builds a model keeps a property. -/
structure Kept
    (withoutTags : Bool)
    (p : Builder → Prop) : Prop extends
    Steady withoutTags p where
  heading : ∀ {b} heading, p b → p (b.openSection heading)

namespace Steady

variable {withoutTags : Bool} {p : Builder → Prop}

------------------------------------------------------------
-- Relations
------------------------------------------------------------

/- Adding an occurrence keeps the property. -/
theorem addEntry
    (hSteady : Steady withoutTags p)
    {b : Builder}
    (hHolds : p b)
    (entry : Entry)
    (role : StatementRole) :
    p (Builder.addEntry withoutTags b entry role).1 := by
  cases entry with
  | statement entry => exact hSteady.statement entry role hHolds
  | argument entry => exact hSteady.argument entry hHolds

/- Adding a relation line keeps the property. -/
theorem addLine
    (hSteady : Steady withoutTags p)
    {b : Builder}
    (hHolds : p b)
    {parent : Element}
    (hParent : b.model.contains parent = true)
    (occurrence : Option Nat)
    (marker : Marker)
    (entry : Entry) :
    p (Builder.addLine withoutTags b parent occurrence marker
      entry) := by
  have hEntry :=
    @addEntry_grows [] withoutTags b entry .relationTarget
  exact
    hSteady.relate marker _
      (hEntry.extends_model.contains hParent)
      (addEntry_contains withoutTags b entry .relationTarget)
      (hSteady.addEntry hHolds entry .relationTarget)

mutual

/- Adding a relation line and those below keeps it. -/
theorem addRelationTree
    (hSteady : Steady withoutTags p)
    {b : Builder}
    (hHolds : p b)
    {parent : Element}
    (hParent : b.model.contains parent = true)
    (occurrence : Option Nat) :
    (tree : RelationEntry) →
      p (Builder.addRelationTree withoutTags b parent
        occurrence tree)
| ⟨marker, entry, children, _⟩ =>
    addRelationTrees hSteady
      (hSteady.addLine hHolds hParent occurrence marker entry)
      (addLine_contains withoutTags b parent occurrence marker
        entry)
      _ children

/- Adding relation lines keeps the property. -/
theorem addRelationTrees
    (hSteady : Steady withoutTags p)
    {b : Builder}
    (hHolds : p b)
    {parent : Element}
    (hParent : b.model.contains parent = true)
    (occurrence : Option Nat) :
    (trees : List RelationEntry) →
      p (Builder.addRelationTrees withoutTags b parent
        occurrence trees)
| [] => hHolds
| tree :: trees =>
    have hTree :=
      @addRelationTree_grows [] withoutTags b parent
        occurrence tree
    addRelationTrees hSteady
      (addRelationTree hSteady hHolds hParent occurrence tree)
      (hTree.extends_model.contains hParent)
      occurrence trees

end

------------------------------------------------------------
-- Premise-Conclusion Structures
------------------------------------------------------------

/- Adding a step keeps the property. -/
theorem addStep
    (hSteady : Steady withoutTags p)
    {b : Builder}
    (hHolds : p b)
    (title : String)
    (given : RoledEntry) :
    p (Builder.addStep withoutTags title b given).1 :=
  hSteady.addRelationTrees
    (hSteady.statement given.entry.statement
      (given.role.inArgument title given.entry.number) hHolds)
    (addEntry_contains withoutTags b
      (.statement given.entry.statement)
      (given.role.inArgument title given.entry.number))
    _ given.entry.relations

/- The class of a step is there after the step. -/
theorem addStep_contains
    (withoutTags : Bool)
    (title : String)
    (b : Builder)
    (given : RoledEntry) :
    (Builder.addStep withoutTags title b given).1.model.contains
      (.statement
        (Builder.addStep withoutTags title b given).2.title) =
        true := by
  have hThere :=
    addEntry_contains withoutTags b
      (.statement given.entry.statement)
      (given.role.inArgument title given.entry.number)
  have hLater :=
    @addRelationTrees_grows [] withoutTags
      (Builder.addEntry withoutTags b
        (.statement given.entry.statement)
        (given.role.inArgument title given.entry.number)).1
      (Builder.addEntry withoutTags b
        (.statement given.entry.statement)
        (given.role.inArgument title given.entry.number)).2.1
      (Builder.addEntry withoutTags b
        (.statement given.entry.statement)
        (given.role.inArgument title given.entry.number)).2.2
      given.entry.relations
  exact hLater.extends_model.contains hThere

/- Adding steps keeps the property. -/
theorem addSteps
    (hSteady : Steady withoutTags p)
    {b : Builder}
    (hHolds : p b)
    (title : String)
    (given : List RoledEntry) :
    p (Builder.addSteps withoutTags title b given).1 := by
  induction given generalizing b with
  | nil => exact hHolds
  | cons first rest ih =>
      exact ih (hSteady.addStep hHolds title first)

/- The classes of all steps are there after them. -/
theorem addSteps_contains
    (withoutTags : Bool)
    (title : String)
    (b : Builder)
    (given : List RoledEntry) :
    ∀ s ∈ (Builder.addSteps withoutTags title b given).2,
      (Builder.addSteps withoutTags title b
        given).1.model.contains (.statement s.title) = true := by
  induction given generalizing b with
  | nil => exact fun s hs => absurd hs List.not_mem_nil
  | cons first rest ih =>
      intro s hs
      have hRest :=
        @addSteps_grows [] withoutTags title
          (Builder.addStep withoutTags title b first).1 rest
      rcases List.mem_cons.mp hs with hFirst | hLater
      · rw [hFirst]
        exact
          hRest.extends_model.contains
            (addStep_contains withoutTags title b first)
      · exact ih _ s hLater

/- Adding a structure keeps the property. -/
theorem addReconstruction
    (hSteady : Steady withoutTags p)
    {b : Builder}
    (hHolds : p b)
    (title : String)
    (r : Reconstruction) :
    p (Builder.addReconstruction withoutTags b title r) := by
  rcases addReconstruction_cases withoutTags b title r with
    ⟨_, hAdded⟩ | ⟨_, _, hSame⟩ | hFault
  · rw [hAdded]
    exact
      hSteady.steps title
        (addSteps_contains withoutTags title b (roles r))
        (hSteady.addSteps hHolds title (roles r))
  · rw [hSame]
    exact hHolds
  · rw [hFault]
    exact hSteady.conflict title hHolds

/- The elements are still there after a structure. -/
theorem addReconstruction_contains
    {b : Builder}
    {element : Element}
    (hElement : b.model.contains element = true)
    (title : String)
    (r : Reconstruction) :
    (Builder.addReconstruction withoutTags b title
      r).model.contains element = true := by
  have hSteps :=
    @addSteps_grows [] withoutTags title b (roles r)
  rcases addReconstruction_cases withoutTags b title r with
    ⟨_, hAdded⟩ | ⟨_, _, hSame⟩ | hFault
  · rw [hAdded]
    have hKnown :
        Grows [title] []
          (Builder.addSteps withoutTags title b (roles r)).1
          ((Builder.addSteps withoutTags title b
            (roles r)).1.withSteps title
              (Builder.addSteps withoutTags title b
                (roles r)).2) :=
      withSteps_grows
        (fun hNot => absurd (List.mem_singleton_self _) hNot)
    exact
      hKnown.extends_model.contains
        (hSteps.extends_model.contains hElement)
  · rw [hSame]
    exact hElement
  · rw [hFault]
    exact hElement

------------------------------------------------------------
-- Blocks
------------------------------------------------------------

/- Adding an element with all below it keeps the property. -/
theorem addElement
    (hSteady : Steady withoutTags p)
    {b : Builder}
    (hHolds : p b)
    (block : ElementBlock) :
    p (Builder.addBlock withoutTags b (.element block)) := by
  have hEntry := hSteady.addEntry hHolds block.element .top
  have hThere :=
    addEntry_contains withoutTags b block.element .top
  have hStructure :
      p (addStructure withoutTags
          (Builder.addEntry withoutTags b block.element .top).1
          (Builder.addEntry withoutTags b block.element
            .top).2.1
          block.reconstruction) ∧
        (addStructure withoutTags
          (Builder.addEntry withoutTags b block.element .top).1
          (Builder.addEntry withoutTags b block.element
            .top).2.1
          block.reconstruction).model.contains
          (Builder.addEntry withoutTags b block.element
            .top).2.1 = true := by
    unfold addStructure
    split
    · next title r hArgument _ =>
        rw [hArgument] at hThere
        rw [hArgument]
        exact
          ⟨hSteady.addReconstruction hEntry title r,
            addReconstruction_contains hThere title r⟩
    · exact ⟨hEntry, hThere⟩
  rw [addBlock_element]
  exact hSteady.addRelationTrees hStructure.1 hStructure.2 _ _

end Steady

namespace Kept

variable {withoutTags : Bool} {p : Builder → Prop}

/- Adding a block keeps the property. -/
theorem addBlock
    (hKept : Kept withoutTags p)
    {b : Builder}
    (hHolds : p b)
    (block : Block) :
    p (Builder.addBlock withoutTags b block) := by
  cases block with
  | heading heading => exact hKept.heading heading hHolds
  | element block => exact hKept.addElement hHolds block

/- Adding all blocks keeps the property. -/
theorem addBlocks
    (hKept : Kept withoutTags p)
    {b : Builder}
    (hHolds : p b)
    (blocks : List Block) :
    p (blocks.foldl (Builder.addBlock withoutTags) b) := by
  induction blocks generalizing b with
  | nil => exact hHolds
  | cons block blocks ih =>
      exact ih (hKept.addBlock hHolds block)

end Kept

end Builder

end Dialectic
