import Dialectic.Proofs.Document.Titles
import Dialectic.Proofs.Model.Appearance
import Dialectic.Proofs.Model.Completeness
import Dialectic.Proofs.Model.Marks

/-
  The history of a builder: the occurrences of a document that
  it has recorded, one after the other.  What holds when one of
  them is recorded holds for a document by induction on it.

  Key definitions include:
    * `Builder.Records`
    * `Builder.Done`

  Main theorems:
    * `Builder.addStructure_records`
    * `Builder.addBlock_records`
    * `Builder.addBlocks_records`
    * `Model.build_recorded`
    * `Model.build_places`
-/

namespace Dialectic

namespace Builder

variable {withoutTags : Bool}
variable {b c d : Builder} {es fs : List Entry}

------------------------------------------------------------
-- Occurrences That Are Recorded
------------------------------------------------------------

/-
  Some occurrences have been recorded, one after the other, with
  changes in between that leave places, marks and numbers.
-/
inductive Records (withoutTags : Bool) :
    List Entry → Builder → Builder → Prop
| same
    {b c : Builder}
    (hPlaces : Model.SamePlaces b.model c.model)
    (hMarks : Model.SameMarks b.model c.model)
    (hNumbering : c.numbering = b.numbering) :
    Records withoutTags [] b c
| statement
    (b : Builder)
    (entry : StatementEntry)
    (role : StatementRole) :
    Records withoutTags [.statement entry] b
      (addStatement withoutTags b entry role).1
| argument
    (b : Builder)
    (entry : ArgumentEntry) :
    Records withoutTags [.argument entry] b
      (addArgument withoutTags b entry).1
| trans
    {b c d : Builder}
    {es fs : List Entry}
    (hFirst : Records withoutTags es b c)
    (hSecond : Records withoutTags fs c d) :
    Records withoutTags (es ++ fs) b d

/- What is recorded is placed and numbered. -/
theorem Records.adds
    (hRecords : Records withoutTags es b c) :
    Adds es b c := by
  induction hRecords with
  | same hPlaces _ hNumbering =>
      exact .of_same hPlaces hNumbering
  | statement b entry role =>
      exact addStatement_adds withoutTags b entry role
  | argument b entry =>
      exact addArgument_adds withoutTags b entry
  | trans _ _ ihFirst ihSecond => exact ihFirst.trans ihSecond

/- Nothing is recorded by doing nothing. -/
theorem Records.refl (b : Builder) :
    Records withoutTags [] b b :=
  .same (.refl _) (.refl _) rfl

/- An element is recorded. -/
theorem addEntry_records
    (b : Builder)
    (entry : Entry)
    (role : StatementRole) :
    Records withoutTags [entry] b
      (addEntry withoutTags b entry role).1 := by
  cases entry with
  | statement entry => exact .statement b entry role
  | argument entry => exact .argument b entry

/- What changes links only records nothing. -/
theorem Records.of_elements
    (hSame : Model.SameElements b.model c.model)
    (hNumbering : c.numbering = b.numbering) :
    Records withoutTags [] b c :=
  .same hSame.places hSame.marks hNumbering

/- Relating two elements records nothing. -/
theorem relate_records
    (b : Builder)
    (parent target : Element)
    (marker : Marker)
    (occurrence : Option Nat) :
    Records withoutTags [] b
      (b.relate parent target marker occurrence) := by
  rcases relate_elements b parent target marker occurrence with
    ⟨hElements, hStatements, hArguments⟩
  refine .of_elements hElements ?_
  rw [numbering, hStatements, hArguments]
  rfl

mutual

/- The elements of a relation line are recorded in order. -/
theorem addRelationTree_records
    (b : Builder)
    (parent : Element)
    (occurrence : Option Nat) :
    (tree : RelationEntry) →
      Records withoutTags tree.entries b
        (addRelationTree withoutTags b parent occurrence tree)
| ⟨_, entry, children, _⟩ =>
    ((addEntry_records b entry .relationTarget).trans
      (relate_records _ _ _ _ _)).trans
        (addRelationTrees_records _ _ _ children)

/- The elements of relation lines are recorded in order. -/
theorem addRelationTrees_records
    (b : Builder)
    (parent : Element)
    (occurrence : Option Nat) :
    (trees : List RelationEntry) →
      Records withoutTags (RelationEntry.entriesOf trees) b
        (addRelationTrees withoutTags b parent occurrence trees)
| [] => .refl b
| tree :: trees =>
    (addRelationTree_records b parent occurrence tree).trans
      (addRelationTrees_records _ parent occurrence trees)

end

/- The elements of numbered statements are recorded in order. -/
theorem addSteps_records
    (argument : String)
    (b : Builder)
    (steps : List RoledEntry) :
    Records withoutTags
      ((steps.map RoledEntry.entry).flatMap
        NumberedEntry.entries)
      b
      (addSteps withoutTags argument b steps).1 := by
  induction steps generalizing b with
  | nil => exact .refl b
  | cons step steps ih =>
      have hFirst :
          Records withoutTags step.entry.entries b
            (addStep withoutTags argument b step).1 :=
        (Records.statement b _ _).trans
          (addRelationTrees_records _ _ _ _)
      exact hFirst.trans (ih _)

/- Knowing the steps of an argument records nothing. -/
theorem withSteps_records
    (b : Builder)
    (title : String)
    (steps : List Step) :
    Records withoutTags [] b (b.withSteps title steps) :=
  .of_elements (Model.withSteps_elements b.model title steps) rfl

------------------------------------------------------------
-- Structures and Blocks
------------------------------------------------------------

/- The arguments that have got their numbered statements. -/
def Done (b : Builder) (done : List String) : Prop :=
  ∀ title, b.model.stepsOf title ≠ [] ↔ title ∈ done

/- At first, no argument has got any. -/
theorem Done.empty : Builder.empty.Done [] := by
  intro title
  simp [Model.stepsOf, Model.argument?_eq, Builder.empty,
    Model.empty, Sequence.lastWith]

/- What keeps the steps of all arguments keeps who has some. -/
theorem Done.of_same
    {done : List String}
    (hDone : b.Done done)
    (hSteps : ∀ title,
      c.model.stepsOf title = b.model.stepsOf title) :
    c.Done done := by
  intro title
  rw [hSteps]
  exact hDone title

/- The steps of an argument that has none are added. -/
theorem addReconstruction_first
    (withoutTags : Bool)
    {b : Builder}
    {title : String}
    (hNone : b.model.stepsOf title = [])
    (r : Reconstruction) :
    addReconstruction withoutTags b title r =
      (addSteps withoutTags title b (roles r)).1.withSteps title
        (addSteps withoutTags title b (roles r)).2 := by
  have hFirst : (b.model.stepsOf title).isEmpty = true :=
    List.isEmpty_iff.mpr hNone
  unfold addReconstruction
  exact if_pos hFirst

/-
  The numbered statements of a structure are recorded if they
  are the first ones of an argument.
-/
theorem addReconstruction_records
    (withoutTags : Bool)
    {done : List String}
    {title : String}
    (r : Reconstruction)
    (hThere : b.model.contains (.argument title) = true)
    (hDone : b.Done done) :
    let given := reconstructs r.statements (.argument title)
    Records withoutTags
        (if given.any (fun title => !done.contains title) then
          r.statements.flatMap NumberedEntry.entries
        else [])
        b (addReconstruction withoutTags b title r) ∧
      (addReconstruction withoutTags b title r).Done
        (done ++ given) := by
  intro given
  by_cases hNone : b.model.stepsOf title = []
  · have hNew : title ∉ done := fun hOld =>
      (hDone title).mpr hOld hNone
    have hTakes :=
      firstReconstruction_takes withoutTags hThere hNone (r := r)
    rw [addReconstruction_first withoutTags hNone]
    constructor
    · have hSteps :=
        (@addSteps_records withoutTags title b (roles r)).trans
          (withSteps_records _ title
            (addSteps withoutTags title b (roles r)).2)
      rw [roles_entries, List.append_nil] at hSteps
      have hAll :
          (if given.any (fun title => !done.contains title) then
            r.statements.flatMap NumberedEntry.entries
          else []) =
            r.statements.flatMap NumberedEntry.entries := by
        cases hStatements : r.statements <;>
          simp [given, reconstructs, hStatements, hNew]
      rw [hAll]
      exact hSteps
    · intro other
      by_cases hHere : other ∈ given
      · simp [hHere, hTakes.steps other hHere]
      · rw [hTakes.grows.extends_model.steps other hHere,
          hDone, List.mem_append, or_iff_left hHere]
  · have hOld : ∀ other ∈ given, other ∈ done := by
      intro other hOther
      rw [(mem_reconstructs.mp hOther).1]
      exact (hDone title).mp hNone
    have hNo :
        given.any (fun title => !done.contains title) =
          false := by
      simpa using hOld
    have hSame : ∀ other, other ∈ done ++ given ↔
        other ∈ done := fun other => by
      rw [List.mem_append, or_iff_left_of_imp (hOld other)]
    simp only [hNo, Done, hSame]
    rcases addReconstruction_cases withoutTags b title r with
      ⟨hFirst, _⟩ | ⟨_, _, hNothing⟩ | hFault
    · exact (hNone hFirst).elim
    · rw [hNothing]
      exact ⟨.refl b, hDone⟩
    · rw [hFault]
      exact
        ⟨.same (.refl _) (.refl _) rfl,
          hDone.of_same (fun _ => rfl)⟩

/- A structure that is not below an argument is left out. -/
theorem addStructure_records
    (withoutTags : Bool)
    {done : List String}
    {element : Element}
    (reconstruction : Option Reconstruction)
    (hThere : b.model.contains element = true)
    (hDone : b.Done done) :
    let given := reconstructs (stepsIn reconstruction) element
    Records withoutTags
        (if given.any (fun title => !done.contains title) then
          (stepsIn reconstruction).flatMap NumberedEntry.entries
        else [])
        b (addStructure withoutTags b element reconstruction) ∧
      (addStructure withoutTags b element
        reconstruction).Done (done ++ given) := by
  have hNothing : ∀ given, given = [] →
      Records withoutTags
          (if given.any (fun title => !done.contains title) then
            (stepsIn reconstruction).flatMap NumberedEntry.entries
          else [])
          b b ∧
        b.Done (done ++ given) := by
    rintro _ rfl
    rw [List.append_nil]
    exact ⟨.refl b, hDone⟩
  cases element with
  | statement title => exact hNothing _ rfl
  | argument title =>
      cases reconstruction with
      | none => exact hNothing _ rfl
      | some r =>
          exact
            addReconstruction_records withoutTags r hThere hDone

/- A block is recorded but for such numbered statements. -/
theorem addBlock_records
    (withoutTags : Bool)
    {done : List String}
    (hDone : b.Done done)
    (block : Block) :
    Records withoutTags (block.recorded b.numbering done) b
        (addBlock withoutTags b block) ∧
      (addBlock withoutTags b block).Done
        (done ++ block.reconstructed b.untitledArguments) := by
  cases block with
  | heading heading =>
      refine
        ⟨.same (.of_eq rfl rfl rfl) (.of_eq rfl rfl) rfl, ?_⟩
      rw [Block.reconstructed, List.append_nil]
      exact hDone.of_same (fun _ => rfl)
  | element block =>
      have hSteps :=
        @addEntry_grows [] withoutTags b block.element .top
      have hKept :
          (addEntry withoutTags b block.element .top).1.Done
            done :=
        hDone.of_same (fun title =>
          hSteps.extends_model.steps title List.not_mem_nil)
      have hStructure :=
        addStructure_records withoutTags block.reconstruction
          (addEntry_contains withoutTags b block.element .top)
          hKept
      have hGiven :
          reconstructs (stepsIn block.reconstruction)
              (addEntry withoutTags b block.element .top).2.1 =
            (Block.element block).reconstructed
              b.untitledArguments :=
        (reconstructed_element withoutTags b block).symm
      simp only [hGiven] at hStructure
      rw [addBlock_element]
      constructor
      · exact
          (addEntry_records b block.element .top).trans
            (hStructure.1.trans
              (addRelationTrees_records _ _ _ block.relations))
      · refine hStructure.2.of_same (fun title => ?_)
        have hTrees :=
          @addRelationTrees_grows [] withoutTags
            (addStructure withoutTags
              (addEntry withoutTags b block.element .top).1
              (addEntry withoutTags b block.element .top).2.1
              block.reconstruction)
            (addEntry withoutTags b block.element .top).2.1
            (addEntry withoutTags b block.element .top).2.2
            block.relations
        exact hTrees.extends_model.steps title List.not_mem_nil

/- So are all blocks of a document. -/
theorem addBlocks_records
    (withoutTags : Bool)
    {done : List String}
    (hDone : b.Done done)
    (blocks : List Block) :
    Records withoutTags (recordedAfter b.numbering done blocks) b
      (blocks.foldl (addBlock withoutTags) b) := by
  induction blocks generalizing b done with
  | nil => exact .refl b
  | cons block blocks ih =>
      rcases addBlock_records withoutTags hDone block with
        ⟨hFirst, hNext⟩
      have hRest := ih hNext
      rw [hFirst.adds.numbering] at hRest
      exact hFirst.trans hRest

end Builder

namespace Model

------------------------------------------------------------
-- Models of Documents
------------------------------------------------------------

/- All that is recorded of a document is in its model. -/
theorem build_recorded
    (withoutTags : Bool)
    (d : Document) :
    ∃ b,
      Builder.Records withoutTags d.recorded Builder.empty b ∧
        (build withoutTags d).1 = b.model :=
  ⟨_, Builder.addBlocks_records withoutTags Builder.Done.empty
      d.blocks,
    build_model withoutTags d⟩

/- The model of a document places what is recorded of it. -/
theorem build_places_recorded
    (withoutTags : Bool)
    (d : Document) :
    (build withoutTags d).1.Places
      (appearancesAfter ⟨0, 0⟩ d.recorded) := by
  rcases build_recorded withoutTags d with
    ⟨b, hRecords, hModel⟩
  have hNothing : Builder.empty.model.Places [] :=
    ⟨rfl, fun _ hTitle => (by cases hTitle), fun _ => rfl⟩
  rw [hModel]
  exact hRecords.adds.places [] hNothing

/-
  The model of a document places its elements where they appear
  if numbered statements stand below arguments only, and below
  no two occurrences of one.
-/
theorem build_places
    (withoutTags : Bool)
    {d : Document}
    (hOnce : d.EachReconstructedOnce) :
    (build withoutTags d).1.Places d.appearances := by
  have hPlaces := build_places_recorded withoutTags d
  rwa [Document.recorded_eq hOnce] at hPlaces

end Model

end Dialectic
