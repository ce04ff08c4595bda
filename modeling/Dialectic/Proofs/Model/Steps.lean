import Dialectic.Proofs.Document.WellFormed
import Dialectic.Proofs.Model.Completeness
import Dialectic.Proofs.Model.Inferences
import Dialectic.Proofs.Model.Links

/-
  The steps of arguments and the statements that play a part in
  them.  When a structure is added, there is one statement for
  each step, and no other one gets a part; an argument keeps
  the steps of the first structure that it is given.

  Key definitions include:
    * `Model.played`
    * `Document.Structured`
    * `Builder.Plays`
    * `Model.Stepped`

  Main theorems:
    * `Document.read_structured`
    * `Builder.completed_roles`
    * `Builder.addSteps_plays`
    * `Builder.addBlock_stepped`
    * `Model.build_stepped`
    * `Model.build_completed`
-/

namespace Dialectic

------------------------------------------------------------
-- Parts in Arguments
------------------------------------------------------------

/- A role is that of a step of an argument. -/
def StatementRole.isStep : StatementRole → Bool
| .top => false
| .premise _ _ => true
| .conclusion _ _ => true
| .intermediaryConclusion _ _ => true
| .relationTarget => false

/- The role of a step is that of a step. -/
theorem StepRole.inArgument_isStep
    (role : StepRole)
    (argument : String)
    (number : Nat) :
    (role.inArgument argument number).isStep = true := by
  cases role <;> rfl

/- Steps of the same role are the same step. -/
theorem StepRole.inArgument_inj
    {role other : StepRole}
    {argument title : String}
    {number n : Nat} :
    role.inArgument argument number =
        other.inArgument title n ↔
      role = other ∧ argument = title ∧ number = n := by
  cases role <;> cases other <;> simp [inArgument]

/- The title of a statement and the part that it plays. -/
def Statement.part (s : Statement) :
    String × StatementRole :=
  (s.title, s.role)

/- The part that the statement of a step plays. -/
def Step.part (argument : String) (s : Step) :
    String × StatementRole :=
  (s.title, s.role.inArgument argument s.number)

/- The parts that statements play as steps of arguments. -/
def Model.played (m : Model) :
    List (String × StatementRole) :=
  (m.statements.map Statement.part).filter (·.2.isStep)

namespace Model

/- Declaring a relation leaves the parts of statements. -/
theorem addRelation_parts
    (m : Model)
    (source target : Element)
    (kind : RelationKind)
    (origin : Origin)
    (occurrence : Option Nat) :
    (m.addRelation source target kind origin
        occurrence).1.statements.map Statement.part =
      m.statements.map Statement.part := by
  have hOccurrence : ∀ (k : Model) (id : Nat),
      (k.linkOccurrence occurrence id).statements.map
          Statement.part =
        k.statements.map Statement.part := by
    intro k id
    cases occurrence with
    | none => rfl
    | some o =>
        apply Sequence.map_modify
        exact fun _ => rfl
  unfold addRelation
  cases m.findRelation? source target kind with
  | some id => exact hOccurrence _ id
  | none =>
      rw [hOccurrence]
      simp [appendRelation]

/-
  The statements that play a part are those of the steps of
  arguments, and the steps of an argument, if it has some,
  satisfy `q`.
-/
structure Stepped (q : List Step → Prop) (m : Model) :
    Prop where
  played : ∀ p, p ∈ m.played ↔
    ∃ argument, ∃ s ∈ m.stepsOf argument, p = s.part argument
  formed : ∀ argument,
    m.stepsOf argument = [] ∨ q (m.stepsOf argument)

end Model

------------------------------------------------------------
-- Structures That Are Read
------------------------------------------------------------

/- All premise-conclusion structures are well formed. -/
def Document.Structured (d : Document) : Prop :=
  ∀ (block : ElementBlock) (r : Reconstruction),
    .element block ∈ d.blocks →
      block.reconstruction = some r → r.WellFormed

/- The structures of a document that is read are well formed. -/
theorem Document.read_structured [YamlReader] (input : String) :
    (read input).document.Structured := by
  refine
    read_returns (P := Document.Structured) ?_
      (fun _ _ hNone => by cases hNone)
  refine
    Parser.returns_bind (Parser.returns_any _)
      (fun front _ => ?_)
  have hBlocks :
      Parser.Returns
        (Parser.blocks .recover (Lexer.lex input).lines)
        (fun found => ∀ block ∈ found, block.WellFormed) :=
    Parser.returns_bind
      (Parser.pieces_sound _ (Lexer.lex_sound input))
      (fun _ hFound =>
        Parser.returns_pure (Parser.assemble_wellFormed hFound))
  refine
    Parser.returns_bind hBlocks
      (fun _ hFound => Parser.returns_pure ?_)
  intro block r hBlock hStructure
  exact ((hFound _ hBlock).structured r hStructure).2

namespace Builder

/-
  The last statement of a structure that ends with an inference
  and a statement is the main conclusion, and no other one is.
-/
theorem completed_rolesAfter
    (rule : Option (Option String))
    (before : List ReconstructionItem)
    (inference : InferenceEntry)
    (last : NumberedEntry) :
    ∃ roles,
      (rolesAfter rule
          (before
            ++ [.inference inference,
              .statement last])).map RoledEntry.role =
        roles ++ [.mainConclusion] ∧
      .mainConclusion ∉ roles := by
  induction before generalizing rule with
  | nil => exact ⟨[], by cases rule <;> rfl, by simp⟩
  | cons item before ih =>
      cases item with
      | inference i =>
          rcases ih (some i.rule) with ⟨roles, hRoles, hOnly⟩
          exact ⟨roles, by cases rule <;> exact hRoles, hOnly⟩
      | statement entry =>
          rcases ih none with ⟨roles, hRoles, hOnly⟩
          cases rule with
          | none =>
              refine ⟨.premise :: roles, ?_, by simp [hOnly]⟩
              exact congrArg (StepRole.premise :: ·) hRoles
          | some rule =>
              refine
                ⟨.intermediaryConclusion :: roles, ?_,
                  by simp [hOnly]⟩
              simp only [List.cons_append, rolesAfter,
                List.map_cons]
              rw [hRoles]
              simp [ReconstructionItem.isInference]

/- The steps of a well-formed structure are completed. -/
theorem completed_roles
    {r : Reconstruction}
    (hWellFormed : r.WellFormed)
    {steps : List Step}
    (hRoles :
      steps.map Step.role = (roles r).map RoledEntry.role) :
    Explosion.Completed steps := by
  rcases hWellFormed.conclusion with
    ⟨before, inference, last, hItems⟩
  rcases completed_rolesAfter none before inference last with
    ⟨roles, hCompleted, hOnly⟩
  refine ⟨roles, ?_, hOnly⟩
  rw [hRoles, Builder.roles, hItems, hCompleted]

------------------------------------------------------------
-- Played Parts
------------------------------------------------------------

/-
  Some statements get parts, one after the other, while the
  steps of all arguments stay the same.
-/
structure Plays
    (parts : List (String × StatementRole))
    (b c : Builder) : Prop where
  steps : ∀ title,
    c.model.stepsOf title = b.model.stepsOf title
  played : c.model.played = b.model.played ++ parts

variable (withoutTags : Bool) {b c d : Builder}

/- What grows by some statements plays their parts. -/
theorem Plays.of_grows
    {es : List Entry}
    (added : List (String × StatementRole))
    (hGrows : Grows [] es b c)
    (hParts :
      c.model.statements.map Statement.part =
        b.model.statements.map Statement.part ++ added) :
    Plays (added.filter (·.2.isStep)) b c := by
  refine
    ⟨fun title =>
      hGrows.extends_model.steps title List.not_mem_nil, ?_⟩
  rw [Model.played, hParts, List.filter_append]
  rfl

/- Parts are played one after the other. -/
theorem Plays.trans
    {ps qs : List (String × StatementRole)}
    (hFirst : Plays ps b c)
    (hSecond : Plays qs c d) :
    Plays (ps ++ qs) b d :=
  ⟨fun title =>
      (hSecond.steps title).trans (hFirst.steps title),
    by rw [hSecond.played, hFirst.played, List.append_assoc]⟩

/- The statement of an occurrence gets its role. -/
theorem addStatement_plays
    (b : Builder)
    (entry : StatementEntry)
    (role : StatementRole) :
    Plays
      ([((addStatement withoutTags b entry role).2.1,
          role)].filter (·.2.isStep))
      b (addStatement withoutTags b entry role).1 := by
  refine
    .of_grows [(_, role)]
      (addStatement_grows withoutTags b entry role) ?_
  cases hTitle : entry.title <;>
    simp [addStatement, statementTitle, hTitle,
      Model.addStatement_statements, Statement.part,
      Statement.new]

/- An occurrence of an argument plays no part. -/
theorem addArgument_plays
    (b : Builder)
    (entry : ArgumentEntry) :
    Plays [] b (addArgument withoutTags b entry).1 := by
  refine
    .of_grows [] (addArgument_grows withoutTags b entry) ?_
  have hSame :
      (addArgument withoutTags b entry).1.model.statements =
        b.model.statements := by
    unfold addArgument
    simp only
    split <;> simp [Model.recordTags]
  rw [hSame, List.append_nil]

/- An occurrence outside a structure plays no part. -/
theorem addEntry_plays
    (b : Builder)
    (entry : Entry)
    (role : StatementRole)
    (hRole : role.isStep = false) :
    Plays [] b (addEntry withoutTags b entry role).1 := by
  cases entry with
  | statement entry =>
      have hPlays :=
        addStatement_plays withoutTags b entry role
      rw [List.filter_cons_of_neg (by simp [hRole])] at hPlays
      exact hPlays
  | argument entry =>
      exact addArgument_plays withoutTags b entry

/- Relating two elements gives no parts. -/
theorem relate_plays
    (b : Builder)
    (parent target : Element)
    (marker : Marker)
    (occurrence : Option Nat) :
    Plays [] b (b.relate parent target marker occurrence) := by
  refine
    .of_grows []
      (relate_grows b parent target marker occurrence) ?_
  rw [List.append_nil]
  unfold relate
  split
  · rfl
  · cases RelationKind.ofMarker? marker with
    | some kind =>
        cases marker.incoming <;>
          exact Model.addRelation_parts _ _ _ _ _ _
    | none =>
        cases parent <;> cases target <;>
          simp [equate, report, Model.declareEquivalence]
        split <;> simp [Model.linkEquivalent]

mutual

/- A relation line gives no parts. -/
theorem addRelationTree_plays
    (b : Builder)
    (parent : Element)
    (occurrence : Option Nat) :
    (tree : RelationEntry) →
      Plays [] b
        (addRelationTree withoutTags b parent occurrence tree)
| ⟨_, entry, children, _⟩ =>
    ((addEntry_plays withoutTags b entry .relationTarget
      rfl).trans (relate_plays _ _ _ _ _)).trans
        (addRelationTrees_plays _ _ _ children)

/- Relation lines give no parts. -/
theorem addRelationTrees_plays
    (b : Builder)
    (parent : Element)
    (occurrence : Option Nat) :
    (trees : List RelationEntry) →
      Plays [] b
        (addRelationTrees withoutTags b parent occurrence trees)
| [] => ⟨fun _ => rfl, (List.append_nil _).symm⟩
| tree :: trees =>
    (addRelationTree_plays b parent occurrence tree).trans
      (addRelationTrees_plays _ parent occurrence trees)

end

/- The statement of a step plays its part. -/
theorem addStep_plays
    (argument : String)
    (b : Builder)
    (given : RoledEntry) :
    Plays
      [(addStep withoutTags argument b given).2.part argument]
      b (addStep withoutTags argument b given).1 := by
  have hStatement :=
    addStatement_plays withoutTags b given.entry.statement
      (given.role.inArgument argument given.entry.number)
  simp only [List.filter_cons, StepRole.inArgument_isStep,
    if_true, List.filter_nil] at hStatement
  exact hStatement.trans (addRelationTrees_plays _ _ _ _ _)

/- The statements of steps play their parts. -/
theorem addSteps_plays
    (argument : String)
    (b : Builder)
    (given : List RoledEntry) :
    Plays
        ((addSteps withoutTags argument b given).2.map
          (Step.part argument))
        b (addSteps withoutTags argument b given).1 ∧
      (addSteps withoutTags argument b given).2.map Step.role =
        given.map RoledEntry.role := by
  induction given generalizing b with
  | nil =>
      exact
        ⟨⟨fun _ => rfl, (List.append_nil _).symm⟩, rfl⟩
  | cons first rest ih =>
      have hFirst := addStep_plays withoutTags argument b first
      rcases ih (addStep withoutTags argument b first).1 with
        ⟨hRest, hRoles⟩
      exact
        ⟨hFirst.trans hRest,
          congrArg (first.role :: ·) hRoles⟩

------------------------------------------------------------
-- Blocks
------------------------------------------------------------

variable {q : List Step → Prop}

/- What gives no parts leaves the steps and their parts. -/
theorem Plays.stepped
    (hPlays : Plays [] b c)
    (hStepped : b.model.Stepped q) :
    c.model.Stepped q := by
  constructor
  · intro p
    simp only [hPlays.played, List.append_nil, hPlays.steps]
    exact hStepped.played p
  · intro argument
    rw [hPlays.steps]
    exact hStepped.formed argument

/-
  The steps of a structure get their parts when they are those
  of an argument that has none.
-/
theorem withSteps_stepped
    {argument : String}
    {steps : List Step}
    (hStepped : b.model.Stepped q)
    (hPlays : Plays (steps.map (Step.part argument)) b c)
    (hThere : c.model.contains (.argument argument) = true)
    (hNone : b.model.stepsOf argument = [])
    (hFormed : q steps) :
    (c.withSteps argument steps).model.Stepped q := by
  have hOwn :
      (c.withSteps argument steps).model.stepsOf argument =
        steps :=
    withSteps_stepsOf hThere steps
  have hOther : ∀ title, title ≠ argument →
      (c.withSteps argument steps).model.stepsOf title =
        b.model.stepsOf title := by
    intro title hApart
    have hGrows :=
      @withSteps_grows [argument] c argument steps
        (fun hNot => absurd (List.mem_singleton_self _) hNot)
    rw [hGrows.extends_model.steps title (by simpa using hApart)]
    exact hPlays.steps title
  have hPlayed :
      (c.withSteps argument steps).model.played =
        b.model.played ++ steps.map (Step.part argument) := by
    rw [← hPlays.played]
    simp [Model.played, withSteps]
  constructor
  · intro p
    rw [hPlayed, List.mem_append, hStepped.played, List.mem_map]
    constructor
    · rintro (⟨title, s, hs, hPart⟩ | ⟨s, hs, hPart⟩)
      · have hApart : title ≠ argument := by
          rintro rfl
          rw [hNone] at hs
          cases hs
        exact ⟨title, s, hOther title hApart ▸ hs, hPart⟩
      · exact ⟨argument, s, hOwn.symm ▸ hs, hPart.symm⟩
    · rintro ⟨title, s, hs, hPart⟩
      by_cases hSame : title = argument
      · subst hSame
        exact Or.inr ⟨s, hOwn ▸ hs, hPart.symm⟩
      · exact Or.inl ⟨title, s, hOther title hSame ▸ hs, hPart⟩
  · intro title
    by_cases hSame : title = argument
    · subst hSame
      rw [hOwn]
      exact Or.inr hFormed
    · rw [hOther title hSame]
      exact hStepped.formed title

/- The steps of a structure form what they have to. -/
def Forms (q : List Step → Prop) (r : Reconstruction) : Prop :=
  ∀ steps : List Step,
    steps.map Step.role = (roles r).map RoledEntry.role →
      q steps

/- A structure below an argument keeps steps and parts. -/
theorem addReconstruction_stepped
    (withoutTags : Bool)
    {argument : String}
    {r : Reconstruction}
    (hStepped : b.model.Stepped q)
    (hThere : b.model.contains (.argument argument) = true)
    (hForms : Forms q r) :
    (addReconstruction withoutTags b argument
      r).model.Stepped q := by
  rcases addReconstruction_cases withoutTags b argument r with
    ⟨hNone, hAdded⟩ | ⟨_, _, hSame⟩ | hFault
  · rcases addSteps_plays withoutTags argument b (roles r) with
      ⟨hPlays, hRoles⟩
    have hGrows :=
      @addSteps_grows [] withoutTags argument b (roles r)
    rw [hAdded]
    exact
      withSteps_stepped hStepped hPlays
        (hGrows.extends_model.contains hThere) hNone
        (hForms _ hRoles)
  · rw [hSame]
    exact hStepped
  · rw [hFault]
    exact hStepped

/- A block keeps steps and parts. -/
theorem addBlock_stepped
    (withoutTags : Bool)
    {block : Block}
    (hStepped : b.model.Stepped q)
    (hForms : ∀ found r, block = .element found →
      found.reconstruction = some r → Forms q r) :
    (addBlock withoutTags b block).model.Stepped q := by
  cases block with
  | heading heading =>
      have hPlays : Plays [] b (b.openSection heading) :=
        ⟨fun _ => rfl, (List.append_nil _).symm⟩
      exact hPlays.stepped hStepped
  | element block =>
      have hEntry :=
        (addEntry_plays withoutTags b block.element .top
          rfl).stepped hStepped
      have hThere :=
        addEntry_contains withoutTags b block.element .top
      rw [addBlock_element]
      refine (addRelationTrees_plays _ _ _ _ _).stepped ?_
      unfold addStructure
      split
      · next title r hArgument hStructure =>
          rw [hArgument] at hThere
          exact
            addReconstruction_stepped withoutTags hEntry hThere
              (hForms block r rfl hStructure)
      · exact hEntry

end Builder

namespace Model

variable {q : List Step → Prop}

/- A model without elements has neither steps nor parts. -/
theorem Stepped.empty : Model.empty.Stepped q := by
  constructor
  · intro p
    constructor
    · exact fun hNone => absurd hNone List.not_mem_nil
    · rintro ⟨_, _, hNone, _⟩
      cases hNone
  · exact fun _ => Or.inl rfl

/-
  In the model of a document each part is that of a step, and
  each step has a statement that plays its part.
-/
theorem build_stepped
    (withoutTags : Bool)
    {d : Document}
    (hForms : ∀ found r, Block.element found ∈ d.blocks →
      found.reconstruction = some r → Builder.Forms q r) :
    (build withoutTags d).1.Stepped q := by
  have hBlocks :
      (d.blocks.foldl (Builder.addBlock withoutTags)
        Builder.empty).model.Stepped q := by
    refine
      List.foldlRecOn d.blocks (Builder.addBlock withoutTags)
        (motive := fun b => b.model.Stepped q) ?_ ?_
    · exact Stepped.empty
    · intro b hStepped block hBlock
      refine Builder.addBlock_stepped withoutTags hStepped ?_
      rintro found r rfl hStructure
      exact hForms found r hBlock hStructure
  rw [build_model]
  exact hBlocks

/- In a document that is read, all steps are completed. -/
theorem build_completed
    (withoutTags : Bool)
    {d : Document}
    (hStructured : d.Structured) :
    (build withoutTags d).1.Stepped Explosion.Completed :=
  build_stepped withoutTags
    (fun found r hBlock hStructure _ hRoles =>
      Builder.completed_roles
        (hStructured found r hBlock hStructure) hRoles)

end Model

end Dialectic
