import Dialectic.Document.Parser
import Dialectic.Notation.Yaml.Reader
import Dialectic.Proofs.Model.Occurrences

/-
  When the model that is built of a document records it.

  Key definitions include:
    * `Builder.Takes`
    * `Builder.AdmitsBlock`
    * `Builder.AdmitsBlocks`

  Main theorems:
    * `Builder.addStructure_cases`
    * `Builder.addBlock_cases`
    * `Builder.addBlocks_takes`
    * `Builder.addBlocks_admits`
    * `Model.build_records_iff`
-/

namespace Dialectic

namespace Builder

variable {given : List String} {es fs : List Entry}
variable {b : Builder}

------------------------------------------------------------
-- Structures That Are There Already
------------------------------------------------------------

/- Knowing the steps of an argument changes no other one. -/
theorem withSteps_grows
    {title : String}
    {steps : List Step}
    (hSame : title ∉ given → b.model.stepsOf title = steps) :
    Grows given [] b (b.withSteps title steps) := by
  have hExtends :
      Model.Extends [title] b.model
        (b.withSteps title steps).model := by
    dsimp only [withSteps]
    exact
      Model.modifyArgument_extends _ _
        (fun hNot => (hNot (List.mem_singleton_self _)).elim)
  refine
    ⟨{ hExtends with steps := ?_ },
      by simp [withSteps, statementCount], rfl, id⟩
  intro other hOther
  by_cases hHere : other = title
  · subst hHere
    have hBefore := hSame hOther
    unfold withSteps Model.stepsOf at *
    rw [Model.argument?_modifyArgument, if_pos rfl]
    cases hFound : b.model.argument? other with
    | none => rfl
    | some a =>
        rw [hFound] at hBefore
        exact hBefore.symm
  · exact hExtends.steps other (by simpa using hHere)

/- An argument has the steps that it is given. -/
theorem withSteps_stepsOf
    {title : String}
    (hTitle : b.model.contains (.argument title) = true)
    (steps : List Step) :
    (b.withSteps title steps).model.stepsOf title = steps := by
  rw [Model.contains, ← Model.argument?_isSome] at hTitle
  rcases Option.isSome_iff_exists.mp hTitle with ⟨a, ha⟩
  unfold withSteps Model.stepsOf
  rw [Model.argument?_modifyArgument, if_pos rfl, ha]
  rfl

/-
  The argument that gets numbered statements, if an element is
  one and there are such statements.
-/
def reconstructs (steps : List NumberedEntry) :
    Element → List String
| .statement _ => []
| .argument title => if steps.isEmpty then [] else [title]

/-
  Numbered statements can be added below an element: it is an
  argument that has none yet, unless there are none to add.
-/
structure Admits
    (b : Builder)
    (element : Element)
    (steps : List NumberedEntry) : Prop where
  isArgument : element.isArgument = false → steps = []
  isNew : ∀ title ∈ reconstructs steps element,
    b.model.stepsOf title = []

/- Add a structure below an element if there is one. -/
def addStructure
    (withoutTags : Bool)
    (b : Builder)
    (element : Element)
    (reconstruction : Option Reconstruction) : Builder :=
  match element, reconstruction with
  | .argument title, some r =>
      addReconstruction withoutTags b title r
  | _, _ => b

/- The numbered statements of a structure that may be there. -/
def stepsIn (reconstruction : Option Reconstruction) :
    List NumberedEntry :=
  match reconstruction with
  | some r => r.statements
  | none => []

/- Only the argument above numbered statements gets them. -/
theorem mem_reconstructs
    {steps : List NumberedEntry}
    {title other : String} :
    other ∈ reconstructs steps (.argument title) ↔
      other = title ∧ steps ≠ [] := by
  unfold reconstructs
  cases steps <;> simp

/-
  Occurrences have been taken in: they have been added, the
  given arguments have got their steps, and whatever model is
  reached records the occurrences.
-/
structure Takes
    (given : List String)
    (entries : List Entry)
    (recorded : Model → List Nat → Prop)
    (b c : Builder) : Prop where
  grows : Grows given entries b c
  steps : ∀ title ∈ given, c.model.stepsOf title ≠ []
  records : ∀ m, c.Reaches m →
    recorded m
      (List.range' b.model.nextStatement
        (statementCount entries))

/- Occurrences are taken in one after the other. -/
theorem Takes.trans
    {more : List String}
    {P Q R : Model → List Nat → Prop}
    {c d : Builder}
    (hFirst : Takes given es P b c)
    (hSecond : Takes more fs Q c d)
    (hBoth : ∀ m ids rest,
      P m ids → Q m rest → R m (ids ++ rest)) :
    Takes (given ++ more) (es ++ fs) R b d := by
  constructor
  · exact
      (hFirst.grows.mono (List.subset_append_left _ _)).trans
        (hSecond.grows.mono (List.subset_append_right _ _))
  · intro title hTitle
    by_cases hLater : title ∈ more
    · exact hSecond.steps title hLater
    · rw [hSecond.grows.extends_model.steps title hLater]
      rcases List.mem_append.mp hTitle with hHere | hThere
      · exact hFirst.steps title hHere
      · exact (hLater hThere).elim
  · intro m hReaches
    have hBefore := hSecond.grows.reaches hReaches
    have hHere := hFirst.records m hBefore
    have hThere := hSecond.records m hReaches
    rw [hFirst.grows.statements] at hThere
    rw [statementCount_append, ← List.range'_append_1]
    exact hBoth m _ _ hHere hThere

/- The first structure of an argument is taken in. -/
theorem firstReconstruction_takes
    (withoutTags : Bool)
    {title : String}
    {r : Reconstruction}
    (hTitle : b.model.contains (.argument title) = true)
    (hNone : b.model.stepsOf title = []) :
    Takes (reconstructs r.statements (.argument title))
      (r.statements.flatMap NumberedEntry.entries)
      (fun m =>
        m.StepsRecorded withoutTags b.untitledArguments
          r.statements)
      b
      ((addSteps withoutTags title b (roles r)).1.withSteps
        title (addSteps withoutTags title b (roles r)).2) := by
  have hLength :
      (addSteps withoutTags title b (roles r)).2.length =
        r.statements.length := by
    rw [addSteps_length, ← roles_entries, List.length_map]
  have hAdded := fun given =>
    @addSteps_grows given withoutTags title b (roles r)
  rw [roles_entries] at hAdded
  -- an argument that gets no statements has no steps, so it
  -- need not be among those whose steps may differ
  have hKnown :
      title ∉ reconstructs r.statements (.argument title) →
        (addSteps withoutTags title b
            (roles r)).1.model.stepsOf title =
          (addSteps withoutTags title b (roles r)).2 := by
    intro hNot
    have hEmpty : r.statements = [] := by
      by_contra hSome
      exact hNot (mem_reconstructs.mpr ⟨rfl, hSome⟩)
    rw [hEmpty, List.length_nil, List.length_eq_zero_iff]
      at hLength
    rw [hLength]
    exact
      ((hAdded []).extends_model.steps title
        List.not_mem_nil).trans hNone
  have hSteps := withSteps_grows hKnown
  constructor
  · have hGrows := (hAdded _).trans hSteps
    rwa [List.append_nil] at hGrows
  · intro other hOther
    rcases mem_reconstructs.mp hOther with ⟨rfl, hSome⟩
    rw [withSteps_stepsOf
      ((hAdded []).extends_model.contains hTitle)]
    intro hEmpty
    rw [hEmpty, List.length_nil, eq_comm,
      List.length_eq_zero_iff] at hLength
    exact hSome hLength
  · intro m hReaches
    have hBefore := hSteps.reaches hReaches
    have hRecorded := addSteps_recorded hBefore
    rwa [roles_entries] at hRecorded

/- Nothing to add is taken in by doing nothing. -/
theorem takes_nil
    (withoutTags : Bool)
    (b : Builder) :
    Takes [] [] (fun m =>
        m.StepsRecorded withoutTags b.untitledArguments [])
      b b :=
  ⟨Grows.refl b, by simp, fun _ _ => .nil⟩

/-
  Without a fault, the numbered statements below an element are
  taken in if it admits them; otherwise nothing is.
-/
theorem addStructure_cases
    {withoutTags : Bool}
    {element : Element}
    {reconstruction : Option Reconstruction}
    (hElement : b.model.contains element = true)
    (hClean :
      (addStructure withoutTags b element
        reconstruction).faults = []) :
    (b.Admits element (stepsIn reconstruction) ∧
        Takes (reconstructs (stepsIn reconstruction) element)
          ((stepsIn reconstruction).flatMap
            NumberedEntry.entries)
          (fun m =>
            m.StepsRecorded withoutTags b.untitledArguments
              (stepsIn reconstruction))
          b
          (addStructure withoutTags b element
            reconstruction)) ∨
      (¬ b.Admits element (stepsIn reconstruction) ∧
        stepsIn reconstruction ≠ [] ∧
        addStructure withoutTags b element reconstruction =
          b) := by
  cases reconstruction with
  | none =>
      have hNothing : reconstructs [] element = [] := by
        cases element <;> rfl
      have hSame :
          addStructure withoutTags b element none = b := by
        cases element <;> rfl
      simp only [stepsIn, hNothing, hSame]
      exact
        Or.inl
          ⟨⟨fun _ => rfl, by simp [hNothing]⟩,
            takes_nil withoutTags b⟩
  | some r =>
      cases element with
      | statement title =>
          by_cases hSteps : r.statements = []
          · simp only [stepsIn, hSteps]
            exact
              Or.inl
                ⟨⟨fun _ => rfl, by simp [reconstructs]⟩,
                  takes_nil withoutTags b⟩
          · refine Or.inr ⟨?_, hSteps, rfl⟩
            exact fun hAdmits => hSteps (hAdmits.isArgument rfl)
      | argument title =>
          rcases addReconstruction_cases withoutTags b title r
            with ⟨hNone, hAdded⟩ | ⟨hSome, hRepeats, hSame⟩ |
              hFault
          · left
            have hArgument :
                (Element.argument title).isArgument = false →
                  r.statements = [] := by
              intro hNot
              cases hNot
            simp only [addStructure, hAdded, stepsIn]
            refine ⟨⟨hArgument, ?_⟩,
              firstReconstruction_takes withoutTags hElement
                hNone⟩
            intro other hOther
            rw [(mem_reconstructs.mp hOther).1]
            exact hNone
          · right
            have hSteps : r.statements ≠ [] := by
              intro hEmpty
              rw [repeatsSteps, Bool.and_eq_true,
                decide_eq_true_eq] at hRepeats
              rw [← roles_entries, List.map_eq_nil_iff]
                at hEmpty
              rw [hEmpty, List.length_nil,
                List.length_eq_zero_iff] at hRepeats
              exact hSome hRepeats.1
            refine ⟨?_, hSteps, hSame⟩
            intro hAdmits
            exact
              hSome
                (hAdmits.isNew title
                  (mem_reconstructs.mpr ⟨rfl, hSteps⟩))
          · simp only [addStructure, hFault] at hClean
            exact (report_faults hClean).elim

------------------------------------------------------------
-- Blocks
------------------------------------------------------------

/- The parts of a block are added one after the other. -/
theorem addBlock_element
    (withoutTags : Bool)
    (b : Builder)
    (block : ElementBlock) :
    addBlock withoutTags b (.element block) =
      addRelationTrees withoutTags
        (addStructure withoutTags
          (addEntry withoutTags b block.element .top).1
          (addEntry withoutTags b block.element .top).2.1
          block.reconstruction)
        (addEntry withoutTags b block.element .top).2.1
        (addEntry withoutTags b block.element .top).2.2
        block.relations := by
  unfold addBlock addStructure
  rfl

/- The argument in a block that gets numbered statements. -/
theorem reconstructed_element
    (withoutTags : Bool)
    (b : Builder)
    (block : ElementBlock) :
    (Block.element block).reconstructed b.untitledArguments =
      reconstructs block.steps
        (addEntry withoutTags b block.element .top).2.1 := by
  rcases block with ⟨element, relations, reconstruction, span⟩
  cases element with
  | statement entry => rfl
  | argument entry =>
      have hTitle :
          (addEntry withoutTags b (.argument entry) .top).2.1 =
            .argument (entry.titleAfter b.untitledArguments) :=
        congrArg Element.argument (argumentTitle_fst b entry)
      exact (congrArg (reconstructs _) hTitle).symm

/-
  A block can be added: its numbered statements stand below an
  argument that has none yet.
-/
structure AdmitsBlock (b : Builder) (block : Block) : Prop where
  belowArgument : block.StepsBelowArgument
  isNew : ∀ title ∈ block.reconstructed b.untitledArguments,
    b.model.stepsOf title = []

/- A block is admitted if its element admits its structure. -/
theorem admits_iff
    (withoutTags : Bool)
    (b : Builder)
    (block : ElementBlock) :
    b.AdmitsBlock (.element block) ↔
      (addEntry withoutTags b block.element .top).1.Admits
        (addEntry withoutTags b block.element .top).2.1
        block.steps := by
  have hEntry :=
    @addEntry_grows [] withoutTags b block.element .top
  have hKind :
      (addEntry withoutTags b block.element
          .top).2.1.isArgument =
        block.element.isArgument := by
    cases block.element <;> rfl
  have hSteps : ∀ title,
      (addEntry withoutTags b block.element
          .top).1.model.stepsOf title =
        b.model.stepsOf title :=
    fun title =>
      hEntry.extends_model.steps title List.not_mem_nil
  constructor
  · rintro ⟨hBelow, hNew⟩
    rw [reconstructed_element withoutTags] at hNew
    refine ⟨fun hNot => hBelow (hKind ▸ hNot), ?_⟩
    intro title hTitle
    rw [hSteps]
    exact hNew title hTitle
  · rintro ⟨hBelow, hNew⟩
    refine ⟨fun hNot => hBelow (hKind.trans hNot), ?_⟩
    rw [reconstructed_element withoutTags]
    intro title hTitle
    rw [← hSteps]
    exact hNew title hTitle

/-
  An element is taken in with what stands below it if its
  structure is.
-/
theorem addBlock_takes
    {withoutTags : Bool}
    {block : ElementBlock}
    (hStructure :
      Takes
        (reconstructs block.steps
          (addEntry withoutTags b block.element .top).2.1)
        (block.steps.flatMap NumberedEntry.entries)
        (fun m =>
          m.StepsRecorded withoutTags
            (addEntry withoutTags b block.element
              .top).1.untitledArguments
            block.steps)
        (addEntry withoutTags b block.element .top).1
        (addStructure withoutTags
          (addEntry withoutTags b block.element .top).1
          (addEntry withoutTags b block.element .top).2.1
          block.reconstruction)) :
    Takes
      ((Block.element block).reconstructed b.untitledArguments)
      block.entries
      (fun m =>
        m.BlockRecorded withoutTags b.untitledArguments
          (.element block))
      b (addBlock withoutTags b (.element block)) := by
  have hEntry := fun given =>
    @addEntry_grows given withoutTags b block.element .top
  have hThere :=
    addEntry_contains withoutTags b block.element .top
  have hTrees := fun given =>
    @addRelationTrees_grows given withoutTags
      (addStructure withoutTags
        (addEntry withoutTags b block.element .top).1
        (addEntry withoutTags b block.element .top).2.1
        block.reconstruction)
      (addEntry withoutTags b block.element .top).2.1
      (addEntry withoutTags b block.element .top).2.2
      block.relations
  rw [addBlock_element, reconstructed_element withoutTags]
  constructor
  · have hGrows :=
      ((hEntry _).trans hStructure.grows).trans (hTrees _)
    rwa [List.append_assoc] at hGrows
  · intro title hTitle
    rw [(hTrees []).extends_model.steps title List.not_mem_nil]
    exact hStructure.steps title hTitle
  · intro m hReaches
    have hMiddle := (hTrees []).reaches hReaches
    have hOwn :=
      addEntry_recorded (hStructure.grows.reaches hMiddle)
    have hSteps := hStructure.records m hMiddle
    have hBelow :=
      addRelationTrees_recorded
        (hStructure.grows.extends_model.contains hThere)
        block.relations hReaches
    rw [(hEntry []).statements, (hEntry []).untitled] at hSteps
    rw [hStructure.grows.statements,
      hStructure.grows.untitled, (hEntry []).statements,
      (hEntry []).untitled] at hBelow
    have hEntries :
        block.entries =
          [block.element]
            ++ block.steps.flatMap NumberedEntry.entries
            ++ RelationEntry.entriesOf block.relations := rfl
    rw [hEntries, statementCount_append, statementCount_append,
      ← List.range'_append_1, ← List.range'_append_1,
      ← Nat.add_assoc]
    exact .element hOwn hSteps hBelow

/-
  Without a fault, a block is taken in if it is admitted;
  otherwise there are too few statements after it.
-/
theorem addBlock_cases
    {withoutTags : Bool}
    {block : Block}
    (hClean : (addBlock withoutTags b block).faults = []) :
    (b.AdmitsBlock block ∧
        Takes (block.reconstructed b.untitledArguments)
          block.entries
          (fun m =>
            m.BlockRecorded withoutTags b.untitledArguments
              block)
          b (addBlock withoutTags b block)) ∨
      (¬ b.AdmitsBlock block ∧
        b.faults = [] ∧
        (addBlock withoutTags b block).model.nextStatement <
          b.model.nextStatement
            + statementCount block.entries) := by
  cases block with
  | heading heading =>
      refine Or.inl ⟨⟨trivial, ?_⟩, ⟨?_, ?_, ?_⟩⟩
      · simp [Block.reconstructed]
      · exact
          ⟨Model.addSection_extends _ _ _ _ _ _ _, rfl, rfl, id⟩
      · simp [Block.reconstructed]
      · exact fun _ _ => .heading
  | element block =>
      have hTrees := fun given =>
        @addRelationTrees_grows given withoutTags
          (addStructure withoutTags
            (addEntry withoutTags b block.element .top).1
            (addEntry withoutTags b block.element .top).2.1
            block.reconstruction)
          (addEntry withoutTags b block.element .top).2.1
          (addEntry withoutTags b block.element .top).2.2
          block.relations
      have hMiddle :
          (addStructure withoutTags
            (addEntry withoutTags b block.element .top).1
            (addEntry withoutTags b block.element .top).2.1
            block.reconstruction).faults = [] :=
        (hTrees []).faults hClean
      rcases addStructure_cases
          (addEntry_contains withoutTags b block.element .top)
          hMiddle with
        ⟨hAdmits, hTakes⟩ | ⟨hRefuses, hSome, hSame⟩
      · exact
          Or.inl
            ⟨(admits_iff withoutTags b block).mpr hAdmits,
              addBlock_takes hTakes⟩
      · have hGrows :
            Grows []
              ([block.element]
                ++ RelationEntry.entriesOf block.relations)
              b (addBlock withoutTags b (.element block)) := by
          rw [addBlock_element, hSame]
          exact
            (addEntry_grows withoutTags b block.element
              .top).trans
                (addRelationTrees_grows withoutTags _ _ _
                  block.relations)
        have hSkipped : 0 < statementCount
            (block.steps.flatMap NumberedEntry.entries) :=
          statementCount_steps_pos hSome
        have hEntries :
            statementCount (Block.element block).entries =
              statementCount [block.element]
                + (statementCount
                    (block.steps.flatMap NumberedEntry.entries)
                  + statementCount
                    (RelationEntry.entriesOf
                      block.relations)) := by
          rw [← statementCount_append, ← statementCount_append]
          rfl
        have hNext := hGrows.statements
        rw [statementCount_append] at hNext
        refine
          Or.inr
            ⟨fun hAdmits => hRefuses
              ((admits_iff withoutTags b block).mp hAdmits),
              hGrows.faults hClean, ?_⟩
        omega

------------------------------------------------------------
-- Documents
------------------------------------------------------------

/-
  All blocks can be added one after the other: no two of them
  add numbered statements to one argument, and none to one
  that has some.
-/
structure AdmitsBlocks (b : Builder) (blocks : List Block) :
    Prop where
  belowArgument : ∀ block ∈ blocks, block.StepsBelowArgument
  once : (reconstructedIn b.untitledArguments blocks).Nodup
  isNew : ∀ title ∈ reconstructedIn b.untitledArguments blocks,
    b.model.stepsOf title = []

/- Of some admitted blocks, the first one is admitted. -/
theorem AdmitsBlocks.first
    {block : Block}
    {blocks : List Block}
    (hAdmits : b.AdmitsBlocks (block :: blocks)) :
    b.AdmitsBlock block :=
  ⟨hAdmits.belowArgument block List.mem_cons_self,
    fun title hTitle =>
      hAdmits.isNew title (List.mem_append_left _ hTitle)⟩

/-
  When the first block has been taken in, what is left is
  admitted exactly if all blocks were.
-/
theorem admitsBlocks_cons
    {recorded : Model → List Nat → Prop}
    {c : Builder}
    {block : Block}
    {blocks : List Block}
    (hTakes :
      Takes (block.reconstructed b.untitledArguments)
        block.entries recorded b c) :
    b.AdmitsBlocks (block :: blocks) ↔
      b.AdmitsBlock block ∧ c.AdmitsBlocks blocks := by
  have hTitles :
      reconstructedIn b.untitledArguments (block :: blocks) =
        block.reconstructed b.untitledArguments
          ++ reconstructedIn c.untitledArguments blocks := by
    rw [hTakes.grows.untitled]
    rfl
  constructor
  · intro hAdmits
    have hOnce := hAdmits.once
    have hNew := hAdmits.isNew
    rw [hTitles] at hOnce hNew
    rcases List.nodup_append.mp hOnce with
      ⟨_, hRest, hApart⟩
    refine ⟨hAdmits.first, ⟨?_, hRest, ?_⟩⟩
    · exact fun other hOther =>
        hAdmits.belowArgument other
          (List.mem_cons_of_mem block hOther)
    · intro title hTitle
      rw [hTakes.grows.extends_model.steps title
        (fun hHere => hApart title hHere title hTitle rfl)]
      exact hNew title (List.mem_append_right _ hTitle)
  · rintro ⟨hBlock, hBelow, hOnce, hNew⟩
    have hApart : ∀ title ∈ reconstructedIn c.untitledArguments
        blocks, title ∉
          block.reconstructed b.untitledArguments :=
      fun title hTitle hHere =>
        hTakes.steps title hHere (hNew title hTitle)
    constructor
    · intro other hOther
      rcases List.mem_cons.mp hOther with hFirst | hRest
      · rw [hFirst]
        exact hBlock.belowArgument
      · exact hBelow other hRest
    · rw [hTitles]
      refine
        List.nodup_append.mpr
          ⟨block.reconstructed_nodup _, hOnce, ?_⟩
      rintro title hHere _ hTitle rfl
      exact hApart title hTitle hHere
    · rw [hTitles]
      intro title hTitle
      rcases List.mem_append.mp hTitle with hHere | hLater
      · exact hBlock.isNew title hHere
      · rw [← hTakes.grows.extends_model.steps title
          (hApart title hLater)]
        exact hNew title hLater

/- A fault that is found stays. -/
theorem addBlocks_faults
    {withoutTags : Bool}
    {blocks : List Block}
    (hClean :
      (blocks.foldl (addBlock withoutTags) b).faults = []) :
    b.faults = [] := by
  induction blocks generalizing b with
  | nil => exact hClean
  | cons block blocks ih =>
      rcases addBlock_cases (ih hClean) with
        ⟨_, hTakes⟩ | ⟨_, hBefore, _⟩
      · exact hTakes.grows.faults (ih hClean)
      · exact hBefore

/- Blocks that are admitted are taken in. -/
theorem addBlocks_takes
    {withoutTags : Bool}
    {blocks : List Block}
    (hAdmits : b.AdmitsBlocks blocks)
    (hClean :
      (blocks.foldl (addBlock withoutTags) b).faults = []) :
    Takes (reconstructedIn b.untitledArguments blocks)
      (blocks.flatMap Block.entries)
      (fun m =>
        m.BlocksRecorded withoutTags b.untitledArguments blocks)
      b (blocks.foldl (addBlock withoutTags) b) := by
  induction blocks generalizing b with
  | nil =>
      exact
        ⟨Grows.refl b, by simp [reconstructedIn],
          fun _ _ => .nil⟩
  | cons block blocks ih =>
      rcases addBlock_cases (addBlocks_faults hClean) with
        ⟨_, hFirst⟩ | ⟨hRefuses, _, _⟩
      · have hOthers :=
          ((admitsBlocks_cons hFirst).mp hAdmits).2
        have hRest := ih hOthers hClean
        rw [hFirst.grows.untitled] at hRest
        exact
          hFirst.trans hRest
            (fun _ _ _ hHere hThere => .cons hHere hThere)
      · exact (hRefuses hAdmits.first).elim

/- There are at most as many statements as occurrences. -/
theorem addBlocks_next_le
    {withoutTags : Bool}
    {blocks : List Block}
    (hClean :
      (blocks.foldl (addBlock withoutTags) b).faults = []) :
    (blocks.foldl (addBlock withoutTags)
        b).model.nextStatement ≤
      b.model.nextStatement
        + statementCount (blocks.flatMap Block.entries) := by
  induction blocks generalizing b with
  | nil => exact Nat.le_refl _
  | cons block blocks ih =>
      have hRest := ih hClean
      rw [List.flatMap_cons, statementCount_append]
      rw [List.foldl_cons]
      rcases addBlock_cases (addBlocks_faults hClean) with
        ⟨_, hTakes⟩ | ⟨_, _, hFewer⟩
      · have hNext := hTakes.grows.statements
        omega
      · omega

/-
  Without a fault, blocks are admitted if there is a statement
  for each occurrence.
-/
theorem addBlocks_admits
    {withoutTags : Bool}
    {blocks : List Block}
    (hClean :
      (blocks.foldl (addBlock withoutTags) b).faults = [])
    (hAll :
      b.model.nextStatement
          + statementCount (blocks.flatMap Block.entries) ≤
        (blocks.foldl (addBlock withoutTags)
          b).model.nextStatement) :
    b.AdmitsBlocks blocks := by
  induction blocks generalizing b with
  | nil =>
      exact ⟨by simp, List.nodup_nil, by simp [reconstructedIn]⟩
  | cons block blocks ih =>
      have hRest :=
        @addBlocks_next_le (addBlock withoutTags b block)
          withoutTags blocks hClean
      rw [List.flatMap_cons, statementCount_append,
        List.foldl_cons] at hAll
      rcases addBlock_cases (addBlocks_faults hClean) with
        ⟨hFirst, hTakes⟩ | ⟨_, _, hFewer⟩
      · have hNext := hTakes.grows.statements
        have hOthers := ih hClean (by omega)
        exact (admitsBlocks_cons hTakes).mpr ⟨hFirst, hOthers⟩
      · -- what the block lacks, no later one makes up for
        omega

/- Checking equivalences keeps each fault that was found. -/
theorem checkEquivalences_faults
    (hClean : b.checkEquivalences.faults = []) :
    b.faults = [] := by
  have hAll : ∀ (pairs : List (String × String))
      (c : Builder),
      (pairs.foldl checkEquivalence c).faults = [] →
        c.faults = [] := by
    intro pairs
    induction pairs with
    | nil => exact fun _ hNone => hNone
    | cons pair pairs ih =>
        intro c hNone
        have hStep := ih _ hNone
        unfold checkEquivalence at hStep
        cases hFound : conflict? c.model pair.1 pair.2 with
        | none =>
            rw [hFound] at hStep
            exact hStep
        | some r =>
            rw [hFound] at hStep
            exact (Sequence.addNew_ne_nil _ _ hStep).elim
  exact hAll b.equivalences b hClean

end Builder

namespace Model

/-
  Nothing gets lost silently: if no fault is found, the model
  that is built of a document records it, unless numbered
  statements stand below no argument or below two occurrences
  of one.  Those below the second one are lost even where they
  differ from the first ones in their texts, tags, data and
  relations.
-/
theorem build_records_iff
    (withoutTags : Bool)
    (d : Document)
    (hClean : (build withoutTags d).2 = []) :
    (build withoutTags d).1.Records withoutTags d ↔
      d.EachReconstructedOnce := by
  have hModel :
      (build withoutTags d).1 =
        (d.blocks.foldl (Builder.addBlock withoutTags)
          Builder.empty).model :=
    Builder.checkEquivalences_model _
  have hFaults :
      (d.blocks.foldl (Builder.addBlock withoutTags)
        Builder.empty).faults = [] :=
    Builder.checkEquivalences_faults
      (List.append_eq_nil_iff.mp hClean).1
  rw [hModel]
  constructor
  · intro hRecords
    have hCount :=
      Nat.le_trans (Nat.le_of_eq (Nat.zero_add _))
        hRecords.count_le
    have hAll := Builder.addBlocks_admits hFaults hCount
    exact ⟨hAll.belowArgument, hAll.once⟩
  · intro hOnce
    have hAdmits : Builder.empty.AdmitsBlocks d.blocks :=
      ⟨hOnce.arguments, hOnce.once, fun _ _ => rfl⟩
    have hTakes := Builder.addBlocks_takes hAdmits hFaults
    have hDeclared : Builder.empty.model.Declared := by
      intro r hr
      cases hr
    have hRecorded :=
      hTakes.records _
        ⟨hFaults, ⟨[], Extends.refl _⟩,
          hTakes.grows.extends_model.declared hDeclared⟩
    exact ⟨_, List.nodup_range', hRecorded⟩

section

open scoped Yaml

/-
  A support below a numbered statement is lost where the
  structure has been given before without it.
-/
theorem build_records_iff_repeated :
    let d :=
      (Document.read
        ("<A>\n\n(1) [P]: p\n----\n(2) [C]: c\n\n"
          ++ "<A>\n\n(1) [P]: p\n  + [X]: x\n----\n"
          ++ "(2) [C]: c")).document
    (build false d).2 = [] ∧
      ¬ (build false d).1.Records false d := by
  intro d
  have hClean : (build false d).2 = [] := by decide +kernel
  have hTwice : ¬ (reconstructedIn 0 d.blocks).Nodup := by
    decide +kernel
  refine ⟨hClean, ?_⟩
  rw [build_records_iff false d hClean]
  exact fun hOnce => hTwice hOnce.once

end

end Model

end Dialectic
