import Dialectic.Proofs.Model.Building
import Dialectic.Proofs.Model.Recording

/-
  What adding the occurrences in a document to a model keeps,
  and that it records them if no fault is found.

  Key definitions include:
    * `Builder.Grows`
    * `Builder.Reaches`

  Main theorems:
    * `Builder.addRelationTrees_grows`
    * `Builder.addSteps_grows`
    * `Builder.addEntry_recorded`
    * `Builder.addRelationTrees_recorded`
    * `Builder.addSteps_recorded`
-/

namespace Dialectic

namespace Builder

------------------------------------------------------------
-- Growth
------------------------------------------------------------

/-
  What is known after some occurrences have been added: all
  that was known before, a statement for each occurrence of
  one, and each fault that was found before.
-/
structure Grows
    (given : List String)
    (entries : List Entry)
    (b c : Builder) : Prop where
  extends_model : b.model.Extends given c.model
  statements : c.model.nextStatement =
    b.model.nextStatement + statementCount entries
  untitled : c.untitledArguments =
    b.untitledArguments + untitledCount entries
  faults : c.faults = [] → b.faults = []

variable {given : List String} {es fs : List Entry}

/- Nothing is known in addition when nothing is added. -/
theorem Grows.refl (b : Builder) : Grows given [] b b :=
  ⟨Model.Extends.refl b.model, rfl, rfl, id⟩

/- More arguments may have got other steps. -/
theorem Grows.mono
    {more : List String}
    {b c : Builder}
    (hGrows : Grows given es b c)
    (hMore : given ⊆ more) :
    Grows more es b c :=
  { hGrows with
    extends_model := hGrows.extends_model.mono hMore }

/- Occurrences are added one after the other. -/
theorem Grows.trans
    {b c d : Builder}
    (hFirst : Grows given es b c)
    (hSecond : Grows given fs c d) :
    Grows given (es ++ fs) b d := by
  constructor
  · exact hFirst.extends_model.trans hSecond.extends_model
  · rw [hSecond.statements, hFirst.statements,
      statementCount_append, Nat.add_assoc]
  · rw [hSecond.untitled, hFirst.untitled,
      untitledCount_append, Nat.add_assoc]
  · exact fun hClean => hFirst.faults (hSecond.faults hClean)

------------------------------------------------------------
-- Elements
------------------------------------------------------------

/- The statement that is added for an occurrence of one. -/
def occurrenceOf
    (withoutTags : Bool)
    (b : Builder)
    (entry : StatementEntry)
    (role : StatementRole) : Statement :=
  { Statement.new (b.statementTitle entry).1 role with
    text := entry.text.map (cleanText withoutTags entry.tags)
    tags := entry.tags
    sectionId := b.currentSection?
    isReference := entry.isReference
    mentions := entry.mentions
    data := entry.data.getD []
    span := entry.span }

/- The statement of an occurrence is one of it. -/
theorem occurrenceOf_isOccurrence
    (withoutTags : Bool)
    (b : Builder)
    (entry : StatementEntry)
    (role : StatementRole) :
    (occurrenceOf withoutTags b entry role).IsOccurrence
      withoutTags entry := by
  refine ⟨?_, rfl, rfl, rfl⟩
  intro title hTitle
  simp [occurrenceOf, Statement.new, statementTitle, hTitle]

/- A statement that has a title is added. -/
theorem addStatement_titled
    (withoutTags : Bool)
    (b : Builder)
    {entry : StatementEntry}
    {title : String}
    (hTitle : entry.title = some title)
    (role : StatementRole) :
    (addStatement withoutTags b entry role).1.model =
      b.model.addStatement
        (occurrenceOf withoutTags b entry role) := by
  simp [addStatement, occurrenceOf, statementTitle, hTitle]

/- One without a title is added, and marks its class. -/
theorem addStatement_untitled
    (withoutTags : Bool)
    (b : Builder)
    {entry : StatementEntry}
    (hTitle : entry.title = none)
    (role : StatementRole) :
    (addStatement withoutTags b entry role).1.model =
      (b.model.addStatement
          (occurrenceOf withoutTags b entry role)).modifyClass
        (untitled (b.untitledStatements + 1))
        (fun c => { c with isAutoTitled := true }) := by
  simp [addStatement, occurrenceOf, statementTitle, hTitle]

/-
  At most the class of a statement changes when it has been
  added.
-/
theorem addStatement_model
    (withoutTags : Bool)
    (b : Builder)
    (entry : StatementEntry)
    (role : StatementRole) :
    Model.Extends given
        (b.model.addStatement
          (occurrenceOf withoutTags b entry role))
        (addStatement withoutTags b entry role).1.model ∧
      (addStatement withoutTags b entry
          role).1.model.nextStatement =
        b.model.nextStatement + 1 := by
  have hNext :=
    Model.addStatement_next b.model
      (occurrenceOf withoutTags b entry role)
  cases hTitle : entry.title with
  | some title =>
      rw [addStatement_titled withoutTags b hTitle]
      exact ⟨Model.Extends.refl _, hNext⟩
  | none =>
      rw [addStatement_untitled withoutTags b hTitle]
      refine ⟨?_, (Model.modifyClass_next _ _ _).trans hNext⟩
      exact
        Model.modifyClass_extends _ _
          (fun _ => List.Subset.refl _)

/- A statement is added for an occurrence of one. -/
theorem addStatement_grows
    (withoutTags : Bool)
    (b : Builder)
    (entry : StatementEntry)
    (role : StatementRole) :
    Grows given [.statement entry] b
      (addStatement withoutTags b entry role).1 := by
  rcases addStatement_model withoutTags b entry role with
    ⟨hExtends, hNext⟩
  exact
    ⟨(Model.addStatement_extends b.model _).trans hExtends,
      hNext, rfl, id⟩

/- The title of an argument is numbered if it has none. -/
theorem argumentTitle_fst
    (b : Builder)
    (entry : ArgumentEntry) :
    (b.argumentTitle entry).1 =
      entry.titleAfter b.untitledArguments := by
  unfold argumentTitle ArgumentEntry.titleAfter
  cases entry.title <;> rfl

/-
  At most the argument of a title changes when it is there,
  and its steps stay.
-/
theorem addArgument_model
    (withoutTags : Bool)
    (b : Builder)
    (entry : ArgumentEntry) :
    Model.Extends given
        (b.model.ensureArgument
          (entry.titleAfter b.untitledArguments))
        (addArgument withoutTags b entry).1.model ∧
      (addArgument withoutTags b
          entry).1.model.nextStatement =
        b.model.nextStatement := by
  rw [← argumentTitle_fst]
  have hDescribed : ∀ m : Model,
      Model.Extends given m
          ((m.modifyArgument (b.argumentTitle entry).1
            (describe withoutTags entry)).recordTags
              entry.tags) ∧
        ((m.modifyArgument (b.argumentTitle entry).1
            (describe withoutTags entry)).recordTags
              entry.tags).nextStatement = m.nextStatement := by
    intro m
    have hChanged :
        Model.Extends given m
          (m.modifyArgument (b.argumentTitle entry).1
            (describe withoutTags entry)) :=
      Model.modifyArgument_extends m _ (fun _ _ => rfl)
    exact
      ⟨hChanged.trans (Model.recordTags_extends _ entry.tags),
        Model.modifyArgument_next m _ _⟩
  have hEnsured :=
    Model.ensureArgument_next b.model (b.argumentTitle entry).1
  unfold addArgument
  simp only
  split
  · -- the first occurrence says where the argument is
    have hLocated :
        Model.Extends given
          (b.model.ensureArgument (b.argumentTitle entry).1)
          ((b.model.ensureArgument
            (b.argumentTitle entry).1).modifyArgument
              (b.argumentTitle entry).1
              (fun a =>
                { a with
                  sectionId := b.currentSection?
                  span := entry.span
                  isAutoTitled :=
                    (b.argumentTitle entry).2 })) :=
      Model.modifyArgument_extends _ _ (fun _ _ => rfl)
    rcases hDescribed _ with ⟨hExtends, hNext⟩
    exact
      ⟨hLocated.trans hExtends,
        (hNext.trans (Model.modifyArgument_next _ _ _)).trans
          hEnsured⟩
  · rcases hDescribed
      (b.model.ensureArgument (b.argumentTitle entry).1) with
      ⟨hExtends, hNext⟩
    exact ⟨hExtends, hNext.trans hEnsured⟩

/- No statement is added for an occurrence of an argument. -/
theorem addArgument_grows
    (withoutTags : Bool)
    (b : Builder)
    (entry : ArgumentEntry) :
    Grows given [.argument entry] b
      (addArgument withoutTags b entry).1 := by
  rcases addArgument_model withoutTags b entry with
    ⟨hExtends, hNext⟩
  have hCount :
      (addArgument withoutTags b entry).1.untitledArguments =
        b.untitledArguments
          + untitledCount [.argument entry] := by
    cases hTitle : entry.title <;>
      simp [addArgument, argumentTitle, untitledCount, hTitle,
        Entry.isArgument, Entry.title]
  exact
    ⟨(Model.ensureArgument_extends b.model _).trans hExtends,
      hNext, hCount, id⟩

/- An occurrence is added. -/
theorem addEntry_grows
    (withoutTags : Bool)
    (b : Builder)
    (entry : Entry)
    (role : StatementRole) :
    Grows given [entry] b
      (addEntry withoutTags b entry role).1 := by
  cases entry with
  | statement entry =>
      exact addStatement_grows withoutTags b entry role
  | argument entry =>
      exact addArgument_grows withoutTags b entry

/- The element of an occurrence is there after it. -/
theorem addEntry_contains
    (withoutTags : Bool)
    (b : Builder)
    (entry : Entry)
    (role : StatementRole) :
    (addEntry withoutTags b entry role).1.model.contains
      (addEntry withoutTags b entry role).2.1 = true := by
  cases entry with
  | statement entry =>
      have hExtends :=
        (@addStatement_model [] withoutTags b entry
          role).1
      exact
        hExtends.contains (Model.addStatement_contains _ _)
  | argument entry =>
      have hExtends :=
        (@addArgument_model [] withoutTags b entry).1
      have hTitle :
          (addEntry withoutTags b (.argument entry) role).2.1 =
            .argument (entry.titleAfter b.untitledArguments) :=
        congrArg Element.argument (argumentTitle_fst b entry)
      rw [hTitle]
      exact
        hExtends.contains (Model.ensureArgument_contains _ _)

------------------------------------------------------------
-- Relations
------------------------------------------------------------

/- A fault that is listed is there. -/
theorem report_faults
    {b : Builder}
    {fault : ModelFault}
    (hClean : (b.report fault).faults = []) :
    False := by
  simp [report] at hClean

/-
  What relating two elements does when no fault is found: it
  declares a relation or an equivalence.
-/
theorem relate_cases
    {b : Builder}
    {parent target : Element}
    {marker : Marker}
    {occurrence : Option Nat}
    (hClean :
      (b.relate parent target marker occurrence).faults = []) :
    (∃ kind,
        RelationKind.ofMarker? marker = some kind ∧
        (b.relate parent target marker occurrence).model =
          if marker.incoming then
            (b.model.addRelation target parent kind .explicit
              occurrence).1
          else
            (b.model.addRelation parent target kind .explicit
              occurrence).1) ∨
      ∃ first second,
        RelationKind.ofMarker? marker = none ∧
        parent = .statement first ∧
        target = .statement second ∧
        first ≠ second ∧
        (b.relate parent target marker occurrence).model =
          b.model.declareEquivalence first second := by
  unfold relate at hClean ⊢
  by_cases hSelf : parent = target
  · rw [if_pos hSelf] at hClean
    exact (report_faults hClean).elim
  · simp only [if_neg hSelf] at hClean ⊢
    cases hKind : RelationKind.ofMarker? marker with
    | some kind =>
        refine Or.inl ⟨kind, rfl, ?_⟩
        cases marker.incoming <;> rfl
    | none =>
        rw [hKind] at hClean
        cases parent with
        | argument title => exact (report_faults hClean).elim
        | statement first =>
            cases target with
            | argument title =>
                exact (report_faults hClean).elim
            | statement second =>
                refine
                  Or.inr ⟨first, second, rfl, rfl, rfl, ?_, rfl⟩
                exact fun hSame => hSelf (hSame ▸ rfl)

/- Relating two elements adds no occurrence. -/
theorem relate_grows
    (b : Builder)
    (parent target : Element)
    (marker : Marker)
    (occurrence : Option Nat) :
    Grows given [] b
      (b.relate parent target marker occurrence) := by
  have hFault : ∀ fault, Grows given [] b (b.report fault) :=
    fun fault =>
      ⟨Model.Extends.refl b.model, rfl, rfl,
        fun hClean => (report_faults hClean).elim⟩
  unfold relate
  split
  · exact hFault _
  · cases RelationKind.ofMarker? marker with
    | some kind =>
        exact
          ⟨Model.addRelation_extends _ _ _ _ _,
            Model.addRelation_next _ _ _ _ _ _, rfl, id⟩
    | none =>
        cases parent with
        | argument title => exact hFault _
        | statement first =>
            cases target with
            | argument title => exact hFault _
            | statement second =>
                exact
                  ⟨Model.declareEquivalence_extends _ _ _,
                    Model.declareEquivalence_next _ _ _, rfl,
                    id⟩

/- A relation line when those below it are still missing. -/
def addLine
    (withoutTags : Bool)
    (b : Builder)
    (parent : Element)
    (occurrence : Option Nat)
    (marker : Marker)
    (entry : Entry) : Builder :=
  let (b, target, id) :=
    addEntry withoutTags b entry .relationTarget
  b.relate parent target marker (id <|> occurrence)

/- The occurrence on a relation line is added. -/
theorem addLine_grows
    (withoutTags : Bool)
    (b : Builder)
    (parent : Element)
    (occurrence : Option Nat)
    (marker : Marker)
    (entry : Entry) :
    Grows given [entry] b
      (addLine withoutTags b parent occurrence marker entry) :=
  (addEntry_grows withoutTags b entry .relationTarget).trans
    (relate_grows _ _ _ _ _)

/- The target of a relation line is there after the line. -/
theorem addLine_contains
    (withoutTags : Bool)
    (b : Builder)
    (parent : Element)
    (occurrence : Option Nat)
    (marker : Marker)
    (entry : Entry) :
    (addLine withoutTags b parent occurrence marker
        entry).model.contains
      (addEntry withoutTags b entry .relationTarget).2.1 =
        true := by
  have hRelate :=
    @relate_grows []
      (addEntry withoutTags b entry .relationTarget).1 parent
      (addEntry withoutTags b entry .relationTarget).2.1 marker
      ((addEntry withoutTags b entry .relationTarget).2.2
        <|> occurrence)
  exact
    hRelate.extends_model.contains
      (addEntry_contains withoutTags b entry .relationTarget)

mutual

/- The occurrences of a relation line are added. -/
theorem addRelationTree_grows
    (withoutTags : Bool)
    (b : Builder)
    (parent : Element)
    (occurrence : Option Nat) :
    (tree : RelationEntry) →
      Grows given tree.entries b
        (addRelationTree withoutTags b parent occurrence tree)
| ⟨marker, entry, children, _⟩ =>
    (addLine_grows withoutTags b parent occurrence marker
      entry).trans
        (addRelationTrees_grows withoutTags _ _ _ children)

/- The occurrences of relation lines are added. -/
theorem addRelationTrees_grows
    (withoutTags : Bool)
    (b : Builder)
    (parent : Element)
    (occurrence : Option Nat) :
    (trees : List RelationEntry) →
      Grows given (RelationEntry.entriesOf trees) b
        (addRelationTrees withoutTags b parent occurrence trees)
| [] => Grows.refl b
| tree :: trees =>
    (addRelationTree_grows withoutTags b parent occurrence
      tree).trans
        (addRelationTrees_grows withoutTags _ parent occurrence
          trees)

end

------------------------------------------------------------
-- Models Without Faults
------------------------------------------------------------

/-
  No fault has been found so far, and nothing that is known
  gets lost on the way to a model of declared relations.
-/
structure Reaches (b : Builder) (m : Model) : Prop where
  clean : b.faults = []
  extends_model : ∃ given, b.model.Extends given m
  declared : m.Declared

variable {b : Builder} {m : Model}

/- What reaches a model does so from the start. -/
theorem Grows.reaches
    {c : Builder}
    (hGrows : Grows given es b c)
    (hReaches : c.Reaches m) :
    b.Reaches m := by
  rcases hReaches.extends_model with ⟨more, hExtends⟩
  have hBefore :
      b.model.Extends (given ++ more) c.model :=
    hGrows.extends_model.mono (List.subset_append_left _ _)
  have hAfter : c.model.Extends (given ++ more) m :=
    hExtends.mono (List.subset_append_right _ _)
  exact
    ⟨hGrows.faults hReaches.clean,
      ⟨given ++ more, hBefore.trans hAfter⟩,
      hReaches.declared⟩

/- An occurrence that has been added is recorded. -/
theorem addEntry_recorded
    {withoutTags : Bool}
    {entry : Entry}
    {role : StatementRole}
    (hReaches :
      (addEntry withoutTags b entry role).1.Reaches m) :
    m.EntryRecorded withoutTags b.untitledArguments entry
      (addEntry withoutTags b entry role).2.1
      (List.range' b.model.nextStatement
        (statementCount [entry])) := by
  rcases hReaches.extends_model with ⟨given, hLater⟩
  cases entry with
  | statement entry =>
      have hAdded :
          (b.model.addStatement
              (occurrenceOf withoutTags b entry
                role)).statement? b.model.nextStatement =
            some
              { occurrenceOf withoutTags b entry role with
                id := b.model.nextStatement } := by
        rw [Model.statement?, Model.addStatement_statements]
        exact List.getElem?_concat_length
      have hExtends :=
        (@addStatement_model given withoutTags b entry
          role).1.trans hLater
      rcases hExtends.statement? hAdded with ⟨s, hs, hContent⟩
      have hSame :
          s.content =
            (occurrenceOf withoutTags b entry role).content :=
        hContent
      have hTitle :
          s.title = (b.statementTitle entry).1 :=
        congrArg Content.title hSame
      have hElement :
          (addEntry withoutTags b (.statement entry) role).2.1 =
            .statement s.title :=
        congrArg Element.statement hTitle.symm
      have hOccurrence :=
        (occurrenceOf_isOccurrence withoutTags b entry
          role).of_content hSame
      rw [hElement]
      exact .statement hs hOccurrence
  | argument entry =>
      have hTitle :
          (addEntry withoutTags b (.argument entry) role).2.1 =
            .argument (entry.titleAfter b.untitledArguments) :=
        congrArg Element.argument (argumentTitle_fst b entry)
      have hThere :=
        addEntry_contains withoutTags b (.argument entry) role
      rw [hTitle] at hThere ⊢
      exact .argument (hLater.contains hThere)

/- Elements that have been related are linked. -/
theorem relate_links
    {parent target : Element}
    {marker : Marker}
    {occurrence : Option Nat}
    (hParent : b.model.contains parent = true)
    (hTarget : b.model.contains target = true)
    (hReaches :
      (b.relate parent target marker occurrence).Reaches m) :
    m.Links marker parent target := by
  rcases hReaches.extends_model with ⟨given, hLater⟩
  have hDeclares : ∀ {source target : Element}
      {kind : RelationKind},
      m.Connects source target kind →
        m.Declares source target kind := by
    rintro source target kind ⟨r, hr, hEnds⟩
    exact ⟨r, hr, hReaches.declared r hr, hEnds⟩
  rcases relate_cases hReaches.clean with
    ⟨kind, hKind, hModel⟩ |
      ⟨first, second, hKind, rfl, rfl, hApart, hModel⟩
  · simp only [Model.Links, hKind]
    rw [hModel] at hLater
    by_cases hIncoming : marker.incoming = true
    · rw [if_pos hIncoming] at hLater ⊢
      exact
        hDeclares
          (hLater.connects
            (Model.addRelation_connects _ _ _ _ _))
    · rw [if_neg hIncoming] at hLater ⊢
      exact
        hDeclares
          (hLater.connects
            (Model.addRelation_connects _ _ _ _ _))
  · simp only [Model.Links, hKind]
    rw [hModel] at hLater
    exact
      hLater.equates
        (Model.declareEquivalence_equates hParent hTarget
          hApart)

/-
  An occurrence on a relation line is recorded and linked to
  the element above when the line has been added.
-/
theorem addLine_recorded
    {withoutTags : Bool}
    {parent : Element}
    {occurrence : Option Nat}
    {marker : Marker}
    {entry : Entry}
    (hParent : b.model.contains parent = true)
    (hReaches :
      (addLine withoutTags b parent occurrence marker
        entry).Reaches m) :
    m.EntryRecorded withoutTags b.untitledArguments entry
        (addEntry withoutTags b entry .relationTarget).2.1
        (List.range' b.model.nextStatement
          (statementCount [entry])) ∧
      m.Links marker parent
        (addEntry withoutTags b entry .relationTarget).2.1 := by
  have hEntry :=
    @addEntry_grows [] withoutTags b entry .relationTarget
  have hRelate :=
    @relate_grows []
      (addEntry withoutTags b entry .relationTarget).1 parent
      (addEntry withoutTags b entry .relationTarget).2.1 marker
      ((addEntry withoutTags b entry .relationTarget).2.2
        <|> occurrence)
  exact
    ⟨addEntry_recorded (hRelate.reaches hReaches),
      relate_links (hEntry.extends_model.contains hParent)
        (addEntry_contains withoutTags b entry .relationTarget)
        hReaches⟩

mutual

/- A relation line that has been added is recorded. -/
theorem addRelationTree_recorded
    {withoutTags : Bool}
    {b : Builder}
    {parent : Element}
    {occurrence : Option Nat}
    (hParent : b.model.contains parent = true) :
    (tree : RelationEntry) →
      (addRelationTree withoutTags b parent occurrence
        tree).Reaches m →
      m.TreeRecorded withoutTags b.untitledArguments parent tree
        (List.range' b.model.nextStatement
          (statementCount tree.entries))
| ⟨marker, entry, children, span⟩, hReaches => by
    have hLine :=
      @addLine_grows [] withoutTags b parent occurrence marker
        entry
    have hChildren :=
      @addRelationTrees_grows [] withoutTags
        (addLine withoutTags b parent occurrence marker entry)
        (addEntry withoutTags b entry .relationTarget).2.1
        (addEntry withoutTags b entry .relationTarget).2.2
        children
    have hBelow :=
      addRelationTrees_recorded
        (addLine_contains withoutTags b parent occurrence marker
          entry)
        children hReaches
    rw [hLine.statements, hLine.untitled] at hBelow
    have hEntries :
        RelationEntry.entries ⟨marker, entry, children, span⟩ =
          [entry] ++ RelationEntry.entriesOf children := rfl
    rw [hEntries, statementCount_append,
      ← List.range'_append_1]
    rcases addLine_recorded hParent
      (hChildren.reaches hReaches) with ⟨hEntry, hLinks⟩
    exact .line hEntry hLinks hBelow

/- Relation lines that have been added are recorded. -/
theorem addRelationTrees_recorded
    {withoutTags : Bool}
    {b : Builder}
    {parent : Element}
    {occurrence : Option Nat}
    (hParent : b.model.contains parent = true) :
    (trees : List RelationEntry) →
      (addRelationTrees withoutTags b parent occurrence
        trees).Reaches m →
      m.TreesRecorded withoutTags b.untitledArguments parent
        trees
        (List.range' b.model.nextStatement
          (statementCount (RelationEntry.entriesOf trees)))
| [], _ => .nil
| tree :: trees, hReaches => by
    have hTree :=
      @addRelationTree_grows [] withoutTags b parent
        occurrence tree
    have hTrees :=
      @addRelationTrees_grows [] withoutTags
        (addRelationTree withoutTags b parent occurrence tree)
        parent occurrence trees
    have hFirst :=
      addRelationTree_recorded hParent tree
        (hTrees.reaches hReaches)
    have hRest :=
      addRelationTrees_recorded
        (hTree.extends_model.contains hParent) trees hReaches
    rw [hTree.statements, hTree.untitled] at hRest
    rw [RelationEntry.entriesOf, statementCount_append,
      ← List.range'_append_1]
    exact .cons hFirst hRest

end

------------------------------------------------------------
-- Premise-Conclusion Structures
------------------------------------------------------------

/- The numbered statements of a structure, in their order. -/
theorem roles_entries (r : Reconstruction) :
    (roles r).map RoledEntry.entry = r.statements := by
  have hAll : ∀ items rule,
      (rolesAfter rule items).map RoledEntry.entry =
        Reconstruction.statements ⟨items, r.span⟩ := by
    intro items
    induction items with
    | nil => exact fun _ => rfl
    | cons item items ih =>
        intro rule
        cases item with
        | inference i => cases rule <;> exact ih (some i.rule)
        | statement entry =>
            cases rule <;>
              exact congrArg (entry :: ·) (ih none)
  exact hAll r.items none

/- The occurrences of a numbered statement are added. -/
theorem addStep_grows
    (withoutTags : Bool)
    (argument : String)
    (b : Builder)
    (step : RoledEntry) :
    Grows given step.entry.entries b
      (addStep withoutTags argument b step).1 :=
  (addStatement_grows withoutTags b _ _).trans
    (addRelationTrees_grows withoutTags _ _ _ _)

/- The occurrences of numbered statements are added. -/
theorem addSteps_grows
    (withoutTags : Bool)
    (argument : String)
    (b : Builder)
    (steps : List RoledEntry) :
    Grows given
      ((steps.map RoledEntry.entry).flatMap
        NumberedEntry.entries)
      b
      (addSteps withoutTags argument b steps).1 := by
  induction steps generalizing b with
  | nil => exact Grows.refl b
  | cons step steps ih =>
      exact
        (addStep_grows withoutTags argument b step).trans (ih _)

/- Each numbered statement gives a step. -/
theorem addSteps_length
    (withoutTags : Bool)
    (argument : String)
    (b : Builder)
    (steps : List RoledEntry) :
    (addSteps withoutTags argument b steps).2.length =
      steps.length := by
  induction steps generalizing b with
  | nil => rfl
  | cons step steps ih => exact congrArg (· + 1) (ih _)

/- A numbered statement that has been added is recorded. -/
theorem addStep_recorded
    {withoutTags : Bool}
    {argument : String}
    {b : Builder}
    {step : RoledEntry}
    (hReaches :
      (addStep withoutTags argument b step).1.Reaches m) :
    ∃ element,
      m.EntryRecorded withoutTags b.untitledArguments
          (.statement step.entry.statement) element
          (List.range' b.model.nextStatement 1) ∧
        m.TreesRecorded withoutTags b.untitledArguments element
          step.entry.relations
          (List.range' (b.model.nextStatement + 1)
            (statementCount
              (RelationEntry.entriesOf
                step.entry.relations))) := by
  have hEntry :=
    @addEntry_grows [] withoutTags b
      (.statement step.entry.statement)
      (step.role.inArgument argument step.entry.number)
  have hThere :=
    addEntry_contains withoutTags b
      (.statement step.entry.statement)
      (step.role.inArgument argument step.entry.number)
  have hTrees :=
    @addRelationTrees_grows [] withoutTags
      (addEntry withoutTags b
        (.statement step.entry.statement)
        (step.role.inArgument argument step.entry.number)).1
      (addEntry withoutTags b
        (.statement step.entry.statement)
        (step.role.inArgument argument step.entry.number)).2.1
      (addEntry withoutTags b
        (.statement step.entry.statement)
        (step.role.inArgument argument step.entry.number)).2.2
      step.entry.relations
  have hBelow :=
    addRelationTrees_recorded hThere step.entry.relations
      hReaches
  rw [hEntry.statements, hEntry.untitled] at hBelow
  exact
    ⟨_, addEntry_recorded (hTrees.reaches hReaches), hBelow⟩

/- Numbered statements that have been added are recorded. -/
theorem addSteps_recorded
    {withoutTags : Bool}
    {argument : String}
    {b : Builder}
    {steps : List RoledEntry}
    (hReaches :
      (addSteps withoutTags argument b steps).1.Reaches m) :
    m.StepsRecorded withoutTags b.untitledArguments
      (steps.map RoledEntry.entry)
      (List.range' b.model.nextStatement
        (statementCount
          ((steps.map RoledEntry.entry).flatMap
            NumberedEntry.entries))) := by
  induction steps generalizing b with
  | nil => exact .nil
  | cons step steps ih =>
      have hStep :=
        @addStep_grows [] withoutTags argument b step
      have hSteps :=
        @addSteps_grows [] withoutTags argument
          (addStep withoutTags argument b step).1 steps
      have hRest :=
        @ih (addStep withoutTags argument b step).1 hReaches
      rw [hStep.statements, hStep.untitled] at hRest
      rcases addStep_recorded (hSteps.reaches hReaches) with
        ⟨element, hEntry, hBelow⟩
      have hOwn :
          List.range' b.model.nextStatement
              (statementCount step.entry.entries) =
            List.range' b.model.nextStatement 1 ++
              List.range' (b.model.nextStatement + 1)
                (statementCount
                  (RelationEntry.entriesOf
                    step.entry.relations)) := by
        rw [List.range'_append_1]
        exact
          congrArg (List.range' b.model.nextStatement)
            (statementCount_append
              [.statement step.entry.statement] _)
      rw [List.map_cons, List.flatMap_cons,
        statementCount_append, ← List.range'_append_1, hOwn]
      exact .cons hEntry hBelow hRest

end Builder

end Dialectic
