import Dialectic.Proofs.Model.Coherence
import Dialectic.Proofs.Model.Invariance

/-
  The model of a document is intact: its look-ups find what is
  stored, and no reference in it leads to nothing.  It stays
  so when it is changed.

  Key definitions include:
    * `Builder.Coherent`
    * `Model.IsIntact`
    * `Model.Change`

  Main theorems:
    * `Builder.coherent_kept`
    * `Builder.mem_checkEquivalences`
    * `Model.Coherent.isIntact`
    * `Model.build_changes_intact`
-/

namespace Dialectic

/- A fault that is found while a document is read. -/
def ModelFault.isImmediate : ModelFault → Bool
| .conflictingReconstruction _ => true
| .conflictingEquivalence _ _ _ => false
| .equivalenceWithArgument _ => true
| .selfRelation _ => true
| .danglingReference _ => false

namespace Builder

------------------------------------------------------------
-- Reading Documents
------------------------------------------------------------

/-
  The model is coherent, the open sections are there, and all
  faults were found while the document was read.
-/
structure Coherent (b : Builder) : Prop where
  model : b.model.Coherent
  known : ∀ id ∈ b.openSections,
    id < b.model.sections.length
  faults : ∀ fault ∈ b.faults, fault.isImmediate = true

variable {b : Builder}

/- At the start nothing is incoherent. -/
theorem Coherent.empty : Builder.empty.Coherent :=
  ⟨Model.Coherent.empty,
    fun _ hId => absurd hId List.not_mem_nil,
    fun _ hFault => absurd hFault List.not_mem_nil⟩

/- The innermost open section is there. -/
theorem Coherent.currentSection
    (hCoherent : b.Coherent) :
    b.model.Locates b.currentSection? :=
  fun id hSome =>
    hCoherent.known id (List.mem_of_head? hSome)

/- The model may change as long as it stays coherent. -/
theorem Coherent.of_follows
    {c : Builder}
    (hCoherent : b.Coherent)
    (hFollows : Model.Follows b.model c.model)
    (hOpen : c.openSections = b.openSections)
    (hFaults : c.faults = b.faults) :
    c.Coherent := by
  refine ⟨hFollows.coherent, ?_, ?_⟩
  · intro id hId
    rw [hOpen] at hId
    exact
      Nat.lt_of_lt_of_le (hCoherent.known id hId)
        hFollows.sections
  · rw [hFaults]
    exact hCoherent.faults

/- A fault may be found while the document is read. -/
theorem Coherent.report
    (hCoherent : b.Coherent)
    {fault : ModelFault}
    (hImmediate : fault.isImmediate = true) :
    (b.report fault).Coherent := by
  refine ⟨hCoherent.model, hCoherent.known, ?_⟩
  intro other hOther
  rcases List.mem_append.mp hOther with hOld | hNew
  · exact hCoherent.faults other hOld
  · rw [List.mem_singleton.mp hNew]
    exact hImmediate

/- Adding a statement keeps all coherent. -/
theorem Coherent.addStatement
    (hCoherent : b.Coherent)
    (withoutTags : Bool)
    (entry : StatementEntry)
    (role : StatementRole) :
    (addStatement withoutTags b entry role).1.Coherent := by
  have hAdded :
      Model.Follows b.model
        (b.model.addStatement
          (occurrenceOf withoutTags b entry role)) :=
    hCoherent.model.addStatement hCoherent.currentSection
  refine hCoherent.of_follows ?_ rfl rfl
  cases hTitle : entry.title with
  | some title =>
      have hSame :
          (Builder.addStatement withoutTags b entry
            role).1.model =
            b.model.addStatement
              (occurrenceOf withoutTags b entry role) := by
        simp [Builder.addStatement, occurrenceOf,
          statementTitle, hTitle]
      rw [hSame]
      exact hAdded
  | none =>
      have hMarked :
          (Builder.addStatement withoutTags b entry
            role).1.model =
            (b.model.addStatement
              (occurrenceOf withoutTags b entry
                role)).modifyClass
              (untitled (b.untitledStatements + 1))
              (fun c => { c with isAutoTitled := true }) := by
        simp [Builder.addStatement, occurrenceOf,
          statementTitle, hTitle]
      rw [hMarked]
      exact
        hAdded.trans
          (hAdded.coherent.modifyClass _ (fun _ => rfl)
            (fun _ => rfl) hAdded.coherent.placed.classes)

/- Adding an argument keeps all coherent. -/
theorem Coherent.addArgument
    (hCoherent : b.Coherent)
    (withoutTags : Bool)
    (entry : ArgumentEntry) :
    (addArgument withoutTags b entry).1.Coherent := by
  have hDescribed : ∀ {m : Model}, m.Coherent →
      Model.Follows m
        ((m.modifyArgument (b.argumentTitle entry).1
          (describe withoutTags entry)
          (describe_title withoutTags entry)).recordTags
            entry.tags) := by
    intro m hM
    have hChanged :
        Model.Follows m
          (m.modifyArgument (b.argumentTitle entry).1
            (describe withoutTags entry)
            (describe_title withoutTags entry)) :=
      hM.modifyArgument _ (fun _ => rfl) hM.placed.arguments
        hM.placed.steps
    exact hChanged.trans (hChanged.coherent.recordTags _)
  have hEnsured :=
    hCoherent.model.ensureArgument (b.argumentTitle entry).1
  have hSection :=
    hCoherent.currentSection.mono hEnsured.sections
  refine hCoherent.of_follows ?_ rfl rfl
  unfold Builder.addArgument
  simp only
  split
  · -- the first occurrence says where the argument is
    have hLocated :
        Model.Follows
          (b.model.ensureArgument (b.argumentTitle entry).1)
          ((b.model.ensureArgument
            (b.argumentTitle entry).1).modifyArgument
              (b.argumentTitle entry).1
              (fun a =>
                { a with
                  sectionId := b.currentSection?
                  span := entry.span
                  isAutoTitled :=
                    (b.argumentTitle entry).2 })) :=
      hEnsured.coherent.modifyArgument _ (fun _ => rfl)
        (fun _ _ => hSection) hEnsured.coherent.placed.steps
    have hPlaced := hEnsured.trans hLocated
    exact hPlaced.trans (hDescribed hPlaced.coherent)
  · exact hEnsured.trans (hDescribed hEnsured.coherent)

/- Relating two elements keeps all coherent. -/
theorem Coherent.relate
    (hCoherent : b.Coherent)
    {parent target : Element}
    (hParent : b.model.contains parent = true)
    (hTarget : b.model.contains target = true)
    (marker : Marker)
    (occurrence : Option Nat) :
    (b.relate parent target marker occurrence).Coherent := by
  unfold Builder.relate
  split
  · exact hCoherent.report rfl
  · cases RelationKind.ofMarker? marker with
    | some kind =>
        cases marker.incoming with
        | true =>
            exact
              hCoherent.of_follows
                (hCoherent.model.addRelation hTarget hParent _
                  _ _)
                rfl rfl
        | false =>
            exact
              hCoherent.of_follows
                (hCoherent.model.addRelation hParent hTarget _
                  _ _)
                rfl rfl
    | none =>
        cases parent with
        | argument title => exact hCoherent.report rfl
        | statement first =>
            cases target with
            | argument title => exact hCoherent.report rfl
            | statement second =>
                exact
                  hCoherent.of_follows
                    (hCoherent.model.declareEquivalence _ _)
                    rfl rfl

/- A heading opens a section that is there. -/
theorem Coherent.openSection
    (hCoherent : b.Coherent)
    (heading : Heading) :
    (b.openSection heading).Coherent := by
  have hOrdered :=
    openSection_ordered
      ⟨hCoherent.model.placed.sections, hCoherent.known⟩
      heading
  refine ⟨?_, hOrdered.known, hCoherent.faults⟩
  have hParent :
      b.model.Locates
        (b.openSections.dropWhile
          (fun id =>
            !encloses b.model heading.level id)).head? :=
    fun id hSome =>
      hCoherent.known id
        ((List.dropWhile_sublist _).subset
          (List.mem_of_head? hSome))
  exact
    (hCoherent.model.addSection hParent _ _ _ _ _).coherent

/- Each step that builds a model keeps all coherent. -/
theorem coherent_kept (withoutTags : Bool) :
    Kept withoutTags Builder.Coherent where
  statement entry role hCoherent :=
    hCoherent.addStatement withoutTags entry role
  argument entry hCoherent :=
    hCoherent.addArgument withoutTags entry
  relate marker occurrence hParent hTarget hCoherent :=
    hCoherent.relate hParent hTarget marker occurrence
  steps title _ hSteps hCoherent := by
    refine hCoherent.of_follows ?_ rfl rfl
    dsimp only [withSteps]
    exact
      hCoherent.model.modifyArgument title (fun _ => rfl)
        hCoherent.model.placed.arguments
        (fun _ _ s hs =>
          Model.contains_statement_iff.mp (hSteps s hs))
  conflict _ hCoherent := hCoherent.report rfl
  heading heading hCoherent := hCoherent.openSection heading

/-
  Checking the declared equivalences adds a fault for each one
  that is in conflict.
-/
theorem mem_checkEquivalences
    {fault : ModelFault} :
    fault ∈ b.checkEquivalences.faults ↔
      fault ∈ b.faults ∨
        ∃ pair ∈ b.equivalences, ∃ r,
          conflict? b.model pair.1 pair.2 = some r ∧
            fault =
              .conflictingEquivalence pair.1 pair.2
                (conflictWord r.kind) := by
  have hAll : ∀ (pairs : List (String × String))
      (c : Builder),
      fault ∈ (pairs.foldl checkEquivalence c).faults ↔
        fault ∈ c.faults ∨
          ∃ pair ∈ pairs, ∃ r,
            conflict? c.model pair.1 pair.2 = some r ∧
              fault =
                .conflictingEquivalence pair.1 pair.2
                  (conflictWord r.kind) := by
    intro pairs
    induction pairs with
    | nil => simp
    | cons pair pairs ih =>
        intro c
        have hModel : (checkEquivalence c pair).model = c.model := by
          unfold checkEquivalence
          cases conflict? c.model pair.1 pair.2 <;> rfl
        have hFaults :
            fault ∈ (checkEquivalence c pair).faults ↔
              fault ∈ c.faults ∨ ∃ r,
                conflict? c.model pair.1 pair.2 = some r ∧
                  fault =
                    .conflictingEquivalence pair.1 pair.2
                      (conflictWord r.kind) := by
          unfold checkEquivalence
          cases conflict? c.model pair.1 pair.2 with
          | none => simp
          | some r => simp [Sequence.mem_addNew]
        rw [List.foldl_cons, ih, hModel, hFaults]
        simp only [List.exists_mem_cons_iff, or_assoc]
  exact hAll b.equivalences b

end Builder

namespace Model

variable {m : Model}

------------------------------------------------------------
-- Intact Models
------------------------------------------------------------

/- The sections that statements, classes and arguments hold. -/
def heldSections (m : Model) : List (Option Nat) :=
  m.statements.map Statement.sectionId
    ++ m.classes.map EquivalenceClass.sectionId
    ++ m.arguments.map Argument.sectionId

/-
  No reference leads to nothing.  The indices have exactly the
  titles of what is stored, at their places, so that look-ups
  by title find it.  Each statement is a member of its own
  class only, and there once, and an element lists the ids of
  the relations that touch it in increasing order.
-/
structure IsIntact (m : Model) : Prop where
  verified : m.verify = []
  classTitles : m.classTitles.Nodup
  argumentTitles : m.argumentTitles.Nodup
  classIndexed : ∀ title i,
    m.classIndex.get? title = some i ↔
      m.classTitles[i]? = some title
  argumentIndexed : ∀ title i,
    m.argumentIndex.get? title = some i ↔
      m.argumentTitles[i]? = some title
  class?_iff : ∀ title c,
    m.class? title = some c ↔ c ∈ m.classes ∧ c.title = title
  argument?_iff : ∀ title a,
    m.argument? title = some a ↔
      a ∈ m.arguments ∧ a.title = title
  statementIds :
    m.statements.map Statement.id =
      List.range m.statements.length
  members : ∀ s ∈ m.statements,
    ∃ c, m.class? s.title = some c ∧
      ∀ d ∈ m.classes,
        d.members.count s.id = if d = c then 1 else 0
  steps : ∀ a ∈ m.arguments, ∀ s ∈ a.steps,
    (m.class? s.title).isSome = true
  sections : SectionsOrdered m.sections
  held : ∀ id, some id ∈ m.heldSections →
    (m.section? id).isSome = true
  relationIds :
    m.relations.map Relation.id =
      List.range m.relations.length
  classRelations : ∀ c ∈ m.classes,
    c.relations =
        (m.relationsOf (.statement c.title)).map Relation.id ∧
      c.relations.Pairwise (· < ·)
  argumentRelations : ∀ a ∈ m.arguments,
    a.relations =
        (m.relationsOf (.argument a.title)).map Relation.id ∧
      a.relations.Pairwise (· < ·)

/- The class of a title is the only one that has it. -/
theorem Linked.class?_iff
    (hLinked : m.Linked)
    (title : String)
    (c : EquivalenceClass) :
    m.class? title = some c ↔
      c ∈ m.classes ∧ c.title = title := by
  rw [class?_eq]
  exact
    Sequence.lastWith_eq_some_iff hLinked.classTitles title c

/- The argument of a title is the only one that has it. -/
theorem Linked.argument?_iff
    (hLinked : m.Linked)
    (title : String)
    (a : Argument) :
    m.argument? title = some a ↔
      a ∈ m.arguments ∧ a.title = title := by
  rw [argument?_eq]
  exact
    Sequence.lastWith_eq_some_iff hLinked.argumentTitles title
      a

/- The steps of a title are those of the argument of it. -/
theorem Linked.stepsOf_eq
    (hLinked : m.Linked)
    {a : Argument}
    (hThere : a ∈ m.arguments) :
    m.stepsOf a.title = a.steps := by
  rw [stepsOf,
    (hLinked.argument?_iff a.title a).mpr ⟨hThere, rfl⟩]

/- A class lists the statements of its title. -/
theorem Linked.members_eq
    (hLinked : m.Linked)
    {c : EquivalenceClass}
    (hClass : c ∈ m.classes) :
    c.members =
      (m.statements.filter (fun s => s.title == c.title)).map
        Statement.id := by
  have hFound := (hLinked.class?_iff c.title c).mpr ⟨hClass, rfl⟩
  rw [← hLinked.members, listedMembers, hFound]

/- A statement is a member of a class if it has its title. -/
theorem Linked.mem_members_iff
    (hLinked : m.Linked)
    {s : Statement}
    (hStatement : s ∈ m.statements)
    {c : EquivalenceClass}
    (hClass : c ∈ m.classes) :
    s.id ∈ c.members ↔ s.title = c.title := by
  have hUnique : (m.statements.map Statement.id).Nodup := by
    rw [hLinked.statementIds]
    exact List.nodup_range
  rw [hLinked.members_eq hClass, List.mem_map]
  constructor
  · rintro ⟨t, ht, hId⟩
    rcases List.mem_filter.mp ht with ⟨hMem, hTitle⟩
    have hSame : t = s :=
      List.inj_on_of_nodup_map hUnique hMem hStatement hId
    rw [← hSame]
    exact eq_of_beq hTitle
  · intro hTitle
    exact
      ⟨s, List.mem_filter.mpr ⟨hStatement, by simp [hTitle]⟩,
        rfl⟩

/- A statement is found by its index. -/
theorem Linked.statement?_id
    (hLinked : m.Linked)
    {s : Statement}
    (hs : s ∈ m.statements) :
    m.statement? s.id = some s := by
  rcases List.mem_iff_getElem?.mp hs with ⟨i, hi⟩
  have hLess := (List.getElem?_eq_some_iff.mp hi).1
  have hId :
      (m.statements.map Statement.id)[i]? = some s.id := by
    rw [List.getElem?_map, hi]
    rfl
  rw [hLinked.statementIds, List.getElem?_range hLess] at hId
  rw [← Option.some.inj hId]
  exact hi

/- The members of a class are the statements of its title. -/
theorem Linked.members_filter
    (hLinked : m.Linked)
    {title : String}
    (hThere : m.contains (.statement title) = true) :
    m.members title =
      m.statements.filter (fun s => s.title == title) := by
  rw [contains, ← class?_isSome] at hThere
  rcases Option.isSome_iff_exists.mp hThere with ⟨c, hc⟩
  rcases (hLinked.class?_iff title c).mp hc with
    ⟨hClass, hTitle⟩
  rw [Model.members, hc]
  simp only
  rw [hLinked.members_eq hClass, hTitle, List.filterMap_map]
  have hFound : ∀ s ∈ m.statements.filter
      (fun s => s.title == title),
      (m.statement? ∘ Statement.id) s = some s :=
    fun s hs =>
      hLinked.statement?_id (List.mem_of_mem_filter hs)
  rw [List.filterMap_congr hFound, List.filterMap_some]

/- The ids of some relations of a model increase. -/
theorem Linked.pairwise_ids
    (hLinked : m.Linked)
    (element : Element) :
    ((m.relationsOf element).map Relation.id).Pairwise
      (· < ·) := by
  have hAll :
      (m.relations.map Relation.id).Pairwise (· < ·) := by
    rw [hLinked.relationIds]
    exact List.pairwise_lt_range
  exact hAll.sublist (List.filter_sublist.map Relation.id)

/- Nothing that a linked model refers to is missing. -/
theorem Linked.verify_eq_nil
    (hLinked : m.Linked) :
    m.verify = [] := by
  have hHomes :
      m.statements.filter (fun s => !m.hasClass s) = [] := by
    rw [List.filter_eq_nil_iff]
    intro s hs
    have hThere := hLinked.homes s hs
    rw [contains, ← class?_isSome] at hThere
    rcases Option.isSome_iff_exists.mp hThere with ⟨c, hc⟩
    rcases (hLinked.class?_iff s.title c).mp hc with
      ⟨hClass, hTitle⟩
    have hMember :=
      (hLinked.mem_members_iff hs hClass).mpr hTitle.symm
    simp [hasClass, hc, hTitle, hMember]
  have hEnds :
      (m.relations.flatMap
        (fun r => [r.source, r.target])).filter
          (fun e => !m.contains e) = [] := by
    rw [List.filter_eq_nil_iff]
    intro e he
    rcases List.mem_flatMap.mp he with ⟨r, hr, hEnd⟩
    rcases List.mem_pair.mp hEnd with rfl | rfl
    · simp [(hLinked.ends r hr).1]
    · simp [(hLinked.ends r hr).2]
  unfold verify
  simp only [hHomes, hEnds]
  rfl

/- A statement is a member of its own class, once. -/
theorem Linked.count_members
    (hLinked : m.Linked)
    {s : Statement}
    (hs : s ∈ m.statements) :
    ∃ c, m.class? s.title = some c ∧
      ∀ d ∈ m.classes,
        d.members.count s.id = if d = c then 1 else 0 := by
  have hThere := hLinked.homes s hs
  rw [contains, ← class?_isSome] at hThere
  rcases Option.isSome_iff_exists.mp hThere with ⟨c, hc⟩
  refine ⟨c, hc, ?_⟩
  intro d hd
  have hOwn := hLinked.mem_members_iff hs hd
  by_cases hSame : d = c
  · rw [if_pos hSame]
    have hTitle :=
      ((hLinked.class?_iff s.title c).mp hc).2
    rw [← hSame] at hTitle
    have hAll : (m.statements.map Statement.id).Nodup := by
      rw [hLinked.statementIds]
      exact List.nodup_range
    have hOnce : d.members.Nodup := by
      rw [hLinked.members_eq hd]
      exact
        hAll.sublist (List.filter_sublist.map Statement.id)
    exact
      List.count_eq_one_of_mem hOnce (hOwn.mpr hTitle.symm)
  · rw [if_neg hSame]
    apply List.count_eq_zero_of_not_mem
    intro hMember
    have hFound :=
      (hLinked.class?_iff s.title d).mpr
        ⟨hd, (hOwn.mp hMember).symm⟩
    rw [hc] at hFound
    exact hSame (Option.some.inj hFound).symm

/- Each section that is held by an element is there. -/
theorem Placed.held
    (hPlaced : m.Placed)
    {id : Nat}
    (hHeld : some id ∈ m.heldSections) :
    (m.section? id).isSome = true := by
  have hLess : id < m.sections.length := by
    rcases List.mem_append.mp hHeld with hFirst | hArgument
    · rcases List.mem_append.mp hFirst with
        hStatement | hClass
      · rcases List.mem_map.mp hStatement with ⟨s, hs, hId⟩
        exact hPlaced.statements s hs id hId
      · rcases List.mem_map.mp hClass with ⟨c, hc, hId⟩
        exact hPlaced.classes c hc id hId
    · rcases List.mem_map.mp hArgument with ⟨a, ha, hId⟩
      exact hPlaced.arguments a ha id hId
  simp [section?, hLess]

/- A coherent model is intact. -/
theorem Coherent.isIntact
    (hCoherent : m.Coherent) :
    m.IsIntact := by
  have hLinked := hCoherent.linked
  have hPlaced := hCoherent.placed
  constructor
  case verified => exact hLinked.verify_eq_nil
  case classTitles => exact hLinked.classTitles
  case argumentTitles => exact hLinked.argumentTitles
  case classIndexed =>
    exact fun _ _ => classIndex?_eq_some_iff hLinked.classTitles
  case argumentIndexed =>
    exact fun _ _ =>
      argumentIndex?_eq_some_iff hLinked.argumentTitles
  case class?_iff => exact hLinked.class?_iff
  case argument?_iff => exact hLinked.argument?_iff
  case statementIds => exact hLinked.statementIds
  case members => exact fun s hs => hLinked.count_members hs
  case steps =>
    intro a ha s hs
    rw [class?_isSome]
    exact contains_statement_iff.mpr (hPlaced.steps a ha s hs)
  case sections => exact hPlaced.sections
  case held => exact fun id hHeld => hPlaced.held hHeld
  case relationIds => exact hLinked.relationIds
  case classRelations =>
    intro c hc
    have hFound :=
      (hLinked.class?_iff c.title c).mpr ⟨hc, rfl⟩
    have hListed :
        c.relations =
          (m.relationsOf (.statement c.title)).map
            Relation.id := by
      rw [← hLinked.relations, listedRelations, hFound]
    rw [hListed]
    exact ⟨rfl, hLinked.pairwise_ids _⟩
  case argumentRelations =>
    intro a ha
    have hFound :=
      (hLinked.argument?_iff a.title a).mpr ⟨ha, rfl⟩
    have hListed :
        a.relations =
          (m.relationsOf (.argument a.title)).map
            Relation.id := by
      rw [← hLinked.relations, listedRelations, hFound]
    rw [hListed]
    exact ⟨rfl, hLinked.pairwise_ids _⟩

------------------------------------------------------------
-- Models of Documents
------------------------------------------------------------

/- What is known of a document is coherent. -/
theorem blocks_coherent
    (withoutTags : Bool)
    (d : Document) :
    (d.blocks.foldl (Builder.addBlock withoutTags)
      Builder.empty).Coherent :=
  (Builder.coherent_kept withoutTags).addBlocks
    Builder.Coherent.empty d.blocks

/- The model of a document is coherent. -/
theorem build_coherent
    (withoutTags : Bool)
    (d : Document) :
    (build withoutTags d).1.Coherent := by
  rw [build_model]
  exact (blocks_coherent withoutTags d).model

/- What may be done to a model after it has been built. -/
inductive Change where
| explode
| regroup (plans : List SectionPlan)
| derive (policy : ConflictPolicy)

/- A model after a change. -/
def change (m : Model) : Change → Model
| .explode => m.explode.1
| .regroup plans => (m.regroup plans).1
| .derive policy => (m.derive policy).1

/- A change keeps a model coherent. -/
theorem Coherent.change
    (hCoherent : m.Coherent)
    (change : Change) :
    (m.change change).Coherent := by
  cases change with
  | explode => exact hCoherent.explode.coherent
  | regroup plans => exact hCoherent.regroup plans
  | derive policy => exact (hCoherent.derive policy).coherent

/- So does any number of changes. -/
theorem Coherent.changes
    (hCoherent : m.Coherent)
    (changes : List Change) :
    (changes.foldl Model.change m).Coherent := by
  induction changes generalizing m with
  | nil => exact hCoherent
  | cons first rest ih => exact ih (hCoherent.change first)

/-
  The model of a document is intact, whatever is done to it
  and in whatever order, and building it never finds a
  reference that leads to nothing.
-/
theorem build_changes_intact
    (withoutTags : Bool)
    (d : Document)
    (changes : List Change) :
    (changes.foldl change (build withoutTags d).1).IsIntact ∧
      ∀ element,
        .danglingReference element ∉
          (build withoutTags d).2 := by
  have hBuilt := build_coherent withoutTags d
  constructor
  · exact (hBuilt.changes changes).isIntact
  · intro element hFault
    rcases List.mem_append.mp hFault with hFound | hVerify
    · rcases Builder.mem_checkEquivalences.mp hFound with
        hEarly | ⟨pair, _, r, _, hOther⟩
      · have hImmediate :=
          (blocks_coherent withoutTags d).faults _ hEarly
        cases hImmediate
      · cases hOther
    · have hNone := hBuilt.linked.verify_eq_nil
      unfold build at hNone
      rw [hNone] at hVerify
      exact absurd hVerify List.not_mem_nil

end Model

end Dialectic
