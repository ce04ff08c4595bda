import Dialectic.Proofs.Model.Building
import Dialectic.Proofs.Model.Derivation

/-
  A model is coherent if its parts are linked and all of them
  are in sections that are there.  Every operation on models
  keeps it so.

  Key definitions include:
    * `Model.Locates`
    * `Model.Placed`
    * `Model.Coherent`
    * `Model.Follows`

  Main theorems:
    * `Model.Coherent.addStatement`
    * `Model.Coherent.addRelation`
    * `Model.Coherent.explode`
    * `Model.Coherent.regroup`
    * `Model.Coherent.derive`
-/

namespace Dialectic

namespace Model

variable {m n : Model}

------------------------------------------------------------
-- Places
------------------------------------------------------------

/- If an element is in a section, the section is there. -/
def Locates (m : Model) (sectionId : Option Nat) : Prop :=
  ∀ id, sectionId = some id → id < m.sections.length

/- What is in no section is in none that is missing. -/
theorem locates_none (m : Model) : m.Locates none := by
  intro id hSome
  cases hSome

/- Sections stay there when more of them are added. -/
theorem Locates.mono
    {sectionId : Option Nat}
    (hLocated : m.Locates sectionId)
    (hMore : m.sections.length ≤ n.sections.length) :
    n.Locates sectionId :=
  fun id hSome => Nat.lt_of_lt_of_le (hLocated id hSome) hMore

/-
  Sections are behind those that they are in, elements are in
  sections that are there, and the steps of arguments have
  classes.
-/
structure Placed (m : Model) : Prop where
  sections : SectionsOrdered m.sections
  statements : ∀ s ∈ m.statements, m.Locates s.sectionId
  classes : ∀ c ∈ m.classes, m.Locates c.sectionId
  arguments : ∀ a ∈ m.arguments, m.Locates a.sectionId
  steps : ∀ a ∈ m.arguments, ∀ s ∈ a.steps,
    s.title ∈ m.classTitles

/- Recording tags keeps all places. -/
theorem Placed.recordTags
    (hPlaced : m.Placed)
    (tags : List String) :
    (m.recordTags tags).Placed :=
  ⟨hPlaced.sections, hPlaced.statements, hPlaced.classes,
    hPlaced.arguments, hPlaced.steps⟩

/- Other relations keep all places. -/
theorem Placed.withRelations
    (hPlaced : m.Placed)
    (relations : List Relation) :
    Placed { m with relations := relations } :=
  ⟨hPlaced.sections, hPlaced.statements, hPlaced.classes,
    hPlaced.arguments, hPlaced.steps⟩

/- Other statements may be there if their sections are. -/
theorem Placed.withStatements
    (hPlaced : m.Placed)
    {statements : List Statement}
    (hSections : ∀ s ∈ statements, m.Locates s.sectionId) :
    Placed { m with statements := statements } :=
  ⟨hPlaced.sections, hSections, hPlaced.classes,
    hPlaced.arguments, hPlaced.steps⟩

/- A class may change if its section is there. -/
theorem Placed.modifyClass
    (hPlaced : m.Placed)
    (title : String)
    {f : EquivalenceClass → EquivalenceClass}
    {hTitle : ∀ c, (f c).title = c.title}
    (hSection : ∀ c ∈ m.classes, m.Locates (f c).sectionId) :
    (m.modifyClass title f).Placed := by
  have hTitles :
      (m.modifyClass title f).classTitles = m.classTitles :=
    modifyClass_titles m title
  unfold Model.modifyClass at hTitles ⊢
  cases hIndex : m.classIndex? title with
  | none => exact hPlaced
  | some i =>
      rw [hIndex] at hTitles
      refine
        ⟨hPlaced.sections, hPlaced.statements, ?_,
          hPlaced.arguments, ?_⟩
      · intro c hc
        rcases Sequence.mem_modify hc with hOld | ⟨d, hd, hEq⟩
        · exact hPlaced.classes c hOld
        · rw [hEq]
          exact hSection d hd
      · intro a ha s hs
        rw [hTitles]
        exact hPlaced.steps a ha s hs

/- A statement may change if its section is there. -/
theorem Placed.modifyStatement
    (hPlaced : m.Placed)
    (id : Nat)
    {f : Statement → Statement}
    (hSection : ∀ s ∈ m.statements,
      m.Locates (f s).sectionId) :
    (m.modifyStatement id f).Placed := by
  apply hPlaced.withStatements
  intro s hs
  rcases Sequence.mem_modify hs with hOld | ⟨t, ht, hEq⟩
  · exact hPlaced.statements s hOld
  · rw [hEq]
    exact hSection t ht

/-
  An argument may change if its section and the classes of its
  steps are there.
-/
theorem Placed.modifyArgument
    (hPlaced : m.Placed)
    (title : String)
    {f : Argument → Argument}
    {hTitle : ∀ a, (f a).title = a.title}
    (hSection : ∀ a ∈ m.arguments, m.Locates (f a).sectionId)
    (hSteps : ∀ a ∈ m.arguments, ∀ s ∈ (f a).steps,
      s.title ∈ m.classTitles) :
    (m.modifyArgument title f).Placed := by
  unfold Model.modifyArgument
  cases m.argumentIndex? title with
  | none => exact hPlaced
  | some i =>
      refine
        ⟨hPlaced.sections, hPlaced.statements,
          hPlaced.classes, ?_, ?_⟩
      · intro a ha
        rcases Sequence.mem_modify ha with hOld | ⟨b, hb, hEq⟩
        · exact hPlaced.arguments a hOld
        · rw [hEq]
          exact hSection b hb
      · intro a ha s hs
        rcases Sequence.mem_modify ha with hOld | ⟨b, hb, hEq⟩
        · exact hPlaced.steps a hOld s hs
        · rw [hEq] at hs
          exact hSteps b hb s hs

/- A title may get a class if the section is there. -/
theorem Placed.ensureClass
    (hPlaced : m.Placed)
    (title : String)
    {sectionId : Option Nat}
    (hSection : m.Locates sectionId) :
    (m.ensureClass title sectionId).Placed := by
  unfold Model.ensureClass
  cases m.classIndex? title with
  | some i => exact hPlaced
  | none =>
      refine
        ⟨hPlaced.sections, hPlaced.statements, ?_,
          hPlaced.arguments, ?_⟩
      · intro c hc
        rcases List.mem_append.mp hc with hOld | hNew
        · exact hPlaced.classes c hOld
        · rw [List.mem_singleton.mp hNew]
          exact hSection
      · intro a ha s hs
        rw [classTitles, List.map_append]
        exact List.mem_append_left _ (hPlaced.steps a ha s hs)

/- A title may get an argument. -/
theorem Placed.ensureArgument
    (hPlaced : m.Placed)
    (title : String) :
    (m.ensureArgument title).Placed := by
  unfold Model.ensureArgument
  cases m.argumentIndex? title with
  | some i => exact hPlaced
  | none =>
      refine
        ⟨hPlaced.sections, hPlaced.statements,
          hPlaced.classes, ?_, ?_⟩
      · intro a ha
        rcases List.mem_append.mp ha with hOld | hNew
        · exact hPlaced.arguments a hOld
        · rw [List.mem_singleton.mp hNew]
          exact locates_none m
      · intro a ha s hs
        rcases List.mem_append.mp ha with hOld | hNew
        · exact hPlaced.steps a hOld s hs
        · rw [List.mem_singleton.mp hNew] at hs
          exact absurd hs List.not_mem_nil

/- A statement may be added if its section is there. -/
theorem Placed.addStatement
    (hPlaced : m.Placed)
    {s : Statement}
    (hSection : m.Locates s.sectionId) :
    (m.addStatement s).Placed := by
  have hEnsured := hPlaced.ensureClass s.title hSection
  have hMember :
      ((m.ensureClass s.title s.sectionId).modifyClass s.title
        (addMember s m.nextStatement)
        (addMember_title s _)).Placed := by
    apply hEnsured.modifyClass
    intro c hc
    rw [(addMember_kept s m.nextStatement c).2.2.1]
    exact hEnsured.classes c hc
  rw [addStatement_eq]
  apply (hMember.recordTags s.tags).withStatements
  intro t ht
  rcases List.mem_append.mp ht with hOld | hNew
  · exact (hPlaced.statements t hOld).mono (by simp)
  · rw [List.mem_singleton.mp hNew]
    exact hSection.mono (by simp)

/- Noting a relation at its end keeps all places. -/
theorem Placed.linkEnd
    (hPlaced : m.Placed)
    (element : Element)
    (id : Nat) :
    (m.linkEnd element id).Placed := by
  unfold Model.linkEnd
  cases element with
  | statement title =>
      exact hPlaced.modifyClass title hPlaced.classes
  | argument title =>
      exact
        hPlaced.modifyArgument title hPlaced.arguments
          hPlaced.steps

/- Declaring a relation keeps all places. -/
theorem Placed.addRelation
    (hPlaced : m.Placed)
    (source target : Element)
    (kind : RelationKind)
    (origin : Origin)
    (occurrence : Option Nat) :
    (m.addRelation source target kind origin
      occurrence).1.Placed := by
  have hOccurrence : ∀ (k : Model) (id : Nat),
      k.Placed → (k.linkOccurrence occurrence id).Placed := by
    intro k id hK
    cases occurrence with
    | none => exact hK
    | some o => exact hK.modifyStatement o hK.statements
  unfold Model.addRelation
  cases m.findRelation? source target kind with
  | some id =>
      exact hOccurrence _ id (hPlaced.withRelations _)
  | none =>
      exact
        hOccurrence _ _
          (((hPlaced.linkEnd source _).linkEnd target
            _).withRelations _)

------------------------------------------------------------
-- Coherence
------------------------------------------------------------

/- The parts of a model are linked and placed. -/
structure Coherent (m : Model) : Prop where
  linked : m.Linked
  placed : m.Placed

/- A model without any elements is coherent. -/
theorem Coherent.empty : Model.empty.Coherent := by
  refine ⟨Linked.empty, sectionsOrdered_nil, ?_, ?_, ?_, ?_⟩
  · exact fun s hs => absurd hs List.not_mem_nil
  · exact fun c hc => absurd hc List.not_mem_nil
  · exact fun a ha => absurd ha List.not_mem_nil
  · exact fun a ha => absurd ha List.not_mem_nil

/-
  A coherent model has the elements of another one, and as
  many sections.
-/
structure Follows (m n : Model) : Prop where
  coherent : n.Coherent
  contains : ∀ element, m.contains element = true →
    n.contains element = true
  sections : m.sections.length ≤ n.sections.length

/- A coherent model follows itself. -/
theorem Coherent.refl (hCoherent : m.Coherent) : Follows m m :=
  ⟨hCoherent, fun _ hElement => hElement, Nat.le_refl _⟩

/- Models follow one another. -/
theorem Follows.trans
    {k : Model}
    (hFirst : Follows m n)
    (hSecond : Follows n k) :
    Follows m k :=
  ⟨hSecond.coherent,
    fun element hElement =>
      hSecond.contains element
        (hFirst.contains element hElement),
    Nat.le_trans hFirst.sections hSecond.sections⟩

/- A model follows one after any number of steps if each does. -/
theorem Coherent.foldl
    {α : Type}
    {f : Model → α → Model}
    {as : List α}
    (hCoherent : m.Coherent)
    (hStep : ∀ k, Follows m k → ∀ a ∈ as, Follows k (f k a)) :
    Follows m (as.foldl f m) :=
  List.foldlRecOn (motive := Follows m) as f hCoherent.refl
    (fun k hK a ha => hK.trans (hStep k hK a ha))

/- A model of the same links and sections follows. -/
theorem Follows.of_links
    (hLinked : m.Linked)
    (hSame : SameLinks m n)
    (hPlaced : n.Placed)
    (hSections : n.sections = m.sections) :
    Follows m n :=
  ⟨⟨hLinked.of_same hSame, hPlaced⟩,
    fun element hElement =>
      (hSame.contains element).trans hElement,
    Nat.le_of_eq (congrArg List.length hSections.symm)⟩

/- Recording tags keeps a model coherent. -/
theorem Coherent.recordTags
    (hCoherent : m.Coherent)
    (tags : List String) :
    Follows m (m.recordTags tags) :=
  .of_links hCoherent.linked (.of_eq rfl rfl rfl rfl)
    (hCoherent.placed.recordTags tags) rfl

/- A class may change if its lists and its title stay. -/
theorem Coherent.modifyClass
    (hCoherent : m.Coherent)
    (title : String)
    {f : EquivalenceClass → EquivalenceClass}
    {hTitle : ∀ c, (f c).title = c.title}
    (hMembers : ∀ c, (f c).members = c.members)
    (hRelations : ∀ c, (f c).relations = c.relations)
    (hSection : ∀ c ∈ m.classes, m.Locates (f c).sectionId) :
    Follows m (m.modifyClass title f) :=
  .of_links hCoherent.linked
    (modifyClass_links m title hMembers hRelations)
    (hCoherent.placed.modifyClass title hSection)
    (modifyClass_sections m title f)

/- A statement may change if its id and its title stay. -/
theorem Coherent.modifyStatement
    (hCoherent : m.Coherent)
    (id : Nat)
    {f : Statement → Statement}
    (hHome : ∀ s, (f s).home = s.home)
    (hSection : ∀ s ∈ m.statements,
      m.Locates (f s).sectionId) :
    Follows m (m.modifyStatement id f) :=
  .of_links hCoherent.linked (modifyStatement_links m id hHome)
    (hCoherent.placed.modifyStatement id hSection) rfl

/- An argument may change if its list and its title stay. -/
theorem Coherent.modifyArgument
    (hCoherent : m.Coherent)
    (title : String)
    {f : Argument → Argument}
    {hTitle : ∀ a, (f a).title = a.title}
    (hRelations : ∀ a, (f a).relations = a.relations)
    (hSection : ∀ a ∈ m.arguments, m.Locates (f a).sectionId)
    (hSteps : ∀ a ∈ m.arguments, ∀ s ∈ (f a).steps,
      s.title ∈ m.classTitles) :
    Follows m (m.modifyArgument title f) :=
  .of_links hCoherent.linked
    (modifyArgument_links m title hRelations)
    (hCoherent.placed.modifyArgument title hSection hSteps)
    (modifyArgument_sections m title f)

/- Adding a statement keeps a model coherent. -/
theorem Coherent.addStatement
    (hCoherent : m.Coherent)
    {s : Statement}
    (hSection : m.Locates s.sectionId) :
    Follows m (m.addStatement s) :=
  ⟨⟨hCoherent.linked.addStatement s,
      hCoherent.placed.addStatement hSection⟩,
    fun _ hElement =>
      (@addStatement_extends [] m s).contains hElement,
    Nat.le_of_eq
      (congrArg List.length (addStatement_sections m s).symm)⟩

/- Giving a title an argument keeps a model coherent. -/
theorem Coherent.ensureArgument
    (hCoherent : m.Coherent)
    (title : String) :
    Follows m (m.ensureArgument title) :=
  ⟨⟨hCoherent.linked.ensureArgument title,
      hCoherent.placed.ensureArgument title⟩,
    fun _ hElement =>
      (@ensureArgument_extends [] m title).contains hElement,
    Nat.le_of_eq
      (congrArg List.length
        (ensureArgument_sections m title).symm)⟩

/- Declaring a relation between elements keeps coherence. -/
theorem Coherent.addRelation
    (hCoherent : m.Coherent)
    {source target : Element}
    (hSource : m.contains source = true)
    (hTarget : m.contains target = true)
    (kind : RelationKind)
    (origin : Origin)
    (occurrence : Option Nat) :
    Follows m
      (m.addRelation source target kind origin occurrence).1 :=
  ⟨⟨hCoherent.linked.addRelation hSource hTarget kind origin
        occurrence,
      hCoherent.placed.addRelation source target kind origin
        occurrence⟩,
    fun element hElement =>
      (addRelation_contains m source target kind origin
        occurrence element).trans hElement,
    Nat.le_of_eq
      (congrArg List.length
        (addRelation_sections m source target kind origin
          occurrence).symm)⟩

/- Declaring an equivalence keeps a model coherent. -/
theorem Coherent.declareEquivalence
    (hCoherent : m.Coherent)
    (first second : String) :
    Follows m (m.declareEquivalence first second) := by
  have hLinked : ∀ {k : Model} (title other : String),
      k.Coherent → Follows k (k.linkEquivalent title other) :=
    fun title _ hK =>
      hK.modifyClass title (fun _ => rfl) (fun _ => rfl)
        hK.placed.classes
  unfold Model.declareEquivalence
  split
  · exact hCoherent.refl
  · have hFirst := hLinked first second hCoherent
    exact
      hFirst.trans (hLinked second first hFirst.coherent)

/- Adding a section behind its parent keeps coherence. -/
theorem Coherent.addSection
    (hCoherent : m.Coherent)
    {parent : Option Nat}
    (hParent : m.Locates parent)
    (title : String)
    (level : Nat)
    (tags : List String)
    (data : Record)
    (span : Span) :
    Follows m
      (m.addSection title level parent tags data span) := by
  have hPlaced := hCoherent.placed
  have hSame :
      SameLinks m
        (m.addSection title level parent tags data span) :=
    .of_eq rfl rfl rfl rfl
  have hMore :
      m.sections.length ≤
        (m.addSection title level parent tags data
          span).sections.length := by
    simp [addSection_sections]
  refine
    ⟨⟨hCoherent.linked.of_same hSame,
        addSection_ordered hPlaced.sections hParent title level
          tags data span,
        ?_, ?_, ?_, hPlaced.steps⟩,
      fun element hElement =>
        (hSame.contains element).trans hElement,
      hMore⟩
  · exact fun s hs => (hPlaced.statements s hs).mono hMore
  · exact fun c hc => (hPlaced.classes c hc).mono hMore
  · exact fun a ha => (hPlaced.arguments a ha).mono hMore

/- Removing all sections keeps a model coherent. -/
theorem Coherent.clearSections
    (hCoherent : m.Coherent) :
    m.clearSections.Coherent := by
  have hSame := clearSections_links m
  refine
    ⟨hCoherent.linked.of_same hSame, sectionsOrdered_nil,
      ?_, ?_, ?_, ?_⟩
  · intro s hs
    rcases List.mem_map.mp hs with ⟨t, _, rfl⟩
    exact locates_none _
  · intro c hc
    rcases List.mem_map.mp hc with ⟨d, _, rfl⟩
    exact locates_none _
  · intro a ha
    rcases List.mem_map.mp ha with ⟨b, _, rfl⟩
    exact locates_none _
  · intro a ha s hs
    rcases List.mem_map.mp ha with ⟨b, hb, rfl⟩
    rw [hSame.classTitles]
    exact hCoherent.placed.steps b hb s hs

------------------------------------------------------------
-- Splitting Arguments
------------------------------------------------------------

/- The steps of inferences have the titles of all steps. -/
theorem inferencesAfter_titles
    {titles : List String}
    {read steps : List Step}
    (hRead : ∀ s ∈ read, s.title ∈ titles)
    (hSteps : ∀ s ∈ steps, s.title ∈ titles) :
    ∀ part ∈ Explosion.inferencesAfter read steps,
      ∀ s ∈ part, s.title ∈ titles := by
  induction steps generalizing read with
  | nil => exact fun part hPart => absurd hPart List.not_mem_nil
  | cons step steps ih =>
      have hHere := hSteps step List.mem_cons_self
      have hLater : ∀ s ∈ steps, s.title ∈ titles :=
        fun s hs => hSteps s (List.mem_cons_of_mem step hs)
      unfold Explosion.inferencesAfter
      split
      · -- a premise is read for the next inference
        apply ih _ hLater
        intro s hs
        rcases List.mem_append.mp hs with hOld | hNew
        · exact hRead s hOld
        · rw [List.mem_singleton.mp hNew]
          exact hHere
      · -- a conclusion ends one and is a premise of the next
        intro part hPart
        rcases List.mem_cons.mp hPart with hFirst | hRest
        · intro s hs
          rw [hFirst] at hs
          rcases List.mem_append.mp hs with hOld | hNew
          · exact hRead s hOld
          · rw [List.mem_singleton.mp hNew]
            exact hHere
        · refine ih ?_ hLater part hRest
          intro s hs
          rw [List.mem_singleton.mp hs]
          exact hHere

/- Marking premises keeps a model coherent. -/
theorem Coherent.markPremises
    (hCoherent : m.Coherent)
    (steps : List Step) :
    Follows m (Explosion.markPremises m steps) :=
  hCoherent.foldl
    (fun _ hK s _ =>
      hK.coherent.modifyClass s.title (fun _ => rfl)
        (fun _ => rfl) hK.coherent.placed.classes)

/- Giving an argument the steps of a part keeps coherence. -/
theorem Coherent.fill
    (hCoherent : m.Coherent)
    {origin : Argument}
    (hOrigin : m.Locates origin.sectionId)
    {steps : List Step}
    (hSteps : ∀ s ∈ steps, s.title ∈ m.classTitles)
    (title : String)
    (isPart : Bool) :
    Follows m
      (m.modifyArgument title
        (Explosion.fill origin isPart steps)
        (Explosion.fill_title origin isPart steps)) := by
  cases isPart with
  | true =>
      exact
        hCoherent.modifyArgument title (fun _ => rfl)
          (fun _ _ => hOrigin) (fun _ _ => hSteps)
  | false =>
      exact
        hCoherent.modifyArgument title (fun _ => rfl)
          hCoherent.placed.arguments (fun _ _ => hSteps)

/- Linking the parts of an argument keeps coherence. -/
theorem Coherent.link
    (hCoherent : m.Coherent)
    {previous : Option String}
    (hPrevious : ∀ title, previous = some title →
      m.contains (.argument title) = true)
    {current : String}
    (hCurrent : m.contains (.argument current) = true) :
    Follows m (Explosion.link m previous current) := by
  cases previous with
  | none => exact hCoherent.refl
  | some title =>
      exact
        hCoherent.addRelation (hPrevious title rfl) hCurrent _
          _ _

/- A model when a part of an argument has been added. -/
def addPart
    (m : Model)
    (origin : Argument)
    (previous : Option String)
    (current : String)
    (steps : List Step) : Model :=
  Explosion.link (Explosion.withPart m origin current steps)
    previous current

/- Adding a part of an argument keeps a model coherent. -/
theorem Coherent.addPart
    (hCoherent : m.Coherent)
    {origin : Argument}
    (hOrigin : m.Locates origin.sectionId)
    {previous : Option String}
    (hPrevious : ∀ title, previous = some title →
      m.contains (.argument title) = true)
    {steps : List Step}
    (hSteps : ∀ s ∈ steps,
      m.contains (.statement s.title) = true)
    (current : String) :
    Follows m (m.addPart origin previous current steps) ∧
      (m.addPart origin previous current steps).contains
        (.argument current) = true := by
  have hMarked := hCoherent.markPremises steps
  have hEnsured :=
    hMarked.trans (hMarked.coherent.ensureArgument current)
  have hThere :=
    ensureArgument_contains (Explosion.markPremises m steps)
      current
  have hFill :=
    hEnsured.coherent.fill
      (hOrigin.mono hEnsured.sections)
      (fun s hs =>
        contains_statement_iff.mp
          (hEnsured.contains _ (hSteps s hs)))
      current (current != origin.title)
  have hFilled := hEnsured.trans hFill
  have hCurrent := hFill.contains _ hThere
  have hLink :=
    hFilled.coherent.link
      (fun title hTitle =>
        hFilled.contains _ (hPrevious title hTitle))
      hCurrent
  exact
    ⟨hFilled.trans hLink, hLink.contains _ hCurrent⟩

/- Adding the parts of an argument keeps a model coherent. -/
theorem Coherent.addParts
    {origin : Argument}
    {parts : List (List Step)}
    (hCoherent : m.Coherent)
    (hOrigin : m.Locates origin.sectionId)
    (hParts : ∀ part ∈ parts, ∀ s ∈ part,
      m.contains (.statement s.title) = true)
    {previous : Option String}
    (hPrevious : ∀ title, previous = some title →
      m.contains (.argument title) = true)
    (number : Nat) :
    Follows m
      (Explosion.addParts origin previous number m parts) := by
  induction parts generalizing previous number m with
  | nil => exact hCoherent.refl
  | cons steps parts ih =>
      have hPart :=
        hCoherent.addPart hOrigin hPrevious
          (hParts steps List.mem_cons_self)
      unfold Explosion.addParts
      refine
        (hPart _).1.trans
          (ih (hPart _).1.coherent
            (hOrigin.mono (hPart _).1.sections) ?_ ?_ _)
      · exact fun part hMem s hs =>
          (hPart _).1.contains _
            (hParts part (List.mem_cons_of_mem steps hMem) s hs)
      · intro title hTitle
        rw [← Option.some.inj hTitle]
        exact (hPart _).2

/- Splitting an argument keeps a model coherent. -/
theorem Coherent.split
    (hCoherent : m.Coherent)
    (title : String) :
    Follows m (Explosion.split m title) := by
  unfold Explosion.split
  cases hFound : m.argument? title with
  | none => exact hCoherent.refl
  | some a =>
      have hPlaced := hCoherent.placed
      have hMem : a ∈ m.arguments := by
        rcases Option.bind_eq_some_iff.mp hFound with
          ⟨i, _, ha⟩
        exact List.mem_of_getElem? ha
      have hParts :=
        inferencesAfter_titles
          (fun s hs => absurd hs List.not_mem_nil)
          (hPlaced.steps a hMem)
      exact
        hCoherent.addParts (hPlaced.arguments a hMem)
          (fun part hPart s hs =>
            contains_statement_iff.mpr (hParts part hPart s hs))
          (fun _ hNone => by cases hNone)
          1

/- Splitting arguments keeps a model coherent. -/
theorem Coherent.explode
    (hCoherent : m.Coherent) :
    Follows m m.explode.1 :=
  hCoherent.foldl
    (fun _ hK title _ => hK.coherent.split title)

------------------------------------------------------------
-- Replacing Sections
------------------------------------------------------------

mutual

/- Adding the section of a plan keeps a model coherent. -/
theorem Coherent.regroupingSection
    {m : Model}
    (hCoherent : m.Coherent)
    {parent : Option Nat}
    (hParent : m.Locates parent)
    (level : Nat) :
    (plan : SectionPlan) →
      Follows m (Regrouping.addSection m parent level plan).1 ∧
        ∀ place ∈
            (Regrouping.addSection m parent level plan).2,
          place.1 <
            (Regrouping.addSection m parent level
              plan).1.sections.length
| ⟨title, statements, arguments, tags, isClosed, children⟩ => by
    have hAdded :=
      hCoherent.addSection hParent title level []
        (Regrouping.planData isClosed) Span.origin
    have hHere :
        m.nextSection <
          (m.addSection title level parent []
            (Regrouping.planData isClosed)
            Span.origin).sections.length := by
      simp [addSection_sections, nextSection]
    have hInside :
        (m.addSection title level parent []
            (Regrouping.planData isClosed)
            Span.origin).Locates (some m.nextSection) := by
      intro id hSame
      rw [← Option.some.inj hSame]
      exact hHere
    have hChildren :=
      regroupingSections hAdded.coherent hInside (level + 1)
        children
    refine ⟨hAdded.trans hChildren.1, ?_⟩
    intro place hPlace
    rcases List.mem_cons.mp hPlace with hFirst | hRest
    · rw [hFirst]
      exact Nat.lt_of_lt_of_le hHere hChildren.1.sections
    · exact hChildren.2 place hRest

/- Adding the sections of plans keeps a model coherent. -/
theorem Coherent.regroupingSections
    {m : Model}
    (hCoherent : m.Coherent)
    {parent : Option Nat}
    (hParent : m.Locates parent)
    (level : Nat) :
    (plans : List SectionPlan) →
      Follows m
          (Regrouping.addSections m parent level plans).1 ∧
        ∀ place ∈
            (Regrouping.addSections m parent level plans).2,
          place.1 <
            (Regrouping.addSections m parent level
              plans).1.sections.length
| [] =>
    ⟨hCoherent.refl,
      fun _ hPlace => absurd hPlace List.not_mem_nil⟩
| plan :: plans => by
    have hFirst :=
      regroupingSection hCoherent hParent level plan
    have hRest :=
      regroupingSections hFirst.1.coherent
        (hParent.mono hFirst.1.sections) level plans
    refine ⟨hFirst.1.trans hRest.1, ?_⟩
    intro place hPlace
    rcases List.mem_append.mp hPlace with hHere | hLater
    · exact
        Nat.lt_of_lt_of_le (hFirst.2 place hHere)
          hRest.1.sections
    · exact hRest.2 place hLater

end

/- A section that is there can house elements. -/
theorem locates_some
    {id : Nat}
    (hThere : id < m.sections.length) :
    m.Locates (some id) := by
  intro other hSame
  rw [← Option.some.inj hSame]
  exact hThere

/- Putting a class into a section keeps a model coherent. -/
theorem Coherent.placeStatement
    (hCoherent : m.Coherent)
    {id : Nat}
    (hThere : id < m.sections.length)
    (title : String) :
    Follows m (Regrouping.placeStatement id m title) := by
  unfold Regrouping.placeStatement
  cases m.class? title with
  | none => exact hCoherent.refl
  | some c =>
      simp only
      split
      · have hClass :
            Follows m
              (m.modifyClass title
                (fun c => { c with sectionId := some id })) :=
          hCoherent.modifyClass title (fun _ => rfl)
            (fun _ => rfl) (fun _ _ => locates_some hThere)
        apply hClass.trans
        apply hClass.coherent.foldl
        intro k hK s _
        exact
          hK.coherent.modifyStatement s (fun _ => rfl)
            (fun _ _ =>
              locates_some
                (Nat.lt_of_lt_of_le hThere
                  (hClass.trans hK).sections))
      · exact hCoherent.refl

/- Putting an argument into a section keeps coherence. -/
theorem Coherent.placeArgument
    (hCoherent : m.Coherent)
    {id : Nat}
    (hThere : id < m.sections.length)
    (title : String) :
    Follows m (Regrouping.placeArgument id m title) := by
  apply hCoherent.modifyArgument
  · intro a
    split <;> rfl
  · intro a ha
    split
    · exact locates_some hThere
    · exact hCoherent.placed.arguments a ha
  · intro a ha s hs
    apply hCoherent.placed.steps a ha s
    split at hs <;> exact hs

/- Placing listed elements keeps a model coherent. -/
theorem Coherent.placeListed
    (hCoherent : m.Coherent)
    {place : Nat × SectionPlan}
    (hThere : place.1 < m.sections.length) :
    Follows m (Regrouping.placeListed m place) := by
  have hStatements :
      Follows m
        (place.2.statements.foldl
          (Regrouping.placeStatement place.1) m) :=
    hCoherent.foldl
      (fun k hK title _ =>
        hK.coherent.placeStatement
          (Nat.lt_of_lt_of_le hThere hK.sections) title)
  refine
    hStatements.trans (hStatements.coherent.foldl ?_)
  intro k hK title _
  exact
    hK.coherent.placeArgument
      (Nat.lt_of_lt_of_le hThere
        (hStatements.trans hK).sections)
      title

/- Placing elements by their tags keeps a model coherent. -/
theorem Coherent.placeTagged
    (hCoherent : m.Coherent)
    {place : Nat × SectionPlan}
    (hThere : place.1 < m.sections.length) :
    Follows m (Regrouping.placeTagged m place) := by
  have hStatements : ∀ titles : List String,
      Follows m
        (titles.foldl (Regrouping.placeStatement place.1) m) :=
    fun titles =>
      hCoherent.foldl
        (fun k hK title _ =>
          hK.coherent.placeStatement
            (Nat.lt_of_lt_of_le hThere hK.sections) title)
  refine
    (hStatements _).trans ((hStatements _).coherent.foldl ?_)
  intro k hK title _
  exact
    hK.coherent.modifyArgument title (fun _ => rfl)
      (fun _ _ =>
        locates_some
          (Nat.lt_of_lt_of_le hThere
            ((hStatements _).trans hK).sections))
      hK.coherent.placed.steps

/- Replacing the sections keeps a model coherent. -/
theorem Coherent.regroup
    (hCoherent : m.Coherent)
    (plans : List SectionPlan) :
    (m.regroup plans).1.Coherent := by
  rcases hCoherent.clearSections.regroupingSections
      (locates_none _) 1 plans with ⟨hAdded, hPlaces⟩
  have hListed :
      Follows
        (Regrouping.addSections m.clearSections none 1 plans).1
        ((Regrouping.addSections m.clearSections none 1
          plans).2.foldl Regrouping.placeListed
            (Regrouping.addSections m.clearSections none 1
              plans).1) :=
    hAdded.coherent.foldl
      (fun k hK place hPlace =>
        hK.coherent.placeListed
          (Nat.lt_of_lt_of_le (hPlaces place hPlace)
            hK.sections))
  have hTagged :=
    hListed.coherent.foldl
      (fun k hK place hPlace =>
        hK.coherent.placeTagged
          (Nat.lt_of_lt_of_le (hPlaces place hPlace)
            (hListed.trans hK).sections))
  exact hTagged.coherent

------------------------------------------------------------
-- Derived Relations
------------------------------------------------------------

/- What the rules relate belongs to the model. -/
theorem Coherent.contains_of_yields
    (hCoherent : m.Coherent)
    {source target : Element}
    {kind : RelationKind}
    (hYields : Derivation.Yields m source target kind) :
    m.contains source = true ∧ m.contains target = true := by
  have hArgument : ∀ a ∈ m.arguments,
      m.contains (.argument a.title) = true :=
    fun a ha =>
      contains_argument_iff.mpr (List.mem_map_of_mem ha)
  have hEnds : ∀ r ∈ m.explicitRelations,
      m.contains r.source = true ∧
        m.contains r.target = true :=
    fun r hr =>
      hCoherent.linked.ends r (List.mem_filter.mp hr).1
  have hLed : ∀ r ∈ m.explicitRelations,
      ∀ {source target : Element}, r.Leads source target →
        m.contains source = true ∧
          m.contains target = true := by
    rintro r hr _ _ (⟨rfl, rfl⟩ | ⟨_, rfl, rfl⟩)
    · exact hEnds r hr
    · exact (hEnds r hr).symm
  cases hYields with
  | promoted ha _ hr _ hLeads =>
      exact ⟨hArgument _ ha, (hLed _ hr hLeads).2⟩
  | premiseAttack ha _ hr _ hLeads =>
      exact ⟨(hLed _ hr hLeads).1, hArgument _ ha⟩
  | carried ha hConclusion hr _ _ hTarget _ =>
      have hStep :=
        hCoherent.placed.steps _ ha _
          (List.mem_of_find?_eq_some hConclusion)
      rw [← hTarget]
      exact
        ⟨contains_statement_iff.mpr hStep, (hEnds _ hr).2⟩
  | answered hr _ hSource hTarget =>
      rw [← hSource, ← hTarget]
      exact (hEnds _ hr).symm

/- Deriving relations keeps a model coherent. -/
theorem Coherent.derive
    (hCoherent : m.Coherent)
    (policy : ConflictPolicy) :
    Follows m (m.derive policy).1 := by
  apply List.foldlRecOn (Derivation.candidates m)
    (Derivation.consider policy)
    (motive := fun state => Follows m state.1)
  · exact hCoherent.refl
  · rintro ⟨k, counts⟩ hK c hc
    have hEnds :=
      hCoherent.contains_of_yields
        (Derivation.yields_of_mem_candidates hc)
    unfold Derivation.consider
    simp only
    repeat' split
    · exact hK
    · exact hK
    · exact hK
    · exact
        hK.trans
          (hK.coherent.addRelation
            (hK.contains _ hEnds.1) (hK.contains _ hEnds.2)
            _ _ _)

end Model

end Dialectic
