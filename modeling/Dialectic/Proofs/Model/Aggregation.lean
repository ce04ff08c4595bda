import Dialectic.Document.Parser
import Dialectic.Notation.Yaml.Reader
import Dialectic.Proofs.Data.Record
import Dialectic.Proofs.Model.Appearance
import Dialectic.Proofs.Model.Integrity

/-
  The classes of a model sum up their members.  Each statement
  that is added to a model is added to its class, and nothing
  else changes what a class sums up, in whatever order they
  occur.  The tags of a model are those of its elements.

  Key definitions include:
    * `EquivalenceClass.Collects`
    * `EquivalenceClass.Aggregates`
    * `Model.Gathered`
    * `Model.Tagged`

  Main theorems:
    * `EquivalenceClass.Collects.addMember`
    * `Model.Gathered.addStatement`
    * `Builder.gathered_kept`
    * `Builder.tagged_kept`
    * `Model.build_aggregates`
-/

namespace Dialectic

------------------------------------------------------------
-- Sums of Statements
------------------------------------------------------------

namespace StatementRole

/- A statement stands at the top level. -/
def isTop : StatementRole → Bool
| .top => true
| _ => false

/- A statement is a premise. -/
def isPremise : StatementRole → Bool
| .premise _ _ => true
| _ => false

/- A statement is a conclusion, perhaps not the main one. -/
def isConclusion : StatementRole → Bool
| .conclusion _ _ => true
| .intermediaryConclusion _ _ => true
| _ => false

end StatementRole

namespace EquivalenceClass

/-
  A class collects what some statements say: their tags in the
  order in which they come first, for each key the value of the
  first one that has it, and their roles.
-/
structure Collects
    (c : EquivalenceClass)
    (ms : List Statement) : Prop where
  members : c.members = ms.map Statement.id
  tags : c.tags = (ms.flatMap Statement.tags).eraseDups
  data : ∀ key,
    c.data.get? key = ms.findSome? (fun s => s.data.get? key)
  isTop : c.isUsedAsTopLevelStatement =
    ms.any (fun s => s.role.isTop)
  isPremise : c.isUsedAsPremise =
    ms.any (fun s => s.role.isPremise)
  isConclusion : c.isUsedAsConclusion =
    ms.any (fun s => s.role.isConclusion)

/-
  A class is the sum of some statements.  It is in the section
  of the first of them.
-/
structure Aggregates
    (c : EquivalenceClass)
    (ms : List Statement) : Prop extends
    c.Collects ms where
  nonempty : ms ≠ []
  sectionId : c.sectionId = ms.head?.bind Statement.sectionId

/- A class without links and without its mark. -/
def core (c : EquivalenceClass) : EquivalenceClass :=
  { c.bare with isAutoTitled := false }

variable {c d : EquivalenceClass} {ms ns : List Statement}

/- A new class collects nothing. -/
theorem collects_nil
    (title : String)
    (order : Nat)
    (sectionId : Option Nat) :
    Collects
      { EquivalenceClass.new title order with
        sectionId := sectionId } [] :=
  ⟨rfl, rfl, fun _ => rfl, rfl, rfl, rfl⟩

/- A class that gains a member collects what it says, too. -/
theorem Collects.addMember
    (hCollects : c.Collects ms)
    (s : Statement)
    (id : Nat) :
    (Model.addMember s id c).Collects
      (ms ++ [{ s with id := id }]) := by
  constructor
  · rw [List.map_append, ← hCollects.members]
    rfl
  · rw [List.flatMap_append, Sequence.eraseDups_addAllNew,
      ← hCollects.tags]
    simp [Model.addMember]
  · intro key
    rw [List.findSome?_append, ← hCollects.data,
      List.findSome?_singleton]
    exact Record.get?_addMissing c.data s.data key
  · rw [List.any_append, ← hCollects.isTop]
    unfold Model.addMember
    cases s.role <;> simp [noteRole, StatementRole.isTop]
  · rw [List.any_append, ← hCollects.isPremise]
    unfold Model.addMember
    cases s.role <;> simp [noteRole, StatementRole.isPremise]
  · rw [List.any_append, ← hCollects.isConclusion]
    unfold Model.addMember
    cases s.role <;> simp [noteRole, StatementRole.isConclusion]

/- It goes on being the sum of its members. -/
theorem Aggregates.addMember
    (hSum : c.Aggregates ms)
    (s : Statement)
    (id : Nat) :
    (Model.addMember s id c).Aggregates
      (ms ++ [{ s with id := id }]) := by
  refine ⟨hSum.toCollects.addMember s id, by simp, ?_⟩
  rw [(Model.addMember_kept s id c).2.2.1, hSum.sectionId,
    List.head?_append_of_ne_nil _ hSum.nonempty]

/- A new class is the sum of its first member. -/
theorem aggregates_singleton
    (s : Statement)
    (id order : Nat) :
    (Model.addMember s id
      { EquivalenceClass.new s.title order with
        sectionId := s.sectionId }).Aggregates
      [{ s with id := id }] := by
  refine
    ⟨(collects_nil s.title order s.sectionId).addMember s id,
      by simp, ?_⟩
  rw [(Model.addMember_kept s id _).2.2.1]
  rfl

/- Links and marks do not matter. -/
theorem Aggregates.of_core
    (hSum : c.Aggregates ms)
    (hSame : d.core = c.core) :
    d.Aggregates ms := by
  simp only [core, bare, EquivalenceClass.mk.injEq, true_and]
    at hSame
  rcases hSame with
    ⟨_, hMembers, hTags, hData, hTop, hPremise, hConclusion,
      hSection, _⟩
  exact
    ⟨⟨hMembers.trans hSum.members, hTags.trans hSum.tags,
        fun key => hData ▸ hSum.data key,
        hTop.trans hSum.isTop, hPremise.trans hSum.isPremise,
        hConclusion.trans hSum.isConclusion⟩,
      hSum.nonempty, hSection.trans hSum.sectionId⟩

/- Neither do the relations that the statements declare. -/
theorem Aggregates.of_bare
    (hSum : c.Aggregates (ms.map Statement.bare)) :
    c.Aggregates ms := by
  refine ⟨⟨?_, ?_, ?_, ?_, ?_, ?_⟩, ?_, ?_⟩
  · rw [hSum.members, List.map_map]
    rfl
  · rw [hSum.tags, List.flatMap_map]
    rfl
  · intro key
    rw [hSum.data, List.findSome?_map]
    rfl
  · rw [hSum.isTop, List.any_map]
    rfl
  · rw [hSum.isPremise, List.any_map]
    rfl
  · rw [hSum.isConclusion, List.any_map]
    rfl
  · rintro rfl
    exact hSum.nonempty rfl
  · rw [hSum.sectionId]
    cases ms <;> rfl

end EquivalenceClass

namespace Model

variable {m n : Model}

------------------------------------------------------------
-- Classes of Models
------------------------------------------------------------

/- The statements of a title, without their relations. -/
def bareMembers (m : Model) (title : String) : List Statement :=
  (m.statements.map Statement.bare).filter
    (fun s => s.title == title)

/-
  The classes of a model are numbered in their order, and each
  is the sum of the statements of its title.
-/
structure Gathered (m : Model) : Prop where
  orders :
    m.classes.map EquivalenceClass.order =
      List.range m.classes.length
  sums : ∀ title c, m.class? title = some c →
    c.Aggregates (m.bareMembers title)

/- A model without any elements has nothing to sum up. -/
theorem Gathered.empty : Model.empty.Gathered :=
  ⟨rfl, fun _ _ hNone => by cases hNone⟩

/- What leaves the sums of the classes leaves what they are. -/
theorem Gathered.of_core
    (hGathered : m.Gathered)
    (hClasses :
      n.classes.map EquivalenceClass.core =
        m.classes.map EquivalenceClass.core)
    (hStatements :
      n.statements.map Statement.bare =
        m.statements.map Statement.bare) :
    n.Gathered := by
  have hOrder : ∀ cs : List EquivalenceClass,
      cs.map EquivalenceClass.order =
        (cs.map EquivalenceClass.core).map
          EquivalenceClass.order := by
    intro cs
    rw [List.map_map]
    rfl
  have hClass : ∀ k : Model, ∀ title,
      (k.class? title).map EquivalenceClass.core =
        Sequence.lastWith EquivalenceClass.title title
          (k.classes.map EquivalenceClass.core) := by
    intro k title
    have hTitle : ∀ c : EquivalenceClass,
        c.core.title = c.title :=
      fun _ => rfl
    rw [Sequence.lastWith_map hTitle, Model.class?_eq]
  have hLength : n.classes.length = m.classes.length := by
    rw [← List.length_map EquivalenceClass.core, hClasses,
      List.length_map]
  constructor
  · rw [hOrder, hClasses, ← hOrder, hLength]
    exact hGathered.orders
  · intro title d hd
    have hSame := hClass n title
    rw [hClasses, ← hClass, hd, Option.map_some] at hSame
    rcases Option.map_eq_some_iff.mp hSame.symm with
      ⟨c, hc, hCore⟩
    rw [bareMembers, hStatements]
    exact (hGathered.sums title c hc).of_core hCore.symm

/- What leaves the elements but for their links does so. -/
theorem Gathered.of_elements
    (hGathered : m.Gathered)
    (hSame : SameElements m n) :
    n.Gathered := by
  refine hGathered.of_core ?_ hSame.statements
  have hCore :
      EquivalenceClass.core ∘ EquivalenceClass.bare =
        EquivalenceClass.core :=
    rfl
  rw [← hCore, ← List.map_map, hSame.classes, List.map_map]

/- A statement that is added is one more of its title. -/
theorem bareMembers_addStatement
    (m : Model)
    (s : Statement)
    (title : String) :
    (m.addStatement s).bareMembers title =
      m.bareMembers title
        ++ if s.title = title then
            [{ s.bare with id := m.nextStatement }]
          else [] := by
  rw [bareMembers, addStatement_statements, List.map_append,
    List.filter_append]
  by_cases hHere : s.title = title <;>
    simp [bareMembers, Statement.bare, hHere]

/- The classes stay numbered in their order. -/
theorem addStatement_orders
    (hOrders :
      m.classes.map EquivalenceClass.order =
        List.range m.classes.length)
    (s : Statement) :
    (m.addStatement s).classes.map EquivalenceClass.order =
      List.range (m.addStatement s).classes.length := by
  have hOrder : ∀ c,
      (addMember s m.nextStatement c).order = c.order := by
    intro c
    unfold addMember
    cases s.role <;> rfl
  have hModified :
      (m.addStatement s).classes.map EquivalenceClass.order =
        (m.ensureClass s.title s.sectionId).classes.map
          EquivalenceClass.order := by
    rw [addStatement_eq]
    unfold modifyClass
    cases (m.ensureClass s.title s.sectionId).classIndex?
      s.title with
    | none => rfl
    | some i => exact Sequence.map_modify i _ _ hOrder _
  have hLength := congrArg List.length hModified
  rw [List.length_map, List.length_map] at hLength
  rw [hModified, hLength]
  unfold ensureClass
  cases m.classIndex? s.title with
  | some i => exact hOrders
  | none =>
      simp [hOrders, EquivalenceClass.new, List.range_succ]

/- No statement is without a class. -/
theorem Linked.bareMembers_eq_nil
    (hLinked : m.Linked)
    {title : String}
    (hNone : m.class? title = none) :
    m.bareMembers title = [] := by
  rw [bareMembers, List.filter_eq_nil_iff]
  intro t ht hTitle
  rcases List.mem_map.mp ht with ⟨u, hu, rfl⟩
  have hHome := hLinked.homes u hu
  have hSame : u.title = title := eq_of_beq hTitle
  rw [contains, ← class?_isSome, hSame, hNone] at hHome
  cases hHome

/-
  The class of a statement that is added is the sum of one more
  statement, all other ones are what they were.
-/
theorem Gathered.addStatement
    (hGathered : m.Gathered)
    (hLinked : m.Linked)
    (s : Statement) :
    (m.addStatement s).Gathered := by
  refine ⟨addStatement_orders hGathered.orders s, ?_⟩
  intro title d hd
  rw [class?_addStatement] at hd
  rw [bareMembers_addStatement]
  by_cases hHere : title = s.title
  · subst hHere
    rw [if_pos rfl, class?_ensureClass] at hd
    rw [if_pos rfl]
    cases hOld : m.class? s.title with
    | some c =>
        rw [hOld, if_neg (by simp)] at hd
        cases hd
        exact
          (hGathered.sums s.title c hOld).addMember s.bare
            m.nextStatement
    | none =>
        rw [hOld, if_pos ⟨rfl, rfl⟩] at hd
        cases hd
        rw [hLinked.bareMembers_eq_nil hOld]
        exact
          EquivalenceClass.aggregates_singleton s.bare
            m.nextStatement m.classes.length
  · rw [if_neg hHere, class?_ensureClass,
      if_neg (fun hBoth => hHere hBoth.1)] at hd
    rw [if_neg (Ne.symm hHere), List.append_nil]
    exact hGathered.sums title d hd

------------------------------------------------------------
-- Tags of Models
------------------------------------------------------------

/- A tag is that of a section, a statement or an argument. -/
def Tagged (m : Model) (tag : String) : Prop :=
  (∃ s ∈ m.sections, tag ∈ s.tags) ∨
    (∃ s ∈ m.statements, tag ∈ s.tags) ∨
    ∃ a ∈ m.arguments, tag ∈ a.tags

/- A model lists the tags of its elements, each one once. -/
structure ListsTags (m : Model) : Prop where
  nodup : m.tags.Nodup
  tagged : ∀ tag, tag ∈ m.tags ↔ m.Tagged tag

/- A model without any elements lists no tags. -/
theorem ListsTags.empty : Model.empty.ListsTags := by
  refine ⟨List.nodup_nil, fun tag => ?_⟩
  simp [Tagged, Model.empty]

/- Elements that gain tags which are recorded are listed. -/
theorem ListsTags.recordTags
    (hTags : m.ListsTags)
    (tags : List String)
    (hListed : n.tags = Sequence.addAllNew m.tags tags)
    (hGain : ∀ tag, n.Tagged tag ↔ m.Tagged tag ∨ tag ∈ tags) :
    n.ListsTags := by
  constructor
  · rw [hListed]
    exact Sequence.nodup_addAllNew hTags.nodup tags
  · intro tag
    rw [hListed, Sequence.mem_addAllNew, hTags.tagged, hGain]

/- The same elements have the same tags. -/
theorem ListsTags.of_elements
    (hTags : m.ListsTags)
    (hSame : SameElements m n) :
    n.ListsTags := by
  have hStatements : ∀ (k : Model) tag,
      (∃ s ∈ k.statements, tag ∈ s.tags) ↔
        ∃ s ∈ k.statements.map Statement.bare,
          tag ∈ s.tags := by
    intro k tag
    simp [Statement.bare]
  have hArguments : ∀ (k : Model) tag,
      (∃ a ∈ k.arguments, tag ∈ a.tags) ↔
        ∃ a ∈ k.arguments.map Argument.bare,
          tag ∈ a.tags := by
    intro k tag
    simp [Argument.bare]
  constructor
  · rw [hSame.tags]
    exact hTags.nodup
  · intro tag
    rw [hSame.tags, hTags.tagged, Tagged, Tagged, hStatements m,
      hArguments m, ← hSame.statements, ← hSame.arguments,
      ← hStatements, ← hArguments, hSame.sections]

/- Changing a class leaves the tags. -/
@[simp]
theorem modifyClass_tags
    (m : Model)
    (title : String)
    (f : EquivalenceClass → EquivalenceClass)
    {hTitle : ∀ c, (f c).title = c.title} :
    (m.modifyClass title f).tags = m.tags := by
  unfold modifyClass
  cases m.classIndex? title <;> rfl

/- Changing an argument leaves the tags. -/
@[simp]
theorem modifyArgument_tags
    (m : Model)
    (title : String)
    (f : Argument → Argument)
    {hTitle : ∀ a, (f a).title = a.title} :
    (m.modifyArgument title f).tags = m.tags := by
  unfold modifyArgument
  cases m.argumentIndex? title <;> rfl

/- Giving a title a class leaves the tags. -/
@[simp]
theorem ensureClass_tags
    (m : Model)
    (title : String)
    (sectionId : Option Nat) :
    (m.ensureClass title sectionId).tags = m.tags := by
  unfold ensureClass
  cases m.classIndex? title <;> rfl

/- Giving a title an argument leaves the tags. -/
@[simp]
theorem ensureArgument_tags (m : Model) (title : String) :
    (m.ensureArgument title).tags = m.tags := by
  unfold ensureArgument
  cases m.argumentIndex? title <;> rfl

/- A statement that is added has its tags recorded. -/
theorem ListsTags.addStatement
    (hTags : m.ListsTags)
    (s : Statement) :
    (m.addStatement s).ListsTags := by
  have hArguments : (m.addStatement s).arguments =
      m.arguments :=
    (addStatement_titles m s).2.trans
      (ensureClass_arguments m _ _)
  refine hTags.recordTags s.tags ?_ ?_
  · simp [Model.addStatement, Model.recordTags]
  · intro tag
    rw [Tagged, Tagged, addStatement_sections, hArguments,
      addStatement_statements]
    simp only [List.mem_append, List.mem_singleton, or_and_right,
      exists_or, exists_eq_left]
    exact (or_congr_right or_right_comm).trans or_assoc.symm

/- An argument that is there gains tags. -/
theorem exists_tag_modifyArgument
    {title : String}
    (hThere : (m.argument? title).isSome = true)
    {f : Argument → Argument}
    {hTitle : ∀ a, (f a).title = a.title}
    {t : List String}
    (hGain : ∀ a tag, tag ∈ (f a).tags ↔ tag ∈ a.tags ∨ tag ∈ t)
    (tag : String) :
    (∃ a ∈ (m.modifyArgument title f).arguments,
        tag ∈ a.tags) ↔
      (∃ a ∈ m.arguments, tag ∈ a.tags) ∨ tag ∈ t := by
  rw [argument?_isSome] at hThere
  rcases Option.isSome_iff_exists.mp hThere with ⟨i, hIndex⟩
  rcases argumentIndex?_some hIndex with ⟨a, ha, _⟩
  simp only [modifyArgument, hIndex]
  exact
    Sequence.exists_mem_modify_iff ha (fun a => hGain a tag)

/- An argument without tags may be added. -/
theorem exists_tag_ensureArgument
    (m : Model)
    (title tag : String) :
    (∃ a ∈ (m.ensureArgument title).arguments, tag ∈ a.tags) ↔
      ∃ a ∈ m.arguments, tag ∈ a.tags := by
  unfold ensureArgument
  cases m.argumentIndex? title with
  | some i => rfl
  | none => simp [or_and_right, exists_or, Argument.new]

/- There is an argument of a title that has been given one. -/
theorem argument?_ensured (m : Model) (title : String) :
    ((m.ensureArgument title).argument? title).isSome = true := by
  rw [argument?_ensureArgument]
  cases m.argument? title <;> simp

/- Where an argument is does not say what its tags are. -/
theorem exists_tag_placed
    {title : String}
    (hThere : (m.argument? title).isSome = true)
    {place f : Argument → Argument}
    {hPlaced : ∀ a, (place a).title = a.title}
    {hTitle : ∀ a, (f a).title = a.title}
    {t : List String}
    (hKept : ∀ a, (place a).tags = a.tags)
    (hGain : ∀ a tag, tag ∈ (f a).tags ↔ tag ∈ a.tags ∨ tag ∈ t)
    (tag : String) :
    (∃ a ∈ ((m.modifyArgument title place hPlaced).modifyArgument
          title f hTitle).arguments,
        tag ∈ a.tags) ↔
      (∃ a ∈ m.arguments, tag ∈ a.tags) ∨ tag ∈ t := by
  have hStill :
      ((m.modifyArgument title place).argument? title).isSome =
        true := by
    rw [argument?_modifyArgument _ title, if_pos rfl,
      Option.isSome_map]
    exact hThere
  have hNothing : ∀ a tag,
      tag ∈ (place a).tags ↔ tag ∈ a.tags ∨ tag ∈ [] :=
    fun a tag => by simp [hKept]
  rw [exists_tag_modifyArgument hStill hGain,
    exists_tag_modifyArgument hThere hNothing]
  simp

end Model

namespace Builder

variable {b : Builder}

------------------------------------------------------------
-- Models That Are Built
------------------------------------------------------------

/- A statement that is added is that of its occurrence. -/
theorem addStatement_gathered
    (withoutTags : Bool)
    (hCoherent : b.Coherent)
    (hGathered : b.model.Gathered)
    (entry : StatementEntry)
    (role : StatementRole) :
    (addStatement withoutTags b entry role).1.model.Gathered := by
  have hAdded :=
    hGathered.addStatement hCoherent.model.linked
      (occurrenceOf withoutTags b entry role)
  cases hTitle : entry.title with
  | some title =>
      rw [addStatement_titled withoutTags b hTitle]
      exact hAdded
  | none =>
      have hMark : ∀ c : EquivalenceClass,
          EquivalenceClass.core { c with isAutoTitled := true } =
            c.core :=
        fun _ => rfl
      rw [addStatement_untitled withoutTags b hTitle]
      refine hAdded.of_core ?_ ?_
      · unfold Model.modifyClass
        split
        · exact Sequence.map_modify _ _ _ hMark _
        · rfl
      · rw [Model.modifyClass_statements]

/- Adding an argument changes arguments and tags only. -/
theorem addArgument_kept
    (withoutTags : Bool)
    (b : Builder)
    (entry : ArgumentEntry) :
    let m := (addArgument withoutTags b entry).1.model
    m.statements = b.model.statements ∧
      m.classes = b.model.classes ∧
      m.sections = b.model.sections := by
  unfold addArgument
  simp only
  split <;> simp [Model.recordTags]

/- Each step that builds a model keeps its classes gathered. -/
theorem gathered_kept (withoutTags : Bool) :
    Kept withoutTags
      (fun b => b.Coherent ∧ b.model.Gathered) where
  statement := by
    rintro b entry role ⟨hCoherent, hGathered⟩
    exact
      ⟨(coherent_kept withoutTags).statement entry role
          hCoherent,
        addStatement_gathered withoutTags hCoherent hGathered
          entry role⟩
  argument := by
    rintro b entry ⟨hCoherent, hGathered⟩
    rcases addArgument_kept withoutTags b entry with
      ⟨hStatements, hClasses, _⟩
    refine
      ⟨(coherent_kept withoutTags).argument entry hCoherent, ?_⟩
    exact hGathered.of_core (by rw [hClasses]) (by rw [hStatements])
  relate := by
    rintro b parent target marker occurrence hParent hTarget
      ⟨hCoherent, hGathered⟩
    exact
      ⟨(coherent_kept withoutTags).relate marker occurrence
          hParent hTarget hCoherent,
        hGathered.of_elements
          (relate_elements b parent target marker occurrence).1⟩
  steps := by
    rintro b title steps hThere ⟨hCoherent, hGathered⟩
    exact
      ⟨(coherent_kept withoutTags).steps title hThere hCoherent,
        hGathered.of_elements
          (Model.withSteps_elements b.model title steps)⟩
  conflict := by
    rintro b title ⟨hCoherent, hGathered⟩
    exact
      ⟨(coherent_kept withoutTags).conflict title hCoherent,
        hGathered⟩
  heading := by
    rintro b heading ⟨hCoherent, hGathered⟩
    exact
      ⟨(coherent_kept withoutTags).heading heading hCoherent,
        hGathered.of_core rfl rfl⟩

/- An argument that is added has its tags recorded. -/
theorem addArgument_tags
    (withoutTags : Bool)
    (hTags : b.model.ListsTags)
    (entry : ArgumentEntry) :
    (addArgument withoutTags b entry).1.model.ListsTags := by
  rcases addArgument_kept withoutTags b entry with
    ⟨hStatements, _, hSections⟩
  have hDescribe : ∀ (a : Argument) tag,
      tag ∈ (describe withoutTags entry a).tags ↔
        tag ∈ a.tags ∨ tag ∈ entry.tags :=
    fun _ _ => Sequence.mem_addAllNew
  have hArguments : ∀ tag,
      (∃ a ∈ (addArgument withoutTags b entry).1.model.arguments,
          tag ∈ a.tags) ↔
        (∃ a ∈ b.model.arguments, tag ∈ a.tags) ∨
          tag ∈ entry.tags := by
    intro tag
    rw [← Model.exists_tag_ensureArgument b.model
      (b.argumentTitle entry).1]
    have hThere :=
      Model.argument?_ensured b.model (b.argumentTitle entry).1
    unfold addArgument
    simp only
    split
    · refine Model.exists_tag_placed hThere ?_ hDescribe tag
      exact fun _ => rfl
    · exact
        Model.exists_tag_modifyArgument hThere hDescribe tag
  refine hTags.recordTags entry.tags ?_ ?_
  · unfold addArgument
    simp only
    split <;> simp [Model.recordTags]
  · intro tag
    rw [Model.Tagged, Model.Tagged, hStatements, hSections,
      hArguments]
    simp only [or_assoc]

/- Each step that builds a model lists its tags. -/
theorem tagged_kept (withoutTags : Bool) :
    Kept withoutTags (fun b => b.model.ListsTags) where
  statement := by
    intro b entry role hTags
    have hAdded :=
      hTags.addStatement (occurrenceOf withoutTags b entry role)
    cases hTitle : entry.title with
    | some title =>
        rw [addStatement_titled withoutTags b hTitle]
        exact hAdded
    | none =>
        rw [addStatement_untitled withoutTags b hTitle]
        refine ⟨?_, ?_⟩
        · rw [Model.modifyClass_tags]
          exact hAdded.nodup
        · intro tag
          rw [Model.modifyClass_tags, hAdded.tagged]
          simp [Model.Tagged]
  argument := by
    intro b entry hTags
    exact addArgument_tags withoutTags hTags entry
  relate := by
    intro b parent target marker occurrence _ _ hTags
    exact
      hTags.of_elements
        (relate_elements b parent target marker occurrence).1
  steps := by
    intro b title steps _ hTags
    exact
      hTags.of_elements
        (Model.withSteps_elements b.model title steps)
  conflict _ hTags := hTags
  heading := by
    intro b heading hTags
    refine hTags.recordTags heading.tags rfl ?_
    intro tag
    simp only [Model.Tagged, openSection, Model.addSection,
      Model.recordTags, List.mem_append, List.mem_singleton,
      or_and_right, exists_or, exists_eq_left]
    exact or_right_comm

end Builder

namespace Model

variable {m : Model}

------------------------------------------------------------
-- Models of Documents
------------------------------------------------------------

/- The classes of a document's model are gathered. -/
theorem build_gathered
    (withoutTags : Bool)
    (d : Document) :
    (build withoutTags d).1.Gathered := by
  have hBlocks :=
    (Builder.gathered_kept withoutTags).addBlocks
      ⟨Builder.Coherent.empty, Gathered.empty⟩ d.blocks
  rw [build_model]
  exact hBlocks.2

/- Its tags are listed. -/
theorem build_listsTags
    (withoutTags : Bool)
    (d : Document) :
    (build withoutTags d).1.ListsTags := by
  have hStart : Builder.empty.model.ListsTags :=
    ListsTags.empty
  have hBlocks :=
    (Builder.tagged_kept withoutTags).addBlocks hStart d.blocks
  rw [build_model]
  exact hBlocks

/- A class sums up the statements of its title. -/
theorem Gathered.aggregates
    (hGathered : m.Gathered)
    (hLinked : m.Linked)
    {c : EquivalenceClass}
    (hc : c ∈ m.classes) :
    m.members c.title =
        m.statements.filter (fun s => s.title == c.title) ∧
      c.Aggregates (m.members c.title) := by
  have hMembers :
      m.members c.title =
        m.statements.filter (fun s => s.title == c.title) :=
    hLinked.members_filter
      (contains_statement_iff.mpr (List.mem_map_of_mem hc))
  have hFound := (hLinked.class?_iff c.title c).mpr ⟨hc, rfl⟩
  have hSum := hGathered.sums c.title c hFound
  rw [bareMembers, List.filter_map] at hSum
  refine ⟨hMembers, ?_⟩
  rw [hMembers]
  exact hSum.of_bare

/- A class has its index as its order. -/
theorem Gathered.order_eq
    (hGathered : m.Gathered)
    {i : Nat}
    {c : EquivalenceClass}
    (hHere : m.classes[i]? = some c) :
    c.order = i := by
  have hOrder :
      (m.classes.map EquivalenceClass.order)[i]? =
        some c.order := by
    rw [List.getElem?_map, hHere]
    rfl
  have hLess := (List.getElem?_eq_some_iff.mp hHere).1
  rw [hGathered.orders, List.getElem?_range hLess] at hOrder
  exact (Option.some.inj hOrder).symm

/- The members of a class are in the order of their ids. -/
theorem Linked.members_increase
    (hLinked : m.Linked)
    {c : EquivalenceClass}
    (hc : c ∈ m.classes) :
    c.members.Pairwise (· < ·) := by
  have hAll :
      (m.statements.map Statement.id).Pairwise (· < ·) := by
    rw [hLinked.statementIds]
    exact List.pairwise_lt_range
  rw [hLinked.members_eq hc]
  exact hAll.sublist (List.filter_sublist.map Statement.id)

/-
  The tags of the classes are those of the statements: each
  statement is a member, and each member is a statement.
-/
theorem Gathered.exists_tag_classes
    (hGathered : m.Gathered)
    (hLinked : m.Linked)
    (tag : String) :
    (∃ c ∈ m.classes, tag ∈ c.tags) ↔
      ∃ s ∈ m.statements, tag ∈ s.tags := by
  constructor
  · rintro ⟨c, hc, hTag⟩
    rcases hGathered.aggregates hLinked hc with ⟨hMembers, hSum⟩
    rw [hSum.tags, List.mem_eraseDups, List.mem_flatMap] at hTag
    rcases hTag with ⟨s, hs, hTag⟩
    rw [hMembers] at hs
    exact ⟨s, List.mem_of_mem_filter hs, hTag⟩
  · rintro ⟨s, hs, hTag⟩
    rcases List.mem_map.mp
      (contains_statement_iff.mp (hLinked.homes s hs)) with
      ⟨c, hc, hTitle⟩
    rcases hGathered.aggregates hLinked hc with ⟨hMembers, hSum⟩
    refine ⟨c, hc, ?_⟩
    rw [hSum.tags, List.mem_eraseDups, List.mem_flatMap]
    refine ⟨s, ?_, hTag⟩
    rw [hMembers]
    exact List.mem_filter.mpr ⟨hs, by simp [hTitle]⟩

/-
  Each class of a document's model is the sum of its members,
  which are the statements of its title in the order of their
  ids.  The model lists the tags of its sections, classes and
  arguments, each one once.
-/
theorem build_aggregates
    (withoutTags : Bool)
    (d : Document) :
    let m := (build withoutTags d).1
    (∀ (i : Nat) c, m.classes[i]? = some c →
        c.order = i ∧
          c.Aggregates (m.members c.title) ∧
          c.members.Pairwise (· < ·) ∧
          m.members c.title =
            m.statements.filter (fun s => s.title == c.title)) ∧
      m.statements.map Statement.id =
        List.range m.statements.length ∧
      m.tags.Nodup ∧
      ∀ tag, tag ∈ m.tags ↔
        (∃ s ∈ m.sections, tag ∈ s.tags) ∨
          (∃ c ∈ m.classes, tag ∈ c.tags) ∨
          ∃ a ∈ m.arguments, tag ∈ a.tags := by
  intro m
  have hLinked : m.Linked := (build_coherent withoutTags d).linked
  have hGathered : m.Gathered := build_gathered withoutTags d
  have hTags : m.ListsTags := build_listsTags withoutTags d
  refine ⟨?_, hLinked.statementIds, hTags.nodup, ?_⟩
  · intro i c hHere
    have hc : c ∈ m.classes := List.mem_of_getElem? hHere
    rcases hGathered.aggregates hLinked hc with ⟨hMembers, hSum⟩
    exact
      ⟨hGathered.order_eq hHere, hSum,
        hLinked.members_increase hc, hMembers⟩
  · intro tag
    rw [hGathered.exists_tag_classes hLinked]
    exact hTags.tagged tag

section

open scoped Yaml

/- A class sums up occurrences with others in between. -/
theorem build_aggregates_interleaved :
    let d :=
      (Document.read
        "[A]: a #x\n  + [B]: b #y\n\n[A]: a #z #x").document
    let m := (build false d).1
    ∃ c, m.classes[0]? = some c ∧
      c.Aggregates (m.members c.title) ∧
      c.members = [0, 2] ∧ c.tags = ["x", "z"] ∧
      m.tags = ["x", "y", "z"] := by
  intro d m
  have hRead :
      (m.classes[0]?).map
          (fun c => (c.members, c.tags)) =
        some ([0, 2], ["x", "z"]) := by
    decide +kernel
  have hTags : m.tags = ["x", "y", "z"] := by
    decide +kernel
  rcases Option.map_eq_some_iff.mp hRead with ⟨c, hHere, hSame⟩
  rw [Prod.mk.injEq] at hSame
  have hSum := ((build_aggregates false d).1 0 c hHere).2.1
  exact ⟨c, hHere, hSum, hSame.1, hSame.2, hTags⟩

end

end Model

end Dialectic
