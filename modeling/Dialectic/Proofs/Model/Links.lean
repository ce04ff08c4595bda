import Dialectic.Proofs.Model.Growth
import Dialectic.Proofs.Model.Sections

/-
  The parts of a model that refer to each other are linked:
  classes list the statements of their title, and classes and
  arguments list the relations that they are an end of.

  Key definitions include:
    * `Model.listedMembers`
    * `Model.listedRelations`
    * `Model.Linked`
    * `Model.SameLinks`

  Main theorems:
    * `Model.Linked.of_same`
    * `Model.Linked.addStatement`
    * `Model.Linked.ensureArgument`
    * `Model.Linked.addRelation`
-/

namespace Dialectic

/- The id of a statement and the title of its class. -/
def Statement.home (s : Statement) : Nat × String :=
  (s.id, s.title)

/- The id of a relation and its ends. -/
def Relation.ends (r : Relation) : Nat × Element × Element :=
  (r.id, r.source, r.target)

namespace Model

------------------------------------------------------------
-- Titles
------------------------------------------------------------

/- The titles of the classes. -/
def classTitles (m : Model) : List String :=
  m.classes.map EquivalenceClass.title

/- The titles of the arguments. -/
def argumentTitles (m : Model) : List String :=
  m.arguments.map Argument.title

/- A class belongs to a model if its title does. -/
theorem contains_statement_iff
    {m : Model}
    {title : String} :
    m.contains (.statement title) = true ↔
      title ∈ m.classTitles := by
  rw [contains, classIndex?_eq, Sequence.lastIndex?_isSome,
    List.any_eq_true, classTitles, List.mem_map]
  simp only [beq_iff_eq]

/- An argument belongs to a model if its title does. -/
theorem contains_argument_iff
    {m : Model}
    {title : String} :
    m.contains (.argument title) = true ↔
      title ∈ m.argumentTitles := by
  rw [contains, argumentIndex?_eq,
    Sequence.lastIndex?_isSome, List.any_eq_true,
    argumentTitles, List.mem_map]
  simp only [beq_iff_eq]

/- If no two classes share a title, each is at its place. -/
theorem classIndex?_eq_some_iff
    {m : Model}
    (hTitles : m.classTitles.Nodup)
    {title : String}
    {i : Nat} :
    m.classIndex? title = some i ↔
      m.classTitles[i]? = some title := by
  rw [classIndex?, m.classIndex_eq]
  exact TitleIndex.get?_ofTitles_eq_some_iff hTitles

/- If no two arguments share a title, each is at its place. -/
theorem argumentIndex?_eq_some_iff
    {m : Model}
    (hTitles : m.argumentTitles.Nodup)
    {title : String}
    {i : Nat} :
    m.argumentIndex? title = some i ↔
      m.argumentTitles[i]? = some title := by
  rw [argumentIndex?, m.argumentIndex_eq]
  exact TitleIndex.get?_ofTitles_eq_some_iff hTitles

/- Models of the same titles have the same elements. -/
theorem contains_congr
    {m n : Model}
    (hClasses : n.classTitles = m.classTitles)
    (hArguments : n.argumentTitles = m.argumentTitles)
    (element : Element) :
    n.contains element = m.contains element := by
  rw [Bool.eq_iff_iff]
  cases element with
  | statement title =>
      rw [contains_statement_iff, contains_statement_iff,
        hClasses]
  | argument title =>
      rw [contains_argument_iff, contains_argument_iff,
        hArguments]

------------------------------------------------------------
-- Untouched Parts
------------------------------------------------------------

/- Changing a class leaves the statements. -/
@[simp]
theorem modifyClass_statements
    (m : Model)
    (title : String)
    (f : EquivalenceClass → EquivalenceClass)
    {hTitle : ∀ c, (f c).title = c.title} :
    (m.modifyClass title f).statements = m.statements := by
  unfold modifyClass
  cases m.classIndex? title <;> rfl

/- Changing a class leaves the arguments. -/
@[simp]
theorem modifyClass_arguments
    (m : Model)
    (title : String)
    (f : EquivalenceClass → EquivalenceClass)
    {hTitle : ∀ c, (f c).title = c.title} :
    (m.modifyClass title f).arguments = m.arguments := by
  unfold modifyClass
  cases m.classIndex? title <;> rfl

/- Changing a class leaves the relations. -/
@[simp]
theorem modifyClass_relations
    (m : Model)
    (title : String)
    (f : EquivalenceClass → EquivalenceClass)
    {hTitle : ∀ c, (f c).title = c.title} :
    (m.modifyClass title f).relations = m.relations := by
  unfold modifyClass
  cases m.classIndex? title <;> rfl

/- Changing a class leaves the arguments of all titles. -/
theorem argument?_modifyClass
    (m : Model)
    (title : String)
    (f : EquivalenceClass → EquivalenceClass)
    {hTitle : ∀ c, (f c).title = c.title}
    (other : String) :
    (m.modifyClass title f).argument? other =
      m.argument? other :=
  argument?_congr (modifyClass_arguments m title f) other

/- Changing a class leaves the titles of the classes. -/
theorem modifyClass_titles
    (m : Model)
    (title : String)
    {f : EquivalenceClass → EquivalenceClass}
    {hTitle : ∀ c, (f c).title = c.title} :
    (m.modifyClass title f).classTitles = m.classTitles := by
  unfold modifyClass
  cases m.classIndex? title with
  | none => rfl
  | some i => exact Sequence.map_modify i f _ hTitle m.classes

/- Changing an argument leaves the statements. -/
@[simp]
theorem modifyArgument_statements
    (m : Model)
    (title : String)
    (f : Argument → Argument)
    {hTitle : ∀ a, (f a).title = a.title} :
    (m.modifyArgument title f).statements = m.statements := by
  unfold modifyArgument
  cases m.argumentIndex? title <;> rfl

/- Changing an argument leaves the classes. -/
@[simp]
theorem modifyArgument_classes
    (m : Model)
    (title : String)
    (f : Argument → Argument)
    {hTitle : ∀ a, (f a).title = a.title} :
    (m.modifyArgument title f).classes = m.classes := by
  unfold modifyArgument
  cases m.argumentIndex? title <;> rfl

/- Changing an argument leaves the relations. -/
@[simp]
theorem modifyArgument_relations
    (m : Model)
    (title : String)
    (f : Argument → Argument)
    {hTitle : ∀ a, (f a).title = a.title} :
    (m.modifyArgument title f).relations = m.relations := by
  unfold modifyArgument
  cases m.argumentIndex? title <;> rfl

/- Changing an argument leaves the classes of all titles. -/
theorem class?_modifyArgument
    (m : Model)
    (title : String)
    (f : Argument → Argument)
    {hTitle : ∀ a, (f a).title = a.title}
    (other : String) :
    (m.modifyArgument title f).class? other =
      m.class? other :=
  class?_congr (modifyArgument_classes m title f) other

/- Changing an argument leaves the titles of the arguments. -/
theorem modifyArgument_titles
    (m : Model)
    (title : String)
    {f : Argument → Argument}
    {hTitle : ∀ a, (f a).title = a.title} :
    (m.modifyArgument title f).argumentTitles =
      m.argumentTitles := by
  unfold modifyArgument
  cases m.argumentIndex? title with
  | none => rfl
  | some i =>
      exact Sequence.map_modify i f _ hTitle m.arguments

/- Giving a title a class leaves the statements. -/
@[simp]
theorem ensureClass_statements
    (m : Model)
    (title : String)
    (sectionId : Option Nat) :
    (m.ensureClass title sectionId).statements =
      m.statements := by
  unfold ensureClass
  cases m.classIndex? title <;> rfl

/- Giving a title a class leaves the arguments. -/
@[simp]
theorem ensureClass_arguments
    (m : Model)
    (title : String)
    (sectionId : Option Nat) :
    (m.ensureClass title sectionId).arguments =
      m.arguments := by
  unfold ensureClass
  cases m.classIndex? title <;> rfl

/- Giving a title a class leaves the relations. -/
@[simp]
theorem ensureClass_relations
    (m : Model)
    (title : String)
    (sectionId : Option Nat) :
    (m.ensureClass title sectionId).relations =
      m.relations := by
  unfold ensureClass
  cases m.classIndex? title <;> rfl

/- The titles of the classes when one has been given a class. -/
theorem ensureClass_titles
    (m : Model)
    (title : String)
    (sectionId : Option Nat) :
    (m.ensureClass title sectionId).classTitles =
      if title ∈ m.classTitles then m.classTitles
      else m.classTitles ++ [title] := by
  have hKnown :
      m.contains (.statement title) = true ↔
        title ∈ m.classTitles :=
    contains_statement_iff
  rw [contains] at hKnown
  unfold ensureClass
  cases hIndex : m.classIndex? title with
  | some i =>
      rw [hIndex] at hKnown
      rw [if_pos (hKnown.mp rfl)]
  | none =>
      rw [hIndex] at hKnown
      rw [if_neg (fun hMem => by simpa using hKnown.mpr hMem)]
      simp [classTitles, EquivalenceClass.new]

/- Giving a title an argument leaves the statements. -/
@[simp]
theorem ensureArgument_statements (m : Model) (title : String) :
    (m.ensureArgument title).statements = m.statements := by
  unfold ensureArgument
  cases m.argumentIndex? title <;> rfl

/- Giving a title an argument leaves the classes. -/
@[simp]
theorem ensureArgument_classes (m : Model) (title : String) :
    (m.ensureArgument title).classes = m.classes := by
  unfold ensureArgument
  cases m.argumentIndex? title <;> rfl

/- Giving a title an argument leaves the relations. -/
@[simp]
theorem ensureArgument_relations (m : Model) (title : String) :
    (m.ensureArgument title).relations = m.relations := by
  unfold ensureArgument
  cases m.argumentIndex? title <;> rfl

/- The titles of the arguments when one has been given one. -/
theorem ensureArgument_titles (m : Model) (title : String) :
    (m.ensureArgument title).argumentTitles =
      if title ∈ m.argumentTitles then m.argumentTitles
      else m.argumentTitles ++ [title] := by
  have hKnown :
      m.contains (.argument title) = true ↔
        title ∈ m.argumentTitles :=
    contains_argument_iff
  rw [contains] at hKnown
  unfold ensureArgument
  cases hIndex : m.argumentIndex? title with
  | some i =>
      rw [hIndex] at hKnown
      rw [if_pos (hKnown.mp rfl)]
  | none =>
      rw [hIndex] at hKnown
      rw [if_neg (fun hMem => by simpa using hKnown.mpr hMem)]
      simp [argumentTitles, Argument.new]

/- Noting a relation at its end leaves the statements. -/
@[simp]
theorem linkEnd_statements
    (m : Model)
    (element : Element)
    (id : Nat) :
    (m.linkEnd element id).statements = m.statements := by
  cases element <;> simp [linkEnd]

/- Noting a relation at its end leaves the relations. -/
@[simp]
theorem linkEnd_relations
    (m : Model)
    (element : Element)
    (id : Nat) :
    (m.linkEnd element id).relations = m.relations := by
  cases element <;> simp [linkEnd]

/- Noting a relation at its end leaves the elements. -/
theorem linkEnd_titles
    (m : Model)
    (element : Element)
    (id : Nat) :
    (m.linkEnd element id).classTitles = m.classTitles ∧
      (m.linkEnd element id).argumentTitles =
        m.argumentTitles := by
  unfold linkEnd
  cases element with
  | statement title =>
      exact
        ⟨modifyClass_titles m title, by simp [argumentTitles]⟩
  | argument title =>
      exact
        ⟨by simp [classTitles], modifyArgument_titles m title⟩

------------------------------------------------------------
-- Links
------------------------------------------------------------

/- The statements that the class of a title lists. -/
def listedMembers (m : Model) (title : String) : List Nat :=
  match m.class? title with
  | some c => c.members
  | none => []

/- The relations that an element lists. -/
def listedRelations (m : Model) : Element → List Nat
| .statement title =>
    match m.class? title with
    | some c => c.relations
    | none => []
| .argument title =>
    match m.argument? title with
    | some a => a.relations
    | none => []

/-
  Statements and relations are numbered in their order, all
  elements that they name are there, and an element lists the
  statements of its title and the relations that touch it.
-/
structure Linked (m : Model) : Prop where
  classTitles : m.classTitles.Nodup
  argumentTitles : m.argumentTitles.Nodup
  statementIds :
    m.statements.map Statement.id =
      List.range m.statements.length
  relationIds :
    m.relations.map Relation.id =
      List.range m.relations.length
  homes : ∀ s ∈ m.statements,
    m.contains (.statement s.title) = true
  ends : ∀ r ∈ m.relations,
    m.contains r.source = true ∧ m.contains r.target = true
  members : ∀ title,
    m.listedMembers title =
      (m.statements.filter (fun s => s.title == title)).map
        Statement.id
  relations : ∀ element,
    m.listedRelations element =
      (m.relationsOf element).map Relation.id

/- A model without any elements is linked. -/
theorem Linked.empty : Model.empty.Linked := by
  constructor
  · exact List.nodup_nil
  · exact List.nodup_nil
  · rfl
  · rfl
  · exact fun s hs => absurd hs List.not_mem_nil
  · exact fun r hr => absurd hr List.not_mem_nil
  · exact fun _ => rfl
  · intro element
    cases element <;> rfl

/- All that links the parts of a model is the same. -/
structure SameLinks (m n : Model) : Prop where
  statements :
    n.statements.map Statement.home =
      m.statements.map Statement.home
  relations :
    n.relations.map Relation.ends =
      m.relations.map Relation.ends
  classTitles : n.classTitles = m.classTitles
  argumentTitles : n.argumentTitles = m.argumentTitles
  members : ∀ title, n.listedMembers title = m.listedMembers title
  listed : ∀ element,
    n.listedRelations element = m.listedRelations element

/- Models of the same elements have the same links. -/
theorem SameLinks.of_eq
    {m n : Model}
    (hStatements : n.statements = m.statements)
    (hClasses : n.classes = m.classes)
    (hArguments : n.arguments = m.arguments)
    (hRelations : n.relations = m.relations) :
    SameLinks m n := by
  have hClass : ∀ title, n.class? title = m.class? title := by
    simp only [class?_eq, hClasses, implies_true]
  have hArgument : ∀ title,
      n.argument? title = m.argument? title := by
    simp only [argument?_eq, hArguments, implies_true]
  constructor
  · rw [hStatements]
  · rw [hRelations]
  · simp only [Model.classTitles, hClasses]
  · simp only [Model.argumentTitles, hArguments]
  · intro title
    simp only [listedMembers, hClass]
  · intro element
    cases element with
    | statement title => simp only [listedRelations, hClass]
    | argument title => simp only [listedRelations, hArgument]

/- What two steps leave, they leave one after the other. -/
theorem SameLinks.trans
    {m n k : Model}
    (hFirst : SameLinks m n)
    (hSecond : SameLinks n k) :
    SameLinks m k :=
  ⟨hSecond.statements.trans hFirst.statements,
    hSecond.relations.trans hFirst.relations,
    hSecond.classTitles.trans hFirst.classTitles,
    hSecond.argumentTitles.trans hFirst.argumentTitles,
    fun title =>
      (hSecond.members title).trans (hFirst.members title),
    fun element =>
      (hSecond.listed element).trans (hFirst.listed element)⟩

/- The elements are the same if the links are. -/
theorem SameLinks.contains
    {m n : Model}
    (hSame : SameLinks m n)
    (element : Element) :
    n.contains element = m.contains element :=
  contains_congr hSame.classTitles hSame.argumentTitles element

/- The ids of statements are in their homes. -/
theorem statementIds_eq (m : Model) :
    m.statements.map Statement.id =
        (m.statements.map Statement.home).map Prod.fst ∧
      ∀ title,
        (m.statements.filter
            (fun s => s.title == title)).map Statement.id =
          ((m.statements.map Statement.home).filter
            (fun h => h.2 == title)).map Prod.fst := by
  constructor
  · rw [List.map_map]
    rfl
  · intro title
    rw [List.filter_map, List.map_map]
    rfl

/- The ids of relations are with their ends. -/
theorem relationIds_eq (m : Model) :
    m.relations.map Relation.id =
        (m.relations.map Relation.ends).map Prod.fst ∧
      ∀ element,
        (m.relationsOf element).map Relation.id =
          ((m.relations.map Relation.ends).filter
            (fun r =>
              r.2.1 == element || r.2.2 == element)).map
            Prod.fst := by
  constructor
  · rw [List.map_map]
    rfl
  · intro element
    rw [List.filter_map, List.map_map]
    rfl

/- The same links are still linked. -/
theorem Linked.of_same
    {m n : Model}
    (hLinked : m.Linked)
    (hSame : SameLinks m n) :
    n.Linked := by
  have hStatementCount :
      n.statements.length = m.statements.length := by
    simpa using congrArg List.length hSame.statements
  have hRelationCount :
      n.relations.length = m.relations.length := by
    simpa using congrArg List.length hSame.relations
  constructor
  · rw [hSame.classTitles]
    exact hLinked.classTitles
  · rw [hSame.argumentTitles]
    exact hLinked.argumentTitles
  · rw [(statementIds_eq n).1, hSame.statements, ← (statementIds_eq m).1,
      hStatementCount]
    exact hLinked.statementIds
  · rw [(relationIds_eq n).1, hSame.relations, ← (relationIds_eq m).1,
      hRelationCount]
    exact hLinked.relationIds
  · intro s hs
    have hHome : s.home ∈ m.statements.map Statement.home :=
      hSame.statements ▸ List.mem_map_of_mem hs
    rcases List.mem_map.mp hHome with ⟨t, ht, hEq⟩
    have hTitle : t.title = s.title := congrArg Prod.snd hEq
    rw [hSame.contains, ← hTitle]
    exact hLinked.homes t ht
  · intro r hr
    have hEnd : r.ends ∈ m.relations.map Relation.ends :=
      hSame.relations ▸ List.mem_map_of_mem hr
    rcases List.mem_map.mp hEnd with ⟨t, ht, hEq⟩
    have hSource : t.source = r.source :=
      congrArg (fun e => e.2.1) hEq
    have hTarget : t.target = r.target :=
      congrArg (fun e => e.2.2) hEq
    rw [hSame.contains, hSame.contains, ← hSource, ← hTarget]
    exact hLinked.ends t ht
  · intro title
    rw [hSame.members, (statementIds_eq n).2, hSame.statements,
      ← (statementIds_eq m).2]
    exact hLinked.members title
  · intro element
    rw [hSame.listed, (relationIds_eq n).2, hSame.relations,
      ← (relationIds_eq m).2]
    exact hLinked.relations element

------------------------------------------------------------
-- Changes That Keep Links
------------------------------------------------------------

/- Changing a class keeps the links if it keeps its lists. -/
theorem modifyClass_links
    (m : Model)
    (title : String)
    {f : EquivalenceClass → EquivalenceClass}
    {hTitle : ∀ c, (f c).title = c.title}
    (hMembers : ∀ c, (f c).members = c.members)
    (hRelations : ∀ c, (f c).relations = c.relations) :
    SameLinks m (m.modifyClass title f) := by
  constructor
  · rw [modifyClass_statements]
  · rw [modifyClass_relations]
  · exact modifyClass_titles m title
  · rw [argumentTitles, modifyClass_arguments, argumentTitles]
  · intro other
    rw [listedMembers, class?_modifyClass m title,
      listedMembers]
    by_cases hHere : other = title
    · rw [if_pos hHere]
      cases m.class? other with
      | none => rfl
      | some c => exact hMembers c
    · rw [if_neg hHere]
  · intro element
    cases element with
    | statement other =>
        rw [listedRelations, class?_modifyClass m title,
          listedRelations]
        by_cases hHere : other = title
        · rw [if_pos hHere]
          cases m.class? other with
          | none => rfl
          | some c => exact hRelations c
        · rw [if_neg hHere]
    | argument other =>
        rw [listedRelations, argument?_modifyClass,
          listedRelations]

/- Changing an argument keeps the links if it keeps its list. -/
theorem modifyArgument_links
    (m : Model)
    (title : String)
    {f : Argument → Argument}
    {hTitle : ∀ a, (f a).title = a.title}
    (hRelations : ∀ a, (f a).relations = a.relations) :
    SameLinks m (m.modifyArgument title f) := by
  constructor
  · rw [modifyArgument_statements]
  · rw [modifyArgument_relations]
  · rw [classTitles, modifyArgument_classes, classTitles]
  · exact modifyArgument_titles m title
  · intro other
    rw [listedMembers, class?_modifyArgument, listedMembers]
  · intro element
    cases element with
    | statement other =>
        rw [listedRelations, class?_modifyArgument,
          listedRelations]
    | argument other =>
        rw [listedRelations,
          argument?_modifyArgument m title,
          listedRelations]
        by_cases hHere : other = title
        · rw [if_pos hHere]
          cases m.argument? other with
          | none => rfl
          | some a => exact hRelations a
        · rw [if_neg hHere]

/- Other statements of the same homes keep the links. -/
theorem withStatements_links
    (m : Model)
    {statements : List Statement}
    (hHomes :
      statements.map Statement.home =
        m.statements.map Statement.home) :
    SameLinks m { m with statements := statements } :=
  { SameLinks.of_eq rfl rfl rfl rfl (m := m) (n := m) with
    statements := hHomes }

/- Other relations of the same ends keep the links. -/
theorem withRelations_links
    (m : Model)
    {relations : List Relation}
    (hEnds :
      relations.map Relation.ends =
        m.relations.map Relation.ends) :
    SameLinks m { m with relations := relations } :=
  { SameLinks.of_eq rfl rfl rfl rfl (m := m) (n := m) with
    relations := hEnds }

/- Changing a statement keeps the links if its home stays. -/
theorem modifyStatement_links
    (m : Model)
    (id : Nat)
    {f : Statement → Statement}
    (hHome : ∀ s, (f s).home = s.home) :
    SameLinks m (m.modifyStatement id f) :=
  withStatements_links m
    (Sequence.map_modify id f Statement.home hHome m.statements)

/- Declaring a relation once more keeps the links. -/
theorem repeatRelation_links
    (m : Model)
    (id : Nat)
    (origin : Origin)
    (occurrence : Option Nat) :
    SameLinks m
      { m with
        relations :=
          m.relations.modify id
            (repeatRelation · origin occurrence) } :=
  withRelations_links m
    (Sequence.map_modify id (repeatRelation · origin occurrence)
      Relation.ends (fun _ => rfl) m.relations)

/- Noting a relation at a statement keeps the links. -/
theorem linkOccurrence_links
    (m : Model)
    (occurrence : Option Nat)
    (id : Nat) :
    SameLinks m (m.linkOccurrence occurrence id) := by
  cases occurrence with
  | none => exact SameLinks.of_eq rfl rfl rfl rfl
  | some o => exact modifyStatement_links m o (fun _ => rfl)

/- Removing all sections keeps the links. -/
theorem clearSections_links (m : Model) :
    SameLinks m m.clearSections := by
  have hClass : ∀ title,
      m.clearSections.class? title =
        (m.class? title).map
          (fun c => { c with sectionId := none }) := by
    intro title
    simp only [class?_eq]
    apply Sequence.lastWith_map
    exact fun _ => rfl
  have hArgument : ∀ title,
      m.clearSections.argument? title =
        (m.argument? title).map
          (fun a => { a with sectionId := none }) := by
    intro title
    simp only [argument?_eq]
    apply Sequence.lastWith_map
    exact fun _ => rfl
  constructor
  · exact List.map_map
  · rfl
  · exact List.map_map
  · exact List.map_map
  · intro title
    rw [listedMembers, hClass, listedMembers]
    cases m.class? title <;> rfl
  · intro element
    cases element with
    | statement title =>
        rw [listedRelations, hClass, listedRelations]
        cases m.class? title <;> rfl
    | argument title =>
        rw [listedRelations, hArgument, listedRelations]
        cases m.argument? title <;> rfl

------------------------------------------------------------
-- Elements
------------------------------------------------------------

/- A title that is new stays the only one of its kind. -/
theorem nodup_ensured
    {titles : List String}
    (hUnique : titles.Nodup)
    (title : String) :
    (if title ∈ titles then titles
      else titles ++ [title]).Nodup := by
  split
  · exact hUnique
  · next hNew =>
      rw [List.nodup_append]
      refine ⟨hUnique, List.nodup_singleton title, ?_⟩
      intro a ha b hb hSame
      rw [List.mem_singleton.mp hb] at hSame
      exact hNew (hSame ▸ ha)

/- Giving a title a class keeps a model linked. -/
theorem Linked.ensureClass
    {m : Model}
    (hLinked : m.Linked)
    (title : String)
    (sectionId : Option Nat) :
    (m.ensureClass title sectionId).Linked := by
  have hExtends :=
    @ensureClass_extends [] m title sectionId
  -- the class that is added lists nothing
  have hMembers : ∀ other,
      (m.ensureClass title sectionId).listedMembers other =
        m.listedMembers other := by
    intro other
    rw [listedMembers, class?_ensureClass, listedMembers]
    by_cases hNew : other = title ∧ m.class? title = none
    · rw [if_pos hNew, hNew.1, hNew.2]
      rfl
    · rw [if_neg hNew]
  have hRelations : ∀ element,
      (m.ensureClass title sectionId).listedRelations element =
        m.listedRelations element := by
    intro element
    cases element with
    | statement other =>
        rw [listedRelations, class?_ensureClass,
          listedRelations]
        by_cases hNew : other = title ∧ m.class? title = none
        · rw [if_pos hNew, hNew.1, hNew.2]
          rfl
        · rw [if_neg hNew]
    | argument other =>
        rw [listedRelations,
          argument?_congr (ensureClass_arguments m _ _),
          listedRelations]
  constructor
  · rw [ensureClass_titles]
    exact nodup_ensured hLinked.classTitles title
  · rw [Model.argumentTitles, ensureClass_arguments]
    exact hLinked.argumentTitles
  · rw [ensureClass_statements]
    exact hLinked.statementIds
  · rw [ensureClass_relations]
    exact hLinked.relationIds
  · rw [ensureClass_statements]
    exact fun s hs => hExtends.contains (hLinked.homes s hs)
  · rw [ensureClass_relations]
    exact fun r hr =>
      ⟨hExtends.contains (hLinked.ends r hr).1,
        hExtends.contains (hLinked.ends r hr).2⟩
  · intro other
    rw [hMembers, ensureClass_statements]
    exact hLinked.members other
  · intro element
    rw [hRelations, relationsOf, ensureClass_relations]
    exact hLinked.relations element

/- Giving a title an argument keeps a model linked. -/
theorem Linked.ensureArgument
    {m : Model}
    (hLinked : m.Linked)
    (title : String) :
    (m.ensureArgument title).Linked := by
  have hExtends := @ensureArgument_extends [] m title
  -- the argument that is added lists nothing
  have hRelations : ∀ element,
      (m.ensureArgument title).listedRelations element =
        m.listedRelations element := by
    intro element
    cases element with
    | statement other =>
        rw [listedRelations,
          class?_congr (ensureArgument_classes m title),
          listedRelations]
    | argument other =>
        rw [listedRelations, argument?_ensureArgument,
          listedRelations]
        by_cases hNew :
            other = title ∧ m.argument? title = none
        · rw [if_pos hNew, hNew.1, hNew.2]
          rfl
        · rw [if_neg hNew]
  constructor
  · rw [Model.classTitles, ensureArgument_classes]
    exact hLinked.classTitles
  · rw [ensureArgument_titles]
    exact nodup_ensured hLinked.argumentTitles title
  · rw [ensureArgument_statements]
    exact hLinked.statementIds
  · rw [ensureArgument_relations]
    exact hLinked.relationIds
  · rw [ensureArgument_statements]
    exact fun s hs => hExtends.contains (hLinked.homes s hs)
  · rw [ensureArgument_relations]
    exact fun r hr =>
      ⟨hExtends.contains (hLinked.ends r hr).1,
        hExtends.contains (hLinked.ends r hr).2⟩
  · intro other
    rw [listedMembers,
      class?_congr (ensureArgument_classes m title),
      ensureArgument_statements]
    exact hLinked.members other
  · intro element
    rw [hRelations, relationsOf, ensureArgument_relations]
    exact hLinked.relations element

------------------------------------------------------------
-- Statements
------------------------------------------------------------

/- A class keeps all but its members when it gains one. -/
theorem addMember_kept
    (s : Statement)
    (id : Nat)
    (c : EquivalenceClass) :
    (addMember s id c).title = c.title ∧
      (addMember s id c).relations = c.relations ∧
      (addMember s id c).sectionId = c.sectionId ∧
      (addMember s id c).equivalentTo = c.equivalentTo := by
  unfold addMember
  cases s.role <;> exact ⟨rfl, rfl, rfl, rfl⟩

/- Adding a statement changes its class and follows others. -/
theorem addStatement_eq (m : Model) (s : Statement) :
    m.addStatement s =
      { ((m.ensureClass s.title s.sectionId).modifyClass s.title
            (addMember s m.nextStatement)
            (addMember_title s _)).recordTags s.tags with
        statements :=
          m.statements
            ++ [{ s with id := m.nextStatement }] } := by
  have hStatements :
      (((m.ensureClass s.title s.sectionId).modifyClass s.title
          (addMember s m.nextStatement)
          (addMember_title s _)).recordTags
            s.tags).statements = m.statements :=
    (modifyClass_statements _ _ _).trans
      (ensureClass_statements _ _ _)
  rw [← hStatements]
  rfl

/- Only the class of the statement that is added changes. -/
theorem class?_addStatement
    (m : Model)
    (s : Statement)
    (title : String) :
    (m.addStatement s).class? title =
      if title = s.title then
        ((m.ensureClass s.title s.sectionId).class? title).map
          (addMember s m.nextStatement)
      else
        (m.ensureClass s.title s.sectionId).class? title := by
  rw [addStatement_eq]
  exact class?_modifyClass _ s.title title

/- The elements when a statement has been added. -/
theorem addStatement_titles (m : Model) (s : Statement) :
    (m.addStatement s).classTitles =
        (m.ensureClass s.title s.sectionId).classTitles ∧
      (m.addStatement s).arguments =
        (m.ensureClass s.title s.sectionId).arguments := by
  rw [addStatement_eq]
  exact
    ⟨modifyClass_titles _ s.title,
      modifyClass_arguments _ _ _⟩

/- Adding a statement leaves the relations. -/
theorem addStatement_relations (m : Model) (s : Statement) :
    (m.addStatement s).relations = m.relations := by
  rw [addStatement_eq]
  exact
    (modifyClass_relations _ _ _).trans
      (ensureClass_relations _ _ _)

/- Adding a statement keeps a model linked. -/
theorem Linked.addStatement
    {m : Model}
    (hLinked : m.Linked)
    (s : Statement) :
    (m.addStatement s).Linked := by
  have hEnsured := hLinked.ensureClass s.title s.sectionId
  have hThere :=
    ensureClass_contains m s.title s.sectionId
  -- all but the members of one class is as before
  have hClass := class?_addStatement m s
  have hRelations := addStatement_relations m s
  rcases addStatement_titles m s with ⟨hClasses, hArguments⟩
  have hContains : ∀ element,
      (m.addStatement s).contains element =
        (m.ensureClass s.title s.sectionId).contains
          element :=
    contains_congr hClasses
      (congrArg (List.map Argument.title) hArguments)
  have hHomes := hEnsured.homes
  have hEnds := hEnsured.ends
  rw [ensureClass_statements] at hHomes
  rw [ensureClass_relations] at hEnds
  have hStatementIds := hLinked.statementIds
  constructor
  · rw [hClasses]
    exact hEnsured.classTitles
  · rw [Model.argumentTitles, hArguments]
    exact hEnsured.argumentTitles
  · rw [addStatement_statements, List.map_append,
      hStatementIds, List.length_append,
      List.length_singleton, List.range_succ]
    rfl
  · rw [hRelations]
    exact hLinked.relationIds
  · intro t ht
    rw [addStatement_statements] at ht
    rw [hContains]
    rcases List.mem_append.mp ht with hOld | hNew
    · exact hHomes t hOld
    · rw [List.mem_singleton.mp hNew]
      exact hThere
  · rw [hRelations]
    intro r hr
    rw [hContains, hContains]
    exact hEnds r hr
  · intro other
    have hBefore := hEnsured.members other
    rw [listedMembers, ensureClass_statements] at hBefore
    rw [listedMembers, hClass, addStatement_statements,
      List.filter_append, List.map_append, ← hBefore]
    by_cases hHere : other = s.title
    · subst hHere
      rw [contains, ← class?_isSome] at hThere
      rcases Option.isSome_iff_exists.mp hThere with ⟨c, hc⟩
      simp [hc, addMember]
    · have hApart : s.title ≠ other := Ne.symm hHere
      simp [hHere, hApart]
  · intro element
    have hBefore := hEnsured.relations element
    rw [relationsOf, ensureClass_relations] at hBefore
    rw [relationsOf, hRelations, ← hBefore]
    cases element with
    | statement other =>
        rw [listedRelations, hClass, listedRelations]
        by_cases hHere : other = s.title
        · rw [if_pos hHere]
          cases (m.ensureClass s.title s.sectionId).class?
              other with
          | none => rfl
          | some c =>
              exact (addMember_kept s m.nextStatement c).2.1
        · rw [if_neg hHere]
    | argument other =>
        rw [listedRelations, argument?_congr hArguments,
          listedRelations]

------------------------------------------------------------
-- Relations
------------------------------------------------------------

/- An element that is there lists a relation noted at it. -/
theorem listedRelations_linkEnd
    {m : Model}
    {element : Element}
    (hThere : m.contains element = true)
    (id : Nat)
    (other : Element) :
    (m.linkEnd element id).listedRelations other =
      if other = element then
        Sequence.addNew (m.listedRelations other) id
      else
        m.listedRelations other := by
  cases element with
  | statement title =>
      rw [contains, ← class?_isSome] at hThere
      rcases Option.isSome_iff_exists.mp hThere with ⟨c, hc⟩
      cases other with
      | statement other =>
          rw [linkEnd, listedRelations, class?_modifyClass,
            listedRelations]
          by_cases hHere : other = title
          · subst hHere
            simp [hc]
          · simp [hHere]
      | argument other =>
          rw [linkEnd, listedRelations, argument?_modifyClass,
            if_neg Element.noConfusion, listedRelations]
  | argument title =>
      rw [contains, ← argument?_isSome] at hThere
      rcases Option.isSome_iff_exists.mp hThere with ⟨a, ha⟩
      cases other with
      | statement other =>
          rw [linkEnd, listedRelations, class?_modifyArgument,
            if_neg Element.noConfusion, listedRelations]
      | argument other =>
          rw [linkEnd, listedRelations,
            argument?_modifyArgument, listedRelations]
          by_cases hHere : other = title
          · subst hHere
            simp [ha]
          · simp [hHere]

/- Noting a relation at its end leaves the members. -/
theorem listedMembers_linkEnd
    (m : Model)
    (element : Element)
    (id : Nat)
    (title : String) :
    (m.linkEnd element id).listedMembers title =
      m.listedMembers title := by
  cases element with
  | statement other =>
      rw [linkEnd, listedMembers, class?_modifyClass,
        listedMembers]
      by_cases hHere : title = other
      · rw [if_pos hHere]
        cases m.class? title <;> rfl
      · rw [if_neg hHere]
  | argument other =>
      rw [linkEnd, listedMembers, class?_modifyArgument,
        listedMembers]

/- The relations that are listed are those that there are. -/
theorem Linked.listed_lt
    {m : Model}
    (hLinked : m.Linked)
    {element : Element}
    {id : Nat}
    (hListed : id ∈ m.listedRelations element) :
    id < m.relations.length := by
  rw [hLinked.relations] at hListed
  have hMem : id ∈ m.relations.map Relation.id :=
    (List.filter_sublist.map Relation.id).subset hListed
  rw [hLinked.relationIds] at hMem
  exact List.mem_range.mp hMem

/- The relations when one has been appended. -/
theorem appendRelation_relations
    (m : Model)
    (source target : Element)
    (kind : RelationKind)
    (origin : Origin)
    (occurrence : Option Nat) :
    (m.appendRelation source target kind origin
        occurrence).relations =
      m.relations
        ++ [⟨m.relations.length, source, target, kind, origin,
          occurrence.toList⟩] := by
  simp [appendRelation]

/- The elements stay when a relation has been appended. -/
theorem appendRelation_titles
    (m : Model)
    (source target : Element)
    (kind : RelationKind)
    (origin : Origin)
    (occurrence : Option Nat) :
    (m.appendRelation source target kind origin
          occurrence).classTitles = m.classTitles ∧
      (m.appendRelation source target kind origin
          occurrence).argumentTitles = m.argumentTitles := by
  have hSource := linkEnd_titles m source m.relations.length
  have hTarget :=
    linkEnd_titles (m.linkEnd source m.relations.length) target
      m.relations.length
  exact
    ⟨hTarget.1.trans hSource.1, hTarget.2.trans hSource.2⟩

/-
  Both ends note a relation that is appended, and an end notes
  it once, even if it is both ends.
-/
theorem Linked.listedRelations_appendRelation
    {m : Model}
    (hLinked : m.Linked)
    {source target : Element}
    (hSource : m.contains source = true)
    (hTarget : m.contains target = true)
    (kind : RelationKind)
    (origin : Origin)
    (occurrence : Option Nat)
    (element : Element) :
    (m.appendRelation source target kind origin
        occurrence).listedRelations element =
      m.listedRelations element ++
        if element = source ∨ element = target then
          [m.relations.length]
        else [] := by
  have hThere :
      (m.linkEnd source m.relations.length).contains target =
        true := by
    have hLater := linkEnd_titles m source m.relations.length
    rw [contains_congr hLater.1 hLater.2]
    exact hTarget
  have hFirst :
      Sequence.addNew (m.listedRelations element)
          m.relations.length =
        m.listedRelations element ++ [m.relations.length] :=
    Sequence.addNew_of_not_mem
      (fun hListed =>
        Nat.lt_irrefl _ (hLinked.listed_lt hListed))
  have hAgain :
      Sequence.addNew
          (m.listedRelations element ++ [m.relations.length])
          m.relations.length =
        m.listedRelations element ++ [m.relations.length] :=
    Sequence.addNew_of_mem (by simp)
  have hBoth :
      (m.appendRelation source target kind origin
          occurrence).listedRelations element =
        ((m.linkEnd source m.relations.length).linkEnd target
          m.relations.length).listedRelations element := rfl
  rw [hBoth, listedRelations_linkEnd hThere,
    listedRelations_linkEnd hSource]
  by_cases hAtSource : element = source
  · rw [if_pos hAtSource, if_pos (Or.inl hAtSource), hFirst,
      hAgain, ite_self]
  · by_cases hAtTarget : element = target
    · rw [if_neg hAtSource, if_pos hAtTarget,
        if_pos (Or.inr hAtTarget), hFirst]
    · rw [if_neg hAtSource, if_neg hAtTarget, if_neg,
        List.append_nil]
      exact fun hEnd => hEnd.elim hAtSource hAtTarget

/- A relation between elements keeps a model linked. -/
theorem Linked.appendRelation
    {m : Model}
    (hLinked : m.Linked)
    {source target : Element}
    (hSource : m.contains source = true)
    (hTarget : m.contains target = true)
    (kind : RelationKind)
    (origin : Origin)
    (occurrence : Option Nat) :
    (m.appendRelation source target kind origin
      occurrence).Linked := by
  have hRelations :=
    appendRelation_relations m source target kind origin
      occurrence
  have hTitles :=
    appendRelation_titles m source target kind origin occurrence
  have hContains : ∀ element,
      (m.appendRelation source target kind origin
          occurrence).contains element =
        m.contains element :=
    contains_congr hTitles.1 hTitles.2
  have hStatements :
      (m.appendRelation source target kind origin
          occurrence).statements = m.statements := by
    simp [Model.appendRelation]
  have hMembers : ∀ title,
      (m.appendRelation source target kind origin
          occurrence).listedMembers title =
        m.listedMembers title :=
    fun title =>
      (listedMembers_linkEnd _ target _ title).trans
        (listedMembers_linkEnd m source _ title)
  have hNoted :=
    hLinked.listedRelations_appendRelation hSource hTarget
      kind origin occurrence
  constructor
  · rw [hTitles.1]
    exact hLinked.classTitles
  · rw [hTitles.2]
    exact hLinked.argumentTitles
  · rw [hStatements]
    exact hLinked.statementIds
  · rw [hRelations, List.map_append, hLinked.relationIds,
      List.length_append, List.length_singleton,
      List.range_succ]
    rfl
  · rw [hStatements]
    intro s hs
    rw [hContains]
    exact hLinked.homes s hs
  · intro r hr
    rw [hRelations] at hr
    rw [hContains, hContains]
    rcases List.mem_append.mp hr with hOld | hNew
    · exact hLinked.ends r hOld
    · rw [List.mem_singleton.mp hNew]
      exact ⟨hSource, hTarget⟩
  · intro title
    rw [hMembers, hStatements]
    exact hLinked.members title
  · intro element
    rw [hNoted, hLinked.relations, relationsOf, relationsOf,
      hRelations, List.filter_append, List.map_append]
    by_cases hTouched : element = source ∨ element = target
    · have hEnd : source = element ∨ target = element :=
        hTouched.imp Eq.symm Eq.symm
      simp [hTouched, hEnd, Relation.touches]
    · have hNoEnd : ¬(source = element ∨ target = element) :=
        fun hEnd => hTouched (hEnd.imp Eq.symm Eq.symm)
      simp [hTouched, hNoEnd, Relation.touches]

/- Declaring a relation between elements keeps them linked. -/
theorem Linked.addRelation
    {m : Model}
    (hLinked : m.Linked)
    {source target : Element}
    (hSource : m.contains source = true)
    (hTarget : m.contains target = true)
    (kind : RelationKind)
    (origin : Origin)
    (occurrence : Option Nat) :
    (m.addRelation source target kind origin
      occurrence).1.Linked := by
  unfold Model.addRelation
  cases m.findRelation? source target kind with
  | some id =>
      exact
        hLinked.of_same
          ((repeatRelation_links m id origin occurrence).trans
            (linkOccurrence_links _ occurrence id))
  | none =>
      exact
        (hLinked.appendRelation hSource hTarget kind origin
          occurrence).of_same
            (linkOccurrence_links _ occurrence _)

/- The elements stay when a relation has been declared. -/
theorem addRelation_contains
    (m : Model)
    (source target : Element)
    (kind : RelationKind)
    (origin : Origin)
    (occurrence : Option Nat)
    (element : Element) :
    (m.addRelation source target kind origin
        occurrence).1.contains element =
      m.contains element := by
  unfold Model.addRelation
  cases m.findRelation? source target kind with
  | some id =>
      exact
        ((repeatRelation_links m id origin occurrence).trans
          (linkOccurrence_links _ occurrence id)).contains
            element
  | none =>
      have hTitles :=
        appendRelation_titles m source target kind origin
          occurrence
      exact
        ((linkOccurrence_links _ occurrence _).contains
          element).trans
            (contains_congr hTitles.1 hTitles.2 element)

end Model

end Dialectic
