import Dialectic.Data.DisjointSets
import Dialectic.Data.Sequence
import Dialectic.Data.TitleIndex
import Dialectic.Model.Fault
import Dialectic.Model.Relation
import Dialectic.Model.Statement

/-
  This file defines the model of a document and the operations
  that look up and add its elements.

  Key definitions include:
    * `ModelData`
    * `Model`
    * `Model.ofData`
    * `Model.addSection`
    * `Model.sectionPath`
    * `Model.addStatement`
    * `Model.ensureArgument`
    * `Model.addRelation`
    * `Model.declareEquivalence`
    * `Model.representative?`
    * `Model.verify`
-/

namespace Dialectic

/- The parts of a model that are written out. -/
structure ModelData where
  statements : List Statement
  classes : List EquivalenceClass
  arguments : List Argument
  relations : List Relation
  sections : List Section
  tags : List String
deriving DecidableEq, Repr

/- The data of a model without any elements. -/
def ModelData.empty : ModelData :=
  ⟨[], [], [], [], [], []⟩

/-
  A model holds the statements, classes, arguments, relations,
  sections and tags of a document, each in the order in which
  they were first seen.  Statements, relations and sections
  are referred to by their index.  Classes and arguments are
  found by their titles, through indices that each change of
  the model has to keep in step.
-/
structure Model where
  statements : List Statement
  classes : List EquivalenceClass
  arguments : List Argument
  relations : List Relation
  sections : List Section
  tags : List String
  classIndex : TitleIndex
  argumentIndex : TitleIndex
  classIndex_eq :
    classIndex =
      .ofTitles (classes.map EquivalenceClass.title)
  argumentIndex_eq :
    argumentIndex = .ofTitles (arguments.map Argument.title)
deriving DecidableEq, Repr

namespace Model

/- The model of some data, whose indices are made anew. -/
def ofData (d : ModelData) : Model where
  statements := d.statements
  classes := d.classes
  arguments := d.arguments
  relations := d.relations
  sections := d.sections
  tags := d.tags
  classIndex := .ofTitles (d.classes.map EquivalenceClass.title)
  argumentIndex := .ofTitles (d.arguments.map Argument.title)
  classIndex_eq := rfl
  argumentIndex_eq := rfl

/- A model without any elements. -/
def empty : Model where
  statements := []
  classes := []
  arguments := []
  relations := []
  sections := []
  tags := []
  classIndex := .empty
  argumentIndex := .empty
  classIndex_eq := rfl
  argumentIndex_eq := rfl

instance : Inhabited Model :=
  ⟨empty⟩

------------------------------------------------------------
-- Indices
------------------------------------------------------------

/- Change all classes, but none of their titles. -/
def mapClasses
    (m : Model)
    (f : EquivalenceClass → EquivalenceClass)
    (hTitle : ∀ c, (f c).title = c.title := by
      first | assumption | exact fun _ => rfl) : Model :=
  { m with
    classes := m.classes.map f
    classIndex_eq := by
      rw [Sequence.map_map_of_kept hTitle, m.classIndex_eq] }

/- Change all arguments, but none of their titles. -/
def mapArguments
    (m : Model)
    (f : Argument → Argument)
    (hTitle : ∀ a, (f a).title = a.title := by
      first | assumption | exact fun _ => rfl) : Model :=
  { m with
    arguments := m.arguments.map f
    argumentIndex_eq := by
      rw [Sequence.map_map_of_kept hTitle,
        m.argumentIndex_eq] }

------------------------------------------------------------
-- Tags
------------------------------------------------------------

/- Record tags in the order in which they were first seen. -/
def recordTags (m : Model) (tags : List String) : Model :=
  { m with tags := Sequence.addAllNew m.tags tags }

------------------------------------------------------------
-- Sections
------------------------------------------------------------

/- The index of the next section. -/
def nextSection (m : Model) : Nat :=
  m.sections.length

/- Add a section at the index of the next one. -/
def addSection
    (m : Model)
    (title : String)
    (level : Nat)
    (parent : Option Nat)
    (tags : List String)
    (data : Record)
    (span : Span) : Model :=
  let added : Section :=
    ⟨m.nextSection, title, level, parent, tags, data, span⟩
  let m := m.recordTags tags
  { m with sections := m.sections ++ [added] }

/- The section of an index. -/
def section? (m : Model) (id : Nat) : Option Section :=
  m.sections[id]?

/-
  A section and those that it is in, innermost first.  If no
  section is inside itself, as where parents precede their
  sections, each step leads to another section, and `fuel` is
  enough if it is the number of sections.  The parents of a
  model that was read may form a cycle, on which the search
  for the outermost section has no end: here it is cut off.
-/
def enclosingSections (m : Model) :
    (fuel : Nat) → (id : Nat) → List Section
| 0, _ => []
| fuel + 1, id =>
    match m.section? id with
    | none => []
    | some s =>
        match s.parent with
        | none => [s]
        | some parent => s :: enclosingSections m fuel parent

/-
  The path to a section, outermost first, with the section
  itself.
-/
def sectionPath (m : Model) (id : Nat) : List Section :=
  (m.enclosingSections m.sections.length id).reverse

/- The titles on the path to a section. -/
def sectionTitles (m : Model) (id : Option Nat) :
    List String :=
  match id with
  | some id => (m.sectionPath id).map Section.title
  | none => []

/- Remove all sections and take the elements out of them. -/
def clearSections (m : Model) : Model :=
  let m := m.mapClasses (fun c => { c with sectionId := none })
  let m := m.mapArguments (fun a => { a with sectionId := none })
  { m with
    sections := []
    statements :=
      m.statements.map (fun s => { s with sectionId := none }) }

------------------------------------------------------------
-- Statements and Classes
------------------------------------------------------------

/- The index of the class of a title. -/
def classIndex? (m : Model) (title : String) : Option Nat :=
  m.classIndex.get? title

/- The class of a title. -/
def class? (m : Model) (title : String) :
    Option EquivalenceClass :=
  (m.classIndex? title).bind (m.classes[·]?)

/- Change the class of a title, but not its title. -/
def modifyClass
    (m : Model)
    (title : String)
    (f : EquivalenceClass → EquivalenceClass)
    (hTitle : ∀ c, (f c).title = c.title := by
      first | assumption | exact fun _ => rfl) : Model :=
  match m.classIndex? title with
  | some i =>
      { m with
        classes := m.classes.modify i f
        classIndex_eq := by
          rw [Sequence.map_modify _ _ _ hTitle,
            m.classIndex_eq] }
  | none => m

/- The statement of an index. -/
def statement? (m : Model) (id : Nat) : Option Statement :=
  m.statements[id]?

/- Change the statement of an index. -/
def modifyStatement
    (m : Model)
    (id : Nat)
    (f : Statement → Statement) : Model :=
  { m with statements := m.statements.modify id f }

/- Add the class of a title that has none yet. -/
def ensureClass
    (m : Model)
    (title : String)
    (sectionId : Option Nat) : Model :=
  match m.classIndex? title with
  | some _ => m
  | none =>
      let added :=
        { EquivalenceClass.new title m.classes.length with
          sectionId := sectionId }
      { m with
        classes := m.classes ++ [added]
        classIndex := m.classIndex.insert title m.classes.length
        classIndex_eq := by
          rw [List.map_append, List.map_singleton,
            TitleIndex.ofTitles_concat, m.classIndex_eq,
            List.length_map]
          rfl }

/- The index of the next statement. -/
def nextStatement (m : Model) : Nat :=
  m.statements.length

/-
  A class that gains a member, and with it the tags of a
  statement, its data for new keys and its role.
-/
def addMember
    (s : Statement)
    (id : Nat)
    (c : EquivalenceClass) : EquivalenceClass :=
  { c.noteRole s.role with
    members := c.members ++ [id]
    tags := Sequence.addAllNew c.tags s.tags
    data := Record.addMissing c.data s.data }

/- A class that gains a member keeps its title. -/
theorem addMember_title
    (s : Statement)
    (id : Nat)
    (c : EquivalenceClass) :
    (addMember s id c).title = c.title :=
  c.noteRole_title s.role

/-
  Add a statement at the index of the next one, and to its
  class.
-/
def addStatement (m : Model) (s : Statement) : Model :=
  let id := m.nextStatement
  let m := m.ensureClass s.title s.sectionId
  let m :=
    m.modifyClass s.title (addMember s id) (addMember_title s id)
  let m := m.recordTags s.tags
  { m with statements := m.statements ++ [{ s with id := id }] }

/- The statements of the class of a title. -/
def members (m : Model) (title : String) : List Statement :=
  match m.class? title with
  | some c => c.members.filterMap m.statement?
  | none => []

/- The text of the first member of a class that has one. -/
def classText? (m : Model) (title : String) : Option String :=
  (m.members title).findSome? Statement.text

------------------------------------------------------------
-- Arguments
------------------------------------------------------------

/- The index of the argument of a title. -/
def argumentIndex? (m : Model) (title : String) : Option Nat :=
  m.argumentIndex.get? title

/- The argument of a title. -/
def argument? (m : Model) (title : String) : Option Argument :=
  (m.argumentIndex? title).bind (m.arguments[·]?)

/- Change the argument of a title, but not its title. -/
def modifyArgument
    (m : Model)
    (title : String)
    (f : Argument → Argument)
    (hTitle : ∀ a, (f a).title = a.title := by
      first | assumption | exact fun _ => rfl) : Model :=
  match m.argumentIndex? title with
  | some i =>
      { m with
        arguments := m.arguments.modify i f
        argumentIndex_eq := by
          rw [Sequence.map_modify _ _ _ hTitle,
            m.argumentIndex_eq] }
  | none => m

/- Add the argument of a title that has none yet. -/
def ensureArgument (m : Model) (title : String) : Model :=
  match m.argumentIndex? title with
  | some _ => m
  | none =>
      let added := Argument.new title m.arguments.length
      { m with
        arguments := m.arguments ++ [added]
        argumentIndex :=
          m.argumentIndex.insert title m.arguments.length
        argumentIndex_eq := by
          rw [List.map_append, List.map_singleton,
            TitleIndex.ofTitles_concat, m.argumentIndex_eq,
            List.length_map]
          rfl }

/- An element belongs to a model. -/
def contains (m : Model) : Element → Bool
| .statement title => (m.classIndex? title).isSome
| .argument title => (m.argumentIndex? title).isSome

------------------------------------------------------------
-- Relations
------------------------------------------------------------

/- The relation of an index. -/
def relation? (m : Model) (id : Nat) : Option Relation :=
  m.relations[id]?

/- The relations that the document declares. -/
def explicitRelations (m : Model) : List Relation :=
  m.relations.filter Relation.isExplicit

/- The relations that an element is an end of. -/
def relationsOf (m : Model) (element : Element) :
    List Relation :=
  m.relations.filter (fun r => r.touches element)

/- The first relation of a kind that connects two elements. -/
def findRelation?
    (m : Model)
    (source target : Element)
    (kind : RelationKind) : Option Nat :=
  (m.relations.find?
    (fun r => r.connects source target kind)).map Relation.id

/- Note at an end of a relation that it is one. -/
def linkEnd (m : Model) (element : Element) (id : Nat) :
    Model :=
  match element with
  | .statement title =>
      m.modifyClass title (fun c =>
        { c with relations := Sequence.addNew c.relations id })
  | .argument title =>
      m.modifyArgument title (fun a =>
        { a with relations := Sequence.addNew a.relations id })

/- Note at a statement that it declares a relation. -/
def linkOccurrence
    (m : Model)
    (occurrence : Option Nat)
    (id : Nat) : Model :=
  match occurrence with
  | some o =>
      m.modifyStatement o (fun s =>
        { s with relations := Sequence.addNew s.relations id })
  | none => m

/-
  Declare a relation once more.  It is explicit if some
  declaration is.
-/
def repeatRelation
    (r : Relation)
    (origin : Origin)
    (occurrence : Option Nat) : Relation :=
  { r with
    origin := if origin.isExplicit then .explicit else r.origin
    occurrences :=
      match occurrence with
      | some o => Sequence.addNew r.occurrences o
      | none => r.occurrences }

/- Add a relation that is not there yet. -/
def appendRelation
    (m : Model)
    (source target : Element)
    (kind : RelationKind)
    (origin : Origin)
    (occurrence : Option Nat) : Model :=
  let id := m.relations.length
  let m := (m.linkEnd source id).linkEnd target id
  let added : Relation :=
    ⟨id, source, target, kind, origin, occurrence.toList⟩
  { m with relations := m.relations ++ [added] }

/-
  Add a relation, or declare it once more if there is one of
  its kind that connects its ends.  Also gives its index.
-/
def addRelation
    (m : Model)
    (source target : Element)
    (kind : RelationKind)
    (origin : Origin)
    (occurrence : Option Nat) : Model × Nat :=
  match m.findRelation? source target kind with
  | some id =>
      let m :=
        { m with
          relations :=
            m.relations.modify id
              (repeatRelation · origin occurrence) }
      (m.linkOccurrence occurrence id, id)
  | none =>
      let id := m.relations.length
      let m := m.appendRelation source target kind origin
        occurrence
      (m.linkOccurrence occurrence id, id)

------------------------------------------------------------
-- Equivalence
------------------------------------------------------------

/- Note at the class of a title that another one is equal. -/
def linkEquivalent (m : Model) (title other : String) : Model :=
  m.modifyClass title (fun c =>
    { c with
      equivalentTo := Sequence.addNew c.equivalentTo other })

/- Declare two classes equivalent. -/
def declareEquivalence (m : Model) (first second : String) :
    Model :=
  if first = second then m
  else
    (m.linkEquivalent first second).linkEquivalent second first

/-
  The pairs of indices of classes that are declared
  equivalent.
-/
def equivalentPairs (m : Model) : List (Nat × Nat) :=
  m.classes.zipIdx.flatMap (fun (c, i) =>
    c.equivalentTo.filterMap (fun other =>
      (m.classIndex? other).map (fun j => (i, j))))

/-
  The indices of classes, as sets of those that are equivalent
  through any number of declarations.
-/
def equivalentSets (m : Model) : DisjointSets :=
  m.equivalentPairs.foldl DisjointSets.join
    (DisjointSets.singletons m.classes.length)

/-
  For each class the index of the first class that it is
  equivalent to.
-/
def representativeIndices (m : Model) : List Nat :=
  m.equivalentSets.representatives
    (List.range m.classes.length)

/-
  The title of the first class that the class of a title is
  equivalent to.
-/
def representative? (m : Model) (title : String) :
    Option String := do
  let i ← m.classIndex? title
  let j ← m.representativeIndices[i]?
  let c ← m.classes[j]?
  pure c.title

------------------------------------------------------------
-- Integrity
------------------------------------------------------------

/-
  A statement is a member of the class of its title.  Indices
  in step give a class of this title, if any.
-/
def hasClass (m : Model) (s : Statement) : Bool :=
  match m.class? s.title with
  | some c => c.title == s.title && c.members.contains s.id
  | none => false

/- Each reference that leads to nothing. -/
def verify (m : Model) : List ModelFault :=
  let homeless := m.statements.filter (fun s => !m.hasClass s)
  let ends :=
    m.relations.flatMap (fun r => [r.source, r.target])
  homeless.map
      (fun s =>
        .danglingReference (Element.statement s.title).display)
    ++ (ends.filter (fun e => !m.contains e)).map
      (fun e => .danglingReference e.display)

end Model

end Dialectic
