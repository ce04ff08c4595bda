import Dialectic.Model.Basic
import Dialectic.Text.Blank
import Dialectic.Text.Search

/-
  This file defines how the model of a document is built.

  Key definitions include:
    * `removeTags`
    * `Builder`
    * `Builder.addStatement`
    * `Builder.addArgument`
    * `Builder.addRelationTree`
    * `Builder.withSteps`
    * `Builder.addReconstruction`
    * `Builder.addBlock`
    * `Model.build`
-/

namespace Dialectic

------------------------------------------------------------
-- Tags in Texts
------------------------------------------------------------

/-
  Remove a tag from a text.  In parentheses it may stand
  anywhere, without them it has to be a word of its own.
-/
def removeTag (text : List Char) (tag : String) : List Char :=
  let enclosed := ("#(" ++ tag ++ ")").toList
  let text := Text.replace enclosed [' '] text
  if tag.toList.any Text.isBlank then
    text
  else
    let word := ("#" ++ tag).toList
    Text.joinWords
      ((Text.words text).filter (fun w => w != word))

/- Remove some tags from a text and squeeze its blanks. -/
def removeTags (text : String) (tags : List String) : String :=
  String.ofList
    (Text.squeeze (tags.foldl removeTag text.toList))

------------------------------------------------------------
-- Builders
------------------------------------------------------------

/-
  What is known after a part of a document: the model so far,
  the open sections, innermost first, how many elements
  without title there were, the declared equivalences and the
  faults.
-/
structure Builder where
  model : Model
  openSections : List Nat
  untitledStatements : Nat
  untitledArguments : Nat
  equivalences : List (String × String)
  faults : List ModelFault
deriving DecidableEq, Repr

namespace Builder

/- Nothing is known before a document. -/
def empty : Builder :=
  ⟨Model.empty, [], 0, 0, [], []⟩

/- List a fault. -/
def report (b : Builder) (fault : ModelFault) : Builder :=
  { b with faults := b.faults ++ [fault] }

/- The title of the element without title of a number. -/
def untitled (number : Nat) : String :=
  "Untitled " ++ toString number

------------------------------------------------------------
-- Sections
------------------------------------------------------------

/- The innermost open section. -/
def currentSection? (b : Builder) : Option Nat :=
  b.openSections.head?

/- A section stays open below a heading of some level. -/
def encloses (m : Model) (level : Nat) (id : Nat) : Bool :=
  match m.section? id with
  | some s => decide (s.level < level)
  | none => true

/- Close the sections that a heading ends, and open its own. -/
def openSection (b : Builder) (heading : Heading) : Builder :=
  let enclosing :=
    b.openSections.dropWhile
      (fun id => !encloses b.model heading.level id)
  let id := b.model.nextSection
  { b with
    model :=
      b.model.addSection heading.title heading.level
        enclosing.head? heading.tags (heading.data.getD [])
        heading.span
    openSections := id :: enclosing }

------------------------------------------------------------
-- Elements
------------------------------------------------------------

/- The text of an element, without its tags if so wished. -/
def cleanText
    (withoutTags : Bool)
    (tags : List String)
    (text : String) : String :=
  if withoutTags then removeTags text tags else text

/-
  The title of a statement, numbered if it has none, and
  whether it is numbered.
-/
def statementTitle (b : Builder) (entry : StatementEntry) :
    String × Bool :=
  match entry.title with
  | some title => (title, false)
  | none => (untitled (b.untitledStatements + 1), true)

/-
  Add a statement.  Also gives its title and its index.
-/
def addStatement
    (withoutTags : Bool)
    (b : Builder)
    (entry : StatementEntry)
    (role : StatementRole) : Builder × String × Nat :=
  let (title, auto) := b.statementTitle entry
  let statement :=
    { Statement.new title role with
      text := entry.text.map (cleanText withoutTags entry.tags)
      tags := entry.tags
      sectionId := b.currentSection?
      isReference := entry.isReference
      mentions := entry.mentions
      data := entry.data.getD []
      span := entry.span }
  let id := b.model.nextStatement
  let m := b.model.addStatement statement
  let m :=
    if auto then
      m.modifyClass title (fun c => { c with isAutoTitled := true })
    else
      m
  ( { b with
      model := m
      untitledStatements :=
        if auto then b.untitledStatements + 1
        else b.untitledStatements },
    title, id )

/-
  The title of an argument, numbered if it has none, and
  whether it is numbered.
-/
def argumentTitle (b : Builder) (entry : ArgumentEntry) :
    String × Bool :=
  match entry.title with
  | some title => (title, false)
  | none => (untitled (b.untitledArguments + 1), true)

/- Add what an occurrence says about its argument. -/
def describe
    (withoutTags : Bool)
    (entry : ArgumentEntry)
    (a : Argument) : Argument :=
  { a with
    descriptions :=
      match entry.description with
      | some text =>
          Sequence.addNew a.descriptions
            (cleanText withoutTags entry.tags text)
      | none => a.descriptions
    tags := Sequence.addAllNew a.tags entry.tags
    data :=
      match entry.data with
      | some fields => Record.addMissing a.data fields
      | none => a.data }

/- Describing an argument keeps its title. -/
theorem describe_title
    (withoutTags : Bool)
    (entry : ArgumentEntry)
    (a : Argument) :
    (describe withoutTags entry a).title = a.title :=
  rfl

/-
  Add an occurrence of an argument.  The first one says where
  it is.  Also gives its title.
-/
def addArgument
    (withoutTags : Bool)
    (b : Builder)
    (entry : ArgumentEntry) : Builder × String :=
  let (title, auto) := b.argumentTitle entry
  let isNew := (b.model.argument? title).isNone
  let m := b.model.ensureArgument title
  let m :=
    if isNew then
      m.modifyArgument title (fun a =>
        { a with
          sectionId := b.currentSection?
          span := entry.span
          isAutoTitled := auto })
    else
      m
  let m :=
    m.modifyArgument title (describe withoutTags entry)
      (describe_title withoutTags entry)
  ( { b with
      model := m.recordTags entry.tags
      untitledArguments :=
        if auto then b.untitledArguments + 1
        else b.untitledArguments },
    title )

/-
  Add an occurrence of an element.  Also gives the element
  and, for a statement, its index.
-/
def addEntry
    (withoutTags : Bool)
    (b : Builder)
    (entry : Entry)
    (role : StatementRole) : Builder × Element × Option Nat :=
  match entry with
  | .statement entry =>
      let (b, title, id) := addStatement withoutTags b entry role
      (b, .statement title, some id)
  | .argument entry =>
      let (b, title) := addArgument withoutTags b entry
      (b, .argument title, none)

------------------------------------------------------------
-- Relations
------------------------------------------------------------

/- Declare two elements equivalent; both are statements. -/
def equate (b : Builder) : (parent target : Element) → Builder
| .statement first, .statement second =>
    { b with
      model := b.model.declareEquivalence first second
      equivalences := b.equivalences ++ [(first, second)] }
| .argument title, _ => b.report (.equivalenceWithArgument title)
| _, .argument title => b.report (.equivalenceWithArgument title)

/- Add the relation that a marker declares. -/
def relate
    (b : Builder)
    (parent target : Element)
    (marker : Marker)
    (occurrence : Option Nat) : Builder :=
  if parent = target then
    b.report (.selfRelation parent.display)
  else
    match RelationKind.ofMarker? marker with
    | none => b.equate parent target
    | some kind =>
        let (source, target) :=
          if marker.incoming then (target, parent)
          else (parent, target)
        { b with
          model :=
            (b.model.addRelation source target kind .explicit
              occurrence).1 }

mutual

/-
  Add a relation line below an element, which occurs as the
  given statement, and the lines below its target.
-/
def addRelationTree
    (withoutTags : Bool)
    (b : Builder)
    (parent : Element)
    (occurrence : Option Nat) :
    RelationEntry → Builder
| ⟨marker, entry, children, _⟩ =>
    let (b, target, id) :=
      addEntry withoutTags b entry .relationTarget
    let b := b.relate parent target marker (id <|> occurrence)
    addRelationTrees withoutTags b target id children

/- Add some relation lines below an element. -/
def addRelationTrees
    (withoutTags : Bool)
    (b : Builder)
    (parent : Element)
    (occurrence : Option Nat) :
    List RelationEntry → Builder
| [] => b
| tree :: trees =>
    let b := addRelationTree withoutTags b parent occurrence tree
    addRelationTrees withoutTags b parent occurrence trees

end

------------------------------------------------------------
-- Premise-Conclusion Structures
------------------------------------------------------------

/- A numbered statement, its role and its inference. -/
structure RoledEntry where
  entry : NumberedEntry
  role : StepRole
  inference : Option String

/-
  The numbered statements with their roles.  One that follows
  an inference is a conclusion, the last of all statements the
  main conclusion; `rule` is that of an inference that has
  just been read.
-/
def rolesAfter :
    (rule : Option (Option String)) →
    List ReconstructionItem →
    List RoledEntry
| _, [] => []
| _, .inference i :: items => rolesAfter (some i.rule) items
| none, .statement entry :: items =>
    ⟨entry, .premise, none⟩ :: rolesAfter none items
| some rule, .statement entry :: items =>
    let isLast := items.all ReconstructionItem.isInference
    let role :=
      if isLast then StepRole.mainConclusion
      else .intermediaryConclusion
    ⟨entry, role, rule⟩ :: rolesAfter none items

/- The numbered statements of a structure with their roles. -/
def roles (r : Reconstruction) : List RoledEntry :=
  rolesAfter none r.items

/- A statement repeats a step: same title and same role. -/
def repeats (step : Step) (given : RoledEntry) : Bool :=
  given.entry.statement.title == some step.title
    && step.role == given.role

/- Add a step of an argument and the relations below it. -/
def addStep
    (withoutTags : Bool)
    (argument : String)
    (b : Builder)
    (given : RoledEntry) : Builder × Step :=
  let number := given.entry.number
  let (b, title, id) :=
    addStatement withoutTags b given.entry.statement
      (given.role.inArgument argument number)
  let b :=
    addRelationTrees withoutTags b (.statement title) (some id)
      given.entry.relations
  (b, ⟨number, title, given.role, given.inference⟩)

/- Add the steps of an argument. -/
def addSteps
    (withoutTags : Bool)
    (argument : String) :
    Builder → List RoledEntry → Builder × List Step
| b, [] => (b, [])
| b, given :: rest =>
    let (b, step) := addStep withoutTags argument b given
    let (b, steps) := addSteps withoutTags argument b rest
    (b, step :: steps)

/- The builder when the steps of an argument are known. -/
def withSteps
    (b : Builder)
    (argument : String)
    (steps : List Step) : Builder :=
  { b with
    model :=
      b.model.modifyArgument argument
        (fun a => { a with steps := steps }) }

/-
  Add the premise-conclusion structure of an argument.  If it
  has one already, a second one has to repeat it and adds
  nothing.
-/
def addReconstruction
    (withoutTags : Bool)
    (b : Builder)
    (argument : String)
    (r : Reconstruction) : Builder :=
  let given := roles r
  let earlier :=
    match b.model.argument? argument with
    | some a => a.steps
    | none => []
  if earlier.isEmpty then
    let (b, steps) := addSteps withoutTags argument b given
    b.withSteps argument steps
  else if earlier.length = given.length
      && (earlier.zip given).all (fun p => repeats p.1 p.2) then
    b
  else
    b.report (.conflictingReconstruction argument)

------------------------------------------------------------
-- Blocks
------------------------------------------------------------

/- Add a block. -/
def addBlock (withoutTags : Bool) (b : Builder) :
    Block → Builder
| .heading heading => b.openSection heading
| .element block =>
    let (b, element, id) :=
      addEntry withoutTags b block.element .top
    let b :=
      match element, block.reconstruction with
      | .argument title, some r =>
          addReconstruction withoutTags b title r
      | _, _ => b
    addRelationTrees withoutTags b element id block.relations

------------------------------------------------------------
-- Equivalences
------------------------------------------------------------

/-
  The explicit relation that keeps two classes from being
  equivalent.
-/
def conflict? (m : Model) (first second : String) :
    Option Relation :=
  let a := Element.statement first
  let b := Element.statement second
  m.explicitRelations.find? (fun r =>
    (r.kind == .attack || r.kind == .contradiction)
      && (r.connects a b r.kind || r.connects b a r.kind))

/- The word for a relation between conflicting statements. -/
def conflictWord : RelationKind → String
| .contradiction => "contradict"
| _ => "attack"

/- Report a declared equivalence that is in conflict. -/
def checkEquivalence
    (b : Builder)
    (pair : String × String) : Builder :=
  match conflict? b.model pair.1 pair.2 with
  | none => b
  | some r =>
      let fault :=
        .conflictingEquivalence pair.1 pair.2
          (conflictWord r.kind)
      { b with faults := Sequence.addNew b.faults fault }

/- Report all declared equivalences that are in conflict. -/
def checkEquivalences (b : Builder) : Builder :=
  b.equivalences.foldl checkEquivalence b

end Builder

------------------------------------------------------------
-- Models
------------------------------------------------------------

/-
  Build the model of a document, with the faults found.  If
  `withoutTags` is set, tags are removed from the texts of
  statements and arguments.
-/
def Model.build
    (withoutTags : Bool)
    (document : Document) : Model × List ModelFault :=
  let b :=
    (document.blocks.foldl (Builder.addBlock withoutTags)
      Builder.empty).checkEquivalences
  (b.model, b.faults ++ b.model.verify)

end Dialectic
