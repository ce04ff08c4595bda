import Dialectic.Model.Builder
import Dialectic.Proofs.Model.Links

/-
  Relations, equivalences and steps link the elements of a
  model.  Declaring them leaves the elements as they are but
  for these links.

  Key definitions include:
    * `Statement.bare`
    * `EquivalenceClass.bare`
    * `Argument.bare`
    * `Model.SameElements`

  Main theorems:
    * `Model.addRelation_elements`
    * `Model.declareEquivalence_elements`
    * `Model.withSteps_elements`
    * `Builder.relate_elements`
-/

namespace Dialectic

------------------------------------------------------------
-- Elements without Links
------------------------------------------------------------

/- A statement without the relations that it declares. -/
def Statement.bare (s : Statement) : Statement :=
  { s with relations := [] }

/- A class without relations and equivalences. -/
def EquivalenceClass.bare (c : EquivalenceClass) :
    EquivalenceClass :=
  { c with relations := [], equivalentTo := [] }

/- An argument without relations and steps. -/
def Argument.bare (a : Argument) : Argument :=
  { a with relations := [], steps := [] }

namespace Model

/- Two models have the same elements but for their links. -/
structure SameElements (m n : Model) : Prop where
  statements :
    n.statements.map Statement.bare =
      m.statements.map Statement.bare
  classes :
    n.classes.map EquivalenceClass.bare =
      m.classes.map EquivalenceClass.bare
  arguments :
    n.arguments.map Argument.bare =
      m.arguments.map Argument.bare
  sections : n.sections = m.sections
  tags : n.tags = m.tags

variable {m n k : Model}

/- A model has the same elements as itself. -/
theorem SameElements.refl (m : Model) : SameElements m m :=
  ⟨rfl, rfl, rfl, rfl, rfl⟩

/- Changes that leave the elements may follow each other. -/
theorem SameElements.trans
    (hFirst : SameElements m n)
    (hSecond : SameElements n k) :
    SameElements m k :=
  ⟨hSecond.statements.trans hFirst.statements,
    hSecond.classes.trans hFirst.classes,
    hSecond.arguments.trans hFirst.arguments,
    hSecond.sections.trans hFirst.sections,
    hSecond.tags.trans hFirst.tags⟩

/- The class of a title is the same. -/
theorem SameElements.class?
    (hSame : SameElements m n)
    (title : String) :
    (n.class? title).map EquivalenceClass.bare =
      (m.class? title).map EquivalenceClass.bare := by
  have hTitle : ∀ c : EquivalenceClass,
      c.bare.title = c.title :=
    fun _ => rfl
  rw [class?_eq, class?_eq, ← Sequence.lastWith_map hTitle,
    ← Sequence.lastWith_map hTitle, hSame.classes]

/- So is the argument of a title. -/
theorem SameElements.argument?
    (hSame : SameElements m n)
    (title : String) :
    (n.argument? title).map Argument.bare =
      (m.argument? title).map Argument.bare := by
  have hTitle : ∀ a : Argument, a.bare.title = a.title :=
    fun _ => rfl
  rw [argument?_eq, argument?_eq,
    ← Sequence.lastWith_map hTitle,
    ← Sequence.lastWith_map hTitle, hSame.arguments]

/- There are classes of the same titles. -/
theorem SameElements.classTitles (hSame : SameElements m n) :
    n.classTitles = m.classTitles := by
  have hTitle :
      EquivalenceClass.title ∘ EquivalenceClass.bare =
        EquivalenceClass.title :=
    rfl
  rw [Model.classTitles, Model.classTitles, ← hTitle,
    ← List.map_map, hSame.classes, List.map_map]

------------------------------------------------------------
-- Links
------------------------------------------------------------

/- A class may change in its links only. -/
theorem modifyClass_elements
    (m : Model)
    (title : String)
    {f : EquivalenceClass → EquivalenceClass}
    {hTitle : ∀ c, (f c).title = c.title}
    (hBare : ∀ c, (f c).bare = c.bare) :
    SameElements m (m.modifyClass title f) := by
  unfold modifyClass
  cases m.classIndex? title with
  | none => exact .refl m
  | some i =>
      exact
        ⟨rfl, Sequence.map_modify i f _ hBare m.classes, rfl,
          rfl, rfl⟩

/- An argument may change in its links only. -/
theorem modifyArgument_elements
    (m : Model)
    (title : String)
    {f : Argument → Argument}
    {hTitle : ∀ a, (f a).title = a.title}
    (hBare : ∀ a, (f a).bare = a.bare) :
    SameElements m (m.modifyArgument title f) := by
  unfold modifyArgument
  cases m.argumentIndex? title with
  | none => exact .refl m
  | some i =>
      exact
        ⟨rfl, rfl, Sequence.map_modify i f _ hBare m.arguments,
          rfl, rfl⟩

/- Knowing the steps of an argument leaves the elements. -/
theorem withSteps_elements
    (m : Model)
    (title : String)
    (steps : List Step) :
    SameElements m
      (m.modifyArgument title
        (fun a => { a with steps := steps })) :=
  modifyArgument_elements m title (fun _ => rfl)

/- Noting a relation at its end leaves the elements. -/
theorem linkEnd_elements
    (m : Model)
    (element : Element)
    (id : Nat) :
    SameElements m (m.linkEnd element id) := by
  unfold linkEnd
  cases element with
  | statement title =>
      exact modifyClass_elements m title (fun _ => rfl)
  | argument title =>
      exact modifyArgument_elements m title (fun _ => rfl)

/- Noting a relation at a statement leaves the elements. -/
theorem linkOccurrence_elements
    (m : Model)
    (occurrence : Option Nat)
    (id : Nat) :
    SameElements m (m.linkOccurrence occurrence id) := by
  cases occurrence with
  | none => exact .refl m
  | some o =>
      have hBare : ∀ s : Statement,
          Statement.bare
              { s with
                relations := Sequence.addNew s.relations id } =
            s.bare :=
        fun _ => rfl
      exact
        ⟨Sequence.map_modify o _ Statement.bare hBare
            m.statements,
          rfl, rfl, rfl, rfl⟩

/- Declaring a relation leaves the elements. -/
theorem addRelation_elements
    (m : Model)
    (source target : Element)
    (kind : RelationKind)
    (origin : Origin)
    (occurrence : Option Nat) :
    SameElements m
      (m.addRelation source target kind origin occurrence).1 := by
  unfold addRelation
  cases m.findRelation? source target kind with
  | some id =>
      have hRepeated :
          SameElements m
            { m with
              relations :=
                m.relations.modify id
                  (repeatRelation · origin occurrence) } :=
        ⟨rfl, rfl, rfl, rfl, rfl⟩
      exact hRepeated.trans (linkOccurrence_elements _ _ _)
  | none =>
      have hEnds :
          SameElements m
            ((m.linkEnd source m.relations.length).linkEnd
              target m.relations.length) :=
        (linkEnd_elements m source _).trans
          (linkEnd_elements _ target _)
      have hAdded :
          SameElements m
            (m.appendRelation source target kind origin
              occurrence) :=
        hEnds.trans ⟨rfl, rfl, rfl, rfl, rfl⟩
      exact hAdded.trans (linkOccurrence_elements _ _ _)

/- Noting that a class is equal leaves the elements. -/
theorem linkEquivalent_elements
    (m : Model)
    (title other : String) :
    SameElements m (m.linkEquivalent title other) :=
  modifyClass_elements m title (fun _ => rfl)

/- Declaring an equivalence leaves the elements. -/
theorem declareEquivalence_elements
    (m : Model)
    (first second : String) :
    SameElements m (m.declareEquivalence first second) := by
  unfold declareEquivalence
  split
  · exact .refl m
  · exact
      (linkEquivalent_elements m first second).trans
        (linkEquivalent_elements _ second first)

end Model

namespace Builder

/-
  Relating two elements leaves the elements, and how many there
  are without title.
-/
theorem relate_elements
    (b : Builder)
    (parent target : Element)
    (marker : Marker)
    (occurrence : Option Nat) :
    let c := b.relate parent target marker occurrence
    Model.SameElements b.model c.model ∧
      c.untitledStatements = b.untitledStatements ∧
      c.untitledArguments = b.untitledArguments := by
  unfold relate
  split
  · exact ⟨.refl _, rfl, rfl⟩
  · cases RelationKind.ofMarker? marker with
    | some kind =>
        cases marker.incoming <;>
          exact
            ⟨Model.addRelation_elements _ _ _ _ _ _, rfl, rfl⟩
    | none =>
        cases parent with
        | argument title => exact ⟨.refl _, rfl, rfl⟩
        | statement first =>
            cases target with
            | argument title => exact ⟨.refl _, rfl, rfl⟩
            | statement second =>
                exact
                  ⟨Model.declareEquivalence_elements _ _ _, rfl,
                    rfl⟩

end Builder

end Dialectic
