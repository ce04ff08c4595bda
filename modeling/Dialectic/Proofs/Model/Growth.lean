import Dialectic.Model.Basic
import Dialectic.Proofs.Data.TitleIndex

/-
  The title indices of a model lead to the last class and to
  the last argument of each title.  What a model keeps when
  elements and relations are added.

  Key definitions include:
    * `Model.stepsOf`
    * `Model.Declared`
    * `Model.Extends`
    * `Model.Connects`
    * `Model.Equates`

  Main theorems:
    * `Model.ext_of_data`
    * `Model.classIndex?_eq`
    * `Model.argumentIndex?_eq`
    * `Model.Extends.trans`
    * `Model.addStatement_extends`
    * `Model.addRelation_extends`
    * `Model.addRelation_connects`
    * `Model.declareEquivalence_extends`
    * `Model.declareEquivalence_equates`
-/

namespace Dialectic

------------------------------------------------------------
-- Contents
------------------------------------------------------------

/- What a document says about an occurrence of a statement. -/
structure Content where
  title : String
  text : Option String
  tags : List String
  data : Record

/- What the document says about a statement. -/
def Statement.content (s : Statement) : Content :=
  ⟨s.title, s.text, s.tags, s.data⟩

namespace Model

------------------------------------------------------------
-- Look-Up
------------------------------------------------------------

/- What a model holds determines its indices. -/
theorem ext_of_data
    {m n : Model}
    (hStatements : m.statements = n.statements)
    (hClasses : m.classes = n.classes)
    (hArguments : m.arguments = n.arguments)
    (hRelations : m.relations = n.relations)
    (hSections : m.sections = n.sections)
    (hTags : m.tags = n.tags) :
    m = n := by
  have hClassIndex : m.classIndex = n.classIndex := by
    rw [m.classIndex_eq, n.classIndex_eq, hClasses]
  have hArgumentIndex : m.argumentIndex = n.argumentIndex := by
    rw [m.argumentIndex_eq, n.argumentIndex_eq, hArguments]
  cases m
  cases n
  simp_all

/- The index of a title is that of the last class of it. -/
theorem classIndex?_eq (m : Model) (title : String) :
    m.classIndex? title =
      Sequence.lastIndex? (fun c => c.title == title)
        m.classes := by
  rw [classIndex?, m.classIndex_eq, TitleIndex.get?_ofTitles,
    Sequence.lastIndex?_map]

/- The index of a title is that of the last argument of it. -/
theorem argumentIndex?_eq (m : Model) (title : String) :
    m.argumentIndex? title =
      Sequence.lastIndex? (fun a => a.title == title)
        m.arguments := by
  rw [argumentIndex?, m.argumentIndex_eq,
    TitleIndex.get?_ofTitles, Sequence.lastIndex?_map]

/- The index of a title leads to a class of it. -/
theorem classIndex?_some
    {m : Model}
    {title : String}
    {i : Nat}
    (hIndex : m.classIndex? title = some i) :
    ∃ c, m.classes[i]? = some c ∧ c.title = title := by
  rw [classIndex?_eq] at hIndex
  rcases Sequence.lastIndex?_some hIndex with ⟨c, hc, hTitle⟩
  exact ⟨c, hc, eq_of_beq hTitle⟩

/- The index of a title leads to an argument of it. -/
theorem argumentIndex?_some
    {m : Model}
    {title : String}
    {i : Nat}
    (hIndex : m.argumentIndex? title = some i) :
    ∃ a, m.arguments[i]? = some a ∧ a.title = title := by
  rw [argumentIndex?_eq] at hIndex
  rcases Sequence.lastIndex?_some hIndex with ⟨a, ha, hTitle⟩
  exact ⟨a, ha, eq_of_beq hTitle⟩

/- The class of a title is the last one that has it. -/
theorem class?_eq (m : Model) (title : String) :
    m.class? title =
      Sequence.lastWith EquivalenceClass.title title
        m.classes := by
  rw [class?, classIndex?_eq]
  rfl

/- The argument of a title is the last one that has it. -/
theorem argument?_eq (m : Model) (title : String) :
    m.argument? title =
      Sequence.lastWith Argument.title title m.arguments := by
  rw [argument?, argumentIndex?_eq]
  rfl

/- The classes of a model decide what has a title. -/
theorem class?_congr
    {m n : Model}
    (hClasses : n.classes = m.classes)
    (title : String) :
    n.class? title = m.class? title := by
  rw [class?_eq, class?_eq, hClasses]

/- The arguments of a model decide what has a title. -/
theorem argument?_congr
    {m n : Model}
    (hArguments : n.arguments = m.arguments)
    (title : String) :
    n.argument? title = m.argument? title := by
  rw [argument?_eq, argument?_eq, hArguments]

/- A title has a class if a class has it. -/
theorem class?_isSome (m : Model) (title : String) :
    (m.class? title).isSome =
      (m.classIndex? title).isSome := by
  rw [class?_eq, classIndex?_eq]
  exact Sequence.lastWith_isSome EquivalenceClass.title title _

/- A title has an argument if an argument has it. -/
theorem argument?_isSome (m : Model) (title : String) :
    (m.argument? title).isSome =
      (m.argumentIndex? title).isSome := by
  rw [argument?_eq, argumentIndex?_eq]
  exact Sequence.lastWith_isSome Argument.title title _

/- The steps of the argument of a title. -/
def stepsOf (m : Model) (title : String) : List Step :=
  match m.argument? title with
  | some a => a.steps
  | none => []

/- The class of a title when that of another one is changed. -/
theorem class?_modifyClass
    (m : Model)
    (title : String)
    {f : EquivalenceClass → EquivalenceClass}
    {hTitle : ∀ c, (f c).title = c.title}
    (other : String) :
    (m.modifyClass title f).class? other =
      if other = title then (m.class? other).map f
      else m.class? other := by
  unfold modifyClass
  cases hIndex : m.classIndex? title with
  | some i =>
      rw [classIndex?_eq] at hIndex
      simp only [class?_eq]
      exact Sequence.lastWith_modify hIndex hTitle other
  | none =>
      by_cases hSame : other = title
      · have hNone : m.class? other = none := by
          simp [class?, hSame, hIndex]
        simp [hNone]
      · simp [hSame]

/- The argument of a title when that of another is changed. -/
theorem argument?_modifyArgument
    (m : Model)
    (title : String)
    {f : Argument → Argument}
    {hTitle : ∀ a, (f a).title = a.title}
    (other : String) :
    (m.modifyArgument title f).argument? other =
      if other = title then (m.argument? other).map f
      else m.argument? other := by
  unfold modifyArgument
  cases hIndex : m.argumentIndex? title with
  | some i =>
      rw [argumentIndex?_eq] at hIndex
      simp only [argument?_eq]
      exact Sequence.lastWith_modify hIndex hTitle other
  | none =>
      by_cases hSame : other = title
      · have hNone : m.argument? other = none := by
          simp [argument?, hSame, hIndex]
        simp [hNone]
      · simp [hSame]

/- The class of a title when a title is given one. -/
theorem class?_ensureClass
    (m : Model)
    (title : String)
    (sectionId : Option Nat)
    (other : String) :
    (m.ensureClass title sectionId).class? other =
      if other = title ∧ m.class? title = none then
        some { EquivalenceClass.new title m.classes.length with
          sectionId := sectionId }
      else
        m.class? other := by
  have hKnown := class?_isSome m title
  unfold ensureClass
  cases hIndex : m.classIndex? title with
  | some i =>
      rw [hIndex, Option.isSome_some] at hKnown
      simp [Option.isSome_iff_ne_none.mp hKnown]
  | none =>
      rw [hIndex, Option.isSome_none,
        Option.isSome_eq_false_iff, Option.isNone_iff_eq_none]
        at hKnown
      simp only [class?_eq] at hKnown ⊢
      rw [Sequence.lastWith_append]
      by_cases hSame : other = title
      · subst hSame
        simp [EquivalenceClass.new, hKnown]
      · simp [EquivalenceClass.new, hSame, Ne.symm hSame]

/- The argument of a title when a title is given one. -/
theorem argument?_ensureArgument
    (m : Model)
    (title other : String) :
    (m.ensureArgument title).argument? other =
      if other = title ∧ m.argument? title = none then
        some (Argument.new title m.arguments.length)
      else
        m.argument? other := by
  have hKnown := argument?_isSome m title
  unfold ensureArgument
  cases hIndex : m.argumentIndex? title with
  | some i =>
      rw [hIndex, Option.isSome_some] at hKnown
      simp [Option.isSome_iff_ne_none.mp hKnown]
  | none =>
      rw [hIndex, Option.isSome_none,
        Option.isSome_eq_false_iff, Option.isNone_iff_eq_none]
        at hKnown
      simp only [argument?_eq] at hKnown ⊢
      rw [Sequence.lastWith_append]
      by_cases hSame : other = title
      · subst hSame
        simp [Argument.new, hKnown]
      · simp [Argument.new, hSame, Ne.symm hSame]

------------------------------------------------------------
-- Extensions
------------------------------------------------------------

/- All relations are declared in the document. -/
def Declared (m : Model) : Prop :=
  ∀ r ∈ m.relations, r.isExplicit = true

/-
  A model has all that another one has.  The arguments of the
  given titles may have other steps.
-/
structure Extends (given : List String) (m n : Model) :
    Prop where
  statements :
    m.statements.map Statement.content <+:
      n.statements.map Statement.content
  classes : ∀ title c, m.class? title = some c →
    ∃ d, n.class? title = some d ∧
      c.equivalentTo ⊆ d.equivalentTo
  arguments : ∀ title, (m.argument? title).isSome = true →
    (n.argument? title).isSome = true
  steps : ∀ title ∉ given, n.stepsOf title = m.stepsOf title
  relations : ∀ r ∈ m.relations,
    ∃ s ∈ n.relations,
      s.source = r.source ∧ s.target = r.target ∧
        s.kind = r.kind
  declared : m.Declared → n.Declared

variable {given : List String}

/- Models of the same statements and relations. -/
theorem Extends.of_elements
    {m n : Model}
    (hStatements : n.statements = m.statements)
    (hRelations : n.relations = m.relations)
    (hClasses : ∀ title c, m.class? title = some c →
      ∃ d, n.class? title = some d ∧
        c.equivalentTo ⊆ d.equivalentTo)
    (hArguments : ∀ title, (m.argument? title).isSome = true →
      (n.argument? title).isSome = true)
    (hSteps : ∀ title ∉ given,
      n.stepsOf title = m.stepsOf title) :
    Extends given m n := by
  refine ⟨?_, hClasses, hArguments, hSteps, ?_, ?_⟩
  · exact hStatements ▸ List.prefix_rfl
  · intro r hr
    rw [hRelations]
    exact ⟨r, hr, rfl, rfl, rfl⟩
  · intro hDeclared r hr
    rw [hRelations] at hr
    exact hDeclared r hr

/- Models that have the same but for their classes. -/
theorem Extends.of_classes
    {m n : Model}
    (hStatements : n.statements = m.statements)
    (hArguments : n.arguments = m.arguments)
    (hRelations : n.relations = m.relations)
    (hClasses : ∀ title c, m.class? title = some c →
      ∃ d, n.class? title = some d ∧
        c.equivalentTo ⊆ d.equivalentTo) :
    Extends given m n := by
  apply Extends.of_elements hStatements hRelations hClasses
  · intro title hFound
    rw [argument?_congr hArguments]
    exact hFound
  · intro title _
    simp only [stepsOf, argument?_congr hArguments]

/- Models that have the same but for their arguments. -/
theorem Extends.of_arguments
    {m n : Model}
    (hStatements : n.statements = m.statements)
    (hClasses : n.classes = m.classes)
    (hRelations : n.relations = m.relations)
    (hArguments : ∀ title, (m.argument? title).isSome = true →
      (n.argument? title).isSome = true)
    (hSteps : ∀ title ∉ given,
      n.stepsOf title = m.stepsOf title) :
    Extends given m n := by
  refine
    Extends.of_elements hStatements hRelations ?_ hArguments
      hSteps
  intro title c hFound
  rw [class?_congr hClasses]
  exact ⟨c, hFound, fun _ h => h⟩

/- Models of the same elements and relations. -/
theorem Extends.of_same
    {m n : Model}
    (hStatements : n.statements = m.statements)
    (hClasses : n.classes = m.classes)
    (hArguments : n.arguments = m.arguments)
    (hRelations : n.relations = m.relations) :
    Extends given m n := by
  apply
    Extends.of_classes hStatements hArguments hRelations
  intro title c hFound
  rw [class?_congr hClasses]
  exact ⟨c, hFound, fun _ h => h⟩

/- A model has all that it has. -/
theorem Extends.refl (m : Model) : Extends given m m :=
  Extends.of_same rfl rfl rfl rfl

/- Extensions follow each other. -/
theorem Extends.trans
    {m n k : Model}
    (hFirst : Extends given m n)
    (hSecond : Extends given n k) :
    Extends given m k := by
  constructor
  · exact hFirst.statements.trans hSecond.statements
  · intro title c hFound
    rcases hFirst.classes title c hFound with ⟨d, hd, hKept⟩
    rcases hSecond.classes title d hd with ⟨e, he, hKept'⟩
    exact ⟨e, he, fun _ hMem => hKept' (hKept hMem)⟩
  · exact fun title hFound =>
      hSecond.arguments title (hFirst.arguments title hFound)
  · exact fun title hTitle =>
      (hSecond.steps title hTitle).trans
        (hFirst.steps title hTitle)
  · intro r hr
    rcases hFirst.relations r hr with
      ⟨s, hs, hSource, hTarget, hKind⟩
    rcases hSecond.relations s hs with
      ⟨t, ht, hSource', hTarget', hKind'⟩
    exact
      ⟨t, ht, hSource'.trans hSource, hTarget'.trans hTarget,
        hKind'.trans hKind⟩
  · exact fun hDeclared =>
      hSecond.declared (hFirst.declared hDeclared)

/- More arguments may have other steps. -/
theorem Extends.mono
    {more : List String}
    {m n : Model}
    (hExtends : Extends given m n)
    (hMore : given ⊆ more) :
    Extends more m n :=
  { hExtends with
    steps := fun title hTitle =>
      hExtends.steps title
        (fun hGiven => hTitle (hMore hGiven)) }

/- A statement of a model keeps what the document says. -/
theorem Extends.statement?
    {m n : Model}
    (hExtends : Extends given m n)
    {id : Nat}
    {s : Statement}
    (hFound : m.statement? id = some s) :
    ∃ t, n.statement? id = some t ∧ t.content = s.content := by
  rcases hExtends.statements with ⟨added, hAdded⟩
  have hHere :
      (m.statements.map Statement.content)[id]? =
        some s.content := by
    rw [List.getElem?_map]
    exact congrArg (Option.map Statement.content) hFound
  have hBound := (List.getElem?_eq_some_iff.mp hHere).1
  have hLater :
      (n.statements.map Statement.content)[id]? =
        some s.content := by
    rw [← hAdded, List.getElem?_append_left hBound]
    exact hHere
  rw [List.getElem?_map] at hLater
  exact Option.map_eq_some_iff.mp hLater

/- The elements of a model stay in it. -/
theorem Extends.contains
    {m n : Model}
    (hExtends : Extends given m n)
    {element : Element}
    (hElement : m.contains element = true) :
    n.contains element = true := by
  cases element with
  | statement title =>
      rw [Model.contains, ← class?_isSome] at hElement ⊢
      rcases Option.isSome_iff_exists.mp hElement with ⟨c, hc⟩
      rcases hExtends.classes title c hc with ⟨d, hd, _⟩
      rw [hd]
      rfl
  | argument title =>
      rw [Model.contains, ← argument?_isSome] at hElement ⊢
      exact hExtends.arguments title hElement

------------------------------------------------------------
-- Changes
------------------------------------------------------------

/- Changing a class keeps its title and equivalences. -/
theorem modifyClass_extends
    (m : Model)
    (title : String)
    {f : EquivalenceClass → EquivalenceClass}
    {hTitle : ∀ c, (f c).title = c.title}
    (hKept : ∀ c, c.equivalentTo ⊆ (f c).equivalentTo) :
    Extends given m (m.modifyClass title f) := by
  have hOthers :
      (m.modifyClass title f).statements = m.statements ∧
        (m.modifyClass title f).arguments = m.arguments ∧
          (m.modifyClass title f).relations =
            m.relations := by
    unfold modifyClass
    cases m.classIndex? title <;> exact ⟨rfl, rfl, rfl⟩
  rcases hOthers with ⟨hStatements, hArguments, hRelations⟩
  apply
    Extends.of_classes hStatements hArguments hRelations
  intro other c hFound
  rw [class?_modifyClass m title, hFound]
  by_cases hHere : other = title
  · exact ⟨f c, by simp [hHere], hKept c⟩
  · exact ⟨c, by simp [hHere], fun _ h => h⟩

/- Giving a title a class keeps all classes. -/
theorem ensureClass_extends
    (m : Model)
    (title : String)
    (sectionId : Option Nat) :
    Extends given m (m.ensureClass title sectionId) := by
  have hOthers :
      (m.ensureClass title sectionId).statements =
          m.statements ∧
        (m.ensureClass title sectionId).arguments =
            m.arguments ∧
          (m.ensureClass title sectionId).relations =
            m.relations := by
    unfold ensureClass
    cases m.classIndex? title <;> exact ⟨rfl, rfl, rfl⟩
  rcases hOthers with ⟨hStatements, hArguments, hRelations⟩
  apply
    Extends.of_classes hStatements hArguments hRelations
  intro other c hFound
  have hKnown : ¬(other = title ∧ m.class? title = none) := by
    rintro ⟨rfl, hNone⟩
    rw [hNone] at hFound
    cases hFound
  rw [class?_ensureClass, if_neg hKnown]
  exact ⟨c, hFound, fun _ h => h⟩

/- A title that is given a class has one. -/
theorem ensureClass_contains
    (m : Model)
    (title : String)
    (sectionId : Option Nat) :
    (m.ensureClass title sectionId).contains
      (.statement title) = true := by
  rw [Model.contains, ← class?_isSome, class?_ensureClass]
  by_cases hNew : m.class? title = none
  · simp [hNew]
  · simpa [hNew] using Option.isSome_iff_ne_none.mpr hNew

/- Recording tags keeps all elements. -/
theorem recordTags_extends (m : Model) (tags : List String) :
    Extends given m (m.recordTags tags) :=
  Extends.of_same rfl rfl rfl rfl

/- Adding a section keeps all elements. -/
theorem addSection_extends
    (m : Model)
    (title : String)
    (level : Nat)
    (parent : Option Nat)
    (tags : List String)
    (data : Record)
    (span : Span) :
    Extends given m
      (m.addSection title level parent tags data span) :=
  Extends.of_same rfl rfl rfl rfl

/- Statements may follow those that there are. -/
theorem appendStatement_extends (m : Model) (s : Statement) :
    Extends given m
      { m with statements := m.statements ++ [s] } := by
  have hSame : Extends given m m := Extends.refl m
  refine { hSame with statements := ?_ }
  rw [List.map_append]
  exact List.prefix_append _ _

/- Changing a statement keeps what the document says. -/
theorem modifyStatement_extends
    (m : Model)
    (id : Nat)
    {f : Statement → Statement}
    (hContent : ∀ s, (f s).content = s.content) :
    Extends given m (m.modifyStatement id f) := by
  have hSame : Extends given m m := Extends.refl m
  refine { hSame with statements := ?_ }
  have hMap :=
    Sequence.map_modify id f Statement.content hContent
      m.statements
  exact hMap ▸ List.prefix_rfl

/-
  Changing an argument keeps its title, and its steps unless
  it is a given one.
-/
theorem modifyArgument_extends
    (m : Model)
    (title : String)
    {f : Argument → Argument}
    {hTitle : ∀ a, (f a).title = a.title}
    (hSteps : title ∉ given → ∀ a, (f a).steps = a.steps) :
    Extends given m (m.modifyArgument title f) := by
  have hOthers :
      (m.modifyArgument title f).statements = m.statements ∧
        (m.modifyArgument title f).classes = m.classes ∧
          (m.modifyArgument title f).relations =
            m.relations := by
    unfold modifyArgument
    cases m.argumentIndex? title <;> exact ⟨rfl, rfl, rfl⟩
  rcases hOthers with ⟨hStatements, hClasses, hRelations⟩
  apply
    Extends.of_arguments hStatements hClasses hRelations
  · intro other hFound
    rw [argument?_modifyArgument m title]
    by_cases hHere : other = title
    · rw [if_pos hHere, Option.isSome_map]
      exact hFound
    · rw [if_neg hHere]
      exact hFound
  · intro other hOther
    unfold stepsOf
    rw [argument?_modifyArgument m title]
    by_cases hHere : other = title
    · rw [if_pos hHere]
      cases m.argument? other with
      | none => rfl
      | some a => exact hSteps (hHere ▸ hOther) a
    · rw [if_neg hHere]

/- Giving a title an argument keeps all arguments. -/
theorem ensureArgument_extends (m : Model) (title : String) :
    Extends given m (m.ensureArgument title) := by
  have hOthers :
      (m.ensureArgument title).statements = m.statements ∧
        (m.ensureArgument title).classes = m.classes ∧
          (m.ensureArgument title).relations =
            m.relations := by
    unfold ensureArgument
    cases m.argumentIndex? title <;> exact ⟨rfl, rfl, rfl⟩
  rcases hOthers with ⟨hStatements, hClasses, hRelations⟩
  apply
    Extends.of_arguments hStatements hClasses hRelations
  · intro other hFound
    rw [argument?_ensureArgument]
    split
    · rfl
    · exact hFound
  · intro other _
    unfold stepsOf
    rw [argument?_ensureArgument]
    by_cases hNew : other = title ∧ m.argument? title = none
    · rw [if_pos hNew, hNew.1, hNew.2]
      rfl
    · rw [if_neg hNew]

/- A title that is given an argument has one. -/
theorem ensureArgument_contains (m : Model) (title : String) :
    (m.ensureArgument title).contains (.argument title) =
      true := by
  rw [Model.contains, ← argument?_isSome,
    argument?_ensureArgument]
  by_cases hNew : m.argument? title = none
  · simp [hNew]
  · simpa [hNew] using Option.isSome_iff_ne_none.mpr hNew

/- A declared relation may follow those that there are. -/
theorem appendDeclared_extends
    (m : Model)
    {r : Relation}
    (hExplicit : r.isExplicit = true) :
    Extends given m
      { m with relations := m.relations ++ [r] } := by
  have hSame : Extends given m m := Extends.refl m
  refine { hSame with relations := ?_, declared := ?_ }
  · exact fun s hs =>
      ⟨s, List.mem_append_left [r] hs, rfl, rfl, rfl⟩
  · intro hDeclared s hs
    rcases List.mem_append.mp hs with hOld | hNew
    · exact hDeclared s hOld
    · rw [List.mem_singleton.mp hNew]
      exact hExplicit

/- Declaring a relation once more keeps its ends and kind. -/
theorem repeatDeclared_extends
    (m : Model)
    (id : Nat)
    (occurrence : Option Nat) :
    Extends given m
      { m with
        relations :=
          m.relations.modify id
            (repeatRelation · .explicit occurrence) } := by
  have hSame : Extends given m m := Extends.refl m
  have hMember : ∀ i : Nat, ∀ r, m.relations[i]? = some r →
      ∃ s ∈ m.relations.modify id
          (repeatRelation · .explicit occurrence),
        s.source = r.source ∧ s.target = r.target ∧
          s.kind = r.kind := by
    intro i r hr
    by_cases hHere : id = i
    · refine ⟨repeatRelation r .explicit occurrence, ?_,
        rfl, rfl, rfl⟩
      apply List.mem_of_getElem? (i := i)
      simp [hHere, hr]
    · refine ⟨r, ?_, rfl, rfl, rfl⟩
      apply List.mem_of_getElem? (i := i)
      simp [hHere, hr]
  refine { hSame with relations := ?_, declared := ?_ }
  · intro r hr
    rcases List.mem_iff_getElem?.mp hr with ⟨i, hi⟩
    exact hMember i r hi
  · intro hDeclared r hr
    rcases List.mem_iff_getElem?.mp hr with ⟨i, hi⟩
    rw [List.getElem?_modify] at hi
    rcases Option.map_eq_some_iff.mp hi with ⟨s, hs, hChange⟩
    have hOld := hDeclared s (List.mem_of_getElem? hs)
    by_cases hHere : id = i
    · rw [if_pos hHere] at hChange
      rw [← hChange]
      rfl
    · rw [if_neg hHere] at hChange
      rw [← hChange]
      exact hOld

------------------------------------------------------------
-- Statements
------------------------------------------------------------

/-
  Adding a statement to its class keeps all elements, the
  class itself among them.
-/
theorem addStatement_extends_class
    (m : Model)
    (s : Statement) :
    Extends given (m.ensureClass s.title s.sectionId)
      (m.addStatement s) := by
  have hRole : ∀ (c : EquivalenceClass) role,
      (c.noteRole role).title = c.title ∧
        (c.noteRole role).equivalentTo = c.equivalentTo := by
    intro c role
    cases role <;> exact ⟨rfl, rfl⟩
  have hMember :=
    @modifyClass_extends given
      (m.ensureClass s.title s.sectionId) s.title
      (fun c =>
        { c.noteRole s.role with
          members := c.members ++ [m.nextStatement]
          tags := Sequence.addAllNew c.tags s.tags
          data := Record.addMissing c.data s.data })
      (fun c => (hRole c s.role).1)
      (fun c => by
        rw [(hRole c s.role).2]
        exact List.Subset.refl _)
  exact
    (hMember.trans (recordTags_extends _ s.tags)).trans
      (appendStatement_extends _ _)

/- Adding a statement keeps all elements. -/
theorem addStatement_extends (m : Model) (s : Statement) :
    Extends given m (m.addStatement s) :=
  (ensureClass_extends m s.title s.sectionId).trans
    (addStatement_extends_class m s)

/- The class of a statement is there after it. -/
theorem addStatement_contains (m : Model) (s : Statement) :
    (m.addStatement s).contains (.statement s.title) =
      true :=
  (addStatement_extends_class m s : Extends [] _ _).contains
    (ensureClass_contains m s.title s.sectionId)

/- A statement that is added is the next one. -/
theorem addStatement_statements (m : Model) (s : Statement) :
    (m.addStatement s).statements =
      m.statements ++ [{ s with id := m.nextStatement }] := by
  have hClass :
      (m.ensureClass s.title s.sectionId).statements =
        m.statements := by
    unfold ensureClass
    cases m.classIndex? s.title <;> rfl
  rw [← hClass]
  unfold addStatement modifyClass
  simp only
  split <;> rfl

------------------------------------------------------------
-- Relations
------------------------------------------------------------

/- Noting a relation at an end keeps all elements. -/
theorem linkEnd_extends
    (m : Model)
    (element : Element)
    (id : Nat) :
    Extends given m (m.linkEnd element id) := by
  unfold linkEnd
  cases element with
  | statement title =>
      exact modifyClass_extends m title
        (fun _ => List.Subset.refl _)
  | argument title =>
      exact modifyArgument_extends m title
        (fun _ _ => rfl)

/- Noting a relation at a statement keeps all elements. -/
theorem linkOccurrence_extends
    (m : Model)
    (occurrence : Option Nat)
    (id : Nat) :
    Extends given m (m.linkOccurrence occurrence id) := by
  cases occurrence with
  | none => exact Extends.refl m
  | some o => exact modifyStatement_extends m o (fun _ => rfl)

/- Declaring a relation keeps all elements. -/
theorem addRelation_extends
    (m : Model)
    (source target : Element)
    (kind : RelationKind)
    (occurrence : Option Nat) :
    Extends given m
      (m.addRelation source target kind .explicit
        occurrence).1 := by
  unfold addRelation
  cases m.findRelation? source target kind with
  | some id =>
      exact
        (repeatDeclared_extends m id occurrence).trans
          (linkOccurrence_extends _ occurrence id)
  | none =>
      have hEnds :=
        (@linkEnd_extends given m source
          m.relations.length).trans
            (linkEnd_extends _ target m.relations.length)
      exact
        (hEnds.trans (appendDeclared_extends _ rfl)).trans
          (linkOccurrence_extends _ occurrence _)

/- Some relation of a kind connects two elements. -/
def Connects
    (m : Model)
    (source target : Element)
    (kind : RelationKind) : Prop :=
  ∃ r ∈ m.relations, r.connects source target kind = true

/- Connected elements stay connected. -/
theorem Extends.connects
    {m n : Model}
    (hExtends : Extends given m n)
    {source target : Element}
    {kind : RelationKind}
    (hConnects : m.Connects source target kind) :
    n.Connects source target kind := by
  rcases hConnects with ⟨r, hr, hEnds⟩
  rcases hExtends.relations r hr with
    ⟨s, hs, hSource, hTarget, hKind⟩
  refine ⟨s, hs, ?_⟩
  rw [← hEnds]
  simp only [Relation.connects, hSource, hTarget, hKind]

/- A relation that has been declared connects its ends. -/
theorem addRelation_connects
    (m : Model)
    (source target : Element)
    (kind : RelationKind)
    (occurrence : Option Nat) :
    (m.addRelation source target kind .explicit
      occurrence).1.Connects source target kind := by
  cases hFound : m.findRelation? source target kind with
  | some id =>
      rcases Option.map_eq_some_iff.mp hFound with ⟨r, hr, _⟩
      have hEnds : r.connects source target kind = true := by
        simpa using List.find?_some hr
      have hBefore : m.Connects source target kind :=
        ⟨r, List.mem_of_find?_eq_some hr, hEnds⟩
      have hExtends :=
        @addRelation_extends [] m source target kind
          occurrence
      exact hExtends.connects hBefore
  | none =>
      have hAdded :
          (m.appendRelation source target kind .explicit
            occurrence).Connects source target kind := by
        refine ⟨_, List.mem_append_right _
          (List.mem_singleton_self _), ?_⟩
        simp [Relation.connects]
      have hExtends :=
        @linkOccurrence_extends []
          (m.appendRelation source target kind .explicit
            occurrence)
          occurrence m.relations.length
      rw [addRelation, hFound]
      exact hExtends.connects hAdded

------------------------------------------------------------
-- Equivalence
------------------------------------------------------------

/- Noting an equivalence keeps those that there are. -/
theorem linkEquivalent_extends
    (m : Model)
    (title other : String) :
    Extends given m (m.linkEquivalent title other) :=
  modifyClass_extends m title
    (fun _ _ hMem => Sequence.mem_addNew.mpr (Or.inl hMem))

/- Declaring an equivalence keeps all elements. -/
theorem declareEquivalence_extends
    (m : Model)
    (first second : String) :
    Extends given m (m.declareEquivalence first second) := by
  unfold declareEquivalence
  split
  · exact Extends.refl m
  · exact
      (linkEquivalent_extends m first second).trans
        (linkEquivalent_extends _ second first)

/- The class of a title knows one declared equal to it. -/
theorem linkEquivalent_known
    {m : Model}
    {title : String}
    (hTitle : m.contains (.statement title) = true)
    (other : String) :
    ∃ c, (m.linkEquivalent title other).class? title = some c ∧
      other ∈ c.equivalentTo := by
  rw [Model.contains, ← class?_isSome] at hTitle
  rcases Option.isSome_iff_exists.mp hTitle with ⟨c, hc⟩
  unfold linkEquivalent
  rw [class?_modifyClass, if_pos rfl, hc]
  exact ⟨_, rfl, Sequence.mem_addNew.mpr (Or.inr rfl)⟩

/- Two classes are declared equivalent. -/
def Equates (m : Model) (first second : String) : Prop :=
  (∃ c, m.class? first = some c ∧ second ∈ c.equivalentTo) ∧
    ∃ d, m.class? second = some d ∧ first ∈ d.equivalentTo

/- Declared equivalences stay. -/
theorem Extends.equates
    {m n : Model}
    (hExtends : Extends given m n)
    {first second : String}
    (hEquates : m.Equates first second) :
    n.Equates first second := by
  rcases hEquates with ⟨⟨c, hc, hSecond⟩, d, hd, hFirst⟩
  rcases hExtends.classes first c hc with ⟨c', hc', hKept⟩
  rcases hExtends.classes second d hd with ⟨d', hd', hKept'⟩
  exact ⟨⟨c', hc', hKept hSecond⟩, d', hd', hKept' hFirst⟩

/- Classes declared equivalent know of each other. -/
theorem declareEquivalence_equates
    {m : Model}
    {first second : String}
    (hFirst : m.contains (.statement first) = true)
    (hSecond : m.contains (.statement second) = true)
    (hApart : first ≠ second) :
    (m.declareEquivalence first second).Equates first
      second := by
  rw [declareEquivalence, if_neg hApart]
  have hThere := @linkEquivalent_extends [] m first second
  have hBack :=
    @linkEquivalent_extends []
      (m.linkEquivalent first second) second first
  rcases linkEquivalent_known hFirst second with
    ⟨c, hc, hMem⟩
  rcases hBack.classes first c hc with ⟨d, hd, hKept⟩
  exact
    ⟨⟨d, hd, hKept hMem⟩,
      linkEquivalent_known (hThere.contains hSecond) first⟩

------------------------------------------------------------
-- Numbers of Statements
------------------------------------------------------------

/- A statement that is added takes the next index. -/
theorem addStatement_next (m : Model) (s : Statement) :
    (m.addStatement s).nextStatement =
      m.nextStatement + 1 := by
  rw [nextStatement, addStatement_statements]
  exact List.length_append

/- Changing a class adds no statement. -/
@[simp]
theorem modifyClass_next
    (m : Model)
    (title : String)
    (f : EquivalenceClass → EquivalenceClass)
    {hTitle : ∀ c, (f c).title = c.title} :
    (m.modifyClass title f).nextStatement =
      m.nextStatement := by
  unfold modifyClass
  cases m.classIndex? title <;> rfl

/- Changing an argument adds no statement. -/
@[simp]
theorem modifyArgument_next
    (m : Model)
    (title : String)
    (f : Argument → Argument)
    {hTitle : ∀ a, (f a).title = a.title} :
    (m.modifyArgument title f).nextStatement =
      m.nextStatement := by
  unfold modifyArgument
  cases m.argumentIndex? title <;> rfl

/- Giving a title an argument adds no statement. -/
@[simp]
theorem ensureArgument_next (m : Model) (title : String) :
    (m.ensureArgument title).nextStatement =
      m.nextStatement := by
  unfold ensureArgument
  cases m.argumentIndex? title <;> rfl

/- Noting a relation at an end adds no statement. -/
@[simp]
theorem linkEnd_next
    (m : Model)
    (element : Element)
    (id : Nat) :
    (m.linkEnd element id).nextStatement =
      m.nextStatement := by
  cases element <;> simp [linkEnd]

/- Noting a relation at a statement adds no statement. -/
@[simp]
theorem linkOccurrence_next
    (m : Model)
    (occurrence : Option Nat)
    (id : Nat) :
    (m.linkOccurrence occurrence id).nextStatement =
      m.nextStatement := by
  cases occurrence with
  | none => rfl
  | some o =>
      exact List.length_modify _ _ _

/- Adding a relation adds no statement. -/
@[simp]
theorem addRelation_next
    (m : Model)
    (source target : Element)
    (kind : RelationKind)
    (origin : Origin)
    (occurrence : Option Nat) :
    (m.addRelation source target kind origin
      occurrence).1.nextStatement = m.nextStatement := by
  unfold addRelation
  cases m.findRelation? source target kind with
  | some id => exact linkOccurrence_next _ _ _
  | none =>
      simp only [linkOccurrence_next]
      exact (linkEnd_next _ _ _).trans (linkEnd_next _ _ _)

/- Declaring an equivalence adds no statement. -/
@[simp]
theorem declareEquivalence_next
    (m : Model)
    (first second : String) :
    (m.declareEquivalence first second).nextStatement =
      m.nextStatement := by
  unfold declareEquivalence
  split <;> simp [linkEquivalent]

end Model

end Dialectic
