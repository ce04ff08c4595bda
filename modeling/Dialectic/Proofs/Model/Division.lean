import Dialectic.Proofs.Data.Numbering
import Dialectic.Proofs.Data.Record
import Dialectic.Proofs.Model.Inferences
import Dialectic.Proofs.Model.Integrity
import Mathlib.Data.List.Perm.Subperm

/-
  An argument is divided into parts, one for each inference.
  The parts get titles that no argument has, except the last
  one, which keeps the title; each part supports the next one,
  and all other arguments and all relations stay as they are.

  Key definitions include:
    * `Argument.alone`
    * `Model.Supports`
    * `Model.withPart`
    * `Explosion.Added`
    * `Explosion.Divides`
    * `Explosion.Dividing`

  Main theorems:
    * `Explosion.freeNumber_spec`
    * `Explosion.freeNumber_free`
    * `Explosion.addPart_added`
    * `Explosion.Added.divides_cons`
    * `Explosion.Dividing.divides`
    * `Explosion.split_divides`
-/

namespace Dialectic

/- An argument without the relations that touch it. -/
def Argument.alone (a : Argument) : Argument :=
  { a with relations := [] }

namespace Model

variable {m n : Model}

/- An argument supports another one in the document. -/
def Supports (m : Model) (first second : String) : Prop :=
  ∃ r ∈ m.relations, r.source = .argument first ∧
    r.target = .argument second ∧ r.kind = .support ∧
      r.isExplicit = true

/- What supports another argument goes on doing so. -/
theorem Supports.mono
    {first second : String}
    (hSupports : m.Supports first second)
    (hMore : m.relations ⊆ n.relations) :
    n.Supports first second := by
  rcases hSupports with ⟨r, hr, hEnds⟩
  exact ⟨r, hMore hr, hEnds⟩

/- Noting a relation at its end leaves the arguments alone. -/
theorem linkEnd_alone
    (m : Model)
    (element : Element)
    (id : Nat)
    (title : String) :
    ((m.linkEnd element id).argument? title).map
        Argument.alone =
      (m.argument? title).map Argument.alone := by
  cases element with
  | statement other =>
      rw [linkEnd, argument?_modifyClass]
  | argument other =>
      rw [linkEnd, argument?_modifyArgument]
      split
      · cases m.argument? title <;> rfl
      · rfl

/- It leaves all other arguments as they are. -/
theorem linkEnd_argument?
    (m : Model)
    {element : Element}
    {title : String}
    (hApart : element ≠ .argument title)
    (id : Nat) :
    (m.linkEnd element id).argument? title =
      m.argument? title := by
  cases element with
  | statement other =>
      rw [linkEnd, argument?_modifyClass]
  | argument other =>
      have hOther : title ≠ other :=
        fun hSame => hApart (congrArg Element.argument hSame.symm)
      rw [linkEnd, argument?_modifyArgument, if_neg hOther]

/- An argument that is left alone keeps its steps and data. -/
theorem argument?_of_alone
    {title : String}
    (hSame :
      (n.argument? title).map Argument.alone =
        (m.argument? title).map Argument.alone)
    {a : Argument}
    (ha : m.argument? title = some a) :
    ∃ b, n.argument? title = some b ∧
      b.steps = a.steps ∧ b.data = a.data := by
  rw [ha, Option.map_some] at hSame
  rcases Option.map_eq_some_iff.mp hSame with ⟨b, hb, hAlone⟩
  have hSteps : b.alone.steps = a.alone.steps :=
    congrArg Argument.steps hAlone
  have hData : b.alone.data = a.alone.data :=
    congrArg Argument.data hAlone
  exact ⟨b, hb, hSteps, hData⟩

/- Arguments that are left alone have the same steps. -/
theorem stepsOf_of_alone
    {title : String}
    (hSame :
      (n.argument? title).map Argument.alone =
        (m.argument? title).map Argument.alone) :
    n.stepsOf title = m.stepsOf title := by
  unfold stepsOf
  cases hOld : m.argument? title <;>
    cases hNew : n.argument? title <;>
      simp_all [Argument.alone]

end Model

namespace Explosion

variable {m n : Model} {title : String}

------------------------------------------------------------
-- Free Titles
------------------------------------------------------------

/- Parts of different numbers have different titles. -/
theorem partTitle_inj
    {i j : Nat}
    (hSame : partTitle title i = partTitle title j) :
    i = j :=
  toString_inj
    ((String.append_right_inj _).mp
      ((String.append_left_inj _).mp hSame))

/- The title of a part is not that of its argument. -/
theorem partTitle_ne (title : String) (number : Nat) :
    partTitle title number ≠ title := by
  intro hSame
  have hLength := congrArg String.length hSame
  simp only [partTitle, String.length_append] at hLength
  have hOpen : " (".length = 2 := rfl
  omega

/-
  The search for a free title passes over titles that are
  taken, and goes on as long as there is fuel.
-/
theorem freeNumber_spec
    (m : Model)
    (title : String)
    (fuel number : Nat) :
    number ≤ freeNumber m title fuel number ∧
      (∀ j, number ≤ j → j < freeNumber m title fuel number →
        m.argument? (partTitle title j) ≠ none) ∧
      (m.argument?
          (partTitle title (freeNumber m title fuel number)) =
            none ∨
        freeNumber m title fuel number = number + fuel) := by
  induction fuel generalizing number with
  | zero =>
      refine ⟨Nat.le_refl _, fun j hFrom hTo => ?_, Or.inr rfl⟩
      exact absurd hTo (Nat.not_lt.mpr hFrom)
  | succ fuel ih =>
      unfold freeNumber
      by_cases hFree :
          (m.argument? (partTitle title number)).isNone = true
      · rw [if_pos hFree]
        refine
          ⟨Nat.le_refl _, fun j hFrom hTo => ?_,
            Or.inl (Option.isNone_iff_eq_none.mp hFree)⟩
        exact absurd hTo (Nat.not_lt.mpr hFrom)
      · rw [if_neg hFree]
        rcases ih (number + 1) with ⟨hFrom, hTaken, hEnd⟩
        refine
          ⟨Nat.le_of_succ_le hFrom, fun j hLow hHigh => ?_, ?_⟩
        · rcases Nat.eq_or_lt_of_le hLow with rfl | hLater
          · exact fun hNone =>
              hFree (Option.isNone_iff_eq_none.mpr hNone)
          · exact hTaken j hLater hHigh
        · exact hEnd.imp_right (fun hFuel => by omega)

/-
  The title that is found is free: there are fewer arguments
  than numbers that the search goes through.
-/
theorem freeNumber_free
    (m : Model)
    (title : String)
    (number : Nat) :
    m.argument?
        (partTitle title
          (freeNumber m title m.arguments.length number)) =
      none := by
  rcases freeNumber_spec m title m.arguments.length number with
    ⟨_, hTaken, hFree | hEnd⟩
  · exact hFree
  · by_contra hSome
    have hAll :
        (List.range' number (m.arguments.length + 1)).map
            (partTitle title) ⊆ m.argumentTitles := by
      intro other hOther
      rcases List.mem_map.mp hOther with ⟨j, hj, rfl⟩
      rw [List.mem_range'_1] at hj
      have hThere : m.argument? (partTitle title j) ≠ none := by
        rcases Nat.lt_or_ge j
            (freeNumber m title m.arguments.length number) with
          hBefore | hLast
        · exact hTaken j hj.1 hBefore
        · have hHere :
              j =
                freeNumber m title m.arguments.length number := by
            omega
          rw [hHere]
          exact hSome
      rw [← Model.contains_argument_iff, Model.contains,
        ← Model.argument?_isSome]
      exact Option.isSome_iff_ne_none.mpr hThere
    have hUnique :
        ((List.range' number (m.arguments.length + 1)).map
          (partTitle title)).Nodup :=
      (List.nodup_range').map
        (fun _ _ hSame => partTitle_inj hSame)
    have hLength := (hUnique.subperm hAll).length_le
    simp only [List.length_map, List.length_range',
      Model.argumentTitles] at hLength
    omega

------------------------------------------------------------
-- Parts
------------------------------------------------------------

/- Marking premises leaves the arguments. -/
theorem markPremises_arguments (m : Model) (steps : List Step) :
    (markPremises m steps).arguments = m.arguments := by
  apply Model.foldl_kept Model.arguments
  exact fun _ _ => Model.modifyClass_arguments _ _ _

/- Marking premises leaves the relations. -/
theorem markPremises_relations (m : Model) (steps : List Step) :
    (markPremises m steps).relations = m.relations := by
  apply Model.foldl_kept Model.relations
  exact fun _ _ => Model.modifyClass_relations _ _ _

/- Marking premises leaves the statements. -/
theorem markPremises_statements (m : Model) (steps : List Step) :
    (markPremises m steps).statements = m.statements := by
  apply Model.foldl_kept Model.statements
  exact fun _ _ => Model.modifyClass_statements _ _ _

/- Linking a part leaves the statements. -/
theorem link_statements
    (m : Model)
    (previous : Option String)
    (current : String) :
    (link m previous current).statements = m.statements := by
  cases previous with
  | none => rfl
  | some first =>
      unfold link Model.addRelation
      simp only
      split
      · rfl
      · simp [Model.appendRelation, Model.linkOccurrence]

/- Linking a part leaves the arguments alone. -/
theorem link_alone
    (m : Model)
    (previous : Option String)
    (current title : String) :
    ((link m previous current).argument? title).map
        Argument.alone =
      (m.argument? title).map Argument.alone := by
  cases previous with
  | none => rfl
  | some first =>
      unfold link Model.addRelation
      simp only
      split
      · rfl
      · exact
          (Model.linkEnd_alone _ _ _ _).trans
            (Model.linkEnd_alone _ _ _ _)

/- Linking a part leaves the arguments that are not linked. -/
theorem link_argument?
    (m : Model)
    {previous : Option String}
    {current title : String}
    (hCurrent : title ≠ current)
    (hPrevious : previous ≠ some title) :
    (link m previous current).argument? title =
      m.argument? title := by
  cases previous with
  | none => rfl
  | some first =>
      have hSource :
          Element.argument first ≠ Element.argument title :=
        fun hSame =>
          hPrevious (congrArg some (Element.argument.inj hSame))
      have hTarget :
          Element.argument current ≠ Element.argument title :=
        fun hSame => hCurrent (Element.argument.inj hSame).symm
      unfold link Model.addRelation
      simp only
      split
      · rfl
      · exact
          (Model.linkEnd_argument? _ hTarget _).trans
            (Model.linkEnd_argument? _ hSource _)

/- Linking a part adds no argument. -/
theorem link_titles
    (m : Model)
    (previous : Option String)
    (current : String) :
    (link m previous current).argumentTitles =
      m.argumentTitles := by
  cases previous with
  | none => rfl
  | some first =>
      unfold link Model.addRelation
      simp only
      split
      · rfl
      · exact (Model.appendRelation_titles m _ _ _ _ _).2

/- An argument that supports nothing is linked to the next. -/
theorem link_relations
    (m : Model)
    {previous : Option String}
    (hFirst : ∀ first, previous = some first →
      ∀ r ∈ m.relations, r.source ≠ .argument first)
    (current : String) :
    (link m previous current).relations =
      m.relations
        ++ previous.toList.map
          (fun first =>
            ⟨m.relations.length, .argument first,
              .argument current, .support, .explicit, []⟩) := by
  cases previous with
  | none => exact (List.append_nil _).symm
  | some first =>
      have hNone :
          m.findRelation? (.argument first) (.argument current)
            .support = none := by
        unfold Model.findRelation?
        rw [Option.map_eq_none_iff, List.find?_eq_none]
        intro r hr
        have hSource := hFirst first rfl r hr
        simp [Relation.connects, RelationKind.isSymmetric,
          hSource]
      unfold link Model.addRelation
      simp only [hNone]
      exact Model.appendRelation_relations m _ _ _ _ none

/- Filling an argument gives it the steps. -/
theorem fill_steps
    (origin : Argument)
    (isPart : Bool)
    (steps : List Step)
    (a : Argument) :
    (fill origin isPart steps a).steps = steps := by
  cases isPart <;> rfl

/- An argument comes from splitting that of a title. -/
def ComesFrom (a : Argument) (title : String) : Prop :=
  Record.get? a.data "explodedFrom" = some (.text title)

section WithPart

variable (m : Model) (origin : Argument)
variable (current : String) (steps : List Step)

/- A part leaves the statements. -/
theorem withPart_statements :
    (withPart m origin current steps).statements =
      m.statements := by
  rw [withPart, Model.modifyArgument_statements,
    Model.ensureArgument_statements, markPremises_statements]

/- A part leaves the relations. -/
theorem withPart_relations :
    (withPart m origin current steps).relations =
      m.relations := by
  rw [withPart, Model.modifyArgument_relations,
    Model.ensureArgument_relations, markPremises_relations]

/- A part has its title. -/
theorem withPart_titles :
    (withPart m origin current steps).argumentTitles =
      Sequence.addNew m.argumentTitles current := by
  rw [withPart, Model.modifyArgument_titles,
    Model.ensureArgument_titles, Model.argumentTitles,
    markPremises_arguments]
  simp only [Sequence.addNew, List.contains_iff_mem]
  rfl

/- A part leaves the arguments of other titles. -/
theorem withPart_argument?
    {title : String}
    (hApart : title ≠ current) :
    (withPart m origin current steps).argument? title =
      m.argument? title := by
  rw [withPart, Model.argument?_modifyArgument, if_neg hApart,
    Model.argument?_ensureArgument,
    if_neg (fun hNew => hApart hNew.1),
    Model.argument?_congr (markPremises_arguments m steps)]

/- A part has its steps and says where it comes from. -/
theorem withPart_filled :
    ∃ a,
      (withPart m origin current steps).argument? current =
        some a ∧
      a.steps = steps ∧
      (current ≠ origin.title → ComesFrom a origin.title) := by
  have hThere :=
    Model.ensureArgument_contains (markPremises m steps) current
  rw [Model.contains, ← Model.argument?_isSome] at hThere
  rcases Option.isSome_iff_exists.mp hThere with ⟨a, ha⟩
  refine
    ⟨fill origin (current != origin.title) steps a, ?_,
      fill_steps origin _ steps a, fun hPart => ?_⟩
  · rw [withPart, Model.argument?_modifyArgument, if_pos rfl,
      ha, Option.map_some]
  · rw [bne_iff_ne.mpr hPart]
    exact Record.get?_insert_self _ _ _

end WithPart

variable {origin : Argument} {previous : Option String}
variable {current : String} {steps : List Step}

/-
  A part has been added: it has its steps and says where it
  comes from, the other arguments are left alone, and nothing
  but the relation to it is new.
-/
structure Added
    (origin : Argument)
    (previous : Option String)
    (current : String)
    (steps : List Step)
    (m n : Model) : Prop where
  statements : n.statements = m.statements
  titles :
    n.argumentTitles = Sequence.addNew m.argumentTitles current
  filled : ∃ a, n.argument? current = some a ∧
    a.steps = steps ∧
      (current ≠ origin.title → ComesFrom a origin.title)
  alone : ∀ title, title ≠ current →
    (n.argument? title).map Argument.alone =
      (m.argument? title).map Argument.alone
  others : ∀ title, title ≠ current → previous ≠ some title →
    n.argument? title = m.argument? title
  relations :
    (∀ first, previous = some first →
      ∀ r ∈ m.relations, r.source ≠ .argument first) →
    n.relations =
      m.relations
        ++ previous.toList.map
          (fun first =>
            ⟨m.relations.length, .argument first,
              .argument current, .support, .explicit, []⟩)

/- A part is added with its steps and a relation to it. -/
theorem addPart_added
    (m : Model)
    (origin : Argument)
    (previous : Option String)
    (current : String)
    (steps : List Step) :
    Added origin previous current steps m
      (m.addPart origin previous current steps) := by
  have hLink :
      m.addPart origin previous current steps =
        link (withPart m origin current steps) previous
          current :=
    rfl
  rw [hLink]
  constructor
  · rw [link_statements, withPart_statements]
  · rw [link_titles, withPart_titles]
  · rcases withPart_filled m origin current steps with
      ⟨a, ha, hSteps, hFrom⟩
    rcases Model.argument?_of_alone
        (link_alone _ previous current current) ha with
      ⟨b, hb, hSame, hData⟩
    refine ⟨b, hb, hSame.trans hSteps, fun hPart => ?_⟩
    rw [ComesFrom, hData]
    exact hFrom hPart
  · intro title hApart
    rw [link_alone, withPart_argument? _ _ _ _ hApart]
  · intro title hApart hPrevious
    rw [link_argument? _ hApart hPrevious,
      withPart_argument? _ _ _ _ hApart]
  · intro hFirst
    rw [← withPart_relations m origin current steps]
      at hFirst ⊢
    exact link_relations _ hFirst current

/- What a part that has been added adds to the relations. -/
theorem Added.relations_prefix
    (hAdded : Added origin previous current steps m n)
    (hFirst : ∀ first, previous = some first →
      ∀ r ∈ m.relations, r.source ≠ .argument first) :
    m.relations <+: n.relations :=
  ⟨_, (hAdded.relations hFirst).symm⟩

/- The previous part supports one that has been added. -/
theorem Added.supports
    {first : String}
    (hAdded : Added origin (some first) current steps m n)
    (hFirst : ∀ r ∈ m.relations, r.source ≠ .argument first) :
    n.Supports first current := by
  have hRelations :=
    hAdded.relations (fun other hSame r hr => by
      cases hSame
      exact hFirst r hr)
  refine
    ⟨⟨m.relations.length, .argument first, .argument current,
      .support, .explicit, []⟩, ?_, rfl, rfl, rfl, rfl⟩
  rw [hRelations]
  exact List.mem_append_right _ (List.mem_singleton_self _)

/- The steps of a part that has been added. -/
theorem Added.stepsOf
    (hAdded : Added origin previous current steps m n) :
    n.stepsOf current = steps := by
  rcases hAdded.filled with ⟨a, ha, hSteps, _⟩
  rw [Model.stepsOf, ha]
  exact hSteps

------------------------------------------------------------
-- All Parts of an Argument
------------------------------------------------------------

/-
  An argument has been divided into parts: the last one keeps
  its title, and each other one has got a title, in order, that
  no argument has.
-/
structure Divides
    (origin : Argument)
    (previous : Option String)
    (parts : List (List Step))
    (fresh : List String)
    (m n : Model) : Prop where
  statements : n.statements = m.statements
  titles : n.argumentTitles = m.argumentTitles ++ fresh
  steps : (fresh ++ [origin.title]).map n.stepsOf = parts
  origins : ∀ title ∈ fresh, ∃ a,
    n.argument? title = some a ∧ ComesFrom a origin.title
  alone : ∀ title, title ∉ fresh → title ≠ origin.title →
    (n.argument? title).map Argument.alone =
      (m.argument? title).map Argument.alone
  others : ∀ title, title ∉ fresh → title ≠ origin.title →
    previous ≠ some title →
      n.argument? title = m.argument? title
  relations : m.relations <+: n.relations
  supports :
    (previous.toList ++ fresh ++ [origin.title]).IsChain
      n.Supports

/- The last part keeps the title of its argument. -/
theorem Added.divides
    (hAdded : Added origin previous origin.title steps m n)
    (hThere : origin.title ∈ m.argumentTitles)
    (hPrevious : ∀ first, previous = some first →
      ∀ r ∈ m.relations, r.source ≠ .argument first) :
    Divides origin previous [steps] [] m n where
  statements := hAdded.statements
  titles := by
    rw [hAdded.titles, Sequence.addNew_of_mem hThere,
      List.append_nil]
  steps := congrArg (fun steps => [steps]) hAdded.stepsOf
  origins := fun _ hNone => absurd hNone List.not_mem_nil
  alone := fun title _ => hAdded.alone title
  others := fun title _ => hAdded.others title
  relations := hAdded.relations_prefix hPrevious
  supports := by
    cases previous with
    | none => exact .singleton _
    | some first =>
        exact
          .cons_cons (hAdded.supports (hPrevious first rfl))
            (.singleton _)

/- A part before other ones gets a title of its own. -/
theorem Added.divides_cons
    {k : Model}
    {parts : List (List Step)}
    {fresh : List String}
    (hAdded : Added origin previous current steps m k)
    (hRest : Divides origin (some current) parts fresh k n)
    (hNew : current ∉ m.argumentTitles)
    (hUnique : n.argumentTitles.Nodup)
    (hPart : current ≠ origin.title)
    (hPrevious : ∀ first, previous = some first →
      first ∈ m.argumentTitles ∧
        ∀ r ∈ m.relations, r.source ≠ .argument first) :
    Divides origin previous (steps :: parts) (current :: fresh)
      m n := by
  have hTitles :
      n.argumentTitles = m.argumentTitles ++ current :: fresh := by
    rw [hRest.titles, hAdded.titles,
      Sequence.addNew_of_not_mem hNew, List.append_assoc,
      List.singleton_append]
  have hApart : current ∉ fresh := by
    rw [hTitles, List.nodup_append] at hUnique
    exact (List.nodup_cons.mp hUnique.2.1).1
  have hSources : ∀ first, previous = some first →
      ∀ r ∈ m.relations, r.source ≠ .argument first :=
    fun first hSame => (hPrevious first hSame).2
  -- only the relation to the next part touches this one later
  have hAlone := hRest.alone current hApart hPart
  constructor
  · exact hRest.statements.trans hAdded.statements
  · exact hTitles
  · rw [List.cons_append, List.map_cons, hRest.steps,
      Model.stepsOf_of_alone hAlone, hAdded.stepsOf]
  · intro title hTitle
    rcases List.mem_cons.mp hTitle with rfl | hLater
    · rcases hAdded.filled with ⟨a, ha, _, hFrom⟩
      rcases Model.argument?_of_alone hAlone ha with
        ⟨b, hb, _, hData⟩
      refine ⟨b, hb, ?_⟩
      rw [ComesFrom, hData]
      exact hFrom hPart
    · exact hRest.origins title hLater
  · intro title hTitle hOrigin
    rw [List.mem_cons, not_or] at hTitle
    exact
      (hRest.alone title hTitle.2 hOrigin).trans
        (hAdded.alone title hTitle.1)
  · intro title hTitle hOrigin hFirst
    rw [List.mem_cons, not_or] at hTitle
    exact
      (hRest.others title hTitle.2 hOrigin
        (fun hSame => hTitle.1 (Option.some.inj hSame).symm)).trans
        (hAdded.others title hTitle.1 hFirst)
  · exact
      (hAdded.relations_prefix hSources).trans hRest.relations
  · cases previous with
    | none => exact hRest.supports
    | some first =>
        exact
          .cons_cons
            ((hAdded.supports (hSources first rfl)).mono
              hRest.relations.subset)
            hRest.supports

/- A part with a new title supports no argument yet. -/
theorem Added.sources
    (hAdded : Added origin previous current steps m n)
    (hLinked : m.Linked)
    (hNew : current ∉ m.argumentTitles)
    (hPrevious : ∀ first, previous = some first →
      first ∈ m.argumentTitles ∧
        ∀ r ∈ m.relations, r.source ≠ .argument first) :
    ∀ r ∈ n.relations, r.source ≠ .argument current := by
  intro r hr hSource
  rw [hAdded.relations
    (fun first hSame => (hPrevious first hSame).2),
    List.mem_append] at hr
  rcases hr with hOld | hLink
  · have hEnd := (hLinked.ends r hOld).1
    rw [hSource] at hEnd
    exact hNew (Model.contains_argument_iff.mp hEnd)
  · rcases List.mem_map.mp hLink with ⟨first, hFirst, rfl⟩
    have hKnown :=
      (hPrevious first (Option.mem_toList.mp hFirst)).1
    exact hNew (Element.argument.inj hSource ▸ hKnown)

/-
  What is there when the parts of an argument are added: its
  section and title, the classes of all steps, and the previous
  part, which supports nothing yet.
-/
structure Dividing
    (origin : Argument)
    (previous : Option String)
    (parts : List (List Step))
    (m : Model) : Prop where
  coherent : m.Coherent
  located : m.Locates origin.sectionId
  there : origin.title ∈ m.argumentTitles
  steps : ∀ part ∈ parts, ∀ s ∈ part,
    m.contains (.statement s.title) = true
  previous : ∀ first, previous = some first →
    first ∈ m.argumentTitles ∧
      ∀ r ∈ m.relations, r.source ≠ .argument first

/- The title that is found for a part is that of no argument. -/
theorem freeTitle_not_mem
    (m : Model)
    (title : String)
    (number : Nat) :
    partTitle title
        (freeNumber m title m.arguments.length number) ∉
      m.argumentTitles := by
  intro hTaken
  rw [← Model.contains_argument_iff, Model.contains,
    ← Model.argument?_isSome,
    freeNumber_free m title number] at hTaken
  cases hTaken

/- A part that is added is the previous one of the next part. -/
theorem Dividing.next
    {parts : List (List Step)}
    (hDividing : Dividing origin previous (steps :: parts) m)
    (hNew : current ∉ m.argumentTitles) :
    Dividing origin (some current) parts
      (m.addPart origin previous current steps) := by
  have hAdded := addPart_added m origin previous current steps
  have hNext :=
    hDividing.coherent.addPart hDividing.located
      (fun first hSame =>
        Model.contains_argument_iff.mpr
          (hDividing.previous first hSame).1)
      (hDividing.steps steps List.mem_cons_self) current
  constructor
  · exact hNext.1.coherent
  · exact hDividing.located.mono hNext.1.sections
  · rw [hAdded.titles]
    exact Sequence.mem_addNew.mpr (Or.inl hDividing.there)
  · intro part hPart s hs
    exact
      hNext.1.contains _
        (hDividing.steps part (List.mem_cons_of_mem steps hPart)
          s hs)
  · intro first hSame
    rw [← Option.some.inj hSame]
    exact
      ⟨Model.contains_argument_iff.mp hNext.2,
        hAdded.sources hDividing.coherent.linked hNew
          hDividing.previous⟩

/- Parts before the last one get titles of their own. -/
theorem addParts_cons
    {parts : List (List Step)}
    (hMore : parts ≠ [])
    (m : Model)
    (origin : Argument)
    (previous : Option String)
    (number : Nat)
    (steps : List Step) :
    let free :=
      freeNumber m origin.title m.arguments.length number
    let current := partTitle origin.title free
    addParts origin previous number m (steps :: parts) =
      addParts origin (some current) (free + 1)
        (m.addPart origin previous current steps) parts := by
  have hSome : parts.isEmpty = false := by simpa using hMore
  intro free current
  rw [addParts]
  simp only [hSome, Bool.false_eq_true, if_false]
  rfl

/- Adding the parts of an argument divides it. -/
theorem Dividing.divides
    {parts : List (List Step)}
    (hSome : parts ≠ [])
    (hDividing : Dividing origin previous parts m)
    (number : Nat) :
    ∃ fresh,
      Divides origin previous parts fresh m
        (addParts origin previous number m parts) := by
  induction parts generalizing previous number m with
  | nil => exact absurd rfl hSome
  | cons steps parts ih =>
      by_cases hMore : parts = []
      · -- the last part keeps the title
        subst hMore
        exact
          ⟨[],
            (addPart_added m origin previous origin.title
              steps).divides hDividing.there
              (fun first hSame =>
                (hDividing.previous first hSame).2)⟩
      · -- any other one gets a free title, which stays its own
        let free :=
          freeNumber m origin.title m.arguments.length number
        let current := partTitle origin.title free
        have hNew : current ∉ m.argumentTitles :=
          freeTitle_not_mem m origin.title number
        have hNext := hDividing.next hNew
        rcases ih hMore hNext (free + 1) with ⟨fresh, hRest⟩
        have hAll :=
          hNext.coherent.addParts hNext.located hNext.steps
            (fun first hSame =>
              Model.contains_argument_iff.mpr
                (hNext.previous first hSame).1)
            (free + 1)
        rw [addParts_cons hMore]
        exact
          ⟨current :: fresh,
            (addPart_added m origin previous current
              steps).divides_cons hRest hNew
                hAll.coherent.linked.argumentTitles
                (partTitle_ne _ _) hDividing.previous⟩

/- Splitting an argument divides it. -/
theorem split_divides
    {a : Argument}
    (hCoherent : m.Coherent)
    (hFound : m.argument? a.title = some a)
    (hSeveral : a.hasSeveralInferences = true) :
    ∃ fresh,
      Divides a none (inferences a.steps) fresh m
        (split m a.title) := by
  have hMem :=
    ((hCoherent.linked.argument?_iff a.title a).mp hFound).1
  have hPlaced := hCoherent.placed
  have hParts :=
    Model.inferencesAfter_titles
      (fun s hs => absurd hs List.not_mem_nil)
      (hPlaced.steps a hMem)
  rcases List.any_eq_true.mp hSeveral with
    ⟨conclusion, hStep, hRole⟩
  have hSome : inferences a.steps ≠ [] := by
    refine inferences_ne_nil hStep ?_
    rw [eq_of_beq hRole]
    exact StepRole.noConfusion
  have hDividing : Dividing a none (inferences a.steps) m :=
    ⟨hCoherent, hPlaced.arguments a hMem,
      List.mem_map_of_mem hMem,
      fun part hPart s hs =>
        Model.contains_statement_iff.mpr
          (hParts part hPart s hs),
      fun _ hNone => by cases hNone⟩
  rw [split, hFound]
  exact hDividing.divides hSome 1

end Explosion

end Dialectic
