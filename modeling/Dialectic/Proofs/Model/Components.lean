import Dialectic.Proofs.Model.Representatives

/-
  The representative of a class is the first class of its
  component: those that listed equivalences connect it with.
  This holds for every model whose titles differ, and adding
  statements and declaring equivalences, in whichever order,
  keeps the titles different.

  Key definitions include:
    * `Addition`
    * `Addition.Declares`
    * `Model.addAll`
    * `Model.Represented`

  Main theorems:
    * `Model.add_titles`
    * `Model.mem_listedEquivalents_add`
    * `Model.represented`
    * `Model.addAll_represented`
-/

namespace Dialectic

/- What is added to a model: a statement or an equivalence. -/
inductive Addition where
| statement (s : Statement)
| equivalence (first second : String)

/-
  An addition lists a class of a model as equivalent to another
  one.  The class that lists it has to be there.
-/
def Addition.Declares
    (addition : Addition)
    (m : Model)
    (first second : String) : Prop :=
  (addition = .equivalence first second ∨
      addition = .equivalence second first) ∧
    first ≠ second ∧
    m.contains (.statement first) = true

namespace Model

variable {m : Model}

------------------------------------------------------------
-- Additions
------------------------------------------------------------

/- Add a statement, or declare an equivalence. -/
def add (m : Model) : Addition → Model
| .statement s => m.addStatement s
| .equivalence first second => m.declareEquivalence first second

/- Add several statements and equivalences, in order. -/
def addAll (m : Model) (additions : List Addition) : Model :=
  additions.foldl add m

/- Noting an equivalence leaves the titles. -/
theorem linkEquivalent_titles
    (m : Model)
    (title other : String) :
    (m.linkEquivalent title other).classTitles =
      m.classTitles :=
  modifyClass_titles m title

/- No addition gives two classes the same title. -/
theorem add_titles
    (hTitles : m.classTitles.Nodup)
    (addition : Addition) :
    (m.add addition).classTitles.Nodup := by
  cases addition with
  | statement s =>
      rw [add, (addStatement_titles m s).1, ensureClass_titles]
      exact nodup_ensured hTitles s.title
  | equivalence first second =>
      rw [add, declareEquivalence]
      split
      · exact hTitles
      · rw [linkEquivalent_titles, linkEquivalent_titles]
        exact hTitles

/- A class that is not there lists nothing. -/
theorem mem_listedEquivalents_linkEquivalent
    {changed added first second : String} :
    second ∈
        (m.linkEquivalent changed added).listedEquivalents
          first ↔
      second ∈ m.listedEquivalents first ∨
        ((first = changed ∧ second = added) ∧
          m.contains (.statement changed) = true) := by
  by_cases hThere : m.contains (.statement changed) = true
  · rw [mem_listedEquivalents_link hThere]
    simp only [hThere, and_true]
  · have hNone : m.classIndex? changed = none := by
      simpa [contains] using hThere
    have hSame : m.linkEquivalent changed added = m := by
      simp only [linkEquivalent, modifyClass, hNone]
    rw [hSame]
    simp only [hThere, Bool.false_eq_true, and_false, or_false]

/- Which equivalences are listed after an addition. -/
theorem mem_listedEquivalents_add
    (addition : Addition)
    {first second : String} :
    second ∈ (m.add addition).listedEquivalents first ↔
      second ∈ m.listedEquivalents first ∨
        addition.Declares m first second := by
  cases addition with
  | statement s =>
      rw [add, listedEquivalents_addStatement]
      simp [Addition.Declares]
  | equivalence one other =>
      rw [add, declareEquivalence]
      split
      · next hSame =>
          have hNothing :
              ¬ (Addition.equivalence one other).Declares m first
                second := by
            rintro ⟨hEq | hEq, hApart, _⟩
            · cases hEq
              exact hApart hSame
            · cases hEq
              exact hApart hSame.symm
          simp only [hNothing, or_false]
      · next hApart =>
          have hKept :
              (m.linkEquivalent one other).contains
                  (.statement other) =
                m.contains (.statement other) := by
            rw [Bool.eq_iff_iff, contains_statement_iff,
              contains_statement_iff, linkEquivalent_titles]
          rw [mem_listedEquivalents_linkEquivalent,
            mem_listedEquivalents_linkEquivalent, hKept,
            or_assoc]
          refine or_congr Iff.rfl ?_
          constructor
          · rintro (⟨⟨rfl, rfl⟩, hThere⟩ | ⟨⟨rfl, rfl⟩, hThere⟩)
            · exact ⟨.inl rfl, hApart, hThere⟩
            · exact ⟨.inr rfl, Ne.symm hApart, hThere⟩
          · rintro ⟨hEq | hEq, _, hThere⟩
            · cases hEq
              exact .inl ⟨⟨rfl, rfl⟩, hThere⟩
            · cases hEq
              exact .inr ⟨⟨rfl, rfl⟩, hThere⟩

/- Which equivalences are listed after several additions. -/
theorem mem_listedEquivalents_addAll
    (additions : List Addition)
    {first second : String} :
    second ∈ (m.addAll additions).listedEquivalents first ↔
      second ∈ m.listedEquivalents first ∨
        ∃ before addition after,
          additions = before ++ addition :: after ∧
            addition.Declares (m.addAll before) first
              second := by
  induction additions generalizing m with
  | nil => simp [addAll]
  | cons addition additions ih =>
      have hStep : m.addAll (addition :: additions) =
          (m.add addition).addAll additions := rfl
      rw [hStep, ih, mem_listedEquivalents_add, or_assoc]
      refine or_congr Iff.rfl ?_
      constructor
      · rintro (hHere | ⟨before, later, after, rfl, hLater⟩)
        · exact ⟨[], addition, additions, rfl, hHere⟩
        · exact ⟨addition :: before, later, after, rfl, hLater⟩
      · rintro ⟨before, later, after, hSplit, hLater⟩
        cases before with
        | nil =>
            cases hSplit
            exact .inl hLater
        | cons one before =>
            cases hSplit
            exact .inr ⟨before, later, after, rfl, hLater⟩

------------------------------------------------------------
-- Components
------------------------------------------------------------

/-
  The class of a title is the first one that is equivalent to
  that of another title.
-/
def IsFirstEquivalent
    (m : Model)
    (title first : String) : Prop :=
  ∃ j : Nat, m.classTitles[j]? = some first ∧
    m.Equivalent title first ∧
    ∀ (k : Nat) other, m.classTitles[k]? = some other →
      m.Equivalent title other → j ≤ k

/-
  Each class has a representative, which is the first class
  that is equivalent to it.  It represents itself, and classes
  share it if and only if they are equivalent.
-/
structure Represented (m : Model) : Prop where
  isSome : ∀ title,
    (m.representative? title).isSome = true ↔
      title ∈ m.classTitles
  first : ∀ title other,
    m.representative? title = some other →
      m.IsFirstEquivalent title other
  self : ∀ title other,
    m.representative? title = some other →
      m.representative? other = some other
  shared : ∀ title ∈ m.classTitles, ∀ other ∈ m.classTitles,
    m.representative? title = m.representative? other ↔
      m.Equivalent title other

/- A title that is represented has an index. -/
theorem classIndex?_of_representative?
    {title other : String}
    (hRepresentative : m.representative? title = some other) :
    ∃ i, m.classIndex? title = some i := by
  unfold representative? at hRepresentative
  cases hIndex : m.classIndex? title with
  | none => simp [hIndex] at hRepresentative
  | some i => exact ⟨i, rfl⟩

/- Classes of different titles are represented. -/
theorem represented (hTitles : m.classTitles.Nodup) :
    m.Represented := by
  -- the index of a representative is the root of a set
  have hRoot : ∀ {title other}, m.representative? title =
      some other → ∃ i, m.classTitles[i]? = some title ∧
        m.classTitles[m.equivalentSets.root i]? =
          some other := by
    intro title other hRepresentative
    rcases classIndex?_of_representative? hRepresentative with
      ⟨i, hIndex⟩
    rw [(representative?_eq hTitles hIndex).1]
      at hRepresentative
    exact
      ⟨i, (classIndex?_eq_some_iff hTitles).mp hIndex,
        hRepresentative⟩
  constructor
  case isSome =>
    intro title
    rw [← contains_statement_iff]
    constructor
    · intro hSome
      rcases Option.isSome_iff_exists.mp hSome with
        ⟨other, hRepresentative⟩
      rcases classIndex?_of_representative? hRepresentative with
        ⟨i, hIndex⟩
      rw [contains, hIndex]
      rfl
    · exact representative?_isSome hTitles
  case first =>
    intro title other hRepresentative
    rcases hRoot hRepresentative with ⟨i, hTitle, hOther⟩
    refine ⟨m.equivalentSets.root i, hOther, ?_, ?_⟩
    · rw [← eqvGen_pairs_iff hTitles hTitle hOther,
        ← root_equivalentSets hTitles]
      exact (m.equivalentSets.root_root i).symm
    · intro k later hLater hEquivalent
      rw [← eqvGen_pairs_iff hTitles hTitle hLater,
        ← root_equivalentSets hTitles] at hEquivalent
      rw [hEquivalent]
      exact m.equivalentSets.root_le k
  case self =>
    intro title other hRepresentative
    rcases hRoot hRepresentative with ⟨i, _, hOther⟩
    have hIndex := (classIndex?_eq_some_iff hTitles).mpr hOther
    rw [(representative?_eq hTitles hIndex).1,
      m.equivalentSets.root_root]
    exact hOther
  case shared =>
    intro title hTitle other hOther
    exact
      representative?_eq_iff hTitles
        (contains_statement_iff.mpr hTitle)
        (contains_statement_iff.mpr hOther)

/-
  Whatever statements and equivalences are added to a model of
  different titles, its classes are represented, and those that
  are listed as equivalent are those that were before and those
  that have been declared since.
-/
theorem addAll_represented
    (hTitles : m.classTitles.Nodup)
    (additions : List Addition) :
    (m.addAll additions).classTitles.Nodup ∧
      (m.addAll additions).Represented ∧
      ∀ first second,
        second ∈
            (m.addAll additions).listedEquivalents first ↔
          second ∈ m.listedEquivalents first ∨
            ∃ before addition after,
              additions = before ++ addition :: after ∧
                addition.Declares (m.addAll before) first
                  second := by
  have hLater : (m.addAll additions).classTitles.Nodup := by
    induction additions generalizing m with
    | nil => exact hTitles
    | cons addition additions ih =>
        exact ih (add_titles hTitles addition)
  exact
    ⟨hLater, represented hLater,
      fun _ _ => mem_listedEquivalents_addAll additions⟩

/- Four statements, of which two declarations join three. -/
def chainedAdditions : List Addition :=
  ["A", "B", "C", "D"].map
      (fun title => .statement (Statement.new title .top))
    ++ [.equivalence "C" "B", .equivalence "B" "A"]

/- The classes that the declarations join share the first one. -/
theorem chainedAdditions_represented :
    empty.classTitles.Nodup ∧
      (empty.addAll chainedAdditions).Represented ∧
      ["A", "B", "C", "D", "E"].map
          (empty.addAll chainedAdditions).representative? =
        [some "A", some "A", some "A", some "D", none] := by
  have hTitles : empty.classTitles.Nodup := List.nodup_nil
  refine
    ⟨hTitles,
      (addAll_represented hTitles chainedAdditions).2.1, ?_⟩
  decide +kernel

end Model

end Dialectic
