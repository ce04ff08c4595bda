import Dialectic.Proofs.Selection.Priority

/-
  What is left when elements without a relation to another
  selected one are dropped.  The classes are judged before the
  arguments are chosen, so a class may stay for the sake of an
  argument that is dropped after it.

  Key definitions include:
    * `Model.Related`
    * `Selection.Connected`
    * `Selection.selectDropping`
    * `Selection.Strands`

  Main theorems:
    * `Selection.isConnected_iff`
    * `Selection.mem_selectDropping_statements`
    * `Selection.mem_selectDropping_arguments`
    * `Selection.select_connected`
-/

namespace Dialectic

------------------------------------------------------------
-- Relations
------------------------------------------------------------

namespace Model

variable {m : Model} {e e' : Element}

/- A relation has two elements as its ends. -/
def Related (m : Model) (e e' : Element) : Prop :=
  ∃ r ∈ m.relations,
    (r.source = e ∧ r.target = e') ∨
      (r.source = e' ∧ r.target = e)

/- Related elements are so both ways. -/
theorem Related.symm (hRelated : m.Related e e') :
    m.Related e' e := by
  rcases hRelated with ⟨r, hr, hEnds⟩
  exact ⟨r, hr, hEnds.symm⟩

end Model

/- The other end of a relation is the one that is not given. -/
theorem Relation.otherEnd?_eq_some_iff
    {r : Relation}
    {e e' : Element} :
    r.otherEnd? e = some e' ↔
      (r.source = e ∧ r.target = e') ∨
        (r.source = e' ∧ r.target = e) := by
  unfold otherEnd?
  by_cases hSource : r.source = e
  · rw [if_pos hSource, Option.some_inj]
    constructor
    · exact fun hTarget => .inl ⟨hSource, hTarget⟩
    · rintro (⟨_, hTarget⟩ | ⟨hOther, hTarget⟩)
      · exact hTarget
      · rw [hTarget, ← hSource, hOther]
  · by_cases hTarget : r.target = e <;>
      simp [hSource, hTarget]

namespace Selection

variable {m : Model} {s : Selection} {f : Filters}
variable {e e' : Element}
variable {forClasses : StatementMode}
variable {forArguments : ArgumentMode}

------------------------------------------------------------
-- Connection
------------------------------------------------------------

/- An element is related to a selected one. -/
def Connected (m : Model) (s : Selection) (e : Element) :
    Prop :=
  ∃ e', m.Related e e' ∧ s.contains e' = true

/- The elements that are found connected are. -/
theorem isConnected_iff :
    isConnected m s e = true ↔ Connected m s e := by
  simp only [isConnected, List.any_eq_true,
    List.mem_filterMap, Relation.otherEnd?_eq_some_iff]
  constructor
  · rintro ⟨e', ⟨r, hr, hEnds⟩, hSelected⟩
    exact ⟨e', ⟨r, List.mem_of_mem_filter hr, hEnds⟩,
      hSelected⟩
  · rintro ⟨e', ⟨r, hr, hEnds⟩, hSelected⟩
    refine ⟨e', ⟨r, List.mem_filter.mpr ⟨hr, ?_⟩, hEnds⟩,
      hSelected⟩
    rcases hEnds with ⟨hSource, _⟩ | ⟨_, hTarget⟩
    · simp [Relation.touches, hSource]
    · simp [Relation.touches, hTarget]

/- A selection has what its lists hold. -/
@[simp]
theorem contains_statement {t : String} :
    s.contains (.statement t) = true ↔ t ∈ s.statements := by
  simp [Selection.contains]

@[simp]
theorem contains_argument {t : String} :
    s.contains (.argument t) = true ↔ t ∈ s.arguments := by
  simp [Selection.contains]

/- What is connected stays so if more is selected. -/
theorem Connected.mono
    {s' : Selection}
    (hConnected : Connected m s e)
    (hStatements : s.statements ⊆ s'.statements)
    (hArguments : s.arguments ⊆ s'.arguments) :
    Connected m s' e := by
  rcases hConnected with ⟨e', hRelated, hSelected⟩
  refine ⟨e', hRelated, ?_⟩
  cases e' with
  | statement t =>
      exact contains_statement.mpr
        (hStatements (contains_statement.mp hSelected))
  | argument t =>
      exact contains_argument.mpr
        (hArguments (contains_argument.mp hSelected))

------------------------------------------------------------
-- Dropping disconnected elements
------------------------------------------------------------

/- Select elements, dropping the disconnected ones or not. -/
def selectDropping
    (m : Model)
    (f : Filters)
    (forClasses : StatementMode)
    (forArguments : ArgumentMode)
    (drop : Bool) : Selection :=
  (select m f ⟨forClasses, drop⟩ ⟨forArguments, drop⟩).2

/-
  The classes that stay are those connected to a class that is
  chosen or to an argument that is preselected.
-/
theorem mem_selectDropping_statements {t : String} :
    t ∈ (selectDropping m f forClasses forArguments
        true).statements ↔
      t ∈ (selectDropping m f forClasses forArguments
          false).statements ∧
        Connected m
          ⟨(selectDropping m f forClasses forArguments
              false).statements,
            (preselect m f).arguments⟩
          (.statement t) := by
  simp only [selectDropping, select_eq,
    chooseArguments_statements]
  rw [mem_chooseStatements, mem_chooseStatements,
    isConnected_iff]
  simp only [Bool.false_eq_true, false_implies, and_true,
    true_implies]
  exact Iff.rfl

/-
  The arguments that stay are those connected to a class that
  stays or to an argument that is chosen.
-/
theorem mem_selectDropping_arguments {t : String} :
    t ∈ (selectDropping m f forClasses forArguments
        true).arguments ↔
      t ∈ (selectDropping m f forClasses forArguments
          false).arguments ∧
        Connected m
          ⟨(selectDropping m f forClasses forArguments
              true).statements,
            (selectDropping m f forClasses forArguments
              false).arguments⟩
          (.argument t) := by
  have hSame :
      (chooseStatements m (preselect m f) ⟨forClasses, true⟩
          f).keepsArgument =
        (chooseStatements m (preselect m f) ⟨forClasses, false⟩
          f).keepsArgument :=
    keepsArgument_congr (by simp)
  have hChosen :
      chooseArguments m
          (chooseStatements m (preselect m f)
            ⟨forClasses, true⟩ f)
          ⟨forArguments, false⟩ f =
        ⟨(selectDropping m f forClasses forArguments
            true).statements,
          (selectDropping m f forClasses forArguments
            false).arguments⟩ := by
    simp only [selectDropping, select_eq,
      chooseArguments_statements]
    simp only [chooseArguments, Bool.false_eq_true, if_false,
      hSame]
  rw [← hChosen]
  simp only [selectDropping, select_eq]
  rw [mem_chooseArguments, mem_chooseArguments,
    isConnected_iff, hSame]
  simp only [Bool.false_eq_true, false_implies, and_true,
    true_implies]
  exact Iff.rfl

/- A selected argument is related to a selected element. -/
theorem connected_of_mem_arguments
    {t : String}
    (hSelected :
      t ∈ (selectDropping m f forClasses forArguments
        true).arguments) :
    Connected m (selectDropping m f forClasses forArguments true)
      (.argument t) := by
  rcases mem_selectDropping_arguments.mp hSelected with
    ⟨hChosen, e, hRelated, hPool⟩
  refine ⟨e, hRelated, ?_⟩
  cases e with
  | statement u =>
      exact contains_statement.mpr
        (contains_statement.mp hPool)
  | argument b =>
      -- two related arguments keep each other
      refine contains_argument.mpr
        (mem_selectDropping_arguments.mpr ⟨?_, ?_⟩)
      · exact contains_argument.mp hPool
      · exact ⟨.argument t, hRelated.symm,
          contains_argument.mpr hChosen⟩

/-
  A selected class is related to a selected element if it is
  related to one that is chosen without dropping any.
-/
theorem connected_iff_of_mem_statements
    {t : String}
    (hSelected :
      t ∈ (selectDropping m f forClasses forArguments
        true).statements) :
    Connected m (selectDropping m f forClasses forArguments true)
        (.statement t) ↔
      Connected m
        (selectDropping m f forClasses forArguments false)
        (.statement t) := by
  constructor
  · intro hConnected
    refine hConnected.mono (fun u hu => ?_) (fun b hb => ?_)
    · exact (mem_selectDropping_statements.mp hu).1
    · exact (mem_selectDropping_arguments.mp hb).1
  · rintro ⟨e, hRelated, hChosen⟩
    refine ⟨e, hRelated, ?_⟩
    cases e with
    | statement u =>
        -- two related classes keep each other
        refine contains_statement.mpr
          (mem_selectDropping_statements.mpr ⟨?_, ?_⟩)
        · exact contains_statement.mp hChosen
        · exact ⟨.statement t, hRelated.symm,
            contains_statement.mpr
              (mem_selectDropping_statements.mp hSelected).1⟩
    | argument b =>
        refine contains_argument.mpr
          (mem_selectDropping_arguments.mpr ⟨?_, ?_⟩)
        · exact contains_argument.mp hChosen
        · exact ⟨.statement t, hRelated.symm,
            contains_statement.mpr hSelected⟩

/-
  A class stays without relation to another selected element:
  it is related to an argument that is preselected, but to
  nothing that is chosen.
-/
structure Strands
    (m : Model)
    (f : Filters)
    (forClasses : StatementMode)
    (forArguments : ArgumentMode)
    (title : String) : Prop where
  chosen :
    title ∈ (selectDropping m f forClasses forArguments
      false).statements
  preselected : ∃ a ∈ (preselect m f).arguments,
    m.Related (.statement title) (.argument a)
  apart :
    ¬ Connected m
      (selectDropping m f forClasses forArguments false)
      (.statement title)

/-
  What dropping disconnected elements leaves: each selected
  argument is related to a selected element, and a selected
  class is not only if it is stranded.
-/
theorem select_connected
    (m : Model)
    (f : Filters)
    (forClasses : StatementMode)
    (forArguments : ArgumentMode) :
    let final := selectDropping m f forClasses forArguments true
    (∀ title ∈ final.arguments,
        Connected m final (.argument title)) ∧
      ∀ title,
        (title ∈ final.statements ∧
            ¬ Connected m final (.statement title)) ↔
          Strands m f forClasses forArguments title := by
  intro final
  refine ⟨fun t ht => connected_of_mem_arguments ht, ?_⟩
  intro t
  constructor
  · rintro ⟨hSelected, hAlone⟩
    have hApart :=
      mt (connected_iff_of_mem_statements hSelected).mpr hAlone
    rcases mem_selectDropping_statements.mp hSelected with
      ⟨hChosen, e, hRelated, hPool⟩
    refine ⟨hChosen, ?_, hApart⟩
    cases e with
    | statement u =>
        exact absurd
          ⟨.statement u, hRelated,
            contains_statement.mpr
              (contains_statement.mp hPool)⟩
          hApart
    | argument b =>
        exact ⟨b, contains_argument.mp hPool, hRelated⟩
  · rintro ⟨hChosen, ⟨b, hPreselected, hRelated⟩, hAlone⟩
    have hSelected : t ∈ final.statements :=
      mem_selectDropping_statements.mpr
        ⟨hChosen, .argument b, hRelated,
          contains_argument.mpr hPreselected⟩
    refine ⟨hSelected, ?_⟩
    exact mt (connected_iff_of_mem_statements hSelected).mp
      hAlone

/-
  A class stays for the sake of an argument that its data keeps
  out of the map.
-/
example :
    let m : Model :=
      .ofData { ModelData.empty with
        classes := [EquivalenceClass.new "A" 0]
        arguments :=
          [{ Argument.new "B" 0 with
            data := [("isInMap", .flag false)] }]
        relations :=
          [⟨0, .argument "B", .statement "A", .support,
            .explicit, []⟩] }
    selectDropping m Filters.standard .all .all true =
      ⟨["A"], []⟩ := by
  decide +kernel

end Selection

end Dialectic
