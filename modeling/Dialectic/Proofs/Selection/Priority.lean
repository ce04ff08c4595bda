import Dialectic.Proofs.Data.Sorting
import Dialectic.Proofs.Map.Membership
import Dialectic.Selection.Choice

/-
  What decides whether an element is selected: excluding it
  counts more than including it, this more than the flag in its
  data, and the flag more than the filters and the mode.

  Key definitions include:
    * `Selection.Filters.Admits`
    * `Selection.Filters.ChoosesClass`
    * `Selection.Filters.ChoosesArgument`
    * `Selection.Filters.TakesClasses`
    * `Selection.Filters.TakesArguments`
    * `Selection.select`
    * `Selection.Marks`
    * `Selection.OmitsClass`
    * `Selection.OmitsArgument`

  Main theorems:
    * `Selection.mem_preselect_statements`
    * `Selection.mem_select_statements`
    * `Selection.mem_select_arguments`
    * `Selection.Filters.takesClasses_iff`
    * `Selection.Filters.takesArguments_iff`
    * `Selection.select_marks`
    * `Selection.select_priority`
-/

namespace Dialectic

namespace Selection

namespace Filters

------------------------------------------------------------
-- Filters
------------------------------------------------------------

/-
  The tags of an element pass: some tag is selected, or, if it
  has none, such elements are let pass.
-/
def PassesTags (f : Filters) (tags : List String) : Prop :=
  ∀ selected, f.selectedTags = some selected →
    if tags = [] then f.selectElementsWithoutTag = true
    else ∃ tag ∈ tags, tag ∈ selected

/-
  The section of an element passes: some section on the path to
  it is selected, or, if it is in none, such elements are let
  pass.
-/
def PassesSection
    (f : Filters)
    (m : Model)
    (sectionId : Option Nat) : Prop :=
  ∀ selected, f.selectedSections = some selected →
    match sectionId with
    | none => f.selectElementsWithoutSection = true
    | some id => ∃ s ∈ m.sectionPath id, s.title ∈ selected

/-
  The data of an element says whether it is in the map, and
  this is not ignored.
-/
def Heeds (f : Filters) (data : Record) (inMap : Bool) :
    Prop :=
  f.ignoreIsInMap = false ∧
    Record.get? data "isInMap" = some (.flag inMap)

/-
  An element is admitted by its data or, if this says nothing
  that is heeded, by the filters and the mode.
-/
def Admits
    (f : Filters)
    (m : Model)
    (data : Record)
    (tags : List String)
    (sectionId : Option Nat)
    (allowed : Bool) : Prop :=
  f.Heeds data true ∨
    ((∀ inMap, ¬ f.Heeds data inMap) ∧
      f.PassesTags tags ∧
      f.PassesSection m sectionId ∧
      allowed = true)

/- A class is chosen unless it is excluded. -/
def ChoosesClass
    (f : Filters)
    (m : Model)
    (mode : StatementMode)
    (c : EquivalenceClass) : Prop :=
  c.title ∉ f.excludeStatements ∧
    (c.title ∈ f.includeStatements ∨
      f.Admits m c.data c.tags c.sectionId (mode.allows c))

/- An argument is chosen unless it is excluded. -/
def ChoosesArgument
    (f : Filters)
    (m : Model)
    (mode : ArgumentMode)
    (a : Argument) : Prop :=
  a.title ∉ f.excludeArguments ∧
    f.Admits m a.data a.tags a.sectionId (mode.allows a)

/- Some class of a title passes the filters. -/
def PassesClass (f : Filters) (m : Model) (title : String) :
    Prop :=
  ∃ c ∈ m.classes, c.title = title ∧
    f.PassesTags c.tags ∧ f.PassesSection m c.sectionId

/- Some argument of a title passes the filters. -/
def PassesArgument
    (f : Filters)
    (m : Model)
    (title : String) : Prop :=
  ∃ a ∈ m.arguments, a.title = title ∧
    f.PassesTags a.tags ∧ f.PassesSection m a.sectionId

/-
  The classes of a title are taken. It is the title that passes
  the filters, so if classes share it, another one may pass
  them than the one that the mode allows.
-/
def TakesClasses
    (f : Filters)
    (m : Model)
    (mode : StatementMode)
    (title : String) : Prop :=
  title ∉ f.excludeStatements ∧
    ∃ c ∈ m.classes, c.title = title ∧
      (title ∈ f.includeStatements ∨
        f.Heeds c.data true ∨
          ((∀ inMap, ¬ f.Heeds c.data inMap) ∧
            f.PassesClass m title ∧
            mode.allows c = true))

/- The arguments of a title are taken. -/
def TakesArguments
    (f : Filters)
    (m : Model)
    (mode : ArgumentMode)
    (title : String) : Prop :=
  title ∉ f.excludeArguments ∧
    ∃ a ∈ m.arguments, a.title = title ∧
      (f.Heeds a.data true ∨
        ((∀ inMap, ¬ f.Heeds a.data inMap) ∧
          f.PassesArgument m title ∧
          mode.allows a = true))

variable {f : Filters} {m : Model}

/- The filter of tags lets those pass that it says. -/
theorem allowTags_iff {tags : List String} :
    f.allowTags tags = true ↔ f.PassesTags tags := by
  unfold allowTags PassesTags
  cases f.selectedTags with
  | none => simp
  | some selected => cases tags <;> simp

/- The filter of sections lets those pass that it says. -/
theorem allowSection_iff {sectionId : Option Nat} :
    f.allowSection m sectionId = true ↔
      f.PassesSection m sectionId := by
  unfold allowSection PassesSection
  cases f.selectedSections with
  | none => simp
  | some selected => cases sectionId <;> simp

/- The flag that is found is the one that is heeded. -/
theorem inMapFlag?_eq_some_iff
    {data : Record}
    {inMap : Bool} :
    inMapFlag? f data = some inMap ↔ f.Heeds data inMap := by
  unfold inMapFlag? Heeds Record.flag?
  cases f.ignoreIsInMap with
  | true => simp
  | false =>
      cases Record.get? data "isInMap" with
      | none => simp
      | some value => cases value <;> simp

/- A class of a title of its own is taken if it is chosen. -/
theorem takesClasses_iff
    {mode : StatementMode}
    {c : EquivalenceClass}
    (hClass : c ∈ m.classes)
    (hSole : ∀ d ∈ m.classes, d.title = c.title → d = c) :
    f.TakesClasses m mode c.title ↔ f.ChoosesClass m mode c := by
  have hPasses :
      f.PassesClass m c.title ↔
        f.PassesTags c.tags ∧ f.PassesSection m c.sectionId := by
    constructor
    · rintro ⟨d, hd, hTitle, hPasses⟩
      rwa [hSole d hd hTitle] at hPasses
    · exact fun hPasses => ⟨c, hClass, rfl, hPasses⟩
  simp only [TakesClasses, ChoosesClass, Admits, hPasses,
    and_assoc]
  apply and_congr_right
  intro _
  constructor
  · rintro ⟨d, hd, hTitle, hTaken⟩
    rwa [hSole d hd hTitle] at hTaken
  · exact fun hTaken => ⟨c, hClass, rfl, hTaken⟩

/- An argument of a title of its own is taken if it is chosen. -/
theorem takesArguments_iff
    {mode : ArgumentMode}
    {a : Argument}
    (hArgument : a ∈ m.arguments)
    (hSole : ∀ b ∈ m.arguments, b.title = a.title → b = a) :
    f.TakesArguments m mode a.title ↔
      f.ChoosesArgument m mode a := by
  have hPasses :
      f.PassesArgument m a.title ↔
        f.PassesTags a.tags ∧ f.PassesSection m a.sectionId := by
    constructor
    · rintro ⟨b, hb, hTitle, hPasses⟩
      rwa [hSole b hb hTitle] at hPasses
    · exact fun hPasses => ⟨a, hArgument, rfl, hPasses⟩
  simp only [TakesArguments, ChoosesArgument, Admits, hPasses,
    and_assoc]
  apply and_congr_right
  intro _
  constructor
  · rintro ⟨b, hb, hTitle, hTaken⟩
    rwa [hSole b hb hTitle] at hTaken
  · exact fun hTaken => ⟨a, hArgument, rfl, hTaken⟩

end Filters

variable {m : Model} {s : Selection} {f : Filters} {t : String}

------------------------------------------------------------
-- Choices
------------------------------------------------------------

/- A class is preselected if one of its title passes. -/
theorem mem_preselect_statements :
    t ∈ (preselect m f).statements ↔
      t ∉ f.excludeStatements ∧ ∃ c ∈ m.classes,
        c.title = t ∧
          (t ∈ f.includeStatements ∨
            (f.PassesTags c.tags ∧
              f.PassesSection m c.sectionId)) := by
  simp only [preselect, ofTitles, Sequence.mem_sortedTexts,
    List.mem_map, List.mem_filter, Filters.allowClass,
    Bool.and_eq_true, Bool.or_eq_true, Bool.not_eq_true',
    List.contains_iff_mem, Filters.allowTags_iff,
    Filters.allowSection_iff, ← Bool.not_eq_true]
  constructor
  · rintro ⟨c, ⟨hClass, hPasses, hKept⟩, rfl⟩
    exact ⟨hKept, c, hClass, rfl, hPasses⟩
  · rintro ⟨hKept, c, hClass, rfl, hPasses⟩
    exact ⟨c, ⟨hClass, hPasses, hKept⟩, rfl⟩

/- An argument is preselected if one of its title passes. -/
theorem mem_preselect_arguments :
    t ∈ (preselect m f).arguments ↔
      t ∉ f.excludeArguments ∧ f.PassesArgument m t := by
  simp only [preselect, ofTitles, Sequence.mem_sortedTexts,
    List.mem_map, List.mem_filter, Filters.allowArgument,
    Bool.and_eq_true, Bool.not_eq_true',
    List.contains_iff_mem, Filters.allowTags_iff,
    Filters.allowSection_iff, ← Bool.not_eq_true]
  constructor
  · rintro ⟨a, ⟨hArgument, hPasses, hKept⟩, rfl⟩
    exact ⟨hKept, a, hArgument, rfl, hPasses⟩
  · rintro ⟨hKept, a, hArgument, rfl, hPasses⟩
    exact ⟨a, ⟨hArgument, hPasses, hKept⟩, rfl⟩

/- What keeps a class in the selection or brings it in. -/
theorem keepsClass_iff
    {settings : StatementSettings}
    {c : EquivalenceClass} :
    s.keepsClass settings f c = true ↔
      c.title ∉ f.excludeStatements ∧
        (c.title ∈ f.includeStatements ∨
          f.Heeds c.data true ∨
            ((∀ inMap, ¬ f.Heeds c.data inMap) ∧
              c.title ∈ s.statements ∧
              settings.mode.allows c = true)) := by
  simp only [← Filters.inMapFlag?_eq_some_iff]
  unfold keepsClass
  by_cases hExcluded : c.title ∈ f.excludeStatements
  · simp [hExcluded]
  · by_cases hIncluded : c.title ∈ f.includeStatements
    · simp [hExcluded, hIncluded]
    · cases inMapFlag? f c.data with
      | none => simp [hExcluded, hIncluded]
      | some flag => simp [hExcluded, hIncluded]

/- What keeps an argument in the selection or brings it in. -/
theorem keepsArgument_iff
    {settings : ArgumentSettings}
    {a : Argument} :
    s.keepsArgument settings f a = true ↔
      a.title ∉ f.excludeArguments ∧
        (f.Heeds a.data true ∨
          ((∀ inMap, ¬ f.Heeds a.data inMap) ∧
            a.title ∈ s.arguments ∧
            settings.mode.allows a = true)) := by
  simp only [← Filters.inMapFlag?_eq_some_iff]
  unfold keepsArgument
  by_cases hExcluded : a.title ∈ f.excludeArguments
  · simp [hExcluded]
  · cases inMapFlag? f a.data with
    | none => simp [hExcluded]
    | some flag => simp [hExcluded]

/- Only the selected arguments matter for which are kept. -/
theorem keepsArgument_congr
    {s' : Selection}
    (hSame : s.arguments = s'.arguments) :
    s.keepsArgument = s'.keepsArgument := by
  funext settings f a
  simp only [keepsArgument, hSame]

/-
  The classes that are chosen: one of the title is kept and, if
  disconnected ones are dropped, the title is connected to what
  is chosen without dropping any.
-/
theorem mem_chooseStatements
    {settings : StatementSettings} :
    t ∈ (chooseStatements m s settings f).statements ↔
      (∃ c ∈ m.classes,
        s.keepsClass settings f c = true ∧ c.title = t) ∧
        (settings.excludeDisconnected = true →
          isConnected m
            (chooseStatements m s ⟨settings.mode, false⟩ f)
            (.statement t) = true) := by
  rcases settings with ⟨mode, drop⟩
  have hKept :
      t ∈ (chooseStatements m s ⟨mode, false⟩ f).statements ↔
        ∃ c ∈ m.classes,
          s.keepsClass ⟨mode, drop⟩ f c = true ∧
            c.title = t := by
    simp [chooseStatements, Sequence.mem_sortedTexts,
      keepsClass, and_assoc]
  cases drop with
  | false => simpa using hKept
  | true =>
      have hDropped :
          (chooseStatements m s ⟨mode, true⟩ f).statements =
            (chooseStatements m s ⟨mode, false⟩
              f).statements.filter
                (fun t =>
                  isConnected m
                    (chooseStatements m s ⟨mode, false⟩ f)
                    (.statement t)) :=
        rfl
      rw [hDropped, List.mem_filter, hKept]
      simp

/-
  The arguments that are chosen: one of the title is kept and,
  if disconnected ones are dropped, the title is connected to
  what is chosen without dropping any.
-/
theorem mem_chooseArguments
    {settings : ArgumentSettings} :
    t ∈ (chooseArguments m s settings f).arguments ↔
      (∃ a ∈ m.arguments,
        s.keepsArgument settings f a = true ∧ a.title = t) ∧
        (settings.excludeDisconnected = true →
          isConnected m
            (chooseArguments m s ⟨settings.mode, false⟩ f)
            (.argument t) = true) := by
  rcases settings with ⟨mode, drop⟩
  have hKept :
      t ∈ (chooseArguments m s ⟨mode, false⟩ f).arguments ↔
        ∃ a ∈ m.arguments,
          s.keepsArgument ⟨mode, drop⟩ f a = true ∧
            a.title = t := by
    simp [chooseArguments, Sequence.mem_sortedTexts,
      keepsArgument, and_assoc]
  cases drop with
  | false => simpa using hKept
  | true =>
      have hDropped :
          (chooseArguments m s ⟨mode, true⟩ f).arguments =
            (chooseArguments m s ⟨mode, false⟩
              f).arguments.filter
                (fun t =>
                  isConnected m
                    (chooseArguments m s ⟨mode, false⟩ f)
                    (.argument t)) :=
        rfl
      rw [hDropped, List.mem_filter, hKept]
      simp

/- Choosing classes leaves the arguments. -/
@[simp]
theorem chooseStatements_arguments
    (m : Model)
    (s : Selection)
    (settings : StatementSettings)
    (f : Filters) :
    (chooseStatements m s settings f).arguments =
      s.arguments := by
  unfold chooseStatements
  split <;> rfl

/- Choosing arguments leaves the classes. -/
@[simp]
theorem chooseArguments_statements
    (m : Model)
    (s : Selection)
    (settings : ArgumentSettings)
    (f : Filters) :
    (chooseArguments m s settings f).statements =
      s.statements := by
  unfold chooseArguments
  split <;> rfl

------------------------------------------------------------
-- Selecting
------------------------------------------------------------

/-
  Select elements of a model: preselect them, then choose and
  mark the classes, and last the arguments.
-/
def select
    (m : Model)
    (f : Filters)
    (forClasses : StatementSettings)
    (forArguments : ArgumentSettings) : Model × Selection :=
  let chosen :=
    narrowStatements m (preselect m f) forClasses f
  narrowArguments chosen.1 chosen.2 forArguments f

/- Marks do not matter for what is selected. -/
theorem select_eq
    (m : Model)
    (f : Filters)
    (forClasses : StatementSettings)
    (forArguments : ArgumentSettings) :
    (select m f forClasses forArguments).2 =
      chooseArguments m
        (chooseStatements m (preselect m f) forClasses f)
        forArguments f :=
  rfl

/- The class titles that are selected if none is dropped. -/
theorem mem_select_statements
    {forClasses : StatementSettings}
    {forArguments : ArgumentSettings}
    (hKeep : forClasses.excludeDisconnected = false) :
    t ∈ (select m f forClasses forArguments).2.statements ↔
      f.TakesClasses m forClasses.mode t := by
  rw [select_eq, chooseArguments_statements,
    mem_chooseStatements, hKeep]
  simp only [Bool.false_eq_true, false_implies, and_true,
    keepsClass_iff, mem_preselect_statements]
  constructor
  · rintro ⟨c, hClass, ⟨hKept, hTaken⟩, rfl⟩
    refine ⟨hKept, c, hClass, rfl, ?_⟩
    rcases hTaken with hIncluded | hFlag | ⟨hNone, hPre, hMode⟩
    · exact .inl hIncluded
    · exact .inr (.inl hFlag)
    · rcases hPre with ⟨_, d, hd, hTitle, hIncluded | hPasses⟩
      · exact .inl hIncluded
      · exact .inr (.inr ⟨hNone, ⟨d, hd, hTitle, hPasses⟩, hMode⟩)
  · rintro ⟨hKept, c, hClass, rfl, hTaken⟩
    refine ⟨c, hClass, ⟨hKept, ?_⟩, rfl⟩
    rcases hTaken with hIncluded | hFlag | ⟨hNone, hPass, hMode⟩
    · exact .inl hIncluded
    · exact .inr (.inl hFlag)
    · rcases hPass with ⟨d, hd, hTitle, hPasses⟩
      exact .inr (.inr
        ⟨hNone, ⟨hKept, d, hd, hTitle, .inr hPasses⟩, hMode⟩)

/- The argument titles that are selected if none is dropped. -/
theorem mem_select_arguments
    {forClasses : StatementSettings}
    {forArguments : ArgumentSettings}
    (hKeep : forArguments.excludeDisconnected = false) :
    t ∈ (select m f forClasses forArguments).2.arguments ↔
      f.TakesArguments m forArguments.mode t := by
  rw [select_eq, mem_chooseArguments, hKeep,
    keepsArgument_congr (chooseStatements_arguments _ _ _ _)]
  simp only [Bool.false_eq_true, false_implies, and_true,
    keepsArgument_iff, mem_preselect_arguments]
  constructor
  · rintro ⟨a, hArgument, ⟨hKept, hTaken⟩, rfl⟩
    refine ⟨hKept, a, hArgument, rfl, ?_⟩
    rcases hTaken with hFlag | ⟨hNone, ⟨_, hPass⟩, hMode⟩
    · exact .inl hFlag
    · exact .inr ⟨hNone, hPass, hMode⟩
  · rintro ⟨hKept, a, hArgument, rfl, hTaken⟩
    refine ⟨a, hArgument, ⟨hKept, ?_⟩, rfl⟩
    rcases hTaken with hFlag | ⟨hNone, hPass, hMode⟩
    · exact .inl hFlag
    · exact .inr ⟨hNone, ⟨hKept, hPass⟩, hMode⟩

/- The elements of a model are marked if they are selected. -/
structure Marks (m : Model) (s : Selection) : Prop where
  classes : ∀ c ∈ m.classes,
    c.isInMap = s.statements.contains c.title
  statements : ∀ o ∈ m.statements,
    o.isInMap = s.statements.contains o.title
  arguments : ∀ a ∈ m.arguments,
    a.isInMap = s.arguments.contains a.title

/- The elements of a model are marked when it is selected from. -/
theorem select_marks
    (m : Model)
    (f : Filters)
    (forClasses : StatementSettings)
    (forArguments : ArgumentSettings) :
    Marks (select m f forClasses forArguments).1
      (select m f forClasses forArguments).2 := by
  constructor
  · intro c hc
    rcases List.mem_map.mp hc with ⟨d, _, rfl⟩
    rw [select_eq, chooseArguments_statements]
  · intro o ho
    rcases List.mem_map.mp ho with ⟨p, _, rfl⟩
    rw [select_eq, chooseArguments_statements]
  · intro a ha
    rcases List.mem_map.mp ha with ⟨b, _, rfl⟩
    rfl

/-
  A class title is nowhere in a model that has been selected
  from, nor in the map of the selection.
-/
structure OmitsClass
    (m : Model)
    (s : Selection)
    (title : String) : Prop where
  selected : title ∉ s.statements
  classes : ∀ c ∈ m.classes, c.title = title →
    c.isInMap = false
  statements : ∀ o ∈ m.statements, o.title = title →
    o.isInMap = false
  nodes : ∀ settings,
    ∀ n ∈ (ArgumentMap.build m s settings).nodes,
      n.kind = .statement → title ∉ n.members

/-
  An argument title is nowhere in a model that has been
  selected from, nor in the map of the selection.
-/
structure OmitsArgument
    (m : Model)
    (s : Selection)
    (title : String) : Prop where
  selected : title ∉ s.arguments
  arguments : ∀ a ∈ m.arguments, a.title = title →
    a.isInMap = false
  nodes : ∀ settings,
    ∀ n ∈ (ArgumentMap.build m s settings).nodes,
      n.kind = .argument → title ∉ n.members

/- A class that is not selected is omitted. -/
theorem Marks.omitsClass
    (hMarks : Marks m s)
    (hApart : t ∉ s.statements) :
    OmitsClass m s t where
  selected := hApart
  classes := by
    rintro c hc rfl
    simpa [hApart] using hMarks.classes c hc
  statements := by
    rintro o ho rfl
    simpa [hApart] using hMarks.statements o ho
  nodes := by
    intro settings n hn hKind hMember
    have hShows := ArgumentMap.build_showsOnly m s settings n hn
    exact hApart (hShows.classes hKind t hMember)

/- An argument that is not selected is omitted. -/
theorem Marks.omitsArgument
    (hMarks : Marks m s)
    (hApart : t ∉ s.arguments) :
    OmitsArgument m s t where
  selected := hApart
  arguments := by
    rintro a ha rfl
    simpa [hApart] using hMarks.arguments a ha
  nodes := by
    intro settings n hn hKind hMember
    have hShows := ArgumentMap.build_showsOnly m s settings n hn
    exact hApart (hShows.arguments hKind t hMember)

/-
  What is selected if disconnected elements are not dropped:
  the titles that are taken, hence the elements that are chosen
  where their titles are their own.  With any settings the
  elements of the model are marked if they are selected, and
  excluded ones are omitted.
-/
theorem select_priority
    (m : Model)
    (f : Filters)
    (forClasses : StatementSettings)
    (forArguments : ArgumentSettings) :
    let final := select m f forClasses forArguments
    (forClasses.excludeDisconnected = false →
        (∀ title, title ∈ final.2.statements ↔
          f.TakesClasses m forClasses.mode title) ∧
        ∀ c ∈ m.classes,
          (∀ d ∈ m.classes, d.title = c.title → d = c) →
            (c.title ∈ final.2.statements ↔
              f.ChoosesClass m forClasses.mode c)) ∧
      (forArguments.excludeDisconnected = false →
        (∀ title, title ∈ final.2.arguments ↔
          f.TakesArguments m forArguments.mode title) ∧
        ∀ a ∈ m.arguments,
          (∀ b ∈ m.arguments, b.title = a.title → b = a) →
            (a.title ∈ final.2.arguments ↔
              f.ChoosesArgument m forArguments.mode a)) ∧
      Marks final.1 final.2 ∧
      (∀ title ∈ f.excludeStatements,
        OmitsClass final.1 final.2 title) ∧
      (∀ title ∈ f.excludeArguments,
        OmitsArgument final.1 final.2 title) := by
  intro final
  have hMarks : Marks final.1 final.2 :=
    select_marks m f forClasses forArguments
  refine ⟨?_, ?_, hMarks, ?_, ?_⟩
  · intro hKeep
    refine ⟨fun _ => mem_select_statements hKeep, ?_⟩
    intro c hClass hSole
    rw [mem_select_statements hKeep]
    exact Filters.takesClasses_iff hClass hSole
  · intro hKeep
    refine ⟨fun _ => mem_select_arguments hKeep, ?_⟩
    intro a hArgument hSole
    rw [mem_select_arguments hKeep]
    exact Filters.takesArguments_iff hArgument hSole
  · intro title hExcluded
    refine hMarks.omitsClass (fun hSelected => ?_)
    rw [select_eq, chooseArguments_statements,
      mem_chooseStatements] at hSelected
    rcases hSelected.1 with ⟨c, _, hKept, rfl⟩
    exact (keepsClass_iff.mp hKept).1 hExcluded
  · intro title hExcluded
    refine hMarks.omitsArgument (fun hSelected => ?_)
    rw [select_eq, mem_chooseArguments] at hSelected
    rcases hSelected.1 with ⟨a, _, hKept, rfl⟩
    exact (keepsArgument_iff.mp hKept).1 hExcluded

/-
  A flag brings a class without title in, against the mode, but
  no class that is excluded.
-/
theorem select_priority_flagged :
    let data : Record := [("isInMap", .flag true)]
    let c : EquivalenceClass :=
      { EquivalenceClass.new "A" 0 with
        data := data
        isAutoTitled := true }
    let d : EquivalenceClass :=
      { EquivalenceClass.new "B" 1 with data := data }
    let a : Argument := Argument.new "X" 0
    let m : Model :=
      .ofData { ModelData.empty with
        classes := [c, d]
        arguments := [a] }
    let f : Filters :=
      { Filters.standard with
        includeStatements := ["B"]
        excludeStatements := ["B"] }
    let forClasses : StatementSettings := ⟨.withTitle, false⟩
    let forArguments : ArgumentSettings := ⟨.all, false⟩
    let final := select m f forClasses forArguments
    forClasses.excludeDisconnected = false ∧
      forArguments.excludeDisconnected = false ∧
      (∀ e ∈ m.classes, e.title = c.title → e = c) ∧
      (∀ b ∈ m.arguments, b.title = a.title → b = a) ∧
      "B" ∈ f.excludeStatements ∧
      "A" ∈ final.2.statements ∧
      "X" ∈ final.2.arguments ∧
      OmitsClass final.1 final.2 "B" := by
  intro data c d a m f forClasses forArguments final
  have hClass : ∀ e ∈ m.classes, e.title = c.title → e = c := by
    decide
  have hArgument : ∀ b ∈ m.arguments,
      b.title = a.title → b = a := by
    decide
  have hExcluded : "B" ∈ f.excludeStatements := by decide
  rcases select_priority m f forClasses forArguments with
    ⟨hClasses, hArguments, _, hOmits, _⟩
  refine
    ⟨rfl, rfl, hClass, hArgument, hExcluded,
      ((hClasses rfl).2 c List.mem_cons_self hClass).mpr ?_,
      ((hArguments rfl).2 a List.mem_cons_self hArgument).mpr ?_,
      hOmits "B" hExcluded⟩
  · exact ⟨by decide, .inr (.inl ⟨rfl, rfl⟩)⟩
  · refine ⟨by decide, .inr ⟨?_, ?_, ?_, rfl⟩⟩
    · rintro inMap ⟨_, hFound⟩
      cases hFound
    · rintro selected hSome
      cases hSome
    · rintro selected hSome
      cases hSome

/-
  If classes share their title, the tags of one and the mode of
  another may let the title in, although none is chosen.
-/
theorem select_shared_title :
    let c : EquivalenceClass :=
      { EquivalenceClass.new "A" 0 with
        tags := ["t"]
        isAutoTitled := true }
    let d : EquivalenceClass := EquivalenceClass.new "A" 1
    let m : Model := .ofData { ModelData.empty with classes := [c, d] }
    let f : Filters :=
      { Filters.standard with
        selectedTags := some ["t"]
        selectElementsWithoutTag := false }
    "A" ∈
        (select m f ⟨.withTitle, false⟩
          ⟨.all, false⟩).2.statements ∧
      ∀ e ∈ m.classes, ¬ f.ChoosesClass m .withTitle e := by
  intro c d m f
  refine ⟨by decide +kernel, ?_⟩
  intro e he hChosen
  rcases hChosen with ⟨_, hIncluded | hAdmitted⟩
  · cases hIncluded
  rcases List.mem_cons.mp he with rfl | he
  · rcases hAdmitted with ⟨_, hFlag⟩ | ⟨_, _, _, hMode⟩
    · cases hFlag
    · cases hMode
  · rw [List.mem_singleton.mp he] at hAdmitted
    rcases hAdmitted with ⟨_, hFlag⟩ | ⟨_, hTags, _⟩
    · cases hFlag
    · cases hTags ["t"] rfl

end Selection

end Dialectic
