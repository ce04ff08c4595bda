import Dialectic.Notation.Yaml.Reader
import Dialectic.Proofs.Pipeline.Running
import Dialectic.Proofs.Plugins.Standard

/-
  What the built-in plugins leave of a response when they fail:
  all of it, except that those that narrow a selection down
  lose it without a model.

  Key definitions include:
    * `RunOutcome.Leaves`
    * `Plugin.LeavesResponse`
    * `Plugin.LosesSelection`

  Main theorems:
    * `Plugin.LosesSelection.outcome_leaves`
    * `Plugin.builtIn_failing`
-/

namespace Dialectic

------------------------------------------------------------
-- Outcomes
------------------------------------------------------------

namespace RunOutcome

/- A hook that has failed leaves the response as it was. -/
def Leaves (done : RunOutcome) (response : Response) : Prop :=
  done.failure.isSome → done.response = response

/- A hook that has not failed may change the response. -/
@[simp]
theorem done_leaves
    (changed response : Response)
    (logs : List LogEntry) :
    (done changed logs).Leaves response :=
  nofun

/- A hook that gives the response back leaves it. -/
@[simp]
theorem failed_leaves (response : Response) (failure : Failure) :
    (failed response failure).Leaves response :=
  fun _ => rfl

end RunOutcome

namespace Plugin

/-
  A plugin that has failed leaves the response as it was, if
  failures do not end the run.
-/
def LeavesResponse (p : Plugin) : Prop :=
  ∀ (r : Request) (response : Response) (logger : Logger),
    r.throwExceptions = false →
      (p.run r response logger).Leaves response

/-
  A plugin leaves the response as it was, except that it loses
  the selection if it lacks the model.
-/
def LosesSelection (p : Plugin) : Prop :=
  ∀ (r : Request) (response : Response) (logger : Logger),
    ((p.run r response logger).failure =
          some (missing p.name .model) →
        response.selection.isSome ∧
          response.model = none ∧
          (p.run r response logger).response =
            { response with selection := none }) ∧
      ((p.run r response logger).failure ≠
          some (missing p.name .model) →
        (p.run r response logger).Leaves response)

------------------------------------------------------------
-- Reading
------------------------------------------------------------

/- Reading leaves the response. -/
theorem parser_leavesResponse [YamlReader] :
    parser.LeavesResponse := by
  intro r response logger _
  simp only [parser, runParser]
  split <;> simp

/- Applying front matter does not fail when it runs. -/
theorem data_leavesResponse : data.LeavesResponse :=
  fun _ response _ _ => RunOutcome.done_leaves response _ _

------------------------------------------------------------
-- Models
------------------------------------------------------------

/-
  Building a model leaves the response: its faults are listed
  without a failure.
-/
theorem model_leavesResponse : model.LeavesResponse := by
  intro r response logger hGoesOn
  simp only [model, runModel, hGoesOn, Bool.false_eq_true,
    if_false]
  repeat' split
  all_goals simp

/- Splitting arguments leaves the response. -/
theorem explodeArguments_leavesResponse :
    explodeArguments.LeavesResponse := by
  intro r response logger _
  simp only [explodeArguments, runExplode]
  repeat' split
  all_goals simp

/- Replacing sections leaves the response. -/
theorem regroup_leavesResponse :
    regroup.LeavesResponse := by
  intro r response logger _
  simp only [regroup, runRegroup]
  repeat' split
  all_goals simp

/- Deriving relations leaves the response. -/
theorem derive_leavesResponse :
    derive.LeavesResponse := by
  intro r response logger _
  simp only [derive, runDerive]
  repeat' split
  all_goals simp

------------------------------------------------------------
-- Maps
------------------------------------------------------------

/- Selecting elements leaves the response. -/
theorem preselection_leavesResponse :
    preselection.LeavesResponse := by
  intro r response logger _
  simp only [preselection, runPreselection]
  split <;> simp

/- Settings fail only if they cannot be read. -/
theorem settings_error
    {σ : Type}
    {r : Request}
    {space : SettingsSpace σ}
    {failure : Failure}
    (hFails : r.settings space = .error failure) :
    failure = .unreadableSettings space.name := by
  unfold Request.settings Request.resolve at hFails
  split at hFails
  · cases hFails
  · dsimp only at hFails
    split at hFails
    · cases hFails
    · cases hFails
      rfl

/- Narrowing a selection down loses it without a model. -/
theorem runNarrowing_losesSelection
    {σ : Type}
    {p : Plugin}
    (space : SettingsSpace σ)
    (narrow :
      Model → Selection → σ → Selection.Filters →
        Model × Selection)
    (hRun : p.run = runNarrowing p.name space narrow) :
    p.LosesSelection := by
  intro r response logger
  rw [hRun]
  unfold runNarrowing
  cases hSettings : r.settings space with
  | error failure =>
      rw [settings_error hSettings]
      exact ⟨nofun, fun _ => RunOutcome.failed_leaves _ _⟩
  | ok settings =>
      cases hSelection : response.selection with
      | none =>
          refine
            ⟨fun hSame => ?_,
              fun _ => RunOutcome.failed_leaves _ _⟩
          simp [missing, RunOutcome.failed,
            ResponseField.display] at hSame
      | some s =>
          cases hModel : response.model with
          | none =>
              -- the selection is taken before the model is missed
              exact ⟨fun _ => ⟨rfl, rfl, rfl⟩, absurd rfl⟩
          | some m =>
              exact
                ⟨nofun, fun _ => RunOutcome.done_leaves _ _ _⟩

/- Choosing the classes of a map may lose the selection. -/
theorem statementSelection_losesSelection :
    statementSelection.LosesSelection :=
  runNarrowing_losesSelection SettingsSpace.statements
    Selection.narrowStatements rfl

/- Choosing the arguments of a map may lose the selection. -/
theorem argumentSelection_losesSelection :
    argumentSelection.LosesSelection :=
  runNarrowing_losesSelection SettingsSpace.arguments
    Selection.narrowArguments rfl

/- Building a map leaves the response. -/
theorem map_leavesResponse :
    map.LeavesResponse := by
  intro r response logger _
  simp only [map, runMap]
  repeat' split
  all_goals simp

/- Putting nodes into groups leaves the response. -/
theorem group_leavesResponse :
    group.LeavesResponse := by
  intro r response logger _
  simp only [group, runGroup_eq]
  split <;> simp

/- Replacing closed groups leaves the response. -/
theorem closedGroup_leavesResponse :
    closedGroup.LeavesResponse := by
  intro r response logger _
  simp only [closedGroup, runClosedGroup]
  split <;> simp

------------------------------------------------------------
-- Output
------------------------------------------------------------

/- Coloring leaves the response. -/
theorem color_leavesResponse :
    color.LeavesResponse := by
  intro r response logger _
  simp only [color, runColor]
  repeat' split
  all_goals simp

/- Writing a map leaves the response. -/
theorem dotExport_leavesResponse :
    dotExport.LeavesResponse := by
  intro r response logger _
  simp only [dotExport, runDotExport]
  repeat' split
  all_goals simp

/- Writing a model leaves the response. -/
theorem jsonExport_leavesResponse :
    jsonExport.LeavesResponse := by
  intro r response logger _
  simp only [jsonExport, runJsonExport]
  repeat' split
  all_goals simp

------------------------------------------------------------
-- Runs
------------------------------------------------------------

/- No required field is missing if the first one is not. -/
theorem has_of_missingField?
    {p : Plugin}
    {response : Response}
    (hNone : p.missingField? response = none)
    {field : ResponseField}
    (hField : field ∈ p.requires) :
    response.has field = true := by
  rw [missingField?, Option.map_eq_none_iff] at hNone
  simpa using List.find?_eq_none.mp hNone field hField

/-
  In a run, what a plugin does leaves the response if its hook
  does so where no required field is missing.
-/
theorem outcome_leaves
    {mode : RunMode}
    {p : Plugin}
    {level : LogLevel}
    {s : RunState}
    (hRun :
      p.missingField? s.response = none →
        (p.run s.request s.response ⟨level, p.name⟩).Leaves
          s.response) :
    (Running.outcome mode p level s).Leaves s.response := by
  rw [Running.outcome_eq]
  cases hRefusal : Running.refusal? mode p s.response with
  | some failure => exact RunOutcome.failed_leaves _ _
  | none => exact hRun (Running.missingField?_of_refusal? hRefusal)

/- In a run, no selection is lost by what requires a model. -/
theorem LosesSelection.outcome_leaves
    {p : Plugin}
    (hLoses : p.LosesSelection)
    (hModel : .model ∈ p.requires)
    (mode : RunMode)
    (level : LogLevel)
    (s : RunState) :
    (Running.outcome mode p level s).Leaves s.response := by
  apply Plugin.outcome_leaves
  intro hMissing
  apply (hLoses s.request s.response ⟨level, p.name⟩).2
  intro hLacks
  have hThere := has_of_missingField? hMissing hModel
  have hNone :=
    ((hLoses s.request s.response ⟨level, p.name⟩).1 hLacks).2.1
  simp [Response.has, hNone] at hThere

/- The plugins that narrow a selection down. -/
def narrowing : List String :=
  ["statement-selection", "argument-selection"]

/- What each built-in plugin leaves of a response. -/
theorem builtIn_leaves [YamlReader] :
    ∀ entry ∈ builtIn,
      entry.1.LeavesResponse ∧ entry.1.name ∉ narrowing ∨
        entry.1.LosesSelection ∧ entry.1.name ∈ narrowing ∧
          .model ∈ entry.1.requires := by
  have hParser : parser.name ∉ narrowing := by
    simp [parser, narrowing]
  simp only [builtIn, List.forall_mem_cons]
  exact
    ⟨.inl ⟨parser_leavesResponse, hParser⟩,
      .inl ⟨data_leavesResponse, by decide⟩,
      .inl ⟨model_leavesResponse, by decide⟩,
      .inl ⟨explodeArguments_leavesResponse, by decide⟩,
      .inl ⟨regroup_leavesResponse, by decide⟩,
      .inl ⟨derive_leavesResponse, by decide⟩,
      .inl ⟨preselection_leavesResponse, by decide⟩,
      .inr ⟨statementSelection_losesSelection, by decide,
        by decide⟩,
      .inr ⟨argumentSelection_losesSelection, by decide,
        by decide⟩,
      .inl ⟨map_leavesResponse, by decide⟩,
      .inl ⟨group_leavesResponse, by decide⟩,
      .inl ⟨closedGroup_leavesResponse, by decide⟩,
      .inl ⟨color_leavesResponse, by decide⟩,
      .inl ⟨dotExport_leavesResponse, by decide⟩,
      .inl ⟨jsonExport_leavesResponse, by decide⟩,
      List.forall_mem_nil _⟩

/-
  A built-in plugin that fails, where failures do not end the
  run, leaves the response as it was.  Only a plugin that
  narrows the selection down loses it, and nothing else, if it
  lacks the model; this does not happen in a run, where such a
  plugin is not even begun.
-/
theorem builtIn_failing
    [YamlReader]
    {p : Plugin}
    {s : Stage}
    (hBuiltIn : (p, s) ∈ builtIn)
    {r : Request}
    (hGoesOn : r.throwExceptions = false)
    (response : Response)
    (logger : Logger) :
    let done := p.run r response logger
    let lacksModel :=
      p.name ∈ narrowing ∧
        done.failure = some (missing p.name .model)
    (done.failure.isSome →
        ¬ lacksModel → done.response = response) ∧
      (lacksModel →
        response.selection.isSome ∧
          response.model = none ∧
          done.response = { response with selection := none }) ∧
      ∀ mode level logs events,
        let ended :=
          Running.outcome mode p level
            ⟨r, response, logs, events⟩
        ended.failure.isSome → ended.response = response := by
  intro done lacksModel
  rcases builtIn_leaves _ hBuiltIn with
    ⟨hLeaves, hOther⟩ | ⟨hLoses, hName, hModel⟩
  · refine
      ⟨fun hFails _ => hLeaves r response logger hGoesOn hFails,
        fun hLacks => absurd hLacks.1 hOther, ?_⟩
    intro mode level logs events
    exact outcome_leaves (fun _ => hLeaves _ _ _ hGoesOn)
  · rcases hLoses r response logger with ⟨hLost, hKept⟩
    refine
      ⟨fun hFails hFine => ?_, fun hLacks => hLost hLacks.2, ?_⟩
    · exact hKept (fun hLacks => hFine ⟨hName, hLacks⟩) hFails
    · intro mode level logs events
      exact hLoses.outcome_leaves hModel mode level
        ⟨r, response, logs, events⟩

section

open scoped Yaml

/-
  Choosing the classes of a map without a model loses the
  selection if its hook is called at once, but not in a run;
  putting nodes into groups without a model keeps the map.
-/
theorem builtIn_failing_without_model :
    let response : Response :=
      { Response.empty with
        selection := some ⟨["A"], []⟩
        map := some ⟨[], [], []⟩ }
    let logger : Logger := ⟨.error, "statement-selection"⟩
    let choosing :=
      statementSelection.run .empty response logger
    let grouping := group.run .empty response logger
    let ended :=
      Running.outcome .blocking statementSelection .error
        ⟨.empty, response, [], []⟩
    (statementSelection, Stage.buildMap) ∈ builtIn ∧
      (group, Stage.buildMap) ∈ builtIn ∧
      Request.empty.throwExceptions = false ∧
      choosing.response = { response with selection := none } ∧
      ended.response = response ∧
      grouping.response = response := by
  intro response logger choosing grouping ended
  have hChoosing :
      (statementSelection, Stage.buildMap) ∈ builtIn := by
    simp [builtIn]
  have hGrouping : (group, Stage.buildMap) ∈ builtIn := by
    simp [builtIn]
  have hLost : choosing.failure =
      some (missing statementSelection.name .model) := by
    decide +kernel
  have hFails : grouping.failure.isSome := by decide +kernel
  have hEnds : ended.failure.isSome := by decide +kernel
  have hGoesOn : Request.empty.throwExceptions = false := rfl
  have hStatements :=
    builtIn_failing hChoosing hGoesOn response logger
  have hGroups :=
    builtIn_failing hGrouping hGoesOn response logger
  refine
    ⟨hChoosing, hGrouping, hGoesOn,
      (hStatements.2.1 ⟨by decide, hLost⟩).2.2,
      hStatements.2.2 .blocking .error [] [] hEnds,
      hGroups.1 hFails ?_⟩
  rintro ⟨hName, _⟩
  exact absurd hName (by decide)

end

end Plugin

end Dialectic
