import Dialectic.Notation.Toml.Reader
import Dialectic.Notation.Yaml.Reader
import Dialectic.Proofs.Document.Policy
import Dialectic.Proofs.Pipeline.Policy
import Dialectic.Proofs.Plugins.Standard
import Mathlib

/-
  The built-in plugins are in step, whether failures end the
  run or not.

  Key definitions include:
    * `Plugin.RunQuiet`

  Main theorems:
    * `Plugin.inStep_of_quiet`
    * `Plugin.parser_inStep`
    * `Plugin.data_inStep`
    * `Plugin.model_inStep`
    * `Application.standard_inStep`
    * `Application.throwing_gives_first_exception`
-/

namespace Dialectic

open Running (Lenient)

namespace Plugin

variable {input : String}

------------------------------------------------------------
-- Quiet Plugins
------------------------------------------------------------

/-
  A hook has listed no failure, cancelled nothing and met no
  front matter.
-/
structure RunQuiet
    (response : Response)
    (done : RunOutcome) : Prop where
  exceptions : done.response.exceptions = response.exceptions
  frontMatter :
    done.response.frontMatter = response.frontMatter
  cancels : done.cancels = false

/- What prepares nothing is in step. -/
theorem prepareNothing_inStep :
    PreparesInStep input prepareNothing :=
  fun _ _ hLenient => ⟨hLenient, rfl⟩

/- What prepares the settings of a space is in step. -/
theorem prepareSpace_inStep
    {σ : Type}
    (space : SettingsSpace σ) :
    PreparesInStep input (prepareSpace space) := by
  intro r response hLenient
  have hSame :
      r.throwing.resolve space space.standard =
        r.resolve space space.standard := rfl
  rw [prepareSpace_eq, prepareSpace_eq, hSame]
  cases r.resolve space space.standard with
  | error failure => exact ⟨hLenient, rfl⟩
  | ok settings =>
      exact
        ⟨⟨hLenient.goesOn, hLenient.running, hLenient.text,
          hLenient.separate, hLenient.silent⟩, rfl⟩

/-
  A plugin is in step if its hook that runs does not look at
  the policy and lists no failures itself.
-/
theorem inStep_of_quiet
    {p : Plugin}
    (hPrepare : PreparesInStep input p.prepare)
    (hCommon : ∀ r response logger,
      p.run r.throwing response logger =
        p.run r response logger)
    (hQuiet : ∀ r response logger,
      RunQuiet response (p.run r response logger)) :
    p.InStep input := by
  refine ⟨hPrepare, ?_⟩
  intro r response logger hLenient
  have hRun := hQuiet r response logger
  refine ⟨[], ?_, ?_, hRun.cancels, hCommon r response logger⟩
  · rw [hRun.exceptions, List.append_nil]
  · refine
      ⟨hLenient.goesOn, hLenient.running, hLenient.text,
        hLenient.separate, ?_⟩
    rw [hRun.frontMatter]
    exact hLenient.silent

------------------------------------------------------------
-- Reading
------------------------------------------------------------

/-
  Reading is in step, as it is so under both policies about
  faults of a document.
-/
theorem parser_inStep
    [YamlReader]
    (hSilent :
      Silent (Document.read input).document.frontMatter) :
    parser.InStep input := by
  refine ⟨prepareNothing_inStep, ?_⟩
  intro r response logger hLenient
  rcases Document.parse_policies input with
    ⟨parsed, hRecover, hFail⟩
  have hRead : Document.read input = parsed := by
    simp [Document.read, hRecover]
  have hRun :
      parser.run r response logger =
        .done (withDocument response parsed)
          (parsed.faults.flatMap
            (fun fault =>
              logger.log .warning fault.display)) := by
    simp [parser, runParser, hLenient.goesOn,
      hLenient.text, hRecover]
  have hClean :
      parsed.faults = [] →
        parser.run r.throwing response logger =
          .done (withDocument response parsed) [] := by
    intro hFaults
    simp [parser, runParser, hLenient.text, hFail, hFaults,
      Request.throwing]
  have hFaulty : ∀ fault faults,
      parsed.faults = fault :: faults →
        parser.run r.throwing response logger =
          .failed response (.ofSyntaxFault fault) := by
    intro fault faults hFaults
    simp [parser, runParser, hLenient.text, hFail, hFaults,
      Request.throwing]
  refine
    ⟨parsed.faults.map Failure.ofSyntaxFault, ?_, ?_, ?_, ?_⟩
  · rw [hRun]
    rfl
  · rw [hRun]
    refine
      ⟨hLenient.goesOn, hLenient.running, hLenient.text,
        hLenient.separate, ?_⟩
    rw [← hRead]
    exact hSilent
  · rw [hRun]
    rfl
  · rw [hRun]
    cases hFaults : parsed.faults with
    | nil =>
        exact hClean hFaults
    | cons fault faults =>
        rw [List.map_cons, hFaulty fault faults hFaults]
        rfl

/- Applying front matter is in step if it is silent. -/
theorem prepareData_inStep :
    PreparesInStep input prepareData := by
  intro r response hLenient
  unfold prepareData
  cases hFields : response.frontMatter with
  | none => exact ⟨hLenient, rfl⟩
  | some fields =>
      have hAbsent := hLenient.silent fields hFields
      have hSame :=
        Request.overlay_throwing hLenient.separate hAbsent
      have hThrowing :
          PrepareOutcome.ofEdit (Request.overlay fields)
              r.throwing =
            ⟨(PrepareOutcome.ofEdit (Request.overlay fields)
                r).request.throwing,
              (PrepareOutcome.ofEdit (Request.overlay fields)
                r).failure⟩ := by
        unfold PrepareOutcome.ofEdit
        rw [hSame]
        rcases Request.overlay fields r with ⟨_ | _, next⟩ <;>
          rfl
      refine ⟨?_, hThrowing⟩
      rcases PrepareOutcome.ofEdit_overlay fields r with
        ⟨failure, _, hOutcome⟩ | ⟨next, hOverlay, hOutcome⟩
      · simp only [hOutcome]
        exact hLenient
      · simp only [hOutcome]
        have hThrows :=
          Request.overlay_keeps_throwExceptions
            hLenient.separate hAbsent hOverlay
        rcases Request.overlay_keeps hLenient.separate
            hOverlay with
          ⟨hSeparate, hInput, hCancelled, _⟩
        exact
          ⟨hThrows.trans hLenient.goesOn,
            hCancelled.trans hLenient.running,
            (congrArg (·.getD "") hInput).trans hLenient.text,
            hSeparate, hLenient.silent⟩

/- The plugin that applies front matter is in step. -/
theorem data_inStep : data.InStep input :=
  inStep_of_quiet prepareData_inStep (fun _ _ _ => rfl)
    (fun _ _ _ => ⟨rfl, rfl, rfl⟩)

------------------------------------------------------------
-- Models
------------------------------------------------------------

/-
  Building a model is in step: it lists all faults of the
  model, or fails with the first of them.
-/
theorem model_inStep : model.InStep input := by
  refine ⟨prepareSpace_inStep _, ?_⟩
  intro r response logger hLenient
  cases hSettings : r.settings SettingsSpace.model with
  | error failure =>
      refine ⟨[], ?_, ?_, ?_, ?_⟩ <;>
        simp [model, runModel, hSettings, RunOutcome.failed,
          hLenient]
  | ok settings =>
      cases hAst : response.ast with
      | none =>
          refine ⟨[], ?_, ?_, ?_, ?_⟩ <;>
            simp [model, runModel, hSettings, hAst,
              RunOutcome.failed, hLenient]
      | some document =>
          rcases hBuilt :
            Model.build settings.removeTagsFromText document
            with ⟨built, faults⟩
          have hKept :
              Lenient input r
                { response with model := some built } :=
            ⟨hLenient.goesOn, hLenient.running,
              hLenient.text, hLenient.separate,
              hLenient.silent⟩
          have hRun :
              model.run r response logger =
                .done
                  (({ response with
                      model := some built } : Response).report
                    (faults.map Failure.ofModelFault))
                  (faults.flatMap (fun fault =>
                    logger.log .error fault.message)) := by
            simp [model, runModel, hSettings, hAst, hBuilt,
              hLenient.goesOn]
          have hClean :
              faults = [] →
                model.run r.throwing response logger =
                  .done
                    { response with model := some built } [] := by
            intro hNone
            simp [model, runModel, hSettings, hAst, hBuilt,
              hNone]
          have hFaulty : ∀ fault rest,
              faults = fault :: rest →
                model.run r.throwing response logger =
                  .failed
                    { response with model := some built }
                    (.ofModelFault fault) := by
            intro fault rest hSome
            simp [model, runModel, hSettings, hAst, hBuilt,
              hSome]
          refine
            ⟨faults.map Failure.ofModelFault, ?_, ?_, ?_, ?_⟩
          · rw [hRun]
            rfl
          · rw [hRun]
            exact hKept.report _
          · rw [hRun]
            rfl
          · rw [hRun]
            cases hFaults : faults with
            | nil => simp [hClean hFaults, Response.report]
            | cons fault rest =>
                rw [List.map_cons, hFaulty fault rest hFaults]
                rfl

/- Splitting arguments is in step. -/
theorem explodeArguments_inStep :
    explodeArguments.InStep input := by
  apply inStep_of_quiet (prepareSpace_inStep _)
  · exact fun _ _ _ => rfl
  · intro r response logger
    simp only [explodeArguments, runExplode]
    repeat' split
    all_goals exact ⟨rfl, rfl, rfl⟩

/- Replacing sections is in step. -/
theorem regroup_inStep : regroup.InStep input := by
  apply inStep_of_quiet (prepareSpace_inStep _)
  · exact fun _ _ _ => rfl
  · intro r response logger
    simp only [regroup, runRegroup]
    repeat' split
    all_goals exact ⟨rfl, rfl, rfl⟩

/- Deriving relations is in step. -/
theorem derive_inStep : derive.InStep input := by
  apply inStep_of_quiet prepareNothing_inStep
  · exact fun _ _ _ => rfl
  · intro r response logger
    simp only [derive, runDerive]
    repeat' split
    all_goals exact ⟨rfl, rfl, rfl⟩

------------------------------------------------------------
-- Maps
------------------------------------------------------------

/- Selecting elements is in step. -/
theorem preselection_inStep : preselection.InStep input := by
  apply inStep_of_quiet prepareNothing_inStep
  · exact fun _ _ _ => rfl
  · intro r response logger
    simp only [preselection, runPreselection]
    cases response.model <;> exact ⟨rfl, rfl, rfl⟩

/- Narrowing a selection down is quiet. -/
theorem runNarrowing_quiet
    {σ : Type}
    (name : String)
    (space : SettingsSpace σ)
    (narrow :
      Model → Selection → σ → Selection.Filters →
        Model × Selection)
    (r : Request)
    (response : Response)
    (logger : Logger) :
    RunQuiet response
      (runNarrowing name space narrow r response logger) := by
  unfold runNarrowing
  cases r.settings space with
  | error failure => exact ⟨rfl, rfl, rfl⟩
  | ok settings =>
      cases response.selection <;> cases response.model <;>
        exact ⟨rfl, rfl, rfl⟩

/- Choosing the classes of a map is in step. -/
theorem statementSelection_inStep :
    statementSelection.InStep input :=
  inStep_of_quiet (prepareSpace_inStep _) (fun _ _ _ => rfl)
    (runNarrowing_quiet "statement-selection"
      SettingsSpace.statements Selection.narrowStatements)

/- Choosing the arguments of a map is in step. -/
theorem argumentSelection_inStep :
    argumentSelection.InStep input :=
  inStep_of_quiet (prepareSpace_inStep _) (fun _ _ _ => rfl)
    (runNarrowing_quiet "argument-selection"
      SettingsSpace.arguments Selection.narrowArguments)

/- Building a map is in step. -/
theorem map_inStep : map.InStep input := by
  apply inStep_of_quiet (prepareSpace_inStep _)
  · exact fun _ _ _ => rfl
  · intro r response logger
    simp only [map, runMap]
    repeat' split
    all_goals exact ⟨rfl, rfl, rfl⟩

/- Putting nodes into groups is in step. -/
theorem group_inStep : group.InStep input := by
  apply inStep_of_quiet (prepareSpace_inStep _)
  · exact fun _ _ _ => rfl
  · intro r response logger
    simp only [group, runGroup_eq]
    split <;> exact ⟨rfl, rfl, rfl⟩

/- Replacing closed groups is in step. -/
theorem closedGroup_inStep : closedGroup.InStep input := by
  apply inStep_of_quiet prepareNothing_inStep
  · exact fun _ _ _ => rfl
  · intro r response logger
    simp only [closedGroup, runClosedGroup]
    cases response.map <;> exact ⟨rfl, rfl, rfl⟩

------------------------------------------------------------
-- Output
------------------------------------------------------------

/- Coloring is in step. -/
theorem color_inStep : color.InStep input := by
  apply inStep_of_quiet (prepareSpace_inStep _)
  · exact fun _ _ _ => rfl
  · intro r response logger
    simp only [color, runColor]
    repeat' split
    all_goals exact ⟨rfl, rfl, rfl⟩

/- Writing maps is in step. -/
theorem dotExport_inStep : dotExport.InStep input := by
  apply inStep_of_quiet (prepareSpace_inStep _)
  · exact fun _ _ _ => rfl
  · intro r response logger
    simp only [dotExport, runDotExport]
    repeat' split
    all_goals exact ⟨rfl, rfl, rfl⟩

/- Writing models is in step. -/
theorem jsonExport_inStep : jsonExport.InStep input := by
  apply inStep_of_quiet (prepareSpace_inStep _)
  · exact fun _ _ _ => rfl
  · intro r response logger
    simp only [jsonExport, runJsonExport]
    repeat' split
    all_goals exact ⟨rfl, rfl, rfl⟩

end Plugin

------------------------------------------------------------
-- Runs
------------------------------------------------------------

namespace Application

/- The plugins of a stage are in step. -/
theorem standard_inStep
    [YamlReader]
    {input : String}
    (hSilent :
      Silent (Document.read input).document.frontMatter)
    (s : Stage) :
    ∀ p ∈ standard.plugins s, p.InStep input := by
  have hBuiltIn : ∀ entry ∈ Plugin.builtIn,
      entry.1.InStep input := by
    simp only [Plugin.builtIn, List.forall_mem_cons]
    exact
      ⟨Plugin.parser_inStep hSilent, Plugin.data_inStep,
        Plugin.model_inStep, Plugin.explodeArguments_inStep,
        Plugin.regroup_inStep, Plugin.derive_inStep,
        Plugin.preselection_inStep,
        Plugin.statementSelection_inStep,
        Plugin.argumentSelection_inStep, Plugin.map_inStep,
        Plugin.group_inStep, Plugin.closedGroup_inStep,
        Plugin.color_inStep, Plugin.dotExport_inStep,
        Plugin.jsonExport_inStep, by simp⟩
  intro p hp
  exact hBuiltIn (p, s) (standard_plugins hp)

/-
  A request whose failures do not end the run always gets a
  response.  The same request whose failures do gets the first
  of the failures that this response lists, or else the same
  response.  The front matter may not change the policy.
-/
theorem throwing_gives_first_exception
    [YamlReader]
    (mode : RunMode)
    (r : Request)
    (hGoesOn : r.throwExceptions = false)
    (hRunning : r.isCancelled = false)
    (hSeparate : r.IsSeparate)
    (hResolve : ∃ ss, standard.resolve r = .ok ss)
    (hFrontMatter : ∀ fields,
      (Document.read (r.input.getD "")).document.frontMatter =
          some fields →
        Record.get? fields "throwExceptions" = none) :
    ∃ response,
      (standard.run mode r).result = .ok response ∧
        (standard.run mode
            { r with throwExceptions := true }).result =
          match response.exceptions with
          | [] => .ok response
          | failure :: _ => .error failure := by
  rcases hResolve with ⟨ss, hResolve⟩
  have hLenient :
      Lenient (r.input.getD "") r Response.empty := by
    refine ⟨hGoesOn, hRunning, rfl, hSeparate, ?_⟩
    intro fields hFields
    cases hFields
  exact
    run_policies (standard_inStep hFrontMatter) mode hLenient
      hResolve

section

open scoped Yaml

/- The process that builds models, if it is not redefined. -/
theorem standard_resolve_buildModel
    {r : Request}
    (hProcess : r.process = some (.named "build-model"))
    (hOwn : r.processes = []) :
    standard.resolve r = .ok [.parseInput, .buildModel] := by
  simp only [resolve, chosenStages, process?, plugins, hProcess,
    hOwn, standard_registry, standard_processes]
  rfl

open scoped Toml in
/-
  A relation without an element above it is a fault, and the
  front matter before it leaves the policy alone.
-/
theorem throwing_gives_first_exception_orphan :
    ∃ r,
      Request.ofToml?
          ("process = \"build-model\"\ninput = \"\"\"\n" ++
            "===\nselectedTags: [a]\n===\n\n  + [B]\"\"\"") =
          some r ∧
        r.IsSeparate ∧
          ∃ response,
            (standard.run .blocking r).result = .ok response ∧
              (standard.run .blocking
                  { r with throwExceptions := true }).result =
                match response.exceptions with
                | [] => .ok response
                | failure :: _ => .error failure := by
  let r : Request :=
    { Request.empty with
      input := some "===\nselectedTags: [a]\n===\n\n  + [B]"
      process := some (.named "build-model") }
  have hRead :
      Request.ofToml?
          ("process = \"build-model\"\ninput = \"\"\"\n" ++
            "===\nselectedTags: [a]\n===\n\n  + [B]\"\"\"") =
        some r := by
    cbv
  have hSilent :
      Silent
        (Document.read (r.input.getD "")).document.frontMatter :=
    by decide +kernel
  have hSeparate : r.IsSeparate :=
    Request.isSeparate_of_ofToml? hRead
  exact
    ⟨r, hRead, hSeparate,
      throwing_gives_first_exception .blocking r rfl rfl
        hSeparate ⟨_, standard_resolve_buildModel rfl rfl⟩
        hSilent⟩

/-
  A configured space has the name of the field for the policy,
  so that front matter that does not speak of the policy
  changes it: the run fails although its request would have
  failures listed.
-/
theorem lenient_run_fails_shadowed :
    let r : Request :=
      Request.configure
        { Request.empty with
          input := some "===\nfoo: 1\n===\n\n[A]: a\n  = <B>"
          process := some (.named "build-model") }
        "throwExceptions" (.flag true)
    r.throwExceptions = false ∧
      r.isCancelled = false ∧
      (∃ ss, standard.resolve r = .ok ss) ∧
      (∀ fields,
        (Document.read (r.input.getD "")).document.frontMatter =
            some fields →
          Record.get? fields "throwExceptions" = none) ∧
      ∃ failure,
        (standard.run .blocking r).result = .error failure := by
  intro r
  have hSilent :
      Silent
        (Document.read (r.input.getD "")).document.frontMatter :=
    by decide +kernel
  have hFails :
      (standard.run .blocking r).result.toOption.isNone =
        true := by decide +kernel
  refine
    ⟨rfl, rfl, ⟨_, standard_resolve_buildModel rfl rfl⟩,
      hSilent, ?_⟩
  cases hResult : (standard.run .blocking r).result with
  | error failure => exact ⟨failure, rfl⟩
  | ok response =>
      rw [hResult] at hFails
      cases hFails

end

end Application

end Dialectic
