import Dialectic.Pipeline.Application
import Dialectic.Proofs.Pipeline.Overlay
import Dialectic.Proofs.Pipeline.Running

/-
  A run that ends with the first failure and one that goes on
  do the same until then.

  Key definitions include:
    * `Running.Lenient`
    * `Running.InStep`
    * `Plugin.PreparesInStep`
    * `Plugin.InStep`

  Main theorems:
    * `Running.inStep_bind`
    * `Running.inStep_run`
    * `Application.run_policies`
-/

namespace Dialectic

------------------------------------------------------------
-- Lenient Runs
------------------------------------------------------------

/- Front matter does not say whether failures end the run. -/
def Silent (frontMatter : Option Record) : Prop :=
  ∀ fields, frontMatter = some fields →
    Record.get? fields "throwExceptions" = none

instance : (frontMatter : Option Record) →
    Decidable (Silent frontMatter)
| none => .isTrue (fun _ hNone => by cases hNone)
| some fields =>
    decidable_of_iff
      ((Record.get? fields "throwExceptions").isNone = true)
      (by simp [Silent])

/- The same state of a run that ends with the first failure. -/
def RunState.throwing (s : RunState) : RunState :=
  { s with request := s.request.throwing }

namespace Running

/-
  What holds all along a run that goes on after failures.  The
  front matter that it meets is that of its input.
-/
structure Lenient
    (input : String)
    (r : Request)
    (response : Response) : Prop where
  goesOn : r.throwExceptions = false
  running : r.isCancelled = false
  text : r.input.getD "" = input
  separate : r.IsSeparate
  silent : Silent response.frontMatter

/-
  A part of a run that is in step under both policies.  Going
  on, it lists the failures that it finds; else it ends with
  the first of them, or does the same.
-/
def InStep
    {α : Type}
    (input : String)
    (x : Running α) : Prop :=
  ∀ s : RunState, Lenient input s.request s.response →
    ∃ a t found,
      x s = (.ok a, t) ∧
        Lenient input t.request t.response ∧
        t.response.exceptions =
          s.response.exceptions ++ found ∧
        match found with
        | [] => x s.throwing = (.ok a, t.throwing)
        | failure :: _ =>
            ∃ u, x s.throwing = (.error failure, u)

variable {input : String}

------------------------------------------------------------
-- Composition
------------------------------------------------------------

/- A part that does nothing is in step. -/
theorem inStep_pure {α : Type} (a : α) :
    InStep input (pure a) := by
  intro s hLenient
  exact ⟨a, s, [], rfl, hLenient, by simp, rfl⟩

/-
  Two parts in step are so one after the other: failures of
  the first one come before those of the second one.
-/
theorem inStep_bind
    {α β : Type}
    {x : Running α}
    {f : α → Running β}
    (hFirst : InStep input x)
    (hSecond : ∀ a s t,
      x s = (.ok a, t) → InStep input (f a)) :
    InStep input (x >>= f) := by
  intro s hLenient
  rcases hFirst s hLenient with
    ⟨a, t, found, hRun, hNext, hListed, hThrows⟩
  rcases hSecond a s t hRun t hNext with
    ⟨b, u, more, hRunRest, hLast, hListedRest, hThrowsRest⟩
  refine ⟨b, u, found ++ more, ?_, hLast, ?_, ?_⟩
  · rw [bind_apply_ok hRun, hRunRest]
  · rw [hListedRest, hListed, List.append_assoc]
  · cases found with
    | nil =>
        rw [bind_apply_ok hThrows]
        exact hThrowsRest
    | cons failure found =>
        rcases hThrows with ⟨u, hThrows⟩
        exact ⟨u, bind_apply_error hThrows⟩

/-
  A part that looks at the state is in step if it looks only
  at what both policies have in common.
-/
theorem inStep_get
    {α β : Type}
    (look : RunState → β)
    {f : β → Running α}
    (hCommon : ∀ s, look s.throwing = look s)
    (hRest : ∀ s : RunState,
      Lenient input s.request s.response →
        InStep input (f (look s))) :
    InStep input (do f (look (← get))) := by
  intro s hLenient
  have hGet : ∀ t : RunState,
      (do f (look (← get)) : Running α) t =
        f (look t) t := fun _ => rfl
  rcases hRest s hLenient s hLenient with
    ⟨a, t, found, hRun, hNext, hListed, hThrows⟩
  refine ⟨a, t, found, ?_, hNext, hListed, ?_⟩
  · rw [hGet, hRun]
  · rw [hGet, hCommon]
    exact hThrows

------------------------------------------------------------
-- Failures
------------------------------------------------------------

/- What was produced may be replaced by what has come of it. -/
theorem Lenient.report
    {r : Request}
    {response : Response}
    (hLenient : Lenient input r response)
    (failures : List Failure) :
    Lenient input r (response.report failures) :=
  ⟨hLenient.goesOn, hLenient.running, hLenient.text,
    hLenient.separate, hLenient.silent⟩

/- Meeting a failure is in step. -/
theorem inStep_fail (plugin : String) (failure : Failure) :
    InStep input (fail plugin failure) := by
  intro s hLenient
  refine
    ⟨(),
      { s with
        response := s.response.report [failure]
        logs :=
          s.logs ++ failureEntries s.request plugin failure },
      [failure], ?_, hLenient.report _, rfl, s.throwing, ?_⟩
  · simp [fail, hLenient.goesOn]
  · simp [fail, RunState.throwing, Request.throwing]

/- Meeting a failure, if there is one, is in step. -/
theorem inStep_failIf
    (plugin : String)
    (failure : Option Failure) :
    InStep input (failIf plugin failure) := by
  cases failure with
  | none => exact inStep_pure false
  | some failure =>
      exact inStep_bind (inStep_fail plugin failure)
        (fun _ _ _ _ => inStep_pure true)

/- A failure ends a run that is to end with the first one. -/
theorem failIf_of_throws
    (plugin : String)
    {failure : Failure}
    {s : RunState}
    (hThrows : s.request.throwExceptions = true) :
    failIf plugin (some failure) s = (.error failure, s) := by
  rw [failIf_some_apply, if_pos hThrows]

end Running

------------------------------------------------------------
-- Plugins
------------------------------------------------------------

/- A hook that prepares the same under both policies. -/
def Plugin.PreparesInStep
    (input : String)
    (prepare : Request → Response → PrepareOutcome) : Prop :=
  ∀ r response, Running.Lenient input r response →
    Running.Lenient input (prepare r response).request
        response ∧
      prepare r.throwing response =
        ⟨(prepare r response).request.throwing,
          (prepare r response).failure⟩

/-
  A plugin whose hooks are in step.  To prepare, it does the
  same under both policies.  To run, it lists the failures
  that it finds itself, or else fails with the first of them.
-/
structure Plugin.InStep (input : String) (p : Plugin) :
    Prop where
  prepare : Plugin.PreparesInStep input p.prepare
  run : ∀ r response logger,
    Running.Lenient input r response →
      ∃ found,
        (p.run r response logger).response.exceptions =
            response.exceptions ++ found ∧
          Running.Lenient input r
            (p.run r response logger).response ∧
          (p.run r response logger).cancels = false ∧
          match found with
          | [] =>
              p.run r.throwing response logger =
                p.run r response logger
          | failure :: _ =>
              (p.run r.throwing response logger).failure =
                some failure

namespace Running

variable {input : String}

/- Letting a plugin prepare is in step. -/
theorem inStep_prepareOne
    {p : Plugin}
    (hPlugin : p.InStep input) :
    InStep input (prepareOne p) := by
  by_cases hPrepares : p.capabilities.prepare = true
  · intro s hLenient
    rcases hPlugin.prepare _ _ hLenient with
      ⟨hNext, hSame⟩
    have hRest : InStep input
        (failIf p.name (p.prepare s.request s.response).failure
          >>= fun failed =>
            (pure (p.capabilities.run && !failed) :
              Running Bool)) :=
      inStep_bind (inStep_failIf _ _)
        (fun _ _ _ _ => inStep_pure _)
    rcases hRest
        { s with
          request := (p.prepare s.request s.response).request
          logs :=
            s.logs ++
              Logger.log ⟨s.request.logLevel, p.name⟩ .verbose
                "preparing" }
        hNext with
      ⟨a, t, found, hRun, hLast, hListed, hThrows⟩
    refine ⟨a, t, found, ?_, hLast, hListed, ?_⟩
    · rw [prepareOne_apply hPrepares, hRun]
    · rw [prepareOne_apply hPrepares]
      simpa only [RunState.throwing, hSame,
        Request.throwing_logLevel] using hThrows
  · rw [prepareOne_eq_pure hPrepares]
    exact inStep_pure _

/- Letting plugins prepare is in step. -/
theorem inStep_prepareAll
    {plugins : List Plugin}
    (hPlugins : ∀ p ∈ plugins, p.InStep input) :
    InStep input (prepareAll plugins) := by
  induction plugins with
  | nil => exact inStep_pure []
  | cons p plugins ih =>
      apply inStep_bind
        (inStep_prepareOne (hPlugins p (by simp)))
      intro runs _ _ _
      apply inStep_bind
        (ih (fun q hq => hPlugins q (by simp [hq])))
      intro rest _ _ _
      exact inStep_pure _

/-
  What a plugin does is in step, also if it may not run: under
  both policies it lacks the same fields.
-/
theorem outcome_inStep
    {p : Plugin}
    (hPlugin : p.InStep input)
    (mode : RunMode)
    (level : LogLevel)
    {s : RunState}
    (hLenient : Lenient input s.request s.response) :
    ∃ found,
      (outcome mode p level s).response.exceptions =
          s.response.exceptions ++ found ∧
        Lenient input s.request
          (outcome mode p level s).response ∧
        (outcome mode p level s).cancels = false ∧
        match found with
        | [] =>
            outcome mode p level s.throwing =
              outcome mode p level s
        | failure :: _ =>
            (outcome mode p level s.throwing).failure =
              some failure := by
  have hResponse : s.throwing.response = s.response := rfl
  simp only [outcome_eq, hResponse]
  cases refusal? mode p s.response with
  | some failure =>
      exact ⟨[], by simp [RunOutcome.failed], hLenient, rfl, rfl⟩
  | none => exact hPlugin.run _ _ _ hLenient

/- Letting a plugin run is in step. -/
theorem inStep_runOne
    {p : Plugin}
    (hPlugin : p.InStep input)
    (mode : RunMode)
    (level : LogLevel) :
    InStep input (runOne mode level p) := by
  intro s hLenient
  rcases outcome_inStep hPlugin mode level hLenient with
    ⟨found, hFound, hKept, hCancels, hSame⟩
  have hSettled :
      Lenient input
        (s.settle (outcome mode p level s)).request
        (s.settle (outcome mode p level s)).response :=
    ⟨hLenient.goesOn,
      by simp [RunState.settle, hLenient.running, hCancels],
      hLenient.text, hLenient.separate, hKept.silent⟩
  have hRest : InStep input
      (failIf p.name (outcome mode p level s).failure
        >>= fun _ => (pure () : Running Unit)) :=
    inStep_bind (inStep_failIf _ _)
      (fun _ _ _ _ => inStep_pure ())
  rcases hRest _ hSettled with
    ⟨a, t, more, hRun, hLast, hListed, hThrows⟩
  refine ⟨a, t, found ++ more, hRun, hLast, ?_, ?_⟩
  · rw [hListed]
    simp only [RunState.settle]
    rw [hFound, List.append_assoc]
  · cases found with
    | nil =>
        rw [runOne_apply, hSame]
        exact hThrows
    | cons failure found =>
        rw [runOne_apply, hSame]
        exact ⟨_, bind_apply_error (failIf_of_throws _ rfl)⟩

/- Letting plugins run is in step. -/
theorem inStep_runAll
    {plugins : List Plugin}
    (hPlugins : ∀ p ∈ plugins, p.InStep input)
    (mode : RunMode)
    (level : LogLevel) :
    InStep input (runAll mode level plugins) := by
  induction plugins with
  | nil =>
      rw [runAll_nil]
      exact inStep_pure ()
  | cons p plugins ih =>
      rw [runAll_cons]
      apply inStep_bind
        (inStep_runOne (hPlugins p (by simp)) mode level)
      intro _ _ _ _
      exact ih (fun q hq => hPlugins q (by simp [hq]))

------------------------------------------------------------
-- Stages
------------------------------------------------------------

/- Telling something is in step. -/
theorem inStep_tell (event : RunEvent) :
    InStep input (tell event) := by
  intro s hLenient
  exact
    ⟨(), { s with events := s.events ++ [event] }, [], rfl,
      hLenient, by simp, rfl⟩

/- Entering a stage is in step, for no run was cancelled. -/
theorem inStep_beginStage (s : Stage) (plugins : List Plugin) :
    InStep input (beginStage s plugins) := by
  refine
    inStep_get (fun s => s.request.isCancelled)
      (f := fun cancelled =>
        if cancelled = true then do
          tell (.cancelled s)
          abort (.cancelled s.name)
        else tell (.entering s plugins.length))
      (fun _ => rfl) ?_
  intro state hLenient
  rw [hLenient.running]
  exact inStep_tell _

/- A stage whose plugins are in step is so. -/
theorem inStep_stage
    {plugins : List Plugin}
    (hPlugins : ∀ p ∈ plugins, p.InStep input)
    (mode : RunMode)
    (s : Stage) :
    InStep input (stage mode s plugins) := by
  apply inStep_bind (inStep_beginStage s plugins)
  intro _ _ _ _
  apply inStep_bind (inStep_prepareAll hPlugins)
  intro ready _ _ hReady
  refine
    inStep_get (fun s => s.request.logLevel)
      (f := fun level => runAll mode level ready)
      (fun _ => rfl) ?_
  intro state _
  exact
    inStep_runAll
      (fun p hp =>
        hPlugins p (prepareAll_subset hReady p hp))
      mode _

/- Stages whose plugins are in step are so. -/
theorem inStep_stages
    {pluginsOf : Stage → List Plugin}
    (hPlugins : ∀ s, ∀ p ∈ pluginsOf s, p.InStep input)
    (mode : RunMode)
    (ss : List Stage) :
    InStep input (stages mode pluginsOf ss) := by
  induction ss with
  | nil =>
      rw [stages_nil]
      exact inStep_pure ()
  | cons s ss ih =>
      rw [stages_cons]
      apply inStep_bind (inStep_stage (hPlugins s) mode s)
      intro _ _ _ _
      exact ih

/- A whole run whose plugins are in step is so. -/
theorem inStep_run
    {pluginsOf : Stage → List Plugin}
    (hPlugins : ∀ s, ∀ p ∈ pluginsOf s, p.InStep input)
    (mode : RunMode)
    (ss : List Stage) :
    InStep input (run mode pluginsOf ss) := by
  rw [run_eq]
  apply inStep_bind (inStep_tell _)
  intro _ _ _ _
  apply inStep_bind (inStep_stages hPlugins mode ss)
  intro _ _ _ _
  exact
    inStep_get (fun s => s.response.exceptions.length)
      (f := fun count => tell (.finished count))
      (fun _ => rfl) (fun _ _ => inStep_tell _)

end Running

------------------------------------------------------------
-- Runs
------------------------------------------------------------

namespace Application

/- The stages of a request do not depend on its policy. -/
theorem resolve_throwing (app : Application) (r : Request) :
    app.resolve r.throwing = app.resolve r :=
  rfl

/-
  A run whose plugins are in step gives a response if it goes
  on after failures.  Else it ends with the first failure of
  that response, or gives the same one.
-/
theorem run_policies
    {app : Application}
    {input : String}
    (hPlugins : ∀ s, ∀ p ∈ app.plugins s, p.InStep input)
    (mode : RunMode)
    {r : Request}
    (hLenient : Running.Lenient input r Response.empty)
    {ss : List Stage}
    (hResolve : app.resolve r = .ok ss) :
    ∃ response,
      (app.run mode r).result = .ok response ∧
        (app.run mode r.throwing).result =
          match response.exceptions with
          | [] => .ok response
          | failure :: _ => .error failure := by
  rcases Running.inStep_run hPlugins mode ss (.start r)
      hLenient with
    ⟨_, t, found, hRun, _, hListed, hThrows⟩
  have hFound : t.response.exceptions = found := by
    simpa [RunState.start, Response.empty] using hListed
  have hStart :
      (RunState.start r).throwing = .start r.throwing := rfl
  rw [hStart] at hThrows
  refine ⟨t.response, ?_, ?_⟩
  · simp [run_eq, hResolve, hRun, Report.ofEnd, Except.map]
  · rw [hFound]
    cases found with
    | nil =>
        simp [run_eq, resolve_throwing, hResolve, hThrows,
          Report.ofEnd, Except.map, RunState.throwing]
    | cons failure found =>
        rcases hThrows with ⟨u, hThrows⟩
        simp [run_eq, resolve_throwing, hResolve, hThrows,
          Report.ofEnd, Except.map]

end Application

end Dialectic
