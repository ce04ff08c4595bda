import Dialectic.Pipeline.Application
import Dialectic.Proofs.Pipeline.Running

/-
  What holds all along a run that does not end with a failure.

  Key definitions include:
    * `Running.Stable`
    * `Running.Leads`
    * `Plugin.Keeps`

  Main theorems:
    * `Running.leads_prepareOne`
    * `Running.outcome_response`
    * `Running.leads_runOne`
    * `Running.prepareOne_ready`
    * `Running.leads_runAll_cons`
    * `Running.stage_ok`
    * `Running.leads_stage`
    * `Application.run_invariant`
-/

namespace Dialectic

namespace Running

------------------------------------------------------------
-- Invariants
------------------------------------------------------------

/- Listing failures and cancelling do not matter. -/
structure Stable (I : Request → Response → Prop) : Prop where
  report : ∀ r response failures,
    I r response → I r (response.report failures)
  cancel : ∀ r response isCancelled,
    I r response →
      I { r with isCancelled := isCancelled } response

/- A part of a run that leads from one state to another. -/
def Leads
    {α : Type}
    (I J : Request → Response → Prop)
    (x : Running α) : Prop :=
  ∀ s a t,
    I s.request s.response →
      x s = (.ok a, t) → J t.request t.response

variable {I J K : Request → Response → Prop}

/- A part that does nothing leads nowhere else. -/
theorem leads_pure {α : Type} (a : α) :
    Leads I I (pure a) := by
  intro s b t hStart hRun
  rw [(pure_ok hRun).2]
  exact hStart

/- Two parts lead on one after the other. -/
theorem leads_bind
    {α β : Type}
    {x : Running α}
    {f : α → Running β}
    (hFirst : Leads I J x)
    (hSecond : ∀ a, Leads J K (f a)) :
    Leads I K (x >>= f) := by
  intro s b u hStart hRun
  rcases bind_ok hRun with ⟨a, t, hPart, hRest⟩
  exact hSecond a t b u (hFirst s a t hStart hPart) hRest

/- Meeting a failure keeps what is stable. -/
theorem leads_failIf
    (hStable : Stable I)
    (plugin : String)
    (failure : Option Failure) :
    Leads I I (failIf plugin failure) := by
  cases failure with
  | none => exact leads_pure false
  | some failure =>
      refine leads_bind (J := I) ?_ (fun _ => leads_pure true)
      intro s a t hStart hRun
      unfold fail at hRun
      split at hRun
      · cases hRun
      · cases hRun
        exact hStable.report _ _ _ hStart

------------------------------------------------------------
-- Hooks
------------------------------------------------------------

/- Letting a plugin prepare leads where its hook leads. -/
theorem leads_prepareOne
    (hStable : Stable J)
    {p : Plugin}
    (hPrepares : p.capabilities.prepare = true)
    (hHook : ∀ r response,
      I r response →
        J (p.prepare r response).request response) :
    Leads I J (prepareOne p) := by
  intro s a t hStart hRun
  rw [prepareOne_apply hPrepares] at hRun
  have hRest : Leads J J
      (failIf p.name (p.prepare s.request s.response).failure
        >>= fun failed =>
          (pure (p.capabilities.run && !failed) :
            Running Bool)) :=
    leads_bind (leads_failIf hStable _ _)
      (fun _ => leads_pure _)
  exact hRest _ a t (hHook _ _ hStart) hRun

/-
  A plugin that need not wait leads where its hook leads, or,
  if it lacks a field of the response, where this leads.
-/
theorem outcome_response
    (mode : RunMode)
    (level : LogLevel)
    {p : Plugin}
    (hDirect : p.isAsync = false)
    {s : RunState}
    {P : Response → Prop}
    (hMissing : ∀ field ∈ p.requires,
      s.response.has field = false → P s.response)
    (hHook :
      P (p.run s.request s.response ⟨level, p.name⟩).response) :
    P (outcome mode p level s).response := by
  rw [outcome_eq, refusal?_of_direct mode hDirect]
  cases hField : p.missingField? s.response with
  | some failure =>
      rcases Option.map_eq_some_iff.mp hField with
        ⟨field, hFound, _⟩
      apply hMissing field (List.mem_of_find?_eq_some hFound)
      simpa using List.find?_some hFound
  | none => exact hHook

/- Letting a plugin run leads where its outcome leads. -/
theorem leads_runOne
    (hStable : Stable J)
    {mode : RunMode}
    {level : LogLevel}
    {p : Plugin}
    (hOutcome : ∀ s : RunState,
      I s.request s.response →
        J s.request (outcome mode p level s).response) :
    Leads I J (runOne mode level p) := by
  intro s a t hStart hRun
  rw [runOne_apply] at hRun
  have hRest : Leads J J
      (failIf p.name (outcome mode p level s).failure
        >>= fun _ => (pure () : Running Unit)) :=
    leads_bind (leads_failIf hStable _ _)
      (fun _ => leads_pure _)
  refine hRest _ a t ?_ hRun
  exact hStable.cancel s.request _ _ (hOutcome s hStart)

end Running

------------------------------------------------------------
-- Plugins
------------------------------------------------------------

/- A plugin whose hooks keep an invariant. -/
structure Plugin.Keeps
    (I : Request → Response → Prop)
    (p : Plugin) : Prop where
  prepare : ∀ r response,
    I r response → I (p.prepare r response).request response
  run : ∀ r response logger,
    I r response → I r (p.run r response logger).response

namespace Running

variable {I : Request → Response → Prop}

/- Letting a plugin prepare keeps its invariant. -/
theorem leads_prepareOne_of_keeps
    (hStable : Stable I)
    {p : Plugin}
    (hKeeps : p.Keeps I) :
    Leads I I (prepareOne p) := by
  by_cases hPrepares : p.capabilities.prepare = true
  · exact leads_prepareOne hStable hPrepares hKeeps.prepare
  · rw [prepareOne_eq_pure hPrepares]
    exact leads_pure _

/- Letting plugins prepare keeps their invariant. -/
theorem leads_prepareAll
    (hStable : Stable I)
    {plugins : List Plugin}
    (hKeeps : ∀ p ∈ plugins, p.Keeps I) :
    Leads I I (prepareAll plugins) := by
  induction plugins with
  | nil => exact leads_pure []
  | cons p plugins ih =>
      refine
        leads_bind
          (leads_prepareOne_of_keeps hStable
            (hKeeps p (by simp))) ?_
      intro runs
      exact
        leads_bind (ih (fun q hq => hKeeps q (by simp [hq])))
          (fun rest => leads_pure _)

/- Letting a plugin run keeps its invariant. -/
theorem leads_runOne_of_keeps
    (hStable : Stable I)
    (mode : RunMode)
    (level : LogLevel)
    {p : Plugin}
    (hKeeps : p.Keeps I) :
    Leads I I (runOne mode level p) := by
  apply leads_runOne hStable
  intro s hStart
  rw [outcome_eq]
  split
  · exact hStart
  · exact hKeeps.run _ _ _ hStart

/- Without plugins a run leads nowhere else. -/
theorem leads_runAll_nil (mode : RunMode) (level : LogLevel) :
    Leads I I (runAll mode level []) := by
  rw [runAll_nil]
  exact leads_pure ()

/- Letting plugins run keeps their invariant. -/
theorem leads_runAll
    (hStable : Stable I)
    (mode : RunMode)
    (level : LogLevel)
    {plugins : List Plugin}
    (hKeeps : ∀ p ∈ plugins, p.Keeps I) :
    Leads I I (runAll mode level plugins) := by
  induction plugins with
  | nil => exact leads_runAll_nil mode level
  | cons p plugins ih =>
      rw [runAll_cons]
      exact
        leads_bind
          (leads_runOne_of_keeps hStable mode level
            (hKeeps p (by simp)))
          (fun _ => ih (fun q hq => hKeeps q (by simp [hq])))

------------------------------------------------------------
-- Plugins That Are Ready
------------------------------------------------------------

/- What is met, if anything, tells whether there is a failure. -/
theorem failIf_ok
    {plugin : String}
    {failure : Option Failure}
    {s t : RunState}
    {failed : Bool}
    (hRun : failIf plugin failure s = (.ok failed, t)) :
    failed = failure.isSome := by
  cases failure with
  | none => exact (pure_ok hRun).1
  | some failure =>
      rcases bind_ok hRun with ⟨_, _, _, hRest⟩
      exact (pure_ok hRest).1

/- A plugin may run if its hook has not failed. -/
theorem prepareOne_ready
    {p : Plugin}
    (hBoth : p.capabilities = .both)
    {s t : RunState}
    {runs : Bool}
    (hRun : prepareOne p s = (.ok runs, t)) :
    runs =
      (p.prepare s.request s.response).failure.isNone := by
  rw [prepareOne_apply (by rw [hBoth]; rfl)] at hRun
  rcases bind_ok hRun with ⟨failed, _, hFailed, hRest⟩
  rw [(pure_ok hRest).1, failIf_ok hFailed, hBoth]
  simp [Capabilities.both]

/- The plugins that are ready after the first one. -/
theorem prepareAll_cons_ok
    {p : Plugin}
    {plugins ready : List Plugin}
    {s u : RunState}
    (hRun : prepareAll (p :: plugins) s = (.ok ready, u)) :
    ∃ runs t rest,
      prepareOne p s = (.ok runs, t) ∧
        prepareAll plugins t = (.ok rest, u) ∧
        ready = if runs then p :: rest else rest := by
  rcases bind_ok hRun with ⟨runs, t, hFirst, hRest⟩
  rcases bind_ok hRest with ⟨rest, v, hLater, hLast⟩
  rcases pure_ok hLast with ⟨hReady, hSame⟩
  rw [← hSame] at hLater
  exact ⟨runs, t, rest, hFirst, hLater, hReady⟩

/- A plugin that may not be ready leads on in both cases. -/
theorem leads_runAll_cons
    {J K : Request → Response → Prop}
    {mode : RunMode}
    {level : LogLevel}
    {runs : Bool}
    {p : Plugin}
    {rest : List Plugin}
    (hRuns : runs = true → Leads I J (runOne mode level p))
    (hSkipped : runs = false → ∀ r response,
      I r response → J r response)
    (hRest : Leads J K (runAll mode level rest)) :
    Leads I K
      (runAll mode level (if runs then p :: rest else rest)) := by
  cases runs with
  | true =>
      rw [if_pos rfl, runAll_cons]
      exact leads_bind (hRuns rfl) (fun _ => hRest)
  | false =>
      intro s a t hStart hRun
      exact hRest s a t (hSkipped rfl _ _ hStart) hRun

------------------------------------------------------------
-- Stages
------------------------------------------------------------

/- A stage that is entered changes nothing by itself. -/
theorem beginStage_ok
    {stage : Stage}
    {plugins : List Plugin}
    {s t : RunState}
    {a : Unit}
    (hRun : beginStage stage plugins s = (.ok a, t)) :
    t.request = s.request ∧ t.response = s.response := by
  rw [beginStage_apply] at hRun
  split at hRun
  · cases hRun
  · cases hRun
    exact ⟨rfl, rfl⟩

/- In a stage all plugins prepare, then those ready run. -/
theorem stage_ok
    {mode : RunMode}
    {stage : Stage}
    {plugins : List Plugin}
    {s u : RunState}
    {a : Unit}
    (hRun : Running.stage mode stage plugins s = (.ok a, u)) :
    ∃ entered ready t level,
      (entered.request = s.request ∧
          entered.response = s.response) ∧
        prepareAll plugins entered = (.ok ready, t) ∧
        runAll mode level ready t = (.ok a, u) := by
  rcases bind_ok hRun with ⟨_, entered, hBegin, hRest⟩
  rcases bind_ok hRest with ⟨ready, t, hPrepare, hRest⟩
  rcases bind_ok hRest with ⟨_, _, hGet, hRest⟩
  cases hGet
  exact
    ⟨entered, ready, t, _, beginStage_ok hBegin, hPrepare,
      hRest⟩

/- A stage keeps the invariant of its plugins. -/
theorem leads_stage
    (hStable : Stable I)
    (mode : RunMode)
    (stage : Stage)
    {plugins : List Plugin}
    (hKeeps : ∀ p ∈ plugins, p.Keeps I) :
    Leads I I (Running.stage mode stage plugins) := by
  intro s a u hStart hRun
  rcases stage_ok hRun with
    ⟨entered, ready, t, level, hSame, hPrepare, hRest⟩
  rw [← hSame.1, ← hSame.2] at hStart
  refine
    leads_runAll hStable mode level ?_ t a u
      (leads_prepareAll hStable hKeeps entered ready t hStart
        hPrepare) hRest
  exact fun p hp => hKeeps p (prepareAll_subset hPrepare p hp)

/- Stages keep the invariant of each of them. -/
theorem leads_stages
    {mode : RunMode}
    {pluginsOf : Stage → List Plugin}
    (hStages : ∀ s,
      Leads I I (Running.stage mode s (pluginsOf s)))
    (ss : List Stage) :
    Leads I I (stages mode pluginsOf ss) := by
  induction ss with
  | nil =>
      rw [stages_nil]
      exact leads_pure ()
  | cons s ss ih =>
      rw [stages_cons]
      exact leads_bind (hStages s) (fun _ => ih)

/- Telling something leads nowhere else. -/
theorem leads_tell (event : RunEvent) :
    Leads I I (tell event) := by
  intro s a t hStart hRun
  cases hRun
  exact hStart

/- A whole run keeps the invariant of its stages. -/
theorem leads_run
    {mode : RunMode}
    {pluginsOf : Stage → List Plugin}
    (hStages : ∀ s,
      Leads I I (Running.stage mode s (pluginsOf s)))
    (ss : List Stage) :
    Leads I I (run mode pluginsOf ss) := by
  rw [run_eq]
  refine leads_bind (leads_tell _) (fun _ => ?_)
  refine leads_bind (leads_stages hStages ss) (fun _ => ?_)
  intro s a t hStart hRun
  rcases bind_ok hRun with ⟨_, _, hGet, hTell⟩
  cases hGet
  exact leads_tell _ s a t hStart hTell

end Running

/- A run that gives a response keeps an invariant. -/
theorem Application.run_invariant
    {app : Application}
    {I : Request → Response → Prop}
    {mode : RunMode}
    (hStages : ∀ s,
      Running.Leads I I
        (Running.stage mode s (app.plugins s)))
    {r : Request}
    (hStart : I r Response.empty)
    {response : Response}
    (hRun : (app.run mode r).result = .ok response) :
    ∃ last, I last response := by
  rw [run_eq] at hRun
  cases hResolve : app.resolve r with
  | error failure => simp [hResolve, Report.refused] at hRun
  | ok ss =>
      simp only [hResolve, Report.ofEnd] at hRun
      rcases hWhole :
        Running.run mode app.plugins ss (.start r) with
        ⟨result, t⟩
      rw [hWhole] at hRun
      cases result with
      | error failure => simp [Except.map] at hRun
      | ok a =>
          simp only [Except.map, Except.ok.injEq] at hRun
          rw [← hRun]
          exact
            ⟨t.request,
              Running.leads_run hStages ss _ a t hStart hWhole⟩

end Dialectic
