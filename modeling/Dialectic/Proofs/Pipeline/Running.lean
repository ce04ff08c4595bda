import Dialectic.Pipeline.Application

/-
  How the parts of a run follow each other, and what the two
  runners have in common.

  Key definitions include:
    * `Running.outcome`
    * `Running.runAll`
    * `Running.stages`
    * `Running.run`

  Main theorems:
    * `Running.bind_apply_ok`, `Running.bind_apply_error`
    * `Running.bind_ok`
    * `Running.prepareOne_apply`
    * `Running.prepareAll_subset`
    * `Running.outcome_eq`
    * `Running.runAll_cons`
    * `Running.stages_cons`
    * `Running.run_eq`
    * `Application.run_eq`
-/

namespace Dialectic

namespace Running

------------------------------------------------------------
-- Composition
------------------------------------------------------------

section Composition

-- whatever the state is, that of a run or one with more in it
variable {σ α β : Type} {s t u : σ}
variable {x : ExceptT Failure (StateM σ) α}
variable {f : α → ExceptT Failure (StateM σ) β}

/- What follows a part that does not fail. -/
theorem bind_apply_ok
    {a : α}
    (hFirst : x s = (.ok a, t)) :
    (x >>= f) s = f a t := by
  simp [bind, ExceptT.bind, ExceptT.mk, ExceptT.bindCont,
    StateT.bind, hFirst]

/- Nothing follows a part that fails. -/
theorem bind_apply_error
    {failure : Failure}
    (hFirst : x s = (.error failure, t)) :
    (x >>= f) s = (.error failure, t) := by
  simp only [bind, ExceptT.bind, ExceptT.mk,
    ExceptT.bindCont, StateT.bind, hFirst]
  rfl

/- If two parts do not fail together, neither does alone. -/
theorem bind_ok
    {b : β}
    (hBoth : (x >>= f) s = (.ok b, u)) :
    ∃ a t, x s = (.ok a, t) ∧ f a t = (.ok b, u) := by
  rcases hFirst : x s with ⟨result, t⟩
  cases result with
  | error failure =>
      rw [bind_apply_error hFirst] at hBoth
      cases hBoth
  | ok a =>
      rw [bind_apply_ok hFirst] at hBoth
      exact ⟨a, t, rfl, hBoth⟩

end Composition

/- A part that does nothing gives what it is to give. -/
theorem pure_ok
    {α : Type}
    {a b : α}
    {s t : RunState}
    (hRun : (pure a : Running α) s = (.ok b, t)) :
    b = a ∧ t = s := by
  cases hRun
  exact ⟨rfl, rfl⟩

------------------------------------------------------------
-- Failures
------------------------------------------------------------

/- A failure ends the run, or it is logged and listed. -/
theorem failIf_some_apply
    (plugin : String)
    (failure : Failure)
    (s : RunState) :
    failIf plugin (some failure) s =
      if s.request.throwExceptions then
        (.error failure, s)
      else
        ( .ok true,
          { s with
            response := s.response.report [failure]
            logs :=
              s.logs ++
                failureEntries s.request plugin failure } ) := by
  cases hThrows : s.request.throwExceptions with
  | true => exact bind_apply_error (by simp [fail, hThrows])
  | false => exact bind_apply_ok (by simp [fail, hThrows]; rfl)

------------------------------------------------------------
-- Hooks
------------------------------------------------------------

/- A stage is entered unless the run is cancelled. -/
theorem beginStage_apply
    (stage : Stage)
    (plugins : List Plugin)
    (s : RunState) :
    beginStage stage plugins s =
      if s.request.isCancelled then
        ( .error (.cancelled stage.name),
          { s with events := s.events ++ [.cancelled stage] } )
      else
        ( .ok (),
          { s with
            events :=
              s.events
                ++ [.entering stage plugins.length] } ) := by
  have hLook : beginStage stage plugins s =
      (if s.request.isCancelled = true then do
        tell (.cancelled stage)
        abort (.cancelled stage.name)
      else tell (.entering stage plugins.length) :
        Running Unit) s := rfl
  rw [hLook]
  split <;> rfl

/- Let a plugin prepare that has a hook for it. -/
theorem prepareOne_apply
    {p : Plugin}
    (hPrepares : p.capabilities.prepare = true)
    (s : RunState) :
    prepareOne p s =
      (failIf p.name (p.prepare s.request s.response).failure
        >>= fun failed =>
          (pure (p.capabilities.run && !failed) :
            Running Bool))
        { s with
          request := (p.prepare s.request s.response).request
          logs :=
            s.logs ++
              Logger.log ⟨s.request.logLevel, p.name⟩ .verbose
                "preparing" } := by
  unfold prepareOne
  rw [if_pos hPrepares]
  rfl

/- Let a plugin prepare that has no hook for it. -/
theorem prepareOne_eq_pure
    {p : Plugin}
    (hNot : ¬ p.capabilities.prepare = true) :
    prepareOne p = pure p.capabilities.run := by
  unfold prepareOne
  rw [if_neg hNot]

/- Plugins that may run are among those that prepared. -/
theorem prepareAll_subset
    {plugins ready : List Plugin}
    {s t : RunState}
    (hRun : prepareAll plugins s = (.ok ready, t)) :
    ∀ p ∈ ready, p ∈ plugins := by
  induction plugins generalizing ready s t with
  | nil =>
      rcases pure_ok hRun with ⟨hReady, _⟩
      simp [hReady]
  | cons p plugins ih =>
      rcases bind_ok hRun with ⟨runs, _, _, hRest⟩
      rcases bind_ok hRest with ⟨rest, _, hTail, hLast⟩
      rcases pure_ok hLast with ⟨hReady, _⟩
      intro q hq
      rw [hReady] at hq
      cases runs with
      | false =>
          exact List.mem_cons_of_mem _ (ih hTail q hq)
      | true =>
          rcases List.mem_cons.mp hq with hFirst | hRest
          · simp [hFirst]
          · exact List.mem_cons_of_mem _ (ih hTail q hRest)

------------------------------------------------------------
-- Both Runners
------------------------------------------------------------

/- What a plugin does under a runner. -/
def outcome :
    RunMode → Plugin → LogLevel → RunState → RunOutcome
| .blocking => Blocking.outcome
| .awaiting => Awaiting.outcome

/- Let plugins run under a runner. -/
def runAll : RunMode → LogLevel → List Plugin → Running Unit
| .blocking => Blocking.runAll
| .awaiting => Awaiting.runAll

/- Go through stages under a runner. -/
def stages :
    RunMode → (Stage → List Plugin) → List Stage → Running Unit
| .blocking => Blocking.stages
| .awaiting => Awaiting.stages

/- Why a runner does not begin a plugin. -/
def refusal?
    (mode : RunMode)
    (p : Plugin)
    (response : Response) : Option Failure :=
  match p.missingField? response, mode, p.isAsync with
  | some failure, _, _ => some failure
  | none, .blocking, true => some (Blocking.cannotWait p)
  | none, _, _ => none

/- A plugin that is not refused does what its hook does. -/
theorem outcome_eq
    (mode : RunMode)
    (p : Plugin)
    (level : LogLevel)
    (s : RunState) :
    outcome mode p level s =
      match refusal? mode p s.response with
      | some failure => .failed s.response failure
      | none =>
          p.run s.request s.response ⟨level, p.name⟩ := by
  cases mode with
  | blocking =>
      simp only [outcome, Blocking.outcome, refusal?]
      cases p.missingField? s.response <;>
        cases p.isAsync <;> rfl
  | awaiting =>
      simp only [outcome, Awaiting.outcome, refusal?]
      cases p.missingField? s.response <;> rfl

/- A plugin that is not refused lacks no field. -/
theorem missingField?_of_refusal?
    {mode : RunMode}
    {p : Plugin}
    {response : Response}
    (hNone : refusal? mode p response = none) :
    p.missingField? response = none := by
  unfold refusal? at hNone
  split at hNone
  · cases hNone
  · cases hNone
  · assumption

/- Only for lack of a field is a plugin refused that need not wait. -/
theorem refusal?_of_direct
    (mode : RunMode)
    {p : Plugin}
    (hDirect : p.isAsync = false)
    (response : Response) :
    refusal? mode p response = p.missingField? response := by
  unfold refusal?
  rw [hDirect]
  cases p.missingField? response <;> cases mode <;> rfl

/- Let a plugin run under a runner. -/
def runOne
    (mode : RunMode)
    (level : LogLevel)
    (p : Plugin) : Running Unit := do
  let done := outcome mode p level (← get)
  modify (fun s => s.settle done)
  let _ ← failIf p.name done.failure

/- Let a plugin run. -/
theorem runOne_apply
    (mode : RunMode)
    (level : LogLevel)
    (p : Plugin)
    (s : RunState) :
    runOne mode level p s =
      (failIf p.name (outcome mode p level s).failure
        >>= fun _ => (pure () : Running Unit))
        (s.settle (outcome mode p level s)) :=
  rfl

/- Without plugins nothing is run. -/
theorem runAll_nil (mode : RunMode) (level : LogLevel) :
    runAll mode level [] = pure () := by
  cases mode <;> rfl

/- Plugins run one after the other. -/
theorem runAll_cons
    (mode : RunMode)
    (level : LogLevel)
    (p : Plugin)
    (ps : List Plugin) :
    runAll mode level (p :: ps) =
      (runOne mode level p >>= fun _ => runAll mode level ps) := by
  cases mode <;>
    simp [runAll, Blocking.runAll, Awaiting.runAll, runOne,
      outcome]

/- A stage, under a runner. -/
def stage
    (mode : RunMode)
    (s : Stage)
    (plugins : List Plugin) : Running Unit := do
  beginStage s plugins
  let ready ← prepareAll plugins
  runAll mode (← get).request.logLevel ready

/- Without stages nothing is done. -/
theorem stages_nil
    (mode : RunMode)
    (pluginsOf : Stage → List Plugin) :
    stages mode pluginsOf [] = pure () := by
  cases mode <;> rfl

/- Stages are gone through one after the other. -/
theorem stages_cons
    (mode : RunMode)
    (pluginsOf : Stage → List Plugin)
    (s : Stage)
    (ss : List Stage) :
    stages mode pluginsOf (s :: ss) =
      (stage mode s (pluginsOf s)
        >>= fun _ => stages mode pluginsOf ss) := by
  cases mode <;>
    simp [stages, Blocking.stages, Awaiting.stages, stage, runAll]

/- The message with which a runner starts. -/
def firstMessage : RunMode → String
| .blocking => "starting run"
| .awaiting => "starting async run"

/- A whole run, under a runner. -/
def run :
    RunMode → (Stage → List Plugin) → List Stage → Running Unit
| .blocking => Blocking.run
| .awaiting => Awaiting.run

/- A run starts, goes through its stages, and finishes. -/
theorem run_eq
    (mode : RunMode)
    (pluginsOf : Stage → List Plugin)
    (ss : List Stage) :
    run mode pluginsOf ss = (do
      tell (.starting (firstMessage mode) ss.length)
      stages mode pluginsOf ss
      tell (.finished (← get).response.exceptions.length)) := by
  cases mode <;> rfl

end Running

/- An application runs the stages that a request resolves to. -/
theorem Application.run_eq
    (app : Application)
    (mode : RunMode)
    (r : Request) :
    app.run mode r =
      match app.resolve r with
      | .error failure => .refused failure
      | .ok ss =>
          .ofEnd (Running.run mode app.plugins ss (.start r)) := by
  cases mode <;> rfl

end Dialectic
