import Dialectic.Pipeline.Script
import Dialectic.Proofs.Pipeline.Running
import Dialectic.Proofs.Plugins.Standard

/-
  Watching a run: the hooks that it calls are listed, with all
  that they are given.  Nothing else changes, and if no plugin
  may wait, the two runners differ only in the message with
  which they start.

  Key definitions include:
    * `HookCall`
    * `Watched`
    * `Watched.Blocking.run`, `Watched.Awaiting.run`
    * `Watched.TellsOn`
    * `Application.watch`

  Main theorems:
    * `Watched.watches_run`
    * `Watched.stages_runners`
    * `Watched.run_runners`
    * `Application.watch_report`
    * `Application.watch_modes`
-/

namespace Dialectic

------------------------------------------------------------
-- Watched Runs
------------------------------------------------------------

/- The call of a hook, with all that it is given. -/
inductive HookCall where
| prepare (p : Plugin) (r : Request) (response : Response)
| run
    (p : Plugin)
    (r : Request)
    (response : Response)
    (logger : Logger)

/- The state of a run, and the hooks that it has called. -/
structure WatchedState where
  state : RunState
  calls : List HookCall

/- A part of a run that lists the hooks that it calls. -/
abbrev Watched (α : Type) : Type :=
  ExceptT Failure (StateM WatchedState) α

namespace Watched

/- A part of a run that calls no hook. -/
def ofRunning {α : Type} (x : Running α) : Watched α :=
  fun w =>
    let (result, state) := x w.state
    (result, ⟨state, w.calls⟩)

/- List a call. -/
def list (call : HookCall) : Watched Unit :=
  fun w => (.ok (), ⟨w.state, w.calls ++ [call]⟩)

/- Call the hook of a plugin that prepares. -/
def callPrepare
    (p : Plugin)
    (r : Request)
    (response : Response) : Watched PrepareOutcome := do
  list (.prepare p r response)
  pure (p.prepare r response)

/- Call the hook of a plugin that runs. -/
def callRun
    (p : Plugin)
    (r : Request)
    (response : Response)
    (logger : Logger) : Watched RunOutcome := do
  list (.run p r response logger)
  pure (p.run r response logger)

/- Let a plugin prepare; gives whether it may run. -/
def prepareOne (p : Plugin) : Watched Bool := do
  if p.capabilities.prepare then
    let state ← ofRunning get
    let logger : Logger := ⟨state.request.logLevel, p.name⟩
    ofRunning (Running.note (logger.log .verbose "preparing"))
    let outcome ← callPrepare p state.request state.response
    ofRunning
      (modify (fun s => { s with request := outcome.request }))
    let failed ← ofRunning (Running.failIf p.name outcome.failure)
    pure (p.capabilities.run && !failed)
  else
    pure p.capabilities.run

/- Let all plugins prepare; gives those that may run. -/
def prepareAll : List Plugin → Watched (List Plugin)
| [] => pure []
| p :: ps => do
    let runs ← prepareOne p
    let rest ← prepareAll ps
    pure (if runs then p :: rest else rest)

/- Enter a stage.  A run that is cancelled ends before it. -/
def beginStage (s : Stage) (plugins : List Plugin) :
    Watched Unit :=
  ofRunning (Running.beginStage s plugins)

/- Finish a run. -/
def finish : Watched Unit := do
  let state ← ofRunning get
  ofRunning
    (Running.tell (.finished state.response.exceptions.length))

namespace Blocking

/- What a plugin does if the runner does not wait. -/
def outcome
    (p : Plugin)
    (level : LogLevel)
    (state : RunState) : Watched RunOutcome :=
  match p.missingField? state.response, p.isAsync with
  | some failure, _ => pure (.failed state.response failure)
  | none, false =>
      callRun p state.request state.response ⟨level, p.name⟩
  | none, true =>
      pure
        (.failed state.response (Running.Blocking.cannotWait p))

/- Let plugins run, one after the other. -/
def runAll (level : LogLevel) : List Plugin → Watched Unit
| [] => pure ()
| p :: ps => do
    let done ← outcome p level (← ofRunning get)
    ofRunning (modify (fun s => s.settle done))
    let _ ← ofRunning (Running.failIf p.name done.failure)
    runAll level ps

/- Go through stages without waiting. -/
def stages (pluginsOf : Stage → List Plugin) :
    List Stage → Watched Unit
| [] => pure ()
| s :: rest => do
    beginStage s (pluginsOf s)
    let ready ← prepareAll (pluginsOf s)
    runAll (← ofRunning get).request.logLevel ready
    stages pluginsOf rest

/- A whole run without waiting. -/
def run
    (pluginsOf : Stage → List Plugin)
    (ss : List Stage) : Watched Unit := do
  ofRunning (Running.tell (.starting "starting run" ss.length))
  stages pluginsOf ss
  finish

end Blocking

namespace Awaiting

/- What a plugin does if the runner waits for it. -/
def outcome
    (p : Plugin)
    (level : LogLevel)
    (state : RunState) : Watched RunOutcome :=
  match p.missingField? state.response with
  | some failure => pure (.failed state.response failure)
  | none =>
      callRun p state.request state.response ⟨level, p.name⟩

/- Let plugins run, each when the one before is done. -/
def runAll (level : LogLevel) : List Plugin → Watched Unit
| [] => pure ()
| p :: ps => do
    let done ← outcome p level (← ofRunning get)
    ofRunning (modify (fun s => s.settle done))
    let _ ← ofRunning (Running.failIf p.name done.failure)
    runAll level ps

/- Go through stages, waiting for each plugin. -/
def stages (pluginsOf : Stage → List Plugin) :
    List Stage → Watched Unit
| [] => pure ()
| s :: rest => do
    beginStage s (pluginsOf s)
    let ready ← prepareAll (pluginsOf s)
    runAll (← ofRunning get).request.logLevel ready
    stages pluginsOf rest

/- A whole run that waits for each plugin. -/
def run
    (pluginsOf : Stage → List Plugin)
    (ss : List Stage) : Watched Unit := do
  ofRunning
    (Running.tell (.starting "starting async run" ss.length))
  stages pluginsOf ss
  finish

end Awaiting

/- A whole run, under a runner. -/
def run :
    RunMode → (Stage → List Plugin) → List Stage → Watched Unit
| .blocking => Blocking.run
| .awaiting => Awaiting.run

------------------------------------------------------------
-- What Is Watched
------------------------------------------------------------

/- One part of a run does what another one does, watched. -/
def Watches
    {α : Type}
    (x : Watched α)
    (y : Running α) : Prop :=
  ∀ w, ((x w).1, (x w).2.state) = y w.state

/- What is done without hooks is watched. -/
theorem watches_ofRunning {α : Type} (y : Running α) :
    Watches (ofRunning y) y :=
  fun _ => rfl

/- What is given without doing anything is watched. -/
theorem watches_pure {α : Type} (a : α) :
    Watches (pure a) (pure a) :=
  fun _ => rfl

/- Parts that are watched are so one after the other. -/
theorem watches_bind
    {α β : Type}
    {x : Watched α}
    {y : Running α}
    {f : α → Watched β}
    {g : α → Running β}
    (hFirst : Watches x y)
    (hSecond : ∀ a, Watches (f a) (g a)) :
    Watches (x >>= f) (y >>= g) := by
  intro w
  have hHere := hFirst w
  rcases hRun : x w with ⟨result, v⟩
  rw [hRun] at hHere
  cases result with
  | error failure =>
      rw [Running.bind_apply_error hHere.symm,
        Running.bind_apply_error hRun]
  | ok a =>
      rw [Running.bind_apply_ok hHere.symm,
        Running.bind_apply_ok hRun, ← hSecond a v]

/- What follows a part that only gives something is watched. -/
theorem watches_given
    {α β : Type}
    {x : Watched α}
    {a : α}
    {f : α → Watched β}
    {y : Running β}
    (hFirst : Watches x (pure a))
    (hSecond : Watches (f a) y) :
    Watches (x >>= f) y := by
  intro w
  rcases Prod.mk.inj (hFirst w) with ⟨hGiven, hState⟩
  rcases hRun : x w with ⟨result, v⟩
  rw [hRun] at hGiven hState
  subst hGiven
  rw [← hState, ← hSecond v, Running.bind_apply_ok hRun]

/- The call of a hook that prepares is watched. -/
theorem watches_callPrepare
    (p : Plugin)
    (r : Request)
    (response : Response) :
    Watches (callPrepare p r response)
      (pure (p.prepare r response)) :=
  fun _ => rfl

/- The call of a hook that runs is watched. -/
theorem watches_callRun
    (p : Plugin)
    (r : Request)
    (response : Response)
    (logger : Logger) :
    Watches (callRun p r response logger)
      (pure (p.run r response logger)) :=
  fun _ => rfl

/- Letting a plugin prepare is watched. -/
theorem watches_prepareOne (p : Plugin) :
    Watches (prepareOne p) (Running.prepareOne p) := by
  unfold prepareOne Running.prepareOne
  split
  · refine watches_bind (watches_ofRunning _) (fun state => ?_)
    refine watches_bind (watches_ofRunning _) (fun _ => ?_)
    apply watches_given (watches_callPrepare _ _ _)
    refine watches_bind (watches_ofRunning _) (fun _ => ?_)
    exact
      watches_bind (watches_ofRunning _)
        (fun _ => watches_pure _)
  · exact watches_pure _

/- Letting all plugins prepare is watched. -/
theorem watches_prepareAll (plugins : List Plugin) :
    Watches (prepareAll plugins)
      (Running.prepareAll plugins) := by
  induction plugins with
  | nil => exact watches_pure []
  | cons p plugins ih =>
      refine
        watches_bind (watches_prepareOne p) (fun runs => ?_)
      exact watches_bind ih (fun _ => watches_pure _)

/- Finishing a run is watched. -/
theorem watches_finish :
    Watches finish
      (get >>= fun state : RunState =>
        Running.tell
          (.finished state.response.exceptions.length)) :=
  fun _ => rfl

/- What follows what a plugin does is watched. -/
theorem watches_settle
    {plugin : String}
    {x : Watched RunOutcome}
    {done : RunOutcome}
    {rest : Watched Unit}
    {other : Running Unit}
    (hDone : Watches x (pure done))
    (hRest : Watches rest other) :
    Watches
      (do
        let done ← x
        ofRunning (modify (fun s => s.settle done))
        let _ ← ofRunning (Running.failIf plugin done.failure)
        rest)
      (do
        modify (fun s => s.settle done)
        let _ ← Running.failIf plugin done.failure
        other) := by
  apply watches_given hDone
  refine watches_bind (watches_ofRunning _) (fun _ => ?_)
  exact watches_bind (watches_ofRunning _) (fun _ => hRest)

namespace Blocking

/- What a plugin does is watched. -/
theorem watches_outcome
    (p : Plugin)
    (level : LogLevel)
    (state : RunState) :
    Watches (outcome p level state)
      (pure (Running.Blocking.outcome p level state)) := by
  unfold outcome Running.Blocking.outcome
  cases p.missingField? state.response with
  | some failure => exact watches_pure _
  | none =>
      cases p.isAsync with
      | false => exact watches_callRun _ _ _ _
      | true => exact watches_pure _

/- Letting plugins run is watched. -/
theorem watches_runAll
    (level : LogLevel)
    (plugins : List Plugin) :
    Watches (runAll level plugins)
      (Running.Blocking.runAll level plugins) := by
  induction plugins with
  | nil => exact watches_pure ()
  | cons p plugins ih =>
      refine watches_bind (watches_ofRunning _) (fun state => ?_)
      exact watches_settle (watches_outcome p level state) ih

/- Going through stages is watched. -/
theorem watches_stages
    (pluginsOf : Stage → List Plugin)
    (ss : List Stage) :
    Watches (stages pluginsOf ss)
      (Running.Blocking.stages pluginsOf ss) := by
  induction ss with
  | nil => exact watches_pure ()
  | cons s ss ih =>
      refine watches_bind (watches_ofRunning _) (fun _ => ?_)
      refine watches_bind (watches_prepareAll _) (fun ready => ?_)
      refine watches_bind (watches_ofRunning _) (fun state => ?_)
      exact watches_bind (watches_runAll _ ready) (fun _ => ih)

end Blocking

namespace Awaiting

/- What a plugin does is watched. -/
theorem watches_outcome
    (p : Plugin)
    (level : LogLevel)
    (state : RunState) :
    Watches (outcome p level state)
      (pure (Running.Awaiting.outcome p level state)) := by
  unfold outcome Running.Awaiting.outcome
  cases p.missingField? state.response with
  | some failure => exact watches_pure _
  | none => exact watches_callRun _ _ _ _

/- Letting plugins run is watched. -/
theorem watches_runAll
    (level : LogLevel)
    (plugins : List Plugin) :
    Watches (runAll level plugins)
      (Running.Awaiting.runAll level plugins) := by
  induction plugins with
  | nil => exact watches_pure ()
  | cons p plugins ih =>
      refine watches_bind (watches_ofRunning _) (fun state => ?_)
      exact watches_settle (watches_outcome p level state) ih

/- Going through stages is watched. -/
theorem watches_stages
    (pluginsOf : Stage → List Plugin)
    (ss : List Stage) :
    Watches (stages pluginsOf ss)
      (Running.Awaiting.stages pluginsOf ss) := by
  induction ss with
  | nil => exact watches_pure ()
  | cons s ss ih =>
      refine watches_bind (watches_ofRunning _) (fun _ => ?_)
      refine watches_bind (watches_prepareAll _) (fun ready => ?_)
      refine watches_bind (watches_ofRunning _) (fun state => ?_)
      exact watches_bind (watches_runAll _ ready) (fun _ => ih)

end Awaiting

/- A whole run is watched. -/
theorem watches_run
    (mode : RunMode)
    (pluginsOf : Stage → List Plugin)
    (ss : List Stage) :
    Watches (run mode pluginsOf ss)
      (Running.run mode pluginsOf ss) := by
  cases mode with
  | blocking =>
      refine watches_bind (watches_ofRunning _) (fun _ => ?_)
      exact
        watches_bind (Blocking.watches_stages pluginsOf ss)
          (fun _ => watches_finish)
  | awaiting =>
      refine watches_bind (watches_ofRunning _) (fun _ => ?_)
      exact
        watches_bind (Awaiting.watches_stages pluginsOf ss)
          (fun _ => watches_finish)

------------------------------------------------------------
-- Runs That May Wait
------------------------------------------------------------

/- What follows a part matters only for what it gives. -/
theorem bind_congr_of_ok
    {α β : Type}
    {x : Watched α}
    {f g : α → Watched β}
    {w : WatchedState}
    (hSame : ∀ a v, x w = (.ok a, v) → f a v = g a v) :
    (x >>= f) w = (x >>= g) w := by
  rcases hRun : x w with ⟨_ | a, v⟩
  · rw [Running.bind_apply_error hRun,
      Running.bind_apply_error hRun]
  · rw [Running.bind_apply_ok hRun, Running.bind_apply_ok hRun]
    exact hSame a v hRun

/- A plugin that need not wait does the same for both runners. -/
theorem outcome_runners
    {p : Plugin}
    (hDirect : p.isAsync = false)
    (level : LogLevel)
    (state : RunState) :
    Blocking.outcome p level state =
      Awaiting.outcome p level state := by
  unfold Blocking.outcome Awaiting.outcome
  rw [hDirect]
  cases p.missingField? state.response <;> rfl

/- So do plugins that need not wait. -/
theorem runAll_runners
    (level : LogLevel)
    {plugins : List Plugin}
    (hDirect : ∀ p ∈ plugins, p.isAsync = false) :
    Blocking.runAll level plugins =
      Awaiting.runAll level plugins := by
  induction plugins with
  | nil => rfl
  | cons p plugins ih =>
      have hRest := ih (fun q hq => hDirect q (by simp [hq]))
      simp only [Blocking.runAll, Awaiting.runAll, hRest,
        outcome_runners (hDirect p (by simp))]

/- Plugins that may run are among those that prepared. -/
theorem prepareAll_subset
    {plugins ready : List Plugin}
    {w v : WatchedState}
    (hRun : prepareAll plugins w = (.ok ready, v)) :
    ∀ p ∈ ready, p ∈ plugins := by
  have hWatched := watches_prepareAll plugins w
  rw [hRun] at hWatched
  exact Running.prepareAll_subset hWatched.symm

/- So do stages whose plugins need not wait. -/
theorem stages_runners
    {pluginsOf : Stage → List Plugin}
    (hDirect : ∀ s, ∀ p ∈ pluginsOf s, p.isAsync = false)
    (ss : List Stage) :
    Blocking.stages pluginsOf ss =
      Awaiting.stages pluginsOf ss := by
  induction ss with
  | nil => rfl
  | cons s ss ih =>
      funext w
      refine bind_congr_of_ok (fun _ _ _ => ?_)
      refine bind_congr_of_ok (fun ready u hReady => ?_)
      -- of the plugins that are ready, none has to wait
      have hReadyDirect : ∀ p ∈ ready, p.isAsync = false :=
        fun p hp => hDirect s p (prepareAll_subset hReady p hp)
      simp only [runAll_runners _ hReadyDirect, ih]

end Watched

------------------------------------------------------------
-- What Was Told Before
------------------------------------------------------------

/- The same state if more was told before. -/
def RunState.after
    (s : RunState)
    (earlier : List RunEvent) : RunState :=
  { s with events := earlier ++ s.events }

/- The same state and calls if more was told before. -/
def WatchedState.after
    (w : WatchedState)
    (earlier : List RunEvent) : WatchedState :=
  ⟨w.state.after earlier, w.calls⟩

namespace Watched

/- What was told before does not matter for a part of a run. -/
def TellsOn {α : Type} (x : Watched α) : Prop :=
  ∀ w earlier,
    x (w.after earlier) = ((x w).1, (x w).2.after earlier)

/- What does nothing tells on. -/
theorem tellsOn_pure {α : Type} (a : α) :
    TellsOn (pure a) :=
  fun _ _ => rfl

/- Two parts tell on one after the other. -/
theorem tellsOn_bind
    {α β : Type}
    {x : Watched α}
    {f : α → Watched β}
    (hFirst : TellsOn x)
    (hSecond : ∀ a, TellsOn (f a)) :
    TellsOn (x >>= f) := by
  intro w earlier
  have hHere := hFirst w earlier
  rcases hRun : x w with ⟨_ | a, v⟩
  · rw [hRun] at hHere
    rw [Running.bind_apply_error hRun,
      Running.bind_apply_error hHere]
  · rw [hRun] at hHere
    rw [Running.bind_apply_ok hRun,
      Running.bind_apply_ok hHere]
    exact hSecond a v earlier

/- A part that looks only at what is not told tells on. -/
theorem tellsOn_get
    {α : Type}
    {f : RunState → Watched α}
    (hSame : ∀ s earlier, f (s.after earlier) = f s)
    (hRest : ∀ s, TellsOn (f s)) :
    TellsOn (ofRunning get >>= f) := by
  intro w earlier
  have hGet : ∀ v : WatchedState,
      (ofRunning get >>= f) v = f v.state v := fun _ => rfl
  rw [hGet, hGet]
  have hLook : f (w.after earlier).state = f w.state :=
    hSame w.state earlier
  rw [hLook, hRest w.state w earlier]

/- Meeting a failure tells on. -/
theorem tellsOn_failIf
    (plugin : String)
    (failure : Option Failure) :
    TellsOn (ofRunning (Running.failIf plugin failure)) := by
  intro w earlier
  cases failure with
  | none => rfl
  | some failure =>
      simp only [ofRunning, Running.failIf_some_apply,
        WatchedState.after, RunState.after]
      split <;> rfl

/- Letting a plugin prepare tells on. -/
theorem tellsOn_prepareOne (p : Plugin) :
    TellsOn (prepareOne p) := by
  unfold prepareOne
  split
  · refine tellsOn_get (fun _ _ => rfl) (fun state => ?_)
    refine tellsOn_bind (fun _ _ => rfl) (fun _ => ?_)
    refine tellsOn_bind (fun _ _ => rfl) (fun outcome => ?_)
    refine tellsOn_bind (fun _ _ => rfl) (fun _ => ?_)
    exact
      tellsOn_bind (tellsOn_failIf _ _)
        (fun _ => tellsOn_pure _)
  · exact tellsOn_pure _

/- Letting all plugins prepare tells on. -/
theorem tellsOn_prepareAll (plugins : List Plugin) :
    TellsOn (prepareAll plugins) := by
  induction plugins with
  | nil => exact tellsOn_pure []
  | cons p plugins ih =>
      refine
        tellsOn_bind (tellsOn_prepareOne p) (fun runs => ?_)
      exact tellsOn_bind ih (fun _ => tellsOn_pure _)

/- Entering a stage tells on. -/
theorem tellsOn_beginStage (s : Stage) (plugins : List Plugin) :
    TellsOn (beginStage s plugins) := by
  intro w earlier
  simp only [beginStage, ofRunning, Running.beginStage_apply,
    WatchedState.after, RunState.after]
  split <;> simp

namespace Blocking

/- What a plugin does tells on. -/
theorem tellsOn_outcome
    (p : Plugin)
    (level : LogLevel)
    (state : RunState) :
    TellsOn (outcome p level state) := by
  unfold outcome
  split
  · exact tellsOn_pure _
  · exact fun _ _ => rfl
  · exact tellsOn_pure _

/- Letting plugins run tells on. -/
theorem tellsOn_runAll
    (level : LogLevel)
    (plugins : List Plugin) :
    TellsOn (runAll level plugins) := by
  induction plugins with
  | nil => exact tellsOn_pure ()
  | cons p plugins ih =>
      refine tellsOn_get (fun _ _ => rfl) (fun state => ?_)
      refine
        tellsOn_bind (tellsOn_outcome p level state)
          (fun done => ?_)
      refine tellsOn_bind (fun _ _ => rfl) (fun _ => ?_)
      exact tellsOn_bind (tellsOn_failIf _ _) (fun _ => ih)

/- Going through stages tells on. -/
theorem tellsOn_stages
    (pluginsOf : Stage → List Plugin)
    (ss : List Stage) :
    TellsOn (stages pluginsOf ss) := by
  induction ss with
  | nil => exact tellsOn_pure ()
  | cons s ss ih =>
      refine tellsOn_bind (tellsOn_beginStage _ _) (fun _ => ?_)
      refine tellsOn_bind (tellsOn_prepareAll _) (fun ready => ?_)
      refine tellsOn_get (fun _ _ => rfl) (fun state => ?_)
      exact tellsOn_bind (tellsOn_runAll _ ready) (fun _ => ih)

end Blocking

/- Finishing a run tells on. -/
theorem tellsOn_finish : TellsOn finish := by
  refine tellsOn_get (fun _ _ => rfl) (fun state => ?_)
  intro w earlier
  simp [ofRunning, Running.tell, WatchedState.after,
    RunState.after]

/-
  If no plugin has to wait, the two runners differ only in the
  message with which they start.
-/
theorem run_runners
    {pluginsOf : Stage → List Plugin}
    (hDirect : ∀ s, ∀ p ∈ pluginsOf s, p.isAsync = false)
    (ss : List Stage)
    (r : Request) :
    ∃ done : Except Failure Unit × WatchedState,
      ∀ mode,
        run mode pluginsOf ss ⟨.start r, []⟩ =
          ( done.1,
            done.2.after
              [.starting (Running.firstMessage mode)
                ss.length] ) := by
  let rest : Watched Unit := do
    Blocking.stages pluginsOf ss
    finish
  have hRest : TellsOn rest :=
    tellsOn_bind (Blocking.tellsOn_stages pluginsOf ss)
      (fun _ => tellsOn_finish)
  have hStart : ∀ message,
      (do
        ofRunning (Running.tell (.starting message ss.length))
        rest : Watched Unit) ⟨.start r, []⟩ =
      rest
        (WatchedState.after ⟨.start r, []⟩
          [.starting message ss.length]) :=
    fun _ => rfl
  refine ⟨rest ⟨.start r, []⟩, fun mode => ?_⟩
  rw [← hRest]
  cases mode with
  | blocking => exact hStart "starting run"
  | awaiting =>
      have hSame := stages_runners hDirect ss
      rw [← hStart]
      simp only [run, Awaiting.run, ← hSame]
      rfl

end Watched

------------------------------------------------------------
-- Applications
------------------------------------------------------------

namespace Application

/-
  Run the process of a request, and list the hooks that are
  called.
-/
def watch
    (app : Application)
    (mode : RunMode)
    (r : Request) : Report × List HookCall :=
  match app.resolve r with
  | .error failure => (.refused failure, [])
  | .ok stages =>
      let done :=
        Watched.run mode app.plugins stages ⟨.start r, []⟩
      (.ofEnd (done.1, done.2.state), done.2.calls)

/- A run that is watched is the run itself. -/
theorem watch_report
    (app : Application)
    (mode : RunMode)
    (r : Request) :
    (app.watch mode r).1 = app.run mode r := by
  rw [run_eq]
  unfold watch
  cases app.resolve r with
  | error failure => rfl
  | ok ss =>
      have hWatched :=
        Watched.watches_run mode app.plugins ss ⟨.start r, []⟩
      simp only [← hWatched]

/-
  If no plugin may wait, a run that may wait is one that may
  not: it has the same result and the same log, and calls the
  same hooks in the same order with the same requests,
  responses and loggers.  The runners themselves tell the same
  too, but for the message with which each of them starts.
-/
theorem watch_modes
    (app : Application)
    (hDirect : ∀ s, ∀ p ∈ app.plugins s, p.isAsync = false)
    (r : Request) :
    let blocking := app.runBlocking r
    let awaiting := app.runAwaiting r
    blocking.result = awaiting.result ∧
      blocking.logs = awaiting.logs ∧
      (app.watch .blocking r).1 = blocking ∧
      (app.watch .awaiting r).1 = awaiting ∧
      (app.watch .blocking r).2 = (app.watch .awaiting r).2 ∧
      match app.resolve r with
      | .error _ => blocking.events = [] ∧ awaiting.events = []
      | .ok ss =>
          ∃ rest,
            blocking.events =
                .starting "starting run" ss.length :: rest ∧
              awaiting.events =
                .starting "starting async run" ss.length
                  :: rest := by
  intro blocking awaiting
  have hBlocking : (app.watch .blocking r).1 = blocking :=
    app.watch_report .blocking r
  have hAwaiting : (app.watch .awaiting r).1 = awaiting :=
    app.watch_report .awaiting r
  cases hResolve : app.resolve r with
  | error failure =>
      simp [blocking, awaiting, runBlocking, runAwaiting, watch,
        hResolve, Report.refused]
  | ok ss =>
      rcases Watched.run_runners hDirect ss r with ⟨done, hDone⟩
      have hWatch : ∀ mode,
          app.watch mode r =
            ( .ofEnd
                ( done.1,
                  done.2.state.after
                    [.starting (Running.firstMessage mode)
                      ss.length] ),
              done.2.calls ) := by
        intro mode
        simp only [watch, hResolve, hDone]
        rfl
      rw [← hBlocking, ← hAwaiting, hWatch, hWatch]
      exact
        ⟨rfl, rfl, rfl, rfl, rfl, done.2.state.events, rfl, rfl⟩

/-
  One plugin cannot prepare, one lacks a field, and one cancels
  the run, so that the stage is not gone through again.
-/
theorem watch_modes_cancelled :
    let first :=
      Plugin.ofScript "first" false .both []
        [.fail "unable" "cannot prepare"] []
    let second :=
      Plugin.ofScript "second" false .runOnly [.map] [] []
    let third :=
      Plugin.ofScript "third" false .both []
        [.setLevel .verbose] [.log .info "stopping", .cancel]
    let work := Stage.custom "work"
    let app :=
      ((empty.add first work).add second work).add third work
    let r : Request :=
      { Request.empty with
        process := some (.stages ["work", "work"]) }
    (∀ s, ∀ p ∈ app.plugins s, p.isAsync = false) ∧
      (app.watch .blocking r).2 = (app.watch .awaiting r).2 ∧
      (app.runBlocking r).logs = (app.runAwaiting r).logs ∧
      (app.watch .blocking r).2.length = 3 ∧
      (app.runBlocking r).logs.map LogEntry.message =
        ["plugin first failed (unable): cannot prepare",
          "plugin second requires response field `map`, "
            ++ "which is missing",
          "stopping"] ∧
      (app.runAwaiting r).result.toOption.isNone ∧
      (app.runAwaiting r).events =
        [.starting "starting async run" 2, .entering work 3,
          .cancelled work] := by
  intro first second third work app r
  have hDirect : ∀ s, ∀ p ∈ app.plugins s,
      p.isAsync = false := by
    intro s p hp
    rcases mem_plugins_add hp with hThird | hp
    · rw [(Prod.mk.inj hThird).1]
      rfl
    rcases mem_plugins_add hp with hSecond | hp
    · rw [(Prod.mk.inj hSecond).1]
      rfl
    rcases mem_plugins_add hp with hFirst | hp
    · rw [(Prod.mk.inj hFirst).1]
      rfl
    · simp [plugins, empty] at hp
  rcases watch_modes app hDirect r with
    ⟨_, hLogs, _, _, hCalls, _⟩
  exact
    ⟨hDirect, hCalls, hLogs, by decide +kernel,
      by decide +kernel, by decide +kernel, by decide +kernel⟩

end Application

end Dialectic
