import Dialectic.Proofs.Pipeline.Watching

/-
  An account of a run that goes on after failures.  In each
  stage all plugins have a turn to prepare, and those that may
  run have a turn to run; a turn tells whether the hook was
  called, and which failure was listed.

  Key definitions include:
    * `Moment`
    * `Turn`
    * `Turn.Prepares`, `Turn.Runs`
    * `Account`
    * `Account.Lawful`

  Main theorems:
    * `Watched.prepareAll_turns`
    * `Watched.runAll_turns`
    * `Watched.stages_accounts`
    * `Application.run_accounts`
-/

namespace Dialectic

------------------------------------------------------------
-- Turns
------------------------------------------------------------

/- What hooks see of a run at some time. -/
structure Moment where
  request : Request
  response : Response

/-
  The turn of a plugin: what it finds, whether its hook is
  called, the failure that is listed, and what it leaves.
-/
structure Turn where
  plugin : Plugin
  before : Moment
  isCalled : Bool
  failure : Option Failure
  after : Moment

/- Each thing starts where the one before it stops. -/
def InTurn
    {α : Type}
    (start stop : α → Moment) :
    Moment → List α → Moment → Prop
| first, [], last => first = last
| first, a :: rest, last =>
    start a = first ∧ InTurn start stop (stop a) rest last

/-
  Why a plugin may not run: it lacks the first required field
  that is missing, or else it may have to wait.
-/
def Plugin.refusal (p : Plugin) (response : Response) :
    Failure :=
  match p.requires.find? (fun f => !response.has f) with
  | some field => .missingDependency p.name field.display
  | none =>
      .plugin p.name "async-plugin"
        "asynchronous plugin cannot run in a synchronous run"

namespace Turn

/-
  A turn to prepare.  The hook is called if there is one, and
  the next plugin finds the request that it leaves.
-/
structure Prepares (t : Turn) : Prop where
  isCalled : t.isCalled = t.plugin.capabilities.prepare
  called : t.isCalled = true →
    let done := t.plugin.prepare t.before.request t.before.response
    t.failure = done.failure ∧ t.after.request = done.request
  idle : t.isCalled = false →
    t.failure = none ∧ t.after.request = t.before.request
  lists : t.after.response =
    t.before.response.report t.failure.toList

/-
  A turn to run.  The hook is called if the plugin need not
  wait and all fields that it requires are there.
-/
structure Runs (t : Turn) : Prop where
  isCalled : t.isCalled = true ↔
    t.plugin.isAsync = false ∧
      ∀ field ∈ t.plugin.requires,
        t.before.response.has field = true
  called : t.isCalled = true →
    let done :=
      t.plugin.run t.before.request t.before.response
        ⟨t.before.request.logLevel, t.plugin.name⟩
    t.failure = done.failure ∧
      t.after.response =
        done.response.report done.failure.toList ∧
      t.after.request =
        { t.before.request with
          isCancelled :=
            t.before.request.isCancelled || done.cancels }
  idle : t.isCalled = false →
    t.failure = some (t.plugin.refusal t.before.response) ∧
      t.after.response =
        t.before.response.report
          [t.plugin.refusal t.before.response] ∧
      t.after.request = t.before.request

/- A plugin may run if it can and did not fail to prepare. -/
def mayRun (t : Turn) : Bool :=
  t.plugin.capabilities.run && t.failure.isNone

/- The call of a turn to prepare. -/
def prepareCalls (t : Turn) : List HookCall :=
  if t.isCalled then
    [.prepare t.plugin t.before.request t.before.response]
  else
    []

/- The call of a turn to run. -/
def runCalls (t : Turn) : List HookCall :=
  if t.isCalled then
    [.run t.plugin t.before.request t.before.response
      ⟨t.before.request.logLevel, t.plugin.name⟩]
  else
    []

end Turn

------------------------------------------------------------
-- Stages
------------------------------------------------------------

/- What happens when a run goes through a stage. -/
structure Account where
  stage : Stage
  start : Moment
  preparing : List Turn
  middle : Moment
  running : List Turn
  stop : Moment

namespace Account

/-
  All plugins of a stage have a turn to prepare, in their
  order.  Then those that may run have a turn to run.
-/
structure Lawful (plugins : List Plugin) (a : Account) :
    Prop where
  active : a.start.request.isCancelled = false
  plugins : a.preparing.map Turn.plugin = plugins
  prepare : ∀ t ∈ a.preparing, t.Prepares
  prepareInTurn :
    InTurn Turn.before Turn.after a.start a.preparing a.middle
  ready : a.running.map Turn.plugin =
    (a.preparing.filter Turn.mayRun).map Turn.plugin
  run : ∀ t ∈ a.running, t.Runs
  runInTurn :
    InTurn Turn.before Turn.after a.middle a.running a.stop

/- The hooks that are called in a stage. -/
def calls (a : Account) : List HookCall :=
  a.preparing.flatMap Turn.prepareCalls
    ++ a.running.flatMap Turn.runCalls

/- The failures that are listed in a stage. -/
def failures (a : Account) : List Failure :=
  (a.preparing ++ a.running).flatMap
    (fun t => t.failure.toList)

end Account

------------------------------------------------------------
-- Hooks
------------------------------------------------------------

namespace Plugin

/- A plugin never makes a run end with a failure. -/
def NeverThrows (p : Plugin) : Prop :=
  ∀ r response,
    r.throwExceptions = false →
      (p.prepare r response).request.throwExceptions = false

/- A plugin never cancels a run. -/
structure NeverCancels (p : Plugin) : Prop where
  prepare : ∀ r response,
    r.isCancelled = false →
      (p.prepare r response).request.isCancelled = false
  run : ∀ r response logger,
    (p.run r response logger).cancels = false

/- A plugin leaves the list of failures to the run. -/
def LeavesFailures (p : Plugin) : Prop :=
  ∀ r response logger,
    (p.run r response logger).response.exceptions =
      response.exceptions

end Plugin

------------------------------------------------------------
-- In Turn
------------------------------------------------------------

namespace InTurn

variable {α : Type} {start stop : α → Moment}

/- What each thing keeps is kept by all of them. -/
theorem keeps
    {I : Moment → Prop}
    {things : List α}
    (hKeeps : ∀ a ∈ things, I (start a) → I (stop a))
    {first last : Moment}
    (hTurn : InTurn start stop first things last)
    (hFirst : I first) :
    I last := by
  induction things generalizing first with
  | nil => exact hTurn ▸ hFirst
  | cons a rest ih =>
      rcases hTurn with ⟨hStart, hRest⟩
      apply ih (fun b hb => hKeeps b (by simp [hb])) hRest
      exact hKeeps a (by simp) (hStart ▸ hFirst)

/- What each thing adds is added by all of them in order. -/
theorem adds
    {β : Type}
    (listed : Moment → List β)
    {added : α → List β}
    {things : List α}
    (hAdds : ∀ a ∈ things,
      listed (stop a) = listed (start a) ++ added a)
    {first last : Moment}
    (hTurn : InTurn start stop first things last) :
    listed last = listed first ++ things.flatMap added := by
  induction things generalizing first with
  | nil => rw [hTurn, List.flatMap_nil, List.append_nil]
  | cons a rest ih =>
      rcases hTurn with ⟨hStart, hRest⟩
      rw [ih (fun b hb => hAdds b (by simp [hb])) hRest,
        hAdds a (by simp), hStart, List.flatMap_cons,
        List.append_assoc]

end InTurn

------------------------------------------------------------
-- Taking Turns
------------------------------------------------------------

/- What hooks see of a run that is watched. -/
def WatchedState.moment (w : WatchedState) : Moment :=
  ⟨w.state.request, w.state.response⟩

namespace Watched

/-
  A run that goes on after failures has come further, and has
  called some hooks meanwhile.
-/
structure Advances
    (w v : WatchedState)
    (calls : List HookCall) : Prop where
  calls : v.calls = w.calls ++ calls
  goesOn : v.state.request.throwExceptions = false

/- It comes further step by step. -/
theorem Advances.trans
    {u v w : WatchedState}
    {calls later : List HookCall}
    (hFirst : Advances u v calls)
    (hSecond : Advances v w later) :
    Advances u w (calls ++ later) :=
  ⟨by rw [hSecond.calls, hFirst.calls, List.append_assoc],
    hSecond.goesOn⟩

/- A failure is listed if the run goes on after failures. -/
theorem failIf_lists
    (plugin : String)
    (failure : Option Failure)
    {w : WatchedState}
    (hGoesOn : w.state.request.throwExceptions = false) :
    ∃ logs,
      ofRunning (Running.failIf plugin failure) w =
        ( .ok failure.isSome,
          ⟨{ w.state with
              response :=
                w.state.response.report failure.toList
              logs := logs },
            w.calls⟩ ) := by
  cases failure with
  | none =>
      refine ⟨w.state.logs, ?_⟩
      simp only [Option.toList_none, Response.report,
        List.append_nil]
      rfl
  | some failure =>
      refine
        ⟨w.state.logs
          ++ Running.failureEntries w.state.request plugin
            failure, ?_⟩
      simp only [ofRunning, Running.failIf_some_apply, hGoesOn]
      rfl

/- A plugin takes its turn to prepare. -/
theorem prepareOne_turn
    {p : Plugin}
    (hNever : p.NeverThrows)
    {w : WatchedState}
    (hGoesOn : w.state.request.throwExceptions = false) :
    ∃ t : Turn, ∃ v,
      prepareOne p w = (.ok t.mayRun, v) ∧
        t.plugin = p ∧
        t.Prepares ∧
        t.before = w.moment ∧
        t.after = v.moment ∧
        Advances w v t.prepareCalls := by
  by_cases hPrepares : p.capabilities.prepare = true
  · let done := p.prepare w.state.request w.state.response
    have hNext : done.request.throwExceptions = false :=
      hNever _ _ hGoesOn
    let call :=
      HookCall.prepare p w.state.request w.state.response
    let logger : Logger := ⟨w.state.request.logLevel, p.name⟩
    rcases failIf_lists p.name done.failure
        (w :=
          ⟨{ w.state with
              request := done.request
              logs :=
                w.state.logs ++ logger.log .verbose "preparing" },
            w.calls ++ [call]⟩)
        hNext with
      ⟨logs, hFailed⟩
    let after : Moment :=
      ⟨done.request,
        w.state.response.report done.failure.toList⟩
    let t : Turn := ⟨p, w.moment, true, done.failure, after⟩
    have hMayRun :
        t.mayRun =
          (p.capabilities.run && !done.failure.isSome) := by
      cases hFailure : done.failure <;>
        simp [t, Turn.mayRun, hFailure]
    refine
      ⟨t, ⟨⟨after.request, after.response, logs, w.state.events⟩,
          w.calls ++ [call]⟩, ?_, rfl, ?_, rfl, rfl, rfl, hNext⟩
    · unfold prepareOne
      rw [if_pos hPrepares, hMayRun]
      exact Running.bind_apply_ok hFailed
    · exact
        ⟨hPrepares.symm, fun _ => ⟨rfl, rfl⟩,
          fun hIdle => (by cases hIdle), rfl⟩
  · let t : Turn := ⟨p, w.moment, false, none, w.moment⟩
    refine ⟨t, w, ?_, rfl, ?_, rfl, rfl, ?_, hGoesOn⟩
    · unfold prepareOne
      rw [if_neg hPrepares]
      simp [t, Turn.mayRun]
      rfl
    · refine
        ⟨by simpa [t] using hPrepares,
          fun hCalled => (by cases hCalled),
          fun _ => ⟨rfl, rfl⟩, ?_⟩
      simp [t, WatchedState.moment, Response.report]
    · simp [t, Turn.prepareCalls]

/- All plugins take their turns to prepare. -/
theorem prepareAll_turns
    {plugins : List Plugin}
    (hNever : ∀ p ∈ plugins, p.NeverThrows)
    {w : WatchedState}
    (hGoesOn : w.state.request.throwExceptions = false) :
    ∃ ts : List Turn, ∃ v,
      prepareAll plugins w =
          (.ok ((ts.filter Turn.mayRun).map Turn.plugin), v) ∧
        ts.map Turn.plugin = plugins ∧
        (∀ t ∈ ts, t.Prepares) ∧
        InTurn Turn.before Turn.after w.moment ts v.moment ∧
        Advances w v (ts.flatMap Turn.prepareCalls) := by
  induction plugins generalizing w with
  | nil => exact ⟨[], w, rfl, rfl, by simp, rfl, by simp, hGoesOn⟩
  | cons p plugins ih =>
      rcases prepareOne_turn (hNever p (by simp)) hGoesOn with
        ⟨t, v, hOne, hPlugin, hPrepares, hBefore, hAfter,
          hFirst⟩
      rcases ih (fun q hq => hNever q (by simp [hq]))
          hFirst.goesOn with
        ⟨ts, u, hAll, hPlugins, hEach, hTurns, hRest⟩
      refine
        ⟨t :: ts, u, ?_, by rw [List.map_cons, hPlugin, hPlugins],
          List.forall_mem_cons.mpr ⟨hPrepares, hEach⟩,
          ⟨hBefore, hAfter ▸ hTurns⟩, hFirst.trans hRest⟩
      have hBoth :
          prepareAll (p :: plugins) w = _ :=
        Running.bind_apply_ok hOne
      rw [hBoth, Running.bind_apply_ok hAll]
      cases hRuns : t.mayRun <;>
        simp [hRuns, hPlugin] <;> rfl

/- A plugin that may not run gives the failure for it. -/
theorem outcome_refused
    {p : Plugin}
    {w : WatchedState}
    (level : LogLevel)
    (hMay :
      ¬ (p.isAsync = false ∧
        ∀ field ∈ p.requires,
          w.state.response.has field = true)) :
    Blocking.outcome p level w.state w =
      ( .ok
          (.failed w.state.response
            (p.refusal w.state.response)),
        w ) := by
  unfold Blocking.outcome Plugin.missingField? Plugin.refusal
  cases hFind :
      p.requires.find?
        (fun f => !w.state.response.has f) with
  | some field => rfl
  | none =>
      have hAll : ∀ field ∈ p.requires,
          w.state.response.has field = true := by
        simpa using List.find?_eq_none.mp hFind
      have hWaits : p.isAsync = true :=
        Bool.of_not_eq_false (fun hNot => hMay ⟨hNot, hAll⟩)
      simp only [Option.map_none, hWaits]
      rfl

/- A plugin that may run does so. -/
theorem outcome_called
    {p : Plugin}
    {w : WatchedState}
    (level : LogLevel)
    (hDirect : p.isAsync = false)
    (hAll : ∀ field ∈ p.requires,
      w.state.response.has field = true) :
    Blocking.outcome p level w.state w =
      ( .ok
          (p.run w.state.request w.state.response
            ⟨level, p.name⟩),
        ⟨w.state,
          w.calls
            ++ [.run p w.state.request w.state.response
              ⟨level, p.name⟩]⟩ ) := by
  have hFind :
      p.requires.find? (fun f => !w.state.response.has f)
        = none := by
    simpa using hAll
  unfold Blocking.outcome Plugin.missingField?
  simp only [hFind, Option.map_none, hDirect]
  rfl

/- What follows when it is known what a plugin does. -/
theorem runAll_cons_apply
    {level : LogLevel}
    {p : Plugin}
    {w v : WatchedState}
    {done : RunOutcome}
    (hDone :
      Blocking.outcome p level w.state w = (.ok done, v))
    (ps : List Plugin) :
    Blocking.runAll level (p :: ps) w =
      (ofRunning (Running.failIf p.name done.failure)
        >>= fun _ => Blocking.runAll level ps)
        ⟨v.state.settle done, v.calls⟩ := by
  have hFirst : Blocking.runAll level (p :: ps) w = _ :=
    Running.bind_apply_ok (x := ofRunning get) rfl
  rw [hFirst, Running.bind_apply_ok hDone]
  rfl

/- The first plugin takes its turn to run. -/
theorem runAll_cons_turn
    (p : Plugin)
    (ps : List Plugin)
    {w : WatchedState}
    (hGoesOn : w.state.request.throwExceptions = false) :
    ∃ t : Turn, ∃ v,
      Blocking.runAll w.state.request.logLevel (p :: ps) w =
          Blocking.runAll w.state.request.logLevel ps v ∧
        t.plugin = p ∧
        t.Runs ∧
        t.before = w.moment ∧
        t.after = v.moment ∧
        v.state.request.logLevel = w.state.request.logLevel ∧
        Advances w v t.runCalls := by
  by_cases hMay :
      p.isAsync = false ∧
        ∀ field ∈ p.requires, w.state.response.has field = true
  · let level := w.state.request.logLevel
    let done :=
      p.run w.state.request w.state.response ⟨level, p.name⟩
    let settled := w.state.settle done
    let call :=
      HookCall.run p w.state.request w.state.response
        ⟨level, p.name⟩
    rcases failIf_lists p.name done.failure
        (w := ⟨settled, w.calls ++ [call]⟩) hGoesOn with
      ⟨logs, hFailed⟩
    let after : Moment :=
      ⟨settled.request,
        done.response.report done.failure.toList⟩
    let t : Turn := ⟨p, w.moment, true, done.failure, after⟩
    refine
      ⟨t,
        ⟨{ settled with
            response := after.response
            logs := logs },
          w.calls ++ [call]⟩, ?_, rfl, ?_, rfl, rfl, rfl, rfl,
        hGoesOn⟩
    · have hDone := outcome_called level hMay.1 hMay.2
      rw [runAll_cons_apply hDone]
      exact Running.bind_apply_ok hFailed
    · exact
        ⟨⟨fun _ => hMay, fun _ => rfl⟩,
          fun _ => ⟨rfl, rfl, rfl⟩,
          fun hIdle => (by cases hIdle)⟩
  · let level := w.state.request.logLevel
    let refusal := p.refusal w.state.response
    let done := RunOutcome.failed w.state.response refusal
    let settled := w.state.settle done
    rcases failIf_lists p.name (some refusal)
        (w := ⟨settled, w.calls⟩) hGoesOn with
      ⟨logs, hFailed⟩
    let after : Moment :=
      ⟨settled.request, w.state.response.report [refusal]⟩
    let t : Turn := ⟨p, w.moment, false, some refusal, after⟩
    have hSettled : settled.request = w.state.request := by
      simp [settled, done, RunState.settle, RunOutcome.failed]
    refine
      ⟨t,
        ⟨{ settled with
            response := after.response
            logs := logs },
          w.calls⟩,
        ?_, rfl, ?_, rfl, rfl, rfl, ?_, hGoesOn⟩
    · rw [runAll_cons_apply (outcome_refused level hMay)]
      exact Running.bind_apply_ok hFailed
    · exact
        ⟨⟨fun hCalled => (by cases hCalled),
            fun hAll => absurd hAll hMay⟩,
          fun hCalled => (by cases hCalled),
          fun _ => ⟨rfl, rfl, hSettled⟩⟩
    · simp [t, Turn.runCalls]

/- All plugins take their turns to run. -/
theorem runAll_turns
    (plugins : List Plugin)
    {w : WatchedState}
    (hGoesOn : w.state.request.throwExceptions = false) :
    ∃ ts : List Turn, ∃ v,
      Blocking.runAll w.state.request.logLevel plugins w =
          (.ok (), v) ∧
        ts.map Turn.plugin = plugins ∧
        (∀ t ∈ ts, t.Runs) ∧
        InTurn Turn.before Turn.after w.moment ts v.moment ∧
        Advances w v (ts.flatMap Turn.runCalls) := by
  induction plugins generalizing w with
  | nil => exact ⟨[], w, rfl, rfl, by simp, rfl, by simp, hGoesOn⟩
  | cons p plugins ih =>
      rcases runAll_cons_turn p plugins hGoesOn with
        ⟨t, v, hOne, hPlugin, hRuns, hBefore, hAfter, hLevel,
          hFirst⟩
      rcases ih hFirst.goesOn with
        ⟨ts, u, hAll, hPlugins, hEach, hTurns, hRest⟩
      refine
        ⟨t :: ts, u, ?_, by rw [List.map_cons, hPlugin, hPlugins],
          List.forall_mem_cons.mpr ⟨hRuns, hEach⟩,
          ⟨hBefore, hAfter ▸ hTurns⟩, hFirst.trans hRest⟩
      rw [hOne, ← hLevel, hAll]

------------------------------------------------------------
-- Accounts
------------------------------------------------------------

/- A stage is entered if the run is not cancelled. -/
theorem beginStage_apply
    (s : Stage)
    (plugins : List Plugin)
    {w : WatchedState}
    (hActive : w.state.request.isCancelled = false) :
    beginStage s plugins w =
      ( .ok (),
        ⟨{ w.state with
            events :=
              w.state.events ++ [.entering s plugins.length] },
          w.calls⟩ ) := by
  simp only [beginStage, ofRunning, Running.beginStage_apply,
    hActive]
  rfl

/- There is an account of the first stage. -/
theorem stages_cons_account
    {pluginsOf : Stage → List Plugin}
    (s : Stage)
    (hNever : ∀ p ∈ pluginsOf s, p.NeverThrows)
    (ss : List Stage)
    {w : WatchedState}
    (hGoesOn : w.state.request.throwExceptions = false)
    (hActive : w.state.request.isCancelled = false) :
    ∃ a : Account, ∃ v,
      Blocking.stages pluginsOf (s :: ss) w =
          Blocking.stages pluginsOf ss v ∧
        a.stage = s ∧
        a.Lawful (pluginsOf s) ∧
        a.start = w.moment ∧
        a.stop = v.moment ∧
        Advances w v a.calls := by
  let entered : WatchedState :=
    ⟨{ w.state with
        events :=
          w.state.events
            ++ [.entering s (pluginsOf s).length] },
      w.calls⟩
  rcases prepareAll_turns (w := entered) hNever hGoesOn with
    ⟨preparing, v, hPrepare, hPlugins, hPrepares, hPreparing,
      hFirst⟩
  rcases runAll_turns
      ((preparing.filter Turn.mayRun).map Turn.plugin)
      hFirst.goesOn with
    ⟨running, u, hRun, hReady, hRuns, hRunning, hSecond⟩
  let a : Account :=
    { stage := s
      start := w.moment
      preparing := preparing
      middle := v.moment
      running := running
      stop := u.moment }
  have hLawful : a.Lawful (pluginsOf s) :=
    { active := hActive
      plugins := hPlugins
      prepare := hPrepares
      prepareInTurn := hPreparing
      ready := hReady
      run := hRuns
      runInTurn := hRunning }
  have hCalls : Advances entered u a.calls :=
    hFirst.trans hSecond
  refine
    ⟨a, u, ?_, rfl, hLawful, rfl, rfl, hCalls.calls,
      hCalls.goesOn⟩
  have hBegin : Blocking.stages pluginsOf (s :: ss) w = _ :=
    Running.bind_apply_ok
      (beginStage_apply s (pluginsOf s) hActive)
  -- the level of the logger is read after all have prepared
  rw [hBegin, Running.bind_apply_ok hPrepare]
  exact Running.bind_apply_ok hRun

/-
  There are accounts of the stages that a run goes through;
  if not of all, the run was cancelled before the next one.
-/
theorem stages_accounts
    {pluginsOf : Stage → List Plugin}
    (hNever : ∀ s, ∀ p ∈ pluginsOf s, p.NeverThrows)
    (ss : List Stage)
    {w : WatchedState}
    (hGoesOn : w.state.request.throwExceptions = false) :
    ∃ accounts : List Account, ∃ rest v,
      ss = accounts.map Account.stage ++ rest ∧
        (∀ a ∈ accounts, a.Lawful (pluginsOf a.stage)) ∧
        InTurn Account.start Account.stop w.moment accounts
          v.moment ∧
        v.calls = w.calls ++ accounts.flatMap Account.calls ∧
        match rest with
        | [] =>
            Blocking.stages pluginsOf ss w = (.ok (), v)
        | s :: _ =>
            v.state.request.isCancelled = true ∧
              Blocking.stages pluginsOf ss w =
                (.error (.cancelled s.name), v) := by
  -- each stage starts at the moment where the one before stops
  induction ss generalizing w with
  | nil => exact ⟨[], [], w, rfl, by simp, rfl, by simp, rfl⟩
  | cons s ss ih =>
      cases hActive : w.state.request.isCancelled with
      | true =>
          let told : WatchedState :=
            ⟨{ w.state with
                events := w.state.events ++ [.cancelled s] },
              w.calls⟩
          refine
            ⟨[], s :: ss, told, rfl, by simp, rfl,
              by simp [told], hActive, ?_⟩
          apply Running.bind_apply_error
          simp only [beginStage, ofRunning,
            Running.beginStage_apply, hActive]
          rfl
      | false =>
          rcases stages_cons_account s (hNever s) ss hGoesOn
              hActive with
            ⟨a, u, hThen, rfl, hLawful, hStart, hStop, hFirst⟩
          rcases ih hFirst.goesOn with
            ⟨accounts, rest, v, hStages, hEach, hTurns, hCalls,
              hEnd⟩
          refine
            ⟨a :: accounts, rest, v,
              by rw [List.map_cons, List.cons_append, hStages],
              List.forall_mem_cons.mpr ⟨hLawful, hEach⟩,
              ⟨hStart, hStop ▸ hTurns⟩, ?_, ?_⟩
          · rw [hCalls, hFirst.calls, List.flatMap_cons,
              List.append_assoc]
          · rw [hThen]
            exact hEnd

end Watched

------------------------------------------------------------
-- What a Run Adds Up To
------------------------------------------------------------

namespace Turn

/- A turn to prepare does not cancel a run by itself. -/
theorem Prepares.active
    {t : Turn}
    (hPrepares : t.Prepares)
    (hNever : t.plugin.NeverCancels)
    (hActive : t.before.request.isCancelled = false) :
    t.after.request.isCancelled = false := by
  cases hCalled : t.isCalled with
  | true =>
      rw [(hPrepares.called hCalled).2]
      exact hNever.prepare _ _ hActive
  | false => rw [(hPrepares.idle hCalled).2, hActive]

/- Neither does a turn to run. -/
theorem Runs.active
    {t : Turn}
    (hRuns : t.Runs)
    (hNever : t.plugin.NeverCancels)
    (hActive : t.before.request.isCancelled = false) :
    t.after.request.isCancelled = false := by
  cases hCalled : t.isCalled with
  | true =>
      rw [(hRuns.called hCalled).2.2]
      simp [hActive, hNever.run]
  | false => rw [(hRuns.idle hCalled).2.2, hActive]

/- A turn to prepare lists its failure behind the others. -/
theorem Prepares.exceptions
    {t : Turn}
    (hPrepares : t.Prepares) :
    t.after.response.exceptions =
      t.before.response.exceptions ++ t.failure.toList := by
  rw [hPrepares.lists]
  rfl

/- So does a turn to run. -/
theorem Runs.exceptions
    {t : Turn}
    (hRuns : t.Runs)
    (hLeaves : t.plugin.LeavesFailures) :
    t.after.response.exceptions =
      t.before.response.exceptions ++ t.failure.toList := by
  cases hCalled : t.isCalled with
  | true =>
      rcases hRuns.called hCalled with ⟨hFailure, hAfter, _⟩
      rw [hAfter, hFailure]
      simp only [Response.report, hLeaves _ _ _]
  | false =>
      rcases hRuns.idle hCalled with ⟨hFailure, hAfter, _⟩
      rw [hAfter, hFailure]
      rfl

end Turn

namespace Account.Lawful

variable {plugins : List Plugin} {a : Account}

/- It is plugins of the stage that prepare. -/
theorem mem_of_preparing
    (hLawful : a.Lawful plugins)
    {t : Turn}
    (ht : t ∈ a.preparing) :
    t.plugin ∈ plugins :=
  hLawful.plugins ▸ List.mem_map_of_mem ht

/- It is plugins of the stage that run. -/
theorem mem_of_running
    (hLawful : a.Lawful plugins)
    {t : Turn}
    (ht : t ∈ a.running) :
    t.plugin ∈ plugins := by
  have hReady : t.plugin ∈ a.running.map Turn.plugin :=
    List.mem_map_of_mem ht
  rw [hLawful.ready] at hReady
  rcases List.mem_map.mp hReady with ⟨before, hBefore, hSame⟩
  rw [← hSame]
  exact hLawful.mem_of_preparing (List.mem_filter.mp hBefore).1

/- A stage is left active if no plugin cancels the run. -/
theorem stop_active
    (hLawful : a.Lawful plugins)
    (hNever : ∀ p ∈ plugins, p.NeverCancels) :
    a.stop.request.isCancelled = false := by
  have hMiddle : a.middle.request.isCancelled = false :=
    hLawful.prepareInTurn.keeps
      (I := fun m => m.request.isCancelled = false)
      (fun t ht =>
        (hLawful.prepare t ht).active
          (hNever _ (hLawful.mem_of_preparing ht)))
      hLawful.active
  exact
    hLawful.runInTurn.keeps
      (I := fun m => m.request.isCancelled = false)
      (fun t ht =>
        (hLawful.run t ht).active
          (hNever _ (hLawful.mem_of_running ht)))
      hMiddle

/- A stage lists its failures behind the others. -/
theorem stop_exceptions
    (hLawful : a.Lawful plugins)
    (hLeaves : ∀ p ∈ plugins, p.LeavesFailures) :
    a.stop.response.exceptions =
      a.start.response.exceptions ++ a.failures := by
  have hMiddle :=
    hLawful.prepareInTurn.adds
      (fun m => m.response.exceptions)
      (fun t ht => (hLawful.prepare t ht).exceptions)
  have hStop :=
    hLawful.runInTurn.adds
      (fun m => m.response.exceptions)
      (fun t ht =>
        (hLawful.run t ht).exceptions
          (hLeaves _ (hLawful.mem_of_running ht)))
  rw [hStop, hMiddle, List.append_assoc, failures,
    List.flatMap_append]

end Account.Lawful

------------------------------------------------------------
-- Applications
------------------------------------------------------------

namespace Application

/- What a run that does not wait gives, stage by stage. -/
theorem watch_of_stages
    {app : Application}
    {r : Request}
    {ss : List Stage}
    (hResolve : app.resolve r = .ok ss)
    {result : Except Failure Unit}
    {v : WatchedState}
    (hStages :
      Watched.Blocking.stages app.plugins ss
          (WatchedState.after ⟨.start r, []⟩
            [.starting "starting run" ss.length]) =
        (result, v)) :
    (app.watch .blocking r).2 = v.calls ∧
      (app.run .blocking r).result =
        result.map (fun _ => v.state.response) := by
  have hRun :
      Watched.run .blocking app.plugins ss ⟨.start r, []⟩ =
        (Watched.Blocking.stages app.plugins ss
          >>= fun _ => Watched.finish)
          (WatchedState.after ⟨.start r, []⟩
            [.starting "starting run" ss.length]) := rfl
  rw [← watch_report]
  simp only [watch, hResolve, hRun]
  cases result with
  | error failure =>
      rw [Running.bind_apply_error hStages]
      exact ⟨rfl, rfl⟩
  | ok a =>
      rw [Running.bind_apply_ok hStages]
      exact ⟨rfl, rfl⟩

/-
  If no plugin makes it end with a failure, a run that goes on
  after failures goes through its stages one after the other.
  In each of them the plugins take their turns, and no other
  hooks are called.  All stages are gone through, and the run
  gives a response, unless it is cancelled before one of them.
  The failures of the turns are listed in their order; if no
  plugin changes the list, it holds nothing else.
-/
theorem run_accounts
    (app : Application)
    (hNever : ∀ s, ∀ p ∈ app.plugins s, p.NeverThrows)
    {r : Request}
    {ss : List Stage}
    (hResolve : app.resolve r = .ok ss)
    (hGoesOn : r.throwExceptions = false) :
    ∃ accounts : List Account, ∃ rest last,
      ss = accounts.map Account.stage ++ rest ∧
        (∀ a ∈ accounts, a.Lawful (app.plugins a.stage)) ∧
        InTurn Account.start Account.stop
          ⟨r, Response.empty⟩ accounts last ∧
        (app.watch .blocking r).2 =
          accounts.flatMap Account.calls ∧
        (match rest with
          | [] =>
              (app.run .blocking r).result = .ok last.response
          | s :: _ =>
              last.request.isCancelled = true ∧
                (app.run .blocking r).result =
                  .error (.cancelled s.name)) ∧
        (r.isCancelled = false →
          (∀ s, ∀ p ∈ app.plugins s, p.NeverCancels) →
            rest = []) ∧
        ((∀ s, ∀ p ∈ app.plugins s, p.LeavesFailures) →
          last.response.exceptions =
            accounts.flatMap Account.failures) := by
  rcases Watched.stages_accounts hNever ss
      (w := WatchedState.after ⟨.start r, []⟩
        [.starting "starting run" ss.length])
      hGoesOn with
    ⟨accounts, rest, v, hStages, hLawful, hTurns, hCalls, hEnd⟩
  refine
    ⟨accounts, rest, v.moment, hStages, hLawful, hTurns, ?_, ?_,
      ?_, ?_⟩
  · cases rest with
    | nil => exact (watch_of_stages hResolve hEnd).1.trans hCalls
    | cons s rest =>
        exact (watch_of_stages hResolve hEnd.2).1.trans hCalls
  · cases rest with
    | nil => exact (watch_of_stages hResolve hEnd).2
    | cons s rest =>
        exact ⟨hEnd.1, (watch_of_stages hResolve hEnd.2).2⟩
  · intro hActive hNeverCancels
    have hLast : v.moment.request.isCancelled = false :=
      hTurns.keeps
        (I := fun m => m.request.isCancelled = false)
        (fun a ha _ =>
          (hLawful a ha).stop_active (hNeverCancels a.stage))
        hActive
    cases rest with
    | nil => rfl
    | cons s rest =>
        rw [show v.moment.request.isCancelled = true
          from hEnd.1] at hLast
        cases hLast
  · intro hLeaves
    exact
      hTurns.adds
        (fun m => m.response.exceptions)
        (fun a ha =>
          (hLawful a ha).stop_exceptions (hLeaves a.stage))

/-
  One plugin cannot prepare, one lacks a field, one would have
  to wait, and one fails to run.  All that happens twice, for
  the stage is gone through twice.
-/
theorem run_accounts_failing :
    let first :=
      Plugin.ofScript "first" false .both []
        [.fail "unable" "cannot prepare"] []
    let second :=
      Plugin.ofScript "second" false .runOnly [.map] [] []
    let third :=
      Plugin.ofScript "third" true .runOnly [] [] []
    let fourth :=
      Plugin.ofScript "fourth" false .both []
        [.setLevel .verbose] [.fail "broken" "cannot go on"]
    let work := Stage.custom "work"
    let app :=
      (((empty.add first work).add second work).add third
        work).add fourth work
    let r : Request :=
      { Request.empty with
        process := some (.stages ["work", "work"]) }
    (∀ s, ∀ p ∈ app.plugins s, p.NeverThrows) ∧
      app.resolve r = .ok [work, work] ∧
      r.throwExceptions = false ∧
      (∃ accounts : List Account, ∃ last : Moment,
        accounts.map Account.stage = [work, work] ∧
          (∀ a ∈ accounts, a.Lawful (app.plugins a.stage)) ∧
          (app.watch .blocking r).2 =
            accounts.flatMap Account.calls ∧
          (app.run .blocking r).result = .ok last.response ∧
          last.response.exceptions =
            accounts.flatMap Account.failures) ∧
      (app.watch .blocking r).2.length = 6 ∧
      (app.run .blocking r).result.toOption.map
          (fun response => response.exceptions.map Failure.code) =
        some
          ["unable", "missing-dependency", "async-plugin",
            "broken", "unable", "missing-dependency",
            "async-plugin", "broken"] := by
  intro first second third fourth work app r
  have hTame : ∀ s, ∀ p ∈ app.plugins s,
      p.NeverThrows ∧ p.NeverCancels ∧ p.LeavesFailures := by
    intro s p hp
    have hFour : p = fourth ∨ p = third ∨ p = second ∨
        p = first := by
      rcases mem_plugins_add hp with hFourth | hp
      · exact .inl (Prod.mk.inj hFourth).1
      rcases mem_plugins_add hp with hThird | hp
      · exact .inr (.inl (Prod.mk.inj hThird).1)
      rcases mem_plugins_add hp with hSecond | hp
      · exact .inr (.inr (.inl (Prod.mk.inj hSecond).1))
      rcases mem_plugins_add hp with hFirst | hp
      · exact .inr (.inr (.inr (Prod.mk.inj hFirst).1))
      · simp [plugins, empty] at hp
    rcases hFour with rfl | rfl | rfl | rfl <;>
      exact
        ⟨fun _ _ hGoesOn => hGoesOn,
          ⟨fun _ _ hActive => hActive, fun _ _ _ => rfl⟩,
          fun _ _ _ => rfl⟩
  have hNever : ∀ s, ∀ p ∈ app.plugins s, p.NeverThrows :=
    fun s p hp => (hTame s p hp).1
  have hResolve : app.resolve r = .ok [work, work] := rfl
  rcases run_accounts app hNever hResolve rfl with
    ⟨accounts, rest, last, hStages, hLawful, _, hCalls, hEnd,
      hAll, hFailures⟩
  have hRest : rest = [] :=
    hAll rfl (fun s p hp => (hTame s p hp).2.1)
  subst hRest
  exact
    ⟨hNever, hResolve, rfl,
      ⟨accounts, last, by simpa using hStages.symm, hLawful,
        hCalls, hEnd,
        hFailures (fun s p hp => (hTame s p hp).2.2)⟩,
      by decide +kernel, by decide +kernel⟩

end Application

end Dialectic
