import Mathlib.Data.List.Nodup
import Mathlib.Data.List.Perm.Subperm
import Mathlib.Logic.Relation

/-
  Processes that go on step by step until they stop, and one
  of them in particular: to follow a partial function from
  place to place until the way ends, or until the key of a
  place is met again.  If places have finitely many keys, this
  stops, and where it stops tells if the way goes in a circle.

  Key definitions include:
    * `Process.StopsAt`
    * `Process.run`
    * `Climb`
    * `Climb.step?`
    * `Climb.Leads`
    * `Climb.Revisits`

  Main theorems:
    * `Process.stopsAt_run`
    * `Climb.stopsAt_run`
    * `Climb.Follows.isSome_current_iff`
-/

namespace Dialectic

------------------------------------------------------------
-- Processes
------------------------------------------------------------

namespace Process

variable {σ : Type} {step? : σ → Option σ}

/-
  A process gets from one state to another one step by step,
  and can do no step there.
-/
def StopsAt (step? : σ → Option σ) (start last : σ) : Prop :=
  Relation.ReflTransGen (fun s t => step? s = some t)
      start last ∧
    step? last = none

/-
  The state after a number of steps, or that in which the
  process has stopped before.
-/
def run (step? : σ → Option σ) : (fuel : Nat) → σ → σ
| 0, s => s
| fuel + 1, s =>
    match step? s with
    | none => s
    | some t => run step? fuel t

/- A process stays where it can do no step. -/
theorem run_of_none
    {s : σ}
    (hLast : step? s = none)
    (fuel : Nat) :
    run step? fuel s = s := by
  cases fuel with
  | zero => rfl
  | succ fuel => simp only [run, hLast]

/- A process goes on from the state after its first step. -/
theorem run_of_some
    {s t : σ}
    (hStep : step? s = some t)
    (fuel : Nat) :
    run step? (fuel + 1) s = run step? fuel t := by
  simp only [run, hStep]

/- What each step keeps still holds where a process stops. -/
theorem StopsAt.invariant
    {Inv : σ → Prop}
    {start last : σ}
    (hStops : StopsAt step? start last)
    (hStep : ∀ s t, Inv s → step? s = some t → Inv t)
    (hStart : Inv start) :
    Inv last := by
  rcases hStops with ⟨hSteps, -⟩
  induction hSteps with
  | refl => exact hStart
  | tail _ hLast ih => exact hStep _ _ ih hLast

/-
  A process stops if each step lowers a measure, and it has
  stopped after as many steps as the measure says.
-/
theorem stopsAt_run
    (Inv : σ → Prop)
    (measure : σ → Nat)
    (hStep : ∀ s t, Inv s → step? s = some t →
      Inv t ∧ measure t < measure s)
    {fuel : Nat}
    {s : σ}
    (hInv : Inv s)
    (hFuel : measure s ≤ fuel) :
    StopsAt step? s (run step? fuel s) := by
  induction fuel generalizing s with
  | zero =>
      refine ⟨.refl, ?_⟩
      cases hNext : step? s with
      | none => exact hNext
      | some t =>
          have hLess := (hStep s t hInv hNext).2
          omega
  | succ fuel ih =>
      cases hNext : step? s with
      | none =>
          rw [run_of_none hNext]
          exact ⟨.refl, hNext⟩
      | some t =>
          rcases hStep s t hInv hNext with ⟨hInv, hLess⟩
          rcases ih hInv (by omega) with ⟨hSteps, hLast⟩
          rw [run_of_some hNext]
          exact ⟨.head hNext hSteps, hLast⟩

end Process

------------------------------------------------------------
-- Ways
------------------------------------------------------------

/-
  What is known on a way: the keys of the places that were
  met, and the place that comes next, if there is one.
-/
structure Climb (α : Type) where
  met : List String
  current : Option α

namespace Climb

variable {α : Type}
variable {next : α → Option α}
variable {key : α → String}
variable {start current : Option α}
variable {way : List α}

/-
  From a start the way leads through some places, and then to
  the current one; the way may also be at its end.
-/
def Leads (next : α → Option α) :
    (start : Option α) →
    List α →
    (current : Option α) →
    Prop
| start, [], current => start = current
| start, a :: way, current =>
    start = some a ∧ Leads next (next a) way current

/- The way from a start meets some key more than once. -/
def Revisits
    (next : α → Option α)
    (key : α → String)
    (start : Option α) : Prop :=
  ∃ way current,
    Leads next start way current ∧ ¬ (way.map key).Nodup

/- A way goes on from the current place to the next one. -/
theorem Leads.concat
    {a : α}
    (hLeads : Leads next start way (some a)) :
    Leads next start (way ++ [a]) (next a) := by
  induction way generalizing start with
  | nil => exact ⟨hLeads, rfl⟩
  | cons b way ih => exact ⟨hLeads.1, ih hLeads.2⟩

/- A way that has come to its end goes through all places. -/
theorem Leads.isPrefix
    {other : List α}
    (hEnd : Leads next start way none)
    (hLeads : Leads next start other current) :
    other <+: way := by
  induction other generalizing start way with
  | nil => exact List.nil_prefix
  | cons a other ih =>
      cases way with
      | nil => cases hEnd.symm.trans hLeads.1
      | cons b way =>
          have hSame : b = a :=
            Option.some.inj (hEnd.1.symm.trans hLeads.1)
          subst hSame
          exact
            (List.cons_prefix_cons).mpr
              ⟨rfl, ih hEnd.2 hLeads.2⟩

/-
  What holds of the start, and is handed on to what comes
  next, holds of all places on the way.
-/
theorem Leads.forall
    {P : α → Prop}
    (hStart : ∀ a, start = some a → P a)
    (hNext : ∀ a b, P a → next a = some b → P b)
    (hLeads : Leads next start way current) :
    ∀ a ∈ way, P a := by
  induction way generalizing start with
  | nil => exact fun a hMem => absurd hMem List.not_mem_nil
  | cons b way ih =>
      intro a hMem
      rcases List.mem_cons.mp hMem with hHere | hLater
      · exact hHere ▸ hStart b hLeads.1
      · exact
          ih (fun c => hNext b c (hStart b hLeads.1)) hLeads.2
            a hLater

/- The start is met on the way, or it is still to come. -/
theorem Leads.start_met
    {a : α}
    (hLeads : Leads next start way current)
    (hStart : start = some a) :
    a ∈ way ∨ current = some a := by
  cases way with
  | nil => exact .inr (hLeads.symm.trans hStart)
  | cons b way =>
      have hSame : b = a :=
        Option.some.inj (hLeads.1.symm.trans hStart)
      exact .inl (hSame ▸ List.mem_cons_self)

/- So is what comes next after a place on the way. -/
theorem Leads.next_met
    {a b : α}
    (hLeads : Leads next start way current)
    (hMem : a ∈ way)
    (hNext : next a = some b) :
    b ∈ way ∨ current = some b := by
  induction way generalizing start with
  | nil => exact absurd hMem List.not_mem_nil
  | cons c way ih =>
      rcases List.mem_cons.mp hMem with hHere | hLater
      · subst hHere
        exact
          (hLeads.2.start_met hNext).imp_left
            (List.mem_cons_of_mem a)
      · exact
          (ih hLeads.2 hLater).imp_left
            (List.mem_cons_of_mem c)

/- All places on the way from a place come after it. -/
theorem Leads.transGen
    {a : α}
    (hLeads : Leads next (next a) way current) :
    (∀ b ∈ way,
      Relation.TransGen (fun c d => next c = some d) a b) ∧
      ∀ b, current = some b →
        Relation.TransGen (fun c d => next c = some d) a b := by
  induction way generalizing a with
  | nil =>
      refine ⟨by simp, fun b hHere => ?_⟩
      exact .single (hLeads.trans hHere)
  | cons c way ih =>
      rcases hLeads with ⟨hNext, hRest⟩
      rcases ih hRest with ⟨hWay, hCurrent⟩
      refine ⟨?_, fun b hHere => .head hNext (hCurrent b hHere)⟩
      intro b hMem
      rcases List.mem_cons.mp hMem with hSame | hLater
      · exact hSame ▸ .single hNext
      · exact .head hNext (hWay b hLater)

/- The current place comes after all places on the way. -/
theorem Leads.transGen_of_mem
    {a b : α}
    (hLeads : Leads next start way (some b))
    (hMem : a ∈ way) :
    Relation.TransGen (fun c d => next c = some d) a b := by
  induction way generalizing start with
  | nil => exact absurd hMem List.not_mem_nil
  | cons c way ih =>
      rcases List.mem_cons.mp hMem with hHere | hLater
      · exact hHere ▸ hLeads.2.transGen.2 b rfl
      · exact ih hLeads.2 hLater

------------------------------------------------------------
-- Following a Way
------------------------------------------------------------

/-
  One step: a place whose key was met already, or the end of
  the way, is where to stop.
-/
def step? (next : α → Option α) (key : α → String) :
    Climb α → Option (Climb α)
| ⟨_, none⟩ => none
| ⟨met, some a⟩ =>
    if key a ∈ met then none
    else some ⟨met ++ [key a], next a⟩

/- What was met are the keys on the way, each of them once. -/
structure Follows
    (next : α → Option α)
    (key : α → String)
    (start : Option α)
    (c : Climb α) : Prop where
  unique : c.met.Nodup
  leads : ∃ way,
    c.met = way.map key ∧ Leads next start way c.current

variable {c d : Climb α}

/- At first nothing was met. -/
theorem Follows.here (start : Option α) :
    Follows next key start ⟨[], start⟩ :=
  ⟨List.nodup_nil, [], rfl, rfl⟩

/- What one step does. -/
theorem step?_eq_some_iff :
    step? next key c = some d ↔
      ∃ a, c.current = some a ∧ key a ∉ c.met ∧
        d = ⟨c.met ++ [key a], next a⟩ := by
  rcases c with ⟨met, _ | a⟩
  · simp [step?]
  · by_cases hMet : key a ∈ met
    · simp [step?, hMet]
    · simp [step?, hMet, eq_comm]

/- When no step is possible. -/
theorem step?_eq_none_iff :
    step? next key c = none ↔
      ∀ a, c.current = some a → key a ∈ c.met := by
  rcases c with ⟨met, _ | a⟩
  · simp [step?]
  · simp [step?]

/- A step leads on along the way. -/
theorem Follows.step
    (hFollows : Follows next key start c)
    (hStep : step? next key c = some d) :
    Follows next key start d := by
  rcases step?_eq_some_iff.mp hStep with ⟨a, hHere, hNew, rfl⟩
  rcases hFollows.leads with ⟨way, hMet, hLeads⟩
  rw [hHere] at hLeads
  refine ⟨?_, way ++ [a], ?_, hLeads.concat⟩
  · simpa using hFollows.unique.concat hNew
  · rw [hMet, List.map_append]
    rfl

/- Not more is met than there are keys. -/
theorem Follows.length_met_le
    {keys : List String}
    (hKeys : ∀ way current, Leads next start way current →
      ∀ a ∈ way, key a ∈ keys)
    (hFollows : Follows next key start c) :
    c.met.length ≤ keys.length := by
  rcases hFollows.leads with ⟨way, hMet, hLeads⟩
  apply
    (List.subperm_of_subset hFollows.unique ?_).length_le
  intro k hMem
  rw [hMet] at hMem
  rcases List.mem_map.mp hMem with ⟨a, hOnWay, rfl⟩
  exact hKeys way _ hLeads a hOnWay

/-
  If places have finitely many keys, following a way stops:
  each step meets a new key.
-/
theorem stopsAt_run
    (keys : List String)
    (hKeys : ∀ way current, Leads next start way current →
      ∀ a ∈ way, key a ∈ keys)
    {fuel : Nat}
    (hFuel : keys.length ≤ fuel) :
    Process.StopsAt (step? next key) ⟨[], start⟩
      (Process.run (step? next key) fuel ⟨[], start⟩) := by
  apply Process.stopsAt_run (Follows next key start)
    (fun c => keys.length - c.met.length) ?_ (.here start)
    (by simpa using hFuel)
  intro c d hFollows hStep
  have hNext := hFollows.step hStep
  refine ⟨hNext, ?_⟩
  have hLess := hNext.length_met_le hKeys
  rcases step?_eq_some_iff.mp hStep with ⟨a, _, _, rfl⟩
  rw [List.length_append, List.length_singleton] at hLess ⊢
  omega

/- Where following a way stops, the way is still followed. -/
theorem Follows.of_stopsAt
    (hStops :
      Process.StopsAt (step? next key) ⟨[], start⟩ c) :
    Follows next key start c :=
  hStops.invariant (fun _ _ => Follows.step) (.here start)

/-
  Following a way stops at a place, and not at the end of the
  way, if and only if the way meets a key again.
-/
theorem Follows.isSome_current_iff
    (hFollows : Follows next key start c)
    (hLast : step? next key c = none) :
    c.current.isSome ↔ Revisits next key start := by
  rcases hFollows.leads with ⟨way, hMet, hLeads⟩
  constructor
  · intro hSome
    rcases Option.isSome_iff_exists.mp hSome with ⟨a, hHere⟩
    have hAgain := step?_eq_none_iff.mp hLast a hHere
    rw [hHere] at hLeads
    refine ⟨way ++ [a], next a, hLeads.concat, ?_⟩
    rw [List.map_append, ← hMet]
    exact fun hUnique =>
      (List.nodup_append.mp hUnique).2.2 _ hAgain (key a)
        (List.mem_singleton_self _) rfl
  · rintro ⟨other, place, hOther, hRepeats⟩
    rw [← Option.ne_none_iff_isSome]
    intro hEnd
    rw [hEnd] at hLeads
    apply hRepeats
    refine hFollows.unique.sublist ?_
    rw [hMet]
    exact (hLeads.isPrefix hOther).sublist.map key

end Climb

end Dialectic
