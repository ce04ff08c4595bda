import Dialectic.Model.Explode
import Mathlib.Data.List.Chain

/-
  The inferences that the steps of an argument are split into.
  Each one has its only conclusion at its end, which is the
  first premise of the next one; without these premises the
  inferences are the steps that they were split from.

  Key definitions include:
    * `Step.content`
    * `Explosion.Completed`
    * `Explosion.IsInference`
    * `Explosion.Continues`
    * `Explosion.unlinked`
    * `Explosion.IsSplit`

  Main theorems:
    * `Explosion.inferences_isInference`
    * `Explosion.inferencesAfter_continue`
    * `Explosion.content_unlinked`
    * `Explosion.inferences_isSplit`
-/

namespace Dialectic

namespace Step

/- What a step keeps when its argument is split. -/
def content (s : Step) : Nat × String × Option String :=
  (s.number, s.title, s.inference)

/- A step as the conclusion of its inference. -/
def asConclusion (s : Step) : Step :=
  { s with role := .mainConclusion }

/- A step as a premise of the next inference. -/
def asPremise (s : Step) : Step :=
  { s with role := .premise, inference := none }

end Step

namespace Explosion

variable {step : Step} {read steps : List Step}

------------------------------------------------------------
-- Chains of Inferences
------------------------------------------------------------

/- Steps end with the main conclusion, and there is no other. -/
def Completed (steps : List Step) : Prop :=
  ∃ before : List StepRole,
    steps.map Step.role = before ++ [.mainConclusion] ∧
      .mainConclusion ∉ before

/- Some premises, and one main conclusion after them. -/
def IsInference (part : List Step) : Prop :=
  ∃ premises conclusion, part = premises ++ [conclusion] ∧
    conclusion.role = .mainConclusion ∧
      ∀ s ∈ premises, s.role = .premise

/- The conclusion of one part is the first premise of another. -/
def Continues (part next : List Step) : Prop :=
  ∃ conclusion, part.getLast? = some conclusion ∧
    next.head? = some conclusion.asPremise

/-
  The steps of the parts of a chain without the premises that
  each part but the first one starts with.
-/
def unlinked : List (List Step) → List Step
| [] => []
| first :: rest => first ++ rest.flatMap List.tail

/-
  Parts are a chain that is split from some steps: there is one
  for each intermediary conclusion and for the main one, each
  is an inference and continues the one before, and nothing is
  lost or repeated.
-/
structure IsSplit
    (steps : List Step)
    (parts : List (List Step)) : Prop where
  length : parts.length =
    steps.countP
      (fun s => s.role == .intermediaryConclusion) + 1
  inference : ∀ part ∈ parts, IsInference part
  continues : parts.IsChain Continues
  content :
    (unlinked parts).map Step.content = steps.map Step.content

------------------------------------------------------------
-- Splitting Steps
------------------------------------------------------------

/- Steps that are completed stay so without the first one. -/
theorem Completed.tail
    (hCompleted : Completed (step :: steps))
    (hMore : steps ≠ []) :
    Completed steps := by
  rcases hCompleted with ⟨before, hRoles, hOnly⟩
  cases before with
  | nil =>
      rw [List.map_cons, List.nil_append, List.cons.injEq,
        List.map_eq_nil_iff] at hRoles
      exact absurd hRoles.2 hMore
  | cons role before =>
      rw [List.map_cons, List.cons_append, List.cons.injEq]
        at hRoles
      exact
        ⟨before, hRoles.2,
          fun hThere => hOnly (List.mem_cons_of_mem role hThere)⟩

/- A premise does not complete any steps. -/
theorem Completed.ne_nil
    (hCompleted : Completed (step :: steps))
    (hPremise : step.role = .premise) :
    steps ≠ [] := by
  rintro rfl
  rcases hCompleted with ⟨before, hRoles, _⟩
  have hLast := congrArg List.getLast? hRoles
  rw [List.getLast?_concat] at hLast
  simp [hPremise] at hLast

/- A premise is read for the inference that it is part of. -/
theorem inferencesAfter_premise
    (hPremise : step.role = .premise) :
    inferencesAfter read (step :: steps) =
      inferencesAfter (read ++ [step]) steps := by
  rw [inferencesAfter, if_pos hPremise]

/- A conclusion ends an inference and starts the next one. -/
theorem inferencesAfter_conclusion
    (hConclusion : step.role ≠ .premise) :
    inferencesAfter read (step :: steps) =
      (read ++ [step.asConclusion])
        :: inferencesAfter [step.asPremise] steps := by
  rw [inferencesAfter, if_neg hConclusion]
  rfl

/- The steps of the first inference go on with those read. -/
theorem inferencesAfter_cons
    (premise : Step)
    (read steps : List Step) :
    inferencesAfter (premise :: read) steps =
      (inferencesAfter read steps).modifyHead (premise :: ·) := by
  induction steps generalizing read with
  | nil => rfl
  | cons step steps ih =>
      by_cases hPremise : step.role = .premise
      · rw [inferencesAfter_premise hPremise,
          inferencesAfter_premise hPremise]
        exact ih (read ++ [step])
      · rw [inferencesAfter_conclusion hPremise,
          inferencesAfter_conclusion hPremise]
        rfl

/- There are no inferences, or the first one has a premise. -/
theorem inferencesAfter_singleton
    (premise : Step)
    (steps : List Step) :
    inferencesAfter [premise] steps = [] ∨
      ∃ first rest,
        inferencesAfter [premise] steps =
          (premise :: first) :: rest := by
  rw [inferencesAfter_cons]
  cases inferencesAfter [] steps with
  | nil => exact Or.inl rfl
  | cons first rest => exact Or.inr ⟨first, rest, rfl⟩

/- Each conclusion ends an inference. -/
theorem length_inferencesAfter (read steps : List Step) :
    (inferencesAfter read steps).length =
      steps.countP (fun s => s.role != .premise) := by
  induction steps generalizing read with
  | nil => rfl
  | cons step steps ih =>
      by_cases hPremise : step.role = .premise
      · rw [inferencesAfter_premise hPremise, ih]
        simp [hPremise]
      · rw [inferencesAfter_conclusion hPremise,
          List.length_cons, ih]
        simp [hPremise]

/- Each part has its main conclusion last, and no other one. -/
theorem inferencesAfter_isInference
    (hRead : ∀ s ∈ read, s.role = .premise) :
    ∀ part ∈ inferencesAfter read steps, IsInference part := by
  induction steps generalizing read with
  | nil => exact fun part hPart => absurd hPart List.not_mem_nil
  | cons step steps ih =>
      by_cases hPremise : step.role = .premise
      · rw [inferencesAfter_premise hPremise]
        refine ih (fun s hs => ?_)
        rcases List.mem_append.mp hs with hOld | hNew
        · exact hRead s hOld
        · rw [List.mem_singleton.mp hNew]
          exact hPremise
      · rw [inferencesAfter_conclusion hPremise]
        refine
          List.forall_mem_cons.mpr
            ⟨⟨read, step.asConclusion, rfl, rfl, hRead⟩,
              ih (fun s hs => ?_)⟩
        rw [List.mem_singleton.mp hs]
        rfl

/- The parts of steps are inferences. -/
theorem inferences_isInference (steps : List Step) :
    ∀ part ∈ inferences steps, IsInference part :=
  inferencesAfter_isInference
    (fun _ hs => absurd hs List.not_mem_nil)

/- Each part continues the one before. -/
theorem inferencesAfter_continue (read steps : List Step) :
    (inferencesAfter read steps).IsChain Continues := by
  induction steps generalizing read with
  | nil => exact .nil
  | cons step steps ih =>
      by_cases hPremise : step.role = .premise
      · rw [inferencesAfter_premise hPremise]
        exact ih _
      · have hRest := ih [step.asPremise]
        rw [inferencesAfter_conclusion hPremise]
        rcases inferencesAfter_singleton step.asPremise steps with
          hNone | ⟨first, rest, hMore⟩
        · rw [hNone]
          exact .singleton _
        · rw [hMore] at hRest ⊢
          refine .cons_cons ⟨step.asConclusion, ?_, rfl⟩ hRest
          exact List.getLast?_concat

/-
  Without the premises that link them, the inferences are the
  steps that were read and those that come.
-/
theorem content_unlinked
    (hCompleted : Completed steps)
    (read : List Step) :
    (unlinked (inferencesAfter read steps)).map Step.content =
      (read ++ steps).map Step.content := by
  induction steps generalizing read with
  | nil =>
      rcases hCompleted with ⟨before, hRoles, _⟩
      simp at hRoles
  | cons step steps ih =>
      by_cases hPremise : step.role = .premise
      · have hMore := hCompleted.ne_nil hPremise
        rw [inferencesAfter_premise hPremise,
          ih (hCompleted.tail hMore), List.append_assoc,
          List.singleton_append]
      · -- after a conclusion, the next part repeats it first
        rw [inferencesAfter_conclusion hPremise]
        by_cases hLast : steps = []
        · subst hLast
          simp [inferencesAfter, unlinked, Step.content,
            Step.asConclusion]
        · have hRest :=
            ih (hCompleted.tail hLast) [step.asPremise]
          rcases inferencesAfter_singleton step.asPremise
              steps with
            hNone | ⟨first, rest, hMore⟩
          · rw [hNone] at hRest
            simp [unlinked] at hRest
          · rw [hMore] at hRest ⊢
            have hLater :
                (first ++ rest.flatMap List.tail).map
                    Step.content =
                  steps.map Step.content := by
              simpa [unlinked] using hRest
            simp only [unlinked, List.flatMap_cons,
              List.tail_cons]
            rw [List.map_append, hLater]
            simp [Step.content, Step.asConclusion]

/- All conclusions but the main one are intermediary. -/
theorem Completed.countP
    (hCompleted : Completed steps) :
    steps.countP (fun s => s.role != .premise) =
      steps.countP
        (fun s => s.role == .intermediaryConclusion) + 1 := by
  rcases hCompleted with ⟨before, hRoles, hOnly⟩
  have hCount : ∀ p : StepRole → Bool,
      steps.countP (fun s => p s.role) =
        (before ++ [StepRole.mainConclusion]).countP p := by
    intro p
    rw [← hRoles, List.countP_map]
    rfl
  have hSame :
      before.countP (fun role => role != .premise) =
        before.countP
          (fun role => role == .intermediaryConclusion) := by
    apply List.countP_congr
    intro role hRole
    cases role with
    | premise => simp
    | intermediaryConclusion => simp
    | mainConclusion => exact absurd hRole hOnly
  rw [hCount (fun role => role != .premise),
    hCount (fun role => role == .intermediaryConclusion),
    List.countP_append, List.countP_append, hSame]
  rfl

/- An inference has no intermediary conclusion. -/
theorem IsInference.no_intermediary
    {part : List Step}
    (hInference : IsInference part) :
    part.any (fun s => s.role == .intermediaryConclusion) =
      false := by
  rcases hInference with
    ⟨premises, conclusion, rfl, hRole, hPremises⟩
  rw [List.any_eq_false]
  intro s hs
  rcases List.mem_append.mp hs with hPremise | hLast
  · simp [hPremises s hPremise]
  · simp [List.mem_singleton.mp hLast, hRole]

/- Steps with a conclusion have an inference. -/
theorem inferences_ne_nil
    {conclusion : Step}
    (hMem : conclusion ∈ steps)
    (hRole : conclusion.role ≠ .premise) :
    inferences steps ≠ [] := by
  rw [← List.length_pos_iff]
  unfold inferences
  rw [length_inferencesAfter, List.countP_pos_iff]
  exact ⟨conclusion, hMem, by simpa using hRole⟩

/- Completed steps are split into a chain. -/
theorem inferences_isSplit
    (hCompleted : Completed steps) :
    IsSplit steps (inferences steps) where
  length :=
    (length_inferencesAfter [] steps).trans hCompleted.countP
  inference := inferences_isInference steps
  continues := inferencesAfter_continue [] steps
  content := content_unlinked hCompleted []

/- A step without a link is one of a part. -/
theorem mem_of_unlinked
    {parts : List (List Step)}
    (hStep : step ∈ unlinked parts) :
    ∃ part ∈ parts, step ∈ part := by
  cases parts with
  | nil => cases hStep
  | cons first rest =>
      rcases List.mem_append.mp hStep with hFirst | hRest
      · exact ⟨first, List.mem_cons_self, hFirst⟩
      · rcases List.mem_flatMap.mp hRest with
          ⟨part, hPart, hTail⟩
        exact
          ⟨part, List.mem_cons_of_mem first hPart,
            List.mem_of_mem_tail hTail⟩

/- No step is lost when steps are split. -/
theorem IsSplit.mem
    {parts : List (List Step)}
    (hSplit : IsSplit steps parts)
    (hStep : step ∈ steps) :
    ∃ part ∈ parts, ∃ s ∈ part, s.content = step.content := by
  have hContent := List.mem_map_of_mem (f := Step.content) hStep
  rw [← hSplit.content] at hContent
  rcases List.mem_map.mp hContent with ⟨s, hs, hSame⟩
  rcases mem_of_unlinked hs with ⟨part, hPart, hMem⟩
  exact ⟨part, hPart, s, hMem, hSame⟩

end Explosion

end Dialectic
