import Dialectic.Notation.Yaml.Reader
import Dialectic.Proofs.Model.Explosion

/-
  Statements have the roles of the steps that they stand for.
  The builder gives both at once, so that neither is without the
  other.  When arguments are split, the roles go on naming the
  argument of the document, while its steps are in the parts
  that it has been split into.

  Key definitions include:
    * `Model.TakesPart`
    * `Model.PartOf`

  Main theorems:
    * `Model.Stepped.step_of_role`
    * `Model.Stepped.takesPart`
    * `Explosion.Explodes.step_of_step`
    * `Model.roles_follow_steps`
-/

namespace Dialectic

namespace Model

open Explosion

variable {m n : Model} {q : List Step → Prop}

/- The class of a title has a member that is a step. -/
def TakesPart (m : Model) (title : String) : Prop :=
  ∃ c ∈ m.classes, c.title = title ∧
    ∃ s ∈ m.statements, s.id ∈ c.members ∧
      s.role.isStep = true

/-
  An argument is another one, or it has been split off from it
  since the model was `m`.
-/
def PartOf (m n : Model) (part whole : String) : Prop :=
  part = whole ∨
    part ∉ m.argumentTitles ∧
      ∃ b, n.argument? part = some b ∧ ComesFrom b whole

/- All statements of a title are members of its class. -/
theorem Linked.takesPart_iff
    (hLinked : m.Linked)
    (title : String) :
    m.TakesPart title ↔
      ∃ s ∈ m.statements, s.title = title ∧
        s.role.isStep = true := by
  constructor
  · rintro ⟨c, hClass, rfl, s, hs, hMember, hRole⟩
    exact
      ⟨s, hs, (hLinked.mem_members_iff hs hClass).mp hMember,
        hRole⟩
  · rintro ⟨s, hs, rfl, hRole⟩
    have hHome := hLinked.homes s hs
    rw [contains, ← class?_isSome] at hHome
    rcases Option.isSome_iff_exists.mp hHome with ⟨c, hc⟩
    rcases (hLinked.class?_iff s.title c).mp hc with
      ⟨hClass, hTitle⟩
    exact
      ⟨c, hClass, hTitle, s, hs,
        (hLinked.mem_members_iff hs hClass).mpr hTitle.symm,
        hRole⟩

/- The step that the role of a statement names is there. -/
theorem Stepped.step_of_role
    (hStepped : m.Stepped q)
    {s : Statement}
    (hs : s ∈ m.statements)
    {r : StepRole}
    {argument : String}
    {number : Nat}
    (hRole : s.role = r.inArgument argument number) :
    ∃ step ∈ m.stepsOf argument,
      step.number = number ∧ step.title = s.title ∧
        step.role = r := by
  have hPlayed : s.part ∈ m.played := by
    refine
      List.mem_filter.mpr ⟨List.mem_map_of_mem hs, ?_⟩
    rw [Statement.part, hRole]
    exact StepRole.inArgument_isStep r argument number
  rcases (hStepped.played s.part).mp hPlayed with
    ⟨other, step, hStep, hPart⟩
  rw [Statement.part, Step.part, Prod.mk.injEq, hRole,
    StepRole.inArgument_inj] at hPart
  rcases hPart with ⟨hTitle, hSame, rfl, hNumber⟩
  exact
    ⟨step, hStep, hNumber.symm, hTitle.symm, hSame.symm⟩

/- There is a statement for each step of an argument. -/
theorem Stepped.takesPart
    (hStepped : m.Stepped q)
    (hLinked : m.Linked)
    {a : Argument}
    (hThere : a ∈ m.arguments)
    {step : Step}
    (hStep : step ∈ a.steps) :
    m.TakesPart step.title := by
  have hSteps : step ∈ m.stepsOf a.title :=
    (hLinked.stepsOf_eq hThere).symm ▸ hStep
  have hPlayed :=
    (hStepped.played (step.part a.title)).mpr
      ⟨a.title, step, hSteps, rfl⟩
  rcases List.mem_filter.mp hPlayed with ⟨hPart, hIsStep⟩
  rcases List.mem_map.mp hPart with ⟨s, hs, hSame⟩
  rw [Statement.part, Step.part, Prod.mk.injEq] at hSame
  rw [Step.part, ← hSame.2] at hIsStep
  exact
    (hLinked.takesPart_iff step.title).mpr
      ⟨s, hs, hSame.1, hIsStep⟩

end Model

namespace Explosion

open Model

variable {m n : Model} {fresh : String → List String}

/- What an argument is split into are parts of it. -/
theorem Explodes.partOf
    {arguments : List Argument}
    (hExplodes : Explodes arguments fresh m n)
    (hAfter : n.Linked)
    {a : Argument}
    (hSplit : a ∈ arguments)
    {title : String}
    (hTitle : title ∈ fresh a.title ++ [a.title]) :
    PartOf m n title a.title := by
  rcases List.mem_append.mp hTitle with hFresh | hLast
  · have hUnique := hAfter.argumentTitles
    rw [hExplodes.titles, List.nodup_append] at hUnique
    refine
      Or.inr
        ⟨fun hOld => ?_,
          hExplodes.origins a hSplit title hFresh⟩
    exact
      hUnique.2.2 title hOld title
        (List.mem_flatMap.mpr ⟨a, hSplit, hFresh⟩) rfl
  · exact Or.inl (List.mem_singleton.mp hLast)

/- After splitting, each step of an argument is in a part. -/
theorem Explodes.step_of_step
    (hExplodes :
      Explodes
        (m.arguments.filter Argument.hasSeveralInferences)
        fresh m n)
    (hBefore : m.Linked)
    (hAfter : n.Linked)
    (hStepped : m.Stepped Completed)
    {argument : String}
    {step : Step}
    (hStep : step ∈ m.stepsOf argument) :
    ∃ part, PartOf m n part argument ∧
      ∃ s ∈ n.stepsOf part, s.content = step.content := by
  cases hFound : m.argument? argument with
  | none =>
      rw [stepsOf, hFound] at hStep
      cases hStep
  | some a =>
      rw [stepsOf, hFound] at hStep
      rcases (hBefore.argument?_iff argument a).mp hFound with
        ⟨hThere, rfl⟩
      cases hSeveral : a.hasSeveralInferences with
      | false =>
          refine
            ⟨a.title, Or.inl rfl, step, ?_, rfl⟩
          rw [stepsOf,
            hExplodes.argument?_single hBefore hThere hSeveral]
          exact hStep
      | true =>
          have hSplit :=
            List.mem_filter.mpr ⟨hThere, hSeveral⟩
          rcases (inferences_isSplit
              (hStepped.formed_several hBefore hSplit)).mem
              hStep with
            ⟨part, hPart, s, hs, hContent⟩
          rw [← hExplodes.steps a hSplit] at hPart
          rcases List.mem_map.mp hPart with ⟨title, hTitle, rfl⟩
          exact
            ⟨title, hExplodes.partOf hAfter hSplit hTitle, s, hs,
              hContent⟩

/- Splitting gives steps no titles that no step has had. -/
theorem Explodes.step_titles
    (hExplodes :
      Explodes
        (m.arguments.filter Argument.hasSeveralInferences)
        fresh m n)
    (hBefore : m.Linked)
    (hAfter : n.Linked)
    {b : Argument}
    (hThere : b ∈ n.arguments)
    {step : Step}
    (hStep : step ∈ b.steps) :
    ∃ a ∈ m.arguments, ∃ s ∈ a.steps, s.title = step.title := by
  rcases hExplodes.cases hBefore hAfter hThere with
    ⟨hOld, _⟩ | ⟨a, ha, hPart⟩
  · exact ⟨b, hOld, step, hStep, rfl⟩
  · have hTitles :=
      inferencesAfter_titles
        (fun s hs => absurd hs List.not_mem_nil)
        (fun s hs => List.mem_map_of_mem (f := Step.title) hs)
        b.steps hPart step hStep
    exact ⟨a, ha, List.mem_map.mp hTitles⟩

end Explosion

namespace Model

open Explosion

/-
  Roles and steps in the model of a document.  A statement has
  the role of a step if and only if the step is there.  When
  arguments are split, the statements and their roles do not
  change: a step that a role names is in the argument, or in
  one that has been split off from it, and all steps are still
  those of statements.
-/
theorem roles_follow_steps
    [YamlReader]
    (withoutTags : Bool)
    (d : Document) :
    let m := (build withoutTags d).1
    let next := m.explode.1
    (∀ s ∈ m.statements,
      ∀ (r : StepRole) (argument : String) (number : Nat),
        s.role = r.inArgument argument number →
          ∃ step ∈ m.stepsOf argument,
            step.number = number ∧ step.title = s.title ∧
              step.role = r) ∧
    (∀ a ∈ m.arguments, ∀ step ∈ a.steps,
      m.TakesPart step.title) ∧
    next.statements = m.statements ∧
    (∀ a ∈ m.arguments, a.hasSeveralInferences = false →
      next.stepsOf a.title = a.steps) ∧
    (d.Structured → ∀ s ∈ next.statements,
      ∀ (r : StepRole) (argument : String) (number : Nat),
        s.role = r.inArgument argument number →
          ∃ part, PartOf m next part argument ∧
            ∃ step ∈ next.stepsOf part,
              step.number = number ∧ step.title = s.title) ∧
    (∀ input, (Document.read input).document.Structured) ∧
    (∀ b ∈ next.arguments, ∀ step ∈ b.steps,
      next.TakesPart step.title) := by
  intro m next
  have hCoherent : m.Coherent := build_coherent withoutTags d
  have hBefore := hCoherent.linked
  have hAfter : next.Linked := hCoherent.explode.coherent.linked
  have hStepped : m.Stepped (fun _ => True) :=
    build_stepped withoutTags (fun _ _ _ _ _ _ => trivial)
  rcases hCoherent.explodes with ⟨fresh, hExplodes⟩
  have hStatements : next.statements = m.statements :=
    hExplodes.statements
  refine
    ⟨fun s hs r argument number => hStepped.step_of_role hs,
      fun a ha step => hStepped.takesPart hBefore ha,
      hStatements, fun a ha hSingle => ?_,
      fun hStructured s hs r argument number hRole => ?_,
      Document.read_structured, fun b hb step hStep => ?_⟩
  · rw [stepsOf,
      hExplodes.argument?_single hBefore ha hSingle]
  · rw [hStatements] at hs
    rcases hStepped.step_of_role hs hRole with
      ⟨step, hStep, rfl, hTitle, _⟩
    rcases hExplodes.step_of_step hBefore hAfter
        (build_completed withoutTags hStructured) hStep with
      ⟨part, hPart, t, ht, hContent⟩
    rw [Step.content, Step.content, Prod.mk.injEq,
      Prod.mk.injEq] at hContent
    exact
      ⟨part, hPart, t, ht, hContent.1,
        hContent.2.1.trans hTitle⟩
  · rcases hExplodes.step_titles hBefore hAfter hb hStep with
      ⟨a, ha, t, ht, hTitle⟩
    have hPlayed :=
      (hBefore.takesPart_iff t.title).mp
        (hStepped.takesPart hBefore ha ht)
    rw [hTitle, ← hStatements] at hPlayed
    exact (hAfter.takesPart_iff step.title).mpr hPlayed

section

open scoped Yaml

/-
  The premise of the first inference of a split argument is not
  among the steps of the argument that its role names.
-/
theorem roles_left_behind :
    ¬ ∀ (d : Document),
      let next := (build false d).1.explode.1
      ∀ s ∈ next.statements,
        ∀ (r : StepRole) (argument : String) (number : Nat),
          s.role = r.inArgument argument number →
            ∃ step ∈ next.stepsOf argument,
              step.number = number ∧
                step.title = s.title := by
  intro hAll
  let input :=
    "<A>: a #x\n\n(1) [P]: p\n(2) [Q]: q\n"
      ++ "-- modus ponens --\n(3) [I]: i\n----\n(4) [C]: c"
  let next :=
    (build false (Document.read input).document).1.explode.1
  have hThere : ∃ s ∈ next.statements,
      s.role = StepRole.premise.inArgument "A" 1 := by
    decide +kernel
  have hNone : ∀ step ∈ next.stepsOf "A", step.number ≠ 1 := by
    decide +kernel
  rcases hThere with ⟨s, hs, hRole⟩
  rcases hAll (Document.read input).document s hs .premise "A" 1
      hRole with
    ⟨step, hStep, hNumber, _⟩
  exact hNone step hStep hNumber

end

end Model

end Dialectic
