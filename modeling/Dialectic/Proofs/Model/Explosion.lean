import Dialectic.Proofs.Model.Division
import Dialectic.Proofs.Model.Steps
import Mathlib.Logic.Function.Basic

/-
  Arguments with several inferences are split without loss:
  each one into a chain of parts with one inference each.  All
  other arguments and all relations stay as they are, and
  nothing is left to be split.

  Key definitions include:
    * `Explosion.Explodes`

  Main theorems:
    * `Explosion.Divides.explodes`
    * `Explosion.foldl_explodes`
    * `Explosion.Explodes.cases`
    * `Explosion.Explodes.single`
    * `Model.explode_chains`
-/

namespace Dialectic

namespace Explosion

variable {m n : Model}

/-
  Some arguments have been split, each one into parts with
  titles of its own; the other ones and all relations are as
  before.
-/
structure Explodes
    (arguments : List Argument)
    (fresh : String → List String)
    (m n : Model) : Prop where
  statements : n.statements = m.statements
  titles : n.argumentTitles =
    m.argumentTitles
      ++ arguments.flatMap (fun a => fresh a.title)
  steps : ∀ a ∈ arguments,
    (fresh a.title ++ [a.title]).map n.stepsOf =
      inferences a.steps
  origins : ∀ a ∈ arguments, ∀ title ∈ fresh a.title,
    ∃ b, n.argument? title = some b ∧ ComesFrom b a.title
  supports : ∀ a ∈ arguments,
    (fresh a.title ++ [a.title]).IsChain n.Supports
  others : ∀ title ∈ m.argumentTitles,
    title ∉ arguments.map Argument.title →
      n.argument? title = m.argument? title
  relations : m.relations <+: n.relations

/- Nothing changes if no argument is split. -/
theorem Explodes.nil (m : Model) :
    Explodes [] (fun _ => []) m m where
  statements := rfl
  titles := (List.append_nil _).symm
  steps := fun _ hNone => absurd hNone List.not_mem_nil
  origins := fun _ hNone => absurd hNone List.not_mem_nil
  supports := fun _ hNone => absurd hNone List.not_mem_nil
  others := fun _ _ _ => rfl
  relations := List.prefix_rfl

/- The parts of an argument have titles that are new. -/
theorem Divides.new
    {origin : Argument}
    {parts : List (List Step)}
    {fresh : List String}
    (hDivides : Divides origin none parts fresh m n)
    (hUnique : n.argumentTitles.Nodup) :
    ∀ title ∈ fresh, title ∉ m.argumentTitles := by
  intro title hTitle hOld
  rw [hDivides.titles, List.nodup_append] at hUnique
  exact hUnique.2.2 title hOld title hTitle rfl

/- Parts of an argument are not changed when others are split. -/
theorem Divides.kept
    {k : Model}
    {origin : Argument}
    {parts : List (List Step)}
    {here : List String}
    {arguments : List Argument}
    {fresh : String → List String}
    (hDivides : Divides origin none parts here m k)
    (hRest : Explodes arguments fresh k n)
    (hUnique : k.argumentTitles.Nodup)
    (hThere : ∀ b ∈ origin :: arguments,
      b.title ∈ m.argumentTitles)
    (hApart : origin.title ∉ arguments.map Argument.title) :
    ∀ title ∈ here ++ [origin.title],
      n.argument? title = k.argument? title := by
  intro title hTitle
  rcases List.mem_append.mp hTitle with hPart | hLast
  · refine hRest.others title ?_ (fun hOther => ?_)
    · rw [hDivides.titles]
      exact List.mem_append_right _ hPart
    · rcases List.mem_map.mp hOther with ⟨b, hb, rfl⟩
      exact
        hDivides.new hUnique b.title hPart
          (hThere b (List.mem_cons_of_mem origin hb))
  · rw [List.mem_singleton.mp hLast]
    refine hRest.others origin.title ?_ hApart
    rw [hDivides.titles]
    exact
      List.mem_append_left _ (hThere origin List.mem_cons_self)

/- An argument may be split before other ones. -/
theorem Divides.explodes
    {k : Model}
    {a : Argument}
    {arguments : List Argument}
    {here : List String}
    {fresh : String → List String}
    (hDivides : Divides a none (inferences a.steps) here m k)
    (hRest : Explodes arguments fresh k n)
    (hUnique : k.argumentTitles.Nodup)
    (hThere : ∀ b ∈ a :: arguments,
      b.title ∈ m.argumentTitles)
    (hApart : a.title ∉ arguments.map Argument.title) :
    Explodes (a :: arguments)
      (Function.update fresh a.title here) m n := by
  have hKept := hDivides.kept hRest hUnique hThere hApart
  have hOthers : ∀ b ∈ arguments,
      Function.update fresh a.title here b.title =
        fresh b.title := by
    intro b hb
    refine Function.update_of_ne (fun hSame => ?_) _ _
    exact hApart (hSame ▸ List.mem_map_of_mem hb)
  constructor
  · exact hRest.statements.trans hDivides.statements
  · rw [hRest.titles, hDivides.titles, List.flatMap_cons,
      Function.update_self, List.append_assoc]
    congr 2
    exact List.flatMap_congr (fun b hb => (hOthers b hb).symm)
  · refine List.forall_mem_cons.mpr ⟨?_, fun b hb => ?_⟩
    · rw [Function.update_self, ← hDivides.steps]
      apply List.map_congr_left
      intro title hTitle
      simp only [Model.stepsOf, hKept title hTitle]
    · rw [hOthers b hb]
      exact hRest.steps b hb
  · refine List.forall_mem_cons.mpr ⟨?_, fun b hb => ?_⟩
    · rw [Function.update_self]
      intro title hTitle
      rw [hKept title (List.mem_append_left _ hTitle)]
      exact hDivides.origins title hTitle
    · rw [hOthers b hb]
      exact hRest.origins b hb
  · refine List.forall_mem_cons.mpr ⟨?_, fun b hb => ?_⟩
    · rw [Function.update_self]
      exact
        hDivides.supports.imp
          (fun _ _ hSupports =>
            hSupports.mono hRest.relations.subset)
    · rw [hOthers b hb]
      exact hRest.supports b hb
  · intro title hTitle hOther
    rw [List.map_cons, List.mem_cons, not_or] at hOther
    have hSecond :
        n.argument? title = k.argument? title := by
      refine hRest.others title ?_ hOther.2
      rw [hDivides.titles]
      exact List.mem_append_left _ hTitle
    exact
      hSecond.trans
        (hDivides.others title
          (fun hPart =>
            hDivides.new hUnique title hPart hTitle)
          hOther.1 (by simp))
  · exact hDivides.relations.trans hRest.relations

/- Splitting some arguments one after the other. -/
theorem foldl_explodes
    {arguments : List Argument}
    (hCoherent : m.Coherent)
    (hUnique : (arguments.map Argument.title).Nodup)
    (hThere : ∀ a ∈ arguments,
      m.argument? a.title = some a ∧
        a.hasSeveralInferences = true) :
    ∃ fresh,
      Explodes arguments fresh m
        ((arguments.map Argument.title).foldl split m) := by
  induction arguments generalizing m with
  | nil => exact ⟨_, .nil m⟩
  | cons a arguments ih =>
      rw [List.map_cons, List.nodup_cons] at hUnique
      rcases hThere a List.mem_cons_self with
        ⟨hFound, hSeveral⟩
      rcases split_divides hCoherent hFound hSeveral with
        ⟨here, hDivides⟩
      have hSplit := (hCoherent.split a.title).coherent
      have hTitles : ∀ b ∈ a :: arguments,
          b.title ∈ m.argumentTitles := fun b hb =>
        List.mem_map_of_mem
          ((hCoherent.linked.argument?_iff b.title b).mp
            (hThere b hb).1).1
      have hLater : ∀ b ∈ arguments,
          (split m a.title).argument? b.title = some b ∧
            b.hasSeveralInferences = true := by
        intro b hb
        have hKnown := hThere b (List.mem_cons_of_mem a hb)
        refine ⟨?_, hKnown.2⟩
        rw [← hKnown.1]
        refine hDivides.others b.title ?_ ?_ (by simp)
        · intro hPart
          exact
            hDivides.new hSplit.linked.argumentTitles b.title
              hPart (hTitles b (List.mem_cons_of_mem a hb))
        · exact fun hSame =>
            hUnique.1 (hSame ▸ List.mem_map_of_mem hb)
      rcases ih hSplit hUnique.2 hLater with ⟨fresh, hRest⟩
      exact
        ⟨_,
          hDivides.explodes hRest hSplit.linked.argumentTitles
            hTitles hUnique.1⟩

/- An argument of a single inference is left as it is. -/
theorem Explodes.argument?_single
    {fresh : String → List String}
    (hExplodes :
      Explodes
        (m.arguments.filter Argument.hasSeveralInferences)
        fresh m n)
    (hBefore : m.Linked)
    {a : Argument}
    (hThere : a ∈ m.arguments)
    (hSingle : a.hasSeveralInferences = false) :
    n.argument? a.title = some a := by
  have hFound :=
    (hBefore.argument?_iff a.title a).mpr ⟨hThere, rfl⟩
  rw [hExplodes.others a.title (List.mem_map_of_mem hThere),
    hFound]
  intro hSplit
  rcases List.mem_map.mp hSplit with ⟨b, hb, hTitle⟩
  rcases List.mem_filter.mp hb with ⟨hMem, hSeveral⟩
  have hSame :=
    (hBefore.argument?_iff a.title b).mpr ⟨hMem, hTitle⟩
  rw [hFound, Option.some.injEq] at hSame
  rw [hSame, hSeveral] at hSingle
  cases hSingle

/-
  After all arguments are split, each one has either been left
  as it was or has the steps of an inference.
-/
theorem Explodes.cases
    {fresh : String → List String}
    (hExplodes :
      Explodes
        (m.arguments.filter Argument.hasSeveralInferences)
        fresh m n)
    (hBefore : m.Linked)
    (hAfter : n.Linked)
    {b : Argument}
    (hMem : b ∈ n.arguments) :
    (b ∈ m.arguments ∧ b.hasSeveralInferences = false) ∨
      ∃ a ∈ m.arguments, b.steps ∈ inferences a.steps := by
  have hPart : ∀ a ∈
      m.arguments.filter Argument.hasSeveralInferences,
      b.title ∈ fresh a.title ++ [a.title] →
        ∃ a ∈ m.arguments, b.steps ∈ inferences a.steps := by
    intro a ha hTitle
    have hSteps := List.mem_map_of_mem (f := n.stepsOf) hTitle
    rw [hExplodes.steps a ha, hAfter.stepsOf_eq hMem] at hSteps
    exact ⟨a, (List.mem_filter.mp ha).1, hSteps⟩
  have hTitles : b.title ∈ n.argumentTitles :=
    List.mem_map_of_mem hMem
  rw [hExplodes.titles, List.mem_append, List.mem_flatMap]
    at hTitles
  rcases hTitles with hOld | ⟨a, ha, hFresh⟩
  · by_cases hSplit :
        b.title ∈
          (m.arguments.filter
            Argument.hasSeveralInferences).map Argument.title
    · rcases List.mem_map.mp hSplit with ⟨a, ha, hSame⟩
      exact Or.inr (hPart a ha (by simp [hSame]))
    · have hFound :=
        (hAfter.argument?_iff b.title b).mpr ⟨hMem, rfl⟩
      rw [hExplodes.others b.title hOld hSplit] at hFound
      have hThere :=
        ((hBefore.argument?_iff b.title b).mp hFound).1
      refine Or.inl ⟨hThere, ?_⟩
      rw [Bool.eq_false_iff]
      intro hSeveral
      exact
        hSplit
          (List.mem_map_of_mem
            (List.mem_filter.mpr ⟨hThere, hSeveral⟩))
  · exact Or.inr (hPart a ha (List.mem_append_left _ hFresh))

/- After all arguments are split, each has one inference. -/
theorem Explodes.single
    {fresh : String → List String}
    (hExplodes :
      Explodes
        (m.arguments.filter Argument.hasSeveralInferences)
        fresh m n)
    (hBefore : m.Linked)
    (hAfter : n.Linked) :
    ∀ b ∈ n.arguments, b.hasSeveralInferences = false := by
  intro b hb
  rcases hExplodes.cases hBefore hAfter hb with
    ⟨_, hSingle⟩ | ⟨a, _, hPart⟩
  · exact hSingle
  · exact
      (inferences_isInference a.steps _ hPart).no_intermediary

end Explosion

namespace Model

open Explosion

variable {m : Model}

/- Exploding a model splits all arguments that it should. -/
theorem Coherent.explodes (hCoherent : m.Coherent) :
    ∃ fresh,
      Explodes
        (m.arguments.filter Argument.hasSeveralInferences)
        fresh m m.explode.1 := by
  refine foldl_explodes hCoherent ?_ (fun a ha => ?_)
  · exact
      hCoherent.linked.argumentTitles.sublist
        (List.filter_sublist.map Argument.title)
  · rcases List.mem_filter.mp ha with ⟨hMem, hSeveral⟩
    exact
      ⟨(hCoherent.linked.argument?_iff a.title a).mpr
          ⟨hMem, rfl⟩,
        hSeveral⟩

/- The steps of an argument of several inferences are formed. -/
theorem Stepped.formed_several
    {q : List Step → Prop}
    (hStepped : m.Stepped q)
    (hLinked : m.Linked)
    {a : Argument}
    (hSeveral :
      a ∈ m.arguments.filter Argument.hasSeveralInferences) :
    q a.steps := by
  rcases List.mem_filter.mp hSeveral with ⟨hThere, hSteps⟩
  have hFormed := hStepped.formed a.title
  rw [hLinked.stepsOf_eq hThere] at hFormed
  refine hFormed.resolve_left (fun hNone => ?_)
  rw [Argument.hasSeveralInferences, hNone] at hSteps
  cases hSteps

end Model

end Dialectic
