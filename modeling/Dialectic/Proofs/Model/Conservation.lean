import Dialectic.Proofs.Model.Derivation

/-
  Deriving relations conserves a model: relations that are
  there stay as they are, and elements only gain the ids of
  new relations that touch them.  Deriving once more adds
  nothing.

  Key definitions include:
    * `Relation.IsConsequence`
    * `Relation.Gains`
    * `Model.Conserved`

  Main theorems:
    * `Model.appendRelation_conserved`
    * `Derivation.foldl_consider_conserved`
    * `Derivation.foldl_consider_of_settled`
    * `Model.Conserved.candidates_eq`
    * `Model.derive_conservative`
-/

namespace Dialectic

namespace Relation

------------------------------------------------------------
-- Gaining Relations
------------------------------------------------------------

/-
  A relation that a rule may add: it is derived, its ends
  differ, and no statement declares it.
-/
structure IsConsequence (r : Relation) : Prop where
  derived : ∃ rule, r.origin = .derived rule
  apart : r.source ≠ r.target
  notUndercut : r.kind ≠ .undercut
  notContradiction : r.kind ≠ .contradiction
  undeclared : r.occurrences = []

/-
  Something that is named by an element gains ids of added
  relations that touch the element, and nothing else.
-/
def Gains
    {α : Type}
    (name : α → Element)
    (gain : α → List Nat → α)
    (added : List Relation)
    (a b : α) : Prop :=
  ∃ ids,
    (∀ id ∈ ids, ∃ r ∈ added,
      r.id = id ∧ r.touches (name a) = true) ∧
      b = gain a ids

section Gains

variable {α : Type}
variable {name : α → Element}
variable {gain : α → List Nat → α}

/- Nothing has to be gained. -/
theorem Gains.refl
    (hNone : ∀ a, gain a [] = a)
    (added : List Relation)
    (a : α) :
    Gains name gain added a a :=
  ⟨[], fun _ hId => absurd hId List.not_mem_nil,
    (hNone a).symm⟩

/- Ids may be gained twice. -/
theorem Gains.trans
    (hName : ∀ a ids, name (gain a ids) = name a)
    (hTwice : ∀ a ids others,
      gain (gain a ids) others = gain a (ids ++ others))
    {added more : List Relation}
    {a b c : α}
    (hFirst : Gains name gain added a b)
    (hSecond : Gains name gain more b c) :
    Gains name gain (added ++ more) a c := by
  rcases hFirst with ⟨ids, hIds, rfl⟩
  rcases hSecond with ⟨others, hOthers, rfl⟩
  refine ⟨ids ++ others, ?_, hTwice a ids others⟩
  intro id hId
  rcases List.mem_append.mp hId with hId | hId
  · rcases hIds id hId with ⟨r, hr, hSame⟩
    exact ⟨r, List.mem_append_left more hr, hSame⟩
  · rcases hOthers id hId with ⟨r, hr, hSame, hTouches⟩
    rw [hName] at hTouches
    exact ⟨r, List.mem_append_right added hr, hSame, hTouches⟩

/-
  When an item notes a relation that touches it, it gains the
  id of the relation, or has it already.
-/
theorem gains_modify
    (hNone : ∀ a, gain a [] = a)
    {r : Relation}
    {note : α → α}
    (hNote : ∀ a, note a = a ∨ note a = gain a [r.id])
    {as : List α}
    {i : Nat}
    (hTouches : ∀ a, as[i]? = some a →
      r.touches (name a) = true) :
    List.Forall₂ (Gains name gain [r]) as
      (as.modify i note) := by
  apply Sequence.forall₂_modify (Gains.refl hNone [r])
  intro a ha
  rcases hNote a with hSame | hMore
  · rw [hSame]
    exact Gains.refl hNone [r] a
  · refine ⟨[r.id], ?_, hMore⟩
    intro id hId
    exact
      ⟨r, List.mem_singleton_self r,
        (List.mem_singleton.mp hId).symm, hTouches a ha⟩

end Gains

end Relation

------------------------------------------------------------
-- Gaining Classes and Arguments
------------------------------------------------------------

/- A class that lists more relations. -/
def EquivalenceClass.gain
    (c : EquivalenceClass)
    (ids : List Nat) : EquivalenceClass :=
  { c with relations := c.relations ++ ids }

/- An argument that lists more relations. -/
def Argument.gain (a : Argument) (ids : List Nat) : Argument :=
  { a with relations := a.relations ++ ids }

/- A class gains ids of added relations that touch it. -/
def EquivalenceClass.Gains :
    List Relation → EquivalenceClass → EquivalenceClass →
      Prop :=
  Relation.Gains (fun c => .statement c.title)
    EquivalenceClass.gain

/- An argument gains ids of added relations that touch it. -/
def Argument.Gains :
    List Relation → Argument → Argument → Prop :=
  Relation.Gains (fun a => .argument a.title) Argument.gain

/- A class need not gain anything. -/
theorem EquivalenceClass.gain_nil (c : EquivalenceClass) :
    c.gain [] = c := by
  simp [EquivalenceClass.gain]

/- An argument need not gain anything. -/
theorem Argument.gain_nil (a : Argument) : a.gain [] = a := by
  simp [Argument.gain]

/- A class may gain relations twice. -/
theorem EquivalenceClass.gains_trans
    {added more : List Relation}
    (c d e : EquivalenceClass)
    (hFirst : EquivalenceClass.Gains added c d)
    (hSecond : EquivalenceClass.Gains more d e) :
    EquivalenceClass.Gains (added ++ more) c e :=
  @Relation.Gains.trans _ _ EquivalenceClass.gain
    (fun _ _ => rfl)
    (fun _ _ _ => by simp [EquivalenceClass.gain])
    _ _ _ _ _ hFirst hSecond

/- An argument may gain relations twice. -/
theorem Argument.gains_trans
    {added more : List Relation}
    (a b c : Argument)
    (hFirst : Argument.Gains added a b)
    (hSecond : Argument.Gains more b c) :
    Argument.Gains (added ++ more) a c :=
  @Relation.Gains.trans _ _ Argument.gain
    (fun _ _ => rfl)
    (fun _ _ _ => by simp [Argument.gain])
    _ _ _ _ _ hFirst hSecond

namespace Model

------------------------------------------------------------
-- Conserved Models
------------------------------------------------------------

/-
  A model and what it becomes when relations are added at its
  end: all else stays, but classes and arguments list the new
  relations that touch them.
-/
structure Conserved
    (m : Model)
    (added : List Relation)
    (n : Model) : Prop where
  statements : n.statements = m.statements
  sections : n.sections = m.sections
  tags : n.tags = m.tags
  relations : n.relations = m.relations ++ added
  numbered :
    added.map Relation.id =
      List.range' m.relations.length added.length
  classes :
    List.Forall₂ (EquivalenceClass.Gains added) m.classes
      n.classes
  arguments :
    List.Forall₂ (Argument.Gains added) m.arguments n.arguments

/- Without new relations nothing has to change. -/
theorem Conserved.refl (m : Model) : m.Conserved [] m where
  statements := rfl
  sections := rfl
  tags := rfl
  relations := (List.append_nil _).symm
  numbered := rfl
  classes :=
    List.forall₂_same.mpr
      (fun c _ =>
        Relation.Gains.refl EquivalenceClass.gain_nil [] c)
  arguments :=
    List.forall₂_same.mpr
      (fun a _ => Relation.Gains.refl Argument.gain_nil [] a)

/- Relations may be added in two steps. -/
theorem Conserved.trans
    {m n k : Model}
    {added more : List Relation}
    (hFirst : m.Conserved added n)
    (hSecond : n.Conserved more k) :
    m.Conserved (added ++ more) k where
  statements := hSecond.statements.trans hFirst.statements
  sections := hSecond.sections.trans hFirst.sections
  tags := hSecond.tags.trans hFirst.tags
  relations := by
    rw [hSecond.relations, hFirst.relations, List.append_assoc]
  numbered := by
    rw [List.map_append, hFirst.numbered, hSecond.numbered,
      hFirst.relations, List.length_append,
      List.length_append, List.range'_append_1]
  classes :=
    Sequence.forall₂_trans EquivalenceClass.gains_trans
      hFirst.classes hSecond.classes
  arguments :=
    Sequence.forall₂_trans Argument.gains_trans
      hFirst.arguments hSecond.arguments

------------------------------------------------------------
-- Adding a Relation
------------------------------------------------------------

/-
  Only elements that a relation touches list it, and nothing
  but their lists of relations changes.
-/
theorem linkEnd_gains
    (m : Model)
    {r : Relation}
    {element : Element}
    (hTouches : r.touches element = true) :
    List.Forall₂ (EquivalenceClass.Gains [r]) m.classes
        (m.linkEnd element r.id).classes ∧
      List.Forall₂ (Argument.Gains [r]) m.arguments
        (m.linkEnd element r.id).arguments := by
  have hClasses :
      List.Forall₂ (EquivalenceClass.Gains [r]) m.classes
        m.classes :=
    List.forall₂_same.mpr
      (fun c _ =>
        Relation.Gains.refl EquivalenceClass.gain_nil [r] c)
  have hArguments :
      List.Forall₂ (Argument.Gains [r]) m.arguments
        m.arguments :=
    List.forall₂_same.mpr
      (fun a _ => Relation.Gains.refl Argument.gain_nil [r] a)
  cases element with
  | statement title =>
      rw [linkEnd, modifyClass_arguments]
      refine ⟨?_, hArguments⟩
      rw [modifyClass]
      cases hIndex : m.classIndex? title with
      | none => exact hClasses
      | some i =>
          refine
            Relation.gains_modify EquivalenceClass.gain_nil
              ?_ ?_
          · intro c
            by_cases hThere : r.id ∈ c.relations
            · simp [Sequence.addNew_of_mem hThere]
            · simp [Sequence.addNew_of_not_mem hThere,
                EquivalenceClass.gain]
          · intro c hc
            rcases classIndex?_some hIndex with ⟨d, hd, hTitle⟩
            rw [hc] at hd
            cases hd
            rw [hTitle]
            exact hTouches
  | argument title =>
      rw [linkEnd, modifyArgument_classes]
      refine ⟨hClasses, ?_⟩
      rw [modifyArgument]
      cases hIndex : m.argumentIndex? title with
      | none => exact hArguments
      | some i =>
          refine
            Relation.gains_modify Argument.gain_nil ?_ ?_
          · intro a
            by_cases hThere : r.id ∈ a.relations
            · simp [Sequence.addNew_of_mem hThere]
            · simp [Sequence.addNew_of_not_mem hThere,
                Argument.gain]
          · intro a ha
            rcases argumentIndex?_some hIndex with
              ⟨b, hb, hTitle⟩
            rw [ha] at hb
            cases hb
            rw [hTitle]
            exact hTouches

/- Noting a relation at its end leaves the tags. -/
@[simp]
theorem linkEnd_tags
    (m : Model)
    (element : Element)
    (id : Nat) :
    (m.linkEnd element id).tags = m.tags := by
  cases element with
  | statement title =>
      rw [linkEnd, modifyClass]
      cases m.classIndex? title <;> rfl
  | argument title =>
      rw [linkEnd, modifyArgument]
      cases m.argumentIndex? title <;> rfl

/-
  What noting a relation at its two ends changes may count as
  one change.
-/
theorem twice_gains
    {α : Type}
    {name : α → Element}
    {gain : α → List Nat → α}
    {r : Relation}
    {a b : α}
    (hGains : Relation.Gains name gain ([r] ++ [r]) a b) :
    Relation.Gains name gain [r] a b := by
  rcases hGains with ⟨ids, hIds, hEq⟩
  refine ⟨ids, ?_, hEq⟩
  intro id hId
  rcases hIds id hId with ⟨s, hs, hSame⟩
  refine ⟨s, ?_, hSame⟩
  simpa using hs

/- Adding one relation at the end conserves a model. -/
theorem appendRelation_conserved
    (m : Model)
    (source target : Element)
    (kind : RelationKind)
    (origin : Origin)
    (occurrence : Option Nat) :
    m.Conserved
      [⟨m.relations.length, source, target, kind, origin,
        occurrence.toList⟩]
      (m.appendRelation source target kind origin
        occurrence) := by
  let r : Relation :=
    ⟨m.relations.length, source, target, kind, origin,
      occurrence.toList⟩
  have hSource : r.touches source = true := by
    simp [r, Relation.touches]
  have hTarget : r.touches target = true := by
    simp [r, Relation.touches]
  rcases linkEnd_gains m hSource with
    ⟨hClasses, hArguments⟩
  rcases linkEnd_gains (m.linkEnd source r.id) hTarget with
    ⟨hMoreClasses, hMoreArguments⟩
  exact
    { statements := by simp [appendRelation]
      sections := by simp [appendRelation, linkEnd_sections]
      tags := by simp [appendRelation]
      relations := by simp [appendRelation]
      numbered := rfl
      classes :=
        Sequence.forall₂_trans
          (fun c d e hc hd =>
            twice_gains
              (EquivalenceClass.gains_trans c d e hc hd))
          hClasses hMoreClasses
      arguments :=
        Sequence.forall₂_trans
          (fun a b c ha hb =>
            twice_gains (Argument.gains_trans a b c ha hb))
          hArguments hMoreArguments }

end Model

namespace Derivation

------------------------------------------------------------
-- Considering Candidates
------------------------------------------------------------

/- No undercut is promoted. -/
theorem Promotes.ne_undercut
    {given kind : RelationKind}
    (hKind : Promotes given kind) :
    kind ≠ .undercut := by
  cases hKind <;> simp

/- No undercut is carried. -/
theorem Carries.ne_undercut
    {given kind : RelationKind}
    (hKind : Carries given kind) :
    kind ≠ .undercut := by
  cases hKind <;> simp

/- No rule yields an undercut. -/
theorem Yields.ne_undercut
    {m : Model}
    {source target : Element}
    {kind : RelationKind}
    (hYields : Yields m source target kind) :
    kind ≠ .undercut := by
  cases hYields with
  | promoted _ _ _ hKind _ => exact hKind.ne_undercut
  | premiseAttack => simp
  | carried _ _ _ hKind _ _ _ => exact hKind.ne_undercut
  | answered _ hKind _ _ =>
      rcases hKind with hKind | hKind <;> simp [hKind]

/-
  Considering candidates conserves the model.  What they
  become are consequences.
-/
theorem foldl_consider_conserved
    (policy : ConflictPolicy)
    {cs : List Candidate}
    (hKinds : ∀ c ∈ cs,
      c.kind ≠ .undercut ∧ c.kind ≠ .contradiction)
    (m : Model)
    (counts : Counts) :
    ∃ added,
      m.Conserved added
          (cs.foldl (consider policy) (m, counts)).1 ∧
        ∀ r ∈ added, r.IsConsequence := by
  induction cs generalizing m counts with
  | nil =>
      exact
        ⟨[], .refl m, fun _ hr => absurd hr List.not_mem_nil⟩
  | cons c cs ih =>
      have hRest : ∃ added,
          (consider policy (m, counts) c).1.Conserved added
              (cs.foldl (consider policy)
                (consider policy (m, counts) c)).1 ∧
            ∀ r ∈ added, r.IsConsequence :=
        ih (fun d hd => hKinds d (List.mem_cons_of_mem c hd))
          _ _
      rcases hRest with ⟨added, hConserved, hAdded⟩
      rw [List.foldl_cons]
      rcases consider_cases policy m counts c with
        ⟨hApart, _, _, hEq⟩ | ⟨_, hModel, _⟩
      · rw [hEq] at hConserved ⊢
        refine
          ⟨_, (m.appendRelation_conserved c.source c.target
            c.kind (.derived c.rule) none).trans hConserved,
            ?_⟩
        intro r hr
        rcases List.mem_append.mp hr with hFirst | hLater
        · rw [List.mem_singleton.mp hFirst]
          have hKind := hKinds c List.mem_cons_self
          exact ⟨⟨c.rule, rfl⟩, hApart, hKind.1, hKind.2, rfl⟩
        · exact hAdded r hLater
      · refine ⟨added, ?_, hAdded⟩
        rw [hModel] at hConserved
        exact hConserved

/- A candidate that adds nothing to a model. -/
def Settled
    (m : Model)
    (policy : ConflictPolicy)
    (c : Candidate) : Prop :=
  c.source = c.target ∨
    m.Connects c.source c.target c.kind ∨
    ¬ Allowed m policy c.source c.target

/- Candidates that are settled leave the model as it is. -/
theorem foldl_consider_of_settled
    (policy : ConflictPolicy)
    {m : Model}
    {cs : List Candidate}
    (hSettled : ∀ c ∈ cs, Settled m policy c)
    (counts : Counts) :
    (cs.foldl (consider policy) (m, counts)).1 = m ∧
      (cs.foldl (consider policy) (m, counts)).2.total =
        counts.total := by
  induction cs generalizing counts with
  | nil => exact ⟨rfl, rfl⟩
  | cons c cs ih =>
      rcases consider_cases policy m counts c with
        ⟨hApart, hNew, hAllowed, _⟩ | ⟨_, hModel, hTotal⟩
      · rcases hSettled c List.mem_cons_self with
          hLoop | hKnown | hNot
        · exact absurd hLoop hApart
        · exact absurd hKnown hNew
        · exact absurd hAllowed hNot
      · have hRest :=
          ih (fun d hd => hSettled d (List.mem_cons_of_mem c hd))
            (consider policy (m, counts) c).2
        have hState :
            consider policy (m, counts) c =
              (m, (consider policy (m, counts) c).2) :=
          Prod.ext hModel rfl
        rw [List.foldl_cons, hState]
        exact ⟨hRest.1, hRest.2.trans hTotal⟩

end Derivation

namespace Model

------------------------------------------------------------
-- Derived Relations
------------------------------------------------------------

/- The rules do not see which relations an element lists. -/
theorem argumentCandidates_gain
    (explicit : List Relation)
    (a : Argument)
    (ids : List Nat) :
    Derivation.argumentCandidates explicit (a.gain ids) =
      Derivation.argumentCandidates explicit a :=
  rfl

/- Added consequences leave the declared relations. -/
theorem Conserved.explicitRelations_eq
    {m n : Model}
    {added : List Relation}
    (hConserved : m.Conserved added n)
    (hAdded : ∀ r ∈ added, r.IsConsequence) :
    n.explicitRelations = m.explicitRelations := by
  have hNone : added.filter Relation.isExplicit = [] := by
    rw [List.filter_eq_nil_iff]
    intro r hr
    rcases (hAdded r hr).derived with ⟨rule, hOrigin⟩
    simp [Relation.isExplicit, hOrigin, Origin.isExplicit]
  rw [explicitRelations, hConserved.relations,
    List.filter_append, hNone, List.append_nil]
  rfl

/- Added consequences leave the candidates. -/
theorem Conserved.candidates_eq
    {m n : Model}
    {added : List Relation}
    (hConserved : m.Conserved added n)
    (hAdded : ∀ r ∈ added, r.IsConsequence) :
    Derivation.candidates n = Derivation.candidates m := by
  have hArguments : ∀ {as bs : List Argument},
      List.Forall₂ (Argument.Gains added) as bs →
        bs.flatMap
            (Derivation.argumentCandidates
              m.explicitRelations) =
          as.flatMap
            (Derivation.argumentCandidates
              m.explicitRelations) := by
    intro as bs hAll
    induction hAll with
    | nil => rfl
    | cons hGains _ ih =>
        rcases hGains with ⟨ids, _, rfl⟩
        rw [List.flatMap_cons, List.flatMap_cons, ih,
          argumentCandidates_gain]
  simp only [Derivation.candidates,
    hConserved.explicitRelations_eq hAdded,
    hArguments hConserved.arguments]

/- What the derivation adds are consequences. -/
theorem derive_conserved
    (m : Model)
    (policy : ConflictPolicy) :
    ∃ added,
      m.Conserved added (m.derive policy).1 ∧
        ∀ r ∈ added, r.IsConsequence :=
  Derivation.foldl_consider_conserved policy
    (fun _ hc =>
      let hYields := Derivation.yields_of_mem_candidates hc
      ⟨hYields.ne_undercut, hYields.ne_contradiction⟩)
    m Derivation.Counts.zero

/- The derivation leaves no candidate that is not settled. -/
theorem derive_settles
    (m : Model)
    (policy : ConflictPolicy)
    {c : Derivation.Candidate}
    (hMem : c ∈ Derivation.candidates m) :
    Derivation.Settled (m.derive policy).1 policy c := by
  have hConsidered := derive_considered m policy
  by_cases hApart : c.source = c.target
  · exact .inl hApart
  by_cases hAllowed :
      Derivation.Allowed m policy c.source c.target
  · refine .inr (.inl ?_)
    rw [connects_iff]
    exact
      .inl ((hConsidered.triples c.triple).mpr
        (.inr ⟨c, hMem, rfl, hApart, hAllowed⟩))
  · refine .inr (.inr ?_)
    rw [Derivation.allowed_congr hConsidered.declared]
    exact hAllowed

/-
  Deriving relations is conservative and idempotent.  Stored
  relations stay in their places, consequences follow them,
  and all else stays, too, but for the lists of relations of
  the elements at the ends of new ones.  Deriving once more
  adds nothing and leaves the model as it is.
-/
theorem derive_conservative
    (m : Model)
    (policy : ConflictPolicy) :
    (∃ added,
        m.Conserved added (m.derive policy).1 ∧
          ∀ r ∈ added, r.IsConsequence) ∧
      ((m.derive policy).1.derive policy).1 =
        (m.derive policy).1 ∧
      ((m.derive policy).1.derive policy).2.total = 0 := by
  rcases derive_conserved m policy with
    ⟨added, hConserved, hAdded⟩
  refine ⟨⟨added, hConserved, hAdded⟩, ?_⟩
  have hSettled : ∀ c ∈
      Derivation.candidates (m.derive policy).1,
      Derivation.Settled (m.derive policy).1 policy c := by
    intro c hc
    rw [hConserved.candidates_eq hAdded] at hc
    exact derive_settles m policy hc
  exact
    Derivation.foldl_consider_of_settled policy hSettled
      Derivation.Counts.zero

end Model

end Dialectic
