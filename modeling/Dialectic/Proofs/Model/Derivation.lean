import Dialectic.Model.Derive
import Dialectic.Proofs.Model.Links

/-
  What deriving relations adds to a model: what the rules
  yield from the declared relations, as far as the policy
  allows it, in whatever order the model stores its parts.

  Key definitions include:
    * `Relation.Leads`
    * `Model.Joined`
    * `Model.triples`
    * `Derivation.Yields`
    * `Derivation.Allowed`

  Main theorems:
    * `Derivation.yields_of_mem_candidates`
    * `Derivation.mem_candidates_of_yields`
    * `Derivation.consider_cases`
    * `Derivation.considered_foldl`
    * `Model.mem_triples_derive`
    * `Model.derive_connects_iff`
-/

namespace Dialectic

------------------------------------------------------------
-- Declared Relations
------------------------------------------------------------

/-
  A relation leads from one element to another one.  A
  contradiction leads back, too.
-/
def Relation.Leads
    (r : Relation)
    (source target : Element) : Prop :=
  (r.source = source ∧ r.target = target) ∨
    (r.kind = .contradiction ∧
      r.source = target ∧ r.target = source)

/- The ends of a relation, in order, and its kind. -/
def Relation.triple (r : Relation) :
    Element × Element × RelationKind :=
  (r.source, r.target, r.kind)

/- A declared relation leads from one element to another. -/
def Model.Joined (m : Model) (source target : Element) : Prop :=
  ∃ r ∈ m.explicitRelations, r.Leads source target

/- The ends and kinds of all relations of a model. -/
def Model.triples (m : Model) :
    List (Element × Element × RelationKind) :=
  m.relations.map Relation.triple

/-
  Elements are connected if a triple says so.  Those of a
  symmetric kind may be swapped.
-/
theorem Model.connects_iff
    (m : Model)
    (source target : Element)
    (kind : RelationKind) :
    m.Connects source target kind ↔
      (source, target, kind) ∈ m.triples ∨
        (kind.isSymmetric = true ∧
          (target, source, kind) ∈ m.triples) := by
  constructor
  · rintro ⟨r, hr, hEnds⟩
    simp only [Relation.connects, Bool.and_eq_true,
      Bool.or_eq_true, beq_iff_eq] at hEnds
    rcases hEnds with ⟨rfl, ⟨rfl, rfl⟩ | ⟨hBack, rfl, rfl⟩⟩
    · exact Or.inl (List.mem_map_of_mem hr)
    · exact Or.inr ⟨hBack, List.mem_map_of_mem hr⟩
  · rintro (hThere | ⟨hBack, hThere⟩)
    all_goals
      rcases List.mem_map.mp hThere with ⟨r, hr, hSame⟩
      simp only [Relation.triple, Prod.mk.injEq] at hSame
      refine ⟨r, hr, ?_⟩
    · simp [Relation.connects, hSame]
    · simp [Relation.connects, hSame, hBack]

namespace Derivation

------------------------------------------------------------
-- Rules
------------------------------------------------------------

/-
  The kind that an argument's relation has when it takes over
  one of its main conclusion.
-/
inductive Promotes : RelationKind → RelationKind → Prop
| support : Promotes .support .support
| entails : Promotes .entails .support
| attack : Promotes .attack .attack
| contradiction : Promotes .contradiction .attack

/-
  The kind that a main conclusion's relation has when it
  carries one of its argument.
-/
inductive Carries : RelationKind → RelationKind → Prop
| support : Carries .support .entails
| attack : Carries .attack .attack

/-
  What the rules yield from the relations that a model
  declares.

  `promoted`: an argument relates to what its main conclusion
  relates to.  `premiseAttack`: what attacks or contradicts a
  premise attacks its argument.  `carried`: a main conclusion
  carries what its argument declares about other statements.
  `answered`: a statement answers the support or attack of
  another one.
-/
inductive Yields (m : Model) :
    Element → Element → RelationKind → Prop
| promoted
    {a : Argument}
    {conclusion : Step}
    {r : Relation}
    {target : Element}
    {kind : RelationKind}
    (hArgument : a ∈ m.arguments)
    (hConclusion : a.mainConclusion? = some conclusion)
    (hDeclared : r ∈ m.explicitRelations)
    (hKind : Promotes r.kind kind)
    (hLeads : r.Leads (.statement conclusion.title) target) :
    Yields m (.argument a.title) target kind
| premiseAttack
    {a : Argument}
    {premise : Step}
    {r : Relation}
    {source : Element}
    (hArgument : a ∈ m.arguments)
    (hPremise : premise ∈ a.premises)
    (hDeclared : r ∈ m.explicitRelations)
    (hKind : r.kind = .attack ∨ r.kind = .contradiction)
    (hLeads : r.Leads source (.statement premise.title)) :
    Yields m source (.argument a.title) .attack
| carried
    {a : Argument}
    {conclusion : Step}
    {r : Relation}
    {title : String}
    {kind : RelationKind}
    (hArgument : a ∈ m.arguments)
    (hConclusion : a.mainConclusion? = some conclusion)
    (hDeclared : r ∈ m.explicitRelations)
    (hKind : Carries r.kind kind)
    (hSource : r.source = .argument a.title)
    (hTarget : r.target = .statement title)
    (hOther : title ≠ conclusion.title) :
    Yields m (.statement conclusion.title) (.statement title)
      kind
| answered
    {r : Relation}
    {first second : String}
    (hDeclared : r ∈ m.explicitRelations)
    (hKind : r.kind = .support ∨ r.kind = .attack)
    (hSource : r.source = .statement first)
    (hTarget : r.target = .statement second) :
    Yields m (.statement second) (.statement first) r.kind

/- No contradiction is taken over. -/
theorem Promotes.ne_contradiction
    {given kind : RelationKind}
    (hKind : Promotes given kind) :
    kind ≠ .contradiction := by
  cases hKind <;> simp

/- No contradiction is carried. -/
theorem Carries.ne_contradiction
    {given kind : RelationKind}
    (hKind : Carries given kind) :
    kind ≠ .contradiction := by
  cases hKind <;> simp

/- No rule yields a contradiction. -/
theorem Yields.ne_contradiction
    {m : Model}
    {source target : Element}
    {kind : RelationKind}
    (hYields : Yields m source target kind) :
    kind ≠ .contradiction := by
  cases hYields with
  | promoted _ _ _ hKind _ => exact hKind.ne_contradiction
  | premiseAttack => simp
  | carried _ _ _ hKind _ _ _ => exact hKind.ne_contradiction
  | answered _ hKind _ _ =>
      rcases hKind with hKind | hKind <;> simp [hKind]

/- The rules only read arguments and declared relations. -/
theorem Yields.mono
    {m n : Model}
    (hArguments : m.arguments ⊆ n.arguments)
    (hDeclared : m.explicitRelations ⊆ n.explicitRelations)
    {source target : Element}
    {kind : RelationKind}
    (hYields : Yields m source target kind) :
    Yields n source target kind := by
  cases hYields with
  | promoted hArgument hConclusion hRelation hKind hLeads =>
      exact .promoted (hArguments hArgument) hConclusion
        (hDeclared hRelation) hKind hLeads
  | premiseAttack hArgument hPremise hRelation hKind hLeads =>
      exact .premiseAttack (hArguments hArgument) hPremise
        (hDeclared hRelation) hKind hLeads
  | carried hArgument hConclusion hRelation hKind hSource
      hTarget hOther =>
      exact .carried (hArguments hArgument) hConclusion
        (hDeclared hRelation) hKind hSource hTarget hOther
  | answered hRelation hKind hSource hTarget =>
      exact .answered (hDeclared hRelation) hKind hSource
        hTarget

------------------------------------------------------------
-- Candidates of One Relation
------------------------------------------------------------

/- The ends of a candidate, in order, and its kind. -/
def Candidate.triple (c : Candidate) :
    Element × Element × RelationKind :=
  (c.source, c.target, c.kind)

/- The table of kinds that are taken over. -/
theorem promotedKind?_eq_some_iff
    {given kind : RelationKind} :
    promotedKind? given = some kind ↔ Promotes given kind := by
  constructor
  · intro hKind
    cases given <;> cases hKind <;> constructor
  · intro hKind
    cases hKind <;> rfl

/- The table of kinds that are carried. -/
theorem carriedKind?_eq_some_iff
    {given kind : RelationKind} :
    carriedKind? given = some kind ↔ Carries given kind := by
  constructor
  · intro hKind
    cases given <;> cases hKind <;> constructor
  · intro hKind
    cases hKind <;> rfl

/- The other end of a contradiction is where it leads. -/
theorem otherEnd?_eq_some_iff
    {r : Relation}
    (hKind : r.kind = .contradiction)
    {element other : Element} :
    r.otherEnd? element = some other ↔
      r.Leads element other := by
  unfold Relation.otherEnd? Relation.Leads
  by_cases hSource : r.source = element
  · by_cases hTarget : r.target = element <;>
      simp [hSource, hTarget, hKind, eq_comm]
  · by_cases hTarget : r.target = element <;>
      simp [hSource, hTarget, hKind]

/- A relation of another kind leads from source to target. -/
theorem leads_iff
    {r : Relation}
    (hKind : r.kind ≠ .contradiction)
    {source target : Element} :
    r.Leads source target ↔
      r.source = source ∧ r.target = target := by
  simp [Relation.Leads, hKind]

/- A conclusion speaks about what a relation leads to. -/
theorem promotedTarget?_eq_some_iff
    {r : Relation}
    {conclusion target : Element} :
    promotedTarget? conclusion r = some target ↔
      r.Leads conclusion target := by
  unfold promotedTarget?
  by_cases hKind : r.kind = .contradiction
  · rw [if_pos hKind, otherEnd?_eq_some_iff hKind]
  · rw [if_neg hKind, leads_iff hKind]
    by_cases hSource : r.source = conclusion <;>
      simp [hSource]

/- What attacks or contradicts a premise leads to it. -/
theorem attacker?_eq_some_iff
    {r : Relation}
    {premise source : Element} :
    attacker? premise r = some source ↔
      (r.kind = .attack ∨ r.kind = .contradiction) ∧
        r.Leads source premise := by
  unfold attacker?
  cases hKind : r.kind with
  | attack =>
      have hApart : r.kind ≠ .contradiction := by simp [hKind]
      rw [leads_iff hApart]
      by_cases hTarget : r.target = premise <;>
        simp [hTarget]
  | contradiction =>
      simp only [otherEnd?_eq_some_iff hKind]
      simp [Relation.Leads, hKind, or_comm]
  | support => simp
  | undercut => simp
  | entails => simp

/- What an argument takes over from its main conclusion. -/
theorem promote?_eq_some_iff
    {this conclusion : Element}
    {r : Relation}
    {c : Candidate} :
    promote? this conclusion r = some c ↔
      c.source = this ∧ c.target ≠ this ∧
        c.rule = .conclusionPromotion ∧
        Promotes r.kind c.kind ∧
        r.Leads conclusion c.target := by
  simp only [promote?, Option.bind_eq_bind,
    Option.bind_eq_some_iff, promotedKind?_eq_some_iff,
    promotedTarget?_eq_some_iff]
  constructor
  · rintro ⟨kind, hKind, target, hLeads, hc⟩
    split at hc
    · cases hc
    · next hApart =>
        cases hc
        exact ⟨rfl, hApart, rfl, hKind, hLeads⟩
  · rintro ⟨rfl, hApart, hRule, hKind, hLeads⟩
    refine ⟨c.kind, hKind, c.target, hLeads, ?_⟩
    rw [if_neg hApart, ← hRule]
    rfl

/- What attacks an argument through a premise. -/
theorem attackPremise?_eq_some_iff
    {this premise : Element}
    {r : Relation}
    {c : Candidate} :
    attackPremise? this premise r = some c ↔
      c.target = this ∧ c.source ≠ this ∧
        c.rule = .premiseAttack ∧ c.kind = .attack ∧
        (r.kind = .attack ∨ r.kind = .contradiction) ∧
        r.Leads c.source premise := by
  simp only [attackPremise?, Option.bind_eq_bind,
    Option.bind_eq_some_iff, attacker?_eq_some_iff]
  constructor
  · rintro ⟨source, ⟨hKind, hLeads⟩, hc⟩
    split at hc
    · cases hc
    · next hApart =>
        cases hc
        exact ⟨rfl, hApart, rfl, rfl, hKind, hLeads⟩
  · rintro ⟨rfl, hApart, hRule, hAttack, hKind, hLeads⟩
    refine ⟨c.source, ⟨hKind, hLeads⟩, ?_⟩
    rw [if_neg hApart, ← hRule, ← hAttack]
    rfl

/- What a main conclusion carries for its argument. -/
theorem carry?_eq_some_iff
    {this conclusion : Element}
    {r : Relation}
    {c : Candidate} :
    carry? this conclusion r = some c ↔
      c.source = conclusion ∧ c.target = r.target ∧
        c.rule = .argumentConclusion ∧
        Carries r.kind c.kind ∧
        r.source = this ∧ r.target.isStatement = true ∧
        r.target ≠ conclusion := by
  simp only [carry?, Option.bind_eq_bind,
    Option.bind_eq_some_iff, carriedKind?_eq_some_iff]
  constructor
  · rintro ⟨kind, hKind, hc⟩
    split at hc
    · next hEnds =>
        cases hc
        simp only [Bool.and_eq_true, decide_eq_true_eq,
          bne_iff_ne] at hEnds
        exact
          ⟨rfl, rfl, rfl, hKind, hEnds.1.1, hEnds.1.2,
            hEnds.2⟩
    · cases hc
  · rintro ⟨rfl, hTarget, hRule, hKind, hSource, hStatement,
      hOther⟩
    refine ⟨c.kind, hKind, ?_⟩
    simp only [hSource, hStatement, bne_iff_ne.mpr hOther,
      decide_true, Bool.and_self, if_true]
    rw [← hTarget, ← hRule]
    rfl

/- What a statement answers. -/
theorem answer?_eq_some_iff
    {r : Relation}
    {c : Candidate} :
    answer? r = some c ↔
      c = ⟨r.target, r.source, r.kind, .reciprocal⟩ ∧
        (r.kind = .support ∨ r.kind = .attack) ∧
        r.source.isStatement = true ∧
        r.target.isStatement = true := by
  unfold answer?
  split
  · next hEnds =>
      simp only [Bool.and_eq_true, Bool.or_eq_true,
        beq_iff_eq] at hEnds
      simp only [hEnds, and_self, and_true, Option.some.injEq]
      exact eq_comm
  · next hEnds =>
      simp only [Bool.and_eq_true, Bool.or_eq_true,
        beq_iff_eq] at hEnds
      simp only [false_iff, reduceCtorEq]
      rintro ⟨_, hKind, hSource, hTarget⟩
      exact hEnds ⟨⟨hKind, hSource⟩, hTarget⟩

/- A statement has a title. -/
theorem exists_title_of_isStatement
    {element : Element}
    (hStatement : element.isStatement = true) :
    ∃ title, element = .statement title := by
  cases element with
  | statement title => exact ⟨title, rfl⟩
  | argument title => cases hStatement

------------------------------------------------------------
-- Candidates of a Model
------------------------------------------------------------

/- What is proposed for an argument. -/
theorem mem_argumentCandidates
    {explicit : List Relation}
    {a : Argument}
    {c : Candidate} :
    c ∈ argumentCandidates explicit a ↔
      (∃ conclusion, a.mainConclusion? = some conclusion ∧
        ∃ r ∈ explicit,
          promote? (.argument a.title)
              (.statement conclusion.title) r = some c ∨
            carry? (.argument a.title)
              (.statement conclusion.title) r = some c) ∨
        ∃ premise ∈ a.premises, ∃ r ∈ explicit,
          attackPremise? (.argument a.title)
            (.statement premise.title) r = some c := by
  cases hConclusion : a.mainConclusion? with
  | none => simp [argumentCandidates, hConclusion]
  | some conclusion =>
      simp only [argumentCandidates, hConclusion,
        Option.map_some, List.mem_append, List.mem_filterMap,
        List.mem_flatMap, Option.some.injEq, exists_eq_left']
      grind

/- Each candidate is what a rule yields. -/
theorem yields_of_mem_candidates
    {m : Model}
    {c : Candidate}
    (hMem : c ∈ candidates m) :
    Yields m c.source c.target c.kind := by
  rcases List.mem_append.mp hMem with hArgument | hAnswer
  · rcases List.mem_flatMap.mp hArgument with ⟨a, ha, hMem⟩
    rcases mem_argumentCandidates.mp hMem with
      ⟨conclusion, hConclusion, r, hr, hPromote | hCarry⟩ |
        ⟨premise, hPremise, r, hr, hAttack⟩
    · rcases promote?_eq_some_iff.mp hPromote with
        ⟨hSource, _, _, hKind, hLeads⟩
      rw [hSource]
      exact .promoted ha hConclusion hr hKind hLeads
    · rcases carry?_eq_some_iff.mp hCarry with
        ⟨hSource, hTarget, _, hKind, hThis, hStatement, hOther⟩
      rcases exists_title_of_isStatement hStatement with
        ⟨title, hTitle⟩
      rw [hSource, hTarget, hTitle]
      rw [hTitle] at hOther
      exact
        .carried ha hConclusion hr hKind hThis hTitle
          (fun hSame => hOther (congrArg _ hSame))
    · rcases attackPremise?_eq_some_iff.mp hAttack with
        ⟨hTarget, _, _, hKind, hCon, hLeads⟩
      rw [hTarget, hKind]
      exact .premiseAttack ha hPremise hr hCon hLeads
  · rcases List.mem_filterMap.mp hAnswer with ⟨r, hr, hAnswer⟩
    rcases answer?_eq_some_iff.mp hAnswer with
      ⟨rfl, hKind, hSource, hTarget⟩
    rcases exists_title_of_isStatement hSource with
      ⟨first, hFirst⟩
    rcases exists_title_of_isStatement hTarget with
      ⟨second, hSecond⟩
    have hAnswered :=
      Yields.answered hr hKind hFirst hSecond
    rw [← hFirst, ← hSecond] at hAnswered
    exact hAnswered

/- What a rule yields between two elements is a candidate. -/
theorem mem_candidates_of_yields
    {m : Model}
    {source target : Element}
    {kind : RelationKind}
    (hYields : Yields m source target kind)
    (hApart : source ≠ target) :
    ∃ c ∈ candidates m, c.triple = (source, target, kind) := by
  have hOfArgument : ∀ a ∈ m.arguments, ∀ c,
      c ∈ argumentCandidates m.explicitRelations a →
        c ∈ candidates m := by
    intro a ha c hc
    exact
      List.mem_append_left _
        (List.mem_flatMap.mpr ⟨a, ha, hc⟩)
  cases hYields with
  | @promoted a conclusion r _ _ hArgument hConclusion
      hDeclared hKind hLeads =>
      refine ⟨⟨_, _, _, .conclusionPromotion⟩,
        hOfArgument a hArgument _ ?_, rfl⟩
      refine mem_argumentCandidates.mpr
        (.inl ⟨conclusion, hConclusion, r, hDeclared, .inl ?_⟩)
      exact
        promote?_eq_some_iff.mpr
          ⟨rfl, hApart.symm, rfl, hKind, hLeads⟩
  | @premiseAttack a premise r _ hArgument hPremise hDeclared
      hKind hLeads =>
      refine ⟨⟨_, _, _, .premiseAttack⟩,
        hOfArgument a hArgument _ ?_, rfl⟩
      refine mem_argumentCandidates.mpr
        (.inr ⟨premise, hPremise, r, hDeclared, ?_⟩)
      exact
        attackPremise?_eq_some_iff.mpr
          ⟨rfl, hApart, rfl, rfl, hKind, hLeads⟩
  | @carried a conclusion r title _ hArgument hConclusion
      hDeclared hKind hSource hTarget hOther =>
      refine ⟨⟨_, _, _, .argumentConclusion⟩,
        hOfArgument a hArgument _ ?_, rfl⟩
      refine mem_argumentCandidates.mpr
        (.inl ⟨conclusion, hConclusion, r, hDeclared, .inr ?_⟩)
      refine carry?_eq_some_iff.mpr
        ⟨rfl, hTarget.symm, rfl, hKind, hSource, ?_, ?_⟩
      · rw [hTarget]
        rfl
      · rw [hTarget]
        exact fun hSame => hOther (Element.statement.inj hSame)
  | @answered r first second hDeclared hKind hSource hTarget =>
      refine ⟨⟨_, _, _, .reciprocal⟩,
        List.mem_append_right _
          (List.mem_filterMap.mpr ⟨r, hDeclared, ?_⟩), rfl⟩
      refine answer?_eq_some_iff.mpr ⟨?_, hKind, ?_, ?_⟩
      · rw [hSource, hTarget]
      · rw [hSource]
        rfl
      · rw [hTarget]
        rfl

------------------------------------------------------------
-- One Candidate
------------------------------------------------------------

/-
  The policy allows a relation between two elements: it keeps
  all, or no declared relation joins them.
-/
def Allowed
    (m : Model)
    (policy : ConflictPolicy)
    (source target : Element) : Prop :=
  policy = .keepAll ∨ ¬ m.Joined source target

/- The relation that a candidate becomes at an index. -/
def Candidate.toRelation (c : Candidate) (id : Nat) : Relation :=
  ⟨id, c.source, c.target, c.kind, .derived c.rule, []⟩

/- Whether a declared relation joins the ends is looked up. -/
theorem hasExplicitBetween_iff
    (m : Model)
    (c : Candidate) :
    hasExplicitBetween m c = true ↔
      m.Joined c.source c.target := by
  have hSymmetric : ∀ kind : RelationKind,
      kind.isSymmetric = true ↔ kind = .contradiction := by
    intro kind
    cases kind <;> simp [RelationKind.isSymmetric]
  simp [hasExplicitBetween, Model.Joined, Relation.Leads,
    hSymmetric, and_assoc]

/- A relation that connects two elements is looked up. -/
theorem findRelation?_isSome
    (m : Model)
    (source target : Element)
    (kind : RelationKind) :
    (m.findRelation? source target kind).isSome = true ↔
      m.Connects source target kind := by
  unfold Model.findRelation? Model.Connects
  rw [Option.isSome_map, List.find?_isSome]

/-
  A candidate that is new and allowed becomes a relation and
  is counted.  Any other one leaves the model.
-/
theorem consider_cases
    (policy : ConflictPolicy)
    (m : Model)
    (counts : Counts)
    (c : Candidate) :
    (c.source ≠ c.target ∧
        ¬ m.Connects c.source c.target c.kind ∧
        Allowed m policy c.source c.target ∧
        consider policy (m, counts) c =
          (m.appendRelation c.source c.target c.kind
            (.derived c.rule) none, counts.added c.rule)) ∨
      ((c.source = c.target ∨
          m.Connects c.source c.target c.kind ∨
          ¬ Allowed m policy c.source c.target) ∧
        (consider policy (m, counts) c).1 = m ∧
        (consider policy (m, counts) c).2.total =
          counts.total) := by
  have hBlocked :
      (decide (policy = .explicitWins)
          && hasExplicitBetween m c) = true ↔
        ¬ Allowed m policy c.source c.target := by
    rw [Bool.and_eq_true, hasExplicitBetween_iff,
      decide_eq_true_eq, Allowed, not_or]
    cases policy <;> simp
  unfold consider
  simp only
  split
  · next hLoop => exact .inr ⟨.inl hLoop, rfl, rfl⟩
  · next hApart =>
      have hKnown :=
        findRelation?_isSome m c.source c.target c.kind
      split
      · next hFound =>
          exact
            .inr ⟨.inr (.inl (hKnown.mp hFound)), rfl, rfl⟩
      · next hNone =>
          split
          · next hNot =>
              exact
                .inr ⟨.inr (.inr (hBlocked.mp hNot)), rfl, rfl⟩
          · next hAllowed =>
              rw [hBlocked, Classical.not_not] at hAllowed
              refine
                .inl
                  ⟨hApart, fun h => hNone (hKnown.mpr h),
                    hAllowed, ?_⟩
              rw [Option.not_isSome_iff_eq_none] at hNone
              simp only [Model.addRelation, hNone]
              rfl

/- The relations when a candidate has become one. -/
theorem appendRelation_relations
    (m : Model)
    (c : Candidate) :
    (m.appendRelation c.source c.target c.kind
        (.derived c.rule) none).relations =
      m.relations ++ [c.toRelation m.relations.length] :=
  Model.appendRelation_relations m c.source c.target c.kind
    (.derived c.rule) none

/- Each relation that is counted counts once. -/
theorem total_added
    (counts : Counts)
    (rule : DerivationRule) :
    (counts.added rule).total = counts.total + 1 := by
  cases rule <;> simp only [Counts.added, Counts.total] <;> omega

------------------------------------------------------------
-- All Candidates
------------------------------------------------------------

/-
  What considering candidates leaves: the declared relations
  stay, each new relation is counted, and a triple is there if
  it was or if an allowed candidate has it.
-/
structure Considered
    (policy : ConflictPolicy)
    (cs : List Candidate)
    (m : Model)
    (counts : Counts)
    (result : Model × Counts) : Prop where
  declared : result.1.explicitRelations = m.explicitRelations
  counted :
    result.1.relations.length + counts.total =
      m.relations.length + result.2.total
  triples : ∀ triple,
    triple ∈ result.1.triples ↔
      triple ∈ m.triples ∨
        ∃ c ∈ cs, c.triple = triple ∧
          c.source ≠ c.target ∧
          Allowed m policy c.source c.target

/- What is allowed depends on declared relations only. -/
theorem allowed_congr
    {m n : Model}
    (hDeclared : n.explicitRelations = m.explicitRelations)
    (policy : ConflictPolicy)
    (source target : Element) :
    Allowed n policy source target ↔
      Allowed m policy source target := by
  unfold Allowed Model.Joined
  rw [hDeclared]

/- Considering one candidate. -/
theorem considered_one
    (policy : ConflictPolicy)
    (m : Model)
    (counts : Counts)
    {c : Candidate}
    (hKind : c.kind ≠ .contradiction) :
    Considered policy [c] m counts
      (consider policy (m, counts) c) := by
  have hConnects :
      m.Connects c.source c.target c.kind ↔
        c.triple ∈ m.triples := by
    have hApart : c.kind.isSymmetric = false := by
      cases hc : c.kind <;> simp_all [RelationKind.isSymmetric]
    rw [Model.connects_iff, hApart]
    simp [Candidate.triple]
  rcases consider_cases policy m counts c with
    ⟨hApart, _, hAllowed, hAdded⟩ | ⟨hSkipped, hModel, hTotal⟩
  · rw [hAdded]
    constructor
    · simp only [Model.explicitRelations,
        appendRelation_relations, List.filter_append]
      simp [Candidate.toRelation, Relation.isExplicit,
        Origin.isExplicit]
    · simp only [appendRelation_relations, total_added,
        List.length_append, List.length_singleton]
      omega
    · intro triple
      simp only [Model.triples, appendRelation_relations,
        List.map_append, List.mem_append, List.map_singleton,
        List.mem_singleton, exists_eq_left]
      simp [Candidate.toRelation, Relation.triple,
        Candidate.triple, hApart, hAllowed, eq_comm]
  · constructor
    · rw [hModel]
    · rw [hModel, hTotal]
    · intro triple
      rw [hModel]
      refine ⟨Or.inl, ?_⟩
      rintro (hOld | ⟨d, hd, rfl, hApart, hAllowed⟩)
      · exact hOld
      · rw [List.mem_singleton.mp hd] at hApart hAllowed ⊢
        rcases hSkipped with hLoop | hKnown | hNot
        · exact absurd hLoop hApart
        · exact hConnects.mp hKnown
        · exact absurd hAllowed hNot

/- Considering candidates one after the other. -/
theorem considered_foldl
    (policy : ConflictPolicy)
    {cs : List Candidate}
    (hKinds : ∀ c ∈ cs, c.kind ≠ .contradiction)
    (m : Model)
    (counts : Counts) :
    Considered policy cs m counts
      (cs.foldl (consider policy) (m, counts)) := by
  induction cs generalizing m counts with
  | nil => exact ⟨rfl, rfl, by simp⟩
  | cons c cs ih =>
      have hFirst :=
        considered_one policy m counts (hKinds c (by simp))
      have hRest :
          Considered policy cs (consider policy (m, counts) c).1
            (consider policy (m, counts) c).2
            (cs.foldl (consider policy)
              (consider policy (m, counts) c)) :=
        ih (fun d hd => hKinds d (by simp [hd])) _ _
      rw [List.foldl_cons]
      constructor
      · exact hRest.declared.trans hFirst.declared
      · have hBefore := hFirst.counted
        have hAfter := hRest.counted
        omega
      · intro triple
        rw [hRest.triples, hFirst.triples]
        simp only [allowed_congr hFirst.declared,
          List.mem_cons, List.not_mem_nil, or_false,
          exists_eq_left, or_assoc, exists_eq_or_imp]

end Derivation

namespace Model

------------------------------------------------------------
-- Derived Relations
------------------------------------------------------------

variable (m : Model)
variable (policy : ConflictPolicy)

/- What deriving relations leaves. -/
theorem derive_considered :
    Derivation.Considered policy (Derivation.candidates m) m
      Derivation.Counts.zero (m.derive policy) :=
  Derivation.considered_foldl policy
    (fun _ hc =>
      (Derivation.yields_of_mem_candidates hc).ne_contradiction)
    m Derivation.Counts.zero

/-
  A triple is there after the derivation if it was before, or
  if a rule yields it and the policy allows it.
-/
theorem mem_triples_derive
    (source target : Element)
    (kind : RelationKind) :
    (source, target, kind) ∈ (m.derive policy).1.triples ↔
      (source, target, kind) ∈ m.triples ∨
        (source ≠ target ∧
          Derivation.Yields m source target kind ∧
          Derivation.Allowed m policy source target) := by
  rw [(derive_considered m policy).triples]
  apply or_congr_right
  constructor
  · rintro ⟨c, hc, hTriple, hApart, hAllowed⟩
    simp only [Derivation.Candidate.triple,
      Prod.mk.injEq] at hTriple
    rcases hTriple with ⟨rfl, rfl, rfl⟩
    exact
      ⟨hApart, Derivation.yields_of_mem_candidates hc, hAllowed⟩
  · rintro ⟨hApart, hYields, hAllowed⟩
    rcases Derivation.mem_candidates_of_yields hYields hApart
      with ⟨c, hc, hTriple⟩
    have hSame := hTriple
    simp only [Derivation.Candidate.triple,
      Prod.mk.injEq] at hSame
    rcases hSame with ⟨rfl, rfl, rfl⟩
    exact ⟨c, hc, hTriple, hApart, hAllowed⟩

/- The order of arguments and relations does not matter. -/
theorem derive_triples_perm
    {m n : Model}
    (hArguments : n.arguments.Perm m.arguments)
    (hRelations : n.relations.Perm m.relations)
    (triple : Element × Element × RelationKind) :
    triple ∈ (n.derive policy).1.triples ↔
      triple ∈ (m.derive policy).1.triples := by
  have hDeclared :
      n.explicitRelations.Perm m.explicitRelations :=
    hRelations.filter _
  have hTriples : n.triples.Perm m.triples :=
    hRelations.map _
  have hYields : ∀ source target kind,
      Derivation.Yields n source target kind ↔
        Derivation.Yields m source target kind :=
    fun _ _ _ =>
      ⟨.mono hArguments.subset hDeclared.subset,
        .mono hArguments.symm.subset hDeclared.symm.subset⟩
  have hAllowed : ∀ source target,
      Derivation.Allowed n policy source target ↔
        Derivation.Allowed m policy source target := by
    intro source target
    simp only [Derivation.Allowed, Joined, hDeclared.mem_iff]
  rcases triple with ⟨source, target, kind⟩
  rw [mem_triples_derive, mem_triples_derive,
    hTriples.mem_iff, hYields, hAllowed]

/-
  Deriving relations is sound and complete for the rules:
  elements are connected if they were before, or if a rule
  yields it between two of them and the policy allows it.  The
  order in which arguments and relations are stored does not
  matter, and each relation that is added is counted.
-/
theorem derive_connects_iff
    (m : Model)
    (policy : ConflictPolicy) :
    (∀ source target kind,
        (m.derive policy).1.Connects source target kind ↔
          m.Connects source target kind ∨
            (source ≠ target ∧
              Derivation.Yields m source target kind ∧
              (policy = .keepAll ∨
                ¬ m.Joined source target))) ∧
      (∀ n : Model,
        n.arguments.Perm m.arguments →
        n.relations.Perm m.relations →
          ∀ triple,
            triple ∈ (n.derive policy).1.triples ↔
              triple ∈ (m.derive policy).1.triples) ∧
      (m.derive policy).1.relations.length =
        m.relations.length + (m.derive policy).2.total := by
  refine ⟨?_, ?_, ?_⟩
  · intro source target kind
    -- where the ends may be swapped, no rule adds anything
    have hSwapped :
        (kind.isSymmetric = true ∧
            (target, source, kind) ∈
              (m.derive policy).1.triples) ↔
          (kind.isSymmetric = true ∧
            (target, source, kind) ∈ m.triples) := by
      apply and_congr_right
      intro hSymmetric
      have hKind : kind = .contradiction := by
        cases kind <;> first | rfl | cases hSymmetric
      rw [mem_triples_derive, or_iff_left]
      exact fun hAdded => hAdded.2.1.ne_contradiction hKind
    rw [connects_iff, connects_iff, hSwapped,
      mem_triples_derive, or_right_comm]
    rfl
  · exact fun n hArguments hRelations =>
      derive_triples_perm policy hArguments hRelations
  · have hCounted := (derive_considered m policy).counted
    have hZero : Derivation.Counts.zero.total = 0 := rfl
    omega

/-
  What the conclusion and a premise of an argument bring about
  is derived in whatever order arguments and relations are.
-/
theorem derive_connects_iff_swapped :
    let a : Argument :=
      { Argument.new "A" 0 with
        steps :=
          [⟨1, "P", .premise, none⟩,
            ⟨2, "C", .mainConclusion, none⟩] }
    let b : Argument := Argument.new "B" 1
    let r : Relation :=
      ⟨0, .statement "C", .statement "X", .attack, .explicit, []⟩
    let s : Relation :=
      ⟨1, .statement "P", .argument "B", .contradiction,
        .explicit, []⟩
    let m : Model :=
      ofData
        { ModelData.empty with
          arguments := [a, b]
          relations := [r, s] }
    let n : Model :=
      ofData
        { ModelData.empty with
          arguments := [b, a]
          relations := [s, r] }
    n.arguments.Perm m.arguments ∧
      n.relations.Perm m.relations ∧
      (.argument "A", .statement "X", .attack) ∈
        (m.derive .explicitWins).1.triples ∧
      (.argument "B", .argument "A", .attack) ∈
        (m.derive .explicitWins).1.triples ∧
      ∀ triple,
        triple ∈ (n.derive .explicitWins).1.triples ↔
          triple ∈ (m.derive .explicitWins).1.triples := by
  intro a b r s m n
  have hArguments : n.arguments.Perm m.arguments :=
    List.Perm.swap a b []
  have hRelations : n.relations.Perm m.relations :=
    List.Perm.swap r s []
  refine ⟨hArguments, hRelations, ?_, ?_, ?_⟩
  · decide +kernel
  · decide +kernel
  · exact
      (derive_connects_iff m .explicitWins).2.1 n hArguments
        hRelations

end Model

end Dialectic
