import Dialectic.Model.Basic

/-
  This file defines how relations are derived from those that
  a document declares.

  Key definitions include:
    * `ConflictPolicy`
    * `Derivation.candidates`
    * `Derivation.Counts`
    * `Model.derive`
-/

namespace Dialectic

/-
  What to do with a derived relation between two elements that
  a declared relation connects already: leave it out or keep
  both.
-/
inductive ConflictPolicy where
| explicitWins
| keepAll
deriving DecidableEq, Repr

namespace ConflictPolicy

/- All policies. -/
def all : List ConflictPolicy := [explicitWins, keepAll]

/- The name of a policy. -/
def name : ConflictPolicy → String
| explicitWins => "explicit-wins"
| keepAll => "keep-all"

end ConflictPolicy

namespace Derivation

------------------------------------------------------------
-- Rules
------------------------------------------------------------

/- A relation that a rule proposes. -/
structure Candidate where
  source : Element
  target : Element
  kind : RelationKind
  rule : DerivationRule
deriving DecidableEq, Repr

/-
  The kind of the relation that an argument takes over from
  its main conclusion.
-/
def promotedKind? : RelationKind → Option RelationKind
| .support => some .support
| .entails => some .support
| .attack => some .attack
| .contradiction => some .attack
| .undercut => none

/- The end that a main conclusion speaks about. -/
def promotedTarget? (conclusion : Element) (r : Relation) :
    Option Element :=
  if r.kind = .contradiction then r.otherEnd? conclusion
  else if r.source = conclusion then some r.target
  else none

/-
  An argument relates to what its main conclusion relates to,
  but not to itself.
-/
def promote? (this conclusion : Element) (r : Relation) :
    Option Candidate := do
  let kind ← promotedKind? r.kind
  let target ← promotedTarget? conclusion r
  if target = this then none
  else pure ⟨this, target, kind, .conclusionPromotion⟩

/- The element that speaks against a premise. -/
def attacker? (premise : Element) (r : Relation) :
    Option Element :=
  match r.kind with
  | .attack =>
      if r.target = premise then some r.source else none
  | .contradiction => r.otherEnd? premise
  | _ => none

/-
  What attacks a premise attacks its argument, unless that is
  the argument itself.
-/
def attackPremise? (this premise : Element) (r : Relation) :
    Option Candidate := do
  let attacker ← attacker? premise r
  if attacker = this then none
  else pure ⟨attacker, this, .attack, .premiseAttack⟩

/-
  The kind of the relation that a main conclusion carries for
  its argument.
-/
def carriedKind? : RelationKind → Option RelationKind
| .support => some .entails
| .attack => some .attack
| _ => none

/-
  The main conclusion carries the relations of its argument to
  other statements.
-/
def carry? (this conclusion : Element) (r : Relation) :
    Option Candidate := do
  let kind ← carriedKind? r.kind
  if r.source = this && r.target.isStatement
      && r.target != conclusion then
    pure ⟨conclusion, r.target, kind, .argumentConclusion⟩
  else
    none

/- A statement answers the support or attack of another. -/
def answer? (r : Relation) : Option Candidate :=
  if (r.kind == .support || r.kind == .attack)
      && r.source.isStatement && r.target.isStatement then
    some ⟨r.target, r.source, r.kind, .reciprocal⟩
  else
    none

/- What the rules propose for an argument. -/
def argumentCandidates
    (explicit : List Relation)
    (a : Argument) : List Candidate :=
  let this := Element.argument a.title
  let conclusion? :=
    a.mainConclusion?.map (fun s => Element.statement s.title)
  let promoted :=
    match conclusion? with
    | some c => explicit.filterMap (promote? this c)
    | none => []
  let attacked :=
    a.premises.flatMap (fun s =>
      explicit.filterMap
        (attackPremise? this (.statement s.title)))
  let carried :=
    match conclusion? with
    | some c => explicit.filterMap (carry? this c)
    | none => []
  promoted ++ attacked ++ carried

/- What the rules propose for a model. -/
def candidates (m : Model) : List Candidate :=
  let explicit := m.explicitRelations
  m.arguments.flatMap (argumentCandidates explicit)
    ++ explicit.filterMap answer?

------------------------------------------------------------
-- Derivation
------------------------------------------------------------

/-
  How many relations each rule added, and how many candidates
  were left out because of a declared relation.
-/
structure Counts where
  conclusionPromotion : Nat
  premiseAttack : Nat
  argumentConclusion : Nat
  reciprocal : Nat
  conflictsSkipped : Nat
deriving DecidableEq, Repr

namespace Counts

/- Nothing was added or left out. -/
def zero : Counts :=
  ⟨0, 0, 0, 0, 0⟩

/- How many relations were added. -/
def total (c : Counts) : Nat :=
  c.conclusionPromotion + c.premiseAttack
    + c.argumentConclusion + c.reciprocal

/- Count a relation that a rule added. -/
def added (c : Counts) : DerivationRule → Counts
| .conclusionPromotion =>
    { c with conclusionPromotion := c.conclusionPromotion + 1 }
| .premiseAttack =>
    { c with premiseAttack := c.premiseAttack + 1 }
| .argumentConclusion =>
    { c with argumentConclusion := c.argumentConclusion + 1 }
| .reciprocal => { c with reciprocal := c.reciprocal + 1 }

/- Count a candidate that was left out. -/
def skipped (c : Counts) : Counts :=
  { c with conflictsSkipped := c.conflictsSkipped + 1 }

end Counts

/-
  A declared relation leads from the source of a candidate to
  its target, or, if it is symmetric, back.
-/
def hasExplicitBetween (m : Model) (c : Candidate) : Bool :=
  m.explicitRelations.any (fun r =>
    (r.source == c.source && r.target == c.target)
      || (r.kind.isSymmetric && r.source == c.target
        && r.target == c.source))

/- Add a candidate, or leave it out. -/
def consider
    (policy : ConflictPolicy)
    (state : Model × Counts)
    (c : Candidate) : Model × Counts :=
  let (m, counts) := state
  if c.source = c.target then
    state
  else if (m.findRelation? c.source c.target c.kind).isSome then
    state
  else if policy = .explicitWins && hasExplicitBetween m c then
    (m, counts.skipped)
  else
    ( (m.addRelation c.source c.target c.kind
        (.derived c.rule) none).1,
      counts.added c.rule )

end Derivation

/- Add the relations that the rules derive. -/
def Model.derive
    (m : Model)
    (policy : ConflictPolicy) : Model × Derivation.Counts :=
  (Derivation.candidates m).foldl (Derivation.consider policy)
    (m, Derivation.Counts.zero)

end Dialectic
