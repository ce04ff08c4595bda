import Dialectic.Document.Marker
import Dialectic.Model.Element

/-
  This file defines the relations of a model.

  Key definitions include:
    * `RelationKind`
    * `Origin`
    * `Relation`
    * `Relation.connects`
    * `Relation.touches`
    * `Relation.otherEnd?`
-/

namespace Dialectic

------------------------------------------------------------
-- Kinds
------------------------------------------------------------

/- How one element is related to another one. -/
inductive RelationKind where
| support
| attack
| undercut
| contradiction
| entails
deriving DecidableEq, Repr

namespace RelationKind

/- All kinds. -/
def all : List RelationKind :=
  [support, attack, undercut, contradiction, entails]

/- The name of a kind. -/
def name : RelationKind → String
| support => "support"
| attack => "attack"
| undercut => "undercut"
| contradiction => "contradiction"
| entails => "entails"

/- The two ends of such a relation may be swapped. -/
def isSymmetric : RelationKind → Bool
| contradiction => true
| _ => false

/- Such a relation speaks against its target. -/
def isCon : RelationKind → Bool
| attack => true
| undercut => true
| contradiction => true
| _ => false

/-
  The kind of relations that a marker declares.  An
  equivalence is no relation.
-/
def ofMarker? : Marker → Option RelationKind
| .support => some support
| .outgoingSupport => some support
| .incomingSupport => some support
| .attack => some attack
| .outgoingAttack => some attack
| .incomingAttack => some attack
| .contradiction => some contradiction
| .outgoingUndercut => some undercut
| .incomingUndercut => some undercut
| .equivalence => none

end RelationKind

------------------------------------------------------------
-- Origins
------------------------------------------------------------

/-
  The rules that derive relations.

  `conclusionPromotion`: an argument relates to what its main
  conclusion relates to.  `premiseAttack`: what attacks a
  premise attacks the argument.  `argumentConclusion`: the
  main conclusion carries the relations of its argument.
  `reciprocal`: a statement answers the support or attack of
  another one.
-/
inductive DerivationRule where
| conclusionPromotion
| premiseAttack
| argumentConclusion
| reciprocal
deriving DecidableEq, Repr

namespace DerivationRule

/- All rules. -/
def all : List DerivationRule := [
  conclusionPromotion,
  premiseAttack,
  argumentConclusion,
  reciprocal
]

/- The name of a rule. -/
def name : DerivationRule → String
| conclusionPromotion => "conclusion-promotion"
| premiseAttack => "premise-attack"
| argumentConclusion => "argument-conclusion"
| reciprocal => "reciprocal"

end DerivationRule

/- A relation is declared in the document or derived. -/
inductive Origin where
| explicit
| derived (rule : DerivationRule)
deriving DecidableEq, Repr

namespace Origin

/- A relation is declared in the document. -/
def isExplicit : Origin → Bool
| explicit => true
| derived _ => false

end Origin

------------------------------------------------------------
-- Relations
------------------------------------------------------------

/-
  A relation from one element to another one.  `occurrences`
  holds the statements whose relation lines declare it.
-/
structure Relation where
  id : Nat
  source : Element
  target : Element
  kind : RelationKind
  origin : Origin
  occurrences : List Nat
deriving DecidableEq, Repr

namespace Relation

/- A relation is declared in the document. -/
def isExplicit (r : Relation) : Bool :=
  r.origin.isExplicit

/-
  A relation leads from one element to another one, or, if it
  is symmetric, back.
-/
def connects
    (r : Relation)
    (source target : Element)
    (kind : RelationKind) : Bool :=
  let forward := r.source == source && r.target == target
  let backward := r.source == target && r.target == source
  r.kind == kind
    && (forward || (kind.isSymmetric && backward))

/- An element is an end of a relation. -/
def touches (r : Relation) (element : Element) : Bool :=
  r.source == element || r.target == element

/- The end of a relation that is not the given one. -/
def otherEnd? (r : Relation) (element : Element) :
    Option Element :=
  if r.source = element then some r.target
  else if r.target = element then some r.source
  else none

end Relation

end Dialectic
