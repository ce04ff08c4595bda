/-
  This file defines the markers that open a relation line.

  Key definitions include:
    * `Marker`
    * `Marker.symbol`
    * `Marker.incoming`
    * `Marker.inMatchingOrder`
-/

namespace Dialectic

------------------------------------------------------------
-- Relation Markers
------------------------------------------------------------

/-
  A marker says how the element above a relation line, its
  parent, is related to the target on that line.  A plain
  marker and its outgoing form mean the same.
-/
inductive Marker where
| support
| outgoingSupport
| incomingSupport
| attack
| outgoingAttack
| incomingAttack
| contradiction
| outgoingUndercut
| incomingUndercut
| equivalence
deriving DecidableEq, Repr

namespace Marker

/- The characters of a marker. -/
def symbol : Marker → String
| support => "+"
| outgoingSupport => "+>"
| incomingSupport => "<+"
| attack => "-"
| outgoingAttack => "->"
| incomingAttack => "<-"
| contradiction => "><"
| outgoingUndercut => "_>"
| incomingUndercut => "<_"
| equivalence => "="

/- The relation leads from the target to the parent. -/
def incoming : Marker → Bool
| incomingSupport => true
| incomingAttack => true
| incomingUndercut => true
| _ => false

/- The name of a marker in encoded documents. -/
def name : Marker → String
| support => "Support"
| outgoingSupport => "OutgoingSupport"
| incomingSupport => "IncomingSupport"
| attack => "Attack"
| outgoingAttack => "OutgoingAttack"
| incomingAttack => "IncomingAttack"
| contradiction => "Contradiction"
| outgoingUndercut => "OutgoingUndercut"
| incomingUndercut => "IncomingUndercut"
| equivalence => "Equivalence"

/-
  All markers; one whose symbol starts another symbol comes
  after it, so that the first match is the longest one.
-/
def inMatchingOrder : List Marker := [
  outgoingSupport,
  incomingSupport,
  outgoingAttack,
  incomingAttack,
  contradiction,
  outgoingUndercut,
  incomingUndercut,
  support,
  attack,
  equivalence
]

/- The marker of a name. -/
def ofName? (name : String) : Option Marker :=
  inMatchingOrder.find? (fun m => m.name = name)

end Marker

end Dialectic
