import Dialectic.Map.Basic

/-
  This file defines which maps are well formed, and the faults
  of those that are not.

  Key definitions include:
    * `MapFault`
    * `MapFault.message`
    * `ArgumentMap.validate`
-/

namespace Dialectic

------------------------------------------------------------
-- Faults
------------------------------------------------------------

/- What is wrong with a map. -/
inductive MapFault where
| duplicateId (id : String)
| danglingEdge (edge node : String)
| unknownGroupMember (group node : String)
| nodeInSeveralGroups (node : String)
| groupCycle (group : String)
deriving DecidableEq, Repr

/- The message of a fault. -/
def MapFault.message : MapFault → String
| duplicateId id => "duplicate id " ++ id
| danglingEdge edge node =>
    "edge " ++ edge ++ " references unknown node " ++ node
| unknownGroupMember group node =>
    "group " ++ group ++ " references unknown node " ++ node
| nodeInSeveralGroups node =>
    "node " ++ node ++ " belongs to more than one group"
| groupCycle group =>
    "cycle in group tree at group " ++ group

namespace ArgumentMap

------------------------------------------------------------
-- Checks
------------------------------------------------------------

/- The ids of a list that were met before. -/
def repeatedIds : (met ids : List String) → List String
| _, [] => []
| met, id :: ids =>
    if met.contains id then
      id :: repeatedIds met ids
    else
      repeatedIds (id :: met) ids

/- Some node has an id. -/
def hasNode (map : ArgumentMap) (id : String) : Bool :=
  map.nodes.any (fun n => n.id == id)

/- The ends of an edge that are no nodes. -/
def danglingEnds (map : ArgumentMap) (e : MapEdge) :
    List MapFault :=
  ([e.source, e.target].filter (fun id => !map.hasNode id)).map
    (.danglingEdge e.id)

/-
  What is wrong with the nodes that groups list, given as
  pairs of a group and a node.
-/
def memberFaults (map : ArgumentMap) :
    (met : List String) →
    List (String × String) →
    List MapFault
| _, [] => []
| met, (group, node) :: rest =>
    let unknown :=
      if map.hasNode node then []
      else [.unknownGroupMember group node]
    let shared :=
      if met.contains node then [.nodeInSeveralGroups node]
      else []
    unknown ++ shared ++ memberFaults map (node :: met) rest

/-
  The way from a group to its parents meets a group again.
  `fuel` is enough if it is larger than the number of groups.
-/
def returnsFrom (map : ArgumentMap) :
    (fuel : Nat) → (met : List String) → MapGroup → Bool
| 0, _, _ => false
| fuel + 1, met, g =>
    if met.contains g.id then true
    else
      match g.parent.bind map.group? with
      | some parent =>
          returnsFrom map fuel (g.id :: met) parent
      | none => false

/- The groups from which a cycle is reached. -/
def cyclicGroups (map : ArgumentMap) : List MapGroup :=
  map.groups.filter
    (returnsFrom map (map.groups.length + 1) [])

------------------------------------------------------------
-- Validation
------------------------------------------------------------

/- All faults of a map. -/
def validate (map : ArgumentMap) : List MapFault :=
  let ids :=
    map.nodes.map MapNode.id ++ map.edges.map MapEdge.id
  let memberships :=
    map.groups.flatMap
      (fun g => g.nodes.map (fun node => (g.id, node)))
  (repeatedIds [] ids).map .duplicateId
    ++ map.edges.flatMap map.danglingEnds
    ++ memberFaults map [] memberships
    ++ map.cyclicGroups.map (fun g => .groupCycle g.id)

end ArgumentMap

end Dialectic
