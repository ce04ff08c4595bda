import Dialectic.Map.Basic

/-
  This file defines how the closed groups of a map are
  replaced by single nodes.

  Key definitions include:
    * `ArgumentMap.groupNode`
    * `ArgumentMap.collapseGroup`
    * `ArgumentMap.outermostClosed`
    * `ArgumentMap.collapse`
-/

namespace Dialectic

namespace ArgumentMap

------------------------------------------------------------
-- Nodes for Groups
------------------------------------------------------------

/- The node that stands for a group with the given nodes. -/
def groupNode (g : MapGroup) (absorbed : List MapNode) :
    MapNode :=
  { MapNode.new g.id .group g.title with
    members := absorbed.map MapNode.title
    tags :=
      Sequence.addAllNew [] (absorbed.flatMap MapNode.tags)
    sectionId := g.sectionId
    group := g.parent }

/-
  Replace the nodes with the given ids by one node, which
  stands where the first of them stood, or last.
-/
def replaceNodes
    (nodes : List MapNode)
    (inner : List String)
    (node : MapNode) : List MapNode :=
  let outer := fun (n : MapNode) => !inner.contains n.id
  nodes.takeWhile outer
    ++ node :: (nodes.dropWhile outer).filter outer

/- Let an edge end at a group instead of the nodes in it. -/
def redirect
    (inner : List String)
    (id : String)
    (e : MapEdge) : MapEdge :=
  { e with
    source := if inner.contains e.source then id else e.source
    target := if inner.contains e.target then id else e.target }

------------------------------------------------------------
-- Collapsing
------------------------------------------------------------

/-
  Take the groups in a group out of a map, and make the group
  itself a node of its parent.
-/
def emptyGroup
    (groups : List MapGroup)
    (g : MapGroup)
    (inner : List String) : List MapGroup :=
  let kept := groups.filter (fun h => !inner.contains h.id)
  let emptied :=
    MapGroup.modify kept g.id
      (fun h => { h with nodes := [], subgroups := [] })
  match g.parent with
  | none => emptied
  | some parent =>
      MapGroup.modify emptied parent (fun h =>
        { h with
          subgroups := h.subgroups.filter (· != g.id)
          nodes := h.nodes ++ [g.id] })

/- Replace a group by a node. -/
def collapseGroup (map : ArgumentMap) (id : String) :
    ArgumentMap :=
  match map.group? id with
  | none => map
  | some g =>
      let inner := map.descendants id
      let absorbed :=
        map.nodes.filter (fun n => inner.nodes.contains n.id)
      { nodes :=
          replaceNodes map.nodes inner.nodes
            (groupNode g absorbed)
        edges :=
          (map.edges.map (redirect inner.nodes id)).filter
            (fun e => !e.isLoop)
        groups := emptyGroup map.groups g inner.groups }

/-
  The ids of the closed groups that are in no closed group and
  have not been replaced yet.
-/
def outermostClosed (map : ArgumentMap) : List String :=
  let isOpen := fun (id : String) =>
    match map.group? id with
    | some g => !g.isClosed
    | none => true
  (map.groups.filter (fun g =>
    g.isClosed && (map.node? g.id).isNone
      && (map.ancestors g.id).all isOpen)).map MapGroup.id

/-
  Replace each outermost closed group by a node.  Also gives
  their number.
-/
def collapse (map : ArgumentMap) : ArgumentMap × Nat :=
  let targets := map.outermostClosed
  if targets.isEmpty then
    (map, 0)
  else
    ((targets.foldl collapseGroup map).mergeEdges,
      targets.length)

end ArgumentMap

end Dialectic
