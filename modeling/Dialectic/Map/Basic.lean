import Dialectic.Data.Sequence
import Dialectic.Model.Relation

/-
  This file defines argument maps: nodes, edges between them,
  and the groups that the nodes are in.

  Key definitions include:
    * `MapNode`
    * `MapEdge`
    * `MapGroup`
    * `ArgumentMap`
    * `ArgumentMap.addEdge`
    * `ArgumentMap.mergeEdges`
    * `ArgumentMap.ancestors`
    * `ArgumentMap.descendants`
-/

namespace Dialectic

------------------------------------------------------------
-- Nodes
------------------------------------------------------------

/-
  A node stands for equivalent statements, for an argument, or
  for a closed group.
-/
inductive NodeKind where
| statement
| argument
| group
deriving DecidableEq, Repr

namespace NodeKind

/- All kinds. -/
def all : List NodeKind := [statement, argument, group]

/- The name of a kind. -/
def name : NodeKind → String
| statement => "statement"
| argument => "argument"
| group => "group"

end NodeKind

/-
  A node of a map.  `members` holds the titles of the classes
  that a statement node stands for, or of the elements in a
  closed group; `group` is the innermost group around it.
-/
structure MapNode where
  id : String
  kind : NodeKind
  title : String
  labelText : Option String
  members : List String
  tags : List String
  sectionId : Option Nat
  group : Option String
  color : Option String
deriving DecidableEq, Repr

namespace MapNode

/- A node of which only id, kind and title are known. -/
def new (id : String) (kind : NodeKind) (title : String) :
    MapNode :=
  { id := id
    kind := kind
    title := title
    labelText := none
    members := [title]
    tags := []
    sectionId := none
    group := none
    color := none }

/- A node stands for an element. -/
def represents (n : MapNode) : Element → Bool
| .statement title =>
    n.kind == .statement && n.members.contains title
| .argument title => n.kind == .argument && n.title == title

end MapNode

------------------------------------------------------------
-- Edges
------------------------------------------------------------

/-
  An edge stands for all relations from one node to another.
  Their kinds are listed once each.
-/
structure MapEdge where
  id : String
  source : String
  target : String
  kinds : List RelationKind
  relations : List Nat
  color : Option String
deriving DecidableEq, Repr

namespace MapEdge

/- The kind of the first relation of an edge. -/
def kind? (e : MapEdge) : Option RelationKind :=
  e.kinds.head?

/- An edge leads from one node to another one. -/
def joins (e : MapEdge) (source target : String) : Bool :=
  e.source == source && e.target == target

/- An edge leads from a node to itself. -/
def isLoop (e : MapEdge) : Bool :=
  e.source == e.target

/- Take over the relations of a parallel edge. -/
def absorb (e other : MapEdge) : MapEdge :=
  { e with
    kinds := Sequence.addAllNew e.kinds other.kinds
    relations :=
      Sequence.addAllNew e.relations other.relations }

/-
  Let the first parallel edge of a list take over an edge, or
  add it if there is none.
-/
def mergeInto (edges : List MapEdge) (e : MapEdge) :
    List MapEdge :=
  if edges.any (fun f => f.joins e.source e.target) then
    Sequence.modifyFirst
      (fun f => f.joins e.source e.target)
      (fun f => f.absorb e)
      edges
  else
    edges ++ [e]

end MapEdge

------------------------------------------------------------
-- Groups
------------------------------------------------------------

/-
  A group of nodes.  Outermost groups have level one; a closed
  group is to be shown as a single node.
-/
structure MapGroup where
  id : String
  title : String
  level : Nat
  sectionId : Option Nat
  parent : Option String
  nodes : List String
  subgroups : List String
  isClosed : Bool
  color : Option String
deriving DecidableEq, Repr

namespace MapGroup

/- A group of which only id, title and level are known. -/
def new (id title : String) (level : Nat) : MapGroup :=
  { id := id
    title := title
    level := level
    sectionId := none
    parent := none
    nodes := []
    subgroups := []
    isClosed := false
    color := none }

/- A group has neither nodes nor groups in it. -/
def isEmpty (g : MapGroup) : Bool :=
  g.nodes.isEmpty && g.subgroups.isEmpty

/- Find the first group of an id. -/
def find? (groups : List MapGroup) (id : String) :
    Option MapGroup :=
  groups.find? (fun g => g.id == id)

/- Change the first group of an id. -/
def modify
    (groups : List MapGroup)
    (id : String)
    (f : MapGroup → MapGroup) : List MapGroup :=
  Sequence.modifyFirst (fun g => g.id == id) f groups

end MapGroup

------------------------------------------------------------
-- Maps
------------------------------------------------------------

/- An argument map. -/
structure ArgumentMap where
  nodes : List MapNode
  edges : List MapEdge
  groups : List MapGroup
deriving DecidableEq, Repr

namespace ArgumentMap

/- The map without nodes. -/
def empty : ArgumentMap :=
  ⟨[], [], []⟩

instance : Inhabited ArgumentMap :=
  ⟨empty⟩

/- The first node of an id. -/
def node? (map : ArgumentMap) (id : String) : Option MapNode :=
  map.nodes.find? (fun n => n.id == id)

/- The first node that stands for an element. -/
def nodeFor? (map : ArgumentMap) (element : Element) :
    Option MapNode :=
  map.nodes.find? (fun n => n.represents element)

/- The first node of a title. -/
def nodeTitled? (map : ArgumentMap) (title : String) :
    Option MapNode :=
  map.nodes.find? (fun n => n.title == title)

/- The first group of an id. -/
def group? (map : ArgumentMap) (id : String) :
    Option MapGroup :=
  MapGroup.find? map.groups id

/- Change the first node of an id. -/
def modifyNode
    (map : ArgumentMap)
    (id : String)
    (f : MapNode → MapNode) : ArgumentMap :=
  { map with
    nodes :=
      Sequence.modifyFirst (fun n => n.id == id) f map.nodes }

/- Change the first group of an id. -/
def modifyGroup
    (map : ArgumentMap)
    (id : String)
    (f : MapGroup → MapGroup) : ArgumentMap :=
  { map with groups := MapGroup.modify map.groups id f }

------------------------------------------------------------
-- Edges of Maps
------------------------------------------------------------

/- The edges from one node to another one. -/
def edgesBetween (map : ArgumentMap) (source target : String) :
    List MapEdge :=
  map.edges.filter (fun e => e.joins source target)

/- The edges from a node. -/
def outgoing (map : ArgumentMap) (source : String) :
    List MapEdge :=
  map.edges.filter (fun e => e.source == source)

/- The edge of a relation, with a new id. -/
def newEdge
    (map : ArgumentMap)
    (source target : String)
    (kind : RelationKind)
    (relation : Nat) : MapEdge :=
  { id := "e" ++ toString map.edges.length
    source := source
    target := target
    kinds := [kind]
    relations := [relation]
    color := none }

/-
  Add a relation between two different nodes to their edge,
  or add an edge.  Also gives the id of the edge.
-/
def addEdge
    (map : ArgumentMap)
    (source target : String)
    (kind : RelationKind)
    (relation : Nat) : ArgumentMap × Option String :=
  if source = target then
    (map, none)
  else
    let edge := map.newEdge source target kind relation
    let id :=
      match map.edges.find? (fun e => e.joins source target) with
      | some e => e.id
      | none => edge.id
    ({ map with edges := MapEdge.mergeInto map.edges edge },
      some id)

/- Merge parallel edges and drop loops. -/
def mergeEdges (map : ArgumentMap) : ArgumentMap :=
  { map with
    edges :=
      (map.edges.filter (fun e => !e.isLoop)).foldl
        MapEdge.mergeInto [] }

------------------------------------------------------------
-- Groups of Maps
------------------------------------------------------------

/- The groups that are in no other group. -/
def rootGroups (map : ArgumentMap) : List MapGroup :=
  map.groups.filter (fun g => g.parent.isNone)

/- The id of the group around a group. -/
def parent? (map : ArgumentMap) (id : String) :
    Option String :=
  (map.group? id).bind MapGroup.parent

/-
  The groups around the current one, after those that were
  met already, until one is met again.  All but the last are
  groups of the map, so `fuel` is enough if it is larger than
  their number.
-/
def ancestorsFrom (map : ArgumentMap) :
    (fuel : Nat) →
    (met : List String) →
    (current : Option String) →
    List String
| fuel + 1, met, some id =>
    if met.contains id then met
    else
      ancestorsFrom map fuel (met ++ [id]) (map.parent? id)
| _, met, _ => met

/- The ids of the groups around a group, innermost first. -/
def ancestors (map : ArgumentMap) (id : String) :
    List String :=
  ancestorsFrom map (map.groups.length + 1) []
    (map.parent? id)

/-
  What is in a group: the nodes, and the groups in the order
  in which they were met.
-/
structure Contents where
  nodes : List String
  groups : List String
deriving DecidableEq, Repr

/-
  Put the groups in a group on the stack, the last one first,
  unless they were met already.
-/
def pushSubgroups :
    (subgroups met stack : List String) →
    List String × List String
| [], met, stack => (met, stack)
| id :: ids, met, stack =>
    if met.contains id then
      pushSubgroups ids met stack
    else
      pushSubgroups ids (met ++ [id]) (id :: stack)

/-
  What is in the groups on the stack, after the contents that
  were met already.  Each group but the first one comes onto
  the stack once, so `fuel` is enough if it is larger than
  the number of all entries for groups in groups.
-/
def contentsFrom (map : ArgumentMap) :
    (fuel : Nat) →
    (met : Contents) →
    (stack : List String) →
    Contents
| fuel + 1, met, id :: stack =>
    match map.group? id with
    | none => contentsFrom map fuel met stack
    | some g =>
        let (groups, stack) :=
          pushSubgroups g.subgroups.reverse met.groups stack
        contentsFrom map fuel ⟨met.nodes ++ g.nodes, groups⟩
          stack
| _, met, _ => met

/- The number of entries for groups in groups. -/
def subgroupEntries (map : ArgumentMap) : Nat :=
  (map.groups.flatMap MapGroup.subgroups).length

/- The nodes and groups in a group at any depth. -/
def descendants (map : ArgumentMap) (id : String) : Contents :=
  contentsFrom map (map.subgroupEntries + 1) ⟨[], []⟩ [id]

end ArgumentMap

end Dialectic
