import Dialectic.Map.Basic
import Dialectic.Model.Basic
import Dialectic.Selection.Basic

/-
  This file defines how the map of a selection is built.

  Key definitions include:
    * `MapSettings`
    * `MapBuilder.elements`
    * `MapBuilder.addElement`
    * `MapBuilder.addRelation`
    * `ArgumentMap.build`
-/

namespace Dialectic

/-
  Which derived relations a map shows.  Reciprocal ones are
  derived relations with a switch of their own.
-/
structure MapSettings where
  includeDerived : Bool
  includeReciprocal : Bool
deriving DecidableEq, Repr

namespace MapBuilder

------------------------------------------------------------
-- Elements in Order
------------------------------------------------------------

/- The place of an element that occurs nowhere: the last. -/
def nowhere : Nat :=
  Nat.pow 2 64 - 1

/- Where the first statement of a class occurs. -/
def classOffset (m : Model) (title : String) : Nat :=
  match m.members title with
  | s :: _ => s.span.start.offset
  | [] => nowhere

/-
  The selected elements in the order in which they occur,
  classes before arguments at the same place.
-/
def elements (m : Model) (s : Selection) : List Element :=
  let classes :=
    (m.classes.filter (fun c => s.statements.contains c.title)).map
      (fun c =>
        (classOffset m c.title, Element.statement c.title))
  let arguments :=
    (m.arguments.filter (fun a => s.arguments.contains a.title)).map
      (fun a =>
        (a.span.start.offset, Element.argument a.title))
  (Sequence.sortBy Prod.fst (classes ++ arguments)).map Prod.snd

------------------------------------------------------------
-- Nodes
------------------------------------------------------------

/-
  The nodes so far, and for each class that has a node its
  representative and the index of the node.
-/
structure Nodes where
  nodes : List MapNode
  shared : List (String × Nat)
deriving DecidableEq, Repr

namespace Nodes

/- The id of the next node. -/
def nextId (ns : Nodes) : String :=
  "n" ++ toString ns.nodes.length

end Nodes

/- The node of an argument. -/
def argumentNode (id : String) (a : Argument) : MapNode :=
  { MapNode.new id .argument a.title with
    labelText := a.description?
    tags := a.tags
    sectionId := a.sectionId }

/- The node of a class. -/
def classNode
    (m : Model)
    (id : String)
    (c : EquivalenceClass) : MapNode :=
  { MapNode.new id .statement c.title with
    labelText := m.classText? c.title
    tags := c.tags
    sectionId := c.sectionId }

/- Let a node stand for an equivalent class, too. -/
def joinClass
    (m : Model)
    (c : EquivalenceClass)
    (n : MapNode) : MapNode :=
  { n with
    members := n.members ++ [c.title]
    tags := Sequence.addAllNew n.tags c.tags
    labelText := n.labelText <|> m.classText? c.title }

/- Add the node of an element, or let one stand for it. -/
def addElement (m : Model) (ns : Nodes) : Element → Nodes
| .argument title =>
    match m.argument? title with
    | none => ns
    | some a =>
        { ns with
          nodes := ns.nodes ++ [argumentNode ns.nextId a] }
| .statement title =>
    match m.class? title with
    | none => ns
    | some c =>
        let key := (m.representative? title).getD title
        match ns.shared.lookup key with
        | some i =>
            { ns with
              nodes := ns.nodes.modify i (joinClass m c) }
        | none =>
            { nodes := ns.nodes ++ [classNode m ns.nextId c]
              shared := (key, ns.nodes.length) :: ns.shared }

------------------------------------------------------------
-- Edges
------------------------------------------------------------

/- A map with the given settings shows relations of an origin. -/
def shows (settings : MapSettings) : Origin → Bool
| .explicit => true
| .derived .reciprocal =>
    settings.includeDerived && settings.includeReciprocal
| .derived _ => settings.includeDerived

/- Add a relation, if its ends have nodes. -/
def addRelation (map : ArgumentMap) (r : Relation) :
    ArgumentMap :=
  match map.nodeFor? r.source, map.nodeFor? r.target with
  | some source, some target =>
      (map.addEdge source.id target.id r.kind r.id).1
  | _, _ => map

end MapBuilder

/-
  Build the map of a selection.  Its nodes are in the order of
  the document, equivalent classes share one, and only
  relations between selected elements have edges.
-/
def ArgumentMap.build
    (m : Model)
    (s : Selection)
    (settings : MapSettings) : ArgumentMap :=
  let ns :=
    (MapBuilder.elements m s).foldl (MapBuilder.addElement m)
      ⟨[], []⟩
  let shown :=
    m.relations.filter
      (fun r => MapBuilder.shows settings r.origin)
  shown.foldl MapBuilder.addRelation ⟨ns.nodes, [], []⟩

end Dialectic
