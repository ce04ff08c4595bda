import Dialectic.Map.Basic
import Dialectic.Model.Encoding

/-
  This file defines the values that stand for maps, and how
  maps are read back from them.

  Key definitions include:
    * `MapNode.toValue`, `MapNode.ofValue?`
    * `MapEdge.toValue`, `MapEdge.ofValue?`
    * `MapGroup.toValue`, `MapGroup.ofValue?`
    * `ArgumentMap.toValue`, `ArgumentMap.ofValue?`
-/

namespace Dialectic

------------------------------------------------------------
-- Nodes
------------------------------------------------------------

namespace NodeKind

/- The kind that a value stands for. -/
def ofValue? : Value → Option NodeKind :=
  Decode.name all name

end NodeKind

namespace MapNode

/- The value of a node. -/
def toValue (n : MapNode) : Value :=
  Record.value [
    ("id", .text n.id),
    ("kind", .text n.kind.name),
    ("title", .text n.title),
    ("label_text", .ofOption .text n.labelText),
    ("members", .texts n.members),
    ("tags", .texts n.tags),
    ("section", .ofOption .ofNat n.sectionId),
    ("group", .ofOption .text n.group),
    ("color", .ofOption .text n.color)
  ]

/- The node that a value stands for. -/
def ofValue? (value : Value) : Option MapNode := do
  let given ←
    Decode.fields
      ["id", "kind", "title", "label_text", "members", "tags",
        "section", "group", "color"]
      false value
  pure
    { id := ← Decode.required given "id" Decode.text
      kind := ← Decode.required given "kind" NodeKind.ofValue?
      title := ← Decode.required given "title" Decode.text
      labelText := ← Decode.optional given "label_text"
        Decode.text
      members := ← Decode.required given "members"
        Decode.texts
      tags := ← Decode.required given "tags" Decode.texts
      sectionId := ← Decode.optional given "section"
        Decode.natural
      group := ← Decode.optional given "group" Decode.text
      color := ← Decode.optional given "color" Decode.text }

end MapNode

------------------------------------------------------------
-- Edges
------------------------------------------------------------

namespace MapEdge

/- The value of an edge. -/
def toValue (e : MapEdge) : Value :=
  Record.value [
    ("id", .text e.id),
    ("from", .text e.source),
    ("to", .text e.target),
    ("kinds", .texts (e.kinds.map RelationKind.name)),
    ("relations", indicesValue e.relations),
    ("color", .ofOption .text e.color)
  ]

/- The edge that a value stands for. -/
def ofValue? (value : Value) : Option MapEdge := do
  let given ←
    Decode.fields
      ["id", "from", "to", "kinds", "relations", "color"]
      false value
  pure
    { id := ← Decode.required given "id" Decode.text
      source := ← Decode.required given "from" Decode.text
      target := ← Decode.required given "to" Decode.text
      kinds := ← Decode.required given "kinds"
        (Decode.list RelationKind.ofValue?)
      relations := ← Decode.required given "relations"
        indicesOfValue?
      color := ← Decode.optional given "color" Decode.text }

end MapEdge

------------------------------------------------------------
-- Groups
------------------------------------------------------------

namespace MapGroup

/- The value of a group. -/
def toValue (g : MapGroup) : Value :=
  Record.value [
    ("id", .text g.id),
    ("title", .text g.title),
    ("level", .ofNat g.level),
    ("section", .ofOption .ofNat g.sectionId),
    ("parent", .ofOption .text g.parent),
    ("nodes", .texts g.nodes),
    ("subgroups", .texts g.subgroups),
    ("is_closed", .flag g.isClosed),
    ("color", .ofOption .text g.color)
  ]

/- The group that a value stands for. -/
def ofValue? (value : Value) : Option MapGroup := do
  let given ←
    Decode.fields
      ["id", "title", "level", "section", "parent", "nodes",
        "subgroups", "is_closed", "color"]
      false value
  pure
    { id := ← Decode.required given "id" Decode.text
      title := ← Decode.required given "title" Decode.text
      level := ← Decode.required given "level" Decode.natural
      sectionId := ← Decode.optional given "section"
        Decode.natural
      parent := ← Decode.optional given "parent" Decode.text
      nodes := ← Decode.required given "nodes" Decode.texts
      subgroups := ← Decode.required given "subgroups"
        Decode.texts
      isClosed := ← Decode.required given "is_closed"
        Decode.flag
      color := ← Decode.optional given "color" Decode.text }

end MapGroup

------------------------------------------------------------
-- Maps
------------------------------------------------------------

namespace ArgumentMap

/- The value of a map. -/
def toValue (map : ArgumentMap) : Value :=
  Record.value [
    ("nodes", .list (map.nodes.map MapNode.toValue)),
    ("edges", .list (map.edges.map MapEdge.toValue)),
    ("groups", .list (map.groups.map MapGroup.toValue))
  ]

/- The map that a value stands for. -/
def ofValue? (value : Value) : Option ArgumentMap := do
  let given ←
    Decode.fields ["nodes", "edges", "groups"] false value
  pure
    { nodes := ← Decode.required given "nodes"
        (Decode.list MapNode.ofValue?)
      edges := ← Decode.required given "edges"
        (Decode.list MapEdge.ofValue?)
      groups := ← Decode.required given "groups"
        (Decode.list MapGroup.ofValue?) }

end ArgumentMap

end Dialectic
