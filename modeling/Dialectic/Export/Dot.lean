import Dialectic.Map.Basic

/-
  This file defines how maps are written in the DOT language
  of graph drawing tools.

  Key definitions include:
    * `DotSettings`
    * `Dot.quote`
    * `Dot.nodeLine`
    * `Dot.groupLines`
    * `Dot.edgeLine`
    * `ArgumentMap.toDot`
-/

namespace Dialectic

/-
  How a map is written: the name of the graph, the direction
  of its ranks, whether edges are concentrated, and whether
  nodes show more than their titles.
-/
structure DotSettings where
  graphName : String
  rankDir : String
  concentrate : Bool
  showLabelText : Bool
deriving DecidableEq, Repr

namespace Dot

------------------------------------------------------------
-- Texts
------------------------------------------------------------

/- The text of a character between quotation marks. -/
def quoteChar : Char → List Char
| '"' => ['\\', '"']
| '\\' => ['\\', '\\']
| '\n' => ['\\', 'n']
| c => [c]

/- A text in quotation marks. -/
def quote (s : String) : String :=
  "\"" ++ String.ofList (s.toList.flatMap quoteChar) ++ "\""

/- The blanks before a line at some depth. -/
def indent (depth : Nat) : String :=
  String.ofList (List.replicate (2 * depth) ' ')

/- A property and its value. -/
def assign (name value : String) : String :=
  name ++ " = " ++ value

/- A color property, if there is a color. -/
def colorProperty (name : String) (color : Option String) :
    List String :=
  match color with
  | some c => [assign name (quote c)]
  | none => []

/- Properties in brackets, which end a statement. -/
def propertyList (properties : List String) : String :=
  "[" ++ ", ".intercalate properties ++ "];"

------------------------------------------------------------
-- Nodes
------------------------------------------------------------

/- The shape of the nodes of a kind. -/
def shape : NodeKind → String
| .statement => "box"
| .argument => "box"
| .group => "box3d"

/- The style of the nodes of a kind. -/
def style : NodeKind → String
| .statement => "filled,rounded"
| .argument => "filled"
| .group => "filled"

/- The label of a node. -/
def label (settings : DotSettings) (n : MapNode) : String :=
  match n.labelText with
  | some text =>
      if settings.showLabelText then n.title ++ "\n" ++ text
      else n.title
  | none => n.title

/- The line of a node. -/
def nodeLine
    (settings : DotSettings)
    (depth : Nat)
    (n : MapNode) : String :=
  let properties :=
    [ assign "label" (quote (label settings n)),
      assign "shape" (shape n.kind),
      assign "style" (quote (style n.kind)) ]
      ++ colorProperty "fillcolor" n.color
  indent depth ++ n.id ++ " " ++ propertyList properties

------------------------------------------------------------
-- Groups
------------------------------------------------------------

/- The lines that open a group. -/
def openingLines (depth : Nat) (g : MapGroup) : List String :=
  let fill :=
    match g.color with
    | some c =>
        [ indent depth ++ "  " ++ assign "style" "filled"
            ++ ";",
          indent depth ++ "  " ++ assign "fillcolor" (quote c)
            ++ ";" ]
    | none => []
  [ indent depth ++ "subgraph cluster_" ++ g.id ++ " \x7b",
    indent depth ++ "  " ++ assign "label" (quote g.title)
      ++ ";" ]
    ++ fill

/-
  The lines of a group with its nodes and the groups in it.
  A group without content was replaced by a node.  `fuel`
  bounds the depth; the number of groups is enough if no group
  is in itself.
-/
def groupLines
    (settings : DotSettings)
    (map : ArgumentMap) :
    (fuel : Nat) →
    (depth : Nat) →
    (id : String) →
    List String
| 0, _, _ => []
| fuel + 1, depth, id =>
    match map.group? id with
    | none => []
    | some g =>
        if g.isEmpty then []
        else
          openingLines depth g
            ++ (g.nodes.filterMap map.node?).map
              (nodeLine settings (depth + 1))
            ++ g.subgroups.flatMap
              (groupLines settings map fuel (depth + 1))
            ++ [indent depth ++ "\x7d"]

------------------------------------------------------------
-- Edges
------------------------------------------------------------

/- The names of the kinds of relations of an edge. -/
def kindNames (kinds : List RelationKind) : String :=
  if kinds.isEmpty then "relation"
  else ",".intercalate (kinds.map RelationKind.name)

/- The line of an edge. -/
def edgeLine (e : MapEdge) : String :=
  let properties :=
    assign "type" (quote (kindNames e.kinds))
      :: colorProperty "color" e.color
  "  " ++ e.source ++ " -> " ++ e.target ++ " "
    ++ propertyList properties

------------------------------------------------------------
-- Graphs
------------------------------------------------------------

/- The lines before the nodes of a graph. -/
def headLines (settings : DotSettings) : List String :=
  let concentrate :=
    if settings.concentrate then
      ["  " ++ assign "concentrate" "true" ++ ";"]
    else
      []
  [ "digraph " ++ quote settings.graphName ++ " \x7b",
    "  " ++ assign "rankdir" (quote settings.rankDir)
      ++ ";" ]
    ++ concentrate
    ++ [""]

/- The lines of a graph. -/
def lines (settings : DotSettings) (map : ArgumentMap) :
    List String :=
  let ungrouped := map.nodes.filter (fun n => n.group.isNone)
  let gap := if map.edges.isEmpty then [] else [""]
  headLines settings
    ++ ungrouped.map (nodeLine settings 1)
    ++ map.rootGroups.flatMap (fun g =>
      groupLines settings map map.groups.length 1 g.id)
    ++ gap
    ++ map.edges.map edgeLine
    ++ ["\x7d"]

end Dot

/- Write a map; each line ends with a line feed. -/
def ArgumentMap.toDot
    (map : ArgumentMap)
    (settings : DotSettings) : String :=
  String.join
    ((Dot.lines settings map).map (fun line => line ++ "\n"))

end Dialectic
