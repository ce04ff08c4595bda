import Dialectic.Data.Value

/-
  This file defines colors that are assigned to tags, nodes and
  groups.

  Key definitions include:
    * `ColorEntry`
    * `ColorEntry.lookup`
    * `Coloring`
    * `ColorSettings`
-/

namespace Dialectic

------------------------------------------------------------
-- Assignments
------------------------------------------------------------

/- The color of a tag, of a node or of a group. -/
structure ColorEntry where
  key : String
  color : String
deriving DecidableEq, Repr

namespace ColorEntry

/- The color of a key. -/
def lookup (entries : List ColorEntry) (key : String) :
    Option String :=
  (entries.find? (fun e => e.key == key)).map ColorEntry.color

/- The value of some entries. -/
def values (entries : List ColorEntry) : Value :=
  .list (entries.map (fun e =>
    Record.value [("key", .text e.key), ("color", .text e.color)]))

end ColorEntry

/- The colors of tags, nodes and groups. -/
structure Coloring where
  tags : List ColorEntry
  nodes : List ColorEntry
  groups : List ColorEntry
deriving DecidableEq, Repr

namespace Coloring

/- No colors. -/
def empty : Coloring :=
  ⟨[], [], []⟩

instance : Inhabited Coloring :=
  ⟨empty⟩

/- The value of the colors. -/
def toValue (c : Coloring) : Value :=
  Record.value [
    ("tags", ColorEntry.values c.tags),
    ("nodes", ColorEntry.values c.nodes),
    ("groups", ColorEntry.values c.groups)
  ]

end Coloring

------------------------------------------------------------
-- Settings
------------------------------------------------------------

/-
  How colors are chosen.  The colors of the scheme are used in
  turn for tags without a color of their own.  Groups have the
  color of their level; those below the last one have the last
  color.
-/
structure ColorSettings where
  colorScheme : List String
  tagColors : List (String × String)
  colorizeByRelation : Bool
  groupColors : List String
  statementColor : String
  argumentColor : String
  proColor : String
  conColor : String
deriving DecidableEq, Repr

namespace ColorSettings

/- The colors that are used without any settings. -/
def standard : ColorSettings :=
  { colorScheme := [
      "#1b9e77", "#d95f02", "#7570b3", "#e7298a", "#66a61e",
      "#e6ab02", "#a6761d", "#666666"
    ]
    tagColors := []
    colorizeByRelation := false
    groupColors := ["#DADADA", "#BABABA", "#AAAAAA"]
    statementColor := "#3E8EDE"
    argumentColor := "#FF8C00"
    proColor := "#63AE12"
    conColor := "#E2314C" }

end ColorSettings

end Dialectic
