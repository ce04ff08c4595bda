import Dialectic.Color.Basic
import Dialectic.Map.Basic
import Dialectic.Model.Basic

/-
  This file defines how the elements of a model and the parts
  of a map are colored.

  Key definitions include:
    * `ColorSettings.tagEntries`
    * `ColorSettings.firstTagColor?`
    * `ColorSettings.kindsColor?`
    * `Model.colorize`
    * `ArgumentMap.colorize`
-/

namespace Dialectic

namespace ColorSettings

------------------------------------------------------------
-- Tags
------------------------------------------------------------

/-
  The colors of tags.  `next` counts the colors of the scheme
  that were used; without a scheme only tags with a color of
  their own have one.
-/
def tagEntriesFrom (settings : ColorSettings) :
    (next : Nat) → List String → List ColorEntry
| _, [] => []
| next, tag :: tags =>
    match settings.tagColors.lookup tag with
    | some color =>
        ⟨tag, color⟩ :: tagEntriesFrom settings next tags
    | none =>
        match
          settings.colorScheme[next % settings.colorScheme.length]?
        with
        | some color =>
            ⟨tag, color⟩
              :: tagEntriesFrom settings (next + 1) tags
        | none => tagEntriesFrom settings next tags

/- The colors of tags in their order. -/
def tagEntries (settings : ColorSettings) (tags : List String) :
    List ColorEntry :=
  tagEntriesFrom settings 0 tags

/- The color of the first tag that has one. -/
def firstTagColor?
    (entries : List ColorEntry)
    (tags : List String) : Option String :=
  tags.findSome? (ColorEntry.lookup entries)

------------------------------------------------------------
-- Relations
------------------------------------------------------------

/- The color of a kind of relations. -/
def kindColor (settings : ColorSettings) (kind : RelationKind) :
    String :=
  if kind.isCon then settings.conColor else settings.proColor

/-
  The color of relations that all speak for something, or all
  against it.
-/
def kindsColor?
    (settings : ColorSettings)
    (kinds : List RelationKind) : Option String :=
  match kinds with
  | [] => none
  | kind :: rest =>
      if rest.all (fun k => k.isCon == kind.isCon) then
        some (settings.kindColor kind)
      else
        none

/-
  The color that the relations of an element give it, if they
  are to do so.
-/
def relationColor?
    (settings : ColorSettings)
    (kinds : List RelationKind) : Option String :=
  if settings.colorizeByRelation then settings.kindsColor? kinds
  else none

------------------------------------------------------------
-- Models
------------------------------------------------------------

/- The kinds of the relations from an element. -/
def outgoingKinds (m : Model) (element : Element) :
    List RelationKind :=
  (m.relations.filter (fun r => r.source == element)).map
    Relation.kind

/- The color of an argument. -/
def argumentColorOf
    (settings : ColorSettings)
    (entries : List ColorEntry)
    (m : Model)
    (a : Argument) : String :=
  (firstTagColor? entries a.tags
    <|> settings.relationColor?
      (outgoingKinds m (.argument a.title))).getD
    settings.argumentColor

/- The color of a class. -/
def classColorOf
    (settings : ColorSettings)
    (entries : List ColorEntry)
    (c : EquivalenceClass) : String :=
  (firstTagColor? entries c.tags).getD settings.statementColor

------------------------------------------------------------
-- Maps
------------------------------------------------------------

/- The color of a group at a level, if groups have colors. -/
def groupColorAt? (settings : ColorSettings) (level : Nat) :
    Option String :=
  settings.groupColors[
    min (level - 1) (settings.groupColors.length - 1)]?

/- The entries of the groups that have a color. -/
def groupEntries
    (settings : ColorSettings)
    (groups : List MapGroup) : List ColorEntry :=
  groups.filterMap (fun g =>
    (settings.groupColorAt? g.level).map
      (fun color => ⟨g.id, color⟩))

/- The color of a node of a kind without other rules. -/
def plainNodeColor
    (settings : ColorSettings)
    (groups : List ColorEntry)
    (n : MapNode) : String :=
  match n.kind with
  | .statement => settings.statementColor
  | .argument => settings.argumentColor
  | .group =>
      (ColorEntry.lookup groups n.id).getD
        settings.statementColor

/- The color of a node. -/
def nodeColorOf
    (settings : ColorSettings)
    (tags groups : List ColorEntry)
    (map : ArgumentMap)
    (n : MapNode) : String :=
  let byRelation :=
    if n.kind = .group then none
    else
      settings.relationColor?
        ((map.outgoing n.id).flatMap MapEdge.kinds)
  (firstTagColor? tags n.tags <|> byRelation).getD
    (settings.plainNodeColor groups n)

end ColorSettings

/-
  Color the classes and arguments of a model.  Also gives the
  colors of its tags.
-/
def Model.colorize
    (m : Model)
    (settings : ColorSettings) : Model × Coloring :=
  let entries := settings.tagEntries m.tags
  let colored :=
    (m.mapArguments (fun a =>
      { a with
        color :=
          some (settings.argumentColorOf entries m a) })).mapClasses
      (fun c =>
        { c with
          color := some (settings.classColorOf entries c) })
  (colored, ⟨entries, [], []⟩)

/-
  Color the groups, nodes and edges of a map, and add their
  colors to those that are known.
-/
def ArgumentMap.colorize
    (map : ArgumentMap)
    (settings : ColorSettings)
    (colors : Coloring) : ArgumentMap × Coloring :=
  let groups :=
    colors.groups ++ settings.groupEntries map.groups
  let colorOf :=
    settings.nodeColorOf colors.tags groups map
  ( { nodes :=
        map.nodes.map
          (fun n => { n with color := some (colorOf n) })
      edges :=
        map.edges.map (fun e =>
          { e with color := e.kind?.map settings.kindColor })
      groups :=
        map.groups.map (fun g =>
          { g with
            color := settings.groupColorAt? g.level <|> g.color }) },
    { colors with
      groups := groups
      nodes :=
        colors.nodes
          ++ map.nodes.map (fun n => ⟨n.id, colorOf n⟩) } )

end Dialectic
