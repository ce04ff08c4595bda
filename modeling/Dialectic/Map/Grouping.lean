import Dialectic.Map.Basic
import Dialectic.Model.Regroup

/-
  This file defines how the nodes of a map are put into groups
  that follow the sections of their elements.

  Key definitions include:
    * `GroupSettings`
    * `Grouping.path`
    * `Grouping.enter`
    * `Grouping.placeNode`
    * `ArgumentMap.buildGroups`
-/

namespace Dialectic

/-
  How groups are built: how many levels of sections become
  groups, which groups are closed, by title or from a level
  on, and the sections that replace those of the document.
-/
structure GroupSettings where
  groupDepth : Nat
  closedGroups : List String
  closeDepth : Option Nat
  regroup : Option (List SectionPlan)
deriving Repr

namespace Grouping

/-
  The groups so far, and the group of each section that has
  one.
-/
structure State where
  groups : List MapGroup
  bySection : List (Nat × String)
deriving DecidableEq, Repr

/-
  The sections around an element that become groups, outermost
  first.
-/
def path
    (m : Model)
    (settings : GroupSettings)
    (sectionId : Nat) : List Section :=
  ((m.sectionPath sectionId).filter Section.isGroup).take
    settings.groupDepth

/- The group of a section at a level is closed. -/
def isClosed
    (settings : GroupSettings)
    (s : Section)
    (level : Nat) : Bool :=
  settings.closedGroups.contains s.title || s.isClosed
    || (match settings.closeDepth with
      | some depth => decide (depth ≤ level)
      | none => false)

/- Add the group of a section that has none yet. -/
def addGroup
    (settings : GroupSettings)
    (state : State)
    (parent : Option String)
    (level : Nat)
    (s : Section) : State × String :=
  let id := "g" ++ toString state.groups.length
  let added :=
    { MapGroup.new id s.title level with
      sectionId := some s.id
      parent := parent
      isClosed := isClosed settings s level }
  let groups :=
    match parent with
    | some p =>
        MapGroup.modify state.groups p (fun g =>
          { g with subgroups := g.subgroups ++ [id] })
    | none => state.groups
  (⟨groups ++ [added], (s.id, id) :: state.bySection⟩, id)

/-
  Enter the groups of the sections on a path, below a parent.
  Also gives the innermost group.
-/
def enter
    (settings : GroupSettings) :
    State →
    (parent : Option String) →
    (level : Nat) →
    List Section →
    State × Option String
| state, parent, _, [] => (state, parent)
| state, parent, level, s :: rest =>
    match state.bySection.lookup s.id with
    | some id => enter settings state (some id) (level + 1) rest
    | none =>
        let (state, id) :=
          addGroup settings state parent level s
        enter settings state (some id) (level + 1) rest

/- Put a node into the group of its innermost section. -/
def placeNode
    (m : Model)
    (settings : GroupSettings)
    (state : State)
    (n : MapNode) : State × MapNode :=
  match n.sectionId with
  | none => (state, n)
  | some sectionId =>
      let (state, innermost) :=
        enter settings state none 1 (path m settings sectionId)
      match innermost with
      | none => (state, n)
      | some id =>
          let groups :=
            MapGroup.modify state.groups id (fun g =>
              { g with nodes := g.nodes ++ [n.id] })
          ({ state with groups := groups },
            { n with group := some id })

/- Put nodes into groups, one after the other. -/
def placeNodes
    (m : Model)
    (settings : GroupSettings) :
    State → List MapNode → State × List MapNode
| state, [] => (state, [])
| state, n :: ns =>
    let (state, n) := placeNode m settings state n
    let (state, ns) := placeNodes m settings state ns
    (state, n :: ns)

end Grouping

/-
  Put the nodes of a map into groups.  Only sections with
  nodes become groups.
-/
def ArgumentMap.buildGroups
    (map : ArgumentMap)
    (m : Model)
    (settings : GroupSettings) : ArgumentMap :=
  let (state, nodes) :=
    Grouping.placeNodes m settings ⟨map.groups, []⟩ map.nodes
  { map with nodes := nodes, groups := state.groups }

end Dialectic
