import Dialectic.Proofs.Data.Sequence
import Dialectic.Proofs.Map.Validity
import Mathlib.Data.List.Nodup

/-
  How the nodes, edges and groups of a map are arranged, and
  that an arranged map is valid.

  Key definitions include:
    * `ArgumentMap.IsCollapsed`
    * `ArgumentMap.IsWithin`
    * `ArgumentMap.Nested`
    * `ArgumentMap.Arranged`

  Main theorems:
    * `ArgumentMap.parent?_eq_some_iff`
    * `ArgumentMap.Arranged.level_lt`
    * `ArgumentMap.Arranged.nested`
    * `ArgumentMap.Arranged.valid`
    * `ArgumentMap.Arranged.validate_eq_nil`
-/

namespace Dialectic

namespace ArgumentMap

------------------------------------------------------------
-- Arrangement
------------------------------------------------------------

/- A group has been replaced by a node of its id. -/
def IsCollapsed (map : ArgumentMap) (g : MapGroup) : Prop :=
  ∃ n ∈ map.nodes, n.id = g.id

/- A group is in another one, at any depth. -/
def IsWithin (map : ArgumentMap) (inner outer : String) :
    Prop :=
  Relation.TransGen (fun id p => map.parent? id = some p)
    inner outer

/-
  The groups of a map are nested without cycles, and list what
  is in them.  A group that is collapsed stays in the map, but
  no other group lists it, and all groups around it are open.
  Nothing is said of levels, and groups may be empty: the map
  of a model whose sections are out of order is like this.
-/
structure Nested (map : ArgumentMap) : Prop where
  nodeIds : (map.nodes.map MapNode.id).Nodup
  edgeIds : (map.edges.map MapEdge.id).Nodup
  groupIds : (map.groups.map MapGroup.id).Nodup
  edgeApart : ∀ e ∈ map.edges,
    (∀ n ∈ map.nodes, e.id ≠ n.id) ∧
      ∀ g ∈ map.groups, e.id ≠ g.id
  ends : ∀ e ∈ map.edges,
    (∃ n ∈ map.nodes, n.id = e.source) ∧
      ∃ n ∈ map.nodes, n.id = e.target
  noLoop : ∀ e ∈ map.edges, e.source ≠ e.target
  grouped : ∀ n ∈ map.nodes, ∀ id,
    n.group = some id ↔
      ∃ g ∈ map.groups, g.id = id ∧ n.id ∈ g.nodes
  members : ∀ g ∈ map.groups,
    g.nodes.Nodup ∧
      ∀ id ∈ g.nodes, ∃ n ∈ map.nodes, n.id = id
  parents : ∀ g ∈ map.groups, ∀ p, g.parent = some p →
    ∃ h ∈ map.groups, h.id = p
  acyclic : ∀ g ∈ map.groups, ¬ map.IsWithin g.id g.id
  subgroups : ∀ h ∈ map.groups, ∀ id ∈ h.subgroups,
    ∃ g ∈ map.groups,
      g.id = id ∧ g.parent = some h.id ∧
        ¬ map.IsCollapsed g
  listed : ∀ g ∈ map.groups, ¬ map.IsCollapsed g →
    ∀ h ∈ map.groups, g.parent = some h.id →
      g.id ∈ h.subgroups
  collapsed : ∀ g ∈ map.groups, ∀ n ∈ map.nodes,
    n.id = g.id → n.group = g.parent
  openAround : ∀ g ∈ map.groups, map.IsCollapsed g →
    ∀ h ∈ map.groups, map.IsWithin g.id h.id →
      h.isClosed = false

/-
  The nodes, edges and groups of a map fit together.  A group
  that is collapsed stays in the map, but no other group lists
  it, and all groups around it are open.
-/
structure Arranged (map : ArgumentMap) : Prop where
  nodeIds : (map.nodes.map MapNode.id).Nodup
  edgeIds : (map.edges.map MapEdge.id).Nodup
  groupIds : (map.groups.map MapGroup.id).Nodup
  edgeApart : ∀ e ∈ map.edges,
    (∀ n ∈ map.nodes, e.id ≠ n.id) ∧
      ∀ g ∈ map.groups, e.id ≠ g.id
  ends : ∀ e ∈ map.edges,
    (∃ n ∈ map.nodes, n.id = e.source) ∧
      ∃ n ∈ map.nodes, n.id = e.target
  noLoop : ∀ e ∈ map.edges, e.source ≠ e.target
  grouped : ∀ n ∈ map.nodes, ∀ id,
    n.group = some id ↔
      ∃ g ∈ map.groups, g.id = id ∧ n.id ∈ g.nodes
  members : ∀ g ∈ map.groups,
    g.nodes.Nodup ∧
      ∀ id ∈ g.nodes, ∃ n ∈ map.nodes, n.id = id
  parents : ∀ g ∈ map.groups, ∀ p, g.parent = some p →
    ∃ h ∈ map.groups, h.id = p ∧ g.level = h.level + 1
  subgroups : ∀ h ∈ map.groups, ∀ id ∈ h.subgroups,
    ∃ g ∈ map.groups,
      g.id = id ∧ g.parent = some h.id ∧
        ¬ map.IsCollapsed g
  listed : ∀ g ∈ map.groups, ¬ map.IsCollapsed g →
    ∀ h ∈ map.groups, g.parent = some h.id →
      g.id ∈ h.subgroups
  filled : ∀ g ∈ map.groups, ¬ map.IsCollapsed g →
    g.nodes ≠ [] ∨ g.subgroups ≠ []
  collapsed : ∀ g ∈ map.groups, ∀ n ∈ map.nodes,
    n.id = g.id → n.group = g.parent
  openAround : ∀ g ∈ map.groups, map.IsCollapsed g →
    ∀ h ∈ map.groups, map.IsWithin g.id h.id →
      h.isClosed = false

------------------------------------------------------------
-- Look-Up
------------------------------------------------------------

variable {map : ArgumentMap}

/- Two groups of the same id are the same. -/
theorem group_eq
    (hIds : (map.groups.map MapGroup.id).Nodup)
    {g h : MapGroup}
    (hg : g ∈ map.groups)
    (hh : h ∈ map.groups)
    (hSame : g.id = h.id) :
    g = h :=
  List.inj_on_of_nodup_map hIds hg hh hSame

/- Looking up a group finds the one of its id. -/
theorem group?_eq_some_iff
    (hIds : (map.groups.map MapGroup.id).Nodup)
    {id : String}
    {g : MapGroup} :
    map.group? id = some g ↔ g ∈ map.groups ∧ g.id = id :=
  Sequence.find?_key_eq_some_iff hIds

/- The parent of an id is that of the group of this id. -/
theorem parent?_eq_some_iff
    (hIds : (map.groups.map MapGroup.id).Nodup)
    {id p : String} :
    map.parent? id = some p ↔
      ∃ g ∈ map.groups, g.id = id ∧ g.parent = some p := by
  unfold parent?
  rw [Option.bind_eq_some_iff]
  constructor
  · rintro ⟨g, hFound, hParent⟩
    have hGroup := (group?_eq_some_iff hIds).mp hFound
    exact ⟨g, hGroup.1, hGroup.2, hParent⟩
  · rintro ⟨g, hg, hId, hParent⟩
    exact
      ⟨g, (group?_eq_some_iff hIds).mpr ⟨hg, hId⟩, hParent⟩

/- A group is in its parent, and in what its parent is in. -/
theorem isWithin_of_parent
    (hIds : (map.groups.map MapGroup.id).Nodup)
    {g : MapGroup}
    {p outer : String}
    (hg : g ∈ map.groups)
    (hParent : g.parent = some p)
    (hAbove : p = outer ∨ map.IsWithin p outer) :
    map.IsWithin g.id outer := by
  have hStep : map.parent? g.id = some p :=
    (parent?_eq_some_iff hIds).mpr ⟨g, hg, rfl, hParent⟩
  rcases hAbove with hSame | hWithin
  · exact .single (hSame ▸ hStep)
  · exact .trans (.single hStep) hWithin

/- A group is one level below its parent. -/
theorem Arranged.level_eq
    (hMap : map.Arranged)
    {g h : MapGroup}
    (hg : g ∈ map.groups)
    (hh : h ∈ map.groups)
    (hParent : g.parent = some h.id) :
    g.level = h.level + 1 := by
  rcases hMap.parents g hg h.id hParent with
    ⟨k, hk, hSame, hLevel⟩
  rw [hLevel, group_eq hMap.groupIds hk hh hSame]

/- A group in another one has a higher level. -/
theorem Arranged.level_lt
    (hMap : map.Arranged)
    {inner outer : String}
    (hWithin : map.IsWithin inner outer) :
    ∀ g ∈ map.groups, g.id = inner →
      ∃ h ∈ map.groups, h.id = outer ∧ h.level < g.level := by
  have hStep : ∀ {id p : String}, map.parent? id = some p →
      ∀ g ∈ map.groups, g.id = id →
        ∃ h ∈ map.groups, h.id = p ∧ h.level < g.level := by
    intro id p hParent g hg hId
    rcases (parent?_eq_some_iff hMap.groupIds).mp hParent with
      ⟨k, hk, hSame, hParent⟩
    have hEq :=
      group_eq hMap.groupIds hg hk (hId.trans hSame.symm)
    rw [← hEq] at hParent
    rcases hMap.parents g hg p hParent with
      ⟨h, hh, hOuter, hLevel⟩
    exact ⟨h, hh, hOuter, by omega⟩
  intro g hg hId
  induction hWithin with
  | single hParent => exact hStep hParent g hg hId
  | tail _ hParent ih =>
      rcases ih with ⟨k, hk, hMiddle, hLower⟩
      rcases hStep hParent k hk hMiddle with
        ⟨h, hh, hOuter, hLevel⟩
      exact ⟨h, hh, hOuter, by omega⟩

/- No group of an arranged map is in itself. -/
theorem Arranged.not_within_self
    (hMap : map.Arranged)
    {g : MapGroup}
    (hg : g ∈ map.groups) :
    ¬ map.IsWithin g.id g.id := by
  intro hWithin
  rcases hMap.level_lt hWithin g hg rfl with
    ⟨h, hh, hSame, hLevel⟩
  rw [group_eq hMap.groupIds hh hg hSame] at hLevel
  omega

/- The groups of an arranged map are nested. -/
theorem Arranged.nested (hMap : map.Arranged) :
    map.Nested where
  nodeIds := hMap.nodeIds
  edgeIds := hMap.edgeIds
  groupIds := hMap.groupIds
  edgeApart := hMap.edgeApart
  ends := hMap.ends
  noLoop := hMap.noLoop
  grouped := hMap.grouped
  members := hMap.members
  parents := by
    intro g hg p hParent
    rcases hMap.parents g hg p hParent with ⟨h, hh, hId, _⟩
    exact ⟨h, hh, hId⟩
  acyclic := fun g hg => hMap.not_within_self hg
  subgroups := hMap.subgroups
  listed := hMap.listed
  collapsed := hMap.collapsed
  openAround := hMap.openAround

/-
  Nested groups are arranged if levels follow the nesting and
  none is empty, but for those that are collapsed.
-/
theorem Nested.arranged
    (hMap : map.Nested)
    (hLevels : ∀ g ∈ map.groups, ∀ h ∈ map.groups,
      g.parent = some h.id → g.level = h.level + 1)
    (hFilled : ∀ g ∈ map.groups, ¬ map.IsCollapsed g →
      g.nodes ≠ [] ∨ g.subgroups ≠ []) :
    map.Arranged where
  nodeIds := hMap.nodeIds
  edgeIds := hMap.edgeIds
  groupIds := hMap.groupIds
  edgeApart := hMap.edgeApart
  ends := hMap.ends
  noLoop := hMap.noLoop
  grouped := hMap.grouped
  members := hMap.members
  parents := by
    intro g hg p hParent
    rcases hMap.parents g hg p hParent with ⟨h, hh, hId⟩
    exact ⟨h, hh, hId, hLevels g hg h hh (hId ▸ hParent)⟩
  subgroups := hMap.subgroups
  listed := hMap.listed
  filled := hFilled
  collapsed := hMap.collapsed
  openAround := hMap.openAround

/- Only one group lists a node. -/
theorem Nested.lister_eq
    (hMap : map.Nested)
    {g h : MapGroup}
    {id : String}
    (hg : g ∈ map.groups)
    (hh : h ∈ map.groups)
    (hInG : id ∈ g.nodes)
    (hInH : id ∈ h.nodes) :
    g = h := by
  rcases (hMap.members g hg).2 id hInG with ⟨n, hn, hId⟩
  rw [← hId] at hInG hInH
  have hGroupG := (hMap.grouped n hn g.id).mpr ⟨g, hg, rfl, hInG⟩
  have hGroupH := (hMap.grouped n hn h.id).mpr ⟨h, hh, rfl, hInH⟩
  rw [hGroupG, Option.some.injEq] at hGroupH
  exact group_eq hMap.groupIds hg hh hGroupH

------------------------------------------------------------
-- Validity
------------------------------------------------------------

/- The levels on the way up from a group go down. -/
theorem Arranged.wayUp_levels
    (hMap : map.Arranged)
    {start current : Option MapGroup}
    {way : List MapGroup}
    (hStart : ∀ g, start = some g → g ∈ map.groups)
    (hLeads : Climb.Leads map.outer? start way current) :
    way.Pairwise (fun g h => h.level < g.level) := by
  have hOuter : ∀ g ∈ map.groups, ∀ h,
      map.outer? g = some h →
        h ∈ map.groups ∧ h.level < g.level := by
    intro g hg h hOuter
    rcases Option.bind_eq_some_iff.mp hOuter with
      ⟨p, hParent, hFound⟩
    rcases (group?_eq_some_iff hMap.groupIds).mp hFound with
      ⟨hh, hId⟩
    have hLevel := hMap.level_eq hg hh (hId ▸ hParent)
    exact ⟨hh, by omega⟩
  induction way generalizing start with
  | nil => exact .nil
  | cons g way ih =>
      have hg := hStart g hLeads.1
      refine .cons ?_ (ih ?_ hLeads.2)
      · intro h hh
        refine
          (hLeads.2.forall
            (P := fun k =>
              k ∈ map.groups ∧ k.level < g.level)
            (hOuter g hg) ?_ h hh).2
        rintro k l ⟨hk, hLower⟩ hNext
        have hLevel := hOuter k hk l hNext
        exact ⟨hLevel.1, by omega⟩
      · exact fun h hNext => (hOuter g hg h hNext).1

/- No group of an arranged map is met again on the way up. -/
theorem Arranged.not_revisits
    (hMap : map.Arranged)
    {g : MapGroup}
    (hg : g ∈ map.groups) :
    ¬ map.Revisits g := by
  rintro ⟨way, current, hLeads, hRepeats⟩
  apply hRepeats
  have hLevels :=
    hMap.wayUp_levels (fun h hHere => by cases hHere; exact hg)
      hLeads
  refine
    List.pairwise_map.mpr (hLevels.imp_of_mem ?_)
  intro h k hh hk hLevel hSame
  have hMem : ∀ l ∈ way, l ∈ map.groups := fun l hl =>
    (List.mem_cons.mp (wayUp_mem hLeads l hl)).elim
      (fun hHere => hHere ▸ hg) id
  rw [group_eq hMap.groupIds (hMem h hh) (hMem k hk) hSame]
    at hLevel
  omega

/- An arranged map is valid. -/
theorem Arranged.valid (hMap : map.Arranged) : map.Valid where
  ids := by
    apply List.Nodup.append hMap.nodeIds hMap.edgeIds
    intro id hNode hEdge
    rcases List.mem_map.mp hNode with ⟨n, hn, hIdN⟩
    rcases List.mem_map.mp hEdge with ⟨e, he, hIdE⟩
    exact (hMap.edgeApart e he).1 n hn (hIdE.trans hIdN.symm)
  ends := fun e he =>
    ⟨List.mem_map.mpr (hMap.ends e he).1,
      List.mem_map.mpr (hMap.ends e he).2⟩
  members := fun g hg id hId =>
    List.mem_map.mpr ((hMap.members g hg).2 id hId)
  once := by
    rw [List.nodup_flatMap]
    refine ⟨fun g hg => (hMap.members g hg).1, ?_⟩
    refine (List.pairwise_map.mp hMap.groupIds).imp_of_mem ?_
    intro g h hg hh hOther id hInG hInH
    exact hOther
      (congrArg MapGroup.id
        (hMap.nested.lister_eq hg hh hInG hInH))
  acyclic := fun _ hg => hMap.not_revisits hg

/- An arranged map has no faults. -/
theorem Arranged.validate_eq_nil (hMap : map.Arranged) :
    map.validate = [] :=
  validate_eq_nil_iff.mpr hMap.valid

end ArgumentMap

end Dialectic
