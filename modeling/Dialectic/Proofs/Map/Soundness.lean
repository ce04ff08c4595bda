import Dialectic.Color.Assignment
import Dialectic.Proofs.Map.Collapse

/-
  When a map is sound, and that recoloring a map keeps its
  groups nested, and keeps it arranged.

  Key definitions include:
    * `ArgumentMap.IsSound`
    * `ArgumentMap.recolored`

  Main theorems:
    * `ArgumentMap.Arranged.isSound`
    * `ArgumentMap.Nested.recolored`
    * `ArgumentMap.Arranged.recolored`
    * `ArgumentMap.Arranged.colorize`
-/

namespace Dialectic

namespace ArgumentMap

variable {map : ArgumentMap}

------------------------------------------------------------
-- Sound Maps
------------------------------------------------------------

/-
  A map is valid, its nodes know the only group that lists
  them, and its groups form a tree without empty ones, leaving
  out those that are collapsed.  Edges join different nodes,
  and no two of them have the same ends.
-/
structure IsSound (map : ArgumentMap) : Prop where
  valid : map.validate = []
  groupIds : (map.groups.map MapGroup.id).Nodup
  grouped : ∀ n ∈ map.nodes, ∀ id,
    n.group = some id ↔
      ∃ g ∈ map.groups, g.id = id ∧ n.id ∈ g.nodes
  alone : ∀ g ∈ map.groups, ∀ h ∈ map.groups,
    ∀ id ∈ g.nodes, id ∈ h.nodes → g = h
  filled : ∀ g ∈ map.groups, ¬ map.IsCollapsed g →
    g.isEmpty = false
  nested : ∀ g ∈ map.groups, ¬ map.IsCollapsed g → ∀ p,
    g.parent = some p ↔
      ∃ h ∈ map.groups, h.id = p ∧ g.id ∈ h.subgroups
  levels : ∀ g ∈ map.groups, ∀ p, g.parent = some p →
    ∃ h ∈ map.groups, h.id = p ∧ g.level = h.level + 1
  joined : ∀ e ∈ map.edges,
    e.source ≠ e.target ∧
      (∃ n ∈ map.nodes, n.id = e.source) ∧
        ∃ n ∈ map.nodes, n.id = e.target
  pairs :
    (map.edges.map (fun e => (e.source, e.target))).Nodup

/- An arranged map without parallel edges is sound. -/
theorem Arranged.isSound
    (hMap : map.Arranged)
    (hPairs : (map.edges.map MapEdge.pair).Nodup) :
    map.IsSound where
  valid := hMap.validate_eq_nil
  groupIds := hMap.groupIds
  grouped := hMap.grouped
  alone := fun _ hg _ hh _ hInG hInH =>
    hMap.nested.lister_eq hg hh hInG hInH
  filled := by
    intro g hg hNot
    rcases hMap.filled g hg hNot with hNodes | hSubgroups
    · simp [MapGroup.isEmpty, hNodes]
    · simp [MapGroup.isEmpty, hSubgroups]
  nested := by
    intro g hg hNot p
    constructor
    · intro hParent
      rcases hMap.parents g hg p hParent with ⟨h, hh, hId, _⟩
      rw [← hId] at hParent
      exact ⟨h, hh, hId, hMap.listed g hg hNot h hh hParent⟩
    · rintro ⟨h, hh, hId, hListed⟩
      rcases hMap.subgroups h hh g.id hListed with
        ⟨k, hk, hSame, hParent, _⟩
      rw [← group_eq hMap.groupIds hk hg hSame, hParent, hId]
  levels := hMap.parents
  joined := fun e he => ⟨hMap.noLoop e he, hMap.ends e he⟩
  pairs := hPairs

------------------------------------------------------------
-- Colors
------------------------------------------------------------

/- A map with other colors. -/
def recolored
    (map : ArgumentMap)
    (nodeColor : MapNode → Option String)
    (edgeColor : MapEdge → Option String)
    (groupColor : MapGroup → Option String) : ArgumentMap where
  nodes :=
    map.nodes.map (fun n => { n with color := nodeColor n })
  edges :=
    map.edges.map (fun e => { e with color := edgeColor e })
  groups :=
    map.groups.map (fun g => { g with color := groupColor g })

variable {nodeColor : MapNode → Option String}
variable {edgeColor : MapEdge → Option String}
variable {groupColor : MapGroup → Option String}

/- Groups keep their parents when colors change. -/
theorem parent?_recolored (id : String) :
    (map.recolored nodeColor edgeColor groupColor).parent? id =
      map.parent? id := by
  simp only [parent?, group?, MapGroup.find?, recolored,
    List.find?_map, Function.comp_def, Option.bind_map]

/- Nested groups stay so when colors change. -/
theorem Nested.recolored (hMap : map.Nested) :
    Nested (map.recolored nodeColor edgeColor groupColor) := by
  have hWithin : ∀ {inner outer},
      (map.recolored nodeColor edgeColor groupColor).IsWithin
          inner outer →
        map.IsWithin inner outer := by
    intro inner outer hWithin
    simpa only [IsWithin, parent?_recolored] using hWithin
  constructor
  · simpa [ArgumentMap.recolored, Function.comp_def]
      using hMap.nodeIds
  · simpa [ArgumentMap.recolored, Function.comp_def]
      using hMap.edgeIds
  · simpa [ArgumentMap.recolored, Function.comp_def]
      using hMap.groupIds
  · simpa [ArgumentMap.recolored] using hMap.edgeApart
  · simpa [ArgumentMap.recolored] using hMap.ends
  · simpa [ArgumentMap.recolored] using hMap.noLoop
  · simpa [ArgumentMap.recolored] using hMap.grouped
  · simpa [ArgumentMap.recolored] using hMap.members
  · simpa [ArgumentMap.recolored] using hMap.parents
  · intro g hg hInner
    rcases List.mem_map.mp hg with ⟨k, hk, hSame⟩
    subst hSame
    exact hMap.acyclic k hk (hWithin hInner)
  · simpa [ArgumentMap.recolored, IsCollapsed]
      using hMap.subgroups
  · simpa [ArgumentMap.recolored, IsCollapsed]
      using hMap.listed
  · simpa [ArgumentMap.recolored] using hMap.collapsed
  · intro g hg hCollapsed h hh hInner
    rcases List.mem_map.mp hg with ⟨k, hk, hSame⟩
    rcases List.mem_map.mp hh with ⟨l, hl, hEq⟩
    subst hSame
    subst hEq
    apply hMap.openAround k hk _ l hl (hWithin hInner)
    simpa [ArgumentMap.recolored, IsCollapsed]
      using hCollapsed

/- An arranged map stays so when colors change. -/
theorem Arranged.recolored (hMap : map.Arranged) :
    Arranged
      (map.recolored nodeColor edgeColor groupColor) := by
  apply hMap.nested.recolored.arranged
  · intro g hg h hh hParent
    rcases List.mem_map.mp hg with ⟨k, hk, hSame⟩
    rcases List.mem_map.mp hh with ⟨l, hl, hEq⟩
    subst hSame
    subst hEq
    have hLevel : k.level = l.level + 1 :=
      hMap.level_eq hk hl hParent
    exact hLevel
  · simpa [ArgumentMap.recolored, IsCollapsed]
      using hMap.filled

/- Coloring keeps a map arranged, and its edges apart. -/
theorem Arranged.colorize
    (hMap : map.Arranged)
    (hPairs : (map.edges.map MapEdge.pair).Nodup)
    (settings : ColorSettings)
    (colors : Coloring) :
    (map.colorize settings colors).1.Arranged ∧
      ((map.colorize settings colors).1.edges.map
        MapEdge.pair).Nodup := by
  refine ⟨hMap.recolored, ?_⟩
  have hSame :
      (map.colorize settings colors).1.edges.map MapEdge.pair =
        map.edges.map MapEdge.pair := by
    simp only [ArgumentMap.colorize, List.map_map]
    rfl
  rw [hSame]
  exact hPairs

end ArgumentMap

end Dialectic
