import Dialectic.Map.Collapse
import Dialectic.Proofs.Map.Contents
import Dialectic.Proofs.Map.Edges
import Mathlib.Data.List.TakeWhile

/-
  Replacing closed groups by nodes keeps groups nested and a
  map arranged.

  Key definitions include:
    * `ArgumentMap.Collapsible`
    * `ArgumentMap.changed`

  Main theorems:
    * `ArgumentMap.emptyGroup_eq`
    * `ArgumentMap.replaceNodes_perm`
    * `ArgumentMap.Collapsible.nested`
    * `ArgumentMap.Collapsible.collapsible_iff`
    * `ArgumentMap.Nested.foldl_collapseGroup`
    * `ArgumentMap.Nested.mem_outermostClosed_iff`
    * `ArgumentMap.Arranged.collapse`
-/

namespace Dialectic

namespace ArgumentMap

variable {map : ArgumentMap}
variable {g : MapGroup}

------------------------------------------------------------
-- Groups That Remain
------------------------------------------------------------

/-
  A closed group that may be replaced by a node: it has not
  been replaced yet, and all groups around it are open.
-/
structure Collapsible (map : ArgumentMap) (g : MapGroup) :
    Prop where
  mem : g ∈ map.groups
  closed : g.isClosed = true
  notYet : ¬ map.IsCollapsed g
  around : ∀ h ∈ map.groups, map.IsWithin g.id h.id →
    h.isClosed = false

/- What becomes of a group when another one is replaced. -/
def changed (g h : MapGroup) : MapGroup :=
  if h.id = g.id then
    { h with nodes := [], subgroups := [] }
  else if g.parent = some h.id then
    { h with
      subgroups := h.subgroups.filter (· != g.id)
      nodes := h.nodes ++ [g.id] }
  else
    h

/- A group keeps its id. -/
@[simp]
theorem changed_id (g h : MapGroup) :
    (changed g h).id = h.id := by
  unfold changed
  split
  · rfl
  · split <;> rfl

/- A group keeps its parent. -/
@[simp]
theorem changed_parent (g h : MapGroup) :
    (changed g h).parent = h.parent := by
  unfold changed
  split
  · rfl
  · split <;> rfl

/- A group keeps its level. -/
@[simp]
theorem changed_level (g h : MapGroup) :
    (changed g h).level = h.level := by
  unfold changed
  split
  · rfl
  · split <;> rfl

/- A group stays closed or open. -/
@[simp]
theorem changed_isClosed (g h : MapGroup) :
    (changed g h).isClosed = h.isClosed := by
  unfold changed
  split
  · rfl
  · split <;> rfl

/-
  The nodes of a group: those from before, but for the group
  that is replaced, whose own node comes to its parent.
-/
theorem mem_changed_nodes (g h : MapGroup) (id : String) :
    id ∈ (changed g h).nodes ↔
      h.id ≠ g.id ∧
        (id ∈ h.nodes ∨ (g.parent = some h.id ∧ id = g.id)) := by
  unfold changed
  by_cases hSame : h.id = g.id
  · simp [hSame]
  · by_cases hParent : g.parent = some h.id <;>
      simp [hSame, hParent]

/-
  The groups in a group: those from before, but for the group
  that is replaced, which is in its parent no more.
-/
theorem mem_changed_subgroups
    (g h : MapGroup)
    (id : String) :
    id ∈ (changed g h).subgroups ↔
      h.id ≠ g.id ∧ id ∈ h.subgroups ∧
        (g.parent = some h.id → id ≠ g.id) := by
  unfold changed
  by_cases hSame : h.id = g.id
  · simp [hSame]
  · by_cases hParent : g.parent = some h.id <;>
      simp [hSame, hParent]

/- The groups when one has been replaced by a node. -/
theorem emptyGroup_eq
    {groups : List MapGroup}
    (hIds : (groups.map MapGroup.id).Nodup)
    (hParent : g.parent ≠ some g.id)
    (inner : List String) :
    emptyGroup groups g inner =
      (groups.filter (fun h => !inner.contains h.id)).map
        (changed g) := by
  have hKept :
      ((groups.filter (fun h => !inner.contains h.id)).map
        MapGroup.id).Nodup :=
    hIds.sublist (List.filter_sublist.map MapGroup.id)
  unfold emptyGroup
  simp only [MapGroup.modify]
  rw [Sequence.modifyFirst_eq_map hKept]
  cases hAround : g.parent with
  | none =>
      apply List.map_congr_left
      intro h _
      simp [changed, hAround]
  | some p =>
      have hEmptied :
          (((groups.filter (fun h => !inner.contains h.id)).map
            (fun h =>
              if h.id = g.id then
                { h with nodes := [], subgroups := [] }
              else h)).map MapGroup.id).Nodup := by
        rw [List.map_map]
        convert hKept using 2
        funext h
        simp only [Function.comp_apply]
        split <;> rfl
      have hOther : p ≠ g.id := by
        intro hSame
        exact hParent (hSame ▸ hAround)
      simp only
      rw [Sequence.modifyFirst_eq_map hEmptied, List.map_map]
      apply List.map_congr_left
      intro h _
      by_cases hSame : h.id = g.id
      · simp [changed, hSame, hOther.symm]
      · by_cases hHere : h.id = p
        · simp [changed, hAround, hHere, hOther]
        · have hNot : ¬ p = h.id := fun h => hHere h.symm
          simp [changed, hAround, hSame, hHere, hNot]

/- The nodes when those with some ids have been replaced. -/
theorem replaceNodes_perm
    (nodes : List MapNode)
    (inner : List String)
    (node : MapNode) :
    (replaceNodes nodes inner node).Perm
      (node :: nodes.filter (fun n => !inner.contains n.id)) := by
  have hTake : ∀ p : MapNode → Bool,
      (nodes.takeWhile p).filter p = nodes.takeWhile p := by
    intro p
    rw [List.filter_eq_self]
    intro n hn
    exact List.mem_takeWhile_imp hn
  have hSplit : ∀ p : MapNode → Bool,
      nodes.filter p =
        nodes.takeWhile p ++ (nodes.dropWhile p).filter p := by
    intro p
    conv_lhs =>
      rw [← List.takeWhile_append_dropWhile (p := p) (l := nodes)]
    rw [List.filter_append, hTake]
  unfold replaceNodes
  simp only
  rw [hSplit]
  exact List.perm_middle

------------------------------------------------------------
-- What Is Replaced
------------------------------------------------------------

/- No group to be replaced is in another one. -/
theorem Collapsible.not_within
    (hg : Collapsible map g)
    {h : MapGroup}
    (hh : Collapsible map h) :
    ¬ map.IsWithin h.id g.id := by
  intro hWithin
  have hOpen := hh.around g hg.mem hWithin
  rw [hg.closed] at hOpen
  cases hOpen

/- No group in a group to be replaced is collapsed. -/
theorem Collapsible.not_collapsed
    (hMap : map.Nested)
    (hg : Collapsible map g)
    {h : MapGroup}
    (hh : h ∈ map.groups)
    (hWithin : map.IsWithin h.id g.id) :
    ¬ map.IsCollapsed h := by
  intro hCollapsed
  have hOpen := hMap.openAround h hh hCollapsed g hg.mem hWithin
  rw [hg.closed] at hOpen
  cases hOpen

/- The parent of the group that is replaced is not in it. -/
theorem Collapsible.parent_not_mem
    (hMap : map.Nested)
    (hg : Collapsible map g)
    {p : String}
    (hParent : g.parent = some p) :
    p ≠ g.id ∧ p ∉ (map.descendants g.id).groups := by
  rw [← not_or]
  intro hInside
  have hAbove :=
    hInside.imp_right
      ((hMap.explored_descendants g.id).within p)
  exact
    hMap.acyclic g hg.mem
      (isWithin_of_parent hMap.groupIds hg.mem hParent hAbove)

/- What is listed by a group that is replaced goes with it. -/
theorem Collapsible.replaces
    (hMap : map.Nested)
    {h : MapGroup}
    (hh : h ∈ map.groups)
    (hInside :
      h.id = g.id ∨ h.id ∈ (map.descendants g.id).groups) :
    h.nodes ⊆ (map.descendants g.id).nodes ∧
      h.subgroups ⊆ (map.descendants g.id).groups := by
  have hExplored := hMap.explored_descendants g.id
  rcases hExplored.expanded h hh hInside with hStack | hDone
  · simp at hStack
  · exact hDone

/-
  A group that is not replaced has no parent that is, unless
  it is collapsed already.
-/
theorem Collapsible.parent_remains
    (hMap : map.Nested)
    {h k : MapGroup}
    (hh : h ∈ map.groups)
    (hk : k ∈ map.groups)
    (hParent : h.parent = some k.id)
    (hNotCollapsed : ¬ map.IsCollapsed h)
    (hRemains : h.id ∉ (map.descendants g.id).groups) :
    k.id ≠ g.id ∧ k.id ∉ (map.descendants g.id).groups := by
  rw [← not_or]
  intro hInside
  have hListed := hMap.listed h hh hNotCollapsed k hk hParent
  exact
    hRemains ((Collapsible.replaces hMap hk hInside).2 hListed)

/-
  A collapsed group is in no closed one, so none of the groups
  that are replaced is its parent.
-/
theorem Collapsible.collapsed_apart
    (hMap : map.Nested)
    (hg : Collapsible map g)
    {h : MapGroup}
    (hh : h ∈ map.groups)
    (hCollapsed : map.IsCollapsed h)
    {p : String}
    (hParent : h.parent = some p) :
    p ≠ g.id ∧ p ∉ (map.descendants g.id).groups := by
  rw [← not_or]
  intro hInside
  have hAbove :=
    hInside.imp_right
      ((hMap.explored_descendants g.id).within p)
  have hWithin :=
    isWithin_of_parent hMap.groupIds hh hParent hAbove
  exact hg.not_collapsed hMap hh hWithin hCollapsed

/- Only groups that are replaced list nodes that are. -/
theorem Collapsible.lister_inside
    (hMap : map.Nested)
    {h : MapGroup}
    (hh : h ∈ map.groups)
    {id : String}
    (hListed : id ∈ h.nodes)
    (hReplaced : id ∈ (map.descendants g.id).nodes) :
    h.id = g.id ∨ h.id ∈ (map.descendants g.id).groups := by
  rcases (hMap.explored_descendants g.id).nodes id
      hReplaced with
    ⟨k, hk, hInside, hInK⟩
  rw [hMap.lister_eq hh hk hListed hInK]
  exact hInside

/- No node of a collapsed group is replaced. -/
theorem Collapsible.collapsed_remains
    (hMap : map.Nested)
    (hg : Collapsible map g)
    {h : MapGroup}
    (hh : h ∈ map.groups)
    {n : MapNode}
    (hn : n ∈ map.nodes)
    (hSame : n.id = h.id) :
    n.id ∉ (map.descendants g.id).nodes := by
  intro hReplaced
  rcases (hMap.explored_descendants g.id).nodes n.id
      hReplaced with
    ⟨k, hk, hInside, hInK⟩
  have hGroup : n.group = some k.id :=
    (hMap.grouped n hn k.id).mpr ⟨k, hk, rfl, hInK⟩
  rw [hMap.collapsed h hh n hn hSame] at hGroup
  rcases hg.collapsed_apart hMap hh ⟨n, hn, hSame⟩ hGroup with
    ⟨hOther, hApart⟩
  exact hInside.elim hOther hApart

/- No group lists the group that is replaced as a node. -/
theorem Collapsible.not_listed
    (hMap : map.Nested)
    (hg : Collapsible map g)
    {h : MapGroup}
    (hh : h ∈ map.groups) :
    g.id ∉ h.nodes := by
  intro hListed
  exact hg.notYet ((hMap.members h hh).2 g.id hListed)

------------------------------------------------------------
-- What Remains
------------------------------------------------------------

/- The node of the group that is replaced. -/
def ownNode (map : ArgumentMap) (g : MapGroup) : MapNode :=
  groupNode g
    (map.nodes.filter
      (fun n => (map.descendants g.id).nodes.contains n.id))

/- The map with a group replaced. -/
theorem Collapsible.collapseGroup_eq
    (hMap : map.Nested)
    (hg : Collapsible map g) :
    map.collapseGroup g.id =
      { nodes :=
          replaceNodes map.nodes (map.descendants g.id).nodes
            (ownNode map g)
        edges :=
          (map.edges.map
            (redirect (map.descendants g.id).nodes g.id)).filter
            (fun e => !e.isLoop)
        groups :=
          (map.groups.filter (fun h =>
            !(map.descendants g.id).groups.contains h.id)).map
            (changed g) } := by
  have hFound : map.group? g.id = some g :=
    (group?_eq_some_iff hMap.groupIds).mpr ⟨hg.mem, rfl⟩
  have hParent : g.parent ≠ some g.id := fun hSelf =>
    (hg.parent_not_mem hMap hSelf).1 rfl
  unfold collapseGroup
  rw [hFound]
  simp only
  rw [emptyGroup_eq hMap.groupIds hParent]
  rfl

/- The nodes that remain, and the one of the group. -/
theorem Collapsible.mem_nodes
    (hMap : map.Nested)
    (hg : Collapsible map g)
    (n : MapNode) :
    n ∈ (map.collapseGroup g.id).nodes ↔
      n = ownNode map g ∨
        (n ∈ map.nodes ∧
          n.id ∉ (map.descendants g.id).nodes) := by
  rw [hg.collapseGroup_eq hMap]
  rw [(replaceNodes_perm _ _ _).mem_iff]
  simp

/- The groups that remain. -/
theorem Collapsible.mem_groups
    (hMap : map.Nested)
    (hg : Collapsible map g)
    (h : MapGroup) :
    h ∈ (map.collapseGroup g.id).groups ↔
      ∃ k ∈ map.groups,
        k.id ∉ (map.descendants g.id).groups ∧
          changed g k = h := by
  rw [hg.collapseGroup_eq hMap]
  simp [and_assoc]

/- The edges that remain. -/
theorem Collapsible.mem_edges
    (hMap : map.Nested)
    (hg : Collapsible map g)
    (e : MapEdge) :
    e ∈ (map.collapseGroup g.id).edges ↔
      e.source ≠ e.target ∧
        ∃ f ∈ map.edges,
          redirect (map.descendants g.id).nodes g.id f = e := by
  rw [hg.collapseGroup_eq hMap]
  simp [MapEdge.isLoop, and_comm]

/- The ids of the groups that remain are unique. -/
theorem Collapsible.groupIds
    (hMap : map.Nested)
    (hg : Collapsible map g) :
    ((map.collapseGroup g.id).groups.map
      MapGroup.id).Nodup := by
  rw [hg.collapseGroup_eq hMap, List.map_map]
  have hSame : MapGroup.id ∘ changed g = MapGroup.id := by
    funext h
    simp
  rw [hSame]
  exact hMap.groupIds.sublist
    (List.filter_sublist.map MapGroup.id)

/- Groups that remain are in the same groups as before. -/
theorem Collapsible.isWithin
    (hMap : map.Nested)
    (hg : Collapsible map g)
    {inner outer : String}
    (hWithin : (map.collapseGroup g.id).IsWithin inner outer) :
    map.IsWithin inner outer := by
  refine Relation.TransGen.mono ?_ inner outer hWithin
  intro id p hParent
  rcases (parent?_eq_some_iff (hg.groupIds hMap)).mp
      hParent with
    ⟨h, hh, hId, hParent⟩
  rcases (hg.mem_groups hMap h).mp hh with ⟨k, hk, _, hSame⟩
  subst hSame
  rw [changed_id] at hId
  rw [changed_parent] at hParent
  exact
    (parent?_eq_some_iff hMap.groupIds).mpr
      ⟨k, hk, hId, hParent⟩

/-
  Just the groups in a group that is replaced go with it: none
  of them is collapsed, so all of them are listed.
-/
theorem Collapsible.mem_descendants_iff
    (hMap : map.Nested)
    (hg : Collapsible map g)
    {id : String} :
    id ∈ (map.descendants g.id).groups ↔
      map.IsWithin id g.id := by
  have hListed : ∀ {id p}, map.parent? id = some p →
      map.IsWithin id g.id →
      (p = g.id ∨ p ∈ (map.descendants g.id).groups) →
        id ∈ (map.descendants g.id).groups := by
    intro id p hParent hWithin hInside
    rcases (parent?_eq_some_iff hMap.groupIds).mp hParent with
      ⟨h, hh, hId, hAbove⟩
    rcases hMap.parents h hh p hAbove with ⟨k, hk, hIdK⟩
    subst hId
    subst hIdK
    have hNotCollapsed := hg.not_collapsed hMap hh hWithin
    exact
      (Collapsible.replaces hMap hk hInside).2
        (hMap.listed h hh hNotCollapsed k hk hAbove)
  constructor
  · exact (hMap.explored_descendants g.id).within id
  · intro hWithin
    induction hWithin using
      Relation.TransGen.head_induction_on with
    | single hParent =>
        exact hListed hParent (.single hParent) (Or.inl rfl)
    | head hParent hWithin ih =>
        exact
          hListed hParent (.head hParent hWithin) (Or.inr ih)

/- Groups that remain stay in the groups around them. -/
theorem Collapsible.isWithin_of_remains
    (hMap : map.Nested)
    (hg : Collapsible map g)
    {inner outer : String}
    (hRemains : inner ∉ (map.descendants g.id).groups)
    (hWithin : map.IsWithin inner outer) :
    (map.collapseGroup g.id).IsWithin inner outer ∧
      outer ∉ (map.descendants g.id).groups := by
  have hStep : ∀ {id p},
      id ∉ (map.descendants g.id).groups →
      map.parent? id = some p →
        (map.collapseGroup g.id).parent? id = some p ∧
          p ∉ (map.descendants g.id).groups := by
    intro id p hStays hParent
    rcases (parent?_eq_some_iff hMap.groupIds).mp hParent with
      ⟨h, hh, hId, hAbove⟩
    constructor
    · rw [parent?_eq_some_iff (hg.groupIds hMap)]
      refine
        ⟨changed g h,
          (hg.mem_groups hMap _).mpr
            ⟨h, hh, hId ▸ hStays, rfl⟩, ?_, ?_⟩
      · rw [changed_id, hId]
      · rw [changed_parent, hAbove]
    · intro hGone
      rw [hg.mem_descendants_iff hMap] at hStays hGone
      exact hStays (.head hParent hGone)
  induction hWithin with
  | single hParent =>
      have hNext := hStep hRemains hParent
      exact ⟨.single hNext.1, hNext.2⟩
  | tail _ hParent ih =>
      have hNext := hStep ih.2 hParent
      exact ⟨.tail ih.1 hNext.1, hNext.2⟩

/- Of the groups that remain, one more is collapsed. -/
theorem Collapsible.isCollapsed_iff
    (hMap : map.Nested)
    (hg : Collapsible map g)
    {h : MapGroup}
    (hh : h ∈ map.groups) :
    (map.collapseGroup g.id).IsCollapsed (changed g h) ↔
      h.id = g.id ∨ map.IsCollapsed h := by
  unfold IsCollapsed
  simp only [changed_id, hg.mem_nodes hMap]
  constructor
  · rintro ⟨n, hOwn | ⟨hn, _⟩, hId⟩
    · left
      rw [← hId, hOwn]
      rfl
    · exact Or.inr ⟨n, hn, hId⟩
  · rintro (hSame | ⟨n, hn, hId⟩)
    · exact ⟨ownNode map g, Or.inl rfl, hSame.symm⟩
    · exact
        ⟨n, Or.inr ⟨hn, hg.collapsed_remains hMap hh hn hId⟩,
          hId⟩

------------------------------------------------------------
-- Arrangement
------------------------------------------------------------

/- The end of a redirected edge is a node that remains. -/
theorem Collapsible.redirected_end
    (hMap : map.Nested)
    (hg : Collapsible map g)
    {id : String}
    (hEnd : ∃ n ∈ map.nodes, n.id = id) :
    ∃ n ∈ (map.collapseGroup g.id).nodes,
      n.id =
        if (map.descendants g.id).nodes.contains id then g.id
        else id := by
  rcases hEnd with ⟨n, hn, hId⟩
  by_cases hReplaced : id ∈ (map.descendants g.id).nodes
  · refine ⟨ownNode map g, ?_, ?_⟩
    · exact (hg.mem_nodes hMap _).mpr (Or.inl rfl)
    · simp [hReplaced, ownNode, groupNode, MapNode.new]
  · refine ⟨n, ?_, ?_⟩
    · exact
        (hg.mem_nodes hMap n).mpr
          (Or.inr ⟨hn, hId ▸ hReplaced⟩)
    · simpa [hReplaced] using hId

/- The ids of the nodes that remain are unique. -/
theorem Collapsible.nodeIds
    (hMap : map.Nested)
    (hg : Collapsible map g) :
    ((map.collapseGroup g.id).nodes.map MapNode.id).Nodup := by
  rw [hg.collapseGroup_eq hMap]
  rw [((replaceNodes_perm map.nodes
    (map.descendants g.id).nodes (ownNode map g)).map
      MapNode.id).nodup_iff]
  rw [List.map_cons, List.nodup_cons]
  constructor
  · intro hOld
    rcases List.mem_map.mp hOld with ⟨n, hn, hId⟩
    exact hg.notYet ⟨n, List.mem_of_mem_filter hn, hId⟩
  · exact hMap.nodeIds.sublist
      (List.filter_sublist.map MapNode.id)

/- A node is in the group that lists it. -/
theorem Collapsible.grouped
    (hMap : map.Nested)
    (hg : Collapsible map g)
    {n : MapNode}
    (hn : n ∈ (map.collapseGroup g.id).nodes)
    (id : String) :
    n.group = some id ↔
      ∃ h ∈ (map.collapseGroup g.id).groups,
        h.id = id ∧ n.id ∈ h.nodes := by
  simp only [hg.mem_groups hMap]
  rcases (hg.mem_nodes hMap n).mp hn with hOwn | ⟨hn, hRemains⟩
  · -- the node of the group itself, which its parent lists
    have hId : n.id = g.id := by
      rw [hOwn]
      rfl
    have hGroup : n.group = g.parent := by
      rw [hOwn]
      rfl
    rw [hId, hGroup]
    constructor
    · intro hParent
      rcases hMap.parents g hg.mem id hParent with
        ⟨k, hk, hSame⟩
      subst hSame
      rcases hg.parent_not_mem hMap hParent with
        ⟨hOther, hApart⟩
      refine
        ⟨changed g k, ⟨k, hk, hApart, rfl⟩, changed_id g k, ?_⟩
      exact
        (mem_changed_nodes g k g.id).mpr
          ⟨hOther, Or.inr ⟨hParent, rfl⟩⟩
    · rintro ⟨h, ⟨k, hk, _, hSame⟩, hGroupId, hListed⟩
      subst hSame
      rw [changed_id] at hGroupId
      rcases (mem_changed_nodes g k g.id).mp hListed with
        ⟨_, hOld | ⟨hParent, _⟩⟩
      · exact absurd hOld (hg.not_listed hMap hk)
      · rw [hParent, hGroupId]
  · -- a node that remains, and so does the group that lists it
    rw [hMap.grouped n hn id]
    constructor
    · rintro ⟨k, hk, hGroupId, hListed⟩
      have hOutside :
          ¬ (k.id = g.id ∨
            k.id ∈ (map.descendants g.id).groups) := by
        intro hInside
        exact
          hRemains
            ((Collapsible.replaces hMap hk hInside).1 hListed)
      rw [not_or] at hOutside
      refine
        ⟨changed g k, ⟨k, hk, hOutside.2, rfl⟩,
          (changed_id g k).trans hGroupId, ?_⟩
      exact
        (mem_changed_nodes g k n.id).mpr
          ⟨hOutside.1, Or.inl hListed⟩
    · rintro ⟨h, ⟨k, hk, _, hSame⟩, hGroupId, hListed⟩
      subst hSame
      rw [changed_id] at hGroupId
      rcases (mem_changed_nodes g k n.id).mp hListed with
        ⟨_, hOld | ⟨_, hId⟩⟩
      · exact ⟨k, hk, hGroupId, hOld⟩
      · exact absurd ⟨n, hn, hId⟩ hg.notYet

/- The nodes that a group lists remain. -/
theorem Collapsible.members
    (hMap : map.Nested)
    (hg : Collapsible map g)
    {k : MapGroup}
    (hk : k ∈ map.groups)
    (hRemains : k.id ∉ (map.descendants g.id).groups) :
    (changed g k).nodes.Nodup ∧
      ∀ id ∈ (changed g k).nodes,
        ∃ n ∈ (map.collapseGroup g.id).nodes, n.id = id := by
  constructor
  · have hUnique := (hMap.members k hk).1
    have hNew := hg.not_listed hMap hk
    unfold changed
    split
    · simp
    · split
      · rw [List.nodup_append]
        refine ⟨hUnique, by simp, ?_⟩
        intro x hx y hy hSame
        rw [List.mem_singleton.mp hy] at hSame
        exact hNew (hSame ▸ hx)
      · exact hUnique
  · intro id hListed
    rcases (mem_changed_nodes g k id).mp hListed with
      ⟨hOther, hOld | ⟨_, hOwn⟩⟩
    · rcases (hMap.members k hk).2 id hOld with ⟨n, hn, hId⟩
      refine ⟨n, (hg.mem_nodes hMap n).mpr (Or.inr ⟨hn, ?_⟩), hId⟩
      intro hReplaced
      rw [hId] at hReplaced
      exact
        (Collapsible.lister_inside hMap hk hOld
          hReplaced).elim hOther hRemains
    · refine
        ⟨ownNode map g,
          (hg.mem_nodes hMap _).mpr (Or.inl rfl), ?_⟩
      rw [hOwn]
      rfl

/- The groups in a group remain, and are not collapsed. -/
theorem Collapsible.subgroups
    (hMap : map.Nested)
    (hg : Collapsible map g)
    {k : MapGroup}
    (hk : k ∈ map.groups)
    (hRemains : k.id ∉ (map.descendants g.id).groups)
    {id : String}
    (hListed : id ∈ (changed g k).subgroups) :
    ∃ h ∈ map.groups,
      h.id = id ∧ h.parent = some k.id ∧
        h.id ∉ (map.descendants g.id).groups ∧
        ¬ (map.collapseGroup g.id).IsCollapsed
          (changed g h) := by
  rcases (mem_changed_subgroups g k id).mp hListed with
    ⟨hOther, hOld, hNotOwn⟩
  rcases hMap.subgroups k hk id hOld with
    ⟨h, hh, hId, hParent, hNotCollapsed⟩
  have hStep := hMap.parent?_of_mem_subgroups hk hOld
  refine ⟨h, hh, hId, hParent, ?_, ?_⟩
  · intro hMem
    -- what lists a group that is replaced is replaced itself
    rcases (hMap.explored_descendants g.id).entries h.id
        hMem with
      ⟨l, hl, hInside, hInL⟩
    have hStepL := hMap.parent?_of_mem_subgroups hl hInL
    rw [hId, hStep, Option.some.injEq] at hStepL
    rw [← hStepL] at hInside
    exact hInside.elim hOther hRemains
  · rw [hg.isCollapsed_iff hMap hh, not_or]
    refine ⟨?_, hNotCollapsed⟩
    intro hSame
    have hEq := group_eq hMap.groupIds hh hg.mem hSame
    rw [hEq] at hParent
    exact hNotOwn hParent (hId.symm.trans hSame)

/- The parent of a group that remains does so, too. -/
theorem Collapsible.parents
    (hMap : map.Nested)
    (hg : Collapsible map g)
    {k : MapGroup}
    (hk : k ∈ map.groups)
    (hRemains : k.id ∉ (map.descendants g.id).groups)
    {p : String}
    (hParent : k.parent = some p) :
    ∃ h ∈ map.groups,
      h.id = p ∧ h.id ∉ (map.descendants g.id).groups := by
  rcases hMap.parents k hk p hParent with ⟨h, hh, hId⟩
  subst hId
  refine ⟨h, hh, rfl, ?_⟩
  by_cases hCollapsed : map.IsCollapsed k
  · exact (hg.collapsed_apart hMap hk hCollapsed hParent).2
  · exact
      (Collapsible.parent_remains hMap hk hh hParent hCollapsed
        hRemains).2

/- Replacing a closed group by a node keeps groups nested. -/
theorem Collapsible.nested
    (hMap : map.Nested)
    (hg : Collapsible map g) :
    (map.collapseGroup g.id).Nested where
  nodeIds := hg.nodeIds hMap
  edgeIds := by
    rw [hg.collapseGroup_eq hMap]
    refine List.Nodup.sublist
      (List.filter_sublist.map MapEdge.id) ?_
    rw [List.map_map]
    exact hMap.edgeIds
  groupIds := hg.groupIds hMap
  edgeApart := by
    intro e he
    rcases (hg.mem_edges hMap e).mp he with ⟨_, f, hf, hSame⟩
    subst hSame
    rcases hMap.edgeApart f hf with ⟨hNodes, hGroups⟩
    constructor
    · intro n hn
      rcases (hg.mem_nodes hMap n).mp hn with hOwn | ⟨hn, _⟩
      · rw [hOwn]
        exact hGroups g hg.mem
      · exact hNodes n hn
    · intro h hh
      rcases (hg.mem_groups hMap h).mp hh with ⟨k, hk, _, hEq⟩
      rw [← hEq, changed_id]
      exact hGroups k hk
  ends := by
    intro e he
    rcases (hg.mem_edges hMap e).mp he with ⟨_, f, hf, hSame⟩
    subst hSame
    rcases hMap.ends f hf with ⟨hSource, hTarget⟩
    exact
      ⟨hg.redirected_end hMap hSource,
        hg.redirected_end hMap hTarget⟩
  noLoop := fun e he => ((hg.mem_edges hMap e).mp he).1
  grouped := fun n hn id => hg.grouped hMap hn id
  members := by
    intro h hh
    rcases (hg.mem_groups hMap h).mp hh with
      ⟨k, hk, hRemains, hSame⟩
    subst hSame
    exact hg.members hMap hk hRemains
  parents := by
    intro h hh p hParent
    rcases (hg.mem_groups hMap h).mp hh with
      ⟨k, hk, hRemains, hSame⟩
    subst hSame
    rw [changed_parent] at hParent
    rcases hg.parents hMap hk hRemains hParent with
      ⟨l, hl, hId, hApart⟩
    refine ⟨changed g l, ?_, (changed_id g l).trans hId⟩
    exact (hg.mem_groups hMap _).mpr ⟨l, hl, hApart, rfl⟩
  acyclic := by
    intro h hh hWithin
    rcases (hg.mem_groups hMap h).mp hh with ⟨k, hk, _, hSame⟩
    subst hSame
    rw [changed_id] at hWithin
    exact hMap.acyclic k hk (hg.isWithin hMap hWithin)
  subgroups := by
    intro h hh id hListed
    rcases (hg.mem_groups hMap h).mp hh with
      ⟨k, hk, hRemains, hSame⟩
    subst hSame
    rcases hg.subgroups hMap hk hRemains hListed with
      ⟨l, hl, hId, hParent, hApart, hNotCollapsed⟩
    refine ⟨changed g l, ?_, ?_, ?_, hNotCollapsed⟩
    · exact (hg.mem_groups hMap _).mpr ⟨l, hl, hApart, rfl⟩
    · rw [changed_id, hId]
    · rw [changed_parent, changed_id, hParent]
  listed := by
    intro h hh hNotCollapsed l hl hParent
    rcases (hg.mem_groups hMap h).mp hh with
      ⟨k, hk, hRemains, hSame⟩
    rcases (hg.mem_groups hMap l).mp hl with ⟨m, hm, _, hEq⟩
    subst hSame
    subst hEq
    rw [hg.isCollapsed_iff hMap hk, not_or] at hNotCollapsed
    rw [changed_parent, changed_id] at hParent
    have hOther :=
      (Collapsible.parent_remains hMap hk hm hParent
        hNotCollapsed.2 hRemains).1
    have hListed :=
      hMap.listed k hk hNotCollapsed.2 m hm hParent
    rw [changed_id, mem_changed_subgroups]
    exact ⟨hOther, hListed, fun _ => hNotCollapsed.1⟩
  collapsed := by
    intro h hh n hn hId
    rcases (hg.mem_groups hMap h).mp hh with ⟨k, hk, _, hSame⟩
    subst hSame
    rw [changed_id] at hId
    rw [changed_parent]
    rcases (hg.mem_nodes hMap n).mp hn with hOwn | ⟨hn, _⟩
    · rw [hOwn] at hId ⊢
      have hEq :=
        group_eq hMap.groupIds hg.mem hk hId
      rw [← hEq]
      rfl
    · exact hMap.collapsed k hk n hn hId
  openAround := by
    intro h hh hCollapsed l hl hWithin
    rcases (hg.mem_groups hMap h).mp hh with ⟨k, hk, _, hSame⟩
    rcases (hg.mem_groups hMap l).mp hl with ⟨m, hm, _, hEq⟩
    subst hSame
    subst hEq
    rw [hg.isCollapsed_iff hMap hk] at hCollapsed
    have hWithin := hg.isWithin hMap hWithin
    rw [changed_id, changed_id] at hWithin
    rw [changed_isClosed]
    rcases hCollapsed with hSame | hCollapsed
    · rw [hSame] at hWithin
      exact hg.around m hm hWithin
    · exact hMap.openAround k hk hCollapsed m hm hWithin

/- A group that is not collapsed is not empty. -/
theorem Collapsible.filled
    (hMap : map.Arranged)
    {k : MapGroup}
    (hk : k ∈ map.groups)
    (hOther : k.id ≠ g.id)
    (hNotCollapsed : ¬ map.IsCollapsed k) :
    (changed g k).nodes ≠ [] ∨
      (changed g k).subgroups ≠ [] := by
  unfold changed
  rw [if_neg hOther]
  split
  · simp
  · exact hMap.filled k hk hNotCollapsed

/- Replacing a closed group by a node keeps a map arranged. -/
theorem Collapsible.arranged
    (hMap : map.Arranged)
    (hg : Collapsible map g) :
    (map.collapseGroup g.id).Arranged := by
  apply (hg.nested hMap.nested).arranged
  · intro h hh l hl hParent
    rcases (hg.mem_groups hMap.nested h).mp hh with
      ⟨k, hk, _, hSame⟩
    rcases (hg.mem_groups hMap.nested l).mp hl with
      ⟨m, hm, _, hEq⟩
    subst hSame
    subst hEq
    rw [changed_parent, changed_id] at hParent
    rw [changed_level, changed_level,
      hMap.level_eq hk hm hParent]
  · intro h hh hNotCollapsed
    rcases (hg.mem_groups hMap.nested h).mp hh with
      ⟨k, hk, _, hSame⟩
    subst hSame
    rw [hg.isCollapsed_iff hMap.nested hk, not_or]
      at hNotCollapsed
    exact
      Collapsible.filled hMap hk hNotCollapsed.1
        hNotCollapsed.2

------------------------------------------------------------
-- All Closed Groups
------------------------------------------------------------

/- A group that is to be replaced has gone with no other. -/
theorem Collapsible.remains
    (hMap : map.Nested)
    (hg : Collapsible map g)
    {h : MapGroup}
    (hh : Collapsible map h) :
    h.id ∉ (map.descendants g.id).groups := by
  rw [hg.mem_descendants_iff hMap]
  exact hg.not_within hh

/-
  When a group has been replaced, the other groups that were
  to be replaced are those that still are.
-/
theorem Collapsible.collapsible_iff
    (hMap : map.Nested)
    (hg : Collapsible map g)
    {k : MapGroup} :
    Collapsible (map.collapseGroup g.id) k ↔
      ∃ h, Collapsible map h ∧ h.id ≠ g.id ∧
        changed g h = k := by
  constructor
  · intro hk
    rcases (hg.mem_groups hMap k).mp hk.mem with
      ⟨h, hh, hRemains, hSame⟩
    subst hSame
    have hApart := hk.notYet
    rw [hg.isCollapsed_iff hMap hh, not_or] at hApart
    refine ⟨h, ⟨hh, ?_, hApart.2, ?_⟩, hApart.1, rfl⟩
    · rw [← changed_isClosed g h]
      exact hk.closed
    · intro l hl hWithin
      have hAround :=
        hg.isWithin_of_remains hMap hRemains hWithin
      have hOpen :=
        hk.around (changed g l)
          ((hg.mem_groups hMap _).mpr
            ⟨l, hl, hAround.2, rfl⟩)
          (by simpa using hAround.1)
      rwa [changed_isClosed] at hOpen
  · rintro ⟨h, hh, hOther, hSame⟩
    subst hSame
    have hRemains := hg.remains hMap hh
    refine ⟨?_, ?_, ?_, ?_⟩
    · exact (hg.mem_groups hMap _).mpr ⟨h, hh.mem, hRemains, rfl⟩
    · rw [changed_isClosed]
      exact hh.closed
    · rw [hg.isCollapsed_iff hMap hh.mem, not_or]
      exact ⟨hOther, hh.notYet⟩
    · intro k hk hWithin
      rcases (hg.mem_groups hMap k).mp hk with ⟨l, hl, _, hEq⟩
      subst hEq
      have hWithin := hg.isWithin hMap hWithin
      rw [changed_id, changed_id] at hWithin
      rw [changed_isClosed]
      exact hh.around l hl hWithin

/-
  What holds of a nested map, and stays so when a closed group
  is replaced, holds when all of them have been replaced.
-/
theorem Nested.foldl_collapseGroup
    {Kept : ArgumentMap → Prop}
    (hStep : ∀ {map : ArgumentMap} {g : MapGroup},
      map.Nested → Collapsible map g → Kept map →
        Kept (map.collapseGroup g.id))
    (hMap : map.Nested)
    (hKept : Kept map)
    {ids : List String}
    (hUnique : ids.Nodup)
    (hTargets : ∀ id, id ∈ ids ↔
      ∃ g, Collapsible map g ∧ g.id = id) :
    Nested (ids.foldl collapseGroup map) ∧
      Kept (ids.foldl collapseGroup map) ∧
      ∀ g, ¬ Collapsible (ids.foldl collapseGroup map) g := by
  induction ids generalizing map with
  | nil =>
      refine ⟨hMap, hKept, ?_⟩
      intro g hg
      exact absurd ((hTargets g.id).mpr ⟨g, hg, rfl⟩) (by simp)
  | cons id ids ih =>
      rw [List.nodup_cons] at hUnique
      rcases (hTargets id).mp (by simp) with ⟨g, hg, hId⟩
      subst hId
      rw [List.foldl_cons]
      apply ih (hg.nested hMap) (hStep hMap hg hKept) hUnique.2
      intro id
      constructor
      · intro hLater
        rcases (hTargets id).mp (by simp [hLater]) with
          ⟨h, hh, hId⟩
        have hOther : h.id ≠ g.id := by
          intro hSame
          exact hUnique.1 (hSame ▸ hId ▸ hLater)
        exact
          ⟨changed g h,
            (hg.collapsible_iff hMap).mpr
              ⟨h, hh, hOther, rfl⟩,
            (changed_id g h).trans hId⟩
      · rintro ⟨k, hk, hId⟩
        rcases (hg.collapsible_iff hMap).mp hk with
          ⟨h, hh, hOther, hSame⟩
        subst hSame
        rw [changed_id] at hId
        subst hId
        exact
          List.mem_of_ne_of_mem hOther
            ((hTargets h.id).mpr ⟨h, hh, rfl⟩)

/- The outermost closed groups are those to be replaced. -/
theorem Nested.mem_outermostClosed_iff
    (hMap : map.Nested)
    {id : String} :
    id ∈ map.outermostClosed ↔
      ∃ g, Collapsible map g ∧ g.id = id := by
  have hFresh : ∀ g : MapGroup,
      map.node? g.id = none ↔ ¬ map.IsCollapsed g := by
    intro g
    simp [node?, IsCollapsed]
  unfold outermostClosed
  simp only [List.mem_map, List.mem_filter,
    Bool.and_eq_true, Option.isNone_iff_eq_none,
    List.all_eq_true, hFresh]
  constructor
  · rintro ⟨g, ⟨hg, ⟨hClosed, hNotYet⟩, hOpen⟩, hId⟩
    refine ⟨g, ⟨hg, hClosed, hNotYet, ?_⟩, hId⟩
    intro h hh hWithin
    have hFound : map.group? h.id = some h :=
      (group?_eq_some_iff hMap.groupIds).mpr ⟨hh, rfl⟩
    have hHere :=
      hOpen h.id (mem_ancestors_iff.mpr hWithin)
    simpa [hFound] using hHere
  · rintro ⟨g, hg, hId⟩
    refine ⟨g, ⟨hg.mem, ⟨hg.closed, hg.notYet⟩, ?_⟩, hId⟩
    intro outer hMem
    cases hFound : map.group? outer with
    | none => rfl
    | some h =>
        rcases (group?_eq_some_iff hMap.groupIds).mp
            hFound with
          ⟨hh, hSame⟩
        have hWithin := mem_ancestors_iff.mp hMem
        simp [hg.around h hh (hSame ▸ hWithin)]

/- Each group to be replaced is so once. -/
theorem Nested.outermostClosed_nodup (hMap : map.Nested) :
    map.outermostClosed.Nodup :=
  hMap.groupIds.sublist
    (List.filter_sublist.map MapGroup.id)

/-
  Replacing all closed groups keeps a map arranged, and leaves
  at most one edge from a node to another one.
-/
theorem Arranged.collapse
    (hMap : map.Arranged)
    (hPairs : (map.edges.map MapEdge.pair).Nodup) :
    map.collapse.1.Arranged ∧
      (map.collapse.1.edges.map MapEdge.pair).Nodup := by
  unfold ArgumentMap.collapse
  by_cases hNone : map.outermostClosed.isEmpty = true
  · simp only [hNone, if_true]
    exact ⟨hMap, hPairs⟩
  · simp only [if_neg hNone]
    have hReplaced :=
      Nested.foldl_collapseGroup
        (fun _ hg hKept => Collapsible.arranged hKept hg)
        hMap.nested hMap hMap.nested.outermostClosed_nodup
        (fun _ => hMap.nested.mem_outermostClosed_iff)
    exact
      ⟨hReplaced.2.1.mergeEdges, hReplaced.1.merged.2.1⟩

end ArgumentMap

end Dialectic
