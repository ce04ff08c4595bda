import Dialectic.Proofs.Map.Preorder

/-
  If the groups of a map form a forest, and their parents and
  entries agree, the ways up and down belong together: a group
  is in what is found on the way down from another one if and
  only if that one is found on the way up from it.

  Key definitions include:
    * `ArgumentMap.IsForest`

  Main theorems:
    * `ArgumentMap.IsForest.isSubgroup_iff`
    * `ArgumentMap.IsForest.nodes_descendants_perm`
    * `ArgumentMap.ancestors_descendants_dual`
-/

namespace Dialectic

namespace ArgumentMap

variable {map : ArgumentMap}

------------------------------------------------------------
-- Forests
------------------------------------------------------------

/-
  The ids of groups are unique, a group lists just the groups
  whose parent it is, and no group is in itself.
-/
structure IsForest (map : ArgumentMap) : Prop where
  groupIds : (map.groups.map MapGroup.id).Nodup
  entries : ∀ h ∈ map.groups, ∀ id ∈ h.subgroups,
    ∃ g ∈ map.groups, g.id = id ∧ g.parent = some h.id
  listed : ∀ g ∈ map.groups, ∀ h ∈ map.groups,
    g.parent = some h.id → g.id ∈ h.subgroups
  acyclic : ∀ g ∈ map.groups, ¬ map.IsWithin g.id g.id

/- No id is that of a group in itself. -/
theorem IsForest.not_within_self
    (hMap : map.IsForest)
    (id : String) :
    ¬ map.IsWithin id id := by
  intro hWithin
  rcases Relation.TransGen.head'_iff.mp hWithin with
    ⟨p, hParent, _⟩
  rcases (parent?_eq_some_iff hMap.groupIds).mp hParent with
    ⟨g, hg, hId, _⟩
  exact hMap.acyclic g hg (hId ▸ hWithin)

/- A group lists each group whose parent it is. -/
theorem IsForest.mem_subgroupsOf
    (hMap : map.IsForest)
    {h : MapGroup}
    (hh : h ∈ map.groups)
    {id : String}
    (hParent : map.parent? id = some h.id) :
    id ∈ map.subgroupsOf h.id := by
  rcases (parent?_eq_some_iff hMap.groupIds).mp hParent with
    ⟨g, hg, rfl, hOuter⟩
  exact
    (mem_subgroupsOf_iff hMap.groupIds).mpr
      ⟨h, hh, rfl, hMap.listed g hg h hh hOuter⟩

/-
  What a group lists at some depth are the groups whose way up
  leads to it.
-/
theorem IsForest.isSubgroup_iff
    (hMap : map.IsForest)
    {g : MapGroup}
    (hg : g ∈ map.groups)
    {id : String} :
    map.IsSubgroup id g.id ↔ map.IsWithin id g.id := by
  refine
    ⟨fun hSub => hSub.isWithin hMap.groupIds hMap.entries, ?_⟩
  intro hWithin
  induction hWithin using Relation.TransGen.head_induction_on with
  | single hParent =>
      exact .single (hMap.mem_subgroupsOf hg hParent)
  | head hParent hAbove ih =>
      -- a parent that has a parent in turn is a group
      rcases Relation.TransGen.head'_iff.mp hAbove with
        ⟨_, hNext, _⟩
      rcases (parent?_eq_some_iff hMap.groupIds).mp hNext with
        ⟨h, hh, rfl, _⟩
      exact .tail ih (hMap.mem_subgroupsOf hh hParent)

/-
  The nodes in a group are those that it and the groups in it
  list, as often as they do.
-/
theorem IsForest.nodes_descendants_perm
    (hMap : map.IsForest)
    {g : MapGroup}
    (hg : g ∈ map.groups) :
    (map.descendants g.id).nodes.Perm
      ((map.groups.filter (fun h =>
          h.id = g.id ∨
            h.id ∈ (map.descendants g.id).groups)).flatMap
        MapGroup.nodes) := by
  rcases map.descendants_spec g.id with
    ⟨hUnique, hGroups, hNodes⟩
  have hWithin : ∀ id ∈ (map.descendants g.id).groups,
      map.IsWithin id g.id := fun id hMem =>
    (hMap.isSubgroup_iff hg).mp ((hGroups id).mp hMem)
  have hInside :
      (g.id :: (map.descendants g.id).groups).Perm
        ((map.groups.filter (fun h =>
            h.id = g.id ∨
              h.id ∈ (map.descendants g.id).groups)).map
          MapGroup.id) := by
    rw [List.perm_ext_iff_of_nodup]
    · intro id
      simp only [List.mem_cons, List.mem_map, List.mem_filter,
        decide_eq_true_eq]
      constructor
      · rintro (rfl | hMem)
        · exact ⟨g, ⟨hg, .inl rfl⟩, rfl⟩
        · rcases Relation.TransGen.head'_iff.mp
              (hWithin id hMem) with
            ⟨_, hParent, _⟩
          rcases (parent?_eq_some_iff hMap.groupIds).mp
              hParent with
            ⟨h, hh, rfl, _⟩
          exact ⟨h, ⟨hh, .inr hMem⟩, rfl⟩
      · rintro ⟨h, ⟨_, hInside⟩, rfl⟩
        exact hInside
    · exact
        List.nodup_cons.mpr
          ⟨fun hMem =>
              hMap.not_within_self g.id (hWithin g.id hMem),
            hUnique⟩
    · exact
        hMap.groupIds.sublist
          (List.filter_sublist.map MapGroup.id)
  refine hNodes.trans ((hInside.flatMap_right _).trans ?_)
  rw [List.flatMap_map]
  apply List.Perm.of_eq
  apply List.flatMap_congr
  intro h hh
  exact nodesOf_eq hMap.groupIds (List.mem_filter.mp hh).1

------------------------------------------------------------
-- Duality
------------------------------------------------------------

/-
  On every map the ways up and down come to an end, and what
  is around a group or in it is what was met there.  If groups
  form a forest, the way down from a group meets each group in
  it once, at any depth, and each node as often as it is held
  by the group or one of those; the way up meets the parents in
  turn, to the last one; and each way meets what the other one
  says.
-/
theorem ancestors_descendants_dual (map : ArgumentMap) :
    (∀ id,
      (∃ last,
        Process.StopsAt map.climb? ⟨[], map.parent? id⟩ last ∧
          map.ancestors id = last.met) ∧
        ∃ last,
          Process.StopsAt map.descend? ⟨⟨[], []⟩, [id]⟩ last ∧
            map.descendants id = last.met) ∧
      (map.IsForest → ∀ g ∈ map.groups,
        (map.descendants g.id).groups.Nodup ∧
          (∀ id, id ∈ (map.descendants g.id).groups ↔
            map.IsSubgroup id g.id) ∧
          (map.descendants g.id).nodes.Perm
            ((map.groups.filter (fun h =>
                h.id = g.id ∨
                  h.id ∈ (map.descendants g.id).groups)).flatMap
              MapGroup.nodes) ∧
          map.Climbs (map.parent? g.id) (map.ancestors g.id) ∧
          ∀ id, id ∈ (map.descendants g.id).groups ↔
            g.id ∈ map.ancestors id) := by
  refine
    ⟨fun id =>
      ⟨map.ancestors_stopsAt id, map.descendants_stopsAt id⟩, ?_⟩
  intro hMap g hg
  rcases map.descendants_spec g.id with ⟨hUnique, hGroups, _⟩
  refine
    ⟨hUnique, hGroups, hMap.nodes_descendants_perm hg,
      climbs_ancestors (fun p _ => hMap.not_within_self p), ?_⟩
  intro id
  rw [hGroups, hMap.isSubgroup_iff hg, mem_ancestors_iff]

/-
  A group in which there are two others, the second of which
  holds a third one and lists a node twice.
-/
def fourGroups : ArgumentMap where
  nodes := []
  edges := []
  groups :=
    [{ MapGroup.new "g0" "Outer" 1 with
        nodes := ["n0"], subgroups := ["g1", "g2"] },
      { MapGroup.new "g1" "First" 2 with
        parent := some "g0", nodes := ["n1"] },
      { MapGroup.new "g2" "Second" 2 with
        parent := some "g0", nodes := ["n2", "n2"],
        subgroups := ["g3"] },
      { MapGroup.new "g3" "Inner" 3 with
        parent := some "g2", nodes := ["n3"] }]

/- The ways up and down between these four groups. -/
theorem ancestors_descendants_dual_fourGroups :
    fourGroups.IsForest ∧
      (fourGroups.descendants "g0").groups =
        ["g2", "g1", "g3"] ∧
      (fourGroups.descendants "g0").nodes.Perm
        ["n0", "n1", "n2", "n2", "n3"] ∧
      fourGroups.Climbs (some "g2")
        (fourGroups.ancestors "g3") ∧
      ("g3" ∈ (fourGroups.descendants "g0").groups ↔
        "g0" ∈ fourGroups.ancestors "g3") := by
  have hForest : fourGroups.IsForest :=
    ⟨by decide, by decide, by decide, by decide⟩
  have hDual := (ancestors_descendants_dual fourGroups).2 hForest
  have hOuter := hDual _ (List.mem_cons_self)
  have hInner :=
    hDual _ (List.mem_of_getElem? (i := 3) rfl)
  exact
    ⟨hForest, by decide, hOuter.2.2.1, hInner.2.2.2.1,
      hOuter.2.2.2.2 "g3"⟩

end ArgumentMap

end Dialectic
