import Dialectic.Proofs.Map.Traversal

/-
  If groups are nested, what is in a group is all found, and
  nothing else: the groups whose way up leads to it, and the
  nodes that it and those list.

  Key definitions include:
    * `ArgumentMap.Exploring`
    * `ArgumentMap.Explored`

  Main theorems:
    * `ArgumentMap.parent?_of_mem_subgroupsOf`
    * `ArgumentMap.Nested.explored_descendants`
-/

namespace Dialectic

namespace ArgumentMap

variable {map : ArgumentMap}

------------------------------------------------------------
-- Parents
------------------------------------------------------------

/- A parent is a group. -/
theorem Nested.parent_mem
    (hMap : map.Nested)
    {id p : String}
    (hParent : map.parent? id = some p) :
    p ∈ map.groups.map MapGroup.id := by
  rcases (parent?_eq_some_iff hMap.groupIds).mp hParent with
    ⟨g, hg, _, hParent⟩
  rcases hMap.parents g hg p hParent with ⟨h, hh, hId⟩
  exact List.mem_map.mpr ⟨h, hh, hId⟩

/- The groups that a group lists are found by its id. -/
theorem mem_subgroupsOf_iff
    (hIds : (map.groups.map MapGroup.id).Nodup)
    {outer id : String} :
    id ∈ map.subgroupsOf outer ↔
      ∃ h ∈ map.groups, h.id = outer ∧ id ∈ h.subgroups := by
  unfold subgroupsOf
  constructor
  · intro hListed
    cases hFound : map.group? outer with
    | none => simp [hFound] at hListed
    | some h =>
        rcases (group?_eq_some_iff hIds).mp hFound with ⟨hh, hId⟩
        exact ⟨h, hh, hId, by simpa [hFound] using hListed⟩
  · rintro ⟨h, hh, hId, hListed⟩
    rw [(group?_eq_some_iff hIds).mpr ⟨hh, hId⟩]
    exact hListed

/- The nodes that a group lists are found by its id. -/
theorem nodesOf_eq
    (hIds : (map.groups.map MapGroup.id).Nodup)
    {g : MapGroup}
    (hg : g ∈ map.groups) :
    map.nodesOf g.id = g.nodes := by
  rw [nodesOf, (group?_eq_some_iff hIds).mpr ⟨hg, rfl⟩]
  rfl

/-
  If groups list only groups whose parent they are, an entry
  for a group in a group leads to its parent.
-/
theorem parent?_of_mem_subgroupsOf
    (hIds : (map.groups.map MapGroup.id).Nodup)
    (hEntries : ∀ h ∈ map.groups, ∀ id ∈ h.subgroups,
      ∃ g ∈ map.groups, g.id = id ∧ g.parent = some h.id)
    {outer id : String}
    (hListed : id ∈ map.subgroupsOf outer) :
    map.parent? id = some outer := by
  rcases (mem_subgroupsOf_iff hIds).mp hListed with
    ⟨h, hh, rfl, hEntry⟩
  rcases hEntries h hh id hEntry with ⟨g, hg, hId, hParent⟩
  exact
    (parent?_eq_some_iff hIds).mpr ⟨g, hg, hId, hParent⟩

/- Then each group that is listed in another one is in it. -/
theorem IsSubgroup.isWithin
    (hIds : (map.groups.map MapGroup.id).Nodup)
    (hEntries : ∀ h ∈ map.groups, ∀ id ∈ h.subgroups,
      ∃ g ∈ map.groups, g.id = id ∧ g.parent = some h.id)
    {inner outer : String}
    (hSub : map.IsSubgroup inner outer) :
    map.IsWithin inner outer :=
  Relation.TransGen.mono
    (fun _ _ => parent?_of_mem_subgroupsOf hIds hEntries)
    inner outer hSub.swap

/- Nested groups list only groups whose parent they are. -/
theorem Nested.entries
    (hMap : map.Nested) :
    ∀ h ∈ map.groups, ∀ id ∈ h.subgroups,
      ∃ g ∈ map.groups, g.id = id ∧ g.parent = some h.id := by
  intro h hh id hListed
  rcases hMap.subgroups h hh id hListed with
    ⟨g, hg, hId, hParent, _⟩
  exact ⟨g, hg, hId, hParent⟩

/- An entry for a group in a nested one leads to its parent. -/
theorem Nested.parent?_of_mem_subgroups
    (hMap : map.Nested)
    {h : MapGroup}
    {id : String}
    (hh : h ∈ map.groups)
    (hListed : id ∈ h.subgroups) :
    map.parent? id = some h.id :=
  parent?_of_mem_subgroupsOf hMap.groupIds hMap.entries
    ((mem_subgroupsOf_iff hMap.groupIds).mpr
      ⟨h, hh, rfl, hListed⟩)

------------------------------------------------------------
-- Contents of a Group
------------------------------------------------------------

/-
  What is in a group: every group that is met is in it, every
  node is listed by it or by a group that is met, and nothing
  of this kind is missing but what is still on the stack.
-/
structure Exploring
    (map : ArgumentMap)
    (root : String)
    (met : Contents)
    (stack : List String) : Prop where
  unique : met.groups.Nodup
  within : ∀ x ∈ met.groups, map.IsWithin x root
  entries : ∀ x ∈ met.groups, ∃ h ∈ map.groups,
    (h.id = root ∨ h.id ∈ met.groups) ∧ x ∈ h.subgroups
  known : ∀ x ∈ stack, x = root ∨ x ∈ met.groups
  nodes : ∀ n ∈ met.nodes, ∃ g ∈ map.groups,
    (g.id = root ∨ g.id ∈ met.groups) ∧ n ∈ g.nodes
  expanded : ∀ g ∈ map.groups,
    (g.id = root ∨ g.id ∈ met.groups) →
      g.id ∈ stack ∨
        (g.nodes ⊆ met.nodes ∧ g.subgroups ⊆ met.groups)

/- Nothing is missing when the stack is empty. -/
def Explored
    (map : ArgumentMap)
    (root : String)
    (met : Contents) : Prop :=
  Exploring map root met []

/- What is in a group is all met. -/
theorem Nested.explored_descendants
    (hMap : map.Nested)
    (root : String) :
    Explored map root (map.descendants root) := by
  rcases map.descendants_spec root with
    ⟨hUnique, hGroups, hNodes⟩
  refine ⟨hUnique, ?_, ?_, by simp, ?_, ?_⟩
  · exact fun x hx =>
      ((hGroups x).mp hx).isWithin hMap.groupIds hMap.entries
  · intro x hx
    rcases Relation.TransGen.tail'_iff.mp ((hGroups x).mp hx) with
      ⟨outer, hReached, hListed⟩
    rcases (mem_subgroupsOf_iff hMap.groupIds).mp hListed with
      ⟨h, hh, rfl, hEntry⟩
    refine ⟨h, hh, ?_, hEntry⟩
    rw [hGroups]
    exact Relation.reflTransGen_iff_eq_or_transGen.mp hReached
  · intro n hn
    rcases List.mem_flatMap.mp (hNodes.subset hn) with
      ⟨id, hReached, hListed⟩
    unfold nodesOf at hListed
    cases hFound : map.group? id with
    | none => simp [hFound] at hListed
    | some g =>
        rcases (group?_eq_some_iff hMap.groupIds).mp hFound with
          ⟨hg, rfl⟩
        exact
          ⟨g, hg, List.mem_cons.mp hReached,
            by simpa [hFound] using hListed⟩
  · intro g hg hReached
    refine .inr ⟨fun n hn => ?_, fun x hx => ?_⟩
    · apply hNodes.symm.subset
      rw [← nodesOf_eq hMap.groupIds hg] at hn
      exact
        List.mem_flatMap.mpr
          ⟨g.id, List.mem_cons.mpr hReached, hn⟩
    · have hListed : x ∈ map.subgroupsOf g.id :=
        (mem_subgroupsOf_iff hMap.groupIds).mpr
          ⟨g, hg, rfl, hx⟩
      rw [hGroups]
      rcases hReached with hRoot | hMet
      · exact .single (hRoot ▸ hListed)
      · exact .tail ((hGroups g.id).mp hMet) hListed

end ArgumentMap

end Dialectic
