import Dialectic.Proofs.Map.Contents
import Mathlib.Data.Finset.Card

/-
  The groups of a map from the outermost ones inwards.  If
  groups are nested and list each group in them once, this way
  leads to each group that is not empty, and only once.  So it
  leads to each node that is in a group, and only once.

  Key definitions include:
    * `ArgumentMap.Climbs`
    * `ArgumentMap.Tidy`
    * `ArgumentMap.preorder`
    * `ArgumentMap.outline`
    * `ArgumentMap.held`

  Main theorems:
    * `ArgumentMap.Nested.parent_induction`
    * `ArgumentMap.Nested.ancestors_eq_cons`
    * `ArgumentMap.Tidy.preorder_nodup`
    * `ArgumentMap.Tidy.outline_perm`
    * `ArgumentMap.Nested.held_perm`
-/

namespace Dialectic

namespace ArgumentMap

variable {map : ArgumentMap}

------------------------------------------------------------
-- Upwards
------------------------------------------------------------

/- No id is that of a group in itself. -/
theorem Nested.not_within_self (hMap : map.Nested) (id : String) :
    ¬ map.IsWithin id id := by
  intro hWithin
  rcases Relation.TransGen.head'_iff.mp hWithin with
    ⟨p, hParent, _⟩
  rcases (parent?_eq_some_iff hMap.groupIds).mp hParent with
    ⟨g, hg, hId, _⟩
  exact hMap.acyclic g hg (hId ▸ hWithin)

/- The parent of a group is found by its id. -/
theorem Nested.parent?_id
    (hMap : map.Nested)
    {g : MapGroup}
    (hg : g ∈ map.groups) :
    map.parent? g.id = g.parent := by
  have hFound : map.group? g.id = some g :=
    (group?_eq_some_iff hMap.groupIds).mpr ⟨hg, rfl⟩
  rw [parent?, hFound, Option.bind_some]

/-
  What holds outside all groups, and goes from each group to
  those in it, holds of all ids: the groups around a parent are
  fewer.
-/
theorem Nested.parent_induction
    (hMap : map.Nested)
    {P : String → Prop}
    (hTop : ∀ id, map.parent? id = none → P id)
    (hDown : ∀ id p, map.parent? id = some p → P p → P id)
    (id : String) :
    P id := by
  induction hCount : (map.ancestors id).toFinset.card using
    Nat.strong_induction_on generalizing id with
  | _ count ih =>
      cases hParent : map.parent? id with
      | none => exact hTop id hParent
      | some p =>
          refine hDown id p hParent (ih _ ?_ p rfl)
          rw [← hCount]
          apply Finset.card_lt_card
          rw [Finset.ssubset_iff_of_subset]
          · refine ⟨p, ?_, ?_⟩
            · rw [List.mem_toFinset, mem_ancestors_iff]
              exact .single hParent
            · rw [List.mem_toFinset, mem_ancestors_iff]
              exact hMap.not_within_self p
          · intro outer hOuter
            rw [List.mem_toFinset, mem_ancestors_iff]
              at hOuter ⊢
            exact .head hParent hOuter

/- The way up from a current group meets just these groups. -/
def Climbs (map : ArgumentMap) :
    (current : Option String) → List String → Prop
| current, [] => current = none
| current, p :: above =>
    current = some p ∧ map.Climbs (map.parent? p) above

/- The way up is followed from parent to parent to its end. -/
theorem climbs_iff_leads
    {current : Option String}
    {above : List String} :
    map.Climbs current above ↔
      Climb.Leads map.parent? current above none := by
  induction above generalizing current with
  | nil => exact Iff.rfl
  | cons p above ih => exact and_congr_right' ih

/- There is one way up only. -/
theorem Climbs.eq
    {current : Option String}
    {above other : List String}
    (hClimbs : map.Climbs current above)
    (hOther : map.Climbs current other) :
    other = above := by
  rw [climbs_iff_leads] at hClimbs hOther
  exact
    (hClimbs.isPrefix hOther).eq_of_length_le
      (hOther.isPrefix hClimbs).length_le

/-
  From a group that is in no circle of groups, and around
  which there is none, the way up is found to its end.
-/
theorem climbs_ancestors
    {id : String}
    (hAcyclic : ∀ p, map.IsWithin id p → ¬ map.IsWithin p p) :
    map.Climbs (map.parent? id) (map.ancestors id) := by
  rcases map.ancestors_spec id with
    ⟨_, current, hLeads, hLast⟩
  cases current with
  | none => exact climbs_iff_leads.mpr hLeads
  | some p =>
      exact
        absurd (hLeads.transGen_of_mem (hLast p rfl))
          (hAcyclic p (hLeads.transGen.2 p rfl))

/- From each nested group there is a way up. -/
theorem Nested.climbs_ancestors
    (hMap : map.Nested)
    (id : String) :
    map.Climbs (map.parent? id) (map.ancestors id) :=
  ArgumentMap.climbs_ancestors
    (fun p _ => hMap.not_within_self p)

/- No groups are around a group without parent. -/
theorem ancestors_eq_nil
    {id : String}
    (hNone : map.parent? id = none) :
    map.ancestors id = [] := by
  simp [ancestors, hNone, ancestorsFrom]

/- Around a group are its parent and what is around that. -/
theorem Nested.ancestors_eq_cons
    (hMap : map.Nested)
    {id p : String}
    (hParent : map.parent? id = some p) :
    map.ancestors id = p :: map.ancestors p :=
  Climbs.eq ⟨hParent, hMap.climbs_ancestors p⟩
    (hMap.climbs_ancestors id)

/- The groups around a group are fewer than all groups. -/
theorem Nested.length_ancestors_lt
    (hMap : map.Nested)
    {g : MapGroup}
    (hg : g ∈ map.groups) :
    (map.ancestors g.id).length < map.groups.length := by
  have hGroups :
      g.id :: map.ancestors g.id ⊆
        map.groups.map MapGroup.id := by
    refine
      List.cons_subset.mpr ⟨List.mem_map_of_mem hg, ?_⟩
    intro outer hMem
    rcases Relation.TransGen.tail'_iff.mp
        (mem_ancestors_iff.mp hMem) with
      ⟨_, _, hParent⟩
    exact hMap.parent_mem hParent
  have hNew : g.id ∉ map.ancestors g.id := fun hMem =>
    hMap.not_within_self g.id (mem_ancestors_iff.mp hMem)
  have hLength :=
    (List.subperm_of_subset
      (List.nodup_cons.mpr
        ⟨hNew, (map.ancestors_spec g.id).1⟩)
      hGroups).length_le
  rw [List.length_map] at hLength
  exact hLength

------------------------------------------------------------
-- Downwards
------------------------------------------------------------

/-
  Groups are nested and list each group in them once, and those
  that are collapsed are empty.
-/
structure Tidy (map : ArgumentMap) : Prop where
  nested : map.Nested
  unrepeated : ∀ g ∈ map.groups, g.subgroups.Nodup
  hollow : ∀ g ∈ map.groups, map.IsCollapsed g →
    g.isEmpty = true

/- A group is not empty if it lists a group. -/
theorem isEmpty_eq_false_of_listed
    {h : MapGroup}
    {id : String}
    (hListed : id ∈ h.subgroups) :
    h.isEmpty = false := by
  have hNot : h.subgroups ≠ [] := List.ne_nil_of_mem hListed
  simp [MapGroup.isEmpty, hNot]

/-
  A group and the groups in it, from outside inwards, but for
  empty ones.  `fuel` bounds the depth.
-/
def preorder (map : ArgumentMap) :
    (fuel : Nat) → (id : String) → List MapGroup
| 0, _ => []
| fuel + 1, id =>
    match map.group? id with
    | none => []
    | some g =>
        if g.isEmpty then []
        else g :: g.subgroups.flatMap (preorder map fuel)

/- All groups from outside inwards, but for empty ones. -/
def outline (map : ArgumentMap) : List MapGroup :=
  map.rootGroups.flatMap (fun g =>
    map.preorder map.groups.length g.id)

/- A group comes before the groups in it. -/
theorem mem_preorder_succ
    {fuel : Nat}
    {id : String}
    {k : MapGroup} :
    k ∈ map.preorder (fuel + 1) id ↔
      ∃ g, map.group? id = some g ∧ g.isEmpty = false ∧
        (k = g ∨ ∃ c ∈ g.subgroups, k ∈ map.preorder fuel c) := by
  rw [preorder]
  cases map.group? id with
  | none => simp
  | some g => by_cases hEmpty : g.isEmpty = true <;> simp [hEmpty]

/- The groups in a group have the same groups around them. -/
theorem Nested.ancestors_of_mem_subgroups
    (hMap : map.Nested)
    {g : MapGroup}
    (hg : g ∈ map.groups)
    {id : String}
    (hListed : id ∈ g.subgroups) :
    map.ancestors id = g.id :: map.ancestors g.id :=
  hMap.ancestors_eq_cons
    (hMap.parent?_of_mem_subgroups hg hListed)

/- The way inwards leads to groups that are in the first one. -/
theorem Nested.suffix_of_mem_preorder
    (hMap : map.Nested)
    {fuel : Nat}
    {id : String}
    {k : MapGroup}
    (hk : k ∈ map.preorder fuel id) :
    k ∈ map.groups ∧ k.isEmpty = false ∧
      id :: map.ancestors id <:+ k.id :: map.ancestors k.id := by
  induction fuel generalizing id with
  | zero => exact absurd hk List.not_mem_nil
  | succ fuel ih =>
      rcases mem_preorder_succ.mp hk with
        ⟨g, hFound, hFilled, hSame | ⟨c, hListed, hInner⟩⟩
      · rcases (group?_eq_some_iff hMap.groupIds).mp hFound with
          ⟨hg, hId⟩
        subst hSame hId
        exact ⟨hg, hFilled, List.suffix_refl _⟩
      · rcases (group?_eq_some_iff hMap.groupIds).mp hFound with
          ⟨hg, hId⟩
        subst hId
        rcases ih hInner with ⟨hkGroup, hkFilled, hSuffix⟩
        rw [hMap.ancestors_of_mem_subgroups hg hListed] at hSuffix
        exact
          ⟨hkGroup, hkFilled,
            (List.suffix_cons c _).trans hSuffix⟩

/-
  The ways from groups side by side lead to different groups,
  as a group has one way up.
-/
theorem Nested.preorder_disjoint
    (hMap : map.Nested)
    {fuel : Nat}
    {c d : String}
    (hOther : c ≠ d)
    (hSame : map.ancestors c = map.ancestors d) :
    List.Disjoint (map.preorder fuel c)
      (map.preorder fuel d) := by
  intro k hc hd
  have hSuffixC := (hMap.suffix_of_mem_preorder hc).2.2
  have hSuffixD := (hMap.suffix_of_mem_preorder hd).2.2
  rw [hSame] at hSuffixC
  have hEq :=
    (List.suffix_of_suffix_length_le hSuffixC hSuffixD
      (by simp)).eq_of_length (by simp)
  exact hOther (List.cons.inj hEq).1

/- The way inwards from groups side by side repeats no group. -/
theorem Nested.flatMap_preorder_nodup
    (hMap : map.Nested)
    (fuel : Nat)
    {ids above : List String}
    (hUnique : ids.Nodup)
    (hBeside : ∀ id ∈ ids, map.ancestors id = above)
    (hEach : ∀ id ∈ ids, (map.preorder fuel id).Nodup) :
    (ids.flatMap (map.preorder fuel)).Nodup := by
  rw [List.nodup_flatMap]
  refine ⟨hEach, hUnique.imp_of_mem ?_⟩
  intro c d hc hd hOther
  exact
    hMap.preorder_disjoint hOther
      ((hBeside c hc).trans (hBeside d hd).symm)

/- The way inwards from a group repeats no group. -/
theorem Tidy.preorder_nodup
    (hMap : map.Tidy)
    (fuel : Nat)
    (id : String) :
    (map.preorder fuel id).Nodup := by
  have hNested := hMap.nested
  induction fuel generalizing id with
  | zero => exact List.nodup_nil
  | succ fuel ih =>
      rw [preorder]
      cases hFound : map.group? id with
      | none => exact List.nodup_nil
      | some g =>
          dsimp only
          have hg : g ∈ map.groups :=
            List.mem_of_find?_eq_some hFound
          split
          · exact List.nodup_nil
          · rw [List.nodup_cons]
            constructor
            · -- what is in the group has more groups around it
              intro hAgain
              rcases List.mem_flatMap.mp hAgain with
                ⟨c, hListed, hInner⟩
              have hSuffix :=
                (hNested.suffix_of_mem_preorder hInner).2.2
              rw [hNested.ancestors_of_mem_subgroups hg hListed]
                at hSuffix
              have hLength := hSuffix.length_le
              simp only [List.length_cons] at hLength
              omega
            · exact
                hNested.flatMap_preorder_nodup fuel
                  (hMap.unrepeated g hg)
                  (fun c hListed =>
                    hNested.ancestors_of_mem_subgroups hg hListed)
                  (fun c _ => ih c)

/- A group that is not empty is the first on the way inwards. -/
theorem Nested.self_mem_preorder
    (hMap : map.Nested)
    {k : MapGroup}
    (hk : k ∈ map.groups)
    (hFilled : k.isEmpty = false)
    {fuel : Nat}
    (hFuel : 0 < fuel) :
    k ∈ map.preorder fuel k.id := by
  cases fuel with
  | zero => exact absurd hFuel (Nat.lt_irrefl 0)
  | succ fuel =>
      have hFound : map.group? k.id = some k :=
        (group?_eq_some_iff hMap.groupIds).mpr ⟨hk, rfl⟩
      exact mem_preorder_succ.mpr ⟨k, hFound, hFilled, Or.inl rfl⟩

/-
  The way inwards goes on from each group to those it lists.
  It ends in time, as each step adds to the groups around.
-/
theorem Nested.listed_mem_preorder
    (hMap : map.Nested)
    {fuel : Nat}
    {id : String}
    {h k : MapGroup}
    (hh : h ∈ map.preorder fuel id)
    (hk : k ∈ map.groups)
    (hListed : k.id ∈ h.subgroups)
    (hFilled : k.isEmpty = false)
    (hFuel :
      map.groups.length ≤ fuel + (map.ancestors id).length) :
    k ∈ map.preorder fuel id := by
  induction fuel generalizing id with
  | zero => exact absurd hh List.not_mem_nil
  | succ fuel ih =>
      rcases mem_preorder_succ.mp hh with
        ⟨g, hFound, hFilledG, hStep⟩
      rcases (group?_eq_some_iff hMap.groupIds).mp hFound with
        ⟨hg, hId⟩
      subst hId
      refine
        mem_preorder_succ.mpr ⟨g, hFound, hFilledG, Or.inr ?_⟩
      rcases hStep with hSame | ⟨c, hListedC, hInner⟩
      · subst hSame
        refine ⟨k.id, hListed, ?_⟩
        have hAround := hMap.ancestors_of_mem_subgroups hg hListed
        have hFewer := hMap.length_ancestors_lt hk
        rw [hAround, List.length_cons] at hFewer
        exact hMap.self_mem_preorder hk hFilled (by omega)
      · refine ⟨c, hListedC, ih hInner ?_⟩
        rw [hMap.ancestors_of_mem_subgroups hg hListedC,
          List.length_cons]
        omega

/- Nothing is around a group without parent. -/
theorem Nested.ancestors_of_mem_rootGroups
    (hMap : map.Nested)
    {g : MapGroup}
    (hg : g ∈ map.rootGroups) :
    map.ancestors g.id = [] := by
  rcases List.mem_filter.mp hg with ⟨hg, hTop⟩
  apply ancestors_eq_nil
  rw [hMap.parent?_id hg]
  simpa using hTop

/- The way inwards leads to each group that is not empty. -/
theorem Tidy.mem_outline
    (hMap : map.Tidy)
    {k : MapGroup}
    (hk : k ∈ map.groups)
    (hFilled : k.isEmpty = false) :
    k ∈ map.outline := by
  have hNested := hMap.nested
  have hSome := List.length_pos_of_mem hk
  induction hId : k.id using hNested.parent_induction
    generalizing k with
  | hTop id hNone =>
      rw [← hId, hNested.parent?_id hk] at hNone
      have hRoot : k ∈ map.rootGroups :=
        List.mem_filter.mpr ⟨hk, by simp [hNone]⟩
      exact
        List.mem_flatMap.mpr
          ⟨k, hRoot, hNested.self_mem_preorder hk hFilled hSome⟩
  | hDown id p hParent ih =>
      rw [← hId, hNested.parent?_id hk] at hParent
      rcases hNested.parents k hk p hParent with ⟨h, hh, hIdH⟩
      subst hIdH
      have hOpen : ¬ map.IsCollapsed k := by
        intro hCollapsed
        rw [hMap.hollow k hk hCollapsed] at hFilled
        cases hFilled
      have hListed := hNested.listed k hk hOpen h hh hParent
      have hFilledH := isEmpty_eq_false_of_listed hListed
      rcases List.mem_flatMap.mp (ih hh hFilledH rfl) with
        ⟨r, hr, hInner⟩
      exact
        List.mem_flatMap.mpr
          ⟨r, hr,
            hNested.listed_mem_preorder hInner hk hListed hFilled
              (by omega)⟩

/- The way inwards leads to each group that is not empty once. -/
theorem Tidy.outline_perm (hMap : map.Tidy) :
    map.outline.Perm
      (map.groups.filter (fun g => !g.isEmpty)) := by
  have hNested := hMap.nested
  have hIds : (map.rootGroups.map MapGroup.id).Nodup :=
    hNested.groupIds.sublist
      (List.filter_sublist.map MapGroup.id)
  have hTop : ∀ id ∈ map.rootGroups.map MapGroup.id,
      map.ancestors id = [] := by
    intro id hMem
    rcases List.mem_map.mp hMem with ⟨g, hg, hId⟩
    exact hId ▸ hNested.ancestors_of_mem_rootGroups hg
  have hUnique : map.outline.Nodup := by
    have hRoots :=
      hNested.flatMap_preorder_nodup map.groups.length hIds hTop
        (fun id _ => hMap.preorder_nodup _ id)
    rwa [List.flatMap_map] at hRoots
  have hGroups : map.groups.Nodup :=
    List.Nodup.of_map MapGroup.id hNested.groupIds
  rw [List.perm_ext_iff_of_nodup hUnique (hGroups.filter _)]
  intro k
  rw [List.mem_filter, Bool.not_eq_true']
  constructor
  · intro hk
    rcases List.mem_flatMap.mp hk with ⟨r, _, hInner⟩
    rcases hNested.suffix_of_mem_preorder hInner with
      ⟨hGroup, hFilled, _⟩
    exact ⟨hGroup, hFilled⟩
  · exact fun hk => hMap.mem_outline hk.1 hk.2

------------------------------------------------------------
-- Nodes
------------------------------------------------------------

/- The nodes that a group lists. -/
def held (map : ArgumentMap) (g : MapGroup) : List MapNode :=
  g.nodes.filterMap map.node?

/- Looking up a node finds the one of its id. -/
theorem node?_eq_some_iff
    (hIds : (map.nodes.map MapNode.id).Nodup)
    {id : String}
    {n : MapNode} :
    map.node? id = some n ↔ n ∈ map.nodes ∧ n.id = id :=
  Sequence.find?_key_eq_some_iff hIds

/- The nodes that a group lists are those in it. -/
theorem Nested.mem_held_iff
    (hMap : map.Nested)
    {g : MapGroup}
    (hg : g ∈ map.groups)
    {n : MapNode} :
    n ∈ map.held g ↔ n ∈ map.nodes ∧ n.group = some g.id := by
  rw [held, List.mem_filterMap]
  simp only [node?_eq_some_iff hMap.nodeIds]
  constructor
  · rintro ⟨_, hListed, hn, rfl⟩
    exact ⟨hn, (hMap.grouped n hn g.id).mpr ⟨g, hg, rfl, hListed⟩⟩
  · rintro ⟨hn, hGroup⟩
    rcases (hMap.grouped n hn g.id).mp hGroup with
      ⟨h, hh, hId, hListed⟩
    rw [group_eq hMap.groupIds hh hg hId] at hListed
    exact ⟨n.id, hListed, hn, rfl⟩

/- A group lists each of its nodes once. -/
theorem Nested.held_nodup
    (hMap : map.Nested)
    {g : MapGroup}
    (hg : g ∈ map.groups) :
    (map.held g).Nodup := by
  refine (hMap.members g hg).1.filterMap ?_
  intro a b n hA hB
  have hIdA := ((node?_eq_some_iff hMap.nodeIds).mp hA).2
  have hIdB := ((node?_eq_some_iff hMap.nodeIds).mp hB).2
  exact hIdA.symm.trans hIdB

/- Different groups list different nodes. -/
theorem Nested.held_disjoint
    (hMap : map.Nested)
    {g h : MapGroup}
    (hg : g ∈ map.groups)
    (hh : h ∈ map.groups)
    (hOther : g ≠ h) :
    List.Disjoint (map.held g) (map.held h) := by
  intro n hInG hInH
  have hGroupG := ((hMap.mem_held_iff hg).mp hInG).2
  have hGroupH := ((hMap.mem_held_iff hh).mp hInH).2
  rw [hGroupG, Option.some.injEq] at hGroupH
  exact hOther (group_eq hMap.groupIds hg hh hGroupH)

/- The nodes that are in groups are listed by filled ones. -/
theorem Nested.mem_flatMap_held_iff
    (hMap : map.Nested)
    {n : MapNode} :
    n ∈ (map.groups.filter (fun g => !g.isEmpty)).flatMap
        map.held ↔
      n ∈ map.nodes ∧ n.group ≠ none := by
  rw [List.mem_flatMap]
  constructor
  · rintro ⟨g, hg, hn⟩
    rcases (hMap.mem_held_iff (List.mem_of_mem_filter hg)).mp
        hn with
      ⟨hNode, hGroup⟩
    exact ⟨hNode, by simp [hGroup]⟩
  · rintro ⟨hn, hSome⟩
    rcases Option.ne_none_iff_exists'.mp hSome with
      ⟨id, hGroup⟩
    rcases (hMap.grouped n hn id).mp hGroup with
      ⟨g, hg, hId, hListed⟩
    subst hId
    have hFilled : g.isEmpty = false := by
      have hNot : g.nodes ≠ [] := List.ne_nil_of_mem hListed
      simp [MapGroup.isEmpty, hNot]
    exact
      ⟨g, List.mem_filter.mpr ⟨hg, by simp [hFilled]⟩,
        (hMap.mem_held_iff hg).mpr ⟨hn, hGroup⟩⟩

/-
  Each node is in no group, or is listed once by one group that
  is not empty.
-/
theorem Nested.held_perm (hMap : map.Nested) :
    (map.nodes.filter (fun n => n.group.isNone)
      ++ (map.groups.filter (fun g => !g.isEmpty)).flatMap
        map.held).Perm map.nodes := by
  have hNodes : map.nodes.Nodup :=
    List.Nodup.of_map MapNode.id hMap.nodeIds
  have hGroups : map.groups.Nodup :=
    List.Nodup.of_map MapGroup.id hMap.groupIds
  have hOnce :
      ((map.groups.filter (fun g => !g.isEmpty)).flatMap
        map.held).Nodup := by
    rw [List.nodup_flatMap]
    constructor
    · exact fun g hg =>
        hMap.held_nodup (List.mem_of_mem_filter hg)
    · refine (hGroups.filter _).imp_of_mem ?_
      intro g h hg hh hOther
      exact
        hMap.held_disjoint (List.mem_of_mem_filter hg)
          (List.mem_of_mem_filter hh) hOther
  have hHeld :
      ((map.groups.filter (fun g => !g.isEmpty)).flatMap
        map.held).Perm
        (map.nodes.filter (fun n => !n.group.isNone)) := by
    rw [List.perm_ext_iff_of_nodup hOnce (hNodes.filter _)]
    intro n
    rw [hMap.mem_flatMap_held_iff, List.mem_filter]
    simp [Option.isSome_iff_ne_none]
  exact
    (hHeld.append_left _).trans
      (List.filter_append_perm
        (fun n => n.group.isNone) map.nodes)

end ArgumentMap

end Dialectic
