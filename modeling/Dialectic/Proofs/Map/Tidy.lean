import Dialectic.Proofs.Map.Forest
import Dialectic.Proofs.Map.Preorder
import Dialectic.Proofs.Map.Soundness

/-
  Putting the nodes of a plain map into groups gives a tidy map
  whatever the sections of the model are, and replacing closed
  groups by nodes and changing colors keep it tidy.

  Key definitions include:
    * `Grouping.ListsOnce`

  Main theorems:
    * `Grouping.Forest.placeNode_listsOnce`
    * `ArgumentMap.Plain.buildGroups_tidy`
    * `ArgumentMap.Collapsible.tidy`
    * `ArgumentMap.Nested.collapse_kept`
    * `ArgumentMap.Tidy.collapse`
    * `ArgumentMap.Tidy.recolored`
-/

namespace Dialectic

------------------------------------------------------------
-- Groups of Plain Maps
------------------------------------------------------------

namespace Grouping

variable {state : State}
variable {groups : List MapGroup}
variable {nodes : List MapNode}

/- Each group lists the groups in it once. -/
def ListsOnce (groups : List MapGroup) : Prop :=
  ∀ g ∈ groups, g.subgroups.Nodup

/- A new group has an id that no group lists yet. -/
theorem ListsOnce.withGroup
    (hOnce : ListsOnce groups)
    (hListing : Listing groups)
    {added : MapGroup}
    (hId : added.id = "g" ++ toString groups.length)
    (hEmpty : added.subgroups = []) :
    ListsOnce (withGroup groups added) := by
  intro g hg
  rcases (mem_withGroup added g).mp hg with
    ⟨h, hh, hSame⟩ | hSame
  · subst hSame
    have hNew : added.id ∉ h.subgroups := by
      intro hListed
      rcases hListing.subgroups h hh _ hListed with
        ⟨k, hk, hIdK, _⟩
      have hNext := hListing.ids.next_not_mem
      rw [List.length_map] at hNext
      rw [hId] at hIdK
      exact hNext (List.mem_map.mpr ⟨k, hk, hIdK⟩)
    unfold grown
    split
    · have hMore :=
        List.perm_append_singleton added.id h.subgroups
      exact
        hMore.nodup_iff.mpr
          (List.nodup_cons.mpr ⟨hNew, hOnce h hh⟩)
    · exact hOnce h hh
  · simp [hSame, hEmpty]

/- Entering the groups of a path lists each new group once. -/
theorem Forest.enter_listsOnce
    (settings : GroupSettings)
    (hForest : Forest nodes state)
    (hOnce : ListsOnce state.groups)
    {parent : Option String}
    (hParent : ∀ p, parent = some p →
      p ∈ state.groups.map MapGroup.id)
    (level : Nat)
    (sections : List Section) :
    ListsOnce
      (Grouping.enter settings state parent level
        sections).1.groups := by
  induction sections generalizing state parent level with
  | nil => exact hOnce
  | cons s sections ih =>
      cases hFound : state.bySection.lookup s.id with
      | some id =>
          rw [Grouping.enter, hFound]
          refine ih hForest hOnce ?_ (level + 1)
          intro p hSame
          exact
            Option.some.inj hSame ▸
              hForest.entries s.id id hFound
      | none =>
          rcases hForest.addGroup settings hParent level s with
            ⟨hNext, hKnown⟩
          have hMore :
              ListsOnce
                (Grouping.addGroup settings state parent level
                  s).1.groups := by
            rw [addGroup_eq hForest.listing.ids.nodup]
            exact hOnce.withGroup hForest.listing rfl rfl
          rw [Grouping.enter, hFound]
          refine ih hNext hMore ?_ (level + 1)
          intro p hSame
          exact Option.some.inj hSame ▸ hKnown

/- Placing a node lists each new group once. -/
theorem Forest.placeNode_listsOnce
    (m : Model)
    (settings : GroupSettings)
    (hForest : Forest nodes state)
    (hOnce : ListsOnce state.groups)
    (n : MapNode) :
    ListsOnce
      (Grouping.placeNode m settings state n).1.groups := by
  cases hSection : n.sectionId with
  | none =>
      rw [Grouping.placeNode, hSection]
      exact hOnce
  | some sectionId =>
      have hOutside : ∀ p, (none : Option String) = some p →
          p ∈ state.groups.map MapGroup.id := by
        simp
      have hEntered :=
        hForest.enter_listsOnce settings hOnce hOutside 1
          (path m settings sectionId)
      rcases hForest.enter settings (path m settings sectionId)
          hOutside 1 with
        ⟨next, innermost, hEnter, hNext, _⟩
      rw [hEnter] at hEntered
      cases innermost with
      | none =>
          unfold Grouping.placeNode
          simp only [hSection, hEnter]
          exact hEntered
      | some id =>
          rw [placeNode_eq hSection hEnter
            hNext.listing.ids.nodup]
          intro g hg
          rcases List.mem_map.mp hg with ⟨h, hh, rfl⟩
          rw [(joined_keeps id n.id h).2.2.2]
          exact hEntered h hh

end Grouping

namespace ArgumentMap

variable {map : ArgumentMap}

/-
  The nodes of a plain map keep their ids when they are put
  into groups, and these are a forest that lists each group
  once.
-/
theorem Plain.buildGroups_forest
    (hMap : map.Plain)
    (m : Model)
    (settings : GroupSettings) :
    (map.buildGroups m settings).nodes.map MapNode.id =
        map.nodes.map MapNode.id ∧
      Grouping.Listing (map.buildGroups m settings).groups ∧
      Grouping.ListsOnce (map.buildGroups m settings).groups := by
  have hStart :
      Grouping.Forest [] ⟨map.groups, []⟩ ∧
        Grouping.ListsOnce map.groups := by
    rw [hMap.noGroups]
    refine
      ⟨⟨⟨Numbered.nil 'g', ?_, ?_, ?_⟩, ⟨?_, ?_, ?_⟩,
        ⟨fun _ => 0, ?_⟩, ?_⟩, ?_⟩
    all_goals simp [Grouping.ListsOnce]
  have hPlain : ∀ n ∈ map.nodes, n.group = none := fun n hn =>
    hMap.nodes.ungrouped _ (List.mem_map.mpr ⟨n, hn, rfl⟩)
  have hStep : ∀ {nodes state n},
      Grouping.Forest nodes state ∧
          Grouping.ListsOnce state.groups →
        n.group = none → (∀ k ∈ nodes, k.id ≠ n.id) →
          Grouping.Forest
              (nodes
                ++ [(Grouping.placeNode m settings state n).2])
              (Grouping.placeNode m settings state n).1 ∧
            Grouping.ListsOnce
              (Grouping.placeNode m settings state
                n).1.groups := by
    intro nodes state n hKept hGroup hNew
    exact
      ⟨hKept.1.placeNode m settings hGroup hNew,
        hKept.1.placeNode_listsOnce m settings hKept.2 n⟩
  have hPlaced :=
    Grouping.placeNodes_kept settings hStep hStart hPlain
      (by simpa using hMap.nodes.ids.nodup)
  exact ⟨hPlaced.1, hPlaced.2.1.listing, hPlaced.2.2⟩

/- A plain map with its nodes in groups is tidy. -/
theorem Plain.buildGroups_tidy
    (hMap : map.Plain)
    (m : Model)
    (settings : GroupSettings) :
    (map.buildGroups m settings).Tidy := by
  rcases hMap.buildGroups_nested m settings with
    ⟨hNested, hFresh⟩
  exact
    ⟨hNested, (hMap.buildGroups_forest m settings).2.2,
      fun g hg hCollapsed => absurd hCollapsed (hFresh g hg)⟩

------------------------------------------------------------
-- Changes of Tidy Maps
------------------------------------------------------------

/-
  Replacing a closed group by a node keeps a map tidy.  The
  group itself is emptied, and groups that were replaced before
  do not get its node, as none of them lists it.
-/
theorem Collapsible.tidy
    {g : MapGroup}
    (hMap : map.Tidy)
    (hg : Collapsible map g) :
    (map.collapseGroup g.id).Tidy where
  nested := hg.nested hMap.nested
  unrepeated := by
    intro h hh
    rcases (hg.mem_groups hMap.nested h).mp hh with
      ⟨k, hk, _, hSame⟩
    subst hSame
    have hOnce := hMap.unrepeated k hk
    unfold changed
    split
    · exact List.nodup_nil
    · split
      · exact hOnce.filter _
      · exact hOnce
  hollow := by
    intro h hh hCollapsed
    rcases (hg.mem_groups hMap.nested h).mp hh with
      ⟨k, hk, _, hSame⟩
    subst hSame
    rw [hg.isCollapsed_iff hMap.nested hk] at hCollapsed
    unfold changed
    rcases hCollapsed with hSelf | hBefore
    · simp [hSelf, MapGroup.isEmpty]
    · have hEmpty := hMap.hollow k hk hBefore
      have hApart : g.parent ≠ some k.id := by
        intro hParent
        have hListed :=
          hMap.nested.listed g hg.mem hg.notYet k hk hParent
        rw [isEmpty_eq_false_of_listed hListed] at hEmpty
        cases hEmpty
      have hOther : k.id ≠ g.id := by
        intro hSame
        rw [group_eq hMap.nested.groupIds hk hg.mem hSame]
          at hBefore
        exact hg.notYet hBefore
      rw [if_neg hOther, if_neg hApart]
      exact hEmpty

/- Merging edges keeps a map tidy. -/
theorem Tidy.mergeEdges (hMap : map.Tidy) :
    map.mergeEdges.Tidy :=
  ⟨hMap.nested.mergeEdges, hMap.unrepeated, hMap.hollow⟩

/-
  What holds of a nested map, and stays so when a closed group
  is replaced and when edges are merged, holds when all closed
  groups have been replaced.
-/
theorem Nested.collapse_kept
    {Kept : ArgumentMap → Prop}
    (hStep : ∀ {map : ArgumentMap} {g : MapGroup},
      map.Nested → Collapsible map g → Kept map →
        Kept (map.collapseGroup g.id))
    (hMerge : ∀ {map : ArgumentMap}, Kept map →
      Kept map.mergeEdges)
    (hMap : map.Nested)
    (hKept : Kept map) :
    Kept map.collapse.1 := by
  unfold ArgumentMap.collapse
  by_cases hNone : map.outermostClosed.isEmpty = true
  · simp only [hNone, if_true]
    exact hKept
  · simp only [if_neg hNone]
    have hReplaced :=
      hMap.foldl_collapseGroup hStep hKept
        hMap.outermostClosed_nodup
        (fun _ => hMap.mem_outermostClosed_iff)
    exact hMerge hReplaced.2.1

/- Replacing all closed groups keeps a map tidy. -/
theorem Tidy.collapse (hMap : map.Tidy) :
    map.collapse.1.Tidy :=
  hMap.nested.collapse_kept (fun _ hg hTidy => hg.tidy hTidy)
    (fun hTidy => hTidy.mergeEdges) hMap

/- Changing colors keeps a map tidy. -/
theorem Tidy.recolored
    (hMap : map.Tidy)
    (nodeColor : MapNode → Option String)
    (edgeColor : MapEdge → Option String)
    (groupColor : MapGroup → Option String) :
    Tidy (map.recolored nodeColor edgeColor groupColor) where
  nested := hMap.nested.recolored
  unrepeated := by
    simpa [ArgumentMap.recolored] using hMap.unrepeated
  hollow := by
    simpa [ArgumentMap.recolored, IsCollapsed,
      MapGroup.isEmpty] using hMap.hollow

end ArgumentMap

end Dialectic
