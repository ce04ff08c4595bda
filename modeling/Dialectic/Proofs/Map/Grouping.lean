import Dialectic.Proofs.Map.Forest
import Dialectic.Proofs.Model.Sections

/-
  Putting the nodes of a plain map into groups gives an
  arranged map if the sections are in order: the groups follow
  the sections, so a section has the same group on every path
  through it.

  Key definitions include:
    * `Grouping.Placed`
    * `Grouping.Tree`
    * `Grouping.Steady`

  Main theorems:
    * `Grouping.Tree.addGroup`
    * `Grouping.Steady.enter`
    * `Grouping.Steady.placeNode`
    * `ArgumentMap.Plain.buildGroups_arranged`
-/

namespace Dialectic

namespace Grouping

------------------------------------------------------------
-- Groups of Sections
------------------------------------------------------------

/- The group of the last section on a path, if there is one. -/
def lastGroup
    (table : List (Nat × String))
    (path : List Section) : Option String :=
  path.getLast?.bind (fun s => table.lookup s.id)

/-
  A group stands for a section: its level is the place of the
  section on its path, and its parent is the group of the
  section before it.
-/
structure Placed
    (m : Model)
    (table : List (Nat × String))
    (g : MapGroup)
    (sectionId : Nat) : Prop where
  path : ∃ before s,
    m.groupPath sectionId = before ++ [s] ∧
      g.level = before.length + 1 ∧
      g.parent = lastGroup table before ∧
      (before ≠ [] → g.parent ≠ none)

/-
  The groups so far form a tree that follows the sections: the
  table leads from sections to their groups, and groups list
  exactly those of which they are the parent.
-/
structure Tree (m : Model) (state : State) : Prop where
  ids : Numbered 'g' (state.groups.map MapGroup.id)
  entries : ∀ sectionId id,
    state.bySection.lookup sectionId = some id →
      ∃ g ∈ state.groups,
        g.id = id ∧ Placed m state.bySection g sectionId
  placed : ∀ g ∈ state.groups,
    ∃ sectionId, Placed m state.bySection g sectionId
  subgroups : ∀ h ∈ state.groups, ∀ id ∈ h.subgroups,
    ∃ g ∈ state.groups, g.id = id ∧ g.parent = some h.id
  listed : ∀ g ∈ state.groups, ∀ h ∈ state.groups,
    g.parent = some h.id → g.id ∈ h.subgroups

/- No group is empty, except perhaps the one just entered. -/
def FilledBut
    (pending : Option String)
    (groups : List MapGroup) : Prop :=
  ∀ g ∈ groups, pending ≠ some g.id →
    g.nodes ≠ [] ∨ g.subgroups ≠ []

variable {m : Model}
variable {state : State}

------------------------------------------------------------
-- New Groups
------------------------------------------------------------

/- The last group on a path is that of its last section. -/
theorem Tree.lastGroup_mem
    (hTree : Tree m state)
    {path : List Section}
    {p : String}
    (hLast : lastGroup state.bySection path = some p) :
    ∃ t, path.getLast? = some t ∧
      ∃ h ∈ state.groups,
        h.id = p ∧ Placed m state.bySection h t.id := by
  rcases Option.bind_eq_some_iff.mp hLast with
    ⟨t, hPath, hFound⟩
  exact ⟨t, hPath, hTree.entries t.id p hFound⟩

/- The parent of a group is a group. -/
theorem Tree.parent_mem
    (hTree : Tree m state)
    {g : MapGroup}
    (hg : g ∈ state.groups)
    {p : String}
    (hParent : g.parent = some p) :
    p ∈ state.groups.map MapGroup.id := by
  rcases hTree.placed g hg with
    ⟨_, ⟨before, s, _, _, hLast, _⟩⟩
  rw [hParent] at hLast
  rcases hTree.lastGroup_mem hLast.symm with
    ⟨_, _, h, hh, hId, _⟩
  exact List.mem_map.mpr ⟨h, hh, hId⟩

/- A tree lists its groups. -/
theorem Tree.listing (hTree : Tree m state) :
    Listing state.groups where
  ids := hTree.ids
  parents := fun _ hg _ hParent =>
    hTree.parent_mem hg hParent
  subgroups := hTree.subgroups
  listed := hTree.listed

/-
  A new entry of the table does not move groups, as sections
  that have a group keep theirs.
-/
theorem lastGroup_cons
    {table : List (Nat × String)}
    {sectionId : Nat}
    (id : String)
    (hNew : table.lookup sectionId = none)
    {path : List Section}
    (hKnown : path ≠ [] → lastGroup table path ≠ none) :
    lastGroup ((sectionId, id) :: table) path =
      lastGroup table path := by
  unfold lastGroup at hKnown ⊢
  cases hLast : path.getLast? with
  | none => rfl
  | some t =>
      have hNotNil : path ≠ [] := by
        intro hNil
        simp [hNil] at hLast
      have hFound := hKnown hNotNil
      rw [hLast] at hFound
      have hOther : (t.id == sectionId) = false := by
        rw [beq_eq_false_iff_ne]
        intro hSame
        exact hFound (by simp [hSame, hNew])
      simp [List.lookup_cons, hOther]

/- A group stays where it is when the table grows. -/
theorem Placed.cons
    {table : List (Nat × String)}
    {g h : MapGroup}
    {sectionId newSection : Nat}
    (id : String)
    (hPlaced : Placed m table g sectionId)
    (hNew : table.lookup newSection = none)
    (hLevel : h.level = g.level)
    (hParent : h.parent = g.parent) :
    Placed m ((newSection, id) :: table) h sectionId := by
  rcases hPlaced with
    ⟨before, s, hPath, hPlace, hLast, hKnown⟩
  refine ⟨before, s, hPath, hLevel.trans hPlace, ?_, ?_⟩
  · rw [lastGroup_cons id hNew (hLast ▸ hKnown)]
    exact hParent.trans hLast
  · rw [hParent]
    exact hKnown

/- Adding the group of a section that has none keeps a tree. -/
theorem Tree.addGroup
    (hTree : Tree m state)
    (settings : GroupSettings)
    {before : List Section}
    {s : Section}
    (hPath : m.groupPath s.id = before ++ [s])
    (hKnown :
      before ≠ [] → lastGroup state.bySection before ≠ none)
    (hNew : state.bySection.lookup s.id = none) :
    Tree m
      (Grouping.addGroup settings state
        (lastGroup state.bySection before)
        (before.length + 1) s).1 := by
  rw [addGroup_eq hTree.ids.nodup]
  generalize hAdded :
    newGroup settings state (lastGroup state.bySection before)
      (before.length + 1) s = added
  have hId : added.id = "g" ++ toString state.groups.length := by
    rw [← hAdded]
    rfl
  have hParent :
      added.parent = lastGroup state.bySection before := by
    rw [← hAdded]
    rfl
  have hLevel : added.level = before.length + 1 := by
    rw [← hAdded]
    rfl
  have hNoSubgroups : added.subgroups = [] := by
    rw [← hAdded]
    rfl
  have hAround : ∀ p, added.parent = some p →
      p ∈ state.groups.map MapGroup.id := by
    intro p hAbove
    rw [hParent] at hAbove
    rcases hTree.lastGroup_mem hAbove with
      ⟨_, _, h, hh, hSame, _⟩
    exact List.mem_map.mpr ⟨h, hh, hSame⟩
  have hListing :=
    hTree.listing.withGroup hId hAround hNoSubgroups
  have hPlaced :
      Placed m ((s.id, added.id) :: state.bySection) added
        s.id := by
    refine ⟨before, s, hPath, hLevel, ?_, ?_⟩
    · rw [lastGroup_cons added.id hNew hKnown, hParent]
    · rw [hParent]
      exact hKnown
  refine
    ⟨hListing.ids, ?_, ?_, hListing.subgroups,
      hListing.listed⟩
  · -- entries
    intro sectionId id hFound
    by_cases hHere : sectionId = s.id
    · have hSame : added.id = id := by
        simpa [List.lookup_cons, hHere] using hFound
      rw [hHere]
      exact
        ⟨added, (mem_withGroup _ _).mpr (Or.inr rfl), hSame,
          hPlaced⟩
    · have hNot : (sectionId == s.id) = false := by
        simpa using hHere
      rw [List.lookup_cons, hNot] at hFound
      rcases hTree.entries sectionId id hFound with
        ⟨g, hg, hSame, hOld⟩
      refine
        ⟨grown _ added.id g,
          (mem_withGroup _ _).mpr (Or.inl ⟨g, hg, rfl⟩), ?_,
          ?_⟩
      · rw [grown_id, hSame]
      · exact hOld.cons added.id hNew (by simp) (by simp)
  · -- placed
    intro g hg
    rcases (mem_withGroup added g).mp hg with
      ⟨h, hh, hSame⟩ | hSame
    · rcases hTree.placed h hh with ⟨sectionId, hOld⟩
      rw [← hSame]
      exact
        ⟨sectionId,
          hOld.cons added.id hNew (by simp) (by simp)⟩
    · rw [hSame]
      exact ⟨s.id, hPlaced⟩

------------------------------------------------------------
-- Entering Groups
------------------------------------------------------------

/-
  The groups form a tree and hold the given nodes, and none is
  empty but the one that has just been entered.
-/
structure Steady
    (m : Model)
    (pending : Option String)
    (nodes : List MapNode)
    (state : State) : Prop where
  tree : Tree m state
  filled : FilledBut pending state.groups
  holding : Holding state.groups nodes

/- The new group is the only one that is still empty. -/
theorem Steady.addGroup
    {nodes : List MapNode}
    {before : List Section}
    {s : Section}
    (hSteady :
      Steady m (lastGroup state.bySection before) nodes state)
    (settings : GroupSettings)
    (hPath : m.groupPath s.id = before ++ [s])
    (hKnown :
      before ≠ [] → lastGroup state.bySection before ≠ none)
    (hNew : state.bySection.lookup s.id = none) :
    Steady m
      (some
        (Grouping.addGroup settings state
          (lastGroup state.bySection before)
          (before.length + 1) s).2)
      nodes
      (Grouping.addGroup settings state
        (lastGroup state.bySection before)
        (before.length + 1) s).1 := by
  have hTree :=
    hSteady.tree.addGroup settings hPath hKnown hNew
  refine ⟨hTree, ?_, ?_⟩
  all_goals rw [addGroup_eq hSteady.tree.ids.nodup]
  · intro g hg hOther
    rcases (mem_withGroup _ g).mp hg with
      ⟨h, hh, hSame⟩ | hAdded
    · subst hSame
      by_cases hHere :
          lastGroup state.bySection before = some h.id
      · right
        intro hEmpty
        have hListed :=
          (mem_grown_subgroups
            (lastGroup state.bySection before)
            (newGroup settings state
              (lastGroup state.bySection before)
              (before.length + 1) s).id h _).mpr
            (Or.inr ⟨hHere, rfl⟩)
        rw [newGroup_parent] at hEmpty
        rw [hEmpty] at hListed
        simp at hListed
      · simpa [grown, newGroup_parent, hHere]
          using hSteady.filled h hh hHere
    · rw [hAdded] at hOther
      exact absurd rfl hOther
  · exact hSteady.holding.withGroup rfl

/-
  A group that is entered again fills its parent: it is the
  same group on every path, so its parent lists it.
-/
theorem Steady.enterKnown
    {nodes : List MapNode}
    {before : List Section}
    {s : Section}
    (hSteady :
      Steady m (lastGroup state.bySection before) nodes state)
    (hPath : m.groupPath s.id = before ++ [s])
    {id : String}
    (hFound : state.bySection.lookup s.id = some id) :
    Steady m (some id) nodes state := by
  refine ⟨hSteady.tree, ?_, hSteady.holding⟩
  intro g hg _
  by_cases hHere :
      lastGroup state.bySection before = some g.id
  · right
    rcases hSteady.tree.entries s.id id hFound with
      ⟨c, hc, _, ⟨around, t, hAround, _, hParent, _⟩⟩
    have hSame : around = before := by
      rw [hPath] at hAround
      exact (List.append_inj' hAround rfl).1.symm
    rw [hSame, hHere] at hParent
    have hListed := hSteady.tree.listed c hc g hg hParent
    intro hEmpty
    rw [hEmpty] at hListed
    simp at hListed
  · exact hSteady.filled g hg hHere

/- The group of a path with one more section at its end. -/
theorem lastGroup_concat
    (table : List (Nat × String))
    (before : List Section)
    (s : Section) :
    lastGroup table (before ++ [s]) = table.lookup s.id := by
  simp [lastGroup]

/- Entering the groups of the rest of a path. -/
theorem Steady.enter
    {nodes : List MapNode}
    {before rest : List Section}
    (settings : GroupSettings)
    (hPaths : ∀ first s after,
      before ++ rest = first ++ s :: after →
        m.groupPath s.id = first ++ [s])
    (hKnown :
      before ≠ [] → lastGroup state.bySection before ≠ none)
    (hSteady :
      Steady m (lastGroup state.bySection before) nodes
        state) :
    ∃ next innermost,
      Grouping.enter settings state
          (lastGroup state.bySection before)
          (before.length + 1) rest =
        (next, innermost) ∧
        Steady m innermost nodes next ∧
        ∀ id, innermost = some id →
          id ∈ next.groups.map MapGroup.id := by
  induction rest generalizing before state with
  | nil =>
      refine ⟨state, lastGroup state.bySection before, rfl,
        hSteady, ?_⟩
      intro id hLast
      rcases hSteady.tree.lastGroup_mem hLast with
        ⟨_, _, h, hh, hId, _⟩
      exact List.mem_map.mpr ⟨h, hh, hId⟩
  | cons s rest ih =>
      have hPath := hPaths before s rest rfl
      have hLater : ∀ first t after,
          (before ++ [s]) ++ rest = first ++ t :: after →
            m.groupPath t.id = first ++ [t] := by
        intro first t after hSplit
        apply hPaths first t after
        rw [← hSplit, List.append_assoc]
        rfl
      cases hFound : state.bySection.lookup s.id with
      | some id =>
          have hLast :
              lastGroup state.bySection (before ++ [s]) =
                some id := by
            rw [lastGroup_concat, hFound]
          have hEntered :
              Steady m (lastGroup state.bySection (before ++ [s]))
                nodes state :=
            hLast ▸ hSteady.enterKnown hPath hFound
          have hNext := ih hLater (by simp [hLast]) hEntered
          rw [hLast, List.length_append] at hNext
          simpa [Grouping.enter, hFound] using hNext
      | none =>
          have hAdded :=
            hSteady.addGroup settings hPath hKnown hFound
          rcases hState :
            Grouping.addGroup settings state
              (lastGroup state.bySection before)
              (before.length + 1) s with
            ⟨added, id⟩
          rw [hState] at hAdded
          have hLast :
              lastGroup added.bySection (before ++ [s]) =
                some id := by
            rw [lastGroup_concat]
            rw [addGroup_eq hSteady.tree.ids.nodup,
              Prod.mk.injEq] at hState
            rw [← hState.1, ← hState.2]
            simp
          have hEntered :
              Steady m (lastGroup added.bySection (before ++ [s]))
                nodes added :=
            hLast ▸ hAdded
          have hNext := ih hLater (by simp [hLast]) hEntered
          rw [hLast, List.length_append] at hNext
          simpa [Grouping.enter, hFound, hState] using hNext

------------------------------------------------------------
-- Placing Nodes
------------------------------------------------------------

/- Putting a node into a group keeps a tree. -/
theorem Tree.join
    (hTree : Tree m state)
    (id node : String) :
    Tree m
      { state with
        groups := state.groups.map (joined id node) } := by
  have hKeeps := joined_keeps id node
  have hListing := hTree.listing.join id node
  refine
    ⟨hListing.ids, ?_, ?_, hListing.subgroups,
      hListing.listed⟩
  · intro sectionId other hFound
    rcases hTree.entries sectionId other hFound with
      ⟨g, hg, hId, ⟨before, s, hPath, hLevel, hParent, hKnown⟩⟩
    refine
      ⟨joined id node g, List.mem_map.mpr ⟨g, hg, rfl⟩,
        (hKeeps g).1.trans hId, ⟨before, s, hPath, ?_, ?_, ?_⟩⟩
    · rw [(hKeeps g).2.1, hLevel]
    · rw [(hKeeps g).2.2.1, hParent]
    · rw [(hKeeps g).2.2.1]
      exact hKnown
  · intro g hg
    rcases List.mem_map.mp hg with ⟨h, hh, hSame⟩
    subst hSame
    rcases hTree.placed h hh with
      ⟨sectionId, ⟨before, s, hPath, hLevel, hParent, hKnown⟩⟩
    refine ⟨sectionId, ⟨before, s, hPath, ?_, ?_, ?_⟩⟩
    · rw [(hKeeps h).2.1, hLevel]
    · rw [(hKeeps h).2.2.1, hParent]
    · rw [(hKeeps h).2.2.1]
      exact hKnown

/- A node that is in no group keeps groups steady. -/
theorem Steady.ungrouped
    {nodes : List MapNode}
    {n : MapNode}
    (hSteady : Steady m none nodes state)
    (hGroup : n.group = none) :
    Steady m none (nodes ++ [n]) state :=
  ⟨hSteady.tree, hSteady.filled,
    hSteady.holding.ungrouped hGroup⟩

/- A node that is put into the group entered fills it. -/
theorem Steady.join
    {nodes : List MapNode}
    {n : MapNode}
    {id : String}
    (hSteady : Steady m (some id) nodes state)
    (hId : id ∈ state.groups.map MapGroup.id)
    (hNew : ∀ k ∈ nodes, k.id ≠ n.id) :
    Steady m none (nodes ++ [{ n with group := some id }])
      { state with
        groups := state.groups.map (joined id n.id) } := by
  refine
    ⟨hSteady.tree.join id n.id, ?_,
      hSteady.holding.join hId hNew⟩
  intro g hg _
  rcases List.mem_map.mp hg with ⟨h, hh, hSame⟩
  subst hSame
  by_cases hHere : h.id = id
  · left
    simp [joined, hHere]
  · have hOld :=
      hSteady.filled h hh
        (fun hSame => hHere (Option.some.inj hSame).symm)
    simpa [joined, hHere] using hOld

/- Each section on the path to a node ends its own path. -/
theorem path_of_split
    (hOrdered : SectionsOrdered m.sections)
    (settings : GroupSettings)
    {sectionId : Nat}
    {first after : List Section}
    {s : Section}
    (hPath : path m settings sectionId = first ++ s :: after) :
    m.groupPath s.id = first ++ [s] := by
  have hWhole :
      m.groupPath sectionId =
        first ++ s ::
          (after
            ++ (m.groupPath sectionId).drop
              settings.groupDepth) := by
    conv_lhs =>
      rw [← List.take_append_drop settings.groupDepth
        (m.groupPath sectionId)]
    have hTake :
        (m.groupPath sectionId).take settings.groupDepth =
          first ++ s :: after := hPath
    rw [hTake]
    simp
  exact Model.groupPath_of_split hOrdered hWhole

/- Placing a node keeps groups steady. -/
theorem Steady.placeNode
    (hOrdered : SectionsOrdered m.sections)
    (settings : GroupSettings)
    {nodes : List MapNode}
    {n : MapNode}
    (hSteady : Steady m none nodes state)
    (hGroup : n.group = none)
    (hNew : ∀ k ∈ nodes, k.id ≠ n.id) :
    Steady m none
      (nodes ++ [(Grouping.placeNode m settings state n).2])
      (Grouping.placeNode m settings state n).1 := by
  cases hSection : n.sectionId with
  | none =>
      unfold Grouping.placeNode
      rw [hSection]
      exact hSteady.ungrouped hGroup
  | some sectionId =>
      have hOutside :
          Steady m (lastGroup state.bySection []) nodes state :=
        hSteady
      have hPaths : ∀ first s after,
          [] ++ path m settings sectionId = first ++ s :: after →
            m.groupPath s.id = first ++ [s] :=
        fun _ _ _ hSplit =>
          path_of_split hOrdered settings hSplit
      rcases Steady.enter settings hPaths (by simp) hOutside with
        ⟨next, innermost, hEnter, hNext, hKnown⟩
      have hEntered :
          Grouping.enter settings state none 1
              (path m settings sectionId) =
            (next, innermost) := hEnter
      cases innermost with
      | none =>
          unfold Grouping.placeNode
          simp only [hSection, hEntered]
          exact hNext.ungrouped hGroup
      | some id =>
          rw [placeNode_eq hSection hEntered
            hNext.tree.ids.nodup]
          exact hNext.join (hKnown id rfl) hNew

end Grouping

------------------------------------------------------------
-- Maps
------------------------------------------------------------

namespace ArgumentMap

/- The parent of a group is one level above it. -/
theorem tree_parent
    {m : Model}
    {state : Grouping.State}
    (hOrdered : SectionsOrdered m.sections)
    (hTree : Grouping.Tree m state)
    {g : MapGroup}
    (hg : g ∈ state.groups)
    {p : String}
    (hParent : g.parent = some p) :
    ∃ h ∈ state.groups, h.id = p ∧ g.level = h.level + 1 := by
  rcases hTree.placed g hg with
    ⟨_, ⟨before, s, hPath, hLevel, hLast, _⟩⟩
  rw [hParent] at hLast
  rcases hTree.lastGroup_mem hLast.symm with
    ⟨t, hEnd, h, hh, hId, ⟨around, u, hAround, hAbove, _, _⟩⟩
  refine ⟨h, hh, hId, ?_⟩
  rcases List.getLast?_eq_some_iff.mp hEnd with ⟨first, hFirst⟩
  have hSplit : before ++ [s] = first ++ t :: [s] := by
    rw [hFirst, List.append_assoc]
    rfl
  have hPrefix : m.groupPath t.id = first ++ [t] :=
    Model.groupPath_of_split hOrdered (hPath.trans hSplit)
  rw [hPrefix] at hAround
  have hSame := (List.append_inj' hAround rfl).1
  rw [hLevel, hAbove, ← hSame, hFirst]
  simp

/-
  Putting the nodes of a plain map into groups gives an
  arranged map.
-/
theorem Plain.buildGroups_arranged
    {map : ArgumentMap}
    {m : Model}
    (hMap : map.Plain)
    (hOrdered : SectionsOrdered m.sections)
    (settings : GroupSettings) :
    (map.buildGroups m settings).Arranged := by
  have hStart :
      Grouping.Steady m none [] ⟨map.groups, []⟩ := by
    rw [hMap.noGroups]
    refine ⟨⟨Numbered.nil 'g', ?_, ?_, ?_, ?_⟩, ?_, ?_, ?_, ?_⟩
    · intro sectionId id hFound
      simp at hFound
    all_goals simp [Grouping.FilledBut]
  have hPlain : ∀ n ∈ map.nodes, n.group = none := fun n hn =>
    hMap.nodes.ungrouped _ (List.mem_map.mpr ⟨n, hn, rfl⟩)
  have hPlaced :=
    (Grouping.placeNodes_kept settings
      (Grouping.Steady.placeNode hOrdered settings) hStart
      hPlain (by simpa using hMap.nodes.ids.nodup)).2
  have hNested := (hMap.buildGroups_nested m settings).1
  apply hNested.arranged
  · intro g hg h hh hParent
    rcases tree_parent hOrdered hPlaced.tree hg hParent with
      ⟨k, hk, hSame, hLevel⟩
    rw [hLevel, group_eq hNested.groupIds hk hh hSame]
  · exact fun g hg _ => hPlaced.filled g hg (by simp)

end ArgumentMap

end Dialectic
