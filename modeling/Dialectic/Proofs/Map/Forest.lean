import Dialectic.Map.Grouping
import Dialectic.Proofs.Map.Build

/-
  Putting the nodes of a plain map into groups nests them,
  whatever the sections of the model are: a new group is below
  one that exists, and every node joins a group that exists.

  Key definitions include:
    * `Grouping.Listing`
    * `Grouping.Holding`
    * `Grouping.Forest`

  Main theorems:
    * `Grouping.addGroup_eq`
    * `Grouping.Forest.enter`
    * `Grouping.placeNodes_kept`
    * `ArgumentMap.Plain.buildGroups_nested`
-/

namespace Dialectic

namespace Grouping

------------------------------------------------------------
-- Groups and Their Nodes
------------------------------------------------------------

/-
  The ids of groups are numbered, parents are groups, and
  groups list exactly those of which they are the parent.
-/
structure Listing (groups : List MapGroup) : Prop where
  ids : Numbered 'g' (groups.map MapGroup.id)
  parents : ∀ g ∈ groups, ∀ p, g.parent = some p →
    p ∈ groups.map MapGroup.id
  subgroups : ∀ h ∈ groups, ∀ id ∈ h.subgroups,
    ∃ g ∈ groups, g.id = id ∧ g.parent = some h.id
  listed : ∀ g ∈ groups, ∀ h ∈ groups,
    g.parent = some h.id → g.id ∈ h.subgroups

/-
  Groups list exactly the nodes that are in them, each once.
-/
structure Holding
    (groups : List MapGroup)
    (nodes : List MapNode) : Prop where
  members : ∀ g ∈ groups, ∀ id ∈ g.nodes,
    ∃ n ∈ nodes, n.id = id ∧ n.group = some g.id
  grouped : ∀ n ∈ nodes, ∀ id, n.group = some id →
    ∃ g ∈ groups, g.id = id ∧ n.id ∈ g.nodes
  unique : ∀ g ∈ groups, g.nodes.Nodup

/- Groups have a rank that is lower for their parents. -/
def Ranked (groups : List MapGroup) : Prop :=
  ∃ rank : String → Nat, ∀ g ∈ groups, ∀ p,
    g.parent = some p → rank p < rank g.id

/-
  The groups so far form a forest that holds the given nodes,
  and the table leads from sections to groups.
-/
structure Forest
    (nodes : List MapNode)
    (state : State) : Prop where
  listing : Listing state.groups
  holding : Holding state.groups nodes
  ranked : Ranked state.groups
  entries : ∀ sectionId id,
    state.bySection.lookup sectionId = some id →
      id ∈ state.groups.map MapGroup.id

variable {m : Model}
variable {state : State}
variable {groups : List MapGroup}
variable {nodes : List MapNode}

------------------------------------------------------------
-- New Groups
------------------------------------------------------------

/- A group when another one is added below a parent. -/
def grown
    (parent : Option String)
    (id : String)
    (h : MapGroup) : MapGroup :=
  if parent = some h.id then
    { h with subgroups := h.subgroups ++ [id] }
  else
    h

/- A group keeps its id. -/
@[simp]
theorem grown_id
    (parent : Option String)
    (id : String)
    (h : MapGroup) :
    (grown parent id h).id = h.id := by
  unfold grown
  split <;> rfl

/- A group keeps its parent. -/
@[simp]
theorem grown_parent
    (parent : Option String)
    (id : String)
    (h : MapGroup) :
    (grown parent id h).parent = h.parent := by
  unfold grown
  split <;> rfl

/- A group keeps its level. -/
@[simp]
theorem grown_level
    (parent : Option String)
    (id : String)
    (h : MapGroup) :
    (grown parent id h).level = h.level := by
  unfold grown
  split <;> rfl

/- A group keeps its nodes. -/
@[simp]
theorem grown_nodes
    (parent : Option String)
    (id : String)
    (h : MapGroup) :
    (grown parent id h).nodes = h.nodes := by
  unfold grown
  split <;> rfl

/- The parent lists the new group. -/
theorem mem_grown_subgroups
    (parent : Option String)
    (id : String)
    (h : MapGroup)
    (other : String) :
    other ∈ (grown parent id h).subgroups ↔
      other ∈ h.subgroups ∨
        (parent = some h.id ∧ other = id) := by
  unfold grown
  by_cases hParent : parent = some h.id <;> simp [hParent]

/- The groups when one has been added to its parent. -/
def withGroup
    (groups : List MapGroup)
    (added : MapGroup) : List MapGroup :=
  groups.map (grown added.parent added.id) ++ [added]

/- The old groups are there, and the one that was added. -/
theorem mem_withGroup (added g : MapGroup) :
    g ∈ withGroup groups added ↔
      (∃ h ∈ groups, grown added.parent added.id h = g) ∨
        g = added := by
  simp [withGroup]

/- The ids of the groups, with that of the one added. -/
theorem ids_withGroup (added : MapGroup) :
    (withGroup groups added).map MapGroup.id =
      groups.map MapGroup.id ++ [added.id] := by
  have hKeep :
      MapGroup.id ∘ grown added.parent added.id =
        MapGroup.id := by
    funext h
    simp
  simp only [withGroup, List.map_append, List.map_map, hKeep,
    List.map_singleton]

/- The group that is added for a section. -/
def newGroup
    (settings : GroupSettings)
    (state : State)
    (parent : Option String)
    (level : Nat)
    (s : Section) : MapGroup :=
  { MapGroup.new ("g" ++ toString state.groups.length) s.title
      level with
    sectionId := some s.id
    parent := parent
    isClosed := isClosed settings s level }

/- The group that is added is below the given one. -/
theorem newGroup_parent
    (settings : GroupSettings)
    (parent : Option String)
    (level : Nat)
    (s : Section) :
    (newGroup settings state parent level s).parent = parent :=
  rfl

/- The state when a group has been added. -/
theorem addGroup_eq
    (hIds : (state.groups.map MapGroup.id).Nodup)
    (settings : GroupSettings)
    (parent : Option String)
    (level : Nat)
    (s : Section) :
    addGroup settings state parent level s =
      ( ⟨withGroup state.groups
            (newGroup settings state parent level s),
          (s.id, (newGroup settings state parent level s).id)
            :: state.bySection⟩,
        (newGroup settings state parent level s).id ) := by
  cases parent with
  | none =>
      have hSame :
          state.groups.map
              (grown none
                (newGroup settings state none level s).id) =
            state.groups.map id := by
        apply List.map_congr_left
        intro h _
        simp [grown]
      unfold withGroup
      rw [newGroup_parent, hSame, List.map_id]
      rfl
  | some p =>
      have hGrown :
          MapGroup.modify state.groups p (fun g =>
              { g with
                subgroups :=
                  g.subgroups
                    ++ ["g" ++ toString state.groups.length] }) =
            state.groups.map
              (grown (some p)
                ("g" ++ toString state.groups.length)) := by
        unfold MapGroup.modify
        rw [Sequence.modifyFirst_eq_map hIds]
        apply List.map_congr_left
        intro h _
        by_cases hHere : h.id = p
        · simp [grown, hHere]
        · have hNot : ¬ p = h.id := fun e => hHere e.symm
          simp [grown, hHere, hNot]
      unfold addGroup
      simp only
      rw [hGrown]
      rfl

/- Adding a group to its parent keeps the listing. -/
theorem Listing.withGroup
    (hListing : Listing groups)
    {added : MapGroup}
    (hId : added.id = "g" ++ toString groups.length)
    (hParent : ∀ p, added.parent = some p →
      p ∈ groups.map MapGroup.id)
    (hEmpty : added.subgroups = []) :
    Listing (withGroup groups added) := by
  have hNotOld : added.id ∉ groups.map MapGroup.id := by
    rw [hId]
    have hNext := hListing.ids.next_not_mem
    rw [List.length_map] at hNext
    exact hNext
  constructor
  · -- ids
    have hNext := hListing.ids.append
    rw [List.length_map] at hNext
    rw [ids_withGroup, hId]
    exact hNext
  · -- parents
    intro g hg p hAbove
    rw [ids_withGroup]
    apply List.mem_append_left
    rcases (mem_withGroup added g).mp hg with
      ⟨h, hh, hSame⟩ | hSame
    · subst hSame
      rw [grown_parent] at hAbove
      exact hListing.parents h hh p hAbove
    · exact hParent p (hSame ▸ hAbove)
  · -- subgroups
    intro h hh id hListed
    rcases (mem_withGroup added h).mp hh with
      ⟨k, hk, hSame⟩ | hSame
    · subst hSame
      rcases (mem_grown_subgroups _ _ _ _).mp hListed with
        hOld | ⟨hHere, hOwn⟩
      · rcases hListing.subgroups k hk id hOld with
          ⟨g, hg, hSame, hAbove⟩
        refine
          ⟨grown _ added.id g,
            (mem_withGroup _ _).mpr (Or.inl ⟨g, hg, rfl⟩),
            ?_, ?_⟩
        · rw [grown_id, hSame]
        · rw [grown_parent, grown_id, hAbove]
      · refine
          ⟨added, (mem_withGroup _ _).mpr (Or.inr rfl),
            hOwn.symm, ?_⟩
        rw [grown_id, hHere]
    · rw [hSame, hEmpty] at hListed
      simp at hListed
  · -- listed
    intro g hg h hh hAbove
    rcases (mem_withGroup added g).mp hg with
      ⟨k, hk, hSame⟩ | hSame
    · subst hSame
      rw [grown_parent] at hAbove
      rw [grown_id]
      rcases (mem_withGroup added h).mp hh with
        ⟨l, hl, hEq⟩ | hEq
      · subst hEq
        rw [grown_id] at hAbove
        exact
          (mem_grown_subgroups _ _ _ _).mpr
            (Or.inl (hListing.listed k hk l hl hAbove))
      · rw [hEq] at hAbove
        exact absurd (hListing.parents k hk _ hAbove) hNotOld
    · subst hSame
      rcases (mem_withGroup g h).mp hh with
        ⟨l, hl, hEq⟩ | hEq
      · subst hEq
        rw [grown_id] at hAbove
        exact
          (mem_grown_subgroups _ _ _ _).mpr
            (Or.inr ⟨hAbove, rfl⟩)
      · rw [hEq] at hAbove
        exact absurd (hParent _ hAbove) hNotOld

/- A group without nodes holds none. -/
theorem Holding.withGroup
    (hHolding : Holding groups nodes)
    {added : MapGroup}
    (hEmpty : added.nodes = []) :
    Holding (withGroup groups added) nodes := by
  constructor
  · intro g hg id hListed
    rcases (mem_withGroup added g).mp hg with
      ⟨h, hh, hSame⟩ | hSame
    · subst hSame
      rw [grown_nodes] at hListed
      rw [grown_id]
      exact hHolding.members h hh id hListed
    · rw [hSame, hEmpty] at hListed
      simp at hListed
  · intro n hn id hGroup
    rcases hHolding.grouped n hn id hGroup with
      ⟨g, hg, hId, hListed⟩
    refine
      ⟨grown _ _ g,
        (mem_withGroup added _).mpr (Or.inl ⟨g, hg, rfl⟩),
        ?_, ?_⟩
    · rw [grown_id, hId]
    · rw [grown_nodes]
      exact hListed
  · intro g hg
    rcases (mem_withGroup added g).mp hg with
      ⟨h, hh, hSame⟩ | hSame
    · subst hSame
      rw [grown_nodes]
      exact hHolding.unique h hh
    · simp [hSame, hEmpty]

/- A new group gets the next rank after its parent. -/
theorem Ranked.withGroup
    (hRanked : Ranked groups)
    (hListing : Listing groups)
    {added : MapGroup}
    (hNew : added.id ∉ groups.map MapGroup.id)
    (hParent : ∀ p, added.parent = some p →
      p ∈ groups.map MapGroup.id) :
    Ranked (withGroup groups added) := by
  rcases hRanked with ⟨rank, hRank⟩
  have hOther : ∀ id ∈ groups.map MapGroup.id,
      id ≠ added.id := by
    intro id hOld hSame
    exact hNew (hSame ▸ hOld)
  refine
    ⟨fun id =>
      if id = added.id then
        rank (added.parent.getD "") + 1
      else rank id, ?_⟩
  intro g hg p hAbove
  rcases (mem_withGroup added g).mp hg with
    ⟨h, hh, hSame⟩ | hSame
  · subst hSame
    rw [grown_parent] at hAbove
    have hSelf :=
      hOther h.id (List.mem_map.mpr ⟨h, hh, rfl⟩)
    have hUpper := hOther p (hListing.parents h hh p hAbove)
    simpa [hSelf, hUpper] using hRank h hh p hAbove
  · subst hSame
    have hUpper := hOther p (hParent p hAbove)
    simp [hUpper, hAbove]

/- A forest stays one when a section gets its group. -/
theorem Forest.addGroup
    (settings : GroupSettings)
    (hForest : Forest nodes state)
    {parent : Option String}
    (hParent : ∀ p, parent = some p →
      p ∈ state.groups.map MapGroup.id)
    (level : Nat)
    (s : Section) :
    Forest nodes
        (Grouping.addGroup settings state parent level s).1 ∧
      (Grouping.addGroup settings state parent level s).2 ∈
        (Grouping.addGroup settings state parent level
          s).1.groups.map MapGroup.id := by
  rw [addGroup_eq hForest.listing.ids.nodup]
  refine ⟨⟨?_, ?_, ?_, ?_⟩, ?_⟩
  · exact hForest.listing.withGroup rfl hParent rfl
  · exact hForest.holding.withGroup rfl
  · apply hForest.ranked.withGroup hForest.listing _ hParent
    have hNext := hForest.listing.ids.next_not_mem
    rw [List.length_map] at hNext
    exact hNext
  · intro sectionId id hFound
    rw [ids_withGroup, List.mem_append, List.mem_singleton]
    by_cases hHere : sectionId = s.id
    · right
      simpa [List.lookup_cons, hHere, eq_comm] using hFound
    · left
      have hNot : (sectionId == s.id) = false := by
        simpa using hHere
      rw [List.lookup_cons, hNot] at hFound
      exact hForest.entries sectionId id hFound
  · rw [ids_withGroup]
    simp

------------------------------------------------------------
-- Placing Nodes
------------------------------------------------------------

/- A group when a node is put into that of an id. -/
def joined (id node : String) (h : MapGroup) : MapGroup :=
  if h.id = id then { h with nodes := h.nodes ++ [node] }
  else h

/- A group keeps all but its nodes. -/
theorem joined_keeps (id node : String) (h : MapGroup) :
    (joined id node h).id = h.id ∧
      (joined id node h).level = h.level ∧
      (joined id node h).parent = h.parent ∧
      (joined id node h).subgroups = h.subgroups := by
  unfold joined
  split <;> exact ⟨rfl, rfl, rfl, rfl⟩

/- The group of the id has the node, too. -/
theorem mem_joined_nodes
    (id node : String)
    (h : MapGroup)
    (other : String) :
    other ∈ (joined id node h).nodes ↔
      other ∈ h.nodes ∨ (h.id = id ∧ other = node) := by
  unfold joined
  by_cases hHere : h.id = id <;> simp [hHere]

/- Putting a node into a group keeps the listing. -/
theorem Listing.join
    (hListing : Listing groups)
    (id node : String) :
    Listing (groups.map (joined id node)) := by
  have hKeeps := joined_keeps id node
  have hIds :
      (groups.map (joined id node)).map MapGroup.id =
        groups.map MapGroup.id := by
    rw [List.map_map]
    apply List.map_congr_left
    exact fun h _ => (hKeeps h).1
  constructor
  · rw [hIds]
    exact hListing.ids
  · intro g hg p hParent
    rcases List.mem_map.mp hg with ⟨h, hh, hSame⟩
    subst hSame
    rw [(hKeeps h).2.2.1] at hParent
    rw [hIds]
    exact hListing.parents h hh p hParent
  · intro h hh other hListed
    rcases List.mem_map.mp hh with ⟨k, hk, hSame⟩
    subst hSame
    rw [(hKeeps k).2.2.2] at hListed
    rcases hListing.subgroups k hk other hListed with
      ⟨g, hg, hId, hParent⟩
    refine
      ⟨joined id node g, List.mem_map.mpr ⟨g, hg, rfl⟩,
        (hKeeps g).1.trans hId, ?_⟩
    rw [(hKeeps g).2.2.1, (hKeeps k).1, hParent]
  · intro g hg h hh hParent
    rcases List.mem_map.mp hg with ⟨k, hk, hSame⟩
    rcases List.mem_map.mp hh with ⟨l, hl, hEq⟩
    subst hSame
    subst hEq
    rw [(hKeeps k).2.2.1, (hKeeps l).1] at hParent
    rw [(hKeeps k).1, (hKeeps l).2.2.2]
    exact hListing.listed k hk l hl hParent

/- A node that is in no group is held by none. -/
theorem Holding.ungrouped
    (hHolding : Holding groups nodes)
    {n : MapNode}
    (hGroup : n.group = none) :
    Holding groups (nodes ++ [n]) := by
  refine ⟨?_, ?_, hHolding.unique⟩
  · intro g hg id hListed
    rcases hHolding.members g hg id hListed with
      ⟨k, hk, hId, hIn⟩
    exact ⟨k, List.mem_append_left _ hk, hId, hIn⟩
  · intro k hk id hIn
    rcases List.mem_append.mp hk with hOld | hNew
    · exact hHolding.grouped k hOld id hIn
    · rw [List.mem_singleton.mp hNew, hGroup] at hIn
      cases hIn

/- A node that is put into a group is held by it. -/
theorem Holding.join
    (hHolding : Holding groups nodes)
    {n : MapNode}
    {id : String}
    (hId : id ∈ groups.map MapGroup.id)
    (hNew : ∀ k ∈ nodes, k.id ≠ n.id) :
    Holding (groups.map (joined id n.id))
      (nodes ++ [{ n with group := some id }]) := by
  have hKeeps := joined_keeps id n.id
  refine ⟨?_, ?_, ?_⟩
  · intro g hg other hListed
    rcases List.mem_map.mp hg with ⟨h, hh, hSame⟩
    subst hSame
    rw [(hKeeps h).1]
    rcases (mem_joined_nodes id n.id h other).mp hListed with
      hOld | ⟨hHere, hOwn⟩
    · rcases hHolding.members h hh other hOld with
        ⟨k, hk, hSame, hIn⟩
      exact ⟨k, List.mem_append_left _ hk, hSame, hIn⟩
    · refine ⟨{ n with group := some id }, by simp, ?_, ?_⟩
      · exact hOwn.symm
      · rw [hHere]
  · intro k hk other hIn
    have hAnywhere : ∀ g ∈ groups,
        k.id ∈ (joined id n.id g).nodes → g.id = other →
          ∃ h ∈ groups.map (joined id n.id),
            h.id = other ∧ k.id ∈ h.nodes := by
      intro g hg hListed hSame
      exact
        ⟨_, List.mem_map.mpr ⟨g, hg, rfl⟩,
          (hKeeps g).1.trans hSame, hListed⟩
    rcases List.mem_append.mp hk with hOld | hAdded
    · rcases hHolding.grouped k hOld other hIn with
        ⟨g, hg, hSame, hListed⟩
      exact
        hAnywhere g hg
          ((mem_joined_nodes id n.id g k.id).mpr
            (Or.inl hListed)) hSame
    · rw [List.mem_singleton.mp hAdded] at hIn ⊢
      have hSame : id = other := Option.some.inj hIn
      rcases List.mem_map.mp hId with ⟨g, hg, hGroup⟩
      rw [List.mem_singleton.mp hAdded] at hAnywhere
      exact
        hAnywhere g hg
          ((mem_joined_nodes id n.id g n.id).mpr
            (Or.inr ⟨hGroup, rfl⟩)) (hGroup.trans hSame)
  · intro g hg
    rcases List.mem_map.mp hg with ⟨h, hh, hSame⟩
    subst hSame
    have hUnique := hHolding.unique h hh
    unfold joined
    split
    · rw [List.nodup_append]
      refine ⟨hUnique, by simp, ?_⟩
      intro x hx y hy hSame
      rw [List.mem_singleton.mp hy] at hSame
      rcases hHolding.members h hh x hx with
        ⟨k, hk, hEq, _⟩
      exact hNew k hk (hEq.trans hSame)
    · exact hUnique

/- A forest stays one when a node joins a group. -/
theorem Forest.join
    (hForest : Forest nodes state)
    {n : MapNode}
    {id : String}
    (hId : id ∈ state.groups.map MapGroup.id)
    (hNew : ∀ k ∈ nodes, k.id ≠ n.id) :
    Forest (nodes ++ [{ n with group := some id }])
      { state with
        groups := state.groups.map (joined id n.id) } := by
  have hKeeps := joined_keeps id n.id
  refine
    ⟨hForest.listing.join id n.id,
      hForest.holding.join hId hNew, ?_, ?_⟩
  · rcases hForest.ranked with ⟨rank, hRank⟩
    refine ⟨rank, ?_⟩
    intro g hg p hParent
    rcases List.mem_map.mp hg with ⟨h, hh, hSame⟩
    subst hSame
    rw [(hKeeps h).2.2.1] at hParent
    rw [(hKeeps h).1]
    exact hRank h hh p hParent
  · intro sectionId other hFound
    rcases List.mem_map.mp
        (hForest.entries sectionId other hFound) with
      ⟨h, hh, hSame⟩
    exact
      List.mem_map.mpr
        ⟨joined id n.id h, List.mem_map.mpr ⟨h, hh, rfl⟩,
          (hKeeps h).1.trans hSame⟩

/- A forest stays one when the groups of a path are entered. -/
theorem Forest.enter
    (settings : GroupSettings)
    (sections : List Section)
    (hForest : Forest nodes state)
    {parent : Option String}
    (hParent : ∀ p, parent = some p →
      p ∈ state.groups.map MapGroup.id)
    (level : Nat) :
    ∃ next innermost,
      Grouping.enter settings state parent level sections =
        (next, innermost) ∧
        Forest nodes next ∧
        ∀ id, innermost = some id →
          id ∈ next.groups.map MapGroup.id := by
  induction sections generalizing state parent level with
  | nil => exact ⟨state, parent, rfl, hForest, hParent⟩
  | cons s sections ih =>
      cases hFound : state.bySection.lookup s.id with
      | some id =>
          have hNext :=
            ih hForest
              (fun p hSame =>
                Option.some.inj hSame ▸
                  hForest.entries s.id id hFound)
              (level + 1)
          simpa [Grouping.enter, hFound] using hNext
      | none =>
          rcases hAdded :
            Grouping.addGroup settings state parent level s with
            ⟨added, id⟩
          have hGrown :=
            hForest.addGroup settings hParent level s
          rw [hAdded] at hGrown
          have hNext :=
            ih hGrown.1
              (fun p hSame => Option.some.inj hSame ▸ hGrown.2)
              (level + 1)
          simpa [Grouping.enter, hFound, hAdded] using hNext

/- A node keeps its id when it is put into a group. -/
theorem placeNode_id
    (settings : GroupSettings)
    (n : MapNode) :
    (placeNode m settings state n).2.id = n.id := by
  unfold placeNode
  split
  · rfl
  · simp only
    split <;> rfl

/- A node joins the innermost group that has been entered. -/
theorem placeNode_eq
    {settings : GroupSettings}
    {n : MapNode}
    {sectionId : Nat}
    {next : State}
    {id : String}
    (hSection : n.sectionId = some sectionId)
    (hEnter :
      enter settings state none 1 (path m settings sectionId) =
        (next, some id))
    (hIds : (next.groups.map MapGroup.id).Nodup) :
    placeNode m settings state n =
      ({ next with
          groups := next.groups.map (joined id n.id) },
        { n with group := some id }) := by
  have hJoined :
      MapGroup.modify next.groups id
          (fun g => { g with nodes := g.nodes ++ [n.id] }) =
        next.groups.map (joined id n.id) := by
    unfold MapGroup.modify
    rw [Sequence.modifyFirst_eq_map hIds]
    rfl
  unfold placeNode
  simp only [hSection, hEnter, hJoined]

/- A forest stays one when a node is placed. -/
theorem Forest.placeNode
    (m : Model)
    (settings : GroupSettings)
    {n : MapNode}
    (hForest : Forest nodes state)
    (hGroup : n.group = none)
    (hNew : ∀ k ∈ nodes, k.id ≠ n.id) :
    Forest
      (nodes ++ [(Grouping.placeNode m settings state n).2])
      (Grouping.placeNode m settings state n).1 := by
  have hStays : ∀ {next}, Forest nodes next →
      Forest (nodes ++ [n]) next := fun hNext =>
    ⟨hNext.listing, hNext.holding.ungrouped hGroup,
      hNext.ranked, hNext.entries⟩
  cases hSection : n.sectionId with
  | none =>
      unfold Grouping.placeNode
      rw [hSection]
      exact hStays hForest
  | some sectionId =>
      have hOutside : ∀ p, (none : Option String) = some p →
          p ∈ state.groups.map MapGroup.id := by
        simp
      rcases hForest.enter settings
          (path m settings sectionId) hOutside 1 with
        ⟨next, innermost, hEnter, hNext, hKnown⟩
      cases innermost with
      | none =>
          unfold Grouping.placeNode
          simp only [hSection, hEnter]
          exact hStays hNext
      | some id =>
          rw [placeNode_eq hSection hEnter
            hNext.listing.ids.nodup]
          exact hNext.join (hKnown id rfl) hNew

/-
  What is kept when a node is placed is kept when all nodes
  are placed, and these keep their ids.
-/
theorem placeNodes_kept
    {Kept : List MapNode → State → Prop}
    (settings : GroupSettings)
    (hStep : ∀ {nodes state n}, Kept nodes state →
      n.group = none → (∀ k ∈ nodes, k.id ≠ n.id) →
        Kept
          (nodes ++ [(placeNode m settings state n).2])
          (placeNode m settings state n).1)
    {later : List MapNode}
    (hKept : Kept nodes state)
    (hGroups : ∀ n ∈ later, n.group = none)
    (hIds :
      (nodes.map MapNode.id ++ later.map MapNode.id).Nodup) :
    (placeNodes m settings state later).2.map MapNode.id =
        later.map MapNode.id ∧
      Kept (nodes ++ (placeNodes m settings state later).2)
        (placeNodes m settings state later).1 := by
  induction later generalizing nodes state with
  | nil =>
      refine ⟨rfl, ?_⟩
      simpa [placeNodes] using hKept
  | cons n later ih =>
      have hNew : ∀ k ∈ nodes, k.id ≠ n.id := by
        intro k hk
        exact
          (List.nodup_append.mp hIds).2.2 k.id
            (List.mem_map.mpr ⟨k, hk, rfl⟩) n.id (by simp)
      have hFirst := hStep hKept (hGroups n (by simp)) hNew
      have hRest :=
        ih hFirst (fun k hk => hGroups k (by simp [hk]))
          (by simpa [placeNode_id] using hIds)
      refine ⟨?_, ?_⟩
      · simp [placeNodes, placeNode_id, hRest.1]
      · simpa [placeNodes] using hRest.2

end Grouping

------------------------------------------------------------
-- Maps
------------------------------------------------------------

namespace ArgumentMap

/- Ranked groups are in no cycles. -/
theorem rank_lt
    {map : ArgumentMap}
    (hIds : (map.groups.map MapGroup.id).Nodup)
    {rank : String → Nat}
    (hRank : ∀ g ∈ map.groups, ∀ p, g.parent = some p →
      rank p < rank g.id)
    {inner outer : String}
    (hWithin : map.IsWithin inner outer) :
    rank outer < rank inner := by
  have hStep : ∀ {id p}, map.parent? id = some p →
      rank p < rank id := by
    intro id p hParent
    rcases (parent?_eq_some_iff hIds).mp hParent with
      ⟨g, hg, hId, hAbove⟩
    exact hId ▸ hRank g hg p hAbove
  induction hWithin with
  | single hParent => exact hStep hParent
  | tail _ hParent ih => exact Nat.lt_trans (hStep hParent) ih

/- No group of a forest has the id of a node. -/
theorem forest_fresh
    {nodes : List MapNode}
    {state : Grouping.State}
    (hForest : Grouping.Forest nodes state)
    (hNodeIds : Numbered 'n' (nodes.map MapNode.id))
    (edges : List MapEdge) :
    ∀ g ∈ state.groups,
      ¬ IsCollapsed ⟨nodes, edges, state.groups⟩ g := by
  rintro g hg ⟨n, hn, hSame⟩
  exact
    hNodeIds.ne_of_letters hForest.listing.ids (by decide)
      (List.mem_map.mpr ⟨n, hn, rfl⟩)
      (List.mem_map.mpr ⟨g, hg, hSame.symm⟩)

/- The groups of a forest are nested in a map of its nodes. -/
theorem forest_nested
    {nodes : List MapNode}
    {state : Grouping.State}
    {edges : List MapEdge}
    (hForest : Grouping.Forest nodes state)
    (hNodeIds : Numbered 'n' (nodes.map MapNode.id))
    (hEdgeIds : Numbered 'e' (edges.map MapEdge.id))
    (hEnds : ∀ e ∈ edges,
      (∃ n ∈ nodes, n.id = e.source) ∧
        ∃ n ∈ nodes, n.id = e.target)
    (hNoLoop : ∀ e ∈ edges, e.source ≠ e.target) :
    Nested ⟨nodes, edges, state.groups⟩ where
  nodeIds := hNodeIds.nodup
  edgeIds := hEdgeIds.nodup
  groupIds := hForest.listing.ids.nodup
  edgeApart := by
    intro e he
    have hEdge : e.id ∈ edges.map MapEdge.id :=
      List.mem_map.mpr ⟨e, he, rfl⟩
    constructor
    · intro n hn hSame
      exact
        hEdgeIds.ne_of_letters hNodeIds (by decide) hEdge
          (List.mem_map.mpr ⟨n, hn, hSame.symm⟩)
    · intro g hg hSame
      exact
        hEdgeIds.ne_of_letters hForest.listing.ids (by decide)
          hEdge (List.mem_map.mpr ⟨g, hg, hSame.symm⟩)
  ends := hEnds
  noLoop := hNoLoop
  grouped := by
    intro n hn id
    constructor
    · exact hForest.holding.grouped n hn id
    · rintro ⟨g, hg, hId, hListed⟩
      rcases hForest.holding.members g hg n.id hListed with
        ⟨k, hk, hSame, hGroup⟩
      have hEq :=
        List.inj_on_of_nodup_map hNodeIds.nodup hk hn hSame
      rw [← hEq, hGroup, hId]
  members := by
    intro g hg
    refine ⟨hForest.holding.unique g hg, ?_⟩
    intro id hListed
    rcases hForest.holding.members g hg id hListed with
      ⟨k, hk, hSame, _⟩
    exact ⟨k, hk, hSame⟩
  parents := fun g hg p hParent =>
    List.mem_map.mp (hForest.listing.parents g hg p hParent)
  acyclic := by
    intro g hg hWithin
    rcases hForest.ranked with ⟨rank, hRank⟩
    exact
      Nat.lt_irrefl _
        (rank_lt hForest.listing.ids.nodup hRank hWithin)
  subgroups := by
    intro h hh id hListed
    rcases hForest.listing.subgroups h hh id hListed with
      ⟨g, hg, hId, hParent⟩
    exact
      ⟨g, hg, hId, hParent,
        forest_fresh hForest hNodeIds edges g hg⟩
  listed := fun g hg _ h hh hParent =>
    hForest.listing.listed g hg h hh hParent
  collapsed := by
    intro g hg n hn hSame
    exact
      absurd ⟨n, hn, hSame⟩
        (forest_fresh hForest hNodeIds edges g hg)
  openAround := by
    intro g hg hCollapsed
    exact
      absurd hCollapsed
        (forest_fresh hForest hNodeIds edges g hg)

/-
  Putting the nodes of a plain map into groups leaves them
  apart, and nests the groups.
-/
theorem Plain.buildGroups_nested
    {map : ArgumentMap}
    (hMap : map.Plain)
    (m : Model)
    (settings : GroupSettings) :
    (map.buildGroups m settings).Nested ∧
      ∀ g ∈ (map.buildGroups m settings).groups,
        ¬ (map.buildGroups m settings).IsCollapsed g := by
  have hStart : Grouping.Forest [] ⟨map.groups, []⟩ := by
    rw [hMap.noGroups]
    refine
      ⟨⟨Numbered.nil 'g', ?_, ?_, ?_⟩, ⟨?_, ?_, ?_⟩,
        ⟨fun _ => 0, ?_⟩, ?_⟩
    all_goals simp
  have hPlain : ∀ n ∈ map.nodes, n.group = none := fun n hn =>
    hMap.nodes.ungrouped _ (List.mem_map.mpr ⟨n, hn, rfl⟩)
  have hPlaced :=
    Grouping.placeNodes_kept settings
      (Grouping.Forest.placeNode m settings) hStart hPlain
      (by simpa using hMap.nodes.ids.nodup)
  unfold buildGroups
  rcases hResult :
    Grouping.placeNodes m settings ⟨map.groups, []⟩ map.nodes
    with ⟨state, nodes⟩
  rw [hResult] at hPlaced
  rcases hPlaced with ⟨hIds, hForest⟩
  simp only [List.nil_append] at hIds hForest ⊢
  have hNodeIds : Numbered 'n' (nodes.map MapNode.id) := by
    rw [hIds]
    exact hMap.nodes.ids
  have hNode : ∀ id, (∃ n ∈ map.nodes, n.id = id) →
      ∃ n ∈ nodes, n.id = id := by
    intro id hOld
    rw [← List.mem_map] at hOld ⊢
    exact hIds ▸ hOld
  have hEnds : ∀ e ∈ map.edges,
      (∃ n ∈ nodes, n.id = e.source) ∧
        ∃ n ∈ nodes, n.id = e.target := fun e he =>
    (hMap.ends e he).imp (hNode e.source) (hNode e.target)
  exact
    ⟨forest_nested hForest hNodeIds hMap.edgeIds hEnds
        hMap.noLoop,
      forest_fresh hForest hNodeIds map.edges⟩

end ArgumentMap

end Dialectic
