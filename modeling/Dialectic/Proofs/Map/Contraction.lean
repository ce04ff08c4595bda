import Dialectic.Proofs.Map.Collapse

/-
  Replacing closed groups by nodes contracts a map: each node
  goes to the node that it is shown as, and edges follow.  A
  contraction leaves what other nodes are to be shown as, so
  that contractions one after the other are a single one.

  Key definitions include:
    * `ArgumentMap.Holds`
    * `ArgumentMap.ShownAs`
    * `ArgumentMap.Contraction`
    * `ArgumentMap.Completion`

  Main theorems:
    * `ArgumentMap.Nested.holder_eq`
    * `ArgumentMap.Collapsible.shownAs_iff`
    * `ArgumentMap.Collapsible.contraction`
    * `ArgumentMap.Contraction.trans`
    * `ArgumentMap.Nested.collapse_completion`
-/

namespace Dialectic

------------------------------------------------------------
-- Moved Edges and Emptied Groups
------------------------------------------------------------

/- An edge whose ends are moved. -/
def MapEdge.moved (image : String → String) (e : MapEdge) :
    MapEdge :=
  { e with
    source := image e.source
    target := image e.target }

/- A group when some of the groups in it have become nodes. -/
def MapGroup.flattened (h : MapGroup) (ids : List String) :
    MapGroup :=
  { h with
    nodes := h.nodes ++ ids
    subgroups :=
      h.subgroups.filter (fun id => !ids.contains id) }

/- A group is the same if no group in it becomes a node. -/
theorem MapGroup.flattened_nil (h : MapGroup) :
    h.flattened [] = h := by
  simp [flattened]

/- Groups in a group become nodes one after the other. -/
theorem MapGroup.flattened_flattened
    (h : MapGroup)
    (ids others : List String) :
    (h.flattened ids).flattened others =
      h.flattened (ids ++ others) := by
  simp [flattened, List.filter_filter, Bool.and_comm]

namespace ArgumentMap

------------------------------------------------------------
-- Nodes in Groups
------------------------------------------------------------

/- A group has a node in it, at any depth. -/
def Holds (map : ArgumentMap) (group node : String) : Prop :=
  ∃ n ∈ map.nodes, n.id = node ∧
    ∃ p, n.group = some p ∧
      (p = group ∨ map.IsWithin p group)

/- None of the groups that are replaced has a node in it. -/
def Free
    (map : ArgumentMap)
    (replaced : MapGroup → Prop)
    (node : String) : Prop :=
  ∀ g, replaced g → ¬ map.Holds g.id node

/-
  A node is shown as the group that has it in it, of those
  that are replaced, or as itself if there is none.
-/
def ShownAs
    (map : ArgumentMap)
    (replaced : MapGroup → Prop)
    (node shown : String) : Prop :=
  (∃ g, replaced g ∧ g.id = shown ∧ map.Holds g.id node) ∨
    (node = shown ∧ map.Free replaced node)

variable {map : ArgumentMap}
variable {g : MapGroup}

/- A free node is shown as itself. -/
theorem Free.shownAs_iff
    {replaced : MapGroup → Prop}
    {node shown : String}
    (hFree : map.Free replaced node) :
    map.ShownAs replaced node shown ↔ node = shown := by
  constructor
  · rintro (⟨g, hg, _, hHolds⟩ | ⟨hSame, _⟩)
    · exact absurd hHolds (hFree g hg)
    · exact hSame
  · exact fun hSame => Or.inr ⟨hSame, hFree⟩

/-
  The groups around a node are nested in one another, so only
  one of them is closed and in open groups only.
-/
theorem Nested.holder_eq
    (hMap : map.Nested)
    {h : MapGroup}
    (hg : Collapsible map g)
    (hh : Collapsible map h)
    {node : String}
    (hInG : map.Holds g.id node)
    (hInH : map.Holds h.id node) :
    g = h := by
  rcases hInG with ⟨n, hn, hId, p, hGroup, hAboveG⟩
  rcases hInH with ⟨k, hk, hIdK, q, hGroupK, hAboveH⟩
  have hNode : n = k :=
    List.inj_on_of_nodup_map hMap.nodeIds hn hk
      (hId.trans hIdK.symm)
  rw [← hNode, hGroup, Option.some.injEq] at hGroupK
  rw [← hGroupK] at hAboveH
  have hUnique :
      Relator.RightUnique
        (fun id above => map.parent? id = some above) := by
    intro id one other hOne hOther
    exact Option.some.inj (hOne.symm.trans hOther)
  have hChain := Relation.ReflTransGen.total_of_right_unique
    hUnique
    (Relation.reflTransGen_iff_eq_or_transGen.mpr
      (hAboveG.imp_left Eq.symm))
    (Relation.reflTransGen_iff_eq_or_transGen.mpr
      (hAboveH.imp_left Eq.symm))
  simp only [Relation.reflTransGen_iff_eq_or_transGen]
    at hChain
  apply group_eq hMap.groupIds hg.mem hh.mem
  rcases hChain with
    (hSame | hWithin) | (hSame | hWithin)
  · exact hSame.symm
  · exact absurd hWithin (hh.not_within hg)
  · exact hSame
  · exact absurd hWithin (hg.not_within hh)

/- A node in a group to be replaced is shown as this group. -/
theorem Nested.shownAs_of_holds
    (hMap : map.Nested)
    (hg : Collapsible map g)
    {node shown : String}
    (hHolds : map.Holds g.id node) :
    map.ShownAs (Collapsible map) node shown ↔
      g.id = shown := by
  constructor
  · rintro (⟨h, hh, hId, hHoldsToo⟩ | ⟨_, hFree⟩)
    · rw [hMap.holder_eq hg hh hHolds hHoldsToo]
      exact hId
    · exact absurd hHolds (hFree g hg)
  · exact fun hSame => Or.inl ⟨g, hg, hSame, hHolds⟩

/- Each node is shown as one node. -/
theorem Nested.exists_shownAs
    (hMap : map.Nested)
    (node : String) :
    ∃! shown, map.ShownAs (Collapsible map) node shown := by
  by_cases hFree : map.Free (Collapsible map) node
  · simp only [hFree.shownAs_iff]
    exact ⟨node, rfl, fun _ hSame => hSame.symm⟩
  · unfold Free at hFree
    push Not at hFree
    rcases hFree with ⟨g, hg, hHolds⟩
    simp only [hMap.shownAs_of_holds hg hHolds]
    exact ⟨g.id, rfl, fun _ hSame => hSame.symm⟩

/- Just the nodes in a group that is replaced go with it. -/
theorem Collapsible.mem_nodes_iff_holds
    (hMap : map.Nested)
    (hg : Collapsible map g)
    {node : String} :
    node ∈ (map.descendants g.id).nodes ↔
      map.Holds g.id node := by
  constructor
  · intro hGone
    rcases (hMap.explored_descendants g.id).nodes node
        hGone with
      ⟨k, hk, hInside, hListed⟩
    rcases (hMap.members k hk).2 node hListed with
      ⟨n, hn, hId⟩
    refine ⟨n, hn, hId, k.id, ?_, ?_⟩
    · exact (hMap.grouped n hn k.id).mpr
        ⟨k, hk, rfl, hId ▸ hListed⟩
    · exact hInside.imp_right (hg.mem_descendants_iff hMap).mp
  · rintro ⟨n, hn, hId, p, hGroup, hAbove⟩
    rcases (hMap.grouped n hn p).mp hGroup with
      ⟨k, hk, hSame, hListed⟩
    have hInside :
        k.id = g.id ∨
          k.id ∈ (map.descendants g.id).groups := by
      rw [hSame, hg.mem_descendants_iff hMap]
      exact hAbove
    exact
      hId ▸ (Collapsible.replaces hMap hk hInside).1 hListed

------------------------------------------------------------
-- Replacing One Group
------------------------------------------------------------

/- Where a node goes when a group is replaced. -/
def absorbed (map : ArgumentMap) (g : MapGroup)
    (node : String) : String :=
  if (map.descendants g.id).nodes.contains node then g.id
  else node

/- A node in the group that is replaced goes to this group. -/
theorem Collapsible.absorbed_of_holds
    (hMap : map.Nested)
    (hg : Collapsible map g)
    {node : String}
    (hHolds : map.Holds g.id node) :
    absorbed map g node = g.id := by
  have hGone := (hg.mem_nodes_iff_holds hMap).mpr hHolds
  simp [absorbed, hGone]

/- Another node stays where it is. -/
theorem Collapsible.absorbed_of_not_holds
    (hMap : map.Nested)
    (hg : Collapsible map g)
    {node : String}
    (hOutside : ¬ map.Holds g.id node) :
    absorbed map g node = node := by
  have hStays : node ∉ (map.descendants g.id).nodes :=
    fun hGone =>
      hOutside ((hg.mem_nodes_iff_holds hMap).mp hGone)
  simp [absorbed, hStays]

/-
  The other groups that are to be replaced have the same nodes
  in them when one has been replaced.
-/
theorem Collapsible.holds_iff
    (hMap : map.Nested)
    (hg : Collapsible map g)
    {h : MapGroup}
    (hh : Collapsible map h)
    (hOther : h.id ≠ g.id)
    {node : String} :
    (map.collapseGroup g.id).Holds h.id node ↔
      map.Holds h.id node := by
  constructor
  · rintro ⟨n, hn, hId, p, hGroup, hAbove⟩
    have hAbove := hAbove.imp_right (hg.isWithin hMap)
    rcases (hg.mem_nodes hMap n).mp hn with hOwn | ⟨hn, _⟩
    · -- the group around the new node is in no closed group
      rw [hOwn] at hGroup
      have hWithin :=
        isWithin_of_parent hMap.groupIds hg.mem hGroup hAbove
      exact absurd hWithin (hh.not_within hg)
    · exact ⟨n, hn, hId, p, hGroup, hAbove⟩
  · intro hHolds
    have hOutside : ¬ map.Holds g.id node := by
      intro hInG
      have hSame := hMap.holder_eq hh hg hHolds hInG
      exact hOther (congrArg MapGroup.id hSame)
    rcases hHolds with ⟨n, hn, hId, p, hGroup, hAbove⟩
    refine ⟨n, ?_, hId, p, hGroup, ?_⟩
    · rw [hg.mem_nodes hMap, hg.mem_nodes_iff_holds hMap, hId]
      exact Or.inr ⟨hn, hOutside⟩
    · refine hAbove.imp_right fun hWithin => ?_
      apply (hg.isWithin_of_remains hMap ?_ hWithin).1
      intro hGone
      exact
        hOutside
          ⟨n, hn, hId, p, hGroup,
            Or.inr ((hg.mem_descendants_iff hMap).mp hGone)⟩

/- The nodes that are free when a group has been replaced. -/
theorem Collapsible.free_iff
    (hMap : map.Nested)
    (hg : Collapsible map g)
    {node : String} :
    (map.collapseGroup g.id).Free
        (Collapsible (map.collapseGroup g.id)) node ↔
      ∀ h, Collapsible map h → h.id ≠ g.id →
        ¬ map.Holds h.id node := by
  unfold Free
  constructor
  · intro hFree h hh hOther hHolds
    apply hFree (changed g h)
    · exact (hg.collapsible_iff hMap).mpr ⟨h, hh, hOther, rfl⟩
    · rw [changed_id, hg.holds_iff hMap hh hOther]
      exact hHolds
  · intro hOthers k hk hHolds
    rcases (hg.collapsible_iff hMap).mp hk with
      ⟨h, hh, hOther, hSame⟩
    subst hSame
    rw [changed_id, hg.holds_iff hMap hh hOther] at hHolds
    exact hOthers h hh hOther hHolds

/- The node of the group that has been replaced is free. -/
theorem Collapsible.own_free
    (hMap : map.Nested)
    (hg : Collapsible map g) :
    (map.collapseGroup g.id).Free
      (Collapsible (map.collapseGroup g.id)) g.id := by
  rw [hg.free_iff hMap]
  rintro h _ _ ⟨n, hn, hId, _⟩
  exact hg.notYet ⟨n, hn, hId⟩

/-
  A node is shown as before when a group has been replaced, if
  those in the group go to its own node.
-/
theorem Collapsible.shownAs_iff
    (hMap : map.Nested)
    (hg : Collapsible map g)
    (node shown : String) :
    map.ShownAs (Collapsible map) node shown ↔
      (map.collapseGroup g.id).ShownAs
        (Collapsible (map.collapseGroup g.id))
        (absorbed map g node) shown := by
  by_cases hHolds : map.Holds g.id node
  · rw [hg.absorbed_of_holds hMap hHolds,
      hMap.shownAs_of_holds hg hHolds,
      (hg.own_free hMap).shownAs_iff]
  · rw [hg.absorbed_of_not_holds hMap hHolds]
    have hFree :
        map.Free (Collapsible map) node ↔
          (map.collapseGroup g.id).Free
            (Collapsible (map.collapseGroup g.id)) node := by
      rw [hg.free_iff hMap]
      constructor
      · exact fun hFree h hh _ => hFree h hh
      · intro hOthers h hh
        by_cases hSame : h.id = g.id
        · rw [hSame]
          exact hHolds
        · exact hOthers h hh hSame
    unfold ShownAs
    rw [hFree]
    refine or_congr_left ?_
    constructor
    · rintro ⟨h, hh, hId, hInH⟩
      have hOther : h.id ≠ g.id := by
        intro hSame
        exact hHolds (hSame ▸ hInH)
      refine
        ⟨changed g h,
          (hg.collapsible_iff hMap).mpr ⟨h, hh, hOther, rfl⟩,
          (changed_id g h).trans hId, ?_⟩
      rw [changed_id, hg.holds_iff hMap hh hOther]
      exact hInH
    · rintro ⟨k, hk, hId, hInK⟩
      rcases (hg.collapsible_iff hMap).mp hk with
        ⟨h, hh, hOther, hSame⟩
      subst hSame
      rw [changed_id] at hId
      rw [changed_id, hg.holds_iff hMap hh hOther] at hInK
      exact ⟨h, hh, hId, hInK⟩

------------------------------------------------------------
-- Contractions
------------------------------------------------------------

/- A group and all groups around it are open. -/
def IsOpen (map : ArgumentMap) (h : MapGroup) : Prop :=
  h.isClosed = false ∧
    ∀ k ∈ map.groups, map.IsWithin h.id k.id →
      k.isClosed = false

/-
  Some of the closed groups of a map have been replaced, so
  that each node has gone to its image.  What nodes are shown
  as stays the same, free nodes and open groups stay, and each
  group to be replaced still is so or has a free node.
-/
structure Contraction
    (map next : ArgumentMap)
    (image : String → String) : Prop where
  shown : ∀ n ∈ map.nodes, ∀ id,
    map.ShownAs (Collapsible map) n.id id ↔
      next.ShownAs (Collapsible next) (image n.id) id
  lands : ∀ n ∈ map.nodes, ∃ k ∈ next.nodes, k.id = image n.id
  free : ∀ n ∈ map.nodes, map.Free (Collapsible map) n.id →
    n ∈ next.nodes ∧ image n.id = n.id
  origins : ∀ k ∈ next.nodes,
    (∃ n ∈ map.nodes, image n.id = k.id) ∨
      ∃ g, Collapsible map g ∧ g.id = k.id
  replaced : ∀ g, Collapsible map g →
    (∃ h, Collapsible next h ∧ h.id = g.id) ∨
      ((∃ n ∈ next.nodes, n.id = g.id) ∧
        next.Free (Collapsible next) g.id)
  later : ∀ k, Collapsible next k →
    ∃ g, Collapsible map g ∧ g.id = k.id ∧ g.parent = k.parent
  within : ∀ {inner outer}, next.IsWithin inner outer →
    map.IsWithin inner outer
  groups : ∀ k ∈ next.groups, ∃ h ∈ map.groups,
    h.id = k.id ∧ h.isClosed = k.isClosed
  opened : ∀ h ∈ map.groups, map.IsOpen h →
    ∃ ids, h.flattened ids ∈ next.groups ∧
      ∀ id, id ∈ ids ↔
        (∃ g, Collapsible map g ∧ g.id = id ∧
            g.parent = some h.id) ∧
          ¬ ∃ k, Collapsible next k ∧ k.id = id
  edges : ∀ e, e ∈ next.edges ↔
    ∃ f ∈ map.edges, image f.source ≠ image f.target ∧
      f.moved image = e

/- A map is a contraction of itself. -/
theorem Contraction.refl (hMap : map.Nested) :
    Contraction map map id where
  shown := fun _ _ _ => Iff.rfl
  lands := fun n hn => ⟨n, hn, rfl⟩
  free := fun _ hn _ => ⟨hn, rfl⟩
  origins := fun k hk => Or.inl ⟨k, hk, rfl⟩
  replaced := fun g hg => Or.inl ⟨g, hg, rfl⟩
  later := fun k hk => ⟨k, hk, rfl, rfl⟩
  within := fun hWithin => hWithin
  groups := fun k hk => ⟨k, hk, rfl, rfl⟩
  opened := by
    intro h hh _
    refine ⟨[], ?_, ?_⟩
    · rw [h.flattened_nil]
      exact hh
    · intro id
      constructor
      · intro hNone
        simp at hNone
      · rintro ⟨⟨g, hg, hId, _⟩, hNone⟩
        exact absurd ⟨g, hg, hId⟩ hNone
  edges := by
    intro e
    constructor
    · exact fun he => ⟨e, he, hMap.noLoop e he, rfl⟩
    · rintro ⟨f, hf, _, hSame⟩
      exact hSame ▸ hf

/- An open group when one of the closed groups is replaced. -/
theorem changed_eq_flattened
    {h : MapGroup}
    (hOther : h.id ≠ g.id) :
    changed g h =
      h.flattened
        (if g.parent = some h.id then [g.id] else []) := by
  unfold changed
  rw [if_neg hOther]
  by_cases hParent : g.parent = some h.id
  · simp only [hParent, if_true, MapGroup.flattened]
    congr 1
    apply List.filter_congr
    intro id _
    rw [Bool.eq_iff_iff]
    simp
  · simp only [if_neg hParent, h.flattened_nil]

/- Replacing a closed group leaves the open groups. -/
theorem Collapsible.opened
    (hMap : map.Nested)
    (hg : Collapsible map g)
    {h : MapGroup}
    (hh : h ∈ map.groups)
    (hOpen : map.IsOpen h) :
    ∃ ids,
      h.flattened ids ∈ (map.collapseGroup g.id).groups ∧
        ∀ id, id ∈ ids ↔
          (∃ k, Collapsible map k ∧ k.id = id ∧
              k.parent = some h.id) ∧
            ¬ ∃ k, Collapsible (map.collapseGroup g.id) k ∧
              k.id = id := by
  have hOther : h.id ≠ g.id := by
    intro hSame
    have hClosed := hg.closed
    rw [← group_eq hMap.groupIds hh hg.mem hSame,
      hOpen.1] at hClosed
    cases hClosed
  have hRemains : h.id ∉ (map.descendants g.id).groups := by
    rw [hg.mem_descendants_iff hMap]
    intro hWithin
    have hClosed := hg.closed
    rw [hOpen.2 g hg.mem hWithin] at hClosed
    cases hClosed
  refine
    ⟨if g.parent = some h.id then [g.id] else [], ?_, ?_⟩
  · rw [← changed_eq_flattened hOther]
    exact (hg.mem_groups hMap _).mpr ⟨h, hh, hRemains, rfl⟩
  · intro id
    constructor
    · intro hMem
      by_cases hParent : g.parent = some h.id
      · have hId : id = g.id := by
          simpa [hParent] using hMem
        refine ⟨⟨g, hg, hId.symm, hParent⟩, ?_⟩
        rintro ⟨k, hk, hSame⟩
        rcases (hg.collapsible_iff hMap).mp hk with
          ⟨l, _, hNot, hChanged⟩
        apply hNot
        rw [← changed_id g l, hChanged, hSame, hId]
      · simp [hParent] at hMem
    · rintro ⟨⟨k, hk, hId, hParent⟩, hNone⟩
      have hSame : k.id = g.id := by
        by_contra hNot
        exact
          hNone
            ⟨changed g k,
              (hg.collapsible_iff hMap).mpr
                ⟨k, hk, hNot, rfl⟩,
              (changed_id g k).trans hId⟩
      rw [group_eq hMap.groupIds hk.mem hg.mem hSame]
        at hParent hId
      simp [hParent, hId]

/- Replacing a closed group is a contraction. -/
theorem Collapsible.contraction
    (hMap : map.Nested)
    (hg : Collapsible map g) :
    Contraction map (map.collapseGroup g.id)
      (absorbed map g) where
  shown := fun n _ id => hg.shownAs_iff hMap n.id id
  lands := fun n hn => hg.redirected_end hMap ⟨n, hn, rfl⟩
  free := by
    intro n hn hFree
    have hOutside := hFree g hg
    refine ⟨?_, hg.absorbed_of_not_holds hMap hOutside⟩
    rw [hg.mem_nodes hMap, hg.mem_nodes_iff_holds hMap]
    exact Or.inr ⟨hn, hOutside⟩
  origins := by
    intro k hk
    rcases (hg.mem_nodes hMap k).mp hk with hOwn | ⟨hk, hStays⟩
    · right
      exact ⟨g, hg, hOwn ▸ rfl⟩
    · left
      rw [hg.mem_nodes_iff_holds hMap] at hStays
      exact ⟨k, hk, hg.absorbed_of_not_holds hMap hStays⟩
  replaced := by
    intro h hh
    by_cases hSame : h.id = g.id
    · right
      rw [hSame]
      refine ⟨⟨ownNode map g, ?_, rfl⟩, hg.own_free hMap⟩
      exact (hg.mem_nodes hMap _).mpr (Or.inl rfl)
    · left
      exact
        ⟨changed g h,
          (hg.collapsible_iff hMap).mpr ⟨h, hh, hSame, rfl⟩,
          changed_id g h⟩
  later := by
    intro k hk
    rcases (hg.collapsible_iff hMap).mp hk with
      ⟨h, hh, _, hSame⟩
    subst hSame
    exact
      ⟨h, hh, (changed_id g h).symm,
        (changed_parent g h).symm⟩
  within := hg.isWithin hMap
  groups := by
    intro k hk
    rcases (hg.mem_groups hMap k).mp hk with ⟨h, hh, _, hSame⟩
    subst hSame
    exact
      ⟨h, hh, (changed_id g h).symm,
        (changed_isClosed g h).symm⟩
  opened := fun _ hh hOpen => hg.opened hMap hh hOpen
  edges := by
    intro e
    rw [hg.mem_edges hMap]
    constructor
    · rintro ⟨hApart, f, hf, hSame⟩
      subst hSame
      exact ⟨f, hf, hApart, rfl⟩
    · rintro ⟨f, hf, hApart, hSame⟩
      subst hSame
      exact ⟨hApart, f, hf, rfl⟩

/- A free node stays free. -/
theorem Contraction.stays_free
    {next : ArgumentMap}
    {image : String → String}
    (hContraction : Contraction map next image)
    {n : MapNode}
    (hn : n ∈ map.nodes)
    (hFree : map.Free (Collapsible map) n.id) :
    next.Free (Collapsible next) n.id := by
  rcases hContraction.free n hn hFree with ⟨hNext, hStays⟩
  have hShown :=
    (hContraction.shown n hn n.id).mp
      (hFree.shownAs_iff.mpr rfl)
  rw [hStays] at hShown
  rcases hShown with ⟨g, hg, hId, _⟩ | ⟨_, hNextFree⟩
  · exact absurd ⟨n, hNext, hId.symm⟩ hg.notYet
  · exact hNextFree

/- Open groups list what two contractions have replaced. -/
theorem Contraction.trans_opened
    {next last : ArgumentMap}
    {image further : String → String}
    (hIds : (map.groups.map MapGroup.id).Nodup)
    (hFirst : Contraction map next image)
    (hSecond : Contraction next last further)
    {h : MapGroup}
    (hh : h ∈ map.groups)
    (hOpen : map.IsOpen h) :
    ∃ ids, h.flattened ids ∈ last.groups ∧
      ∀ id, id ∈ ids ↔
        (∃ g, Collapsible map g ∧ g.id = id ∧
            g.parent = some h.id) ∧
          ¬ ∃ k, Collapsible last k ∧ k.id = id := by
  rcases hFirst.opened h hh hOpen with
    ⟨ids, hNext, hChosen⟩
  have hNextOpen : next.IsOpen (h.flattened ids) := by
    refine ⟨hOpen.1, ?_⟩
    intro k hk hWithin
    rcases hFirst.groups k hk with ⟨l, hl, hId, hClosed⟩
    rw [← hClosed]
    apply hOpen.2 l hl
    rw [hId]
    exact hFirst.within hWithin
  rcases hSecond.opened _ hNext hNextOpen with
    ⟨others, hLast, hOthers⟩
  refine ⟨ids ++ others, ?_, ?_⟩
  · rw [← h.flattened_flattened]
    exact hLast
  · intro id
    rw [List.mem_append, hChosen, hOthers]
    constructor
    · rintro (⟨hHere, hDone⟩ | ⟨hHere, hDone⟩)
      · refine ⟨hHere, ?_⟩
        rintro ⟨l, hl, hId⟩
        rcases hSecond.later l hl with ⟨k, hk, hIdK, _⟩
        exact hDone ⟨k, hk, hIdK.trans hId⟩
      · rcases hHere with ⟨k, hk, hId, hParent⟩
        rcases hFirst.later k hk with
          ⟨g, hg, hIdG, hParentG⟩
        exact
          ⟨⟨g, hg, hIdG.trans hId,
              hParentG.trans hParent⟩, hDone⟩
    · rintro ⟨⟨g, hg, hId, hParent⟩, hDone⟩
      by_cases hNow : ∃ k, Collapsible next k ∧ k.id = id
      · right
        rcases hNow with ⟨k, hk, hIdK⟩
        rcases hFirst.later k hk with
          ⟨l, hl, hIdL, hParentL⟩
        have hSame :=
          group_eq hIds hl.mem hg.mem
            (hIdL.trans (hIdK.trans hId.symm))
        rw [hSame, hParent] at hParentL
        exact ⟨⟨k, hk, hIdK, hParentL.symm⟩, hDone⟩
      · left
        exact ⟨⟨g, hg, hId, hParent⟩, hNow⟩

/- Contractions one after the other are a single one. -/
theorem Contraction.trans
    {next last : ArgumentMap}
    {image further : String → String}
    (hIds : (map.groups.map MapGroup.id).Nodup)
    (hFirst : Contraction map next image)
    (hSecond : Contraction next last further) :
    Contraction map last (further ∘ image) where
  shown := by
    intro n hn id
    rcases hFirst.lands n hn with ⟨k, hk, hId⟩
    rw [hFirst.shown n hn, ← hId, hSecond.shown k hk, hId]
    rfl
  lands := by
    intro n hn
    rcases hFirst.lands n hn with ⟨k, hk, hId⟩
    rcases hSecond.lands k hk with ⟨l, hl, hIdL⟩
    exact ⟨l, hl, hIdL.trans (congrArg further hId)⟩
  free := by
    intro n hn hFree
    rcases hFirst.free n hn hFree with ⟨hNext, hStays⟩
    have hNextFree := hFirst.stays_free hn hFree
    rcases hSecond.free n hNext hNextFree with
      ⟨hLast, hStaysToo⟩
    refine ⟨hLast, ?_⟩
    rw [Function.comp_apply, hStays, hStaysToo]
  origins := by
    intro l hl
    rcases hSecond.origins l hl with
      ⟨k, hk, hId⟩ | ⟨h, hh, hId⟩
    · rcases hFirst.origins k hk with
        ⟨n, hn, hIdN⟩ | ⟨g, hg, hIdG⟩
      · left
        exact ⟨n, hn, (congrArg further hIdN).trans hId⟩
      · right
        have hFree : next.Free (Collapsible next) k.id := by
          rcases hFirst.replaced g hg with
            ⟨h, hh, hSame⟩ | ⟨_, hFree⟩
          · exact
              absurd ⟨k, hk, hIdG.symm.trans hSame.symm⟩
                hh.notYet
          · exact hIdG ▸ hFree
        have hStays := (hSecond.free k hk hFree).2
        exact ⟨g, hg, hIdG.trans (hStays.symm.trans hId)⟩
    · right
      rcases hFirst.later h hh with ⟨g, hg, hIdG, _⟩
      exact ⟨g, hg, hIdG.trans hId⟩
  replaced := by
    intro g hg
    rcases hFirst.replaced g hg with
      ⟨h, hh, hId⟩ | ⟨⟨k, hk, hId⟩, hFree⟩
    · rcases hSecond.replaced h hh with
        ⟨l, hl, hIdL⟩ | hDone
      · exact Or.inl ⟨l, hl, hIdL.trans hId⟩
      · right
        rw [← hId]
        exact hDone
    · right
      rw [← hId] at hFree ⊢
      have hLast := (hSecond.free k hk hFree).1
      exact
        ⟨⟨k, hLast, rfl⟩, hSecond.stays_free hk hFree⟩
  later := by
    intro l hl
    rcases hSecond.later l hl with ⟨h, hh, hId, hParent⟩
    rcases hFirst.later h hh with ⟨g, hg, hIdG, hParentG⟩
    exact
      ⟨g, hg, hIdG.trans hId, hParentG.trans hParent⟩
  within := fun hWithin =>
    hFirst.within (hSecond.within hWithin)
  groups := by
    intro l hl
    rcases hSecond.groups l hl with ⟨k, hk, hId, hClosed⟩
    rcases hFirst.groups k hk with ⟨h, hh, hIdH, hClosedH⟩
    exact
      ⟨h, hh, hIdH.trans hId, hClosedH.trans hClosed⟩
  opened := fun _ hh hOpen =>
    hFirst.trans_opened hIds hSecond hh hOpen
  edges := by
    intro e
    rw [hSecond.edges]
    constructor
    · rintro ⟨k, hk, hApart, hSame⟩
      rcases (hFirst.edges k).mp hk with ⟨f, hf, _, hMoved⟩
      subst hMoved
      exact ⟨f, hf, hApart, hSame⟩
    · rintro ⟨f, hf, hApart, hSame⟩
      refine ⟨f.moved image, ?_, hApart, hSame⟩
      refine (hFirst.edges _).mpr ⟨f, hf, ?_, rfl⟩
      intro hLoop
      exact hApart (congrArg further hLoop)

/- A contraction after which no group is to be replaced. -/
structure Completion
    (map next : ArgumentMap)
    (image : String → String) : Prop where
  contraction : Contraction map next image
  nested : next.Nested
  nothing : ∀ g, ¬ Collapsible next g

/- Replacing all closed groups completes a contraction. -/
theorem Nested.collapse_completion (hMap : map.Nested) :
    ∃ image,
      Completion map
        (map.outermostClosed.foldl collapseGroup map)
        image := by
  have hKeeps : ∀ {next : ArgumentMap} {g : MapGroup},
      next.Nested → Collapsible next g →
      (∃ image, Contraction map next image) →
        ∃ image,
          Contraction map (next.collapseGroup g.id) image := by
    rintro next g hNext hg ⟨image, hImage⟩
    exact
      ⟨absorbed next g ∘ image,
        hImage.trans hMap.groupIds (hg.contraction hNext)⟩
  rcases Nested.foldl_collapseGroup hKeeps hMap
      ⟨id, Contraction.refl hMap⟩ hMap.outermostClosed_nodup
      (fun _ => hMap.mem_outermostClosed_iff) with
    ⟨hNested, ⟨image, hImage⟩, hNothing⟩
  exact ⟨image, hImage, hNested, hNothing⟩

end ArgumentMap

end Dialectic
