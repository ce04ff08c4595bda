import Dialectic.Proofs.Map.Contraction
import Dialectic.Proofs.Map.Grouping
import Mathlib.Algebra.Order.BigOperators.Group.List
import Mathlib.Data.Set.Card

/-
  Replacing the closed groups of a map one after the other
  gives its quotient: what nodes are shown as is decided by
  the map from before, and edges are merged by their ends.

  Key definitions include:
    * `ArgumentMap.IsOutermostClosed`
    * `ArgumentMap.LeadsAs`
    * `ArgumentMap.IsQuotient`
    * `ArgumentMap.grouped`

  Main theorems:
    * `ArgumentMap.Completion.exists_edge`
    * `ArgumentMap.Nested.collapse_isQuotient`
    * `ArgumentMap.Arranged.exists_held`
    * `ArgumentMap.grouped_collapse`
-/

namespace Dialectic

namespace ArgumentMap

variable {map : ArgumentMap}
variable {g : MapGroup}

------------------------------------------------------------
-- Outermost Closed Groups
------------------------------------------------------------

/- A closed group that is in open groups only. -/
structure IsOutermostClosed
    (map : ArgumentMap)
    (g : MapGroup) : Prop where
  mem : g ∈ map.groups
  closed : g.isClosed = true
  around : ∀ h ∈ map.groups, map.IsWithin g.id h.id →
    h.isClosed = false

/-
  As long as no group has been replaced by a node, all the
  outermost closed groups are to be replaced.
-/
theorem collapsible_eq
    (hFresh : ∀ g ∈ map.groups, ¬ map.IsCollapsed g) :
    Collapsible map = map.IsOutermostClosed := by
  funext g
  apply propext
  constructor
  · exact fun hg => ⟨hg.mem, hg.closed, hg.around⟩
  · exact fun hg =>
      ⟨hg.mem, hg.closed, hFresh g hg.mem, hg.around⟩

/- The outermost closed groups are counted. -/
theorem Nested.length_outermostClosed
    (hMap : map.Nested)
    (hFresh : ∀ g ∈ map.groups, ¬ map.IsCollapsed g) :
    map.outermostClosed.length =
      {g | map.IsOutermostClosed g}.ncard := by
  have hIds :
      MapGroup.id '' {g | map.IsOutermostClosed g} =
        map.outermostClosed.toFinset := by
    ext id
    rw [← collapsible_eq hFresh]
    simp [hMap.mem_outermostClosed_iff]
  have hInjective :
      Set.InjOn MapGroup.id {g | map.IsOutermostClosed g} :=
    fun _ hg _ hh hSame =>
      group_eq hMap.groupIds hg.mem hh.mem hSame
  rw [← hInjective.ncard_image, hIds,
    Set.ncard_coe_finset,
    List.toFinset_card_of_nodup hMap.outermostClosed_nodup]

------------------------------------------------------------
-- Quotients
------------------------------------------------------------

/- What the ends of an edge are to be shown as. -/
def LeadsAs
    (map : ArgumentMap)
    (f : MapEdge)
    (source target : String) : Prop :=
  map.ShownAs map.IsOutermostClosed f.source source ∧
    map.ShownAs map.IsOutermostClosed f.target target

/-
  A map shows each outermost closed group of another map as a
  node.  Its edges stand for all edges that lead from one of
  its nodes to another one, and what is in no closed group is
  as before, except that open groups list the closed groups in
  them as nodes.
-/
structure IsQuotient (map quotient : ArgumentMap) :
    Prop where
  shown : ∀ n ∈ map.nodes,
    ∃! id, map.ShownAs map.IsOutermostClosed n.id id
  nodeIds : (quotient.nodes.map MapNode.id).Nodup
  nodes : ∀ id, (∃ n ∈ quotient.nodes, n.id = id) ↔
    (∃ n ∈ map.nodes,
        map.ShownAs map.IsOutermostClosed n.id id) ∨
      ∃ g, map.IsOutermostClosed g ∧ g.id = id
  noLoop : ∀ e ∈ quotient.edges, e.source ≠ e.target
  pairs : (quotient.edges.map MapEdge.pair).Nodup
  edges : ∀ source target, source ≠ target →
    ((∃ e ∈ quotient.edges, e.pair = (source, target)) ↔
      ∃ f ∈ map.edges, map.LeadsAs f source target)
  kinds : ∀ e ∈ quotient.edges, e.kinds.Nodup ∧
    ∀ kind, kind ∈ e.kinds ↔
      ∃ f ∈ map.edges,
        map.LeadsAs f e.source e.target ∧ kind ∈ f.kinds
  relations : ∀ e ∈ quotient.edges, e.relations.Nodup ∧
    ∀ relation, relation ∈ e.relations ↔
      ∃ f ∈ map.edges,
        map.LeadsAs f e.source e.target ∧
          relation ∈ f.relations
  free : ∀ n ∈ map.nodes,
    map.Free map.IsOutermostClosed n.id → n ∈ quotient.nodes
  opened : ∀ h ∈ map.groups, map.IsOpen h →
    ∃ ids, ids.Nodup ∧ h.flattened ids ∈ quotient.groups ∧
      ∀ id, id ∈ ids ↔
        ∃ g, map.IsOutermostClosed g ∧ g.id = id ∧
          g.parent = some h.id

------------------------------------------------------------
-- Complete Contractions
------------------------------------------------------------

section

variable {next : ArgumentMap}
variable {image : String → String}

/- In the end each node has gone where it is shown. -/
theorem Completion.shownAs_iff
    (hDone : Completion map next image)
    (hFresh : ∀ g ∈ map.groups, ¬ map.IsCollapsed g)
    {node : String}
    (hNode : ∃ n ∈ map.nodes, n.id = node)
    (shown : String) :
    map.ShownAs map.IsOutermostClosed node shown ↔
      image node = shown := by
  rcases hNode with ⟨n, hn, hId⟩
  subst hId
  have hFree :
      next.Free (Collapsible next) (image n.id) :=
    fun g hg => absurd hg (hDone.nothing g)
  rw [← collapsible_eq hFresh, hDone.contraction.shown n hn,
    hFree.shownAs_iff]

/- In the end edges lead where their ends are shown. -/
theorem Completion.leadsAs_iff
    (hDone : Completion map next image)
    (hMap : map.Nested)
    (hFresh : ∀ g ∈ map.groups, ¬ map.IsCollapsed g)
    {f : MapEdge}
    (hf : f ∈ map.edges)
    (source target : String) :
    map.LeadsAs f source target ↔
      (f.moved image).pair = (source, target) := by
  rcases hMap.ends f hf with ⟨hSource, hTarget⟩
  unfold LeadsAs
  rw [hDone.shownAs_iff hFresh hSource,
    hDone.shownAs_iff hFresh hTarget]
  simp [MapEdge.pair, MapEdge.moved]

/-
  In the end, once edges are merged, one from a node to another
  has a property if one had it that leads so, for properties
  that edges keep when they are moved, and take over.
-/
theorem Completion.exists_edge
    (hDone : Completion map next image)
    (hMap : map.Nested)
    (hFresh : ∀ g ∈ map.groups, ¬ map.IsCollapsed g)
    (Has : MapEdge → Prop)
    (hTakes : ∀ f e : MapEdge,
      Has (f.absorb e) ↔ Has f ∨ Has e)
    (hMoves : ∀ f : MapEdge, Has (f.moved image) ↔ Has f)
    {source target : String}
    (hApart : source ≠ target) :
    (∃ e ∈ next.mergeEdges.edges,
        e.pair = (source, target) ∧ Has e) ↔
      ∃ f ∈ map.edges,
        map.LeadsAs f source target ∧ Has f := by
  rw [exists_mergeEdges hTakes hDone.nested.noLoop]
  constructor
  · rintro ⟨e, he, hPair, hHas⟩
    rcases (hDone.contraction.edges e).mp he with
      ⟨f, hf, _, hSame⟩
    subst hSame
    exact
      ⟨f, hf,
        (hDone.leadsAs_iff hMap hFresh hf _ _).mpr hPair,
        (hMoves f).mp hHas⟩
  · rintro ⟨f, hf, hLeads, hHas⟩
    have hPair :=
      (hDone.leadsAs_iff hMap hFresh hf _ _).mp hLeads
    refine
      ⟨f.moved image, ?_, hPair, (hMoves f).mpr hHas⟩
    refine (hDone.contraction.edges _).mpr ⟨f, hf, ?_, rfl⟩
    rcases Prod.mk.inj hPair with ⟨hSource, hTarget⟩
    intro hLoop
    exact hApart (hSource.symm.trans (hLoop.trans hTarget))

/-
  In the end an edge has what the edges have that lead from its
  source to its target.
-/
theorem Completion.has_iff
    (hDone : Completion map next image)
    (hMap : map.Nested)
    (hFresh : ∀ g ∈ map.groups, ¬ map.IsCollapsed g)
    (Has : MapEdge → Prop)
    (hTakes : ∀ f e : MapEdge,
      Has (f.absorb e) ↔ Has f ∨ Has e)
    (hMoves : ∀ f : MapEdge, Has (f.moved image) ↔ Has f)
    {e : MapEdge}
    (he : e ∈ next.mergeEdges.edges) :
    Has e ↔
      ∃ f ∈ map.edges,
        map.LeadsAs f e.source e.target ∧ Has f := by
  have hApart : e.source ≠ e.target :=
    hDone.nested.mergeEdges_noLoop e he
  rw [← hDone.exists_edge hMap hFresh Has hTakes hMoves hApart]
  constructor
  · exact fun hHas => ⟨e, he, rfl, hHas⟩
  · rintro ⟨f, hf, hPair, hHas⟩
    have hSame :=
      List.inj_on_of_nodup_map hDone.nested.merged.2.1 hf he
        hPair
    exact hSame ▸ hHas

/- In the end edges stand for each relation once. -/
theorem Completion.unrepeated
    (hDone : Completion map next image)
    (hEdges : ∀ e ∈ map.edges, e.Unrepeated) :
    ∀ e ∈ next.mergeEdges.edges, e.Unrepeated := by
  have hMoved : ∀ e ∈ next.edges, e.Unrepeated := by
    intro e he
    rcases (hDone.contraction.edges e).mp he with
      ⟨f, hf, _, hSame⟩
    subst hSame
    exact ⟨(hEdges f hf).kinds, (hEdges f hf).relations⟩
  rw [mergeEdges_eq hDone.nested.noLoop]
  exact
    MapEdge.foldl_mergeInto_kept (fun _ e hf => hf.absorb e)
      (by simp) hMoved

/- A complete contraction with merged edges is the quotient. -/
theorem Completion.isQuotient
    (hDone : Completion map next image)
    (hMap : map.Nested)
    (hFresh : ∀ g ∈ map.groups, ¬ map.IsCollapsed g)
    (hEdges : ∀ e ∈ map.edges, e.Unrepeated) :
    map.IsQuotient next.mergeEdges where
  shown := by
    intro n _
    rw [← collapsible_eq hFresh]
    exact hMap.exists_shownAs n.id
  nodeIds := hDone.nested.nodeIds
  nodes := by
    intro id
    constructor
    · rintro ⟨k, hk, hId⟩
      subst hId
      rcases hDone.contraction.origins k hk with
        ⟨n, hn, hImage⟩ | ⟨g, hg, hId⟩
      · left
        exact
          ⟨n, hn,
            (hDone.shownAs_iff hFresh ⟨n, hn, rfl⟩ _).mpr
              hImage⟩
      · right
        exact ⟨g, collapsible_eq hFresh ▸ hg, hId⟩
    · rintro (⟨n, hn, hShown⟩ | ⟨g, hg, hId⟩)
      · rw [hDone.shownAs_iff hFresh ⟨n, hn, rfl⟩] at hShown
        rw [← hShown]
        exact hDone.contraction.lands n hn
      · rw [← collapsible_eq hFresh] at hg
        rw [← hId]
        rcases hDone.contraction.replaced g hg with
          ⟨h, hh, _⟩ | ⟨hNode, _⟩
        · exact absurd hh (hDone.nothing h)
        · exact hNode
  noLoop := hDone.nested.mergeEdges_noLoop
  pairs := hDone.nested.merged.2.1
  edges := by
    intro source target hApart
    simpa using
      hDone.exists_edge hMap hFresh (fun _ => True)
        (fun _ _ => (or_self_iff).symm) (fun _ => Iff.rfl)
        hApart
  kinds := by
    intro e he
    refine ⟨(hDone.unrepeated hEdges e he).kinds, ?_⟩
    intro kind
    exact
      hDone.has_iff hMap hFresh (fun f => kind ∈ f.kinds)
        (fun _ _ => Sequence.mem_addAllNew)
        (fun _ => Iff.rfl) he
  relations := by
    intro e he
    refine ⟨(hDone.unrepeated hEdges e he).relations, ?_⟩
    intro relation
    exact
      hDone.has_iff hMap hFresh
        (fun f => relation ∈ f.relations)
        (fun _ _ => Sequence.mem_addAllNew)
        (fun _ => Iff.rfl) he
  free := by
    intro n hn hFree
    rw [← collapsible_eq hFresh] at hFree
    exact (hDone.contraction.free n hn hFree).1
  opened := by
    intro h hh hOpen
    rcases hDone.contraction.opened h hh hOpen with
      ⟨ids, hListed, hIds⟩
    have hUnique : (h.nodes ++ ids).Nodup :=
      (hDone.nested.members _ hListed).1
    refine
      ⟨ids, (List.nodup_append.mp hUnique).2.1, hListed, ?_⟩
    intro id
    have hNone :
        ¬ ∃ k, Collapsible next k ∧ k.id = id := by
      rintro ⟨k, hk, _⟩
      exact hDone.nothing k hk
    rw [hIds, and_iff_left hNone, collapsible_eq hFresh]

/- A map with nothing to be replaced stays as it is. -/
theorem Completion.collapse_again
    (hDone : Completion map next image) :
    next.mergeEdges.collapse = (next.mergeEdges, 0) := by
  have hNone : next.mergeEdges.outermostClosed = [] := by
    rw [List.eq_nil_iff_forall_not_mem]
    intro id hMem
    rcases hDone.nested.mergeEdges.mem_outermostClosed_iff.mp
        hMem with
      ⟨g, hg, _⟩
    exact
      hDone.nothing g
        ⟨hg.mem, hg.closed, hg.notYet, hg.around⟩
  simp [ArgumentMap.collapse, hNone]

end

------------------------------------------------------------
-- Collapsed Maps
------------------------------------------------------------

/-
  The closed groups of a map without loops and parallel edges
  are replaced, and its edges merged.
-/
theorem collapse_eq
    (hNoLoop : ∀ e ∈ map.edges, e.source ≠ e.target)
    (hPairs : (map.edges.map MapEdge.pair).Nodup) :
    map.collapse =
      ((map.outermostClosed.foldl collapseGroup
          map).mergeEdges,
        map.outermostClosed.length) := by
  unfold collapse
  cases hTargets : map.outermostClosed with
  | nil => simp [mergeEdges_eq_self hNoLoop hPairs]
  | cons id ids => rfl

/-
  Collapsing a nested map gives its quotient and the number of
  its outermost closed groups, and can be done only once.
-/
theorem Nested.collapse_isQuotient
    (hMap : map.Nested)
    (hFresh : ∀ g ∈ map.groups, ¬ map.IsCollapsed g)
    (hPairs : (map.edges.map MapEdge.pair).Nodup)
    (hEdges : ∀ e ∈ map.edges, e.Unrepeated) :
    map.IsQuotient map.collapse.1 ∧
      map.collapse.2 =
        {g | map.IsOutermostClosed g}.ncard ∧
      map.collapse.1.collapse = (map.collapse.1, 0) := by
  rcases hMap.collapse_completion with ⟨image, hDone⟩
  rw [collapse_eq hMap.noLoop hPairs]
  exact
    ⟨hDone.isQuotient hMap hFresh hEdges,
      hMap.length_outermostClosed hFresh,
      hDone.collapse_again⟩

/-
  In an arranged map each group has some node in it, as levels
  end and no group is empty.
-/
theorem Arranged.exists_held
    (hMap : map.Arranged)
    (hg : g ∈ map.groups)
    (hNotCollapsed : ¬ map.IsCollapsed g) :
    ∃ n ∈ map.nodes, map.Holds g.id n.id := by
  have hBound : ∀ g ∈ map.groups,
      g.level ≤ (map.groups.map MapGroup.level).sum :=
    fun g hg =>
      List.le_sum_of_mem (List.mem_map.mpr ⟨g, hg, rfl⟩)
  generalize (map.groups.map MapGroup.level).sum = bound
    at hBound
  induction hDepth : bound - g.level using
    Nat.strong_induction_on generalizing g with
  | _ depth ih =>
      rcases hMap.filled g hg hNotCollapsed with
        hNodes | hSubgroups
      · rcases List.exists_mem_of_ne_nil _ hNodes with
          ⟨id, hListed⟩
        rcases (hMap.members g hg).2 id hListed with
          ⟨n, hn, hId⟩
        have hGroup : n.group = some g.id :=
          (hMap.grouped n hn g.id).mpr
            ⟨g, hg, rfl, hId ▸ hListed⟩
        exact
          ⟨n, hn, n, hn, rfl, g.id, hGroup, Or.inl rfl⟩
      · rcases List.exists_mem_of_ne_nil _ hSubgroups with
          ⟨id, hListed⟩
        rcases hMap.subgroups g hg id hListed with
          ⟨h, hh, hId, hParent, hNot⟩
        have hLevel := hMap.level_eq hh hg hParent
        have hBelow := hBound h hh
        have hDeeper : bound - h.level < depth := by omega
        rcases ih _ hDeeper hh hNot rfl with
          ⟨n, hn, l, hl, hIdL, p, hGroup, hAbove⟩
        have hInside : map.IsWithin h.id g.id :=
          isWithin_of_parent hMap.groupIds hh hParent
            (Or.inl rfl)
        refine ⟨n, hn, l, hl, hIdL, p, hGroup, Or.inr ?_⟩
        rcases hAbove with hSame | hWithin
        · exact hSame ▸ hInside
        · exact .trans hWithin hInside

/- The map of a selection with its nodes in groups. -/
def grouped
    (m : Model)
    (s : Selection)
    (settings : MapSettings)
    (groups : GroupSettings) : ArgumentMap :=
  (build m s settings).buildGroups m groups

/-
  Collapsing the map of a selection with its nodes in groups
  gives its quotient and the number of its outermost closed
  groups, and can be done only once.  If the sections are in
  order, its nodes are just those that nodes are shown as.
-/
theorem grouped_collapse
    (m : Model)
    (s : Selection)
    (settings : MapSettings)
    (groups : GroupSettings) :
    IsQuotient (grouped m s settings groups)
        (grouped m s settings groups).collapse.1 ∧
      (grouped m s settings groups).collapse.2 =
        {g | IsOutermostClosed (grouped m s settings groups)
          g}.ncard ∧
      (grouped m s settings groups).collapse.1.collapse =
        ((grouped m s settings groups).collapse.1, 0) ∧
      (SectionsOrdered m.sections → ∀ id,
        (∃ n ∈ (grouped m s settings groups).collapse.1.nodes,
            n.id = id) ↔
          ∃ n ∈ (grouped m s settings groups).nodes,
            ShownAs (grouped m s settings groups)
              (IsOutermostClosed (grouped m s settings groups))
              n.id id) := by
  have hPlain := build_plain m s settings
  have hNested := hPlain.buildGroups_nested m groups
  have hQuotient :=
    hNested.1.collapse_isQuotient hNested.2 hPlain.pairs
      (build_unrepeated m s settings)
  refine
    ⟨hQuotient.1, hQuotient.2.1, hQuotient.2.2, ?_⟩
  intro hOrdered id
  have hArranged :=
    hPlain.buildGroups_arranged hOrdered groups
  refine (hQuotient.1.nodes id).trans (or_iff_left_of_imp ?_)
  rintro ⟨g, hg, hId⟩
  rcases hArranged.exists_held hg.mem (hNested.2 g hg.mem) with
    ⟨n, hn, hHolds⟩
  exact ⟨n, hn, Or.inl ⟨g, hg, hId, hHolds⟩⟩

/-
  A model with one class, in the last of three sections each
  of which is in the one before.
-/
def threeSections (lastId : Nat) : Model :=
  .ofData { ModelData.empty with
    classes :=
      [{ EquivalenceClass.new "A" 0 with
          sectionId := some 2 }]
    sections :=
      [⟨0, "Outer", 1, none, [], [], Span.origin⟩,
        ⟨1, "Inner", 2, some 0, [], [], Span.origin⟩,
        ⟨lastId, "Innermost", 3, some 1, [], [],
          Span.origin⟩] }

/- The map of this class, with the group in the middle closed. -/
def threeGroups (lastId : Nat) : ArgumentMap :=
  grouped (threeSections lastId) ⟨["A"], []⟩ ⟨false, false⟩
    ⟨3, ["Inner"], none, none⟩

/-
  If the sections are in order, the class is shown as the
  closed group.
-/
theorem grouped_collapse_inner :
    SectionsOrdered (threeSections 2).sections ∧
      ∃ n ∈ (threeGroups 2).nodes,
        (threeGroups 2).ShownAs
          (threeGroups 2).IsOutermostClosed n.id "g1" := by
  have hOrdered : SectionsOrdered (threeSections 2).sections :=
    ((sectionsOrdered_nil.append rfl (by simp)).append rfl
      (by simp)).append rfl (by simp)
  have hNode :
      ∃ n ∈ (threeGroups 2).collapse.1.nodes, n.id = "g1" := by
    decide +kernel
  exact
    ⟨hOrdered,
      ((grouped_collapse _ _ _ _).2.2.2 hOrdered "g1").mp
        hNode⟩

/-
  If the last section has the id of the first one, the node
  joins the group of the first one, and the closed group ends
  up without nodes.  It becomes a node all the same, although
  no node is shown as it.
-/
theorem grouped_collapse_hollow :
    (∃ n ∈ (threeGroups 0).collapse.1.nodes, n.id = "g1") ∧
      ¬ ∃ n ∈ (threeGroups 0).nodes,
        (threeGroups 0).ShownAs
          (threeGroups 0).IsOutermostClosed n.id "g1" := by
  have hNodes : ∀ n ∈ (threeGroups 0).nodes,
      n.id ≠ "g1" ∧ n.group = some "g0" := by
    decide +kernel
  have hTop : (threeGroups 0).parent? "g0" = none := by
    decide +kernel
  refine ⟨by decide +kernel, ?_⟩
  rintro ⟨n, hn, ⟨g, _, hId, k, hk, _, p, hGroup, hAbove⟩ |
    ⟨hSame, _⟩⟩
  · rw [(hNodes k hk).2, Option.some.injEq] at hGroup
    subst hGroup
    rw [hId] at hAbove
    rcases hAbove with hSame | hWithin
    · exact absurd hSame (by decide)
    · rcases Relation.TransGen.head'_iff.mp hWithin with
        ⟨above, hParent, _⟩
      rw [hTop] at hParent
      cases hParent
  · exact (hNodes n hn).1 hSame

end ArgumentMap

end Dialectic
