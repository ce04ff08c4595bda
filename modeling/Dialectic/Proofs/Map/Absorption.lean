import Dialectic.Proofs.Map.Chains
import Dialectic.Proofs.Map.Depiction
import Dialectic.Proofs.Map.Quotient

/-
  A collapsed map shows each outermost closed group as a node
  that has the titles and the tags of the nodes in the group.
  Of the titles that such a node stood for, only its own one is
  taken over, so others may be lost.

  Key definitions include:
    * `ArgumentMap.Pending`
    * `ArgumentMap.Absorption`
    * `MapNode.IsDrawn`
    * `ArgumentMap.StandsFor`
    * `ArgumentMap.CarriesOver`

  Main theorems:
    * `ArgumentMap.Collapsible.ownNode_changed`
    * `ArgumentMap.Absorption.collapseGroup`
    * `ArgumentMap.Nested.mem_collapse_nodes`
    * `ArgumentMap.grouped_drawn`
    * `ArgumentMap.grouped_collapse_carriesOver`
-/

namespace Dialectic

namespace ArgumentMap

variable {map next : ArgumentMap}
variable {g h : MapGroup}

------------------------------------------------------------
-- Nodes of Groups
------------------------------------------------------------

/- The nodes that the node of a group takes titles from. -/
theorem Collapsible.mem_absorbed
    (hMap : map.Nested)
    (hg : Collapsible map g)
    {n : MapNode} :
    n ∈ map.nodes.filter
        (fun n => (map.descendants g.id).nodes.contains n.id) ↔
      n ∈ map.nodes ∧ map.Holds g.id n.id := by
  rw [List.mem_filter, List.contains_iff_mem,
    hg.mem_nodes_iff_holds hMap]

/- The node of a group has the titles of the nodes in it. -/
theorem Collapsible.mem_ownNode_members
    (hMap : map.Nested)
    (hg : Collapsible map g)
    {title : String} :
    title ∈ (ownNode map g).members ↔
      ∃ n ∈ map.nodes, map.Holds g.id n.id ∧
        n.title = title := by
  simp only [ownNode, groupNode, List.mem_map,
    hg.mem_absorbed hMap, and_assoc]

/- The node of a group has the tags of the nodes in it. -/
theorem Collapsible.mem_ownNode_tags
    (hMap : map.Nested)
    (hg : Collapsible map g)
    {tag : String} :
    tag ∈ (ownNode map g).tags ↔
      ∃ n ∈ map.nodes, map.Holds g.id n.id ∧ tag ∈ n.tags := by
  simp only [ownNode, groupNode, Sequence.mem_addAllNew,
    List.mem_flatMap, hg.mem_absorbed hMap, and_assoc,
    List.not_mem_nil, false_or]

/- The node of a group has each tag once. -/
theorem ownNode_tags_nodup (map : ArgumentMap) (g : MapGroup) :
    (ownNode map g).tags.Nodup :=
  Sequence.nodup_addAllNew List.nodup_nil _

/- The other nodes stay in their order when one replaces some. -/
theorem filter_replaceNodes
    {nodes : List MapNode}
    {inner : List String}
    {node : MapNode}
    {p : MapNode → Bool}
    (hNode : p node = false)
    (hInner : ∀ n ∈ nodes, p n = true → n.id ∉ inner) :
    (replaceNodes nodes inner node).filter p =
      nodes.filter p := by
  unfold replaceNodes
  simp only
  conv_rhs =>
    rw [← List.takeWhile_append_dropWhile
      (p := fun n => !inner.contains n.id) (l := nodes)]
  rw [List.filter_append, List.filter_append,
    List.filter_cons_of_neg (by simp [hNode]),
    List.filter_filter]
  congr 1
  apply List.filter_congr
  intro n hn
  have hMem : n ∈ nodes :=
    (List.dropWhile_sublist _).mem hn
  cases hHere : p n with
  | false => rfl
  | true => simpa using hInner n hMem hHere

/- A group that stays has the same node when another goes. -/
theorem groupNode_changed
    (g h : MapGroup)
    (absorbed : List MapNode) :
    groupNode (changed g h) absorbed = groupNode h absorbed := by
  unfold changed
  split
  · rfl
  · split <;> rfl

/-
  Replacing a group by a node leaves what the nodes of other
  groups are going to be.
-/
theorem Collapsible.ownNode_changed
    (hMap : map.Nested)
    (hg : Collapsible map g)
    (hh : Collapsible map h)
    (hOther : h.id ≠ g.id) :
    ownNode (map.collapseGroup g.id) (changed g h) =
      ownNode map h := by
  have hLater : Collapsible (map.collapseGroup g.id)
      (changed g h) :=
    (hg.collapsible_iff hMap).mpr ⟨h, hh, hOther, rfl⟩
  have hSame : ∀ node,
      node ∈ ((map.collapseGroup g.id).descendants
          (changed g h).id).nodes ↔
        node ∈ (map.descendants h.id).nodes := by
    intro node
    rw [hLater.mem_nodes_iff_holds (hg.nested hMap),
      hh.mem_nodes_iff_holds hMap, changed_id,
      hg.holds_iff hMap hh hOther]
  have hNodes :
      (map.collapseGroup g.id).nodes.filter
          (fun n => ((map.collapseGroup g.id).descendants
            (changed g h).id).nodes.contains n.id) =
        map.nodes.filter
          (fun n =>
            (map.descendants h.id).nodes.contains n.id) := by
    simp only [List.contains_eq_mem, hSame]
    rw [hg.collapseGroup_eq hMap]
    apply filter_replaceNodes
    · rw [decide_eq_false_iff_not, hh.mem_nodes_iff_holds hMap]
      rintro ⟨n, hn, hId, _⟩
      exact hg.notYet ⟨n, hn, hId⟩
    · intro n _ hInside hGone
      rw [decide_eq_true_iff,
        hh.mem_nodes_iff_holds hMap] at hInside
      rw [hg.mem_nodes_iff_holds hMap] at hGone
      exact
        hOther
          (congrArg MapGroup.id
            (hMap.holder_eq hh hg hInside hGone))
  unfold ownNode
  rw [hNodes, groupNode_changed]

------------------------------------------------------------
-- Some Groups Replaced
------------------------------------------------------------

/- A group of the given id is still to be replaced. -/
def Pending (map : ArgumentMap) (id : String) : Prop :=
  ∃ g, Collapsible map g ∧ g.id = id

/-
  Some of the closed groups of a map have been replaced: their
  nodes are there instead of the nodes in them.  The other
  groups still have the same nodes in them, and are going to
  have the same node.
-/
structure Absorption (map next : ArgumentMap) : Prop where
  later : ∀ k, Collapsible next k →
    ∃ g, Collapsible map g ∧ g.id = k.id ∧
      ownNode next k = ownNode map g ∧
      ∀ node, next.Holds k.id node ↔ map.Holds g.id node
  nodes : ∀ n, n ∈ next.nodes ↔
    (n ∈ map.nodes ∧ ∀ g, Collapsible map g →
        map.Holds g.id n.id → next.Pending g.id) ∨
      ∃ g, Collapsible map g ∧ ¬ next.Pending g.id ∧
        n = ownNode map g

/- Nothing has been replaced in the beginning. -/
theorem Absorption.refl (map : ArgumentMap) :
    Absorption map map where
  later := fun k hk => ⟨k, hk, rfl, rfl, fun _ => Iff.rfl⟩
  nodes := by
    intro n
    constructor
    · exact fun hn => Or.inl ⟨hn, fun g hg _ => ⟨g, hg, rfl⟩⟩
    · rintro (⟨hn, _⟩ | ⟨g, hg, hNot, _⟩)
      · exact hn
      · exact absurd ⟨g, hg, rfl⟩ hNot

/- All but the group that is replaced are still pending. -/
theorem Collapsible.pending_iff
    (hMap : map.Nested)
    (hg : Collapsible map g)
    {id : String} :
    (map.collapseGroup g.id).Pending id ↔
      map.Pending id ∧ id ≠ g.id := by
  unfold Pending
  simp only [hg.collapsible_iff hMap]
  constructor
  · rintro ⟨k, ⟨h, hh, hOther, rfl⟩, hId⟩
    rw [changed_id] at hId
    subst hId
    exact ⟨⟨h, hh, rfl⟩, hOther⟩
  · rintro ⟨⟨h, hh, rfl⟩, hOther⟩
    exact ⟨changed g h, ⟨h, hh, hOther, rfl⟩, changed_id g h⟩

/- One more group may be replaced by its node. -/
theorem Absorption.collapseGroup
    (hIds : (map.groups.map MapGroup.id).Nodup)
    (hSome : Absorption map next)
    (hNext : next.Nested)
    (hg : Collapsible next g) :
    Absorption map (next.collapseGroup g.id) := by
  rcases hSome.later g hg with ⟨f, hf, hId, hOwn, hHolds⟩
  constructor
  case later =>
    intro k hk
    rcases (hg.collapsible_iff hNext).mp hk with
      ⟨h, hh, hOther, rfl⟩
    rcases hSome.later h hh with
      ⟨l, hl, hIdL, hOwnL, hHoldsL⟩
    refine ⟨l, hl, ?_, ?_, ?_⟩
    · rw [changed_id, hIdL]
    · rw [hg.ownNode_changed hNext hh hOther, hOwnL]
    · intro node
      rw [changed_id, hg.holds_iff hNext hh hOther]
      exact hHoldsL node
  case nodes =>
    intro n
    rw [hg.mem_nodes hNext, hg.mem_nodes_iff_holds hNext,
      hSome.nodes, hHolds, hOwn]
    simp only [hg.pending_iff hNext]
    constructor
    · rintro (rfl | ⟨⟨hn, hPending⟩ | ⟨l, hl, hNot, hSame⟩,
        hApart⟩)
      · right
        exact ⟨f, hf, fun hBoth => hBoth.2 hId, rfl⟩
      · left
        refine ⟨hn, fun l hl hInside => ⟨hPending l hl hInside, ?_⟩⟩
        intro hSame
        have hEq :=
          group_eq hIds hl.mem hf.mem (hSame.trans hId.symm)
        exact hApart (hEq ▸ hInside)
      · right
        exact ⟨l, hl, fun hBoth => hNot hBoth.1, hSame⟩
    · rintro (⟨hn, hPending⟩ | ⟨l, hl, hNot, rfl⟩)
      · right
        refine
          ⟨Or.inl ⟨hn, fun l hl hInside =>
            (hPending l hl hInside).1⟩, ?_⟩
        exact fun hInside => (hPending f hf hInside).2 hId
      · by_cases hHere : l.id = g.id
        · left
          rw [group_eq hIds hl.mem hf.mem
            (hHere.trans hId.symm)]
        · right
          refine
            ⟨Or.inr ⟨l, hl, fun hStill =>
              hNot ⟨hStill, hHere⟩, rfl⟩, ?_⟩
          -- the map has no node yet for a group to be replaced
          rintro ⟨k, hk, hIdK, _⟩
          exact hl.notYet ⟨k, hk, hIdK⟩

/- The nodes that are left when all groups are replaced. -/
theorem Nested.mem_collapse_nodes
    (hMap : map.Nested)
    (hFresh : ∀ g ∈ map.groups, ¬ map.IsCollapsed g)
    (hPairs : (map.edges.map MapEdge.pair).Nodup)
    (n : MapNode) :
    n ∈ map.collapse.1.nodes ↔
      (n ∈ map.nodes ∧ map.Free map.IsOutermostClosed n.id) ∨
        ∃ g, map.IsOutermostClosed g ∧ n = ownNode map g := by
  rcases Nested.foldl_collapseGroup
      (fun hNext hg hSome =>
        Absorption.collapseGroup hMap.groupIds hSome hNext hg)
      hMap (Absorption.refl map) hMap.outermostClosed_nodup
      (fun _ => hMap.mem_outermostClosed_iff) with
    ⟨_, hAll, hNothing⟩
  have hNone : ∀ id,
      ¬ Pending (map.outermostClosed.foldl
        ArgumentMap.collapseGroup map) id :=
    fun _ ⟨g, hg, _⟩ => hNothing g hg
  rw [collapse_eq hMap.noLoop hPairs]
  refine (hAll.nodes n).trans ?_
  simp only [hNone, imp_false, not_false_eq_true, true_and]
  rw [collapsible_eq hFresh]
  rfl

end ArgumentMap

------------------------------------------------------------
-- Nodes That Are Drawn
------------------------------------------------------------

/-
  A node stands for an argument or for classes, and its title
  is that of the first one.
-/
structure MapNode.IsDrawn (n : MapNode) : Prop where
  kind : n.kind ≠ .group
  title : n.members.head? = some n.title

/- A node is drawn when another class joins it. -/
theorem MapNode.IsDrawn.joinClass
    {n : MapNode}
    (hNode : n.IsDrawn)
    (m : Model)
    (c : EquivalenceClass) :
    (MapBuilder.joinClass m c n).IsDrawn := by
  refine ⟨hNode.kind, ?_⟩
  have hTitle := hNode.title
  unfold MapBuilder.joinClass
  simp only
  rw [List.head?_append, hTitle]
  rfl

/- Adding an element leaves nodes that are drawn. -/
theorem MapBuilder.addElement_drawn
    (m : Model)
    {ns : Nodes}
    (hNodes : ∀ n ∈ ns.nodes, n.IsDrawn)
    (element : Element) :
    ∀ n ∈ (addElement m ns element).nodes, n.IsDrawn := by
  have hAppend : ∀ {k : MapNode}, k.IsDrawn →
      ∀ n ∈ ns.nodes ++ [k], n.IsDrawn := by
    intro k hk n hn
    rcases List.mem_append.mp hn with hOld | hNew
    · exact hNodes n hOld
    · exact List.mem_singleton.mp hNew ▸ hk
  cases element with
  | argument title =>
      cases hFound : m.argument? title with
      | none => simpa only [addElement, hFound] using hNodes
      | some a =>
          simp only [addElement, hFound]
          exact hAppend ⟨by simp [argumentNode, MapNode.new], rfl⟩
  | statement title =>
      cases hFound : m.class? title with
      | none => simpa only [addElement, hFound] using hNodes
      | some c =>
          simp only [addElement, hFound]
          cases ns.shared.lookup
              ((m.representative? title).getD title) with
          | none =>
              exact hAppend ⟨by simp [classNode, MapNode.new], rfl⟩
          | some i =>
              intro n hn
              rcases Sequence.mem_modify hn with
                hOld | ⟨k, hk, rfl⟩
              · exact hNodes n hOld
              · exact (hNodes k hk).joinClass m c

namespace ArgumentMap

/- All nodes of a map that is built and grouped are drawn. -/
theorem grouped_drawn
    (m : Model)
    (s : Selection)
    (settings : MapSettings)
    (groups : GroupSettings) :
    ∀ n ∈ (grouped m s settings groups).nodes, n.IsDrawn := by
  have hBuilt : ∀ n ∈ (build m s settings).nodes,
      n.IsDrawn := by
    rw [build_nodes]
    exact
      List.foldlRecOn _ _
        (motive := fun ns : MapBuilder.Nodes =>
          ∀ n ∈ ns.nodes, n.IsDrawn)
        (by simp)
        (fun _ hNodes element _ =>
          MapBuilder.addElement_drawn m hNodes element)
  intro n hn
  have hMem :
      ungrouped n ∈ (build m s settings).nodes.map ungrouped := by
    rw [← placeNodes_ungrouped m groups
      ⟨(build m s settings).groups, []⟩]
    exact List.mem_map_of_mem hn
  rcases List.mem_map.mp hMem with ⟨k, hk, hSame⟩
  have hKind := congrArg MapNode.kind hSame
  have hTitle := congrArg MapNode.title hSame
  have hMembers := congrArg MapNode.members hSame
  simp only [ungrouped] at hKind hTitle hMembers
  exact
    ⟨hKind ▸ (hBuilt k hk).kind,
      hTitle ▸ hMembers ▸ (hBuilt k hk).title⟩

------------------------------------------------------------
-- What Stands for Nodes
------------------------------------------------------------

/-
  What stands for a node once its map is collapsed: the node of
  the outermost closed group that has it in it, or the node
  itself if there is none.
-/
def StandsFor (map : ArgumentMap) (k n : MapNode) : Prop :=
  (∃ g, map.IsOutermostClosed g ∧ map.Holds g.id n.id ∧
      k.id = g.id ∧ k.kind = .group) ∨
    (k = n ∧ map.Free map.IsOutermostClosed n.id)

/-
  What becomes of titles and tags when a map is collapsed.  One
  node stands for each node from before.  It has its titles,
  and if it is the node of a group, just those that come first
  in some node of the group.  It has no other titles, and the
  tags of all the nodes.
-/
structure CarriesOver (map next : ArgumentMap) : Prop where
  stands : ∀ n ∈ map.nodes,
    ∃! k, k ∈ next.nodes ∧ map.StandsFor k n
  members : ∀ n ∈ map.nodes, ∀ k ∈ next.nodes,
    map.StandsFor k n → ∀ title ∈ n.members,
      (title ∈ k.members ↔
        k = n ∨
          ∃ l ∈ map.nodes, map.StandsFor k l ∧
            l.members.head? = some title)
  origins : ∀ k ∈ next.nodes, ∀ title ∈ k.members,
    ∃ n ∈ map.nodes, map.StandsFor k n ∧ title ∈ n.members
  tags : ∀ k ∈ next.nodes, k.kind = .group →
    k.tags.Nodup ∧ ∀ tag, tag ∈ k.tags ↔
      ∃ n ∈ map.nodes, map.StandsFor k n ∧ tag ∈ n.tags

variable {map : ArgumentMap}
variable {g : MapGroup}

/- A node of a group stands for just the nodes in the group. -/
theorem Nested.ownNode_standsFor_iff
    (hMap : map.Nested)
    (hFresh : ∀ g ∈ map.groups, ¬ map.IsCollapsed g)
    (hg : map.IsOutermostClosed g)
    {n : MapNode}
    (hn : n ∈ map.nodes) :
    map.StandsFor (ownNode map g) n ↔ map.Holds g.id n.id := by
  constructor
  · rintro (⟨h, hh, hHolds, hId, _⟩ | ⟨hSame, _⟩)
    · rw [group_eq hMap.groupIds hg.mem hh.mem hId]
      exact hHolds
    · exact absurd ⟨n, hn, hSame ▸ rfl⟩ (hFresh g hg.mem)
  · exact fun hHolds => Or.inl ⟨g, hg, hHolds, rfl, rfl⟩

/- A node that is free stands for itself only. -/
theorem Free.standsFor_iff
    (hFresh : ∀ g ∈ map.groups, ¬ map.IsCollapsed g)
    {k n : MapNode}
    (hk : k ∈ map.nodes)
    (hFree : map.Free map.IsOutermostClosed k.id) :
    map.StandsFor k n ↔ k = n := by
  constructor
  · rintro (⟨g, hg, _, hId, _⟩ | ⟨hSame, _⟩)
    · exact absurd ⟨k, hk, hId⟩ (hFresh g hg.mem)
    · exact hSame
  · rintro rfl
    exact Or.inr ⟨rfl, hFree⟩

/- Collapsing a map carries over its titles and tags. -/
theorem Nested.collapse_carriesOver
    (hMap : map.Nested)
    (hFresh : ∀ g ∈ map.groups, ¬ map.IsCollapsed g)
    (hPairs : (map.edges.map MapEdge.pair).Nodup)
    (hDrawn : ∀ n ∈ map.nodes, n.IsDrawn) :
    CarriesOver map map.collapse.1 := by
  have hNodes := hMap.mem_collapse_nodes hFresh hPairs
  have hStill : ∀ {g}, map.IsOutermostClosed g →
      Collapsible map g :=
    fun hg => collapsible_eq hFresh ▸ hg
  have hOwn := fun {g} (hg : map.IsOutermostClosed g)
      {n : MapNode} (hn : n ∈ map.nodes) =>
    hMap.ownNode_standsFor_iff hFresh hg hn
  constructor
  case stands =>
    intro n hn
    by_cases hFree : map.Free map.IsOutermostClosed n.id
    · refine
        ⟨n, ⟨(hNodes n).mpr (Or.inl ⟨hn, hFree⟩),
          Or.inr ⟨rfl, hFree⟩⟩, ?_⟩
      rintro k ⟨_, ⟨g, hg, hHolds, _⟩ | ⟨hSame, _⟩⟩
      · exact absurd hHolds (hFree g hg)
      · exact hSame
    · have hHeld := hFree
      unfold Free at hHeld
      push Not at hHeld
      rcases hHeld with ⟨g, hg, hHolds⟩
      refine
        ⟨ownNode map g,
          ⟨(hNodes _).mpr (Or.inr ⟨g, hg, rfl⟩),
            (hOwn hg hn).mpr hHolds⟩, ?_⟩
      rintro k ⟨hk, hStands⟩
      rcases (hNodes k).mp hk with ⟨hOld, hFreeK⟩ | ⟨h, hh, rfl⟩
      · have hSame :=
          (hFreeK.standsFor_iff hFresh hOld).mp hStands
        exact absurd (hSame ▸ hFreeK) hFree
      · rw [hMap.holder_eq (hStill hg) (hStill hh) hHolds
          ((hOwn hh hn).mp hStands)]
  case members =>
    intro n hn k hk hStands title hTitle
    rcases (hNodes k).mp hk with ⟨hOld, hFree⟩ | ⟨g, hg, rfl⟩
    · have hSame := (hFree.standsFor_iff hFresh hOld).mp hStands
      exact iff_of_true (hSame ▸ hTitle) (Or.inl hSame)
    · have hOther : ownNode map g ≠ n := fun hSame =>
        hFresh g hg.mem ⟨n, hn, hSame ▸ rfl⟩
      rw [(hStill hg).mem_ownNode_members hMap,
        or_iff_right hOther]
      refine exists_congr fun l => and_congr_right fun hl => ?_
      rw [hOwn hg hl, (hDrawn l hl).title, Option.some_inj]
  case origins =>
    intro k hk title hTitle
    rcases (hNodes k).mp hk with ⟨hOld, hFree⟩ | ⟨g, hg, rfl⟩
    · exact ⟨k, hOld, Or.inr ⟨rfl, hFree⟩, hTitle⟩
    · rcases ((hStill hg).mem_ownNode_members hMap).mp hTitle
        with ⟨n, hn, hHolds, rfl⟩
      exact
        ⟨n, hn, (hOwn hg hn).mpr hHolds,
          List.mem_of_mem_head? (hDrawn n hn).title⟩
  case tags =>
    intro k hk hKind
    rcases (hNodes k).mp hk with ⟨hOld, _⟩ | ⟨g, hg, rfl⟩
    · exact absurd hKind (hDrawn k hOld).kind
    · refine ⟨ownNode_tags_nodup map g, fun tag => ?_⟩
      rw [(hStill hg).mem_ownNode_tags hMap]
      refine exists_congr fun n => and_congr_right fun hn => ?_
      rw [hOwn hg hn]

/-
  Collapsing the map of a selection with its nodes in groups
  forgets a class just if its node is in a closed group and its
  title comes first in no node there.  No class or argument is
  forgotten that has a node of its own, and tags never are.
-/
theorem grouped_collapse_carriesOver
    (m : Model)
    (s : Selection)
    (settings : MapSettings)
    (groups : GroupSettings) :
    CarriesOver (grouped m s settings groups)
      (grouped m s settings groups).collapse.1 := by
  have hPlain := build_plain m s settings
  have hNested := hPlain.buildGroups_nested m groups
  exact
    hNested.1.collapse_carriesOver hNested.2 hPlain.pairs
      (grouped_drawn m s settings groups)

/- Two equivalent classes in a section. -/
def twoSynonyms : Model :=
  .ofData { ModelData.empty with
    classes :=
      [{ EquivalenceClass.new "A" 0 with
          equivalentTo := ["B"]
          sectionId := some 0 },
        { EquivalenceClass.new "B" 1 with
          equivalentTo := ["A"]
          sectionId := some 0 }]
    sections := [⟨0, "Outer", 1, none, [], [], Span.origin⟩] }

/- The second one is forgotten when its section is closed. -/
example :
    let map :=
      grouped twoSynonyms ⟨["A", "B"], []⟩ ⟨false, false⟩
        ⟨1, ["Outer"], none, none⟩
    map.nodes.map MapNode.members = [["A", "B"]] ∧
      map.collapse.1.nodes.map MapNode.members = [["A"]] := by
  decide +kernel

end ArgumentMap

end Dialectic
