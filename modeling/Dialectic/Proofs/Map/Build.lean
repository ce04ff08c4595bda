import Dialectic.Map.Builder
import Dialectic.Proofs.Data.Numbering
import Dialectic.Proofs.Map.Edges

/-
  A map that has just been built is arranged: its nodes are in
  no groups yet, and its ids are numbered.

  Key definitions include:
    * `MapBuilder.Nodes.Plain`
    * `ArgumentMap.Plain`

  Main theorems:
    * `MapBuilder.addElement_plain`
    * `MapBuilder.addRelation_plain`
    * `ArgumentMap.build_plain`
    * `ArgumentMap.build_kept`
    * `ArgumentMap.build_unrepeated`
    * `ArgumentMap.Plain.arranged`
-/

namespace Dialectic

------------------------------------------------------------
-- Plain Maps
------------------------------------------------------------

/- The ids of nodes are numbered, and none is in a group. -/
structure MapBuilder.Nodes.Plain (nodes : List MapNode) :
    Prop where
  ids : Numbered 'n' (nodes.map MapNode.id)
  ungrouped : ∀ group ∈ nodes.map MapNode.group, group = none

/-
  A map without groups.  The ids of its nodes and edges are
  numbered, and it has at most one edge from a node to another
  one.
-/
structure ArgumentMap.Plain (map : ArgumentMap) : Prop where
  nodes : MapBuilder.Nodes.Plain map.nodes
  noGroups : map.groups = []
  edgeIds : Numbered 'e' (map.edges.map MapEdge.id)
  ends : ∀ e ∈ map.edges,
    (∃ n ∈ map.nodes, n.id = e.source) ∧
      ∃ n ∈ map.nodes, n.id = e.target
  noLoop : ∀ e ∈ map.edges, e.source ≠ e.target
  pairs : (map.edges.map MapEdge.pair).Nodup

namespace MapBuilder

------------------------------------------------------------
-- Nodes
------------------------------------------------------------

/- Nodes stay plain when one with the next id is added. -/
theorem Nodes.Plain.append
    {nodes : List MapNode}
    (hNodes : Nodes.Plain nodes)
    {n : MapNode}
    (hId : n.id = "n" ++ toString nodes.length)
    (hGroup : n.group = none) :
    Nodes.Plain (nodes ++ [n]) := by
  constructor
  · have hNext := hNodes.ids.append
    rw [List.length_map] at hNext
    rw [List.map_append, List.map_singleton, hId]
    exact hNext
  · intro group hMem
    rw [List.map_append, List.mem_append] at hMem
    rcases hMem with hOld | hNew
    · exact hNodes.ungrouped group hOld
    · simpa [hGroup] using hNew

/- Nodes stay plain when one of them stands for more. -/
theorem Nodes.Plain.joinClass
    {nodes : List MapNode}
    (hNodes : Nodes.Plain nodes)
    (m : Model)
    (c : EquivalenceClass)
    (i : Nat) :
    Nodes.Plain (nodes.modify i (MapBuilder.joinClass m c)) := by
  have hKeep : ∀ n : MapNode,
      (MapBuilder.joinClass m c n).id = n.id ∧
        (MapBuilder.joinClass m c n).group = n.group :=
    fun _ => ⟨rfl, rfl⟩
  constructor
  · rw [Sequence.map_modify _ _ _ (fun n => (hKeep n).1)]
    exact hNodes.ids
  · rw [Sequence.map_modify _ _ _ (fun n => (hKeep n).2)]
    exact hNodes.ungrouped

/- Nodes stay plain when the node of an element is added. -/
theorem addElement_plain
    (m : Model)
    {ns : Nodes}
    (hNodes : Nodes.Plain ns.nodes)
    (element : Element) :
    Nodes.Plain (addElement m ns element).nodes := by
  cases element with
  | argument title =>
      cases hFound : m.argument? title with
      | none =>
          simp only [addElement, hFound]
          exact hNodes
      | some a =>
          simp only [addElement, hFound]
          exact hNodes.append rfl rfl
  | statement title =>
      cases hFound : m.class? title with
      | none =>
          simp only [addElement, hFound]
          exact hNodes
      | some c =>
          cases hShared : ns.shared.lookup
              ((m.representative? title).getD title) with
          | none =>
              simp only [addElement, hFound, hShared]
              exact hNodes.append rfl rfl
          | some i =>
              simp only [addElement, hFound, hShared]
              exact hNodes.joinClass m c i

/- The nodes of all elements are plain. -/
theorem foldl_addElement_plain
    (m : Model)
    (elements : List Element)
    {ns : Nodes}
    (hNodes : Nodes.Plain ns.nodes) :
    Nodes.Plain (elements.foldl (addElement m) ns).nodes := by
  induction elements generalizing ns with
  | nil => exact hNodes
  | cons element elements ih =>
      exact ih (addElement_plain m hNodes element)

------------------------------------------------------------
-- Edges
------------------------------------------------------------

/- The map with an edge between two different nodes. -/
theorem addEdge_eq
    (map : ArgumentMap)
    {source target : String}
    (hOther : source ≠ target)
    (kind : RelationKind)
    (relation : Nat) :
    (map.addEdge source target kind relation).1 =
      { map with
        edges :=
          MapEdge.mergeInto map.edges
            (map.newEdge source target kind relation) } := by
  simp [ArgumentMap.addEdge, hOther]

/- A map stays plain when an edge is added. -/
theorem addEdge_plain
    {map : ArgumentMap}
    (hMap : map.Plain)
    {source target : String}
    (hSource : ∃ n ∈ map.nodes, n.id = source)
    (hTarget : ∃ n ∈ map.nodes, n.id = target)
    (kind : RelationKind)
    (relation : Nat) :
    (map.addEdge source target kind relation).1.Plain := by
  by_cases hSame : source = target
  · simpa [ArgumentMap.addEdge, hSame] using hMap
  · rw [addEdge_eq map hSame]
    have hEdges : ∀ e ∈ MapEdge.mergeInto map.edges
        (map.newEdge source target kind relation),
        ((∃ n ∈ map.nodes, n.id = e.source) ∧
            ∃ n ∈ map.nodes, n.id = e.target) ∧
          e.source ≠ e.target := by
      intro e he
      rcases MapEdge.mem_mergeInto he with
        ⟨f, hOld | hNew, _, hFrom, hTo⟩
      · rw [hFrom, hTo]
        exact ⟨hMap.ends f hOld, hMap.noLoop f hOld⟩
      · rw [hFrom, hTo, hNew]
        exact ⟨⟨hSource, hTarget⟩, hSame⟩
    refine
      ⟨hMap.nodes, hMap.noGroups, ?_, fun e he => (hEdges e he).1,
        fun e he => (hEdges e he).2,
        MapEdge.mergeInto_pairs _ hMap.pairs⟩
    rcases MapEdge.mergeInto_eq map.edges
        (map.newEdge source target kind relation) with
      ⟨_, hEq⟩ | ⟨_, hEq⟩
    · simp only
      rw [hEq,
        Sequence.map_modifyFirst _ _ _ (MapEdge.absorb_id · _)]
      exact hMap.edgeIds
    · have hNext := hMap.edgeIds.append
      rw [List.length_map] at hNext
      simp only
      rw [hEq, List.map_append]
      exact hNext

/- A map stays plain when a relation is added. -/
theorem addRelation_plain
    {map : ArgumentMap}
    (hMap : map.Plain)
    (r : Relation) :
    (addRelation map r).Plain := by
  unfold addRelation
  cases hSource : map.nodeFor? r.source with
  | none => exact hMap
  | some source =>
      cases hTarget : map.nodeFor? r.target with
      | none => exact hMap
      | some target =>
          exact
            addEdge_plain hMap
              ⟨source, List.mem_of_find?_eq_some hSource, rfl⟩
              ⟨target, List.mem_of_find?_eq_some hTarget, rfl⟩
              _ _

/- Adding a relation keeps what merging its edge keeps. -/
theorem addRelation_kept
    {Kept : MapEdge → Prop}
    (hAbsorb : ∀ f e : MapEdge, Kept f → Kept (f.absorb e))
    (hNew : ∀ (map : ArgumentMap) source target kind relation,
      Kept (map.newEdge source target kind relation))
    {map : ArgumentMap}
    (hEdges : ∀ e ∈ map.edges, Kept e)
    (r : Relation) :
    ∀ e ∈ (addRelation map r).edges, Kept e := by
  unfold addRelation
  cases map.nodeFor? r.source with
  | none => exact hEdges
  | some source =>
      cases map.nodeFor? r.target with
      | none => exact hEdges
      | some target =>
          by_cases hSame : source.id = target.id
          · simpa [ArgumentMap.addEdge, hSame] using hEdges
          · simp only
            rw [addEdge_eq map hSame]
            exact
              MapEdge.mergeInto_kept hAbsorb hEdges
                (hNew _ _ _ _ _)

end MapBuilder

namespace ArgumentMap

------------------------------------------------------------
-- Maps
------------------------------------------------------------

/- A map that has just been built is plain. -/
theorem build_plain
    (m : Model)
    (s : Selection)
    (settings : MapSettings) :
    (build m s settings).Plain := by
  have hNone : MapBuilder.Nodes.Plain [] :=
    ⟨Numbered.nil 'n', by simp⟩
  have hNodes :
      MapBuilder.Nodes.Plain
        ((MapBuilder.elements m s).foldl
          (MapBuilder.addElement m) ⟨[], []⟩).nodes :=
    MapBuilder.foldl_addElement_plain m _ hNone
  have hRelations : ∀ (relations : List Relation)
      {map : ArgumentMap}, map.Plain →
        (relations.foldl MapBuilder.addRelation map).Plain := by
    intro relations
    induction relations with
    | nil => exact fun hMap => hMap
    | cons r relations ih =>
        intro map hMap
        exact ih (MapBuilder.addRelation_plain hMap r)
  unfold build
  apply hRelations
  exact
    ⟨hNodes, rfl, Numbered.nil 'e', by simp, by simp, by simp⟩

/-
  All edges of a map that has just been built have what new
  edges have and merged ones keep.
-/
theorem build_kept
    {Kept : MapEdge → Prop}
    (hAbsorb : ∀ f e : MapEdge, Kept f → Kept (f.absorb e))
    (hNew : ∀ (map : ArgumentMap) source target kind relation,
      Kept (map.newEdge source target kind relation))
    (m : Model)
    (s : Selection)
    (settings : MapSettings) :
    ∀ e ∈ (build m s settings).edges, Kept e := by
  have hRelations : ∀ (relations : List Relation)
      {map : ArgumentMap}, (∀ e ∈ map.edges, Kept e) →
        ∀ e ∈ (relations.foldl MapBuilder.addRelation map).edges,
          Kept e := by
    intro relations
    induction relations with
    | nil => exact fun hEdges => hEdges
    | cons r relations ih =>
        intro map hEdges
        exact
          ih (MapBuilder.addRelation_kept hAbsorb hNew hEdges r)
  unfold build
  apply hRelations
  simp

/-
  The edges of a map that has just been built stand for each
  kind and each relation once.
-/
theorem build_unrepeated
    (m : Model)
    (s : Selection)
    (settings : MapSettings) :
    ∀ e ∈ (build m s settings).edges, e.Unrepeated :=
  build_kept (fun _ e hf => hf.absorb e)
    (fun _ _ _ _ _ =>
      ⟨List.nodup_singleton _, List.nodup_singleton _⟩)
    m s settings

/- A plain map is arranged. -/
theorem Plain.arranged
    {map : ArgumentMap}
    (hMap : map.Plain) :
    map.Arranged where
  nodeIds := hMap.nodes.ids.nodup
  edgeIds := hMap.edgeIds.nodup
  groupIds := by simp [hMap.noGroups]
  edgeApart := by
    intro e he
    constructor
    · intro n hn hSame
      have hApart :=
        hMap.edgeIds.ne_of_letters hMap.nodes.ids (by decide)
          (List.mem_map.mpr ⟨e, he, rfl⟩)
      exact hApart (List.mem_map.mpr ⟨n, hn, hSame.symm⟩)
    · simp [hMap.noGroups]
  ends := hMap.ends
  noLoop := hMap.noLoop
  grouped := by
    intro n hn id
    have hNone : n.group = none :=
      hMap.nodes.ungrouped _ (List.mem_map.mpr ⟨n, hn, rfl⟩)
    simp [hNone, hMap.noGroups]
  members := by simp [hMap.noGroups]
  parents := by simp [hMap.noGroups]
  subgroups := by simp [hMap.noGroups]
  listed := by simp [hMap.noGroups]
  filled := by simp [hMap.noGroups]
  collapsed := by simp [hMap.noGroups]
  openAround := by simp [hMap.noGroups]

end ArgumentMap

end Dialectic
