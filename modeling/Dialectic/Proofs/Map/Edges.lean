import Dialectic.Proofs.Map.Arrangement

/-
  Merging parallel edges keeps a map arranged and leaves at
  most one edge from a node to another one, which stands for
  all relations that the parallel edges stood for.

  Key definitions include:
    * `MapEdge.pair`
    * `MapEdge.SameEnds`
    * `MapEdge.Unrepeated`

  Main theorems:
    * `MapEdge.mem_mergeInto`
    * `MapEdge.mem_foldl_mergeInto`
    * `MapEdge.exists_foldl_mergeInto`
    * `MapEdge.foldl_mergeInto_kept`
    * `ArgumentMap.Arranged.mergeEdges`
    * `ArgumentMap.exists_mergeEdges`
-/

namespace Dialectic

namespace MapEdge

------------------------------------------------------------
-- Merging Two Edges
------------------------------------------------------------

/- The ends of an edge, in order. -/
def pair (e : MapEdge) : String × String :=
  (e.source, e.target)

/- Two edges have the same id and the same ends. -/
def SameEnds (e f : MapEdge) : Prop :=
  e.id = f.id ∧ e.source = f.source ∧ e.target = f.target

/- An edge leads where its pair of ends says. -/
theorem joins_iff (e : MapEdge) (source target : String) :
    e.joins source target = true ↔ e.pair = (source, target) := by
  simp [joins, pair]

/- An edge that takes over relations keeps its id. -/
theorem absorb_id (f e : MapEdge) : (f.absorb e).id = f.id :=
  rfl

/- An edge that takes over relations keeps its ends. -/
theorem absorb_pair (f e : MapEdge) :
    (f.absorb e).pair = f.pair :=
  rfl

/- An edge that is merged is parallel to one or added. -/
theorem mergeInto_eq (edges : List MapEdge) (e : MapEdge) :
    (∃ f ∈ edges, f.pair = e.pair) ∧
        mergeInto edges e =
          Sequence.modifyFirst
            (fun f => f.joins e.source e.target)
            (fun f => f.absorb e) edges ∨
      (∀ f ∈ edges, f.pair ≠ e.pair) ∧
        mergeInto edges e = edges ++ [e] := by
  by_cases hParallel :
      edges.any (fun f => f.joins e.source e.target) = true
  · left
    rw [mergeInto, if_pos hParallel]
    refine ⟨?_, rfl⟩
    simpa [joins_iff, pair] using hParallel
  · right
    rw [mergeInto, if_neg hParallel]
    refine ⟨?_, rfl⟩
    intro f hf hSame
    exact
      hParallel
        (List.any_eq_true.mpr
          ⟨f, hf, (joins_iff f _ _).mpr hSame⟩)

/- Each edge has the id and ends of one that was merged. -/
theorem mem_mergeInto
    {edges : List MapEdge}
    {e f : MapEdge}
    (hMem : f ∈ mergeInto edges e) :
    ∃ k, (k ∈ edges ∨ k = e) ∧ f.SameEnds k := by
  rcases mergeInto_eq edges e with ⟨_, hEq⟩ | ⟨_, hEq⟩
  · rw [hEq] at hMem
    rcases Sequence.mem_modifyFirst hMem with
      hOld | ⟨k, hk, _, hAbsorbed⟩
    · exact ⟨f, Or.inl hOld, rfl, rfl, rfl⟩
    · exact ⟨k, Or.inl hk, by simp [hAbsorbed, absorb, SameEnds]⟩
  · rw [hEq] at hMem
    rcases List.mem_append.mp hMem with hOld | hNew
    · exact ⟨f, Or.inl hOld, rfl, rfl, rfl⟩
    · exact
        ⟨f, Or.inr (List.mem_singleton.mp hNew), rfl, rfl, rfl⟩

/- A new edge adds its id, unless it is merged into another. -/
theorem mergeInto_ids (edges : List MapEdge) (e : MapEdge) :
    ((mergeInto edges e).map MapEdge.id).Sublist
      (edges.map MapEdge.id ++ [e.id]) := by
  rcases mergeInto_eq edges e with ⟨_, hEq⟩ | ⟨_, hEq⟩
  · rw [hEq,
      Sequence.map_modifyFirst _ _ _ (absorb_id · e)]
    exact List.sublist_append_left _ _
  · rw [hEq, List.map_append]
    exact List.Sublist.refl _

/- No two edges have the same ends after a merge. -/
theorem mergeInto_pairs
    {edges : List MapEdge}
    (e : MapEdge)
    (hUnique : (edges.map pair).Nodup) :
    ((mergeInto edges e).map pair).Nodup := by
  rcases mergeInto_eq edges e with ⟨_, hEq⟩ | ⟨hNew, hEq⟩
  · rw [hEq,
      Sequence.map_modifyFirst _ _ _ (absorb_pair · e)]
    exact hUnique
  · rw [hEq, List.map_append, List.nodup_append]
    refine ⟨hUnique, by simp, ?_⟩
    intro x hx y hy hSame
    rcases List.mem_map.mp hx with ⟨f, hf, hPair⟩
    rw [List.map_singleton, List.mem_singleton] at hy
    exact hNew f hf (hPair.trans (hSame.trans hy))

------------------------------------------------------------
-- Merging All Edges
------------------------------------------------------------

/- Merging edges into others adds no ids but their own. -/
theorem foldl_mergeInto_ids (edges merged : List MapEdge) :
    ((edges.foldl mergeInto merged).map MapEdge.id).Sublist
      (merged.map MapEdge.id ++ edges.map MapEdge.id) := by
  induction edges generalizing merged with
  | nil => simp
  | cons e edges ih =>
      have hFirst :=
        (mergeInto_ids merged e).append_right
          (edges.map MapEdge.id)
      rw [List.append_assoc] at hFirst
      exact (ih (mergeInto merged e)).trans hFirst

/- No two edges have the same ends when many are merged. -/
theorem foldl_mergeInto_pairs
    {merged : List MapEdge}
    (edges : List MapEdge)
    (hPairs : (merged.map pair).Nodup) :
    ((edges.foldl mergeInto merged).map pair).Nodup := by
  induction edges generalizing merged with
  | nil => exact hPairs
  | cons e edges ih => exact ih (mergeInto_pairs e hPairs)

/- Each edge has the id and ends of one of those merged. -/
theorem mem_foldl_mergeInto
    {edges merged : List MapEdge}
    {f : MapEdge}
    (hMem : f ∈ edges.foldl mergeInto merged) :
    ∃ k, (k ∈ merged ∨ k ∈ edges) ∧ f.SameEnds k := by
  induction edges generalizing merged with
  | nil => exact ⟨f, Or.inl hMem, rfl, rfl, rfl⟩
  | cons e edges ih =>
      rcases ih hMem with ⟨k, hMerged | hLater, hSame⟩
      · rcases mem_mergeInto hMerged with
          ⟨l, hl, hId, hSource, hTarget⟩
        refine
          ⟨l, ?_, hSame.1.trans hId,
            hSame.2.1.trans hSource, hSame.2.2.trans hTarget⟩
        exact hl.imp_right (fun hEq => by simp [hEq])
      · exact ⟨k, Or.inr (by simp [hLater]), hSame⟩

------------------------------------------------------------
-- What Merged Edges Stand For
------------------------------------------------------------

/-
  Of the edges of a pair, one has a property after a merge if
  one had it before, or if the merged edge has it.  This is so
  for properties that an edge takes over from another one.
-/
theorem exists_mergeInto
    {Has : MapEdge → Prop}
    (hTakes : ∀ f e : MapEdge,
      Has (f.absorb e) ↔ Has f ∨ Has e)
    {edges : List MapEdge}
    (hPairs : (edges.map pair).Nodup)
    (e : MapEdge)
    (ends : String × String) :
    (∃ f ∈ mergeInto edges e, f.pair = ends ∧ Has f) ↔
      ∃ f, (f ∈ edges ∨ f = e) ∧ f.pair = ends ∧ Has f := by
  rcases mergeInto_eq edges e with ⟨hParallel, hEq⟩ | ⟨_, hEq⟩
  · have hChanged :
        mergeInto edges e =
          edges.map (fun f =>
            if f.pair = e.pair then f.absorb e else f) := by
      rw [hEq, ← Sequence.modifyFirst_eq_map hPairs]
      congr 1
      funext f
      rw [Bool.eq_iff_iff, joins_iff]
      exact decide_eq_true_iff.symm
    rw [hChanged]
    constructor
    · rintro ⟨f, hf, hPair, hHas⟩
      rcases List.mem_map.mp hf with ⟨k, hk, hSame⟩
      by_cases hHere : k.pair = e.pair
      · rw [if_pos hHere] at hSame
        subst hSame
        rw [absorb_pair] at hPair
        rcases (hTakes k e).mp hHas with hOld | hNew
        · exact ⟨k, Or.inl hk, hPair, hOld⟩
        · exact ⟨e, Or.inr rfl, hHere.symm.trans hPair, hNew⟩
      · rw [if_neg hHere] at hSame
        exact ⟨k, Or.inl hk, hSame ▸ hPair, hSame ▸ hHas⟩
    · rintro ⟨f, hf, hPair, hHas⟩
      have hTaken : ∀ k ∈ edges, k.pair = e.pair →
          k.absorb e ∈ edges.map (fun f =>
            if f.pair = e.pair then f.absorb e else f) :=
        fun k hk hSame =>
          List.mem_map.mpr ⟨k, hk, if_pos hSame⟩
      rcases hf with hOld | hNew
      · by_cases hHere : f.pair = e.pair
        · exact
            ⟨f.absorb e, hTaken f hOld hHere, hPair,
              (hTakes f e).mpr (Or.inl hHas)⟩
        · exact
            ⟨f, List.mem_map.mpr ⟨f, hOld, if_neg hHere⟩,
              hPair, hHas⟩
      · subst hNew
        rcases hParallel with ⟨k, hk, hSame⟩
        exact
          ⟨k.absorb f, hTaken k hk hSame, hSame.trans hPair,
            (hTakes k f).mpr (Or.inr hHas)⟩
  · rw [hEq]
    simp

/- What holds of merging one edge holds of merging many. -/
theorem exists_foldl_mergeInto
    {Has : MapEdge → Prop}
    (hTakes : ∀ f e : MapEdge,
      Has (f.absorb e) ↔ Has f ∨ Has e)
    {edges merged : List MapEdge}
    (hPairs : (merged.map pair).Nodup)
    (ends : String × String) :
    (∃ f ∈ edges.foldl mergeInto merged,
        f.pair = ends ∧ Has f) ↔
      ∃ f, (f ∈ merged ∨ f ∈ edges) ∧
        f.pair = ends ∧ Has f := by
  induction edges generalizing merged with
  | nil => simp
  | cons e edges ih =>
      rw [List.foldl_cons, ih (mergeInto_pairs e hPairs)]
      simp only [or_and_right, exists_or, List.mem_cons]
      rw [exists_mergeInto hTakes hPairs]
      simp only [or_and_right, exists_or, or_assoc]

/- Edges of different ends are not merged. -/
theorem foldl_mergeInto_of_pairs
    {edges merged : List MapEdge}
    (hPairs : ((merged ++ edges).map pair).Nodup) :
    edges.foldl mergeInto merged = merged ++ edges := by
  induction edges generalizing merged with
  | nil => simp
  | cons e edges ih =>
      have hNew : ∀ f ∈ merged, f.pair ≠ e.pair := by
        intro f hf
        rw [List.map_append, List.nodup_append] at hPairs
        exact
          hPairs.2.2 f.pair (List.mem_map.mpr ⟨f, hf, rfl⟩)
            e.pair (by simp)
      rcases mergeInto_eq merged e with
        ⟨⟨f, hf, hSame⟩, _⟩ | ⟨_, hEq⟩
      · exact absurd hSame (hNew f hf)
      · rw [List.foldl_cons, hEq, ih (by simpa using hPairs)]
        simp

/- An edge stands for each kind and each relation once. -/
structure Unrepeated (e : MapEdge) : Prop where
  kinds : e.kinds.Nodup
  relations : e.relations.Nodup

/- An edge takes over only what it does not have. -/
theorem Unrepeated.absorb
    {f : MapEdge}
    (hf : f.Unrepeated)
    (e : MapEdge) :
    (f.absorb e).Unrepeated :=
  ⟨Sequence.nodup_addAllNew hf.kinds e.kinds,
    Sequence.nodup_addAllNew hf.relations e.relations⟩

/- Merging keeps what edges keep when they take over others. -/
theorem mergeInto_kept
    {Kept : MapEdge → Prop}
    (hAbsorb : ∀ f e : MapEdge, Kept f → Kept (f.absorb e))
    {edges : List MapEdge}
    {e : MapEdge}
    (hEdges : ∀ f ∈ edges, Kept f)
    (he : Kept e) :
    ∀ f ∈ mergeInto edges e, Kept f := by
  intro f hf
  rcases mergeInto_eq edges e with ⟨_, hEq⟩ | ⟨_, hEq⟩
  · rw [hEq] at hf
    rcases Sequence.mem_modifyFirst hf with
      hOld | ⟨k, hk, _, hAbsorbed⟩
    · exact hEdges f hOld
    · exact hAbsorbed ▸ hAbsorb k e (hEdges k hk)
  · rw [hEq, List.mem_append, List.mem_singleton] at hf
    exact hf.elim (hEdges f) (fun hSame => hSame ▸ he)

/- Merging many edges keeps what merging one of them keeps. -/
theorem foldl_mergeInto_kept
    {Kept : MapEdge → Prop}
    (hAbsorb : ∀ f e : MapEdge, Kept f → Kept (f.absorb e))
    {edges merged : List MapEdge}
    (hMerged : ∀ f ∈ merged, Kept f)
    (hEdges : ∀ f ∈ edges, Kept f) :
    ∀ f ∈ edges.foldl mergeInto merged, Kept f := by
  induction edges generalizing merged with
  | nil => exact hMerged
  | cons e edges ih =>
      exact
        ih (mergeInto_kept hAbsorb hMerged (hEdges e (by simp)))
          (fun f hf => hEdges f (by simp [hf]))

end MapEdge

namespace ArgumentMap

variable {map : ArgumentMap}

------------------------------------------------------------
-- Edges of Maps
------------------------------------------------------------

/-
  The edges of a nested map may be replaced by such with
  the ids and ends of some of them.
-/
theorem Nested.withEdges
    (hMap : map.Nested)
    {edges : List MapEdge}
    (hIds : (edges.map MapEdge.id).Nodup)
    (hFrom : ∀ e ∈ edges, ∃ f ∈ map.edges, e.SameEnds f) :
    Nested { map with edges := edges } where
  nodeIds := hMap.nodeIds
  edgeIds := hIds
  groupIds := hMap.groupIds
  edgeApart := by
    intro e he
    rcases hFrom e he with ⟨f, hf, hId, _, _⟩
    rw [hId]
    exact hMap.edgeApart f hf
  ends := by
    intro e he
    rcases hFrom e he with ⟨f, hf, _, hSource, hTarget⟩
    rw [hSource, hTarget]
    exact hMap.ends f hf
  noLoop := by
    intro e he
    rcases hFrom e he with ⟨f, hf, _, hSource, hTarget⟩
    rw [hSource, hTarget]
    exact hMap.noLoop f hf
  grouped := hMap.grouped
  members := hMap.members
  parents := hMap.parents
  acyclic := hMap.acyclic
  subgroups := hMap.subgroups
  listed := hMap.listed
  collapsed := hMap.collapsed
  openAround := hMap.openAround

/- Merging the edges of a map adds no ids. -/
theorem mergeEdges_ids (map : ArgumentMap) :
    (map.mergeEdges.edges.map MapEdge.id).Sublist
      (map.edges.map MapEdge.id) :=
  (MapEdge.foldl_mergeInto_ids _ []).trans
    (List.filter_sublist.map MapEdge.id)

/- No two edges have the same ends when those of a map are. -/
theorem mergeEdges_pairs (map : ArgumentMap) :
    (map.mergeEdges.edges.map MapEdge.pair).Nodup :=
  MapEdge.foldl_mergeInto_pairs _ List.nodup_nil

/- Each merged edge has the id and ends of one before. -/
theorem mem_mergeEdges
    {e : MapEdge}
    (he : e ∈ map.mergeEdges.edges) :
    ∃ f ∈ map.edges, e.SameEnds f := by
  rcases MapEdge.mem_foldl_mergeInto he with
    ⟨f, hNone | hf, hSame⟩
  · simp at hNone
  · exact ⟨f, List.mem_of_mem_filter hf, hSame⟩

/- What merging the edges of a map leaves. -/
theorem Nested.merged
    (hMap : map.Nested) :
    (map.mergeEdges.edges.map MapEdge.id).Nodup ∧
      (map.mergeEdges.edges.map MapEdge.pair).Nodup ∧
      ∀ e ∈ map.mergeEdges.edges,
        ∃ f ∈ map.edges, e.SameEnds f :=
  ⟨hMap.edgeIds.sublist map.mergeEdges_ids,
    map.mergeEdges_pairs, fun _ he => mem_mergeEdges he⟩

/- No edge is a loop when edges are merged. -/
theorem Nested.mergeEdges_noLoop (hMap : map.Nested) :
    ∀ e ∈ map.mergeEdges.edges, e.source ≠ e.target := by
  intro e he
  rcases hMap.merged.2.2 e he with
    ⟨f, hf, _, hSource, hTarget⟩
  rw [hSource, hTarget]
  exact hMap.noLoop f hf

/- Merging edges keeps groups nested. -/
theorem Nested.mergeEdges (hMap : map.Nested) :
    map.mergeEdges.Nested :=
  hMap.withEdges hMap.merged.1 hMap.merged.2.2

/- Merging edges keeps a map arranged. -/
theorem Arranged.mergeEdges (hMap : map.Arranged) :
    map.mergeEdges.Arranged :=
  hMap.nested.mergeEdges.arranged
    (fun _ hg _ hh hParent => hMap.level_eq hg hh hParent)
    hMap.filled

/- A map without loops loses no edges before they are merged. -/
theorem mergeEdges_eq
    (hNoLoop : ∀ e ∈ map.edges, e.source ≠ e.target) :
    map.mergeEdges =
      { map with
        edges := map.edges.foldl MapEdge.mergeInto [] } := by
  have hAll : map.edges.filter (fun e => !e.isLoop) =
      map.edges := by
    rw [List.filter_eq_self]
    intro e he
    simpa [MapEdge.isLoop] using hNoLoop e he
  rw [mergeEdges, hAll]

/- A map without loops and parallel edges is merged already. -/
theorem mergeEdges_eq_self
    (hNoLoop : ∀ e ∈ map.edges, e.source ≠ e.target)
    (hPairs : (map.edges.map MapEdge.pair).Nodup) :
    map.mergeEdges = map := by
  rw [mergeEdges_eq hNoLoop,
    MapEdge.foldl_mergeInto_of_pairs (by simpa using hPairs)]
  rfl

/-
  An edge of a pair has a property after merging if one had it
  before, for properties that an edge takes over.
-/
theorem exists_mergeEdges
    {Has : MapEdge → Prop}
    (hTakes : ∀ f e : MapEdge,
      Has (f.absorb e) ↔ Has f ∨ Has e)
    (hNoLoop : ∀ e ∈ map.edges, e.source ≠ e.target)
    (ends : String × String) :
    (∃ f ∈ map.mergeEdges.edges, f.pair = ends ∧ Has f) ↔
      ∃ f ∈ map.edges, f.pair = ends ∧ Has f := by
  rw [mergeEdges_eq hNoLoop,
    MapEdge.exists_foldl_mergeInto hTakes (by simp) ends]
  simp

end ArgumentMap

end Dialectic
