import Dialectic.Proofs.Map.Build
import Dialectic.Proofs.Map.Collapse

/-
  Adding edges to a map, merging them and collapsing closed
  groups, in any order.  Edges always join two different nodes,
  at most one in each direction.  Their ids are told apart by
  the number of edges, so they may clash when an edge is stored
  after others have been lost.

  Key definitions include:
    * `ArgumentMap.Edit`
    * `ArgumentMap.edited`
    * `ArgumentMap.Throughout`
    * `ArgumentMap.Stores`
    * `ArgumentMap.Joined`

  Main theorems:
    * `ArgumentMap.Joined.edit`
    * `ArgumentMap.edit_ids`
    * `ArgumentMap.edit_idsUnique_iff`
    * `ArgumentMap.idsUnique_iff`
    * `ArgumentMap.edited_edges`
-/

namespace Dialectic

namespace ArgumentMap

------------------------------------------------------------
-- Edits
------------------------------------------------------------

/- What may be done to the edges of a map. -/
inductive Edit where
| add
    (source target : String)
    (kind : RelationKind)
    (relation : Nat)
| merge
| collapse
deriving DecidableEq, Repr

/- The map after an edit. -/
def edit (map : ArgumentMap) : Edit → ArgumentMap
| .add source target kind relation =>
    (map.addEdge source target kind relation).1
| .merge => map.mergeEdges
| .collapse => map.collapse.1

/- The map after some edits, one after the other. -/
def edited (map : ArgumentMap) (edits : List Edit) :
    ArgumentMap :=
  edits.foldl edit map

/- Something holds of each edit and the map that it meets. -/
def Throughout (P : ArgumentMap → Edit → Prop) :
    ArgumentMap → List Edit → Prop
| _, [] => True
| map, e :: edits =>
    P map e ∧ Throughout P (map.edit e) edits

/- Edges are added between nodes that the map has. -/
def Fits (map : ArgumentMap) : Edit → Prop
| .add source target _ _ =>
    (∃ n ∈ map.nodes, n.id = source) ∧
      ∃ n ∈ map.nodes, n.id = target
| _ => True

/- An edit adds an edge that is stored as a new one. -/
def Stores (map : ArgumentMap) : Edit → Prop
| .add source target _ _ =>
    source ≠ target ∧
      ∀ f ∈ map.edges, f.pair ≠ (source, target)
| _ => False

/- A map has fewer edges after an edit. -/
def Loses (map : ArgumentMap) (e : Edit) : Prop :=
  (map.edit e).edges.length < map.edges.length

/- The ids of the edges of a map. -/
def edgeIds (map : ArgumentMap) : List String :=
  map.edges.map MapEdge.id

/- The id of a new edge is not taken if one is stored. -/
def FindsIdFree (map : ArgumentMap) (e : Edit) : Prop :=
  map.Stores e →
    "e" ++ toString map.edges.length ∉ map.edgeIds

/- The ids of edges are unique after an edit. -/
def LeavesIdsUnique (map : ArgumentMap) (e : Edit) : Prop :=
  (map.edit e).edgeIds.Nodup

/- No edge is stored after one has been lost. -/
def StoresBeforeLosing : ArgumentMap → List Edit → Prop
| _, [] => True
| map, e :: edits =>
    (map.Loses e →
        (map.edit e).Throughout (fun map e => ¬ map.Stores e)
          edits) ∧
      StoresBeforeLosing (map.edit e) edits

/- Edges lead from nodes of the map to other ones. -/
structure Linked (map : ArgumentMap) : Prop where
  ends : ∀ e ∈ map.edges,
    (∃ n ∈ map.nodes, n.id = e.source) ∧
      ∃ n ∈ map.nodes, n.id = e.target
  noLoop : ∀ e ∈ map.edges, e.source ≠ e.target

/- At most one edge leads from a node to another one. -/
structure Joined (map : ArgumentMap) : Prop
    extends Linked map where
  pairs : (map.edges.map MapEdge.pair).Nodup

variable {map : ArgumentMap}
variable {edits : List Edit}

instance : (e : Edit) → Decidable (map.Fits e)
| .add _ _ _ _ => inferInstanceAs (Decidable (_ ∧ _))
| .merge => .isTrue trivial
| .collapse => .isTrue trivial

instance : (e : Edit) → Decidable (map.Stores e)
| .add _ _ _ _ => inferInstanceAs (Decidable (_ ∧ _))
| .merge => .isFalse id
| .collapse => .isFalse id

instance (e : Edit) : Decidable (map.FindsIdFree e) :=
  inferInstanceAs (Decidable (_ → _))

instance Throughout.decide
    {P : ArgumentMap → Edit → Prop}
    [∀ map e, Decidable (P map e)] :
    (map : ArgumentMap) →
    (edits : List Edit) →
    Decidable (map.Throughout P edits)
| _, [] => .isTrue trivial
| map, e :: edits =>
    let _ := Throughout.decide (P := P) (map.edit e) edits
    inferInstanceAs (Decidable (_ ∧ _))

/- What implies another property does so throughout. -/
theorem Throughout.imp
    {P Q : ArgumentMap → Edit → Prop}
    (hImp : ∀ map e, P map e → Q map e)
    (hAll : map.Throughout P edits) :
    map.Throughout Q edits := by
  induction edits generalizing map with
  | nil => trivial
  | cons e edits ih =>
      exact ⟨hImp map e hAll.1, ih hAll.2⟩

------------------------------------------------------------
-- Adding Edges
------------------------------------------------------------

/- Each edge is an old one or the new one, up to relations. -/
theorem Linked.addEdge
    (hMap : map.Linked)
    {source target : String}
    (hSource : ∃ n ∈ map.nodes, n.id = source)
    (hTarget : ∃ n ∈ map.nodes, n.id = target)
    (kind : RelationKind)
    (relation : Nat) :
    (map.addEdge source target kind relation).1.Linked := by
  by_cases hSame : source = target
  · simpa [ArgumentMap.addEdge, hSame] using hMap
  · rw [MapBuilder.addEdge_eq map hSame]
    constructor
    · intro e he
      rcases MapEdge.mem_mergeInto he with
        ⟨f, hOld | rfl, _, hFrom, hTo⟩
      · rw [hFrom, hTo]
        exact hMap.ends f hOld
      · rw [hFrom, hTo]
        exact ⟨hSource, hTarget⟩
    · intro e he
      rcases MapEdge.mem_mergeInto he with
        ⟨f, hOld | rfl, _, hFrom, hTo⟩
      · rw [hFrom, hTo]
        exact hMap.noLoop f hOld
      · rw [hFrom, hTo]
        exact hSame

/- An edge is added only between nodes that have none yet. -/
theorem addEdge_pairs
    (hPairs : (map.edges.map MapEdge.pair).Nodup)
    (source target : String)
    (kind : RelationKind)
    (relation : Nat) :
    ((map.addEdge source target kind relation).1.edges.map
      MapEdge.pair).Nodup := by
  by_cases hSame : source = target
  · simpa [ArgumentMap.addEdge, hSame] using hPairs
  · rw [MapBuilder.addEdge_eq map hSame]
    exact MapEdge.mergeInto_pairs _ hPairs

/- The next id is added if an edge is stored, else none is. -/
theorem addEdge_ids
    (map : ArgumentMap)
    (source target : String)
    (kind : RelationKind)
    (relation : Nat) :
    map.Stores (.add source target kind relation) ∧
        (map.addEdge source target kind relation).1.edgeIds =
          map.edgeIds ++ ["e" ++ toString map.edges.length] ∨
      ¬ map.Stores (.add source target kind relation) ∧
        (map.addEdge source target kind relation).1.edgeIds =
          map.edgeIds := by
  by_cases hSame : source = target
  · right
    simp [Stores, ArgumentMap.addEdge, hSame]
  · rw [MapBuilder.addEdge_eq map hSame]
    rcases MapEdge.mergeInto_eq map.edges
        (map.newEdge source target kind relation) with
      ⟨⟨f, hf, hPair⟩, hEq⟩ | ⟨hNew, hEq⟩
    · right
      refine ⟨fun hStores => hStores.2 f hf hPair, ?_⟩
      simp only [edgeIds, hEq]
      exact
        Sequence.map_modifyFirst _ _ _
          (fun f => MapEdge.absorb_id f _) _
    · left
      refine ⟨⟨hSame, hNew⟩, ?_⟩
      simp only [edgeIds, hEq, List.map_append]
      rfl

------------------------------------------------------------
-- Merging and Collapsing
------------------------------------------------------------

/- Merging edges keeps their ends. -/
theorem Linked.mergeEdges (hMap : map.Linked) :
    map.mergeEdges.Linked := by
  constructor
  · intro e he
    rcases mem_mergeEdges he with ⟨f, hf, _, hFrom, hTo⟩
    rw [hFrom, hTo]
    exact hMap.ends f hf
  · intro e he
    rcases mem_mergeEdges he with ⟨f, hf, _, hFrom, hTo⟩
    rw [hFrom, hTo]
    exact hMap.noLoop f hf

/- An end of an edge in a group that is replaced moves to it. -/
theorem redirect_end
    {g : MapGroup}
    {inner : List String}
    {id : String}
    (absorbed : List MapNode)
    (hEnd : ∃ n ∈ map.nodes, n.id = id) :
    ∃ n ∈ replaceNodes map.nodes inner (groupNode g absorbed),
      n.id = if inner.contains id then g.id else id := by
  have hMem := fun n : MapNode =>
    (replaceNodes_perm map.nodes inner
      (groupNode g absorbed)).mem_iff (a := n)
  by_cases hInner : inner.contains id = true
  · rw [if_pos hInner]
    exact ⟨groupNode g absorbed, by simp [hMem], rfl⟩
  · rw [if_neg hInner]
    rcases hEnd with ⟨n, hn, rfl⟩
    refine ⟨n, (hMem n).mpr ?_, rfl⟩
    simpa [hn] using Or.inr hInner

/- Replacing a group moves edges to its node or drops them. -/
theorem Linked.collapseGroup
    (hMap : map.Linked)
    (id : String) :
    (map.collapseGroup id).Linked := by
  unfold ArgumentMap.collapseGroup
  cases hFound : map.group? id with
  | none => exact hMap
  | some g =>
      have hId : g.id = id := by
        simpa using List.find?_some hFound
      subst hId
      constructor
      · intro e he
        rcases List.mem_map.mp (List.mem_of_mem_filter he) with
          ⟨f, hf, rfl⟩
        exact
          ⟨redirect_end _ (hMap.ends f hf).1,
            redirect_end _ (hMap.ends f hf).2⟩
      · intro e he
        simpa [MapEdge.isLoop] using (List.mem_filter.mp he).2

/- Replacing a group gives edges no new ids. -/
theorem collapseGroup_ids (map : ArgumentMap) (id : String) :
    (map.collapseGroup id).edgeIds.Sublist map.edgeIds := by
  unfold collapseGroup
  cases map.group? id with
  | none => exact List.Sublist.refl _
  | some g =>
      have hMoved :
          (map.edges.map
            (redirect (map.descendants id).nodes id)).map
              MapEdge.id =
            map.edgeIds := by
        rw [List.map_map]
        rfl
      rw [← hMoved]
      exact List.filter_sublist.map MapEdge.id

/- Replacing many groups does what replacing one does. -/
theorem Linked.foldl_collapseGroup
    (hMap : map.Linked)
    (targets : List String) :
    (targets.foldl ArgumentMap.collapseGroup map).Linked ∧
      (targets.foldl ArgumentMap.collapseGroup
        map).edgeIds.Sublist map.edgeIds := by
  induction targets generalizing map with
  | nil => exact ⟨hMap, List.Sublist.refl _⟩
  | cons id targets ih =>
      rcases ih (hMap.collapseGroup id) with ⟨hLinked, hIds⟩
      exact ⟨hLinked, hIds.trans (collapseGroup_ids map id)⟩

/- Collapsing a map keeps it joined and gives no new ids. -/
theorem Joined.collapse
    (hMap : map.Joined) :
    map.collapse.1.Joined ∧
      map.collapse.1.edgeIds.Sublist map.edgeIds := by
  unfold ArgumentMap.collapse
  simp only
  split
  · exact ⟨hMap, List.Sublist.refl _⟩
  · rcases hMap.toLinked.foldl_collapseGroup
        map.outermostClosed with
      ⟨hLinked, hIds⟩
    exact
      ⟨⟨hLinked.mergeEdges, mergeEdges_pairs _⟩,
        (mergeEdges_ids _).trans hIds⟩

------------------------------------------------------------
-- Single Edits
------------------------------------------------------------

/- Every edit that fits keeps a map joined. -/
theorem Joined.edit
    (hMap : map.Joined)
    {e : Edit}
    (hFits : map.Fits e) :
    (map.edit e).Joined := by
  cases e with
  | add source target kind relation =>
      exact
        ⟨hMap.toLinked.addEdge hFits.1 hFits.2 kind relation,
          addEdge_pairs hMap.pairs source target kind relation⟩
  | merge =>
      exact ⟨hMap.toLinked.mergeEdges, mergeEdges_pairs map⟩
  | collapse => exact hMap.collapse.1

/- The next id is added if an edge is stored, else none is. -/
theorem edit_ids
    (hMap : map.Joined)
    (e : Edit) :
    map.Stores e ∧
        (map.edit e).edgeIds =
          map.edgeIds ++ ["e" ++ toString map.edges.length] ∨
      ¬ map.Stores e ∧
        (map.edit e).edgeIds.Sublist map.edgeIds := by
  cases e with
  | add source target kind relation =>
      rcases map.addEdge_ids source target kind relation with
        hStored | ⟨hNotStored, hSame⟩
      · exact Or.inl hStored
      · refine Or.inr ⟨hNotStored, ?_⟩
        simp only [ArgumentMap.edit]
        rw [hSame]
  | merge =>
      exact Or.inr ⟨fun hStores => hStores, map.mergeEdges_ids⟩
  | collapse =>
      exact
        Or.inr ⟨fun hStores => hStores, hMap.collapse.2⟩

/- Unique ids stay so just if the id of a new edge is free. -/
theorem edit_idsUnique_iff
    (hMap : map.Joined)
    (hIds : map.edgeIds.Nodup)
    (e : Edit) :
    map.LeavesIdsUnique e ↔ map.FindsIdFree e := by
  unfold LeavesIdsUnique FindsIdFree
  rcases edit_ids hMap e with
    ⟨hStores, hEq⟩ | ⟨hNotStored, hSublist⟩
  · rw [hEq, List.nodup_append]
    constructor
    · intro hUnique _ hTaken
      exact hUnique.2.2 _ hTaken _ (List.mem_singleton_self _) rfl
    · intro hFree
      refine ⟨hIds, List.nodup_singleton _, ?_⟩
      intro x hx y hy hSame
      rw [List.mem_singleton] at hy
      exact hFree hStores (hy ▸ hSame ▸ hx)
  · exact
      ⟨fun _ hStores => absurd hStores hNotStored,
        fun _ => hIds.sublist hSublist⟩

/- Numbered ids stay so when no edge is lost. -/
theorem edit_numbered
    (hMap : map.Joined)
    (hIds : Numbered 'e' map.edgeIds)
    {e : Edit}
    (hKept : ¬ map.Loses e) :
    Numbered 'e' (map.edit e).edgeIds := by
  rcases edit_ids hMap e with ⟨_, hEq⟩ | ⟨_, hSublist⟩
  · rw [hEq]
    simpa [edgeIds] using hIds.append
  · have hLength :
        map.edgeIds.length ≤ (map.edit e).edgeIds.length := by
      simpa [Loses, edgeIds] using hKept
    rw [hSublist.eq_of_length_le hLength]
    exact hIds

/- The next id is free when ids are numbered. -/
theorem findsIdFree_of_numbered
    (hIds : Numbered 'e' map.edgeIds)
    (e : Edit) :
    map.FindsIdFree e := by
  intro _
  simpa [edgeIds] using hIds.next_not_mem

------------------------------------------------------------
-- Many Edits
------------------------------------------------------------

/- Edits that fit keep a map joined. -/
theorem Joined.edited
    (hMap : map.Joined)
    (hFits : map.Throughout Fits edits) :
    (map.edited edits).Joined := by
  induction edits generalizing map with
  | nil => exact hMap
  | cons e edits ih => exact ih (hMap.edit hFits.1) hFits.2

/- Ids are unique throughout just if new ids are free. -/
theorem idsUnique_iff
    (hMap : map.Joined)
    (hIds : map.edgeIds.Nodup)
    (hFits : map.Throughout Fits edits) :
    map.Throughout LeavesIdsUnique edits ↔
      map.Throughout FindsIdFree edits := by
  induction edits generalizing map with
  | nil => exact Iff.rfl
  | cons e edits ih =>
      have hStep := edit_idsUnique_iff hMap hIds e
      constructor
      · intro hUnique
        exact
          ⟨hStep.mp hUnique.1,
            (ih (hMap.edit hFits.1) hUnique.1 hFits.2).mp
              hUnique.2⟩
      · intro hFree
        have hUnique := hStep.mpr hFree.1
        exact
          ⟨hUnique,
            (ih (hMap.edit hFits.1) hUnique hFits.2).mpr
              hFree.2⟩

/- New ids are free as long as no edge has been lost. -/
theorem findsIdFree_of_storesBeforeLosing
    (hMap : map.Joined)
    (hIds : Numbered 'e' map.edgeIds)
    (hFits : map.Throughout Fits edits)
    (hOrder : map.StoresBeforeLosing edits) :
    map.Throughout FindsIdFree edits := by
  induction edits generalizing map with
  | nil => trivial
  | cons e edits ih =>
      refine ⟨findsIdFree_of_numbered hIds e, ?_⟩
      by_cases hLoses : map.Loses e
      · exact
          (hOrder.1 hLoses).imp
            (fun _ _ hNone hStores => absurd hStores hNone)
      · exact
          ih (hMap.edit hFits.1) (edit_numbered hMap hIds hLoses)
            hFits.2 hOrder.2

/- Ids that are unique throughout are so in the end. -/
theorem edited_idsUnique
    (hIds : map.edgeIds.Nodup)
    (hUnique : map.Throughout LeavesIdsUnique edits) :
    (map.edited edits).edgeIds.Nodup := by
  induction edits generalizing map with
  | nil => exact hIds
  | cons e edits ih => exact ih hUnique.1 hUnique.2

/-
  Whatever is done to the edges of a map that has none first,
  they lead from nodes to other nodes, at most one from a node
  to another one.  Their ids are unique throughout just if the
  id that counts the edges is free whenever an edge is stored,
  as it is when none has been lost before.
-/
theorem edited_edges
    (hEmpty : map.edges = [])
    (hFits : map.Throughout Fits edits) :
    (map.edited edits).Joined ∧
      (map.Throughout LeavesIdsUnique edits ↔
        map.Throughout FindsIdFree edits) ∧
      (map.StoresBeforeLosing edits →
        map.Throughout LeavesIdsUnique edits ∧
          (map.edited edits).edgeIds.Nodup) := by
  have hMap : map.Joined := by
    refine ⟨⟨?_, ?_⟩, ?_⟩ <;> simp [hEmpty]
  have hNone : map.edgeIds = [] := by simp [edgeIds, hEmpty]
  have hIds : map.edgeIds.Nodup := hNone ▸ List.nodup_nil
  have hIff := idsUnique_iff hMap hIds hFits
  refine ⟨hMap.edited hFits, hIff, fun hOrder => ?_⟩
  have hUnique :=
    hIff.mpr
      (findsIdFree_of_storesBeforeLosing hMap
        (hNone ▸ Numbered.nil 'e') hFits hOrder)
  exact ⟨hUnique, edited_idsUnique hIds hUnique⟩

/- A node of a title, in a group. -/
def nodeIn (group : Option String) (id : String) : MapNode :=
  { MapNode.new id .statement id with group := group }

/- Four nodes without edges, two of them in a closed group. -/
def fourNodes : ArgumentMap :=
  { nodes :=
      [nodeIn none "n0", nodeIn (some "g0") "n1",
        nodeIn (some "g0") "n2", nodeIn none "n3"]
    edges := []
    groups :=
      [{ MapGroup.new "g0" "Pair" 1 with
          nodes := ["n1", "n2"]
          isClosed := true }] }

/- The edge in the group is lost, then another one is added. -/
def addAfterLoss : List Edit :=
  [.add "n1" "n2" .support 0, .add "n0" "n1" .attack 1,
    .collapse, .add "n0" "n3" .support 2]

/- The second edge that is left takes the id of the first. -/
theorem edited_edges_clashing :
    fourNodes.Throughout Fits addAfterLoss ∧
      (fourNodes.edited addAfterLoss).Joined ∧
      (fourNodes.edited addAfterLoss).edgeIds = ["e1", "e1"] ∧
      ¬ fourNodes.Throughout LeavesIdsUnique addAfterLoss := by
  have hFits : fourNodes.Throughout Fits addAfterLoss := by
    decide +kernel
  rcases edited_edges rfl hFits with ⟨hJoined, hIff, _⟩
  refine ⟨hFits, hJoined, by decide +kernel, ?_⟩
  rw [hIff]
  decide +kernel

end ArgumentMap

end Dialectic
