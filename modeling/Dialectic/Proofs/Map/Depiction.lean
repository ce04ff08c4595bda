import Dialectic.Proofs.Map.Build
import Dialectic.Proofs.Map.Representation

/-
  A map depicts the selected part of a model: each selected
  element has one node, and from a node to another one there
  is one edge if the map is to show relations between them,
  which stands for all of these.

  Key definitions include:
    * `MapSettings.Wants`
    * `ArgumentMap.wanted`
    * `ArgumentMap.summary`
    * `ArgumentMap.Connects`
    * `ArgumentMap.Depicts`

  Main theorems:
    * `ArgumentMap.edgesBetween_addEdge`
    * `ArgumentMap.addRelation_connects`
    * `ArgumentMap.Connects.foldl`
    * `ArgumentMap.build_changes_depicts`
-/

namespace Dialectic

------------------------------------------------------------
-- Relations to Show
------------------------------------------------------------

/-
  A map shows what is declared.  It shows derived relations if
  it is to include them, and reciprocal ones only if it is to
  include these, too.
-/
def MapSettings.Wants
    (settings : MapSettings)
    (origin : Origin) : Prop :=
  origin ≠ .explicit →
    settings.includeDerived = true ∧
      (origin = .derived .reciprocal →
        settings.includeReciprocal = true)

instance (settings : MapSettings) (origin : Origin) :
    Decidable (settings.Wants origin) :=
  inferInstanceAs (Decidable (_ → _ ∧ (_ → _)))

/- The relations that a map shows are those that it wants. -/
theorem MapBuilder.shows_iff
    (settings : MapSettings)
    (origin : Origin) :
    MapBuilder.shows settings origin = true ↔
      settings.Wants origin := by
  cases origin with
  | explicit => simp [shows, MapSettings.Wants]
  | derived rule =>
      cases rule <;> simp [shows, MapSettings.Wants]

namespace ArgumentMap

/- The relations of a list that lead from a node to another. -/
def between (relations : List Relation) (x y : MapNode) :
    List Relation :=
  relations.filter (fun r =>
    x.represents r.source && y.represents r.target)

/-
  The relations of a model that a map is to show between two
  nodes.
-/
def wanted
    (m : Model)
    (settings : MapSettings)
    (x y : MapNode) : List Relation :=
  m.relations.filter (fun r =>
    settings.Wants r.origin ∧
      x.represents r.source = true ∧
      y.represents r.target = true)

/- What the edge of some relations stands for, if any. -/
def summary (relations : List Relation) :
    List (List Nat × List RelationKind) :=
  if relations = [] then []
  else
    [((relations.map Relation.id).eraseDups,
      (relations.map Relation.kind).eraseDups)]

/- What the edges from a node to another one stand for. -/
def shownBetween (map : ArgumentMap) (x y : MapNode) :
    List (List Nat × List RelationKind) :=
  (map.edgesBetween x.id y.id).map
    (fun e => (e.relations, e.kinds))

variable {map : ArgumentMap}

------------------------------------------------------------
-- Adding Edges
------------------------------------------------------------

/-
  An edge that is added is merged into the edge between its
  ends, if there is one.
-/
theorem edgesBetween_addEdge
    (map : ArgumentMap)
    {source target : String}
    (hApart : source ≠ target)
    (kind : RelationKind)
    (relation : Nat) :
    (map.addEdge source target kind relation).1.edgesBetween
        source target =
      match map.edgesBetween source target with
      | [] => [map.newEdge source target kind relation]
      | e :: rest =>
          e.absorb (map.newEdge source target kind relation)
            :: rest := by
  rw [MapBuilder.addEdge_eq map hApart]
  have hHere :
      (map.newEdge source target kind relation).joins source
        target = true := by
    simp [newEdge, MapEdge.joins]
  unfold edgesBetween
  simp only
  by_cases hThere : map.edges.any
      (fun f => f.joins source target) = true
  · have hMerged :
        MapEdge.mergeInto map.edges
            (map.newEdge source target kind relation) =
          Sequence.modifyFirst
            (fun f => f.joins source target)
            (fun f =>
              f.absorb (map.newEdge source target kind relation))
            map.edges :=
      if_pos hThere
    have hKept : ∀ f : MapEdge, f.joins source target = true →
        (f.absorb (map.newEdge source target kind
          relation)).joins source target = true :=
      fun _ hJoins => hJoins
    rw [hMerged, Sequence.filter_modifyFirst hKept]
    cases hEdges : map.edges.filter
        (fun f => f.joins source target) with
    | cons e rest => rfl
    | nil =>
        rcases List.any_eq_true.mp hThere with ⟨e, he, hJoins⟩
        exact
          absurd hJoins (List.filter_eq_nil_iff.mp hEdges e he)
  · have hAdded :
        MapEdge.mergeInto map.edges
            (map.newEdge source target kind relation) =
          map.edges ++
            [map.newEdge source target kind relation] :=
      if_neg hThere
    have hNone :
        map.edges.filter (fun f => f.joins source target) =
          [] := by
      rw [List.filter_eq_nil_iff]
      intro e he hJoins
      exact hThere (List.any_eq_true.mpr ⟨e, he, hJoins⟩)
    rw [hAdded, List.filter_append, hNone]
    simp [hHere]

/- An edge that is added leaves the edges between other nodes. -/
theorem edgesBetween_addEdge_of_ne
    (map : ArgumentMap)
    {source target first second : String}
    (hOther : (first, second) ≠ (source, target))
    (kind : RelationKind)
    (relation : Nat) :
    (map.addEdge source target kind relation).1.edgesBetween
        first second =
      map.edgesBetween first second := by
  by_cases hSame : source = target
  · simp [addEdge, hSame]
  · rw [MapBuilder.addEdge_eq map hSame]
    have hNot : ∀ f : MapEdge, f.joins source target = true →
        f.joins first second = false := by
      intro f hJoins
      rw [MapEdge.joins_iff] at hJoins
      rw [Bool.eq_false_iff, Ne, MapEdge.joins_iff, hJoins]
      exact hOther.symm
    unfold edgesBetween
    simp only
    rcases MapEdge.mergeInto_eq map.edges
        (map.newEdge source target kind relation) with
      ⟨_, hEq⟩ | ⟨_, hEq⟩
    · rw [hEq]
      apply Sequence.filter_modifyFirst_of_apart
      exact fun f hJoins => ⟨hNot f hJoins, hNot f hJoins⟩
    · have hNew :
          (map.newEdge source target kind relation).joins first
            second = false :=
        hNot _ (by simp [newEdge, MapEdge.joins])
      rw [hEq, List.filter_append]
      simp [hNew]

/- One more relation is added to the summary of some others. -/
theorem summary_concat
    (relations : List Relation)
    (r : Relation) :
    summary (relations ++ [r]) =
      [(Sequence.addNew (relations.map Relation.id).eraseDups
          r.id,
        Sequence.addNew (relations.map Relation.kind).eraseDups
          r.kind)] := by
  simp [summary, Sequence.eraseDups_concat]

/- An edge between two nodes stands for one more relation. -/
theorem shownBetween_addEdge
    {x y : MapNode}
    (hApart : x.id ≠ y.id)
    {relations : List Relation}
    (hShown : map.shownBetween x y = summary relations)
    (r : Relation) :
    (map.addEdge x.id y.id r.kind r.id).1.shownBetween x y =
      summary (relations ++ [r]) := by
  unfold shownBetween at hShown ⊢
  rw [edgesBetween_addEdge map hApart, summary_concat]
  by_cases hNone : relations = []
  · subst hNone
    rw [summary, if_pos rfl, List.map_eq_nil_iff] at hShown
    rw [hShown]
    rfl
  · rw [summary, if_neg hNone] at hShown
    cases hEdges : map.edgesBetween x.id y.id with
    | nil => simp [hEdges] at hShown
    | cons e rest =>
        rw [hEdges, List.map_cons, List.cons.injEq,
          List.map_eq_nil_iff, Prod.mk.injEq] at hShown
        rcases hShown with ⟨⟨hIds, hKinds⟩, rfl⟩
        simp [MapEdge.absorb, newEdge, hIds, hKinds,
          Sequence.addAllNew]

------------------------------------------------------------
-- Adding Relations
------------------------------------------------------------

/-
  Between different nodes the edges of a map stand for the
  relations of a list, and for no others.
-/
def Connects
    (map : ArgumentMap)
    (relations : List Relation) : Prop :=
  ∀ x ∈ map.nodes, ∀ y ∈ map.nodes, x.id ≠ y.id →
    map.shownBetween x y = summary (between relations x y)

/- No two nodes have one id, or stand for one element. -/
structure Separates (map : ArgumentMap) : Prop where
  ids : (map.nodes.map MapNode.id).Nodup
  elements : ∀ x ∈ map.nodes, ∀ y ∈ map.nodes, ∀ element,
    x.represents element = true →
      y.represents element = true → x = y

/- The node of an element is the one that stands for it. -/
theorem Separates.nodeFor?_eq
    (hMap : map.Separates)
    {x : MapNode}
    (hx : x ∈ map.nodes)
    {element : Element}
    (hElement : x.represents element = true) :
    map.nodeFor? element = some x := by
  have hSome : (map.nodeFor? element).isSome = true :=
    List.find?_isSome.mpr ⟨x, hx, hElement⟩
  rcases Option.isSome_iff_exists.mp hSome with ⟨y, hy⟩
  have hThere : y ∈ map.nodes := List.mem_of_find?_eq_some hy
  have hStands : y.represents element = true := by
    simpa using List.find?_some hy
  rw [hy, hMap.elements x hx y hThere element hElement hStands]

/- Adding a relation leaves the nodes. -/
theorem addRelation_nodes (map : ArgumentMap) (r : Relation) :
    (MapBuilder.addRelation map r).nodes = map.nodes := by
  unfold MapBuilder.addRelation
  cases map.nodeFor? r.source with
  | none => rfl
  | some source =>
      cases map.nodeFor? r.target with
      | none => rfl
      | some target =>
          by_cases hSame : source.id = target.id <;>
            simp [addEdge, hSame]

/- The nodes of a map that is built are those of elements. -/
theorem build_nodes
    (m : Model)
    (s : Selection)
    (settings : MapSettings) :
    (build m s settings).nodes =
      ((MapBuilder.elements m s).foldl
        (MapBuilder.addElement m) ⟨[], []⟩).nodes := by
  have hRelations : ∀ (relations : List Relation)
      (map : ArgumentMap),
      (relations.foldl MapBuilder.addRelation map).nodes =
        map.nodes := by
    intro relations
    induction relations with
    | nil => exact fun _ => rfl
    | cons r relations ih =>
        intro map
        rw [List.foldl_cons, ih, addRelation_nodes]
  unfold build
  rw [hRelations]

/- The relations between two nodes when one is added. -/
theorem between_concat
    (relations : List Relation)
    (r : Relation)
    (x y : MapNode) :
    between (relations ++ [r]) x y =
      between relations x y ++
        if x.represents r.source && y.represents r.target then
          [r]
        else [] := by
  simp [between, List.filter_append, List.filter_cons]

/- The edges stand for a relation once it has been added. -/
theorem addRelation_connects
    (hMap : map.Separates)
    {relations : List Relation}
    (hConnects : map.Connects relations)
    (r : Relation) :
    (MapBuilder.addRelation map r).Connects
      (relations ++ [r]) := by
  intro x hx y hy hApart
  rw [addRelation_nodes] at hx hy
  have hOld := hConnects x hx y hy hApart
  rw [between_concat]
  by_cases hEnds :
      (x.represents r.source && y.represents r.target) = true
  · rw [if_pos hEnds]
    rw [Bool.and_eq_true] at hEnds
    have hAdded :
        MapBuilder.addRelation map r =
          (map.addEdge x.id y.id r.kind r.id).1 := by
      simp only [MapBuilder.addRelation,
        hMap.nodeFor?_eq hx hEnds.1, hMap.nodeFor?_eq hy hEnds.2]
    rw [hAdded]
    exact shownBetween_addEdge hApart hOld r
  · rw [if_neg hEnds, List.append_nil, ← hOld]
    unfold MapBuilder.addRelation
    cases hSource : map.nodeFor? r.source with
    | none => rfl
    | some source =>
        cases hTarget : map.nodeFor? r.target with
        | none => rfl
        | some target =>
            -- the ends of the relation are other nodes
            have hOther :
                (x.id, y.id) ≠ (source.id, target.id) := by
              intro hSame
              rw [Prod.mk.injEq] at hSame
              have hx :=
                List.inj_on_of_nodup_map hMap.ids hx
                  (List.mem_of_find?_eq_some hSource) hSame.1
              have hy :=
                List.inj_on_of_nodup_map hMap.ids hy
                  (List.mem_of_find?_eq_some hTarget) hSame.2
              have hFirst :
                  source.represents r.source = true := by
                simpa using List.find?_some hSource
              have hSecond : target.represents r.target = true :=
                by simpa using List.find?_some hTarget
              apply hEnds
              rw [hx, hy, hFirst, hSecond]
              rfl
            unfold shownBetween
            rw [edgesBetween_addEdge_of_ne map hOther]

/- Adding a relation keeps nodes apart. -/
theorem Separates.addRelation
    (hMap : map.Separates)
    (r : Relation) :
    (MapBuilder.addRelation map r).Separates := by
  constructor
  · rw [addRelation_nodes]
    exact hMap.ids
  · rw [addRelation_nodes]
    exact hMap.elements

/- The edges stand for all relations that have been added. -/
theorem Connects.foldl
    (hMap : map.Separates)
    {done : List Relation}
    (hConnects : map.Connects done)
    (relations : List Relation) :
    (relations.foldl MapBuilder.addRelation map).nodes =
        map.nodes ∧
      (relations.foldl MapBuilder.addRelation map).Connects
        (done ++ relations) := by
  induction relations generalizing map done with
  | nil => simpa using hConnects
  | cons r relations ih =>
      have hRest :=
        ih (hMap.addRelation r)
          (addRelation_connects hMap hConnects r)
      rw [addRelation_nodes] at hRest
      simpa using hRest

------------------------------------------------------------
-- Maps of Selections
------------------------------------------------------------

/-
  A map shows the selected elements of a model, and the
  relations between them.

  `once`: each selected element has one node.  `only`: a node
  stands for selected elements, and for some.  `shared`: two
  selected classes share a node if and only if declared
  equivalences connect them.  `edges`: there is an edge from a
  node to another one if the map is to show some relations
  from the one to the other, and it is the only one and stands
  for all of them.  `order`: the ids of these increase.
  `ends`: there are no other edges.
-/
structure Depicts
    (map : ArgumentMap)
    (m : Model)
    (s : Selection)
    (settings : MapSettings) : Prop where
  nodeIds : (map.nodes.map MapNode.id).Nodup
  once : ∀ element,
    m.contains element = true →
      s.contains element = true →
        map.nodes.countP (·.represents element) = 1
  only : ∀ n ∈ map.nodes,
    (∃ element, n.represents element = true) ∧
      ∀ element, n.represents element = true →
        m.contains element = true ∧
          s.contains element = true
  shared : ∀ one other,
    m.contains (.statement one) = true →
      m.contains (.statement other) = true →
        s.contains (.statement one) = true →
          s.contains (.statement other) = true →
            ((∃ n ∈ map.nodes,
              n.represents (.statement one) = true ∧
                n.represents (.statement other) = true) ↔
              m.Equivalent one other)
  edges : ∀ x ∈ map.nodes, ∀ y ∈ map.nodes, x ≠ y →
    (map.edgesBetween x.id y.id).map
        (fun e => (e.relations, e.kinds)) =
      if wanted m settings x y = [] then []
      else
        [((wanted m settings x y).map Relation.id,
          ((wanted m settings x y).map
            Relation.kind).eraseDups)]
  order : ∀ x y,
    ((wanted m settings x y).map Relation.id).Pairwise (· < ·)
  ends : ∀ e ∈ map.edges, ∃ x ∈ map.nodes, ∃ y ∈ map.nodes,
    x ≠ y ∧ e.source = x.id ∧ e.target = y.id

/- The relations that a map shows between two nodes. -/
theorem between_shown
    (m : Model)
    (settings : MapSettings)
    (x y : MapNode) :
    between
        (m.relations.filter
          (fun r => MapBuilder.shows settings r.origin))
        x y =
      wanted m settings x y := by
  unfold between wanted
  rw [List.filter_filter]
  apply List.filter_congr
  intro r _
  rw [Bool.eq_iff_iff, decide_eq_true_iff, Bool.and_eq_true,
    Bool.and_eq_true, MapBuilder.shows_iff]
  tauto

/- The ids of the relations between two nodes increase. -/
theorem wanted_pairwise
    {m : Model}
    (hIntact : m.IsIntact)
    (settings : MapSettings)
    (x y : MapNode) :
    ((wanted m settings x y).map Relation.id).Pairwise
      (· < ·) := by
  have hAll : (m.relations.map Relation.id).Pairwise (· < ·) := by
    rw [hIntact.relationIds]
    exact List.pairwise_lt_range
  exact hAll.sublist (List.filter_sublist.map Relation.id)

/-
  The nodes of a map that is built are those of the selected
  elements, and its edges stand for the relations to show.
-/
theorem build_spec
    {m : Model}
    (hIntact : m.IsIntact)
    (s : Selection)
    (settings : MapSettings) :
    (build m s settings).Separates ∧
      (build m s settings).nodes =
        ((MapBuilder.elements m s).foldl
          (MapBuilder.addElement m) ⟨[], []⟩).nodes ∧
      (build m s settings).Connects
        (m.relations.filter
          (fun r => MapBuilder.shows settings r.origin)) := by
  have hNodes := MapBuilder.standFor_elements hIntact s
  have hOnce :=
    MapBuilder.elements_nodup hIntact.classTitles
      hIntact.argumentTitles s
  have hNone : MapBuilder.Nodes.Plain [] :=
    ⟨Numbered.nil 'n', by simp⟩
  have hPlain :
      MapBuilder.Nodes.Plain
        ((MapBuilder.elements m s).foldl
          (MapBuilder.addElement m) ⟨[], []⟩).nodes :=
    MapBuilder.foldl_addElement_plain m _ hNone
  have hStart :
      Separates
        ⟨((MapBuilder.elements m s).foldl
          (MapBuilder.addElement m) ⟨[], []⟩).nodes,
          [], []⟩ := by
    refine ⟨hPlain.ids.nodup, ?_⟩
    exact fun x hx y hy element hFirst hSecond =>
      hNodes.node_unique hOnce hx hy hFirst hSecond
  have hNothing :
      Connects
        ⟨((MapBuilder.elements m s).foldl
          (MapBuilder.addElement m) ⟨[], []⟩).nodes, [], []⟩
        [] :=
    fun _ _ _ _ _ => rfl
  rcases hNothing.foldl hStart
      (m.relations.filter
        (fun r => MapBuilder.shows settings r.origin)) with
    ⟨hSame, hConnects⟩
  refine ⟨⟨?_, ?_⟩, hSame, hConnects⟩
  · unfold build
    rw [hSame]
    exact hStart.ids
  · unfold build
    rw [hSame]
    exact hStart.elements

/- The map of a selection of an intact model depicts it. -/
theorem depicts_build
    {m : Model}
    (hIntact : m.IsIntact)
    (s : Selection)
    (settings : MapSettings) :
    (build m s settings).Depicts m s settings := by
  have hNodes := MapBuilder.standFor_elements hIntact s
  have hOnce :=
    MapBuilder.elements_nodup hIntact.classTitles
      hIntact.argumentTitles s
  rcases build_spec hIntact s settings with
    ⟨hSeparates, hSame, hConnects⟩
  have hPlain := build_plain m s settings
  constructor
  case nodeIds => exact hSeparates.ids
  case once =>
    intro element hThere hChosen
    rw [hSame]
    exact
      hNodes.countP_represents hOnce
        (MapBuilder.mem_elements_iff.mpr ⟨hThere, hChosen⟩)
  case only =>
    rw [hSame]
    intro n hn
    refine ⟨hNodes.exists_represents hn, ?_⟩
    intro element hElement
    exact
      MapBuilder.mem_elements_iff.mp (hNodes.mem_done hn hElement)
  case shared =>
    intro one other hOne hOther hFirst hSecond
    rw [hSame,
      ← MapBuilder.classKey_eq_iff hIntact.classTitles hOne
        hOther]
    exact
      hNodes.share_iff
        (MapBuilder.mem_elements_iff.mpr ⟨hOne, hFirst⟩)
        (MapBuilder.mem_elements_iff.mpr ⟨hOther, hSecond⟩)
  case edges =>
    intro x hx y hy hApart
    have hIds : x.id ≠ y.id := fun hId =>
      hApart (List.inj_on_of_nodup_map hSeparates.ids hx hy hId)
    have hShown := hConnects x hx y hy hIds
    have hUnique :
        ((wanted m settings x y).map Relation.id).Nodup :=
      (wanted_pairwise hIntact settings x y).imp
        (fun hLess => Nat.ne_of_lt hLess)
    rw [between_shown, summary,
      Sequence.eraseDups_of_nodup hUnique] at hShown
    exact hShown
  case order => exact wanted_pairwise hIntact settings
  case ends =>
    intro e he
    rcases hPlain.ends e he with
      ⟨⟨x, hx, hSource⟩, ⟨y, hy, hTarget⟩⟩
    refine ⟨x, hx, y, hy, ?_, hSource.symm, hTarget.symm⟩
    rintro rfl
    exact hPlain.noLoop e he (hSource.symm.trans hTarget)

/-
  The map of a selection depicts it, whatever has been done to
  the model of a document.
-/
theorem build_changes_depicts
    (withoutTags : Bool)
    (d : Document)
    (changes : List Model.Change)
    (s : Selection)
    (settings : MapSettings) :
    (build
      (changes.foldl Model.change
        (Model.build withoutTags d).1)
      s settings).Depicts
        (changes.foldl Model.change
          (Model.build withoutTags d).1)
        s settings :=
  depicts_build
    (Model.build_changes_intact withoutTags d changes).1 s
    settings

end ArgumentMap

end Dialectic
