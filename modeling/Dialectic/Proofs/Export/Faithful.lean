import Dialectic.Proofs.Export.Clusters
import Dialectic.Proofs.Map.Quotient
import Dialectic.Proofs.Map.Tidy

/-
  The maps of models are written in the DOT language without
  loss: what is read has each node, group and edge of the map
  in its place, whatever texts and colors there are in it.

  Key definitions include:
    * `ArgumentMap.painted`

  Main theorems:
    * `Dot.numbered_isWord`
    * `ArgumentMap.painted_tidy`
    * `Dot.painted_isLegible`
    * `Dot.toDot_faithful`
-/

namespace Dialectic

namespace Dot

------------------------------------------------------------
-- Legible Maps
------------------------------------------------------------

variable {map : ArgumentMap}

/- Ids that are a letter with a running number are words. -/
theorem numbered_isWord
    {letter : Char}
    {ids : List String}
    (hLetter : isWordChar letter = true)
    (hIds : Numbered letter ids) :
    ∀ id ∈ ids, IsWord id := by
  intro id hMem
  rcases hIds.eq_of_mem hMem with ⟨i, _, hId⟩
  have hChars : id.toList = letter :: Nat.toDigits 10 i := by
    simp [hId, Char.toString]
  rw [IsWord, hChars]
  refine
    ⟨List.cons_ne_nil _ _,
      List.forall_mem_cons.mpr ⟨hLetter, ?_⟩⟩
  intro c hc
  have hDigit : c.isDigit = true :=
    Nat.isDigit_of_mem_toDigits (by decide) (by decide) hc
  simp [isWordChar, Char.isAlphanum, hDigit]

/- An edge that takes over another one still has kinds. -/
theorem absorb_kinds_ne_nil
    {f : MapEdge}
    (hKinds : f.kinds ≠ [])
    (e : MapEdge) :
    (f.absorb e).kinds ≠ [] := by
  rcases List.exists_mem_of_ne_nil _ hKinds with ⟨kind, hKind⟩
  exact
    List.ne_nil_of_mem
      (Sequence.mem_addAllNew.mpr (Or.inl hKind))

/- The map of a selection with its nodes in groups is legible. -/
theorem grouped_isLegible
    (m : Model)
    (s : Selection)
    (drawing : MapSettings)
    (groups : GroupSettings) :
    IsLegible (ArgumentMap.grouped m s drawing groups) := by
  have hPlain := ArgumentMap.build_plain m s drawing
  rcases hPlain.buildGroups_forest m groups with
    ⟨hIds, hListing, _⟩
  have hNodeWords := numbered_isWord (by decide) hPlain.nodes.ids
  have hGroupWords := numbered_isWord (by decide) hListing.ids
  have hKinds : ∀ e ∈ (ArgumentMap.build m s drawing).edges,
      e.kinds ≠ [] :=
    ArgumentMap.build_kept
      (fun _ e hf => absorb_kinds_ne_nil hf e)
      (fun _ _ _ _ _ => List.cons_ne_nil _ _)
      m s drawing
  constructor
  · intro n hn
    apply hNodeWords
    rw [← hIds]
    exact List.mem_map_of_mem hn
  · exact fun g hg => hGroupWords g.id (List.mem_map_of_mem hg)
  · intro e he
    rcases hPlain.ends e he with
      ⟨⟨a, ha, hSource⟩, ⟨b, hb, hTarget⟩⟩
    exact
      ⟨hSource ▸ hNodeWords a.id (List.mem_map_of_mem ha),
        hTarget ▸ hNodeWords b.id (List.mem_map_of_mem hb),
        hKinds e he⟩

/- Replacing a closed group by a node keeps a map legible. -/
theorem IsLegible.collapseGroup
    (hLegible : IsLegible map)
    (hMap : map.Nested)
    {g : MapGroup}
    (hg : ArgumentMap.Collapsible map g) :
    IsLegible (map.collapseGroup g.id) := by
  have hOwn := hLegible.groups g hg.mem
  constructor
  · intro n hn
    rcases (hg.mem_nodes hMap n).mp hn with hSame | ⟨hOld, _⟩
    · exact hSame ▸ hOwn
    · exact hLegible.nodes n hOld
  · intro h hh
    rcases (hg.mem_groups hMap h).mp hh with ⟨k, hk, _, hSame⟩
    rw [← hSame, ArgumentMap.changed_id]
    exact hLegible.groups k hk
  · intro e he
    rcases (hg.mem_edges hMap e).mp he with ⟨_, f, hf, hSame⟩
    subst hSame
    rcases hLegible.edges f hf with ⟨hSource, hTarget, hKinds⟩
    refine ⟨?_, ?_, hKinds⟩
    · unfold ArgumentMap.redirect
      dsimp only
      split
      · exact hOwn
      · exact hSource
    · unfold ArgumentMap.redirect
      dsimp only
      split
      · exact hOwn
      · exact hTarget

/- Merging edges keeps a map legible. -/
theorem IsLegible.mergeEdges (hLegible : IsLegible map) :
    IsLegible map.mergeEdges where
  nodes := hLegible.nodes
  groups := hLegible.groups
  edges :=
    MapEdge.foldl_mergeInto_kept
      (fun _ e hf =>
        ⟨hf.1, hf.2.1, absorb_kinds_ne_nil hf.2.2 e⟩)
      (fun _ hNone => absurd hNone List.not_mem_nil)
      (fun e he => hLegible.edges e (List.mem_of_mem_filter he))

/- Replacing all closed groups keeps a map legible. -/
theorem IsLegible.collapse
    (hLegible : IsLegible map)
    (hMap : map.Nested) :
    IsLegible map.collapse.1 :=
  hMap.collapse_kept
    (fun hNested hg hKept => hKept.collapseGroup hNested hg)
    (fun hKept => hKept.mergeEdges) hLegible

/- Changing colors keeps a map legible. -/
theorem IsLegible.recolored
    (hLegible : IsLegible map)
    (nodeColor : MapNode → Option String)
    (edgeColor : MapEdge → Option String)
    (groupColor : MapGroup → Option String) :
    IsLegible
      (map.recolored nodeColor edgeColor groupColor) := by
  constructor
  · simpa [ArgumentMap.recolored] using hLegible.nodes
  · simpa [ArgumentMap.recolored] using hLegible.groups
  · simpa [ArgumentMap.recolored] using hLegible.edges

end Dot

------------------------------------------------------------
-- Maps of Models
------------------------------------------------------------

/-
  The map of a selection with its nodes in groups.  Its closed
  groups may be replaced by nodes, and it may have any colors.
-/
def ArgumentMap.painted
    (m : Model)
    (s : Selection)
    (drawing : MapSettings)
    (groups : GroupSettings)
    (collapses : Bool)
    (nodeColor : MapNode → Option String)
    (edgeColor : MapEdge → Option String)
    (groupColor : MapGroup → Option String) : ArgumentMap :=
  recolored
    (if collapses then (grouped m s drawing groups).collapse.1
      else grouped m s drawing groups)
    nodeColor edgeColor groupColor

variable (m : Model)
variable (s : Selection)
variable (drawing : MapSettings)
variable (groups : GroupSettings)
variable (collapses : Bool)
variable (nodeColor : MapNode → Option String)
variable (edgeColor : MapEdge → Option String)
variable (groupColor : MapGroup → Option String)

/- The map of a selection is tidy. -/
theorem ArgumentMap.painted_tidy :
    Tidy
      (painted m s drawing groups collapses nodeColor edgeColor
        groupColor) := by
  have hGrouped :=
    (build_plain m s drawing).buildGroups_tidy m groups
  apply Tidy.recolored
  split
  · exact hGrouped.collapse
  · exact hGrouped

namespace Dot

/- The map of a selection is legible. -/
theorem painted_isLegible :
    IsLegible
      (ArgumentMap.painted m s drawing groups collapses nodeColor
        edgeColor groupColor) := by
  have hGrouped :=
    (ArgumentMap.build_plain m s drawing).buildGroups_nested m
      groups
  have hLegible := grouped_isLegible m s drawing groups
  apply IsLegible.recolored
  split
  · exact hLegible.collapse hGrouped.1
  · exact hLegible

/-
  The map of a selection is written without loss, whatever its
  texts and colors are.  Each line is a statement.  After those
  of the graph itself there is one for each node, in just the
  clusters of the groups around it, and one cluster for each
  group that is not empty, in just those of the groups around
  this, with its title and color.  There is nothing else, until
  all clusters are closed, and the statements of the edges
  follow, one for each, with the names of its kinds in order.
  Ids are not repeated.  A text in quotation marks ends at the
  first one that is not escaped, and is read as it was.
-/
theorem toDot_faithful (settings : DotSettings) :
    let map :=
      ArgumentMap.painted m s drawing groups collapses nodeColor
        edgeColor groupColor
    (∃ body,
      read? (map.toDot settings) =
          some
            (headItems settings ++ body ++ edgeItems map
              ++ [.close]) ∧
        IsBlock body ∧
        (placed [] body).Perm
          (map.nodes.map (nodeEntry settings map)
            ++ (map.groups.filter
              (fun g => !g.isEmpty)).flatMap
                (groupEntries map))) ∧
      (map.nodes.map MapNode.id).Nodup ∧
      (map.groups.map MapGroup.id).Nodup ∧
      ∀ (text : String) (rest : List Char),
        unquote? ((quote text).toList ++ rest) =
          some (text, rest) := by
  intro map
  have hTidy : map.Tidy :=
    ArgumentMap.painted_tidy m s drawing groups collapses
      nodeColor edgeColor groupColor
  have hLegible : IsLegible map :=
    painted_isLegible m s drawing groups collapses nodeColor
      edgeColor groupColor
  rcases bodyItems_placed settings hTidy with ⟨hBlock, hPlaced⟩
  exact
    ⟨⟨bodyItems settings map, read?_toDot settings hLegible,
        hBlock, hPlaced⟩,
      hTidy.nested.nodeIds, hTidy.nested.groupIds,
      unquote?_quote⟩

end Dot

end Dialectic
