import Dialectic.Proofs.Export.Lines

/-
  In the items of a map each node and each group that is not
  empty has its place in just the clusters of the groups around
  it, and nothing else has.

  Key definitions include:
    * `Dot.placed`
    * `Dot.IsBlock`
    * `Dot.clustersOf`
    * `Dot.nodeEntry`
    * `Dot.groupEntries`

  Main theorems:
    * `Dot.IsBlock.flatMap`
    * `Dot.groupItems_placed`
    * `Dot.bodyItems_placed`
-/

namespace Dialectic

namespace Dot

------------------------------------------------------------
-- Clusters Around Items
------------------------------------------------------------

/- The clusters around what follows an item. -/
def Item.inside (around : List String) : Item → List String
| .cluster name => name :: around
| .close => around.tail
| _ => around

/- Items with the clusters around them, innermost first. -/
def placed :
    (around : List String) →
    List Item →
    List (Item × List String)
| _, [] => []
| around, item :: items =>
    (item, around) :: placed (item.inside around) items

/- Items that close just those clusters that they open. -/
def IsBlock (items : List Item) : Prop :=
  ∀ around, items.foldl Item.inside around = around

/- Items neither open nor close a cluster. -/
def IsFlat (items : List Item) : Prop :=
  ∀ item ∈ items, ∀ around, item.inside around = around

/- The places of items behind others. -/
theorem placed_append
    (around : List String)
    (items later : List Item) :
    placed around (items ++ later) =
      placed around items
        ++ placed (items.foldl Item.inside around) later := by
  induction items generalizing around with
  | nil => rfl
  | cons item items ih =>
      simp only [List.cons_append, placed, ih, List.foldl_cons]

/- Blocks do not change the places of what follows them. -/
theorem IsBlock.placed_append
    {items : List Item}
    (hBlock : IsBlock items)
    (around : List String)
    (later : List Item) :
    placed around (items ++ later) =
      placed around items ++ placed around later := by
  rw [Dot.placed_append, hBlock]

/- Blocks may follow each other. -/
theorem IsBlock.append
    {items later : List Item}
    (hBlock : IsBlock items)
    (hLater : IsBlock later) :
    IsBlock (items ++ later) := by
  intro around
  rw [List.foldl_append, hBlock, hLater]

/- Blocks that follow each other have the same place. -/
theorem IsBlock.flatMap
    {α : Type}
    {xs : List α}
    {items : α → List Item}
    (hBlocks : ∀ x ∈ xs, IsBlock (items x)) :
    IsBlock (xs.flatMap items) ∧
      ∀ around, placed around (xs.flatMap items) =
        xs.flatMap (fun x => placed around (items x)) := by
  induction xs with
  | nil => exact ⟨fun _ => rfl, fun _ => rfl⟩
  | cons x xs ih =>
      rw [List.forall_mem_cons] at hBlocks
      rcases ih hBlocks.2 with ⟨hRest, hPlaced⟩
      refine ⟨hBlocks.1.append hRest, ?_⟩
      intro around
      rw [List.flatMap_cons, hBlocks.1.placed_append, hPlaced,
        List.flatMap_cons]

/- Items without clusters are blocks in one place. -/
theorem IsFlat.placed
    {items : List Item}
    (hFlat : IsFlat items) :
    IsBlock items ∧ ∀ around,
      Dot.placed around items =
        items.map (fun item => (item, around)) := by
  induction items with
  | nil => exact ⟨fun _ => rfl, fun _ => rfl⟩
  | cons item items ih =>
      rcases List.forall_mem_cons.mp hFlat with ⟨hHere, hLater⟩
      rcases ih hLater with ⟨hRest, hPlaced⟩
      constructor
      · intro around
        rw [List.foldl_cons, hHere, hRest]
      · intro around
        rw [Dot.placed, hHere, hPlaced, List.map_cons]

/- The title and the color of a group are no clusters. -/
theorem isFlat_settingItems (g : MapGroup) :
    IsFlat (settingItems g) := by
  intro item hItem around
  cases hColor : g.color <;>
    simp only [settingItems, hColor, List.mem_cons,
      List.not_mem_nil, or_false] at hItem
  · subst hItem
    rfl
  · rcases hItem with rfl | rfl | rfl <;> rfl

/- A cluster around a block is a block. -/
theorem IsBlock.cluster
    {items : List Item}
    (hBlock : IsBlock items)
    (name : String) :
    IsBlock (.cluster name :: items ++ [.close]) ∧
      ∀ around,
        placed around (.cluster name :: items ++ [.close]) =
          (.cluster name, around)
            :: placed (name :: around) items
            ++ [(.close, name :: around)] := by
  constructor
  · intro around
    have hOpened := hBlock (name :: around)
    simp only [List.cons_append, List.foldl_cons,
      List.foldl_append, Item.inside, hOpened, List.foldl_nil,
      List.tail_cons]
  · intro around
    rw [List.cons_append, placed, hBlock.placed_append]
    rfl

------------------------------------------------------------
-- Places of Groups
------------------------------------------------------------

variable {map : ArgumentMap}

/-
  The clusters of a group and of the groups around it, if there
  is one.
-/
def clustersOf (map : ArgumentMap) :
    (group : Option String) → List String
| none => []
| some id => (id :: map.ancestors id).map clusterName

/- A node in the clusters of its group. -/
def nodeEntry
    (settings : DotSettings)
    (map : ArgumentMap)
    (n : MapNode) : Item × List String :=
  (nodeItem settings n, clustersOf map n.group)

/-
  A group in the clusters of its parent, and in its own cluster
  its title, its color and the end.
-/
def groupEntries (map : ArgumentMap) (g : MapGroup) :
    List (Item × List String) :=
  (.cluster (clusterName g.id), clustersOf map g.parent)
    :: (settingItems g ++ [Item.close]).map (fun item =>
      (item, clustersOf map (some g.id)))

/- The clusters around a group are those of its parent. -/
theorem clustersOf_parent
    (hMap : map.Nested)
    {g : MapGroup}
    (hg : g ∈ map.groups) :
    (map.ancestors g.id).map clusterName =
      clustersOf map g.parent := by
  have hParent := hMap.parent?_id hg
  cases hAbove : g.parent with
  | none =>
      rw [ArgumentMap.ancestors_eq_nil (hParent.trans hAbove)]
      rfl
  | some p =>
      rw [hMap.ancestors_eq_cons (hParent.trans hAbove)]
      rfl

/- Nodes of the same group are side by side in its clusters. -/
theorem nodeItems_placed
    (settings : DotSettings)
    {nodes : List MapNode}
    {group : Option String}
    (hGroup : ∀ n ∈ nodes, n.group = group) :
    IsBlock (nodes.map (nodeItem settings)) ∧
      placed (clustersOf map group)
          (nodes.map (nodeItem settings)) =
        nodes.map (nodeEntry settings map) := by
  have hFlat : IsFlat (nodes.map (nodeItem settings)) := by
    intro item hItem around
    rcases List.mem_map.mp hItem with ⟨n, _, rfl⟩
    rfl
  rcases hFlat.placed with ⟨hBlock, hPlaced⟩
  refine ⟨hBlock, ?_⟩
  rw [hPlaced, List.map_map]
  apply List.map_congr_left
  intro n hn
  rw [nodeEntry, hGroup n hn]
  rfl

/- What comes last may be counted before what is in between. -/
theorem perm_last_before
    {α : Type}
    (first last : α)
    (before between later : List α) :
    (first :: (before ++ between ++ later) ++ [last]).Perm
      (first :: (before ++ [last]) ++ between ++ later) :=
  calc
    (first :: (before ++ between ++ later) ++ [last]).Perm
        (first :: (before ++ ((between ++ later) ++ [last]))) := by
      simp
    List.Perm _
        (first :: (before ++ ([last] ++ (between ++ later)))) :=
      (List.perm_append_comm.append_left before).cons first
    List.Perm _
        (first :: (before ++ [last]) ++ between ++ later) := by
      simp

/-
  The items of a group around a block are its own, those of its
  nodes and those of the block, all in their places.
-/
theorem group_placed
    (settings : DotSettings)
    (hMap : map.Nested)
    {g : MapGroup}
    (hg : g ∈ map.groups)
    {inner : List Item}
    (hInner : IsBlock inner) :
    IsBlock
        (.cluster (clusterName g.id) :: settingItems g
          ++ (map.held g).map (nodeItem settings) ++ inner
          ++ [.close]) ∧
      (placed (clustersOf map g.parent)
        (.cluster (clusterName g.id) :: settingItems g
          ++ (map.held g).map (nodeItem settings) ++ inner
          ++ [.close])).Perm
        (groupEntries map g
          ++ (map.held g).map (nodeEntry settings map)
          ++ placed (clustersOf map (some g.id)) inner) := by
  rcases (isFlat_settingItems g).placed with ⟨hOwn, hOwnPlaced⟩
  rcases nodeItems_placed settings (fun n hn =>
      ((hMap.mem_held_iff hg).mp hn).2) with
    ⟨hNodes, hNodesPlaced⟩
  rcases ((hOwn.append hNodes).append hInner).cluster
      (clusterName g.id) with
    ⟨hBlock, hPlaced⟩
  refine ⟨hBlock, ?_⟩
  have hInside :
      clusterName g.id :: clustersOf map g.parent =
        clustersOf map (some g.id) := by
    rw [← clustersOf_parent hMap hg]
    rfl
  have hAll := hPlaced (clustersOf map g.parent)
  rw [hInside, (hOwn.append hNodes).placed_append,
    hOwn.placed_append, hOwnPlaced, hNodesPlaced] at hAll
  rw [groupEntries, List.map_append]
  exact
    (List.Perm.of_eq hAll).trans (perm_last_before _ _ _ _ _)

/-
  The items of a group are its own and those of what is in it,
  all in their places.
-/
theorem groupItems_placed
    (settings : DotSettings)
    (hMap : map.Nested)
    (fuel : Nat)
    (id : String) :
    IsBlock (groupItems settings map fuel id) ∧
      (placed ((map.ancestors id).map clusterName)
        (groupItems settings map fuel id)).Perm
        ((map.preorder fuel id).flatMap (fun g =>
          groupEntries map g
            ++ (map.held g).map (nodeEntry settings map))) := by
  induction fuel generalizing id with
  | zero => exact ⟨fun _ => rfl, .refl _⟩
  | succ fuel ih =>
      rw [groupItems, ArgumentMap.preorder]
      cases hFound : map.group? id with
      | none => exact ⟨fun _ => rfl, .refl _⟩
      | some g =>
          rcases (ArgumentMap.group?_eq_some_iff
              hMap.groupIds).mp hFound with
            ⟨hg, hId⟩
          subst hId
          dsimp only
          split
          · exact ⟨fun _ => rfl, .refl _⟩
          · rcases IsBlock.flatMap
                (fun c (_ : c ∈ g.subgroups) => (ih c).1) with
              ⟨hInner, hInnerPlaced⟩
            rcases group_placed settings hMap hg hInner with
              ⟨hBlock, hPlaced⟩
            refine ⟨hBlock, ?_⟩
            rw [clustersOf_parent hMap hg, List.flatMap_cons,
              List.flatMap_assoc]
            refine hPlaced.trans (List.Perm.append_left _ ?_)
            rw [hInnerPlaced]
            refine List.Perm.flatMap_left _ ?_
            intro c hListed
            have hThere := (ih c).2
            rw [hMap.ancestors_of_mem_subgroups hg hListed]
              at hThere
            exact hThere

/-
  The items of all groups are those of the groups from outside
  inwards, all in their places.
-/
theorem rootItems_placed
    (settings : DotSettings)
    (hMap : map.Nested) :
    IsBlock
        (map.rootGroups.flatMap (fun g =>
          groupItems settings map map.groups.length g.id)) ∧
      (placed []
        (map.rootGroups.flatMap (fun g =>
          groupItems settings map map.groups.length g.id))).Perm
        (map.outline.flatMap (fun g =>
          groupEntries map g
            ++ (map.held g).map (nodeEntry settings map))) := by
  have hEach := fun (g : MapGroup) =>
    groupItems_placed settings hMap map.groups.length g.id
  rcases IsBlock.flatMap
      (fun g (_ : g ∈ map.rootGroups) => (hEach g).1) with
    ⟨hBlock, hPlaced⟩
  refine ⟨hBlock, ?_⟩
  rw [hPlaced, ArgumentMap.outline, List.flatMap_assoc]
  refine List.Perm.flatMap_left _ ?_
  intro g hg
  have hThere := (hEach g).2
  rw [hMap.ancestors_of_mem_rootGroups hg] at hThere
  exact hThere

/-
  The items of all nodes and groups are those of each node and
  of each group that is not empty, all in their places.
-/
theorem bodyItems_placed
    (settings : DotSettings)
    (hMap : map.Tidy) :
    IsBlock (bodyItems settings map) ∧
      (placed [] (bodyItems settings map)).Perm
        (map.nodes.map (nodeEntry settings map)
          ++ (map.groups.filter (fun g => !g.isEmpty)).flatMap
            (groupEntries map)) := by
  have hOutside : ∀ n ∈
      map.nodes.filter (fun n => n.group.isNone),
      n.group = none := by
    intro n hn
    simpa using (List.mem_filter.mp hn).2
  rcases nodeItems_placed settings hOutside with
    ⟨hNodes, hNodesPlaced⟩
  rcases rootItems_placed settings hMap.nested with
    ⟨hGroups, hGroupsPlaced⟩
  refine ⟨hNodes.append hGroups, ?_⟩
  let outside := map.nodes.filter (fun n => n.group.isNone)
  let filled := map.groups.filter (fun g => !g.isEmpty)
  let entry := nodeEntry settings map
  have hFilled :=
    hMap.outline_perm.flatMap_right (fun g =>
      groupEntries map g ++ (map.held g).map entry)
  have hApart :=
    List.flatMap_append_perm filled (groupEntries map)
      (fun g => (map.held g).map entry)
  calc
    (placed [] (bodyItems settings map)).Perm
        (outside.map entry
          ++ placed [] (map.rootGroups.flatMap (fun g =>
            groupItems settings map map.groups.length
              g.id))) := by
      rw [bodyItems, hNodes.placed_append]
      exact List.Perm.of_eq (congrArg (· ++ _) hNodesPlaced)
    List.Perm _
        (outside.map entry
          ++ filled.flatMap (fun g =>
            groupEntries map g ++ (map.held g).map entry)) :=
      (hGroupsPlaced.trans hFilled).append_left _
    List.Perm _
        (outside.map entry
          ++ (filled.flatMap (fun g => (map.held g).map entry)
            ++ filled.flatMap (groupEntries map))) :=
      (hApart.symm.trans List.perm_append_comm).append_left _
    List.Perm _
        ((outside ++ filled.flatMap map.held).map entry
          ++ filled.flatMap (groupEntries map)) := by
      rw [List.map_append, List.map_flatMap, List.append_assoc]
    List.Perm _
        (map.nodes.map entry
          ++ filled.flatMap (groupEntries map)) :=
      (hMap.nested.held_perm.map entry).append_right _

end Dot

end Dialectic
