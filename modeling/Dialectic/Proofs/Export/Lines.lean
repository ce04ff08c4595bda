import Dialectic.Proofs.Export.Reading
import Dialectic.Proofs.Map.Preorder
import Mathlib.Data.List.Forall2

/-
  A map that is written in the DOT language is read as the
  statements it was written for, one on each line, whatever
  texts are in it.

  Key definitions include:
    * `Dot.nodeItem`, `Dot.edgeItem`
    * `Dot.groupItems`
    * `Dot.bodyItems`
    * `Dot.IsLegible`

  Main theorems:
    * `Dot.nodeLine_tells`
    * `Dot.edgeLine_tells`
    * `Dot.groupLines_tell`
    * `Dot.read?_toDot`
-/

namespace Dialectic

namespace Dot

------------------------------------------------------------
-- Properties
------------------------------------------------------------

/-
  A property is read as a name and a value, whatever follows
  it, as long as that does not go on with its value.
-/
def IsProperty (s : String) (pair : String × String) : Prop :=
  ∃ value, value? value = some pair.2 ∧
    ∀ {c : Char} {cs : List Char} {ts : List Token},
      isWordChar c = false →
        Reads (c :: cs) ts →
          Reads (s.toList ++ c :: cs)
            (.word pair.1 :: .sign '=' :: value :: ts)

/- The name of a property is read, and the sign behind it. -/
theorem Reads.assign
    {name value : String}
    (hName : IsWord name)
    {cs : List Char}
    {ts : List Token}
    (hValue : Reads (value.toList ++ cs) ts) :
    Reads ((Dot.assign name value).toList ++ cs)
      (.word name :: .sign '=' :: ts) := by
  have hSign : Reads [' ', '=', ' '] [.sign '='] :=
    ⟨by decide, by decide⟩
  have hPair :=
    Reads.word hName (by decide) (hSign.append hValue)
  simpa [Dot.assign] using hPair

/- A property may be a text in quotation marks. -/
theorem isProperty_quote
    (name s : String)
    (hName : IsWord name) :
    IsProperty (assign name (quote s)) (name, s) :=
  ⟨.text s, rfl, fun _ hNext =>
    .assign hName ((Reads.quoted s).append hNext)⟩

/- A property may be a word. -/
theorem isProperty_word
    (name s : String)
    (hName : IsWord name)
    (hWord : IsWord s) :
    IsProperty (assign name s) (name, s) :=
  ⟨.word s, rfl, fun hOther hNext =>
    .assign hName (.word hWord hOther hNext)⟩

/- The lists of properties of statements are read. -/
theorem propertyList_reads
    {properties : List String}
    {pairs : List (String × String)}
    (hPairs : List.Forall₂ IsProperty properties pairs)
    (hSome : properties ≠ []) :
    ∃ ts,
      Reads (propertyList properties).toList (.sign '[' :: ts) ∧
        properties? ts = some pairs := by
  have hOpen : Reads ['['] [.sign '['] :=
    ⟨by decide, by decide⟩
  have hClose : Reads [']', ';'] [.sign ']', .sign ';'] :=
    ⟨by decide, by decide⟩
  have hComma : Reads [',', ' '] [.sign ','] :=
    ⟨by decide, by decide⟩
  have hInner : ∃ ts,
      Reads ((", ".intercalate properties).toList ++ [']', ';'])
          ts ∧
        properties? ts = some pairs := by
    induction hPairs with
    | nil => exact absurd rfl hSome
    | @cons s pair rest pairs hProperty hRest ih =>
        rcases hProperty with ⟨value, hValue, hReads⟩
        cases hRest with
        | nil =>
            refine ⟨_, hReads (by decide) hClose, ?_⟩
            simp [properties?, hValue]
        | @cons next _ _ _ hNext hLater =>
            rcases ih nofun with ⟨ts, hTs, hMore⟩
            have hHere := hReads (by decide) (hComma.append hTs)
            refine
              ⟨.word pair.1 :: .sign '=' :: value
                  :: .sign ',' :: ts, ?_, ?_⟩
            · simpa [String.intercalate_cons_cons] using hHere
            · simp [properties?, hValue, hMore]
  rcases hInner with ⟨ts, hReads, hRead⟩
  refine ⟨ts, ?_, hRead⟩
  simpa [propertyList] using hOpen.append hReads

------------------------------------------------------------
-- Lines of Maps
------------------------------------------------------------

/- A line is read as an item, and is one line only. -/
structure Tells (line : String) (item : Item) : Prop where
  oneLine : '\n' ∉ line.toList
  ofLine? : Item.ofLine? line.toList = some item

/- A line whose tokens are read says what these say. -/
theorem Reads.tells
    {line : String}
    {ts : List Token}
    (hReads : Reads line.toList ts)
    {item : Item}
    (hItem : Item.ofTokens? ts = some item) :
    Tells line item := by
  refine ⟨hReads.oneLine, ?_⟩
  rw [Item.ofLine?, tokens?, hReads.scan]
  exact hItem

/- The properties that are written for a color. -/
def colorPair (name : String) (color : Option String) :
    List (String × String) :=
  match color with
  | some c => [(name, c)]
  | none => []

/- The color property is read as its pair. -/
theorem colorProperty_reads
    (name : String)
    (color : Option String)
    (hName : IsWord name) :
    List.Forall₂ IsProperty (colorProperty name color)
      (colorPair name color) := by
  cases color with
  | none => exact .nil
  | some c => exact .cons (isProperty_quote name c hName) .nil

/- The item of a node. -/
def nodeItem (settings : DotSettings) (n : MapNode) : Item :=
  .node n.id
    (("label", label settings n) :: ("shape", shape n.kind)
      :: ("style", style n.kind)
      :: colorPair "fillcolor" n.color)

/- The line of a node is read as this node. -/
theorem nodeLine_tells
    (settings : DotSettings)
    (depth : Nat)
    {n : MapNode}
    (hId : IsWord n.id) :
    Tells (nodeLine settings depth n) (nodeItem settings n) := by
  have hShape : IsWord (shape n.kind) := by
    cases n.kind <;> decide
  have hPairs :=
    colorProperty_reads "fillcolor" n.color (by decide)
      |>.cons
        (isProperty_quote "style" (style n.kind) (by decide))
      |>.cons
        (isProperty_word "shape" (shape n.kind) (by decide)
          hShape)
      |>.cons
        (isProperty_quote "label" (label settings n) (by decide))
  rcases propertyList_reads hPairs nofun with
    ⟨ts, hList, hRead⟩
  have hBlank : Reads [' '] [] := ⟨by decide, by decide⟩
  have hLine :=
    (Reads.blanks (2 * depth)).append
      (Reads.word hId (by decide) (hBlank.append hList))
  have hText : Reads (nodeLine settings depth n).toList
      (.word n.id :: .sign '[' :: ts) := by
    simpa [nodeLine, indent] using hLine
  apply hText.tells
  simp only [Item.ofTokens?, hRead]
  rfl

/- The item of an edge, with the names of its kinds in order. -/
def edgeItem (e : MapEdge) : Item :=
  .edge e.source e.target
    (("type", ",".intercalate (e.kinds.map RelationKind.name))
      :: colorPair "color" e.color)

/- The line of an edge is read as this edge. -/
theorem edgeLine_tells
    {e : MapEdge}
    (hSource : IsWord e.source)
    (hTarget : IsWord e.target)
    (hKinds : e.kinds ≠ []) :
    Tells (edgeLine e) (edgeItem e) := by
  have hPairs :=
    colorProperty_reads "color" e.color (by decide)
      |>.cons
        (isProperty_quote "type" (kindNames e.kinds) (by decide))
  rcases propertyList_reads hPairs nofun with
    ⟨ts, hList, hRead⟩
  have hBlank : Reads [' '] [] := ⟨by decide, by decide⟩
  have hArrow : Reads [' ', '-', '>', ' ']
      [.sign '-', .sign '>'] := ⟨by decide, by decide⟩
  have hEnd :=
    Reads.word hTarget (by decide) (hBlank.append hList)
  have hLine :=
    (Reads.blanks 2).append
      (Reads.word hSource (by decide) (hArrow.append hEnd))
  have hText : Reads (edgeLine e).toList
      (.word e.source :: .sign '-' :: .sign '>'
        :: .word e.target :: .sign '[' :: ts) := by
    simpa [edgeLine] using hLine
  apply hText.tells
  have hNames : kindNames e.kinds =
      ",".intercalate (e.kinds.map RelationKind.name) := by
    rw [kindNames, if_neg (by simpa using hKinds)]
  rw [hNames] at hRead
  simp only [Item.ofTokens?, hRead]
  rfl

/- A property on a line of its own is read. -/
theorem setting_tells
    {line s : String}
    {k : Nat}
    {pair : String × String}
    (hProperty : IsProperty s pair)
    (hLine : line.toList =
      List.replicate k ' ' ++ (s.toList ++ [';'])) :
    Tells line (.setting pair.1 pair.2) := by
  rcases hProperty with ⟨value, hValue, hReads⟩
  have hEnd : Reads [';'] [.sign ';'] := ⟨by decide, by decide⟩
  have hText := (Reads.blanks k).append (hReads rfl hEnd)
  rw [← hLine] at hText
  apply hText.tells
  simp only [Item.ofTokens?, List.nil_append, hValue]
  rfl

/- The name of the cluster of a group. -/
def clusterName (id : String) : String :=
  "cluster_" ++ id

/- The items of the title and the color of a group. -/
def settingItems (g : MapGroup) : List Item :=
  .setting "label" g.title
    :: (match g.color with
      | some c =>
          [.setting "style" "filled", .setting "fillcolor" c]
      | none => [])

/- The name of the cluster of a group is a word. -/
theorem clusterName_isWord {id : String} (hId : IsWord id) :
    IsWord (clusterName id) := by
  have hStart : IsWord "cluster_" := by decide
  refine ⟨by simp [clusterName], ?_⟩
  intro c hc
  rw [clusterName, String.toList_append, List.mem_append] at hc
  rcases hc with hc | hc
  · exact hStart.2 c hc
  · exact hId.2 c hc

/- The line that begins a cluster is read. -/
theorem clusterLine_tells
    (depth : Nat)
    {id : String}
    (hId : IsWord id) :
    Tells (indent depth ++ "subgraph cluster_" ++ id ++ " \x7b")
      (.cluster (clusterName id)) := by
  have hEnd : Reads [' ', '\x7b'] [.sign '\x7b'] :=
    ⟨by decide, by decide⟩
  have hName :=
    Reads.word (clusterName_isWord hId) (by decide) hEnd
  have hBegin : Reads ("subgraph ".toList) [.word "subgraph"] :=
    ⟨by decide, by decide⟩
  have hLine :=
    (Reads.blanks (2 * depth)).append (hBegin.append hName)
  have hText : Reads
      (indent depth ++ "subgraph cluster_" ++ id
        ++ " \x7b").toList
      [.word "subgraph", .word (clusterName id),
        .sign '\x7b'] := by
    simpa [indent, clusterName] using hLine
  exact hText.tells rfl

/- The lines that open a group are read as its items. -/
theorem openingLines_tell
    (depth : Nat)
    {g : MapGroup}
    (hId : IsWord g.id) :
    List.Forall₂ Tells (openingLines depth g)
      (.cluster (clusterName g.id) :: settingItems g) := by
  have hIndent : List.replicate (2 * depth + 2) ' ' =
      List.replicate (2 * depth) ' ' ++ [' ', ' '] := by
    simp [List.replicate_add]
  have hSetting : ∀ {s : String} {pair : String × String},
      IsProperty s pair →
        Tells (indent depth ++ "  " ++ s ++ ";")
          (.setting pair.1 pair.2) := by
    intro s pair hProperty
    apply setting_tells hProperty
    rw [hIndent]
    simp [indent]
  have hTitle :=
    hSetting (isProperty_quote "label" g.title (by decide))
  unfold openingLines settingItems
  refine .cons (clusterLine_tells depth hId) (.cons hTitle ?_)
  cases g.color with
  | none => exact .nil
  | some c =>
      have hStyle :=
        hSetting
          (isProperty_word "style" "filled" (by decide)
            (by decide))
      have hFill :=
        hSetting (isProperty_quote "fillcolor" c (by decide))
      exact .cons hStyle (.cons hFill .nil)

/- The items before the nodes of a graph. -/
def headItems (settings : DotSettings) : List Item :=
  .graph settings.graphName
    :: .setting "rankdir" settings.rankDir
    :: ((if settings.concentrate then
          [.setting "concentrate" "true"]
        else [])
      ++ [.blank])

/- The line that begins a graph is read. -/
theorem graphLine_tells (name : String) :
    Tells ("digraph " ++ quote name ++ " \x7b")
      (.graph name) := by
  have hEnd : Reads [' ', '\x7b'] [.sign '\x7b'] :=
    ⟨by decide, by decide⟩
  have hBegin : Reads ("digraph ".toList) [.word "digraph"] :=
    ⟨by decide, by decide⟩
  have hLine := hBegin.append ((Reads.quoted name).append hEnd)
  have hText : Reads
      ("digraph " ++ quote name ++ " \x7b").toList
      [.word "digraph", .text name, .sign '\x7b'] := by
    simpa using hLine
  exact hText.tells rfl

/- The line without a statement. -/
theorem blankLine_tells : Tells "" .blank :=
  ⟨by decide, by decide⟩

/- The lines before the nodes of a graph are read. -/
theorem headLines_tell (settings : DotSettings) :
    List.Forall₂ Tells (headLines settings)
      (headItems settings) := by
  have hSetting : ∀ {s : String} {pair : String × String},
      IsProperty s pair →
        Tells ("  " ++ s ++ ";") (.setting pair.1 pair.2) := by
    intro s pair hProperty
    exact setting_tells hProperty (k := 2) (by simp)
  have hRank :=
    hSetting
      (isProperty_quote "rankdir" settings.rankDir (by decide))
  have hConcentrate :=
    hSetting
      (isProperty_word "concentrate" "true" (by decide)
        (by decide))
  unfold headLines headItems
  refine
    .cons (graphLine_tells settings.graphName) (.cons hRank ?_)
  cases settings.concentrate with
  | false => exact .cons blankLine_tells .nil
  | true => exact .cons hConcentrate (.cons blankLine_tells .nil)

/- The line that closes a group or the graph is read. -/
theorem closingLine_tells (depth : Nat) :
    Tells (indent depth ++ "\x7d") .close := by
  have hEnd : Reads ['\x7d'] [.sign '\x7d'] :=
    ⟨by decide, by decide⟩
  have hText : Reads (indent depth ++ "\x7d").toList
      [.sign '\x7d'] := by
    simpa [indent] using (Reads.blanks (2 * depth)).append hEnd
  exact hText.tells rfl

------------------------------------------------------------
-- Maps
------------------------------------------------------------

variable {map : ArgumentMap}

/- The items of a group with its nodes and the groups in it. -/
def groupItems
    (settings : DotSettings)
    (map : ArgumentMap) :
    (fuel : Nat) → (id : String) → List Item
| 0, _ => []
| fuel + 1, id =>
    match map.group? id with
    | none => []
    | some g =>
        if g.isEmpty then []
        else
          .cluster (clusterName g.id) :: settingItems g
            ++ (map.held g).map (nodeItem settings)
            ++ g.subgroups.flatMap (groupItems settings map fuel)
            ++ [.close]

/- The items of the nodes and groups of a map. -/
def bodyItems (settings : DotSettings) (map : ArgumentMap) :
    List Item :=
  (map.nodes.filter (fun n => n.group.isNone)).map
      (nodeItem settings)
    ++ map.rootGroups.flatMap (fun g =>
      groupItems settings map map.groups.length g.id)

/- The items of the edges of a map. -/
def edgeItems (map : ArgumentMap) : List Item :=
  (if map.edges.isEmpty then [] else [.blank])
    ++ map.edges.map edgeItem

/-
  All ids are words, and edges have kinds, so that the lines
  of a map can be told apart.
-/
structure IsLegible (map : ArgumentMap) : Prop where
  nodes : ∀ n ∈ map.nodes, IsWord n.id
  groups : ∀ g ∈ map.groups, IsWord g.id
  edges : ∀ e ∈ map.edges,
    IsWord e.source ∧ IsWord e.target ∧ e.kinds ≠ []

/- The lines of nodes are read as these. -/
theorem nodeLines_tell
    (settings : DotSettings)
    (depth : Nat)
    {nodes : List MapNode}
    (hNodes : ∀ n ∈ nodes, IsWord n.id) :
    List.Forall₂ Tells (nodes.map (nodeLine settings depth))
      (nodes.map (nodeItem settings)) := by
  rw [List.forall₂_map_left_iff, List.forall₂_map_right_iff,
    List.forall₂_same]
  exact fun n hn => nodeLine_tells settings depth (hNodes n hn)

/- Lines one after the other are read as their items. -/
theorem forall₂_flatMap
    {α : Type}
    {xs : List α}
    {lines : α → List String}
    {items : α → List Item}
    (hTell : ∀ x ∈ xs, List.Forall₂ Tells (lines x) (items x)) :
    List.Forall₂ Tells (xs.flatMap lines) (xs.flatMap items) := by
  induction xs with
  | nil => exact .nil
  | cons x xs ih =>
      rw [List.forall_mem_cons] at hTell
      exact List.rel_append hTell.1 (ih hTell.2)

/- The lines of a group are read as its items. -/
theorem groupLines_tell
    (settings : DotSettings)
    (hMap : IsLegible map)
    (fuel depth : Nat)
    (id : String) :
    List.Forall₂ Tells (groupLines settings map fuel depth id)
      (groupItems settings map fuel id) := by
  induction fuel generalizing depth id with
  | zero => exact .nil
  | succ fuel ih =>
      rw [groupLines, groupItems]
      cases hFound : map.group? id with
      | none => exact .nil
      | some g =>
          dsimp only
          split
          · exact .nil
          · have hWord : IsWord g.id :=
              hMap.groups g (List.mem_of_find?_eq_some hFound)
            have hNodes : ∀ n ∈ map.held g, IsWord n.id := by
              intro n hn
              rcases List.mem_filterMap.mp hn with ⟨_, _, hNode⟩
              exact
                hMap.nodes n (List.mem_of_find?_eq_some hNode)
            exact
              List.rel_append
                (List.rel_append
                  (List.rel_append
                    (openingLines_tell depth hWord)
                    (nodeLines_tell settings (depth + 1) hNodes))
                  (forall₂_flatMap
                    (fun id _ => ih (depth + 1) id)))
                (.cons (closingLine_tells depth) .nil)

/- The lines of edges are read as these. -/
theorem edgeLines_tell (hMap : IsLegible map) :
    List.Forall₂ Tells
      ((if map.edges.isEmpty then [] else [""])
        ++ map.edges.map edgeLine)
      (edgeItems map) := by
  have hEdges :
      List.Forall₂ Tells (map.edges.map edgeLine)
        (map.edges.map edgeItem) := by
    rw [List.forall₂_map_left_iff, List.forall₂_map_right_iff,
      List.forall₂_same]
    intro e he
    rcases hMap.edges e he with ⟨hSource, hTarget, hKinds⟩
    exact edgeLine_tells hSource hTarget hKinds
  refine List.rel_append ?_ hEdges
  split
  · exact .nil
  · exact .cons blankLine_tells .nil

/- The lines of a map are read as its items. -/
theorem lines_tell
    (settings : DotSettings)
    (hMap : IsLegible map) :
    List.Forall₂ Tells (lines settings map)
      (headItems settings ++ bodyItems settings map
        ++ edgeItems map ++ [.close]) := by
  have hUngrouped : ∀ n ∈
      map.nodes.filter (fun n => n.group.isNone),
      IsWord n.id := fun n hn =>
    hMap.nodes n (List.mem_of_mem_filter hn)
  have hNodes := nodeLines_tell settings 1 hUngrouped
  have hGroups :=
    forall₂_flatMap (fun g (_ : g ∈ map.rootGroups) =>
      groupLines_tell settings hMap map.groups.length 1 g.id)
  have hLast : Tells "\x7d" .close := closingLine_tells 0
  have hAll :=
    List.rel_append
      (List.rel_append
        (List.rel_append (headLines_tell settings)
          (List.rel_append hNodes hGroups))
        (edgeLines_tell hMap))
      (.cons hLast .nil)
  simpa only [lines, bodyItems, List.append_assoc] using hAll

/- A line is the first one of the text that begins with it. -/
theorem linesOf_append
    {line : List Char}
    (hLine : '\n' ∉ line)
    (rest : List Char) :
    linesOf (line ++ '\n' :: rest) = line :: linesOf rest := by
  induction line with
  | nil => rfl
  | cons c line ih =>
      rw [List.mem_cons, not_or] at hLine
      rw [List.cons_append, linesOf, ih hLine.2]
      exact fun hFeed => hLine.1 hFeed.symm

/- Lines that were put together are read one by one. -/
theorem read?_join
    {lines : List String}
    {items : List Item}
    (hTell : List.Forall₂ Tells lines items) :
    read? (String.join (lines.map (fun line => line ++ "\n"))) =
      some items := by
  unfold read?
  rw [String.toList_join]
  induction hTell with
  | nil => rfl
  | @cons line item lines items hLine _ ih =>
      have hFirst :
          List.flatMap String.toList
              ((line :: lines).map (fun line => line ++ "\n")) =
            line.toList ++ '\n' ::
              List.flatMap String.toList
                (lines.map (fun line => line ++ "\n")) := by
        simp
      rw [hFirst, linesOf_append hLine.oneLine, List.mapM_cons,
        hLine.ofLine?, ih]
      rfl

/-
  A map with legible ids that was written is read, line by
  line, as its nodes, groups and edges.
-/
theorem read?_toDot
    (settings : DotSettings)
    (hMap : IsLegible map) :
    read? (map.toDot settings) =
      some
        (headItems settings ++ bodyItems settings map
          ++ edgeItems map ++ [.close]) :=
  read?_join (lines_tell settings hMap)

end Dot

end Dialectic
