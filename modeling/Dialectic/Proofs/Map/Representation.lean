import Dialectic.Map.Builder
import Dialectic.Proofs.Data.Sequence
import Dialectic.Proofs.Data.Sorting
import Dialectic.Proofs.Model.Integrity
import Dialectic.Proofs.Model.Representatives
import Mathlib.Data.List.Nodup
import Mathlib.Data.List.Pairwise

/-
  The nodes of a map stand for the selected elements, each for
  those that it has been made for, and classes share a node if
  and only if they have the same representative.

  Key definitions include:
    * `MapNode.elements`
    * `MapBuilder.classKey`
    * `MapBuilder.Nodes.StandFor`

  Main theorems:
    * `MapBuilder.mem_elements_iff`
    * `MapBuilder.elements_nodup`
    * `MapBuilder.addElement_standFor`
    * `MapBuilder.standFor_elements`
    * `MapBuilder.Nodes.StandFor.countP_represents`
-/

namespace Dialectic

------------------------------------------------------------
-- Elements of Nodes
------------------------------------------------------------

/- The elements that a node stands for. -/
def MapNode.elements (n : MapNode) : List Element :=
  match n.kind with
  | .statement => n.members.map Element.statement
  | .argument => [.argument n.title]
  | .group => []

/- A node stands for its elements. -/
theorem MapNode.represents_iff
    {n : MapNode}
    {element : Element} :
    n.represents element = true ↔ element ∈ n.elements := by
  cases element with
  | statement title =>
      cases hKind : n.kind <;> simp [represents, elements, hKind]
  | argument title =>
      cases hKind : n.kind <;>
        simp [represents, elements, hKind, @eq_comm _ title]

/- Only statement nodes stand for classes. -/
theorem MapNode.kind_eq_of_mem
    {n : MapNode}
    {title : String}
    (hMem : .statement title ∈ n.elements) :
    n.kind = .statement := by
  cases hKind : n.kind with
  | statement => rfl
  | argument => simp [elements, hKind] at hMem
  | group => simp [elements, hKind] at hMem

namespace MapBuilder

variable {m : Model}

------------------------------------------------------------
-- Selected Elements
------------------------------------------------------------

/- The selected elements, in any order. -/
theorem elements_perm (m : Model) (s : Selection) :
    (elements m s).Perm
      ((m.classes.filter
          (fun c => s.statements.contains c.title)).map
            (fun c => Element.statement c.title)
        ++ (m.arguments.filter
          (fun a => s.arguments.contains a.title)).map
            (fun a => Element.argument a.title)) := by
  unfold elements
  simp only
  have hSorted := Sequence.sortBy_perm Prod.fst
    ((m.classes.filter
        (fun c => s.statements.contains c.title)).map
          (fun c =>
            (classOffset m c.title, Element.statement c.title))
      ++ (m.arguments.filter
        (fun a => s.arguments.contains a.title)).map
          (fun a =>
            (a.span.start.offset, Element.argument a.title)))
  have hTitles := hSorted.map Prod.snd
  simpa [List.map_append, List.map_map, Function.comp_def]
    using hTitles

/- An element is added if it is there and is selected. -/
theorem mem_elements_iff
    {s : Selection}
    {element : Element} :
    element ∈ elements m s ↔
      m.contains element = true ∧
        s.contains element = true := by
  rw [(elements_perm m s).mem_iff]
  cases element with
  | statement title =>
      rw [Model.contains_statement_iff, Model.classTitles]
      simp only [Selection.contains, List.mem_append,
        List.mem_map, List.mem_filter, Element.statement.injEq,
        reduceCtorEq, and_false, exists_false, or_false]
      constructor
      · rintro ⟨c, ⟨hClass, hChosen⟩, rfl⟩
        exact ⟨⟨c, hClass, rfl⟩, hChosen⟩
      · rintro ⟨⟨c, hClass, rfl⟩, hChosen⟩
        exact ⟨c, ⟨hClass, hChosen⟩, rfl⟩
  | argument title =>
      rw [Model.contains_argument_iff, Model.argumentTitles]
      simp only [Selection.contains, List.mem_append,
        List.mem_map, List.mem_filter, Element.argument.injEq,
        reduceCtorEq, and_false, exists_false, false_or]
      constructor
      · rintro ⟨a, ⟨hArgument, hChosen⟩, rfl⟩
        exact ⟨⟨a, hArgument, rfl⟩, hChosen⟩
      · rintro ⟨⟨a, hArgument, rfl⟩, hChosen⟩
        exact ⟨a, ⟨hArgument, hChosen⟩, rfl⟩

/- Each element is added once. -/
theorem elements_nodup
    (hClasses : m.classTitles.Nodup)
    (hArguments : m.argumentTitles.Nodup)
    (s : Selection) :
    (elements m s).Nodup := by
  rw [(elements_perm m s).nodup_iff, List.nodup_append]
  refine ⟨?_, ?_, ?_⟩
  · have hChosen :
        ((m.classes.filter
          (fun c => s.statements.contains c.title)).map
            EquivalenceClass.title).Nodup :=
      hClasses.sublist (List.filter_sublist.map _)
    have hElements :=
      hChosen.map (fun _ _ hSame => Element.statement.inj hSame)
    rwa [List.map_map] at hElements
  · have hChosen :
        ((m.arguments.filter
          (fun a => s.arguments.contains a.title)).map
            Argument.title).Nodup :=
      hArguments.sublist (List.filter_sublist.map _)
    have hElements :=
      hChosen.map (fun _ _ hSame => Element.argument.inj hSame)
    rwa [List.map_map] at hElements
  · intro first hFirst second hSecond hSame
    rcases List.mem_map.mp hFirst with ⟨c, _, rfl⟩
    rcases List.mem_map.mp hSecond with ⟨a, _, hArgument⟩
    cases hArgument.trans hSame.symm

------------------------------------------------------------
-- Nodes of Elements
------------------------------------------------------------

/- The representative of a class, or its own title. -/
def classKey (m : Model) (title : String) : String :=
  (m.representative? title).getD title

/-
  Nodes stand for the elements that have been added.  Each
  stands for some, in the order in which they were added, as
  are the nodes by the first ones.  The classes of a node have
  the same key, and the node of a key is known.
-/
structure Nodes.StandFor
    (m : Model)
    (ns : Nodes)
    (done : List Element) : Prop where
  elements : (ns.nodes.flatMap MapNode.elements).Perm done
  heads :
    (ns.nodes.map (fun n => n.elements.head?)).Sublist
      (done.map some)
  within : ∀ n ∈ ns.nodes, n.elements.Sublist done
  keys : ∀ n ∈ ns.nodes, ∀ one other,
    .statement one ∈ n.elements →
      .statement other ∈ n.elements →
        classKey m one = classKey m other
  shared : ∀ key i,
    ns.shared.lookup key = some i ↔
      ∃ n title, ns.nodes[i]? = some n ∧
        .statement title ∈ n.elements ∧
        classKey m title = key

variable {ns : Nodes} {done : List Element}

/- A node may be added for an element. -/
theorem Nodes.StandFor.append
    (hNodes : ns.StandFor m done)
    {n : MapNode}
    {element : Element}
    (hElement : n.elements = [element])
    {shared : List (String × Nat)}
    (hShared : ∀ key i,
      shared.lookup key = some i ↔
        ns.shared.lookup key = some i ∨
          (i = ns.nodes.length ∧ ∃ title,
            element = .statement title ∧
              classKey m title = key)) :
    Nodes.StandFor m ⟨ns.nodes ++ [n], shared⟩
      (done ++ [element]) := by
  constructor
  case elements =>
    rw [List.flatMap_append, List.flatMap_singleton, hElement]
    exact hNodes.elements.append_right [element]
  case heads =>
    rw [List.map_append, List.map_append, List.map_singleton,
      hElement]
    exact hNodes.heads.append_right [some element]
  case within =>
    intro k hk
    rcases List.mem_append.mp hk with hOld | hNew
    · exact
        (hNodes.within k hOld).trans
          (List.sublist_append_left _ _)
    · rw [List.mem_singleton.mp hNew, hElement]
      exact List.sublist_append_right done [element]
  case keys =>
    intro k hk one other hOne hOther
    rcases List.mem_append.mp hk with hOld | hNew
    · exact hNodes.keys k hOld one other hOne hOther
    · rw [List.mem_singleton.mp hNew, hElement,
        List.mem_singleton] at hOne hOther
      cases hOne.trans hOther.symm
      rfl
  case shared =>
    intro key i
    rw [hShared, hNodes.shared]
    constructor
    · rintro (hOld | ⟨hLast, title, hHere, hKey⟩)
      · rcases hOld with ⟨k, title, hk, hTitle⟩
        have hStays : (ns.nodes ++ [n])[i]? = some k :=
          Sequence.getElem?_concat_iff.mpr (.inl hk)
        exact ⟨k, title, hStays, hTitle⟩
      · have hAdded : (ns.nodes ++ [n])[i]? = some n :=
          Sequence.getElem?_concat_iff.mpr (.inr ⟨hLast, rfl⟩)
        refine ⟨n, title, hAdded, ?_, hKey⟩
        rw [hElement, hHere]
        exact List.mem_singleton_self _
    · rintro ⟨k, title, hk, hTitle, hKey⟩
      rcases Sequence.getElem?_concat_iff.mp hk with
        hOld | ⟨hLast, rfl⟩
      · exact .inl ⟨k, title, hOld, hTitle, hKey⟩
      · rw [hElement, List.mem_singleton] at hTitle
        exact .inr ⟨hLast, title, hTitle.symm, hKey⟩

/- A statement node that stands for a class, too. -/
theorem joinClass_elements
    (c : EquivalenceClass)
    {n : MapNode}
    (hKind : n.kind = .statement) :
    (joinClass m c n).elements =
      n.elements ++ [.statement c.title] := by
  simp [MapNode.elements, joinClass, hKind]

/- The classes of a node that another one may have joined. -/
theorem mem_joined_elements
    {c : EquivalenceClass}
    {i j : Nat}
    {n : MapNode}
    (hKind : i = j → n.kind = .statement)
    {title : String} :
    .statement title ∈
        (if i = j then joinClass m c n else n).elements ↔
      .statement title ∈ n.elements ∨
        (i = j ∧ title = c.title) := by
  by_cases hHere : i = j
  · rw [if_pos hHere, joinClass_elements c (hKind hHere)]
    simp [hHere]
  · simp [hHere]

/- The node of a key may stand for a class of the key, too. -/
theorem Nodes.StandFor.join
    (hNodes : ns.StandFor m done)
    {c : EquivalenceClass}
    {i : Nat}
    (hShared :
      ns.shared.lookup (classKey m c.title) = some i) :
    Nodes.StandFor m
      { ns with nodes := ns.nodes.modify i (joinClass m c) }
      (done ++ [.statement c.title]) := by
  rcases (hNodes.shared _ i).mp hShared with
    ⟨n, first, hn, hFirst, hKey⟩
  have hMore := joinClass_elements (m := m) c
    (MapNode.kind_eq_of_mem hFirst)
  have hMem : ∀ {j k title}, ns.nodes[j]? = some k →
      (.statement title ∈
          (if i = j then joinClass m c k else k).elements ↔
        .statement title ∈ k.elements ∨
          (i = j ∧ title = c.title)) := by
    intro j k title hk
    apply mem_joined_elements
    rintro rfl
    cases hn.symm.trans hk
    exact MapNode.kind_eq_of_mem hFirst
  constructor
  case elements =>
    exact
      (Sequence.flatMap_modify_perm hn hMore).trans
        (hNodes.elements.append_right _)
  case heads =>
    have hHeads : ∀ k, ns.nodes[i]? = some k →
        (joinClass m c k).elements.head? = k.elements.head? := by
      intro k hk
      cases hn.symm.trans hk
      rw [hMore]
      exact
        List.head?_append_of_ne_nil _
          (List.ne_nil_of_mem hFirst)
    rw [Sequence.map_modify_of_kept hHeads]
    exact
      hNodes.heads.trans
        ((List.sublist_append_left _ _).map some)
  case within =>
    intro k hk
    rcases List.mem_iff_getElem?.mp hk with ⟨j, hj⟩
    rw [List.getElem?_modify] at hj
    rcases Option.map_eq_some_iff.mp hj with ⟨l, hl, rfl⟩
    have hOld := hNodes.within l (List.mem_of_getElem? hl)
    by_cases hHere : i = j
    · subst hHere
      cases hn.symm.trans hl
      rw [if_pos rfl, hMore]
      exact hOld.append_right _
    · simpa [hHere] using
        hOld.trans (List.sublist_append_left _ _)
  case keys =>
    intro k hk one other hOne hOther
    rcases List.mem_iff_getElem?.mp hk with ⟨j, hj⟩
    rw [List.getElem?_modify] at hj
    rcases Option.map_eq_some_iff.mp hj with ⟨l, hl, rfl⟩
    have hOld := hNodes.keys l (List.mem_of_getElem? hl)
    -- all classes of the changed node have the key of the first
    have hKnown : ∀ {title}, i = j →
        (.statement title ∈ l.elements ∨
          (i = j ∧ title = c.title)) →
          classKey m title = classKey m c.title := by
      rintro title rfl (hMember | ⟨_, rfl⟩)
      · cases hn.symm.trans hl
        exact (hOld title first hMember hFirst).trans hKey
      · rfl
    have hOne := (hMem hl).mp hOne
    have hOther := (hMem hl).mp hOther
    by_cases hHere : i = j
    · exact (hKnown hHere hOne).trans (hKnown hHere hOther).symm
    · simp only [hHere, false_and, or_false] at hOne hOther
      exact hOld one other hOne hOther
  case shared =>
    intro key j
    rw [hNodes.shared]
    constructor
    · rintro ⟨k, title, hk, hTitle, hEq⟩
      refine
        ⟨_, title, ?_, (hMem hk).mpr (.inl hTitle), hEq⟩
      rw [List.getElem?_modify, hk]
      rfl
    · rintro ⟨_, title, hHere, hTitle, hEq⟩
      rw [List.getElem?_modify] at hHere
      rcases Option.map_eq_some_iff.mp hHere with ⟨k, hk, rfl⟩
      rcases (hMem hk).mp hTitle with hOld | ⟨rfl, rfl⟩
      · exact ⟨k, title, hk, hOld, hEq⟩
      · exact ⟨n, first, hn, hFirst, hKey.trans hEq⟩

/- Adding an element makes a node stand for it. -/
theorem addElement_standFor
    (hIntact : m.IsIntact)
    (hNodes : ns.StandFor m done)
    {element : Element}
    (hThere : m.contains element = true) :
    (addElement m ns element).StandFor m
      (done ++ [element]) := by
  cases element with
  | argument title =>
      rcases Option.isSome_iff_exists.mp
        ((Model.argument?_isSome m title).trans hThere) with
        ⟨a, ha⟩
      have hTitle := ((hIntact.argument?_iff title a).mp ha).2
      simp only [addElement, ha]
      apply hNodes.append
      · simp [MapNode.elements, argumentNode, MapNode.new,
          hTitle]
      · intro key i
        simp
  | statement title =>
      rcases Option.isSome_iff_exists.mp
        ((Model.class?_isSome m title).trans hThere) with ⟨c, hc⟩
      have hTitle := ((hIntact.class?_iff title c).mp hc).2
      simp only [addElement, hc]
      cases hShared : ns.shared.lookup
          ((m.representative? title).getD title) with
      | some i =>
          simp only
          subst hTitle
          exact hNodes.join hShared
      | none =>
          simp only
          apply hNodes.append
          · simp [MapNode.elements, classNode, MapNode.new,
              hTitle]
          · intro key i
            have hNone : ns.shared.lookup (classKey m title) =
                none := hShared
            rw [← classKey, List.lookup_cons]
            by_cases hHere : key = classKey m title
            · subst hHere
              simp [hNone, eq_comm]
            · have hOther : (key == classKey m title) = false :=
                by simpa using hHere
              simp [hOther, Ne.symm hHere]

/- Nodes stand for all elements of a list that are added. -/
theorem foldl_addElement_standFor
    (hIntact : m.IsIntact)
    (hNodes : ns.StandFor m done)
    {elements : List Element}
    (hThere : ∀ element ∈ elements,
      m.contains element = true) :
    (elements.foldl (addElement m) ns).StandFor m
      (done ++ elements) := by
  induction elements generalizing ns done with
  | nil => simpa using hNodes
  | cons element elements ih =>
      have hFirst :=
        addElement_standFor hIntact hNodes
          (hThere element (by simp))
      have hRest :=
        ih hFirst (fun other hOther =>
          hThere other (by simp [hOther]))
      simpa using hRest

/- The nodes of a selection stand for its elements. -/
theorem standFor_elements
    (hIntact : m.IsIntact)
    (s : Selection) :
    ((elements m s).foldl (addElement m) ⟨[], []⟩).StandFor m
      (elements m s) := by
  have hNone : Nodes.StandFor m ⟨[], []⟩ [] := by
    constructor <;> simp
  have hThere : ∀ element ∈ elements m s,
      m.contains element = true :=
    fun element hMem => (mem_elements_iff.mp hMem).1
  simpa using foldl_addElement_standFor hIntact hNone hThere

------------------------------------------------------------
-- Elements and Their Nodes
------------------------------------------------------------

/- Two nodes that stand for an element are the same. -/
theorem Nodes.StandFor.node_unique
    (hNodes : ns.StandFor m done)
    (hUnique : done.Nodup)
    {x y : MapNode}
    (hx : x ∈ ns.nodes)
    (hy : y ∈ ns.nodes)
    {element : Element}
    (hFirst : x.represents element = true)
    (hSecond : y.represents element = true) :
    x = y := by
  have hAll : (ns.nodes.flatMap MapNode.elements).Nodup :=
    hNodes.elements.nodup_iff.mpr hUnique
  have hSymm :
      Std.Symm (Function.onFun List.Disjoint MapNode.elements) :=
    ⟨fun _ _ hDisjoint _ hy hx => hDisjoint hx hy⟩
  by_contra hApart
  have hDisjoint :=
    (List.nodup_flatMap.mp hAll).2.forall hx hy hApart
  exact
    hDisjoint (MapNode.represents_iff.mp hFirst)
      (MapNode.represents_iff.mp hSecond)

/- An element that has been added has one node. -/
theorem Nodes.StandFor.countP_represents
    (hNodes : ns.StandFor m done)
    (hUnique : done.Nodup)
    {element : Element}
    (hDone : element ∈ done) :
    ns.nodes.countP (·.represents element) = 1 := by
  have hAll : (ns.nodes.flatMap MapNode.elements).Nodup :=
    hNodes.elements.nodup_iff.mpr hUnique
  rw [← Sequence.countP_holders hAll
    (hNodes.elements.mem_iff.mpr hDone)]
  apply List.countP_congr
  intro n _
  rw [MapNode.represents_iff, decide_eq_true_iff]

/- An element has been added if some node stands for it. -/
theorem Nodes.StandFor.mem_done
    (hNodes : ns.StandFor m done)
    {n : MapNode}
    (hn : n ∈ ns.nodes)
    {element : Element}
    (hElement : n.represents element = true) :
    element ∈ done :=
  hNodes.elements.mem_iff.mp
    (List.mem_flatMap.mpr
      ⟨n, hn, MapNode.represents_iff.mp hElement⟩)

/- A node stands for a first element. -/
theorem Nodes.StandFor.exists_head
    (hNodes : ns.StandFor m done)
    {n : MapNode}
    (hn : n ∈ ns.nodes) :
    ∃ element, n.elements.head? = some element := by
  have hHead :=
    hNodes.heads.subset (List.mem_map.mpr ⟨n, hn, rfl⟩)
  rcases List.mem_map.mp hHead with ⟨element, _, hSame⟩
  exact ⟨element, hSame.symm⟩

/- A node stands for some element. -/
theorem Nodes.StandFor.exists_represents
    (hNodes : ns.StandFor m done)
    {n : MapNode}
    (hn : n ∈ ns.nodes) :
    ∃ element, n.represents element = true := by
  rcases hNodes.exists_head hn with ⟨element, hHead⟩
  exact
    ⟨element,
      MapNode.represents_iff.mpr (List.mem_of_head? hHead)⟩

/-
  Two classes that have been added share a node if and only if
  they have the same key.
-/
theorem Nodes.StandFor.share_iff
    (hNodes : ns.StandFor m done)
    {one other : String}
    (hOne : .statement one ∈ done)
    (hOther : .statement other ∈ done) :
    (∃ n ∈ ns.nodes,
      n.represents (.statement one) = true ∧
        n.represents (.statement other) = true) ↔
      classKey m one = classKey m other := by
  simp only [MapNode.represents_iff]
  constructor
  · rintro ⟨n, hn, hFirst, hSecond⟩
    exact hNodes.keys n hn one other hFirst hSecond
  · intro hKeys
    have hNode : ∀ {title}, .statement title ∈ done →
        ∃ i n, ns.nodes[i]? = some n ∧
          .statement title ∈ n.elements ∧
          ns.shared.lookup (classKey m title) = some i := by
      intro title hDone
      rcases List.mem_flatMap.mp
        (hNodes.elements.mem_iff.mpr hDone) with ⟨n, hn, hTitle⟩
      rcases List.mem_iff_getElem?.mp hn with ⟨i, hi⟩
      exact
        ⟨i, n, hi, hTitle,
          (hNodes.shared _ i).mpr ⟨n, title, hi, hTitle, rfl⟩⟩
    rcases hNode hOne with ⟨i, n, hi, hFirst, hFound⟩
    rcases hNode hOther with ⟨j, k, hj, hSecond, hSame⟩
    rw [hKeys, hSame] at hFound
    cases hFound
    cases hi.symm.trans hj
    exact ⟨n, List.mem_of_getElem? hi, hFirst, hSecond⟩

/- Classes have the same key if and only if equivalent. -/
theorem classKey_eq_iff
    (hTitles : m.classTitles.Nodup)
    {one other : String}
    (hOne : m.contains (.statement one) = true)
    (hOther : m.contains (.statement other) = true) :
    classKey m one = classKey m other ↔
      m.Equivalent one other := by
  rw [← Model.representative?_eq_iff hTitles hOne hOther]
  rcases Option.isSome_iff_exists.mp
    (Model.representative?_isSome hTitles hOne) with ⟨a, ha⟩
  rcases Option.isSome_iff_exists.mp
    (Model.representative?_isSome hTitles hOther) with ⟨b, hb⟩
  simp [classKey, ha, hb]

end MapBuilder

end Dialectic
