import Dialectic.Proofs.Map.Depiction

/-
  The nodes of a map that is built stand for selected titles
  only, in any model.

  Key definitions include:
    * `MapNode.ShowsOnly`
    * `MapBuilder.Nodes.ShowOnly`

  Main theorems:
    * `MapBuilder.addElement_showOnly`
    * `ArgumentMap.build_showsOnly`
-/

namespace Dialectic

/- The titles that a node stands for are selected. -/
structure MapNode.ShowsOnly
    (n : MapNode)
    (s : Selection) : Prop where
  classes : n.kind = .statement →
    ∀ title ∈ n.members, title ∈ s.statements
  arguments : n.kind = .argument →
    ∀ title ∈ n.members, title ∈ s.arguments

namespace MapBuilder

/-
  Nodes stand for selected titles only, and those that classes
  may join are nodes of statements.
-/
structure Nodes.ShowOnly (ns : Nodes) (s : Selection) :
    Prop where
  members : ∀ n ∈ ns.nodes, n.ShowsOnly s
  shared : ∀ key i, ns.shared.lookup key = some i →
    ∃ n, ns.nodes[i]? = some n ∧ n.kind = .statement

variable {m : Model} {s : Selection} {ns : Nodes}

/- A node for selected titles may be added. -/
theorem Nodes.ShowOnly.append
    (hNodes : ns.ShowOnly s)
    {n : MapNode}
    (hNode : n.ShowsOnly s)
    {shared : List (String × Nat)}
    (hShared : ∀ key i, shared.lookup key = some i →
      ns.shared.lookup key = some i ∨
        (i = ns.nodes.length ∧ n.kind = .statement)) :
    Nodes.ShowOnly ⟨ns.nodes ++ [n], shared⟩ s := by
  constructor
  · intro k hk
    rcases List.mem_append.mp hk with hOld | hNew
    · exact hNodes.members k hOld
    · rw [List.mem_singleton.mp hNew]
      exact hNode
  · intro key i hFound
    rcases hShared key i hFound with hOld | ⟨hLast, hKind⟩
    · rcases hNodes.shared key i hOld with ⟨k, hk, hKind⟩
      exact
        ⟨k, Sequence.getElem?_concat_iff.mpr (.inl hk), hKind⟩
    · exact
        ⟨n, Sequence.getElem?_concat_iff.mpr (.inr ⟨hLast, rfl⟩),
          hKind⟩

/- A node of statements may stand for a selected class, too. -/
theorem Nodes.ShowOnly.join
    (hNodes : ns.ShowOnly s)
    {c : EquivalenceClass}
    (hSelected : c.title ∈ s.statements)
    {i : Nat}
    {n : MapNode}
    (hHere : ns.nodes[i]? = some n)
    (hKind : n.kind = .statement) :
    Nodes.ShowOnly
      { ns with nodes := ns.nodes.modify i (joinClass m c) }
      s := by
  constructor
  · intro k hk
    rcases List.mem_iff_getElem?.mp hk with ⟨j, hj⟩
    rw [List.getElem?_modify] at hj
    rcases Option.map_eq_some_iff.mp hj with ⟨l, hl, rfl⟩
    have hOld := hNodes.members l (List.mem_of_getElem? hl)
    by_cases hSame : i = j
    · subst hSame
      cases hHere.symm.trans hl
      rw [if_pos rfl]
      constructor
      · intro _ title hTitle
        rcases List.mem_append.mp hTitle with hFirst | hNew
        · exact hOld.classes hKind title hFirst
        · rw [List.mem_singleton.mp hNew]
          exact hSelected
      · intro hArgument
        cases hKind.symm.trans hArgument
    · simpa [hSame] using hOld
  · intro key j hFound
    rcases hNodes.shared key j hFound with ⟨k, hk, hStatement⟩
    refine ⟨if i = j then joinClass m c k else k, ?_, ?_⟩
    · rw [List.getElem?_modify, hk]
      rfl
    · by_cases hSame : i = j <;>
        simpa [hSame, joinClass] using hStatement

/- Adding a selected element leaves nodes for selected ones. -/
theorem addElement_showOnly
    (hNodes : ns.ShowOnly s)
    {element : Element}
    (hSelected : s.contains element = true) :
    (addElement m ns element).ShowOnly s := by
  cases element with
  | argument title =>
      cases hFound : m.argument? title with
      | none => simpa only [addElement, hFound] using hNodes
      | some a =>
          have hTitle : a.title = title :=
            Sequence.lastWith_key (m.argument?_eq title ▸ hFound)
          simp only [addElement, hFound]
          refine
            hNodes.append ⟨fun hKind => (by cases hKind), ?_⟩
              (fun _ _ => .inl)
          intro _ other hOther
          rw [List.mem_singleton.mp hOther, hTitle]
          exact List.contains_iff_mem.mp hSelected
  | statement title =>
      cases hFound : m.class? title with
      | none => simpa only [addElement, hFound] using hNodes
      | some c =>
          have hTitle : c.title = title :=
            Sequence.lastWith_key (m.class?_eq title ▸ hFound)
          have hClass : c.title ∈ s.statements := by
            rw [hTitle]
            exact List.contains_iff_mem.mp hSelected
          simp only [addElement, hFound]
          cases hShared : ns.shared.lookup
              ((m.representative? title).getD title) with
          | some i =>
              rcases hNodes.shared _ i hShared with
                ⟨n, hHere, hKind⟩
              exact hNodes.join hClass hHere hKind
          | none =>
              refine
                hNodes.append
                  ⟨?_, fun hKind => (by cases hKind)⟩ ?_
              · intro _ other hOther
                rw [List.mem_singleton.mp hOther]
                exact hClass
              · intro key i hLookup
                rw [List.lookup_cons] at hLookup
                split at hLookup
                · cases hLookup
                  exact .inr ⟨rfl, rfl⟩
                · exact .inl hLookup

end MapBuilder

/- The nodes of a map stand for selected titles only. -/
theorem ArgumentMap.build_showsOnly
    (m : Model)
    (s : Selection)
    (settings : MapSettings) :
    ∀ n ∈ (build m s settings).nodes, n.ShowsOnly s := by
  have hSelected : ∀ element ∈ MapBuilder.elements m s,
      s.contains element = true :=
    fun _ hMem => (MapBuilder.mem_elements_iff.mp hMem).2
  have hNodes :
      ((MapBuilder.elements m s).foldl
        (MapBuilder.addElement m) ⟨[], []⟩).ShowOnly s :=
    List.foldlRecOn _ _
      (motive := fun ns => MapBuilder.Nodes.ShowOnly ns s)
      ⟨by simp, by simp⟩
      (fun _ hNodes element hMem =>
        MapBuilder.addElement_showOnly hNodes
          (hSelected element hMem))
  rw [build_nodes]
  exact hNodes.members

end Dialectic
