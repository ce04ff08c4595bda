import Dialectic.Proofs.Map.Arrangement

/-
  The ways up and down between the groups of a map.  However
  groups refer to each other, both are followed to an end, and
  they meet just the groups around a group, or in it.

  Key definitions include:
    * `ArgumentMap.climb?`
    * `ArgumentMap.Descent`
    * `ArgumentMap.descend?`
    * `ArgumentMap.IsSubgroup`

  Main theorems:
    * `ArgumentMap.ancestors_stopsAt`
    * `ArgumentMap.ancestors_spec`
    * `ArgumentMap.mem_ancestors_iff`
    * `ArgumentMap.descendants_stopsAt`
    * `ArgumentMap.descendants_spec`
-/

namespace Dialectic

namespace ArgumentMap

variable {map : ArgumentMap}

------------------------------------------------------------
-- Upwards
------------------------------------------------------------

/- One step from parent to parent. -/
def climb? (map : ArgumentMap) :
    Climb String → Option (Climb String) :=
  Climb.step? map.parent? id

/- Looking for the groups around a group follows the way up. -/
theorem ancestorsFrom_eq_run
    (fuel : Nat)
    (met : List String)
    (current : Option String) :
    ancestorsFrom map fuel met current =
      (Process.run map.climb? fuel ⟨met, current⟩).met := by
  induction fuel generalizing met current with
  | zero => simp [ancestorsFrom, Process.run]
  | succ fuel ih =>
      cases current with
      | none => rfl
      | some p =>
          by_cases hMet : p ∈ met
          · have hLast : map.climb? ⟨met, some p⟩ = none := by
              simp [climb?, Climb.step?, hMet]
            rw [Process.run_of_none hLast]
            simp [ancestorsFrom, hMet]
          · have hStep :
                map.climb? ⟨met, some p⟩ =
                  some ⟨met ++ [p], map.parent? p⟩ := by
              simp [climb?, Climb.step?, hMet]
            rw [Process.run_of_some hStep, ← ih]
            simp [ancestorsFrom, hMet]

/- The parent of an id is the parent of some group. -/
theorem parent?_mem
    {id p : String}
    (hParent : map.parent? id = some p) :
    p ∈ map.groups.filterMap MapGroup.parent := by
  rcases Option.bind_eq_some_iff.mp hParent with
    ⟨g, hFound, hParent⟩
  exact
    List.mem_filterMap.mpr
      ⟨g, List.mem_of_find?_eq_some hFound, hParent⟩

/- The groups around a group are those met where this stops. -/
theorem ancestors_stopsAt (map : ArgumentMap) (id : String) :
    ∃ last,
      Process.StopsAt map.climb? ⟨[], map.parent? id⟩ last ∧
        map.ancestors id = last.met := by
  refine
    ⟨Process.run map.climb? (map.groups.length + 1)
      ⟨[], map.parent? id⟩, ?_, ancestorsFrom_eq_run _ _ _⟩
  apply
    Climb.stopsAt_run (map.groups.filterMap MapGroup.parent)
  · intro way current hLeads
    exact
      hLeads.forall (fun _ hParent => parent?_mem hParent)
        (fun _ _ _ hParent => parent?_mem hParent)
  · have hLength :=
      List.length_filterMap_le MapGroup.parent map.groups
    omega

/-
  The groups around a group are met on the way up, each once,
  and the way goes on with none but those.
-/
theorem ancestors_spec (map : ArgumentMap) (id : String) :
    (map.ancestors id).Nodup ∧
      ∃ current,
        Climb.Leads map.parent? (map.parent? id)
            (map.ancestors id) current ∧
          ∀ p, current = some p → p ∈ map.ancestors id := by
  rcases map.ancestors_stopsAt id with ⟨last, hStops, hMet⟩
  have hFollows := Climb.Follows.of_stopsAt hStops
  rcases hFollows.leads with ⟨way, hWay, hLeads⟩
  rw [List.map_id] at hWay
  rw [hMet]
  exact
    ⟨hFollows.unique, last.current, hWay ▸ hLeads,
      Climb.step?_eq_none_iff.mp hStops.2⟩

/- The groups around a group are those that it is in. -/
theorem mem_ancestors_iff {inner outer : String} :
    outer ∈ map.ancestors inner ↔
      map.IsWithin inner outer := by
  rcases map.ancestors_spec inner with
    ⟨_, current, hLeads, hLast⟩
  constructor
  · exact hLeads.transGen.1 outer
  · intro hWithin
    induction hWithin with
    | single hParent =>
        exact (hLeads.start_met hParent).elim (·) (hLast _)
    | tail _ hParent ih =>
        exact (hLeads.next_met ih hParent).elim (·) (hLast _)

/- It can be found out if a group is in another one. -/
instance (map : ArgumentMap) (inner outer : String) :
    Decidable (map.IsWithin inner outer) :=
  decidable_of_iff _ mem_ancestors_iff

------------------------------------------------------------
-- Downwards
------------------------------------------------------------

/- What was met on the way down, and what is still to come. -/
structure Descent where
  met : Contents
  stack : List String

/-
  One step: the group on top of the stack is opened, if there
  is one of this id.
-/
def descend? (map : ArgumentMap) : Descent → Option Descent
| ⟨_, []⟩ => none
| ⟨met, id :: stack⟩ =>
    match map.group? id with
    | none => some ⟨met, stack⟩
    | some g =>
        let (groups, stack) :=
          pushSubgroups g.subgroups.reverse met.groups stack
        some ⟨⟨met.nodes ++ g.nodes, groups⟩, stack⟩

/- The nodes that the first group of an id lists. -/
def nodesOf (map : ArgumentMap) (id : String) : List String :=
  (map.group? id).elim [] MapGroup.nodes

/- The groups that the first group of an id lists. -/
def subgroupsOf (map : ArgumentMap) (id : String) :
    List String :=
  (map.group? id).elim [] MapGroup.subgroups

/-
  A group is listed by another one, or by one that is in turn,
  at any depth.
-/
def IsSubgroup (map : ArgumentMap) (inner outer : String) :
    Prop :=
  Relation.TransGen (fun id sub => sub ∈ map.subgroupsOf id)
    outer inner

/-
  Groups that were not met before are met, and put on the
  stack.
-/
theorem pushSubgroups_spec
    (ids met stack : List String) :
    ∃ fresh,
      pushSubgroups ids met stack =
          (met ++ fresh, fresh.reverse ++ stack) ∧
        fresh ⊆ ids ∧
        ids ⊆ met ++ fresh ∧
        (met.Nodup → (met ++ fresh).Nodup) := by
  induction ids generalizing met stack with
  | nil => exact ⟨[], by simp [pushSubgroups]⟩
  | cons id ids ih =>
      by_cases hMet : id ∈ met
      · rcases ih met stack with
          ⟨fresh, hPush, hFresh, hAll, hUnique⟩
        refine ⟨fresh, ?_, ?_, ?_, hUnique⟩
        · simp [pushSubgroups, hMet, hPush]
        · exact fun x hx => List.mem_cons_of_mem id (hFresh hx)
        · intro x hx
          rcases List.mem_cons.mp hx with hx | hx
          · exact List.mem_append_left _ (hx ▸ hMet)
          · exact hAll hx
      · rcases ih (met ++ [id]) (id :: stack) with
          ⟨fresh, hPush, hFresh, hAll, hUnique⟩
        refine ⟨id :: fresh, ?_, ?_, ?_, ?_⟩
        · simp [pushSubgroups, hMet, hPush]
        · intro x hx
          rcases List.mem_cons.mp hx with hx | hx
          · simp [hx]
          · exact List.mem_cons_of_mem id (hFresh hx)
        · intro x hx
          rcases List.mem_cons.mp hx with hx | hx
          · simp [hx]
          · simpa using hAll hx
        · intro hMetUnique
          have hFirst : (met ++ [id]).Nodup := by
            rw [List.nodup_append]
            refine ⟨hMetUnique, by simp, ?_⟩
            intro x hx y hy hSame
            rw [List.mem_singleton.mp hy] at hSame
            exact hMet (hSame ▸ hx)
          simpa using hUnique hFirst

/-
  What one step does: the nodes of the group on top of the
  stack are met, and its groups that were not met before are
  met and put on the stack.
-/
theorem descend?_cases
    {d e : Descent}
    (hStep : map.descend? d = some e) :
    ∃ top stack fresh,
      d.stack = top :: stack ∧
        e =
          ⟨⟨d.met.nodes ++ map.nodesOf top,
              d.met.groups ++ fresh⟩,
            fresh.reverse ++ stack⟩ ∧
        fresh ⊆ map.subgroupsOf top ∧
        map.subgroupsOf top ⊆ d.met.groups ++ fresh ∧
        (d.met.groups.Nodup →
          (d.met.groups ++ fresh).Nodup) := by
  rcases d with ⟨met, _ | ⟨top, stack⟩⟩
  · cases hStep
  · refine ⟨top, stack, ?_⟩
    cases hFound : map.group? top with
    | none =>
        simp only [descend?, hFound, Option.some.injEq] at hStep
        refine ⟨[], rfl, ?_, by simp, ?_, by simp⟩
        · simp [← hStep, nodesOf, hFound]
        · simp [subgroupsOf, hFound]
    | some g =>
        rcases pushSubgroups_spec g.subgroups.reverse met.groups
            stack with
          ⟨fresh, hPush, hFresh, hAll, hUnique⟩
        simp only [descend?, hFound, hPush, Option.some.injEq]
          at hStep
        refine ⟨fresh, rfl, ?_, ?_, ?_, hUnique⟩
        · simp [← hStep, nodesOf, hFound]
        · exact fun x hx => by
            simpa [subgroupsOf, hFound] using hFresh hx
        · intro x hx
          apply hAll
          simpa [subgroupsOf, hFound] using hx

/- No step is possible with an empty stack only. -/
theorem descend?_eq_none_iff {d : Descent} :
    map.descend? d = none ↔ d.stack = [] := by
  rcases d with ⟨met, _ | ⟨top, stack⟩⟩
  · simp [descend?]
  · cases hFound : map.group? top <;> simp [descend?, hFound]

/- Looking for what is in a group follows the way down. -/
theorem contentsFrom_eq_run
    (fuel : Nat)
    (met : Contents)
    (stack : List String) :
    contentsFrom map fuel met stack =
      (Process.run map.descend? fuel ⟨met, stack⟩).met := by
  induction fuel generalizing met stack with
  | zero => simp [contentsFrom, Process.run]
  | succ fuel ih =>
      cases stack with
      | nil => rfl
      | cons top stack =>
          cases hFound : map.group? top with
          | none => simp [contentsFrom, Process.run, descend?,
              hFound, ih]
          | some g => simp [contentsFrom, Process.run, descend?,
              hFound, ih]

/-
  What holds on the way down from a root: the groups that were
  met are in it, each once.  The root and those are either on
  the stack or were opened, and of the latter all nodes and
  groups were met.
-/
structure Descends
    (map : ArgumentMap)
    (root : String)
    (d : Descent) : Prop where
  unique : d.met.groups.Nodup
  within : ∀ id ∈ d.met.groups, map.IsSubgroup id root
  opened : ∃ done : List String,
    (done ++ d.stack).Perm (root :: d.met.groups) ∧
      d.met.nodes = done.flatMap map.nodesOf ∧
      ∀ id ∈ done, map.subgroupsOf id ⊆ d.met.groups

/- At first only the root is on the stack. -/
theorem Descends.start (map : ArgumentMap) (root : String) :
    map.Descends root ⟨⟨[], []⟩, [root]⟩ :=
  ⟨List.nodup_nil, by simp, [], by simp⟩

/- A step leads on along the way down. -/
theorem Descends.step
    {root : String}
    {d e : Descent}
    (hDescends : map.Descends root d)
    (hStep : map.descend? d = some e) :
    map.Descends root e := by
  rcases descend?_cases hStep with
    ⟨top, stack, fresh, hStack, rfl, hFresh, hAll, hUnique⟩
  rcases hDescends.opened with ⟨done, hPerm, hNodes, hGroups⟩
  rw [hStack] at hPerm
  have hTop : top ∈ root :: d.met.groups :=
    hPerm.subset (by simp)
  refine ⟨hUnique hDescends.unique, ?_, done ++ [top], ?_, ?_, ?_⟩
  · intro id hMem
    rcases List.mem_append.mp hMem with hOld | hNew
    · exact hDescends.within id hOld
    · rcases List.mem_cons.mp hTop with hRoot | hMet
      · exact .single (hRoot ▸ hFresh hNew)
      · exact .tail (hDescends.within top hMet) (hFresh hNew)
  · have hMoved :
        (fresh.reverse ++ stack).Perm (stack ++ fresh) :=
      List.perm_append_comm.trans
        ((List.reverse_perm fresh).append_left stack)
    have hWith := hPerm.append_right fresh
    refine (hMoved.append_left (done ++ [top])).trans ?_
    simpa using hWith
  · simp [hNodes]
  · intro id hMem
    rcases List.mem_append.mp hMem with hOld | hNew
    · exact fun x hx => List.mem_append_left _ (hGroups id hOld hx)
    · rw [List.mem_singleton.mp hNew]
      exact hAll

/- Not more groups are met than groups are listed. -/
theorem Descends.length_groups_le
    {root : String}
    {d : Descent}
    (hDescends : map.Descends root d) :
    d.met.groups.length ≤ map.subgroupEntries := by
  apply
    (List.subperm_of_subset hDescends.unique ?_).length_le
  intro id hMem
  rcases Relation.TransGen.tail'_iff.mp
      (hDescends.within id hMem) with
    ⟨outer, _, hListed⟩
  unfold subgroupsOf at hListed
  cases hFound : map.group? outer with
  | none => simp [hFound] at hListed
  | some g =>
      refine
        List.mem_flatMap.mpr
          ⟨g, List.mem_of_find?_eq_some hFound, ?_⟩
      simpa [hFound] using hListed

/- What is in a group is what was met where this stops. -/
theorem descendants_stopsAt (map : ArgumentMap) (id : String) :
    ∃ last,
      Process.StopsAt map.descend? ⟨⟨[], []⟩, [id]⟩ last ∧
        map.descendants id = last.met := by
  refine
    ⟨Process.run map.descend? (map.subgroupEntries + 1)
      ⟨⟨[], []⟩, [id]⟩, ?_, contentsFrom_eq_run _ _ _⟩
  -- a step takes one group from the stack, and adds to it as
  -- many as are met for the first time
  apply Process.stopsAt_run (map.Descends id)
    (fun d =>
      d.stack.length
        + (map.subgroupEntries - d.met.groups.length))
    ?_ (.start map id) (by simp; omega)
  intro d e hDescends hStep
  have hNext := hDescends.step hStep
  have hLess := hNext.length_groups_le
  rcases descend?_cases hStep with
    ⟨top, stack, fresh, hStack, rfl, _⟩
  refine ⟨hNext, ?_⟩
  simp only [List.length_append, List.length_reverse, hStack,
    List.length_cons] at hLess ⊢
  omega

/-
  What is in a group: just the groups that are listed in it at
  some depth, each once, and the nodes that it and those list.
-/
theorem descendants_spec (map : ArgumentMap) (root : String) :
    (map.descendants root).groups.Nodup ∧
      (∀ id, id ∈ (map.descendants root).groups ↔
        map.IsSubgroup id root) ∧
      (map.descendants root).nodes.Perm
        ((root :: (map.descendants root).groups).flatMap
          map.nodesOf) := by
  rcases map.descendants_stopsAt root with ⟨last, hStops, hMet⟩
  have hDescends : map.Descends root last :=
    hStops.invariant (fun _ _ => Descends.step) (.start map root)
  rcases hDescends.opened with ⟨done, hPerm, hNodes, hGroups⟩
  rw [descend?_eq_none_iff.mp hStops.2, List.append_nil] at hPerm
  rw [hMet]
  refine ⟨hDescends.unique, ?_, ?_⟩
  · refine fun id => ⟨hDescends.within id, fun hSub => ?_⟩
    induction hSub with
    | single hListed =>
        exact hGroups root (hPerm.symm.subset (by simp)) hListed
    | tail _ hListed ih =>
        exact
          hGroups _
            (hPerm.symm.subset (List.mem_cons_of_mem root ih))
            hListed
  · rw [hNodes]
    exact hPerm.flatMap_right map.nodesOf

end ArgumentMap

end Dialectic
