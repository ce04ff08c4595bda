import Dialectic.Map.Validity
import Dialectic.Proofs.Data.Following

/-
  What it is for a map to be valid, and that its faults say
  so.  From each group the way up is followed until it ends or
  meets the id of a group again, however the groups of a map
  refer to each other.

  Key definitions include:
    * `ArgumentMap.outer?`
    * `ArgumentMap.Revisits`
    * `ArgumentMap.Valid`
    * `MapFault.cyclicGroup?`

  Main theorems:
    * `ArgumentMap.wayUp_stopsAt`
    * `ArgumentMap.mem_cyclicGroups_iff`
    * `ArgumentMap.validate_eq_nil_iff`
    * `ArgumentMap.validate_decides`
-/

namespace Dialectic

/- The group that a fault names because of a cycle. -/
def MapFault.cyclicGroup? : MapFault → Option String
| groupCycle group => some group
| _ => none

namespace ArgumentMap

variable {map : ArgumentMap}

------------------------------------------------------------
-- The Way Up
------------------------------------------------------------

/- The group around a group: the first of its parent's id. -/
def outer? (map : ArgumentMap) (g : MapGroup) :
    Option MapGroup :=
  g.parent.bind map.group?

/- The way up from a group meets the id of a group again. -/
def Revisits (map : ArgumentMap) (g : MapGroup) : Prop :=
  Climb.Revisits map.outer? MapGroup.id (some g)

/- The group around a group is one of the map. -/
theorem outer?_mem
    {g h : MapGroup}
    (hOuter : map.outer? g = some h) :
    h ∈ map.groups := by
  rcases Option.bind_eq_some_iff.mp hOuter with
    ⟨p, _, hFound⟩
  exact List.mem_of_find?_eq_some hFound

/- The groups on the way up from one group are of the map. -/
theorem wayUp_mem
    {g : MapGroup}
    {way : List MapGroup}
    {current : Option MapGroup}
    (hLeads : Climb.Leads map.outer? (some g) way current) :
    ∀ h ∈ way, h ∈ g :: map.groups := by
  refine hLeads.forall (P := fun h => h ∈ g :: map.groups) ?_ ?_
  · intro h hHere
    cases hHere
    exact List.mem_cons_self
  · exact fun _ _ _ hOuter =>
      List.mem_cons_of_mem g (outer?_mem hOuter)

/-
  The way up is followed to an end, as it meets a new id with
  each step, and there are no more than those of the groups.
-/
theorem wayUp_stopsAt
    (map : ArgumentMap)
    (g : MapGroup)
    {fuel : Nat}
    (hFuel :
      map.groups.length + 1 ≤ fuel ∨
        g ∈ map.groups ∧ map.groups.length ≤ fuel) :
    Process.StopsAt (Climb.step? map.outer? MapGroup.id)
      ⟨[], some g⟩
      (Process.run (Climb.step? map.outer? MapGroup.id) fuel
        ⟨[], some g⟩) := by
  rcases hFuel with hFuel | ⟨hg, hFuel⟩
  · refine
      Climb.stopsAt_run ((g :: map.groups).map MapGroup.id) ?_
        (by simpa using hFuel)
    exact fun way current hLeads h hh =>
      List.mem_map_of_mem (wayUp_mem hLeads h hh)
  · refine
      Climb.stopsAt_run (map.groups.map MapGroup.id) ?_
        (by simpa using hFuel)
    intro way current hLeads h hh
    apply List.mem_map_of_mem
    rcases List.mem_cons.mp (wayUp_mem hLeads h hh) with
      hSame | hMem
    · exact hSame ▸ hg
    · exact hMem

/- Where the way up stops tells if it meets an id again. -/
theorem wayUp_isSome_iff
    {g : MapGroup}
    {last : Climb MapGroup}
    (hStops :
      Process.StopsAt (Climb.step? map.outer? MapGroup.id)
        ⟨[], some g⟩ last) :
    last.current.isSome ↔ map.Revisits g :=
  (Climb.Follows.of_stopsAt hStops).isSome_current_iff
    hStops.2

/- It can be found out if the way up meets an id again. -/
instance (map : ArgumentMap) (g : MapGroup) :
    Decidable (map.Revisits g) :=
  decidable_of_iff _
    (wayUp_isSome_iff
      (map.wayUp_stopsAt g (.inl (Nat.le_refl _))))

------------------------------------------------------------
-- Cycles
------------------------------------------------------------

/-
  The search for a cycle gives what following the way up does.
  In which order ids were met does not matter.
-/
theorem returnsFrom_eq_run
    (fuel : Nat)
    {met seen : List String}
    {g : MapGroup}
    (hSame : ∀ id, id ∈ met ↔ id ∈ seen)
    (hLast :
      Climb.step? map.outer? MapGroup.id
        (Process.run (Climb.step? map.outer? MapGroup.id) fuel
          ⟨seen, some g⟩) = none) :
    returnsFrom map (fuel + 1) met g =
      (Process.run (Climb.step? map.outer? MapGroup.id) fuel
        ⟨seen, some g⟩).current.isSome := by
  induction fuel generalizing met seen g with
  | zero =>
      have hSeen := Climb.step?_eq_none_iff.mp hLast g rfl
      simp [returnsFrom, Process.run, (hSame g.id).mpr hSeen]
  | succ fuel ih =>
      by_cases hSeen : g.id ∈ seen
      · have hStop :
            Climb.step? map.outer? MapGroup.id
              ⟨seen, some g⟩ = none := by
          simp [Climb.step?, hSeen]
        rw [Process.run_of_none hStop]
        simp [returnsFrom, (hSame g.id).mpr hSeen]
      · have hStep :
            Climb.step? map.outer? MapGroup.id
                ⟨seen, some g⟩ =
              some ⟨seen ++ [g.id], map.outer? g⟩ := by
          simp [Climb.step?, hSeen]
        have hNew : g.id ∉ met := fun hMet =>
          hSeen ((hSame g.id).mp hMet)
        rw [Process.run_of_some hStep] at hLast ⊢
        cases hOuter : map.outer? g with
        | none =>
            have hEnd :
                Climb.step? map.outer? MapGroup.id
                  ⟨seen ++ [g.id], none⟩ = none := rfl
            have hParent : g.parent.bind map.group? = none :=
              hOuter
            rw [Process.run_of_none hEnd]
            simp [returnsFrom, hNew, hParent]
        | some h =>
            have hParent : g.parent.bind map.group? = some h :=
              hOuter
            have hSameNext : ∀ id,
                id ∈ g.id :: met ↔ id ∈ seen ++ [g.id] := by
              intro id
              simp [hSame id, or_comm]
            rw [hOuter] at hLast
            rw [← ih hSameNext hLast, returnsFrom]
            simp [hNew, hParent]

/- A group is found if the way up from it meets an id again. -/
theorem returnsFrom_iff
    {g : MapGroup}
    (hg : g ∈ map.groups) :
    returnsFrom map (map.groups.length + 1) [] g = true ↔
      map.Revisits g := by
  have hStops :=
    map.wayUp_stopsAt g (.inr ⟨hg, Nat.le_refl _⟩)
  rw [returnsFrom_eq_run _ (fun _ => Iff.rfl) hStops.2]
  exact wayUp_isSome_iff hStops

/- The groups from which a cycle is reached are all found. -/
theorem cyclicGroups_eq (map : ArgumentMap) :
    map.cyclicGroups =
      map.groups.filter (fun g => map.Revisits g) := by
  apply List.filter_congr
  intro g hg
  rw [← Bool.coe_iff_coe, returnsFrom_iff hg, decide_eq_true_iff]

------------------------------------------------------------
-- Validity
------------------------------------------------------------

/-
  A map is valid if its nodes and edges have different ids,
  edges and groups refer to nodes of the map, no node is
  listed twice by the groups, and no way up from a group meets
  an id again.
-/
structure Valid (map : ArgumentMap) : Prop where
  ids :
    (map.nodes.map MapNode.id
      ++ map.edges.map MapEdge.id).Nodup
  ends : ∀ e ∈ map.edges,
    e.source ∈ map.nodes.map MapNode.id ∧
      e.target ∈ map.nodes.map MapNode.id
  members : ∀ g ∈ map.groups, ∀ id ∈ g.nodes,
    id ∈ map.nodes.map MapNode.id
  once : (map.groups.flatMap MapGroup.nodes).Nodup
  acyclic : ∀ g ∈ map.groups, ¬ map.Revisits g

/- A node of an id is known if it is one of the map. -/
theorem hasNode_iff {id : String} :
    map.hasNode id = true ↔
      id ∈ map.nodes.map MapNode.id := by
  simp [hasNode]

/- No id is met twice if and only if all are different. -/
theorem repeatedIds_eq_nil_iff {met ids : List String} :
    repeatedIds met ids = [] ↔
      ids.Nodup ∧ ∀ id ∈ ids, id ∉ met := by
  induction ids generalizing met with
  | nil => simp [repeatedIds]
  | cons id ids ih =>
      by_cases hMet : id ∈ met
      · simp [repeatedIds, hMet]
      · simp only [repeatedIds, List.contains_iff_mem, hMet,
          if_false, ih, List.nodup_cons, List.mem_cons]
        grind

/- An edge has no fault if and only if its ends are nodes. -/
theorem danglingEnds_eq_nil_iff {e : MapEdge} :
    map.danglingEnds e = [] ↔
      e.source ∈ map.nodes.map MapNode.id ∧
        e.target ∈ map.nodes.map MapNode.id := by
  rw [← hasNode_iff, ← hasNode_iff]
  simp [danglingEnds]

/-
  Listed nodes have no fault if and only if they are known and
  different.
-/
theorem memberFaults_eq_nil_iff
    {met : List String}
    {pairs : List (String × String)} :
    memberFaults map met pairs = [] ↔
      (∀ pair ∈ pairs,
        pair.2 ∈ map.nodes.map MapNode.id) ∧
        (pairs.map Prod.snd).Nodup ∧
        ∀ pair ∈ pairs, pair.2 ∉ met := by
  induction pairs generalizing met with
  | nil => simp [memberFaults]
  | cons pair pairs ih =>
      rcases pair with ⟨group, node⟩
      simp only [memberFaults, List.append_eq_nil_iff, ih,
        List.forall_mem_cons, List.map_cons, List.nodup_cons]
      rw [← hasNode_iff]
      simp
      grind

/- A map has no fault if and only if it is valid. -/
theorem validate_eq_nil_iff :
    map.validate = [] ↔ map.Valid := by
  have hListed :
      (map.groups.flatMap
          (fun g => g.nodes.map (fun node => (g.id, node)))).map
        Prod.snd =
      map.groups.flatMap MapGroup.nodes := by
    simp [List.map_flatMap, Function.comp_def]
  unfold validate
  simp only [List.append_eq_nil_iff, List.map_eq_nil_iff,
    List.flatMap_eq_nil_iff, repeatedIds_eq_nil_iff,
    danglingEnds_eq_nil_iff, memberFaults_eq_nil_iff, hListed,
    cyclicGroups_eq, List.filter_eq_nil_iff]
  constructor
  · rintro ⟨⟨⟨hIds, hEnds⟩, hMembers, hOnce, _⟩, hAcyclic⟩
    refine ⟨hIds.1, hEnds, ?_, hOnce, by simpa using hAcyclic⟩
    intro g hg id hId
    exact
      hMembers (g.id, id)
        (List.mem_flatMap.mpr
          ⟨g, hg, List.mem_map.mpr ⟨id, hId, rfl⟩⟩)
  · intro hMap
    refine
      ⟨⟨⟨⟨hMap.ids, by simp⟩, hMap.ends⟩, ?_, hMap.once,
          by simp⟩,
        by simpa using hMap.acyclic⟩
    intro pair hPair
    rcases List.mem_flatMap.mp hPair with ⟨g, hg, hPair⟩
    rcases List.mem_map.mp hPair with ⟨id, hId, rfl⟩
    exact hMap.members g hg id hId

------------------------------------------------------------
-- Faults
------------------------------------------------------------

/- Only the last check finds cycles. -/
theorem memberFaults_cyclicGroup?
    (met : List String)
    (pairs : List (String × String)) :
    (memberFaults map met pairs).filterMap
      MapFault.cyclicGroup? = [] := by
  induction pairs generalizing met with
  | nil => rfl
  | cons pair pairs ih =>
      rcases pair with ⟨group, node⟩
      simp only [memberFaults, List.filterMap_append, ih]
      split <;> split <;> rfl

/- The groups that faults name because of a cycle. -/
theorem validate_cyclicGroup? (map : ArgumentMap) :
    map.validate.filterMap MapFault.cyclicGroup? =
      (map.groups.filter (fun g => map.Revisits g)).map
        MapGroup.id := by
  have hIds (ids : List String) :
      (ids.map MapFault.duplicateId).filterMap
        MapFault.cyclicGroup? = [] := by
    simp [List.filterMap_map, MapFault.cyclicGroup?,
      Function.comp_def]
  have hEnds :
      (map.edges.flatMap map.danglingEnds).filterMap
        MapFault.cyclicGroup? = [] := by
    rw [List.filterMap_eq_nil_iff]
    intro fault hFault
    rcases List.mem_flatMap.mp hFault with ⟨e, _, hFault⟩
    rcases List.mem_map.mp hFault with ⟨id, _, rfl⟩
    rfl
  have hCycles (groups : List MapGroup) :
      (groups.map (fun g => MapFault.groupCycle g.id)).filterMap
        MapFault.cyclicGroup? = groups.map MapGroup.id := by
    simp [List.filterMap_map, MapFault.cyclicGroup?,
      Function.comp_def]
  unfold validate
  simp only [List.filterMap_append, hIds, hEnds, hCycles,
    memberFaults_cyclicGroup?, cyclicGroups_eq, List.nil_append]

/-
  On every map the way up from each group is followed to a
  place where this stops, which is a group and not the end if
  and only if an id was met again.  There are no faults if and
  only if the map is valid, and those that name a cycle name
  just the groups from which an id is met again.
-/
theorem validate_decides (map : ArgumentMap) :
    (∀ g, ∃ last,
      Process.StopsAt (Climb.step? map.outer? MapGroup.id)
          ⟨[], some g⟩ last ∧
        (last.current.isSome ↔ map.Revisits g)) ∧
      (map.validate = [] ↔ map.Valid) ∧
      map.validate.filterMap MapFault.cyclicGroup? =
        (map.groups.filter (fun g => map.Revisits g)).map
          MapGroup.id := by
  refine ⟨?_, validate_eq_nil_iff, validate_cyclicGroup? map⟩
  intro g
  have hStops := map.wayUp_stopsAt g (.inl (Nat.le_refl _))
  exact ⟨_, hStops, wayUp_isSome_iff hStops⟩

/- A group from which a cycle is reached is named like those in it. -/
example :
    validate ⟨[], [],
        [{ MapGroup.new "g0" "Below" 2 with parent := some "g1" },
          { MapGroup.new "g1" "Circle" 1 with
            parent := some "g1" },
          { MapGroup.new "g2" "Lost" 2 with
            parent := some "g3" }]⟩ =
      [.groupCycle "g0", .groupCycle "g1"] := by
  decide

end ArgumentMap

end Dialectic
