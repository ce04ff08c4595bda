import Dialectic.Proofs.Map.Grouping
import Dialectic.Proofs.Model.Integrity
import Mathlib.Data.List.Induction

/-
  The groups of a map mirror the sections of its model: the
  groups around a node correspond to the sections around it.
  A section keeps the group that was made on the first path
  through it, and all later paths agree with that group.

  Key definitions include:
    * `Grouping.around`
    * `MapGroup.StandsFor`
    * `Grouping.Leads`
    * `Grouping.Mirrors`
    * `Grouping.Faithful`

  Main theorems:
    * `Grouping.Faithful.enter`
    * `Grouping.Faithful.placeNode`
    * `Grouping.Faithful.exists_mirrors`
    * `Grouping.Faithful.group_eq_iff`
    * `ArgumentMap.buildGroups_mirrors`
-/

namespace Dialectic

------------------------------------------------------------
-- Groups and Sections
------------------------------------------------------------

/-
  A group stands for a section at a level: it has the title of
  the section, and it is closed if its title is listed, if the
  section is closed, or from some level on.
-/
structure MapGroup.StandsFor
    (settings : GroupSettings)
    (g : MapGroup)
    (s : Section)
    (place : Nat) : Prop where
  sectionId : g.sectionId = some s.id
  title : g.title = s.title
  level : g.level = place
  isClosed : g.isClosed = true ↔
    s.title ∈ settings.closedGroups ∨ s.isClosed = true ∨
      ∃ depth, settings.closeDepth = some depth ∧ depth ≤ place

/- A group without its contents. -/
def MapGroup.frame (g : MapGroup) : MapGroup :=
  { g with nodes := [], subgroups := [] }

/- Groups of the same frame differ in their contents only. -/
theorem MapGroup.eq_of_frame
    {g h : MapGroup}
    (hFrame : h.frame = g.frame) :
    h = { g with nodes := h.nodes, subgroups := h.subgroups } :=
  congrArg
    (fun k : MapGroup =>
      { k with nodes := h.nodes, subgroups := h.subgroups })
    hFrame

/- What a group stands for does not depend on its contents. -/
theorem MapGroup.StandsFor.of_frame
    {settings : GroupSettings}
    {g h : MapGroup}
    {s : Section}
    {place : Nat}
    (hFrame : h.frame = g.frame)
    (hStands : g.StandsFor settings s place) :
    h.StandsFor settings s place := by
  have hSame := eq_of_frame hFrame
  rw [hSame]
  exact
    ⟨hStands.sectionId, hStands.title, hStands.level,
      hStands.isClosed⟩

namespace Grouping

variable {m : Model}
variable {settings : GroupSettings}
variable {state : State}
variable {paths : List (List Section)}

/-
  The sections around a node that become groups, outermost
  first.
-/
def around
    (m : Model)
    (settings : GroupSettings)
    (n : MapNode) : List Section :=
  match n.sectionId with
  | none => []
  | some sectionId => path m settings sectionId

/-
  A chain of groups leads down from a group, or from outside
  all groups, to another one: each is the parent of the next.
-/
inductive Leads (groups : List MapGroup) :
    Option String → List MapGroup → Option String → Prop
| here {p : Option String} : Leads groups p [] p
| down
    {p q : Option String}
    {g : MapGroup}
    {rest : List MapGroup}
    (hg : g ∈ groups)
    (hParent : g.parent = p)
    (hRest : Leads groups (some g.id) rest q) :
    Leads groups p (g :: rest) q

/- A chain may be continued with a group below its end. -/
theorem Leads.concat
    {groups chain : List MapGroup}
    {p q : Option String}
    (hLeads : Leads groups p chain q)
    {g : MapGroup}
    (hg : g ∈ groups)
    (hParent : g.parent = q) :
    Leads groups p (chain ++ [g]) (some g.id) := by
  induction hLeads with
  | here => exact .down hg hParent .here
  | down hFirst hAbove _ ih =>
      exact .down hFirst hAbove (ih hParent)

/-
  A chain of groups from the outermost one to that of a place
  mirrors some sections: its groups stand for these, in order,
  and their levels are their places in the chain.
-/
structure Mirrors
    (settings : GroupSettings)
    (groups : List MapGroup)
    (chain : List MapGroup)
    (group : Option String)
    (sections : List Section) : Prop where
  leads : Leads groups none chain group
  length : chain.length = sections.length
  standsFor : ∀ (i : Nat) (g : MapGroup) (s : Section),
    chain[i]? = some g → sections[i]? = some s →
      g.StandsFor settings s (i + 1)

/- The groups in a chain are groups. -/
theorem Leads.mem
    {groups chain : List MapGroup}
    {p q : Option String}
    (hLeads : Leads groups p chain q)
    {g : MapGroup}
    (hg : g ∈ chain) :
    g ∈ groups := by
  induction hLeads with
  | here => exact absurd hg List.not_mem_nil
  | down hFirst _ _ ih =>
      rcases List.mem_cons.mp hg with hHere | hRest
      · rw [hHere]
        exact hFirst
      · exact ih hRest

------------------------------------------------------------
-- Tables
------------------------------------------------------------

/- A table has the groups of another one. -/
def Grows (table more : List (Nat × String)) : Prop :=
  ∀ sectionId id, table.lookup sectionId = some id →
    more.lookup sectionId = some id

/- The last group on a path stays the same as the table grows. -/
theorem Grows.lastGroup
    {table more : List (Nat × String)}
    (hGrows : Grows table more)
    {path : List Section}
    {id : String}
    (hLast : lastGroup table path = some id) :
    lastGroup more path = some id := by
  rcases Option.bind_eq_some_iff.mp hLast with
    ⟨s, hEnd, hFound⟩
  exact
    Option.bind_eq_some_iff.mpr
      ⟨s, hEnd, hGrows s.id id hFound⟩

/- So does a group that is none only outside all sections. -/
theorem Grows.lastGroup_eq
    {table more : List (Nat × String)}
    (hGrows : Grows table more)
    {path : List Section}
    (hKnown : path ≠ [] → Grouping.lastGroup table path ≠ none) :
    Grouping.lastGroup more path =
      Grouping.lastGroup table path := by
  by_cases hOutside : path = []
  · rw [hOutside]
    rfl
  · rcases Option.ne_none_iff_exists'.mp (hKnown hOutside) with
      ⟨id, hLast⟩
    rw [hLast, hGrows.lastGroup hLast]

/- A table grows by the group of a section that has none. -/
theorem grows_cons
    {table : List (Nat × String)}
    {sectionId : Nat}
    (hNew : table.lookup sectionId = none)
    (id : String) :
    Grows table ((sectionId, id) :: table) := by
  intro other found hFound
  have hOther : (other == sectionId) = false := by
    rw [beq_eq_false_iff_ne]
    rintro rfl
    rw [hNew] at hFound
    cases hFound
  rw [List.lookup_cons, hOther]
  exact hFound

------------------------------------------------------------
-- Faithful Groups
------------------------------------------------------------

/-
  A group stems from a section: it stands for it at its place
  on its path, its parent is the group of the section before,
  and the table leads to it.
-/
structure Stems
    (m : Model)
    (settings : GroupSettings)
    (table : List (Nat × String))
    (g : MapGroup)
    (before : List Section)
    (s : Section) : Prop where
  path : m.groupPath s.id = before ++ [s]
  standsFor : g.StandsFor settings s (before.length + 1)
  parent : g.parent = lastGroup table before
  known : before ≠ [] → lastGroup table before ≠ none
  found : table.lookup s.id = some g.id

/- A group stems from its section whatever it gets to hold. -/
theorem Stems.grow
    {table more : List (Nat × String)}
    {g h : MapGroup}
    {before : List Section}
    {s : Section}
    (hStems : Stems m settings table g before s)
    (hGrows : Grows table more)
    (hFrame : h.frame = g.frame) :
    Stems m settings more h before s := by
  have hSame := MapGroup.eq_of_frame hFrame
  have hLast := hGrows.lastGroup_eq hStems.known
  refine
    ⟨hStems.path, hStems.standsFor.of_frame hFrame, ?_, ?_, ?_⟩
  · rw [hLast, hSame]
    exact hStems.parent
  · rw [hLast]
    exact hStems.known
  · rw [hSame]
    exact hGrows s.id g.id hStems.found

/-
  Each group stems from a section on one of the given paths,
  and the table leads to groups only.
-/
structure Faithful
    (m : Model)
    (settings : GroupSettings)
    (paths : List (List Section))
    (state : State) : Prop where
  ids : Numbered 'g' (state.groups.map MapGroup.id)
  entries : ∀ sectionId id,
    state.bySection.lookup sectionId = some id →
      ∃ g ∈ state.groups, g.id = id ∧
        g.sectionId = some sectionId
  stems : ∀ g ∈ state.groups, ∃ before s,
    Stems m settings state.bySection g before s ∧
      ∃ path ∈ paths, s ∈ path

/- There are no groups at first. -/
theorem Faithful.empty :
    Faithful m settings [] ⟨[], []⟩ := by
  refine ⟨Numbered.nil 'g', ?_, ?_⟩
  · intro sectionId id hFound
    cases hFound
  · exact fun g hg => absurd hg List.not_mem_nil

/- More paths may be given. -/
theorem Faithful.mono
    {more : List (List Section)}
    (hFaithful : Faithful m settings paths state)
    (hMore : paths ⊆ more) :
    Faithful m settings more state := by
  refine ⟨hFaithful.ids, hFaithful.entries, ?_⟩
  intro g hg
  rcases hFaithful.stems g hg with
    ⟨before, s, hStems, path, hPath, hOn⟩
  exact ⟨before, s, hStems, path, hMore hPath, hOn⟩

/- No two groups stem from one section. -/
theorem Faithful.eq_of_section
    (hFaithful : Faithful m settings paths state)
    {g h : MapGroup}
    (hg : g ∈ state.groups)
    (hh : h ∈ state.groups)
    (hSame : g.sectionId = h.sectionId) :
    g = h := by
  rcases hFaithful.stems g hg with ⟨_, s, hStemsG, _⟩
  rcases hFaithful.stems h hh with ⟨_, t, hStemsH, _⟩
  have hSection : s.id = t.id := by
    rw [hStemsG.standsFor.sectionId,
      hStemsH.standsFor.sectionId] at hSame
    exact Option.some.inj hSame
  have hIds : some g.id = some h.id := by
    rw [← hStemsG.found, hSection, hStemsH.found]
  exact
    List.inj_on_of_nodup_map hFaithful.ids.nodup hg hh
      (Option.some.inj hIds)

/- The group that the table leads to stems from the section. -/
theorem Faithful.stems_of_lookup
    (hFaithful : Faithful m settings paths state)
    {s : Section}
    {before : List Section}
    (hPath : m.groupPath s.id = before ++ [s])
    {id : String}
    (hFound : state.bySection.lookup s.id = some id) :
    ∃ g ∈ state.groups, g.id = id ∧
      Stems m settings state.bySection g before s := by
  rcases hFaithful.entries s.id id hFound with
    ⟨g, hg, hId, hSection⟩
  rcases hFaithful.stems g hg with ⟨first, t, hStems, _⟩
  have hSame : t.id = s.id := by
    rw [hStems.standsFor.sectionId] at hSection
    exact Option.some.inj hSection
  have hEnds := hStems.path
  rw [hSame, hPath] at hEnds
  rcases List.append_inj' hEnds rfl with ⟨rfl, hLast⟩
  rw [List.singleton_inj] at hLast
  exact ⟨g, hg, hId, hLast ▸ hStems⟩

------------------------------------------------------------
-- Entering Groups
------------------------------------------------------------

/- A group keeps all but its contents when another is added. -/
theorem grown_frame
    (parent : Option String)
    (id : String)
    (h : MapGroup) :
    (grown parent id h).frame = h.frame := by
  unfold grown
  split <;> rfl

/- A group keeps all but its contents when a node joins it. -/
theorem joined_frame
    (id node : String)
    (h : MapGroup) :
    (joined id node h).frame = h.frame := by
  unfold joined
  split <;> rfl

/- The new group stands for its section. -/
theorem newGroup_standsFor
    (settings : GroupSettings)
    (state : State)
    (parent : Option String)
    (level : Nat)
    (s : Section) :
    (newGroup settings state parent level s).StandsFor settings
      s level := by
  refine ⟨rfl, rfl, rfl, ?_⟩
  have hClosed :
      (newGroup settings state parent level s).isClosed =
        isClosed settings s level := rfl
  rw [hClosed, isClosed]
  cases hDepth : settings.closeDepth <;> simp [or_assoc]

/- Groups stay faithful when a section gets its group. -/
theorem Faithful.addGroup
    (hFaithful : Faithful m settings paths state)
    {before : List Section}
    {s : Section}
    (hPath : m.groupPath s.id = before ++ [s])
    (hOn : ∃ path ∈ paths, s ∈ path)
    (hKnown :
      before ≠ [] → lastGroup state.bySection before ≠ none)
    (hNew : state.bySection.lookup s.id = none) :
    ∃ next id,
      Grouping.addGroup settings state
          (lastGroup state.bySection before)
          (before.length + 1) s =
        (next, id) ∧
        Faithful m settings paths next ∧
        Grows state.bySection next.bySection ∧
        next.bySection.lookup s.id = some id := by
  rw [addGroup_eq hFaithful.ids.nodup]
  generalize hAdded :
    newGroup settings state (lastGroup state.bySection before)
      (before.length + 1) s = added
  have hStands :
      added.StandsFor settings s (before.length + 1) :=
    hAdded ▸ newGroup_standsFor settings state _ _ s
  have hParent :
      added.parent = lastGroup state.bySection before :=
    hAdded ▸ rfl
  have hId : added.id = "g" ++ toString state.groups.length :=
    hAdded ▸ rfl
  have hGrows := grows_cons hNew added.id
  have hHere :
      ((s.id, added.id) :: state.bySection).lookup s.id =
        some added.id := by
    simp
  refine ⟨_, _, rfl, ⟨?_, ?_, ?_⟩, hGrows, hHere⟩
  · -- ids
    rw [ids_withGroup, hId]
    have hNext := hFaithful.ids.append
    rw [List.length_map] at hNext
    exact hNext
  · -- entries
    intro sectionId id hFound
    by_cases hSame : sectionId = s.id
    · subst hSame
      rw [hHere] at hFound
      exact
        ⟨added, (mem_withGroup _ _).mpr (Or.inr rfl),
          Option.some.inj hFound, hStands.sectionId⟩
    · have hOther : (sectionId == s.id) = false := by
        simpa using hSame
      rw [List.lookup_cons, hOther] at hFound
      rcases hFaithful.entries sectionId id hFound with
        ⟨g, hg, hIdG, hSection⟩
      have hSame :=
        MapGroup.eq_of_frame
          (grown_frame added.parent added.id g)
      refine
        ⟨_, (mem_withGroup _ _).mpr (Or.inl ⟨g, hg, rfl⟩), ?_⟩
      rw [hSame]
      exact ⟨hIdG, hSection⟩
  · -- stems
    intro g hg
    rcases (mem_withGroup added g).mp hg with
      ⟨h, hh, rfl⟩ | rfl
    · rcases hFaithful.stems h hh with
        ⟨first, t, hStems, hOther⟩
      exact
        ⟨first, t, hStems.grow hGrows (grown_frame _ _ h),
          hOther⟩
    · have hLast := hGrows.lastGroup_eq hKnown
      exact
        ⟨before, s,
          ⟨hPath, hStands, hParent.trans hLast.symm,
            hLast ▸ hKnown, hHere⟩,
          hOn⟩

/-
  Entering the groups of the rest of a path leads to the group
  of its last section.
-/
theorem Faithful.enter
    {before rest : List Section}
    (hFaithful : Faithful m settings paths state)
    (hPaths : ∀ first s after,
      before ++ rest = first ++ s :: after →
        m.groupPath s.id = first ++ [s])
    (hOn : before ++ rest ∈ paths)
    (hKnown :
      before ≠ [] → lastGroup state.bySection before ≠ none) :
    ∃ next,
      Grouping.enter settings state
          (lastGroup state.bySection before)
          (before.length + 1) rest =
        (next, lastGroup next.bySection (before ++ rest)) ∧
        Faithful m settings paths next ∧
        Grows state.bySection next.bySection ∧
        (before ++ rest ≠ [] →
          lastGroup next.bySection (before ++ rest) ≠ none) := by
  induction rest generalizing before state with
  | nil =>
      rw [List.append_nil] at hOn ⊢
      exact
        ⟨state, rfl, hFaithful, fun _ _ hFound => hFound,
          hKnown⟩
  | cons s rest ih =>
      have hSplit : before ++ s :: rest = (before ++ [s]) ++ rest :=
        by simp
      have hPath := hPaths before s rest rfl
      rw [hSplit] at hPaths hOn ⊢
      -- the groups below that of the first section
      have hBelow : ∀ {k : State} {id : String},
          Faithful m settings paths k →
          Grows state.bySection k.bySection →
          k.bySection.lookup s.id = some id →
          ∃ next,
            Grouping.enter settings k (some id)
                (before.length + 1 + 1) rest =
              (next,
                lastGroup next.bySection
                  ((before ++ [s]) ++ rest)) ∧
              Faithful m settings paths next ∧
              Grows state.bySection next.bySection ∧
              ((before ++ [s]) ++ rest ≠ [] →
                lastGroup next.bySection
                  ((before ++ [s]) ++ rest) ≠ none) := by
        intro k id hK hGrows hFound
        have hLast :
            lastGroup k.bySection (before ++ [s]) = some id := by
          rw [lastGroup_concat, hFound]
        rcases ih hK hPaths hOn (by simp [hLast]) with
          ⟨next, hEnter, hNext, hMore, hEnd⟩
        rw [hLast, List.length_append] at hEnter
        exact
          ⟨next, hEnter, hNext,
            fun _ _ hOld => hMore _ _ (hGrows _ _ hOld), hEnd⟩
      cases hFound : state.bySection.lookup s.id with
      | some id =>
          simpa only [Grouping.enter, hFound] using
            hBelow hFaithful (fun _ _ hOld => hOld) hFound
      | none =>
          have hHere : ∃ path ∈ paths, s ∈ path :=
            ⟨_, hOn, by simp⟩
          rcases hFaithful.addGroup hPath hHere hKnown hFound with
            ⟨added, id, hAdded, hNext, hGrows, hNew⟩
          simpa only [Grouping.enter, hFound, hAdded] using
            hBelow hNext hGrows hNew

------------------------------------------------------------
-- Placing Nodes
------------------------------------------------------------

/- Each section around a node ends its own path. -/
theorem around_of_split
    (hOrdered : SectionsOrdered m.sections)
    {n : MapNode}
    {first after : List Section}
    {s : Section}
    (hSplit : around m settings n = first ++ s :: after) :
    m.groupPath s.id = first ++ [s] := by
  unfold around at hSplit
  cases hSection : n.sectionId with
  | none => simp [hSection] at hSplit
  | some sectionId =>
      rw [hSection] at hSplit
      exact path_of_split hOrdered settings hSplit

/- Groups stay faithful whatever they get to hold. -/
theorem Faithful.of_frames
    (hFaithful : Faithful m settings paths state)
    {groups : List MapGroup}
    (hFrames :
      groups.map MapGroup.frame =
        state.groups.map MapGroup.frame) :
    Faithful m settings paths
      { state with groups := groups } := by
  have hThere : ∀ g ∈ state.groups,
      ∃ h ∈ groups, h.frame = g.frame := by
    intro g hg
    exact
      List.mem_map.mp (hFrames ▸ List.mem_map_of_mem hg)
  have hIds :
      groups.map MapGroup.id = state.groups.map MapGroup.id := by
    have hFrameIds :
        MapGroup.id = MapGroup.id ∘ MapGroup.frame := rfl
    rw [hFrameIds, ← List.map_map, ← List.map_map, hFrames]
  refine ⟨hIds ▸ hFaithful.ids, ?_, ?_⟩
  · intro sectionId id hFound
    rcases hFaithful.entries sectionId id hFound with
      ⟨g, hg, hId, hSection⟩
    rcases hThere g hg with ⟨h, hh, hFrame⟩
    have hSame := MapGroup.eq_of_frame hFrame
    refine ⟨h, hh, ?_⟩
    rw [hSame]
    exact ⟨hId, hSection⟩
  · intro h hh
    rcases
        List.mem_map.mp
          (hFrames ▸ List.mem_map_of_mem hh :
            h.frame ∈ state.groups.map MapGroup.frame) with
      ⟨g, hg, hFrame⟩
    rcases hFaithful.stems g hg with
      ⟨before, s, hStems, hOn⟩
    exact
      ⟨before, s,
        hStems.grow (fun _ _ hFound => hFound) hFrame.symm, hOn⟩

/-
  The groups are faithful to the paths of some nodes, and each
  of these is in the group of the last section around it.
-/
structure Follows
    (m : Model)
    (settings : GroupSettings)
    (nodes : List MapNode)
    (state : State) : Prop where
  faithful :
    Faithful m settings (nodes.map (around m settings)) state
  group : ∀ n ∈ nodes,
    n.group = lastGroup state.bySection (around m settings n)
  known : ∀ n ∈ nodes,
    around m settings n ≠ [] → n.group ≠ none

/-
  Placing a node enters the groups around it and puts it into
  the last one of them.
-/
theorem Faithful.placeNode
    (hOrdered : SectionsOrdered m.sections)
    {n : MapNode}
    (hFaithful : Faithful m settings paths state)
    (hOn : around m settings n ∈ paths)
    (hGroup : n.group = none) :
    ∃ next placed,
      Grouping.placeNode m settings state n = (next, placed) ∧
        Faithful m settings paths next ∧
        Grows state.bySection next.bySection ∧
        around m settings placed = around m settings n ∧
        placed.group =
          lastGroup next.bySection (around m settings n) ∧
        (around m settings n ≠ [] → placed.group ≠ none) := by
  cases hSection : n.sectionId with
  | none =>
      have hAround : around m settings n = [] := by
        simp [around, hSection]
      refine
        ⟨state, n, ?_, hFaithful, fun _ _ hFound => hFound, rfl,
          ?_, fun hNot => absurd hAround hNot⟩
      · simp only [Grouping.placeNode, hSection]
      · rw [hAround]
        exact hGroup
  | some sectionId =>
      have hAround :
          around m settings n = path m settings sectionId := by
        simp [around, hSection]
      have hPaths : ∀ first s after,
          [] ++ path m settings sectionId = first ++ s :: after →
            m.groupPath s.id = first ++ [s] :=
        fun _ _ _ hSplit =>
          path_of_split hOrdered settings hSplit
      rw [hAround] at hOn ⊢
      rcases hFaithful.enter hPaths hOn (by simp) with
        ⟨next, hEnter, hNext, hGrows, hKnown⟩
      have hEntered :
          Grouping.enter settings state none 1
              (path m settings sectionId) =
            (next,
              lastGroup next.bySection
                (path m settings sectionId)) := hEnter
      rw [List.nil_append] at hKnown
      cases hLast :
          lastGroup next.bySection
            (path m settings sectionId) with
      | none =>
          rw [hLast] at hEntered hKnown
          refine
            ⟨next, n, ?_, hNext, hGrows, hAround, ?_,
              fun hNot => absurd rfl (hKnown hNot)⟩
          · simp only [Grouping.placeNode, hSection, hEntered]
          · rw [hLast]
            exact hGroup
      | some id =>
          rw [hLast] at hEntered
          have hFrames :
              (next.groups.map (joined id n.id)).map
                  MapGroup.frame =
                next.groups.map MapGroup.frame := by
            rw [List.map_map]
            exact
              List.map_congr_left
                (fun h _ => joined_frame id n.id h)
          exact
            ⟨_, _, placeNode_eq hSection hEntered
                hNext.ids.nodup,
              hNext.of_frames hFrames, hGrows, hAround,
              hLast.symm, by simp⟩

/- Placing nodes follows the sections around them. -/
theorem Follows.placeNode
    (hOrdered : SectionsOrdered m.sections)
    {nodes : List MapNode}
    {n : MapNode}
    (hFollows : Follows m settings nodes state)
    (hGroup : n.group = none) :
    Follows m settings
      (nodes ++ [(Grouping.placeNode m settings state n).2])
      (Grouping.placeNode m settings state n).1 := by
  have hMore :
      Faithful m settings
        ((nodes ++ [n]).map (around m settings)) state :=
    hFollows.faithful.mono (by simp)
  rcases hMore.placeNode hOrdered (by simp) hGroup with
    ⟨next, placed, hPlaced, hNext, hGrows, hAround, hLast,
      hKnown⟩
  rw [hPlaced]
  constructor
  · rw [List.map_append] at hNext ⊢
    rw [List.map_singleton, hAround]
    exact hNext
  · intro k hk
    rcases List.mem_append.mp hk with hOld | hNew
    · have hBefore := hFollows.group k hOld
      rw [hBefore]
      exact
        (hGrows.lastGroup_eq
          (hBefore ▸ hFollows.known k hOld)).symm
    · rw [List.mem_singleton.mp hNew, hAround]
      exact hLast
  · intro k hk
    rcases List.mem_append.mp hk with hOld | hNew
    · exact hFollows.known k hOld
    · rw [List.mem_singleton.mp hNew, hAround]
      exact hKnown

------------------------------------------------------------
-- Chains
------------------------------------------------------------

/- The groups of the sections on a path form a chain. -/
theorem Faithful.exists_mirrors
    (hFaithful : Faithful m settings paths state)
    {sections : List Section}
    (hPaths : ∀ first s after,
      sections = first ++ s :: after →
        m.groupPath s.id = first ++ [s])
    (hKnown :
      sections ≠ [] →
        lastGroup state.bySection sections ≠ none) :
    ∃ chain,
      Mirrors settings state.groups chain
        (lastGroup state.bySection sections) sections := by
  induction sections using List.reverseRecOn with
  | nil =>
      exact ⟨[], .here, rfl, fun i g s hNone => by simp at hNone⟩
  | append_singleton before s ih =>
      have hPath := hPaths before s [] rfl
      rw [lastGroup_concat] at hKnown ⊢
      rcases Option.ne_none_iff_exists'.mp (hKnown (by simp)) with
        ⟨id, hFound⟩
      rcases hFaithful.stems_of_lookup hPath hFound with
        ⟨g, hg, hId, hStems⟩
      rcases ih
          (fun first t after hSplit =>
            hPaths first t (after ++ [s]) (by simp [hSplit]))
          hStems.known with
        ⟨chain, hLeads, hLength, hStands⟩
      refine ⟨chain ++ [g], ?_, ?_, ?_⟩
      · rw [hFound, ← hId]
        exact hLeads.concat hg hStems.parent
      · simp [hLength]
      · intro i h t hGroup hSection
        rcases Sequence.getElem?_concat_iff.mp hGroup with
          hOld | ⟨hLast, rfl⟩
        · have hBound := (List.getElem?_eq_some_iff.mp hOld).1
          rw [List.getElem?_append_left (hLength ▸ hBound)]
            at hSection
          exact hStands i h t hOld hSection
        · rw [hLast, hLength, List.getElem?_concat_length]
            at hSection
          rw [hLast, hLength, ← Option.some.inj hSection]
          exact hStems.standsFor

/-
  Two nodes are in the same group if and only if the sections
  around them are the same.
-/
theorem Follows.group_eq_iff
    (hOrdered : SectionsOrdered m.sections)
    {nodes : List MapNode}
    (hFollows : Follows m settings nodes state)
    {n k : MapNode}
    (hn : n ∈ nodes)
    (hk : k ∈ nodes) :
    (n.group = k.group ∧ n.group ≠ none) ↔
      around m settings n = around m settings k ∧
        around m settings n ≠ [] := by
  constructor
  · rintro ⟨hSame, hSome⟩
    rcases Option.ne_none_iff_exists'.mp hSome with ⟨id, hGroup⟩
    -- both paths end with the section that the group stems from
    have hEnd : ∀ l ∈ nodes, l.group = some id →
        ∃ s, around m settings l = m.groupPath s ∧
          around m settings l ≠ [] ∧
          ∃ g ∈ state.groups, g.id = id ∧
            g.sectionId = some s := by
      intro l hl hIn
      rw [hFollows.group l hl] at hIn
      rcases Option.bind_eq_some_iff.mp hIn with
        ⟨s, hLast, hFound⟩
      rcases List.getLast?_eq_some_iff.mp hLast with
        ⟨before, hSplit⟩
      have hPath := around_of_split hOrdered hSplit
      refine
        ⟨s.id, hSplit.trans hPath.symm, by simp [hSplit], ?_⟩
      exact hFollows.faithful.entries s.id id hFound
    rcases hEnd n hn hGroup with
      ⟨s, hPathN, hNot, g, hg, hIdG, hSectionG⟩
    rcases hEnd k hk (hSame ▸ hGroup) with
      ⟨t, hPathK, _, h, hh, hIdH, hSectionH⟩
    have hOne : g = h :=
      List.inj_on_of_nodup_map hFollows.faithful.ids.nodup hg hh
        (hIdG.trans hIdH.symm)
    rw [hOne, hSectionH, Option.some.injEq] at hSectionG
    exact ⟨by rw [hPathN, hPathK, hSectionG], hNot⟩
  · rintro ⟨hSame, hNot⟩
    refine ⟨?_, hFollows.known n hn hNot⟩
    rw [hFollows.group n hn, hFollows.group k hk, hSame]

/- Each group is in the chain of some node. -/
theorem Follows.exists_node
    (hOrdered : SectionsOrdered m.sections)
    {nodes : List MapNode}
    (hFollows : Follows m settings nodes state)
    {g : MapGroup}
    (hg : g ∈ state.groups) :
    ∃ n ∈ nodes, ∃ chain,
      Mirrors settings state.groups chain n.group
          (around m settings n) ∧
        g ∈ chain := by
  rcases hFollows.faithful.stems g hg with
    ⟨before, s, hStems, path, hPath, hOn⟩
  rcases List.mem_map.mp hPath with ⟨n, hn, rfl⟩
  have hGroup := hFollows.group n hn
  rcases hFollows.faithful.exists_mirrors
      (fun _ _ _ hSplit => around_of_split hOrdered hSplit)
      (hGroup ▸ hFollows.known n hn) with
    ⟨chain, hMirrors⟩
  rw [← hGroup] at hMirrors
  refine ⟨n, hn, chain, hMirrors, ?_⟩
  rcases List.mem_iff_getElem?.mp hOn with ⟨i, hi⟩
  have hBound := (List.getElem?_eq_some_iff.mp hi).1
  rw [← hMirrors.length] at hBound
  have hHere := List.getElem?_eq_getElem hBound
  have hMem := List.mem_of_getElem? hHere
  have hSame : g = chain[i] :=
    hFollows.faithful.eq_of_section hg
      (hMirrors.leads.mem hMem)
      (hStems.standsFor.sectionId.trans
        (hMirrors.standsFor i _ s hHere hi).sectionId.symm)
  rw [hSame]
  exact hMem

end Grouping

------------------------------------------------------------
-- Maps
------------------------------------------------------------

namespace ArgumentMap

/- A node outside all groups. -/
def ungrouped (n : MapNode) : MapNode :=
  { n with group := none }

/- Nodes stay as they are but for their groups. -/
theorem placeNodes_ungrouped
    (m : Model)
    (settings : GroupSettings)
    (state : Grouping.State)
    (nodes : List MapNode) :
    (Grouping.placeNodes m settings state nodes).2.map
        ungrouped =
      nodes.map ungrouped := by
  induction nodes generalizing state with
  | nil => rfl
  | cons n nodes ih =>
      have hFirst :
          ungrouped (Grouping.placeNode m settings state n).2 =
            ungrouped n := by
        unfold Grouping.placeNode
        split
        · rfl
        · simp only
          split <;> rfl
      simp [Grouping.placeNodes, hFirst, ih]

/- Placing the nodes of a plain map follows the sections. -/
theorem Plain.placeNodes_follows
    {map : ArgumentMap}
    {m : Model}
    (hMap : map.Plain)
    (hOrdered : SectionsOrdered m.sections)
    (settings : GroupSettings) :
    Grouping.Follows m settings
      (map.buildGroups m settings).nodes
      (Grouping.placeNodes m settings ⟨map.groups, []⟩
        map.nodes).1 := by
  have hStart :
      Grouping.Follows m settings [] ⟨map.groups, []⟩ := by
    rw [hMap.noGroups]
    exact
      ⟨.empty, fun n hn => absurd hn List.not_mem_nil,
        fun n hn => absurd hn List.not_mem_nil⟩
  have hPlain : ∀ n ∈ map.nodes, n.group = none := fun n hn =>
    hMap.nodes.ungrouped _ (List.mem_map.mpr ⟨n, hn, rfl⟩)
  exact
    (Grouping.placeNodes_kept settings
      (fun hKept hGroup _ => hKept.placeNode hOrdered hGroup)
      hStart hPlain (by simpa using hMap.nodes.ids.nodup)).2

/-
  The groups of a map mirror the sections of a model that has
  been built, whatever has been done to it.  The groups around a
  node stand for the outermost sections on the path to it that
  become groups, so two nodes share a group if and only if they
  share these sections.  Each group is around some node and
  stems from a section of its own.
-/
theorem buildGroups_mirrors
    (withoutTags : Bool)
    (d : Document)
    (changes : List Model.Change)
    (source : Model)
    (selection : Selection)
    (drawn : MapSettings)
    (settings : GroupSettings) :
    let m :=
      changes.foldl Model.change (Model.build withoutTags d).1
    let plain := build source selection drawn
    let map := plain.buildGroups m settings
    map.nodes.map ungrouped = plain.nodes ∧
      (∀ n ∈ map.nodes,
        (∃ chain,
          Grouping.Mirrors settings map.groups chain n.group
            (Grouping.around m settings n)) ∧
          (n.group = none ↔
            Grouping.around m settings n = [])) ∧
      (∀ n ∈ map.nodes, ∀ k ∈ map.nodes,
        (n.group = k.group ∧ n.group ≠ none) ↔
          Grouping.around m settings n =
              Grouping.around m settings k ∧
            Grouping.around m settings n ≠ []) ∧
      (∀ g ∈ map.groups, ∃ n ∈ map.nodes, ∃ chain,
        Grouping.Mirrors settings map.groups chain n.group
            (Grouping.around m settings n) ∧
          g ∈ chain) ∧
      (map.groups.map MapGroup.sectionId).Nodup ∧
      (map.groups.map MapGroup.id).Nodup := by
  intro m plain map
  have hOrdered : SectionsOrdered m.sections :=
    ((Model.build_coherent withoutTags d).changes
      changes).placed.sections
  have hPlain : plain.Plain := build_plain source selection drawn
  have hFollows :
      Grouping.Follows m settings map.nodes
        (Grouping.placeNodes m settings ⟨plain.groups, []⟩
          plain.nodes).1 :=
    hPlain.placeNodes_follows hOrdered settings
  have hFaithful := hFollows.faithful
  refine
    ⟨?_, fun n hn => ⟨?_, ?_⟩,
      fun n hn k hk => hFollows.group_eq_iff hOrdered hn hk,
      fun g hg => hFollows.exists_node hOrdered hg, ?_,
      hFaithful.ids.nodup⟩
  · refine (placeNodes_ungrouped _ _ _ _).trans ?_
    have hSame : ∀ n ∈ plain.nodes, ungrouped n = n := by
      intro n hn
      have hGroup : n.group = none :=
        hPlain.nodes.ungrouped _ (List.mem_map_of_mem hn)
      unfold ungrouped
      rw [← hGroup]
    rw [List.map_congr_left hSame, List.map_id']
  · rw [hFollows.group n hn]
    exact
      hFaithful.exists_mirrors
        (fun _ _ _ hSplit =>
          Grouping.around_of_split hOrdered hSplit)
        (hFollows.group n hn ▸ hFollows.known n hn)
  · constructor
    · intro hNone
      by_contra hNot
      exact hFollows.known n hn hNot hNone
    · intro hOutside
      rw [hFollows.group n hn, hOutside]
      rfl
  · exact
      (List.Nodup.of_map MapGroup.id
        hFaithful.ids.nodup).map_on
        (fun g hg h hh hSame =>
          hFaithful.eq_of_section hg hh hSame)

end ArgumentMap

end Dialectic
