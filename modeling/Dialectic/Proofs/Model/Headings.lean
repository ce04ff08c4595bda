import Dialectic.Document.Parser
import Dialectic.Notation.Yaml.Reader
import Dialectic.Proofs.Model.History
import Dialectic.Proofs.Model.Invariance
import Mathlib.Data.List.Chain
import Mathlib.Data.List.Find

/-
  Each heading of a document opens a section, which is in that
  of the nearest heading before it of a smaller level.  So the
  way from a section to those that it is in ends.  A statement
  is in the section of the last heading before its block.

  Key definitions include:
    * `Heading.IsNearest`
    * `Document.placed`
    * `Statement.Tells`
    * `Builder.Opened`
    * `Model.LeadsTo`

  Main theorems:
    * `Builder.Opened.openSection`
    * `Builder.addElement_places`
    * `Builder.addBlocks_places`
    * `Model.sectionPath_leads`
    * `Model.build_headings`
-/

namespace Dialectic

------------------------------------------------------------
-- Headings
------------------------------------------------------------

namespace Heading

/- The section that a heading opens. -/
def opened (h : Heading) (id : Nat) (parent : Option Nat) :
    Section :=
  ⟨id, h.title, h.level, parent, h.tags, h.data.getD [], h.span⟩

/- The last heading of a smaller level. -/
def nearest? (hs : List Heading) (level : Nat) : Option Nat :=
  Sequence.lastIndex? (fun h => decide (h.level < level)) hs

/-
  Of the headings before that of index `i`, the one of index
  `p` is the nearest one of a smaller level.
-/
def IsNearest (hs : List Heading) (p i : Nat) : Prop :=
  ∃ outer inner, hs[p]? = some outer ∧ hs[i]? = some inner ∧
    p < i ∧ outer.level < inner.level ∧
    ∀ (k : Nat) between, p < k → k < i →
      hs[k]? = some between → inner.level ≤ between.level

variable {hs : List Heading} {h : Heading} {i p : Nat}

/- It is the last one of those before. -/
theorem nearest?_eq_some_iff (hHere : hs[i]? = some h) :
    nearest? (hs.take i) h.level = some p ↔
      IsNearest hs p i := by
  have hBefore : ∀ (k : Nat) other,
      (hs.take i)[k]? = some other ↔
        k < i ∧ hs[k]? = some other := by
    intro k other
    rw [List.getElem?_take]
    by_cases hLess : k < i <;> simp [hLess]
  rw [nearest?, Sequence.lastIndex?_eq_some_iff]
  simp only [hBefore, decide_eq_true_eq, decide_eq_false_iff_not,
    Nat.not_lt, and_imp]
  constructor
  · rintro ⟨⟨outer, ⟨hLess, hOuter⟩, hLevel⟩, hLast⟩
    exact
      ⟨outer, h, hOuter, hHere, hLess, hLevel,
        fun k between hAfter hLess hBetween =>
          hLast k between hAfter hLess hBetween⟩
  · rintro ⟨outer, inner, hOuter, hInner, hLess, hLevel, hLast⟩
    rw [hHere] at hInner
    cases hInner
    exact
      ⟨⟨outer, ⟨hLess, hOuter⟩, hLevel⟩,
        fun k between hAfter hLess hBetween =>
          hLast k between hAfter hLess hBetween⟩

/- There is none if no level before is smaller. -/
theorem nearest?_eq_none_iff :
    nearest? (hs.take i) h.level = none ↔
      ∀ (k : Nat) before, k < i → hs[k]? = some before →
        h.level ≤ before.level := by
  rw [nearest?, Sequence.lastIndex?_eq_none_iff]
  simp only [decide_eq_false_iff_not, Nat.not_lt]
  constructor
  · intro hAll k before hLess hBefore
    refine hAll before (List.mem_of_getElem? (i := k) ?_)
    rw [List.getElem?_take, if_pos hLess, hBefore]
  · intro hAll before hMem
    rcases List.getElem?_of_mem hMem with ⟨k, hBefore⟩
    rw [List.getElem?_take] at hBefore
    split at hBefore
    · next hLess => exact hAll k before hLess hBefore
    · cases hBefore

end Heading

------------------------------------------------------------
-- Statements of Documents
------------------------------------------------------------

/- The statement that an element is an occurrence of. -/
def Entry.statement? : Entry → Option StatementEntry
| .statement entry => some entry
| .argument _ => none

/- The statements among some elements. -/
def statementsOf (es : List Entry) : List StatementEntry :=
  es.filterMap Entry.statement?

/- The last of some headings, by its index. -/
def lastHeading? : (opened : Nat) → Option Nat
| 0 => none
| opened + 1 => some opened

/-
  The statements in some blocks that are recorded, each with
  the last heading before its block.  There were `opened` ones
  before these blocks.
-/
def placedAfter :
    (n : Numbering) →
    (done : List String) →
    (opened : Nat) →
    List Block →
    List (StatementEntry × Option Nat)
| _, _, _, [] => []
| n, done, opened, .heading _ :: blocks =>
    placedAfter n done (opened + 1) blocks
| n, done, opened, .element block :: blocks =>
    let es := (Block.element block).recorded n done
    (statementsOf es).map
        (fun entry => (entry, lastHeading? opened))
      ++ placedAfter (n.after es)
        (done
          ++ (Block.element block).reconstructed n.arguments)
        opened blocks

/- All statements of some blocks that are recorded. -/
theorem placedAfter_fst
    (n : Numbering)
    (done : List String)
    (opened : Nat)
    (blocks : List Block) :
    (placedAfter n done opened blocks).map Prod.fst =
      statementsOf (recordedAfter n done blocks) := by
  induction blocks generalizing n done opened with
  | nil => rfl
  | cons block blocks ih =>
      cases block with
      | heading heading =>
          have hNothing :
              (Block.heading heading).recorded n done = [] := by
            simp [Block.recorded, Block.own, Block.structured,
              Block.related]
          rw [placedAfter, ih, recordedAfter, hNothing,
            Block.reconstructed, List.append_nil]
          rfl
      | element block =>
          rw [placedAfter, recordedAfter]
          simp [ih, statementsOf, Function.comp_def]

/-
  The statements of a document that are recorded, each with the
  last heading before its block.
-/
def Document.placed (d : Document) :
    List (StatementEntry × Option Nat) :=
  placedAfter ⟨0, 0⟩ [] 0 d.blocks

/-
  A statement of a model tells all that an occurrence says.
  The text is without its tags if so wished.
-/
structure Statement.Tells
    (withoutTags : Bool)
    (entry : StatementEntry)
    (s : Statement) : Prop extends
    s.IsOccurrence withoutTags entry where
  isReference : s.isReference = entry.isReference
  mentions : s.mentions = entry.mentions
  span : s.span = entry.span

/- The relations of a statement are told by other lines. -/
theorem Statement.Tells.of_bare
    {withoutTags : Bool}
    {entry : StatementEntry}
    {s : Statement}
    (hTells : s.bare.Tells withoutTags entry) :
    s.Tells withoutTags entry :=
  ⟨⟨hTells.title, hTells.text, hTells.tags, hTells.data⟩,
    hTells.isReference, hTells.mentions, hTells.span⟩

namespace Builder

variable {withoutTags : Bool}
variable {b c : Builder} {es : List Entry}

/- The statement that is added, at the index of the next one. -/
def nextOccurrence
    (withoutTags : Bool)
    (b : Builder)
    (entry : StatementEntry)
    (role : StatementRole) : Statement :=
  { occurrenceOf withoutTags b entry role with
    id := b.model.nextStatement }

/- It is behind all other statements. -/
theorem addStatement_statements
    (withoutTags : Bool)
    (b : Builder)
    (entry : StatementEntry)
    (role : StatementRole) :
    (addStatement withoutTags b entry role).1.model.statements =
      b.model.statements
        ++ [nextOccurrence withoutTags b entry role] := by
  rw [nextOccurrence, ← Model.addStatement_statements]
  unfold addStatement occurrenceOf
  simp only
  split
  · rw [Model.modifyClass_statements]
  · rfl

/- What is recorded is told by the statements that are added. -/
theorem Records.tells
    (hRecords : Records withoutTags es b c) :
    ∃ added,
      c.model.statements.map Statement.bare =
          b.model.statements.map Statement.bare ++ added ∧
        List.Forall₂ (fun entry s => s.Tells withoutTags entry)
          (statementsOf es) added := by
  induction hRecords with
  | same hPlaces _ _ =>
      exact
        ⟨[], by rw [hPlaces.statements, List.append_nil], .nil⟩
  | statement b entry role =>
      refine
        ⟨[nextOccurrence withoutTags b entry role], ?_,
          .cons ?_ .nil⟩
      · rw [addStatement_statements, List.map_append]
        rfl
      · rcases occurrenceOf_isOccurrence withoutTags b entry
          role with ⟨hTitle, hText, hTags, hData⟩
        exact ⟨⟨hTitle, hText, hTags, hData⟩, rfl, rfl, rfl⟩
  | argument b entry =>
      refine ⟨[], ?_, .nil⟩
      rw [(addArgument_offsets withoutTags b entry).1,
        List.append_nil]
  | trans _ _ ihFirst ihSecond =>
      rcases ihFirst with ⟨first, hFirst, hTold⟩
      rcases ihSecond with ⟨second, hSecond, hLater⟩
      refine ⟨first ++ second, ?_, ?_⟩
      · rw [hSecond, hFirst, List.append_assoc]
      · rw [statementsOf, List.filterMap_append]
        exact List.rel_append hTold hLater

------------------------------------------------------------
-- Statements in Sections
------------------------------------------------------------

/-
  Statements have been added, all of them to the section that
  is the innermost open one, before and after it.
-/
structure Fills (b c : Builder) : Prop where
  same : SameSections b c
  statements : ∃ added,
    c.model.statements.map Statement.bare =
        b.model.statements.map Statement.bare ++ added ∧
      ∀ s ∈ added, s.sectionId = b.currentSection?

/- What leaves the statements fills the same section. -/
theorem Fills.of_same
    {d : Builder}
    (hFills : Fills b c)
    (hSame : SameSections c d)
    (hStatements :
      d.model.statements.map Statement.bare =
        c.model.statements.map Statement.bare) :
    Fills b d :=
  ⟨hFills.same.trans hSame, hStatements ▸ hFills.statements⟩

/- Adding an element with all below it fills one section. -/
theorem fills_steady (withoutTags : Bool) (b : Builder) :
    Steady withoutTags (Fills b) where
  statement := by
    intro c entry role hFills
    rcases hFills.statements with ⟨added, hAdded, hSections⟩
    refine
      ⟨hFills.same.trans
        (addStatement_same withoutTags c entry role), ?_⟩
    refine
      ⟨added ++ [nextOccurrence withoutTags c entry role],
        ?_, ?_⟩
    · rw [addStatement_statements, List.map_append, hAdded,
        List.append_assoc]
      rfl
    · intro s hs
      rcases List.mem_append.mp hs with hOld | hNew
      · exact hSections s hOld
      · rw [List.mem_singleton.mp hNew]
        exact congrArg List.head? hFills.same.openSections
  argument := by
    intro c entry hFills
    exact
      hFills.of_same (addArgument_same withoutTags c entry)
        (addArgument_offsets withoutTags c entry).1
  relate := by
    intro c parent target marker occurrence _ _ hFills
    exact
      hFills.of_same (relate_same c parent target marker _)
        (relate_elements c parent target marker
          occurrence).1.statements
  steps := by
    intro c title steps _ hFills
    exact
      hFills.of_same ⟨by simp [withSteps], rfl⟩
        (Model.withSteps_elements c.model title steps).statements
  conflict := by
    intro c title hFills
    exact hFills.of_same ⟨rfl, rfl⟩ rfl

/-
  The statements of an element and of all below it that are
  recorded are in the innermost open section.
-/
theorem addElement_places
    (withoutTags : Bool)
    {done : List String}
    (hDone : b.Done done)
    (block : ElementBlock) :
    SameSections b (addBlock withoutTags b (.element block)) ∧
      ∃ added,
        (addBlock withoutTags b
              (.element block)).model.statements.map
            Statement.bare =
          b.model.statements.map Statement.bare ++ added ∧
        List.Forall₂
          (fun entry s => s.Tells withoutTags entry ∧
            s.sectionId = b.currentSection?)
          (statementsOf
            ((Block.element block).recorded b.numbering done))
          added := by
  have hStart : Fills b b :=
    ⟨.refl b, [], (List.append_nil _).symm,
      fun _ hs => absurd hs List.not_mem_nil⟩
  have hFills :=
    (fills_steady withoutTags b).addElement hStart block
  have hRecords :=
    (addBlock_records withoutTags hDone (.element block)).1
  rcases hFills.statements with ⟨added, hAdded, hSections⟩
  rcases hRecords.tells with ⟨told, hTold, hTells⟩
  have hSame : told = added :=
    List.append_cancel_left (hTold.symm.trans hAdded)
  subst hSame
  refine ⟨hFills.same, told, hTold, ?_⟩
  exact Sequence.forall₂_and_right hTells hSections

------------------------------------------------------------
-- Open Sections
------------------------------------------------------------

/-
  The sections are those of some headings, and of the open ones
  the innermost one of a smaller level than a given one is that
  of the last heading of such a level.
-/
structure Opened (hs : List Heading) (b : Builder) : Prop where
  ordered : b.Ordered
  length : b.model.sections.length = hs.length
  sections : ∀ (i : Nat) h, hs[i]? = some h →
    b.model.section? i =
      some (h.opened i (Heading.nearest? (hs.take i) h.level))
  current : b.currentSection? = lastHeading? hs.length
  nearest : ∀ level,
    b.openSections.find? (encloses b.model level) =
      Heading.nearest? hs level

variable {hs : List Heading}

/- What leaves the sections leaves those of the headings. -/
theorem Opened.of_same
    (hOpened : b.Opened hs)
    (hSame : SameSections b c) :
    c.Opened hs := by
  have hSection : ∀ id, c.model.section? id =
      b.model.section? id := fun id =>
    congrArg (fun sections : List Section => sections[id]?)
      hSame.sections
  have hEncloses : ∀ level,
      encloses c.model level = encloses b.model level := by
    intro level
    funext id
    rw [encloses, encloses, hSection]
  refine ⟨hOpened.ordered.of_same hSame, ?_, ?_, ?_, ?_⟩
  · rw [hSame.sections]
    exact hOpened.length
  · intro i h hHere
    rw [hSection]
    exact hOpened.sections i h hHere
  · rw [currentSection?, hSame.openSections]
    exact hOpened.current
  · intro level
    rw [hSame.openSections, hEncloses]
    exact hOpened.nearest level

/- The first item that is left is the first that may stay. -/
theorem head?_dropWhile_not
    {α : Type}
    (p : α → Bool)
    (as : List α) :
    (as.dropWhile (fun a => !p a)).head? = as.find? p := by
  induction as with
  | nil => rfl
  | cons a as ih =>
      cases hHere : p a <;> simp [hHere, ih]

/- Dropping what does not satisfy `p` leaves what is found. -/
theorem find?_dropWhile
    {α : Type}
    {p q : α → Bool}
    (hNot : ∀ a, p a = true → q a = false)
    (as : List α) :
    (as.dropWhile p).find? q = as.find? q := by
  induction as with
  | nil => rfl
  | cons a as ih =>
      cases hHere : p a with
      | true => simp [hHere, hNot a hHere, ih]
      | false => simp [hHere]

/- A section encloses nothing of a smaller level than others. -/
theorem encloses_eq_false
    {m : Model}
    {level upper id : Nat}
    (hLevel : level ≤ upper)
    (hNot : encloses m upper id = false) :
    encloses m level id = false := by
  rw [encloses] at hNot ⊢
  cases hFound : m.section? id with
  | none =>
      rw [hFound] at hNot
      cases hNot
  | some s =>
      simp only [hFound, decide_eq_false_iff_not] at hNot ⊢
      omega

/- The open sections that a heading does not close. -/
def enclosing (b : Builder) (heading : Heading) : List Nat :=
  b.openSections.dropWhile
    (fun id => !encloses b.model heading.level id)

/-
  A heading opens the section behind those of the headings so
  far, in that of the last one of a smaller level.
-/
theorem Opened.openSection_eq
    (hOpened : b.Opened hs)
    (heading : Heading) :
    b.openSection heading =
      { b with
        model :=
          b.model.addSection heading.title heading.level
            (Heading.nearest? hs heading.level) heading.tags
            (heading.data.getD []) heading.span
        openSections := hs.length :: b.enclosing heading } := by
  have hParent :
      (b.enclosing heading).head? =
        Heading.nearest? hs heading.level := by
    rw [enclosing, head?_dropWhile_not, hOpened.nearest]
  rw [← hParent, ← hOpened.length]
  rfl

/- The sections that have been there are left. -/
theorem Opened.section?_old
    (hOpened : b.Opened hs)
    (heading : Heading)
    {id : Nat}
    (hLess : id < hs.length) :
    (b.openSection heading).model.section? id =
      b.model.section? id := by
  rw [hOpened.openSection_eq]
  exact List.getElem?_append_left (hOpened.length ▸ hLess)

/- The new one is that of the heading. -/
theorem Opened.section?_new
    (hOpened : b.Opened hs)
    (heading : Heading) :
    (b.openSection heading).model.section? hs.length =
      some (heading.opened hs.length
        (Heading.nearest? hs heading.level)) := by
  rw [hOpened.openSection_eq, Model.section?,
    Model.addSection_sections, ← hOpened.length,
    List.getElem?_concat_length]
  rfl

/-
  The innermost open section of a smaller level is the new one,
  or that before: what has been closed is of no smaller level.
-/
theorem Opened.nearest_opened
    (hOpened : b.Opened hs)
    (heading : Heading)
    (level : Nat) :
    (b.openSection heading).openSections.find?
        (encloses (b.openSection heading).model level) =
      Heading.nearest? (hs ++ [heading]) level := by
  have hOpen :
      (b.openSection heading).openSections =
        hs.length :: b.enclosing heading := by
    rw [hOpened.openSection_eq]
  have hLevel :
      encloses (b.openSection heading).model level hs.length =
        decide (heading.level < level) := by
    rw [encloses, hOpened.section?_new]
    rfl
  rw [hOpen, List.find?_cons, hLevel, Heading.nearest?,
    Sequence.lastIndex?_append]
  by_cases hLess : heading.level < level
  · simp [hLess]
  · have hKept : ∀ id ∈ b.enclosing heading,
        encloses (b.openSection heading).model level id =
          encloses b.model level id := by
      intro id hId
      have hKnown : id < hs.length := by
        rw [← hOpened.length]
        exact
          hOpened.ordered.known id
            ((List.dropWhile_sublist _).subset hId)
      rw [encloses, encloses, hOpened.section?_old _ hKnown]
    have hClosed : ∀ id,
        (!encloses b.model heading.level id) = true →
          encloses b.model level id = false :=
      fun id hNot =>
        encloses_eq_false (Nat.le_of_not_lt hLess)
          (by simpa using hNot)
    simp only [hLess, decide_false, Bool.false_eq_true,
      if_false]
    rw [List.find?_congr hKept, enclosing,
      find?_dropWhile hClosed, hOpened.nearest]
    rfl

/- A heading adds its section to those of the headings so far. -/
theorem Opened.openSection
    (hOpened : b.Opened hs)
    (heading : Heading) :
    (b.openSection heading).Opened (hs ++ [heading]) := by
  refine
    ⟨openSection_ordered hOpened.ordered heading, ?_, ?_, ?_,
      hOpened.nearest_opened heading⟩
  · rw [hOpened.openSection_eq, Model.addSection_sections,
      List.length_append, List.length_append, hOpened.length]
    rfl
  · intro i h hHere
    rcases Nat.lt_or_ge i hs.length with hLess | hLast
    · rw [List.getElem?_append_left hLess] at hHere
      rw [hOpened.section?_old heading hLess,
        List.take_append_of_le_length (Nat.le_of_lt hLess)]
      exact hOpened.sections i h hHere
    · rw [List.getElem?_append_right hLast] at hHere
      rcases List.getElem?_eq_some_iff.mp hHere with
        ⟨hBound, hSame⟩
      have hEnd : i = hs.length := by
        simp only [List.length_singleton] at hBound
        omega
      subst hEnd
      have hHeading : heading = h := by simpa using hHere
      rw [← hHeading, hOpened.section?_new, List.take_left]
  · rw [hOpened.openSection_eq, List.length_append]
    rfl

/- The headings among some blocks. -/
def headingsOf (blocks : List Block) : List Heading :=
  (Document.mk none blocks).headings

/-
  Blocks open the sections of their headings, and the
  statements that are recorded are in that of the last heading
  before their block.
-/
theorem addBlocks_places
    (withoutTags : Bool)
    {done : List String}
    (hDone : b.Done done)
    (hOpened : b.Opened hs)
    (blocks : List Block) :
    (blocks.foldl (addBlock withoutTags) b).Opened
        (hs ++ headingsOf blocks) ∧
      ∃ added,
        (blocks.foldl (addBlock withoutTags)
              b).model.statements.map Statement.bare =
          b.model.statements.map Statement.bare ++ added ∧
        List.Forall₂
          (fun place s => s.Tells withoutTags place.1 ∧
            s.sectionId = place.2)
          (placedAfter b.numbering done hs.length blocks)
          added := by
  induction blocks generalizing b done hs with
  | nil =>
      refine ⟨?_, [], (List.append_nil _).symm, .nil⟩
      rw [headingsOf, Document.headings, List.filterMap_nil,
        List.append_nil]
      exact hOpened
  | cons block blocks ih =>
      cases block with
      | heading heading =>
          have hSteps : (b.openSection heading).Done done :=
            hDone.of_same (fun _ => rfl)
          have hNext := ih hSteps (hOpened.openSection heading)
          rw [List.length_append, List.append_assoc] at hNext
          exact hNext
      | element block =>
          rcases addElement_places withoutTags hDone block with
            ⟨hSame, first, hFirst, hTold⟩
          rcases addBlock_records withoutTags hDone
            (.element block) with ⟨hRecords, hMore⟩
          rcases ih hMore (hOpened.of_same hSame) with
            ⟨hRest, later, hLater, hTells⟩
          refine ⟨hRest, first ++ later, ?_, ?_⟩
          · rw [List.foldl_cons, hLater, hFirst,
              List.append_assoc]
          · rw [placedAfter]
            rw [hRecords.adds.numbering] at hTells
            refine List.rel_append ?_ hTells
            rw [List.forall₂_map_left_iff, ← hOpened.current]
            exact hTold

end Builder

namespace Model

variable {m : Model}

------------------------------------------------------------
-- Paths
------------------------------------------------------------

/-
  A path leads to a section from one that is in no other: each
  next section is in the one before, and their levels and ids
  increase.
-/
structure LeadsTo
    (m : Model)
    (path : List Section)
    (s : Section) : Prop where
  first : ∀ t, path.head? = some t → t.parent = none
  last : path.getLast? = some s
  known : ∀ t ∈ path, m.section? t.id = some t
  steps : path.IsChain
    (fun outer inner => inner.parent = some outer.id)
  increases : path.Pairwise
    (fun outer inner =>
      outer.level < inner.level ∧ outer.id < inner.id)

/- The section that another one is in has a smaller level. -/
def LevelsIncrease (m : Model) : Prop :=
  ∀ (i p : Nat) s, m.section? i = some s → s.parent = some p →
    ∃ outer, m.section? p = some outer ∧ outer.level < s.level

variable {path : List Section} {s outer : Section}

/- The sections of a path come up to its last one. -/
theorem LeadsTo.le_last
    (hPath : m.LeadsTo path outer) :
    ∀ t ∈ path, t.level ≤ outer.level ∧ t.id ≤ outer.id := by
  intro t ht
  rcases List.getLast?_eq_some_iff.mp hPath.last with
    ⟨start, rfl⟩
  rcases List.mem_append.mp ht with hOld | hLast
  · have hLess :=
      (List.pairwise_append.mp hPath.increases).2.2 t hOld outer
        List.mem_cons_self
    omega
  · rw [List.mem_singleton.mp hLast]
    exact ⟨Nat.le_refl _, Nat.le_refl _⟩

/- A section that is in no other one is a path. -/
theorem LeadsTo.start
    (hKnown : m.section? s.id = some s)
    (hParent : s.parent = none) :
    m.LeadsTo [s] s := by
  refine
    ⟨?_, rfl, ?_, .singleton s, List.pairwise_singleton _ s⟩
  · rintro t ⟨⟩
    exact hParent
  · intro t ht
    rw [List.mem_singleton.mp ht]
    exact hKnown

/- A path to a section leads to those that are in it. -/
theorem LeadsTo.concat
    (hPath : m.LeadsTo path outer)
    (hKnown : m.section? s.id = some s)
    (hParent : s.parent = some outer.id)
    (hLevel : outer.level < s.level)
    (hId : outer.id < s.id) :
    m.LeadsTo (path ++ [s]) s := by
  have hNonempty : path ≠ [] := by
    intro hEmpty
    have hLast := hPath.last
    rw [hEmpty] at hLast
    cases hLast
  refine ⟨?_, List.getLast?_concat, ?_, ?_, ?_⟩
  · intro t ht
    rw [List.head?_append_of_ne_nil _ hNonempty] at ht
    exact hPath.first t ht
  · intro t ht
    rcases List.mem_append.mp ht with hOld | hNew
    · exact hPath.known t hOld
    · rw [List.mem_singleton.mp hNew]
      exact hKnown
  · refine
      List.isChain_append.mpr ⟨hPath.steps, .singleton s, ?_⟩
    rintro t ht u ⟨⟩
    rw [hPath.last] at ht
    cases ht
    exact hParent
  · refine
      List.pairwise_append.mpr
        ⟨hPath.increases, List.pairwise_singleton _ s, ?_⟩
    intro t ht u hu
    have hLower := hPath.le_last t ht
    rw [List.mem_singleton.mp hu]
    omega

/- The path to a section leads there. -/
theorem sectionPath_leads
    (hOrdered : SectionsOrdered m.sections)
    (hLevels : m.LevelsIncrease)
    {i : Nat}
    (hHere : m.section? i = some s) :
    m.LeadsTo (m.sectionPath i) s := by
  -- a section is in one with a smaller id
  induction i using Nat.strongRecOn generalizing s with
  | ind i ih =>
      rcases hOrdered i s hHere with ⟨rfl, hBefore⟩
      rw [sectionPath_of_some hOrdered hHere]
      cases hParent : s.parent with
      | none => exact .start hHere hParent
      | some p =>
          rcases hLevels s.id p s hHere hParent with
            ⟨outer, hOuter, hLevel⟩
          rcases hOrdered p outer hOuter with ⟨rfl, _⟩
          have hLess := hBefore outer.id hParent
          exact
            (ih outer.id hLess hOuter).concat hHere hParent
              hLevel hLess

------------------------------------------------------------
-- Models of Documents
------------------------------------------------------------

/- What holds of the headings of a document and its sections. -/
theorem build_opened
    (withoutTags : Bool)
    (d : Document) :
    ∃ b : Builder,
      (build withoutTags d).1 = b.model ∧
        b.Opened d.headings ∧
        List.Forall₂
          (fun place s => s.Tells withoutTags place.1 ∧
            s.sectionId = place.2)
          d.placed b.model.statements := by
  have hEmpty : Builder.empty.Opened [] :=
    ⟨⟨sectionsOrdered_nil, by simp [Builder.empty]⟩, rfl,
      fun i h hHere => by simp at hHere, rfl, fun _ => rfl⟩
  rcases Builder.addBlocks_places withoutTags
    Builder.Done.empty hEmpty d.blocks with
    ⟨hOpened, added, hAdded, hTells⟩
  refine ⟨_, build_model withoutTags d, hOpened, ?_⟩
  rw [← List.nil_append added] at hTells
  have hAll :
      (d.blocks.foldl (Builder.addBlock withoutTags)
          Builder.empty).model.statements.map
            Statement.bare = [] ++ added :=
    hAdded
  rw [← hAll, List.forall₂_map_right_iff] at hTells
  exact
    hTells.imp (fun _ _ hBoth => ⟨hBoth.1.of_bare, hBoth.2⟩)

/-
  The sections of a model are those of the headings of the
  document, in order.  Each is in that of the nearest heading
  before of a smaller level, if there is one, and the way to
  the outermost one ends, for which `fuel` is enough if it is
  the number of sections.  The statements are those that are
  recorded, each in the section of the last heading before its
  block.
-/
theorem build_headings
    (withoutTags : Bool)
    (d : Document) :
    let m := (build withoutTags d).1
    m.sections.length = d.headings.length ∧
      (∀ (i : Nat) h, d.headings[i]? = some h →
        ∃ parent,
          m.section? i = some (h.opened i parent) ∧
            (∀ p, parent = some p ↔
              Heading.IsNearest d.headings p i) ∧
            (parent = none ↔
              ∀ (k : Nat) before, k < i →
                d.headings[k]? = some before →
                  h.level ≤ before.level)) ∧
      (∀ (i : Nat) s, m.section? i = some s →
        m.LeadsTo (m.sectionPath i) s ∧
          ∀ fuel, m.sections.length ≤ fuel →
            m.enclosingSections fuel i =
              (m.sectionPath i).reverse) ∧
      List.Forall₂
        (fun place s => s.Tells withoutTags place.1 ∧
          s.sectionId = place.2)
        d.placed m.statements ∧
      d.placed.map Prod.fst = statementsOf d.recorded := by
  intro m
  rcases build_opened withoutTags d with
    ⟨b, hModel, hOpened, hTells⟩
  have hOrdered : SectionsOrdered m.sections :=
    build_ordered withoutTags d
  rw [← hModel] at hTells
  have hLength : m.sections.length = d.headings.length := by
    rw [← hOpened.length, ← hModel]
  have hSections : ∀ (i : Nat) h, d.headings[i]? = some h →
      m.section? i =
        some (h.opened i
          (Heading.nearest? (d.headings.take i) h.level)) := by
    intro i h hHere
    rw [← hOpened.sections i h hHere, ← hModel]
  have hHeading : ∀ (i : Nat) s, m.section? i = some s →
      ∃ h, d.headings[i]? = some h ∧
        s = h.opened i
          (Heading.nearest? (d.headings.take i) h.level) := by
    intro i s hFound
    have hLess := (List.getElem?_eq_some_iff.mp hFound).1
    rw [hLength] at hLess
    have hHere := List.getElem?_eq_getElem hLess
    refine ⟨_, hHere, Option.some_inj.mp ?_⟩
    rw [← hFound, hSections i _ hHere]
  have hLevels : m.LevelsIncrease := by
    intro i p s hFound hParent
    rcases hHeading i s hFound with ⟨h, hHere, rfl⟩
    rcases (Heading.nearest?_eq_some_iff hHere).mp hParent with
      ⟨outer, inner, hOuter, hInner, _, hLess, _⟩
    rw [hHere] at hInner
    cases hInner
    exact ⟨_, hSections p outer hOuter, hLess⟩
  refine
    ⟨hLength, ?_, ?_, hTells, placedAfter_fst _ _ _ _⟩
  · intro i h hHere
    exact
      ⟨_, hSections i h hHere,
        fun _ => Heading.nearest?_eq_some_iff hHere,
        Heading.nearest?_eq_none_iff⟩
  · intro i s hFound
    refine ⟨sectionPath_leads hOrdered hLevels hFound, ?_⟩
    intro fuel hFuel
    have hLess := (List.getElem?_eq_some_iff.mp hFound).1
    rw [sectionPath, List.reverse_reverse]
    exact
      enclosingSections_fuel hOrdered
        (Nat.lt_of_lt_of_le hLess hFuel) hLess

section

open scoped Yaml

/- Levels may jump down and back up. -/
theorem build_headings_jumping :
    let d :=
      (Document.read
        "# A\n\n### B\n\n## C\n\n[S]: s").document
    let m := (build false d).1
    m.statements.map Statement.sectionId = [some 2] ∧
      Heading.IsNearest d.headings 0 2 ∧
      ∃ s, m.LeadsTo (m.sectionPath 2) s ∧
        (m.sectionPath 2).map Section.title = ["A", "C"] := by
  intro d m
  have hRead :
      d.headings.map Heading.level = [1, 3, 2] ∧
        m.sections.map Section.parent =
          [none, some 0, some 0] ∧
        m.statements.map Statement.sectionId = [some 2] ∧
        (m.sectionPath 2).map Section.title = ["A", "C"] := by
    decide +kernel
  rcases hRead with ⟨hLevels, hParents, hStatement, hTitles⟩
  rcases build_headings false d with
    ⟨_, hHeadings, hPaths, _⟩
  have hLast :
      (d.headings.map Heading.level)[2]? = some 2 ∧
        (m.sections.map Section.parent)[2]? =
          some (some 0) := by
    rw [hLevels, hParents]
    exact ⟨rfl, rfl⟩
  simp only [List.getElem?_map, Option.map_eq_some_iff] at hLast
  rcases hLast with ⟨⟨h, hHere, _⟩, s, hFound, hParent⟩
  rcases hHeadings 2 h hHere with ⟨parent, hOpened, hIff, _⟩
  have hSame : s = h.opened 2 parent :=
    Option.some_inj.mp (hFound.symm.trans hOpened)
  rw [hSame] at hParent
  exact
    ⟨hStatement, (hIff 0).mp hParent, s, (hPaths 2 s hFound).1,
      hTitles⟩

end

end Model

end Dialectic
