import Dialectic.Proofs.Document.Entries
import Dialectic.Proofs.Model.Growth
import Mathlib.Data.List.Perm.Subperm

/-
  What it means that a model records a document.

  Key definitions include:
    * `Statement.IsOccurrence`
    * `Model.Links`
    * `Model.EntryRecorded`
    * `Model.TreeRecorded`
    * `Model.BlockRecorded`
    * `Model.Records`
    * `Model.Covers`

  Main theorems:
    * `Model.BlocksRecorded.covers`
    * `Model.Records.count_le`
-/

namespace Dialectic

------------------------------------------------------------
-- Recorded Documents
------------------------------------------------------------

/-
  A statement of a model is an occurrence in a document.  The
  text is without its tags if so wished.
-/
structure Statement.IsOccurrence
    (withoutTags : Bool)
    (entry : StatementEntry)
    (s : Statement) : Prop where
  title : ∀ title, entry.title = some title → s.title = title
  text : s.text =
    entry.text.map (Builder.cleanText withoutTags entry.tags)
  tags : s.tags = entry.tags
  data : s.data = entry.data.getD []

/- Whether a statement is an occurrence depends on content. -/
theorem Statement.IsOccurrence.of_content
    {withoutTags : Bool}
    {entry : StatementEntry}
    {s t : Statement}
    (hSame : t.content = s.content)
    (hOccurrence : s.IsOccurrence withoutTags entry) :
    t.IsOccurrence withoutTags entry := by
  simp only [content, Content.mk.injEq] at hSame
  rcases hSame with ⟨hTitle, hText, hTags, hData⟩
  exact
    ⟨fun title hGiven =>
        hTitle.trans (hOccurrence.title title hGiven),
      hText.trans hOccurrence.text,
      hTags.trans hOccurrence.tags,
      hData.trans hOccurrence.data⟩

namespace Model

/-
  A relation of the document is of a kind and connects two
  elements.
-/
def Declares
    (m : Model)
    (source target : Element)
    (kind : RelationKind) : Prop :=
  ∃ r ∈ m.relations,
    r.isExplicit = true ∧ r.connects source target kind = true

/-
  Two elements are linked as a marker says: by a relation of
  its kind and direction, or as equivalent statements.
-/
def Links
    (m : Model)
    (marker : Marker)
    (parent target : Element) : Prop :=
  match RelationKind.ofMarker? marker, parent, target with
  | some kind, _, _ =>
      if marker.incoming then m.Declares target parent kind
      else m.Declares parent target kind
  | none, .statement first, .statement second =>
      m.Equates first second
  | none, _, _ => False

section Recorded

variable (withoutTags : Bool) (m : Model)

/-
  An occurrence in the document is one of an element of the
  model; `number` is that of the arguments without title
  before it.  A statement also has an index of its own.
-/
inductive EntryRecorded (number : Nat) :
    Entry → Element → List Nat → Prop
| statement
    {entry : StatementEntry}
    {s : Statement}
    {id : Nat}
    (hFound : m.statement? id = some s)
    (hSame : s.IsOccurrence withoutTags entry) :
    EntryRecorded number (.statement entry)
      (.statement s.title) [id]
| argument
    {entry : ArgumentEntry}
    (hFound : m.contains
      (.argument (entry.titleAfter number)) = true) :
    EntryRecorded number (.argument entry)
      (.argument (entry.titleAfter number)) []

mutual

/-
  The target of a relation line is recorded and linked to the
  element above, and so are those below it.
-/
inductive TreeRecorded :
    Nat → Element → RelationEntry → List Nat → Prop
| line
    {number : Nat}
    {parent target : Element}
    {marker : Marker}
    {entry : Entry}
    {children : List RelationEntry}
    {span : Span}
    {own below : List Nat}
    (hEntry :
      EntryRecorded withoutTags m number entry target own)
    (hLinks : m.Links marker parent target)
    (hBelow :
      TreesRecorded (number + untitledCount [entry]) target
        children below) :
    TreeRecorded number parent ⟨marker, entry, children, span⟩
      (own ++ below)

/- All relation lines below an element are recorded. -/
inductive TreesRecorded :
    Nat → Element → List RelationEntry → List Nat → Prop
| nil {number : Nat} {parent : Element} :
    TreesRecorded number parent [] []
| cons
    {number : Nat}
    {parent : Element}
    {tree : RelationEntry}
    {trees : List RelationEntry}
    {first rest : List Nat}
    (hFirst : TreeRecorded number parent tree first)
    (hRest :
      TreesRecorded (number + untitledCount tree.entries)
        parent trees rest) :
    TreesRecorded number parent (tree :: trees) (first ++ rest)

end

/- The numbered statements below an argument are recorded. -/
inductive StepsRecorded :
    Nat → List NumberedEntry → List Nat → Prop
| nil {number : Nat} : StepsRecorded number [] []
| cons
    {number : Nat}
    {step : NumberedEntry}
    {steps : List NumberedEntry}
    {element : Element}
    {own below rest : List Nat}
    (hEntry :
      EntryRecorded withoutTags m number
        (.statement step.statement) element own)
    (hBelow :
      TreesRecorded withoutTags m number element step.relations
        below)
    (hRest :
      StepsRecorded (number + untitledCount step.entries) steps
        rest) :
    StepsRecorded number (step :: steps) (own ++ below ++ rest)

/- The occurrences and relations in a block are recorded. -/
inductive BlockRecorded (number : Nat) :
    Block → List Nat → Prop
| heading {heading : Heading} :
    BlockRecorded number (.heading heading) []
| element
    {block : ElementBlock}
    {element : Element}
    {own steps below : List Nat}
    (hEntry :
      EntryRecorded withoutTags m number block.element element
        own)
    (hSteps :
      StepsRecorded withoutTags m
        (number + untitledCount [block.element]) block.steps
        steps)
    (hBelow :
      TreesRecorded withoutTags m
        (number + untitledCount [block.element]
          + untitledCount
            (block.steps.flatMap NumberedEntry.entries))
        element block.relations below) :
    BlockRecorded number (.element block)
      (own ++ steps ++ below)

/- All blocks are recorded. -/
inductive BlocksRecorded : Nat → List Block → List Nat → Prop
| nil {number : Nat} : BlocksRecorded number [] []
| cons
    {number : Nat}
    {block : Block}
    {blocks : List Block}
    {first rest : List Nat}
    (hFirst :
      BlockRecorded withoutTags m number block first)
    (hRest :
      BlocksRecorded (number + untitledCount block.entries)
        blocks rest) :
    BlocksRecorded number (block :: blocks) (first ++ rest)

end Recorded

/-
  A model records a document: each occurrence of a statement
  has an index of its own, and each relation line a link.
-/
def Records
    (m : Model)
    (withoutTags : Bool)
    (d : Document) : Prop :=
  ∃ ids, ids.Nodup ∧ BlocksRecorded withoutTags m 0 d.blocks ids

------------------------------------------------------------
-- Numbers of Statements
------------------------------------------------------------

variable {withoutTags : Bool} {m : Model}

/-
  Some indices are as many as there are statements among some
  occurrences, and all of them are known.
-/
def Covers (m : Model) (entries : List Entry) (ids : List Nat) :
    Prop :=
  ids.length = statementCount entries ∧
    ∀ id ∈ ids, id < m.nextStatement

/- Occurrences that follow each other are covered together. -/
theorem Covers.append
    {es fs : List Entry}
    {first rest : List Nat}
    (hFirst : m.Covers es first)
    (hRest : m.Covers fs rest) :
    m.Covers (es ++ fs) (first ++ rest) := by
  constructor
  · rw [List.length_append, statementCount_append, hFirst.1,
      hRest.1]
  · intro id hId
    rcases List.mem_append.mp hId with hOld | hNew
    · exact hFirst.2 id hOld
    · exact hRest.2 id hNew

/- An occurrence is covered if it is recorded. -/
theorem EntryRecorded.covers
    {number : Nat}
    {entry : Entry}
    {element : Element}
    {ids : List Nat}
    (hRecorded :
      EntryRecorded withoutTags m number entry element ids) :
    m.Covers [entry] ids := by
  cases hRecorded with
  | argument _ => exact ⟨rfl, by simp⟩
  | statement hFound _ =>
      refine ⟨rfl, ?_⟩
      intro id hId
      rw [List.mem_singleton.mp hId]
      exact (List.getElem?_eq_some_iff.mp hFound).1

mutual

/- A relation line is covered if it is recorded. -/
theorem TreeRecorded.covers :
    {number : Nat} →
    {parent : Element} →
    {tree : RelationEntry} →
    {ids : List Nat} →
    TreeRecorded withoutTags m number parent tree ids →
      m.Covers tree.entries ids
| _, _, _, _, .line hEntry _ hBelow =>
    hEntry.covers.append hBelow.covers

/- Relation lines are covered if they are recorded. -/
theorem TreesRecorded.covers :
    {number : Nat} →
    {parent : Element} →
    {trees : List RelationEntry} →
    {ids : List Nat} →
    TreesRecorded withoutTags m number parent trees ids →
      m.Covers (RelationEntry.entriesOf trees) ids
| _, _, _, _, .nil => ⟨rfl, by simp⟩
| _, _, _, _, .cons hFirst hRest =>
    hFirst.covers.append hRest.covers

end

/- Numbered statements are covered if they are recorded. -/
theorem StepsRecorded.covers
    {number : Nat}
    {steps : List NumberedEntry}
    {ids : List Nat}
    (hRecorded :
      StepsRecorded withoutTags m number steps ids) :
    m.Covers (steps.flatMap NumberedEntry.entries) ids := by
  induction hRecorded with
  | nil => exact ⟨rfl, by simp⟩
  | cons hEntry hBelow _ ih =>
      exact (hEntry.covers.append hBelow.covers).append ih

/- A block is covered if it is recorded. -/
theorem BlockRecorded.covers
    {number : Nat}
    {block : Block}
    {ids : List Nat}
    (hRecorded :
      BlockRecorded withoutTags m number block ids) :
    m.Covers block.entries ids := by
  cases hRecorded with
  | heading => exact ⟨rfl, by simp⟩
  | element hEntry hSteps hBelow =>
      rw [List.append_assoc]
      exact
        hEntry.covers.append
          (hSteps.covers.append hBelow.covers)

/- Blocks are covered if they are recorded. -/
theorem BlocksRecorded.covers
    {number : Nat}
    {blocks : List Block}
    {ids : List Nat}
    (hRecorded :
      BlocksRecorded withoutTags m number blocks ids) :
    m.Covers (blocks.flatMap Block.entries) ids := by
  induction hRecorded with
  | nil => exact ⟨rfl, by simp⟩
  | cons hFirst _ ih => exact hFirst.covers.append ih

/-
  A model that records a document has as many statements as
  the document, since no two of these share an index.
-/
theorem Records.count_le
    {d : Document}
    (hRecords : m.Records withoutTags d) :
    statementCount (d.blocks.flatMap Block.entries) ≤
      m.nextStatement := by
  rcases hRecords with ⟨ids, hUnique, hRecorded⟩
  rcases hRecorded.covers with ⟨hCount, hKnown⟩
  have hRange : ids ⊆ List.range m.nextStatement :=
    fun id hId => List.mem_range.mpr (hKnown id hId)
  have hLength := (hUnique.subperm hRange).length_le
  rw [List.length_range] at hLength
  omega

end Model

end Dialectic
