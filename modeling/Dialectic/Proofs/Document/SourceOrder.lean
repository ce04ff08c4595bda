import Dialectic.Proofs.Document.LineOrder
import Dialectic.Proofs.Document.Reading

/-
  The elements of a document are in the order of the source
  text: in a block first the element, then those below it, then
  those of its structure.

  Key definitions include:
    * `Block.offsets`
    * `Document.InSourceOrder`

  Main theorems:
    * `Parser.relations_ordered`
    * `Parser.reconstructionItems_ordered`
    * `Parser.piece_ordered`
    * `Parser.assemble_sublist`
    * `Document.read_inSourceOrder`
-/

namespace Dialectic

------------------------------------------------------------
-- Places of Elements
------------------------------------------------------------

/- Where some elements start. -/
def startsOf (entries : List Entry) : List Position :=
  entries.map (fun entry => entry.span.start)

/- The offsets at which some elements start. -/
def offsetsOf (entries : List Entry) : List Nat :=
  entries.map (fun entry => entry.span.start.offset)

/-
  The offsets of the elements in a block as they stand in the
  source text.  The structure of an argument comes last there,
  although it is recorded before the relations.
-/
def Block.offsets : Block → List Nat
| .heading _ => []
| .element block =>
    block.element.span.start.offset
      :: (offsetsOf (RelationEntry.entriesOf block.relations)
        ++ offsetsOf
          (block.steps.flatMap NumberedEntry.entries))

/- The offsets of the elements of a document do not decrease. -/
def Document.InSourceOrder (d : Document) : Prop :=
  (d.blocks.flatMap Block.offsets).Pairwise (· ≤ ·)

namespace Parser

------------------------------------------------------------
-- Elements
------------------------------------------------------------

variable {policy : FaultPolicy}

/- An element covers the span that it is given. -/
theorem entry_span
    [YamlReader]
    (tokens : List Token)
    (span : Span) :
    Returns (entry policy tokens span)
      (fun found => ∀ e, found = some e → e.span = span) := by
  have hUntitled : ∀ content : Inline, ∀ e,
      (untitledStatement? content span).map Entry.statement =
        some e → e.span = span := by
    intro content e hFound
    unfold untitledStatement? at hFound
    simp only at hFound
    split at hFound
    · cases hFound
    · cases hFound
      rfl
  unfold entry
  split
  · exact returns_pure (fun _ hFound => by cases hFound)
  all_goals
    refine returns_bind (returns_any _) (fun content _ => ?_)
    refine returns_pure ?_
  · rintro e hFound
    cases hFound
    rfl
  · rintro e hFound
    cases hFound
    rfl
  · rintro e hFound
    cases hFound
    rfl
  · rintro e hFound
    cases hFound
    rfl
  · exact hUntitled content

/- The spans of lines start where their content does. -/
theorem start_mem_starts
    {lines : List Line}
    {span : Span}
    (hSpan : span ∈ lines.flatMap spanOf) :
    span.start ∈ Line.starts lines := by
  rcases List.mem_flatMap.mp hSpan with ⟨line, hLine, hHere⟩
  cases line with
  | gap position => cases hHere
  | filled line =>
      rw [List.mem_singleton.mp hHere]
      exact List.mem_filterMap.mpr ⟨_, hLine, rfl⟩

variable {line : FilledLine} {lines : List Line}

/-
  An element that goes on over some lines starts on the first
  one, and the lines after it are some of those below.
-/
theorem extent_spec
    (hOrdered : Line.Ordered (.filled line :: lines))
    (above : Option Nat)
    (tokens : List Token) :
    (extent above tokens line.span lines).span.start =
        line.contentStart ∧
      (extent above tokens line.span lines).rest.Sublist
        lines := by
  have hBelow := (List.pairwise_cons.mp hOrdered).1
  constructor
  · apply Span.mergeAll_start
    intro span hSpan
    have hMore :
        (Line.starts (lines.takeWhile (continues above))).Sublist
          (Line.starts lines) :=
      Line.starts_sublist (List.takeWhile_sublist _)
    exact
      .inr (hBelow _ (hMore.subset (start_mem_starts hSpan)))
  · exact List.dropWhile_sublist _

------------------------------------------------------------
-- Relations
------------------------------------------------------------

/- A relation line covers a span that starts with its own. -/
theorem cover_start
    {span : Span}
    {trees : List RelationEntry}
    (hBelow : ∀ tree ∈ trees,
      span.start.Above tree.span.start) :
    (RelationEntry.cover span trees).start = span.start := by
  apply Span.mergeAll_start
  intro other hOther
  rcases List.mem_map.mp hOther with ⟨tree, hTree, rfl⟩
  exact .inr (hBelow tree hTree)

/-
  Relations that are read from some lines stand on them in
  order, before the lines that are left.
-/
structure RelationsRead
    (lines : List Line)
    (read : List RelationEntry × List Line) : Prop where
  order :
    (startsOf (RelationEntry.entriesOf read.1)
      ++ Line.starts read.2).Sublist (Line.starts lines)
  spans : ∀ tree ∈ read.1,
    tree.span.start ∈ Line.starts lines

/- What is read from fewer lines is read from all. -/
theorem RelationsRead.of_sublist
    {fewer : List Line}
    {read : List RelationEntry × List Line}
    (hRead : RelationsRead fewer read)
    (hFewer :
      (Line.starts fewer).Sublist (Line.starts lines)) :
    RelationsRead lines read :=
  ⟨hRead.order.trans hFewer,
    fun tree hTree => hFewer.subset (hRead.spans tree hTree)⟩

/- The lines that are left are some of those before. -/
theorem RelationsRead.rest
    {read : List RelationEntry × List Line}
    (hRead : RelationsRead lines read) :
    (Line.starts read.2).Sublist (Line.starts lines) :=
  (List.sublist_append_right _ _).trans hRead.order

/-
  A relation line is read with those below its target and
  those after it.
-/
theorem RelationsRead.cons
    {rest : List Line}
    (hOrdered : Line.Ordered (.filled line :: rest))
    {marker : Marker}
    {target : Entry}
    {span : Span}
    (hTarget : target.span = span)
    (hSpan : span.start = line.contentStart)
    {children siblings : List RelationEntry}
    {middle last : List Line}
    (hChildren : RelationsRead rest (children, middle))
    (hSiblings : RelationsRead middle (siblings, last)) :
    RelationsRead (.filled line :: rest)
      (⟨marker, target, children,
          RelationEntry.cover span children⟩ :: siblings,
        last) := by
  constructor
  · have hBelow :
        (startsOf (RelationEntry.entriesOf children)
          ++ (startsOf (RelationEntry.entriesOf siblings)
            ++ Line.starts last)).Sublist (Line.starts rest) :=
      (hSiblings.order.append_left _).trans hChildren.order
    simp only [startsOf] at hBelow
    simp only [RelationEntry.entriesOf, RelationEntry.entries,
      startsOf, List.map_append, List.map_cons,
      List.cons_append, List.append_assoc, hTarget, hSpan,
      Line.starts_filled]
    exact hBelow.cons_cons _
  · have hAbove := (List.pairwise_cons.mp hOrdered).1
    intro tree hTree
    rcases List.mem_cons.mp hTree with rfl | hLater
    · have hCover : (RelationEntry.cover span children).start =
          span.start := by
        apply cover_start
        intro child hChild
        rw [hSpan]
        exact hAbove _ (hChildren.spans child hChild)
      rw [hCover, hSpan]
      exact List.mem_cons_self
    · exact
        List.mem_cons_of_mem _
          (hChildren.rest.subset (hSiblings.spans tree hLater))

/- Relations are read in the order of their lines. -/
theorem relations_ordered
    [YamlReader]
    (fuel parent : Nat)
    (hOrdered : Line.Ordered lines) :
    Returns (relations policy fuel parent lines)
      (RelationsRead lines) := by
  induction fuel generalizing parent lines with
  | zero =>
      exact
        returns_pure ⟨List.Sublist.refl _, fun _ hTree => by
          cases hTree⟩
  | succ fuel ih =>
      have hNothing : RelationsRead lines ([], lines) :=
        ⟨List.Sublist.refl _, fun _ hTree => by cases hTree⟩
      cases lines with
      | nil => exact returns_pure hNothing
      | cons first rest =>
          cases first with
          | gap position => exact returns_pure hNothing
          | filled line =>
              -- skipping lines leaves fewer of them
              have hSkipped : ∀ {left : List Line},
                  left.Sublist rest →
                    Returns
                      (relations policy fuel parent
                        (skipDeeper line.indent left))
                      (RelationsRead (.filled line :: rest)) := by
                intro left hLeft
                have hFewer :
                    (Line.starts
                      (skipDeeper line.indent left)).Sublist
                        (Line.starts (.filled line :: rest)) :=
                  Line.starts_sublist
                    (((List.dropWhile_sublist _).trans
                      hLeft).cons _)
                exact
                  (ih parent (hOrdered.of_sublist hFewer)).imp
                    (fun _ hRead => hRead.of_sublist hFewer)
              simp only [relations]
              split
              · exact returns_pure hNothing
              · split
                · next marker _ tokens _ =>
                    rcases extent_spec hOrdered
                        (some line.indent) tokens with
                      ⟨hStart, hRest⟩
                    refine
                      returns_bind (entry_span _ _)
                        (fun found hFound => ?_)
                    cases found with
                    | none =>
                        exact
                          returns_bind (returns_any _)
                            (fun _ _ => hSkipped hRest)
                    | some target =>
                        have hBelow :=
                          Line.starts_sublist hRest
                        refine
                          returns_bind
                            (ih line.indent
                              (hOrdered.of_sublist
                                (hBelow.cons _)))
                            (fun read hChildren => ?_)
                        rcases read with ⟨children, middle⟩
                        refine
                          returns_bind
                            (ih parent
                              (hOrdered.of_sublist
                                ((hChildren.rest.trans
                                  hBelow).cons _)))
                            (fun read hSiblings => ?_)
                        rcases read with ⟨siblings, last⟩
                        exact
                          returns_pure
                            (.cons hOrdered
                              (hFound target rfl) hStart
                              (hChildren.of_sublist hBelow)
                              hSiblings)
                · exact
                    returns_bind (returns_any _)
                      (fun _ _ => hSkipped (List.Sublist.refl _))

------------------------------------------------------------
-- Premise-Conclusion Structures
------------------------------------------------------------

/- The elements of the numbered statements of some lines. -/
def stepEntries (items : List ReconstructionItem) : List Entry :=
  (Reconstruction.statements ⟨items, Span.origin⟩).flatMap
    NumberedEntry.entries

/-
  The items of a structure that are read from some lines stand
  on them in order, before the lines that are left.
-/
structure ItemsRead
    (lines : List Line)
    (read : Option (List ReconstructionItem) × List Line) :
    Prop where
  order :
    (startsOf (stepEntries (read.1.getD []))
      ++ Line.starts read.2).Sublist (Line.starts lines)
  spans : ∀ items, read.1 = some items →
    ∀ span ∈ items.flatMap ReconstructionItem.spans,
      span.start ∈ Line.starts lines

/- Without items some lines may be left out. -/
theorem ItemsRead.none
    {rest : List Line}
    (hRest : (Line.starts rest).Sublist (Line.starts lines)) :
    ItemsRead lines (Option.none, rest) :=
  ⟨hRest, fun _ hItems => by cases hItems⟩

/- At the end of the items all lines are left. -/
theorem ItemsRead.nil (lines : List Line) :
    ItemsRead lines (some [], lines) := by
  refine ⟨List.Sublist.refl _, ?_⟩
  rintro items hItems span hSpan
  cases hItems
  cases hSpan

/- What is read from fewer lines is read from all. -/
theorem ItemsRead.of_sublist
    {fewer : List Line}
    {read : Option (List ReconstructionItem) × List Line}
    (hRead : ItemsRead fewer read)
    (hFewer :
      (Line.starts fewer).Sublist (Line.starts lines)) :
    ItemsRead lines read :=
  ⟨hRead.order.trans hFewer,
    fun items hItems span hSpan =>
      hFewer.subset (hRead.spans items hItems span hSpan)⟩

/- An item comes before those that are read from lines below. -/
theorem ItemsRead.cons
    {item : ReconstructionItem}
    {rest : List Line}
    {read : Option (List ReconstructionItem) × List Line}
    (hItem :
      (startsOf (stepEntries [item])
        ++ Line.starts rest).Sublist (Line.starts lines))
    (hSpans : ∀ span ∈ item.spans,
      span.start ∈ Line.starts lines)
    (hRead : ItemsRead rest read) :
    ItemsRead lines (read.1.map (item :: ·), read.2) := by
  have hRest :
      (Line.starts rest).Sublist (Line.starts lines) :=
    (List.sublist_append_right _ _).trans hItem
  rcases read with ⟨_ | items, last⟩
  · exact .none (hRead.order.trans hRest)
  · have hSplit :
        startsOf (stepEntries (item :: items)) =
          startsOf (stepEntries [item])
            ++ startsOf (stepEntries items) := by
      have hStatements :
          Reconstruction.statements
              ⟨item :: items, Span.origin⟩ =
            Reconstruction.statements ⟨[item], Span.origin⟩
              ++ Reconstruction.statements
                ⟨items, Span.origin⟩ :=
        List.filterMap_append (l := [item])
      rw [stepEntries, hStatements, List.flatMap_append,
        startsOf, List.map_append]
      rfl
    constructor
    · simp only [Option.map_some, Option.getD_some]
      rw [hSplit, List.append_assoc]
      exact (hRead.order.append_left _).trans hItem
    · intro all hAll span hSpan
      cases hAll
      rcases List.mem_append.mp
        (List.flatMap_cons ▸ hSpan) with hHere | hLater
      · exact hSpans span hHere
      · exact hRest.subset (hRead.spans items rfl span hLater)

/- A numbered statement is read with those below it. -/
theorem RelationsRead.step
    {rest middle : List Line}
    {related : List RelationEntry}
    (hRelated : RelationsRead rest (related, middle))
    (number : Nat)
    {statement : StatementEntry}
    (hStart : statement.span.start = line.contentStart) :
    (startsOf
          (stepEntries
            [.statement ⟨number, statement, related⟩])
        ++ Line.starts middle).Sublist
        (Line.starts (.filled line :: rest)) ∧
      ∀ span ∈
        (ReconstructionItem.statement
          ⟨number, statement, related⟩).spans,
        span.start ∈ Line.starts (.filled line :: rest) := by
  constructor
  · have hEntries :
        startsOf
            (stepEntries
              [.statement ⟨number, statement, related⟩]) =
          line.contentStart
            :: startsOf (RelationEntry.entriesOf related) := by
      simp [stepEntries, Reconstruction.statements,
        NumberedEntry.entries, startsOf, Entry.span, hStart]
    rw [hEntries, List.cons_append, Line.starts_filled]
    exact hRelated.order.cons_cons _
  · intro span hSpan
    rcases List.mem_cons.mp hSpan with rfl | hLater
    · rw [hStart]
      exact List.mem_cons_self
    · rcases List.mem_map.mp hLater with ⟨tree, hTree, rfl⟩
      exact List.mem_cons_of_mem _ (hRelated.spans tree hTree)

/- A structure is read in the order of its lines. -/
theorem reconstructionItems_ordered
    [YamlReader]
    (fuel : Nat)
    (hOrdered : Line.Ordered lines) :
    Returns (reconstructionItems policy fuel lines)
      (ItemsRead lines) := by
  induction fuel generalizing lines with
  | zero => exact returns_pure (.nil lines)
  | succ fuel ih =>
      cases lines with
      | nil => exact returns_pure (.nil [])
      | cons first rest =>
          cases first with
          | gap position =>
              simp only [reconstructionItems]
              split
              · have hRest : Line.Ordered rest := hOrdered
                exact
                  (ih hRest).imp (fun _ hRead =>
                    hRead.of_sublist (List.Sublist.refl _))
              · exact returns_pure (.nil _)
          | filled line =>
              have hBelow : Line.Ordered rest :=
                hOrdered.of_sublist (List.sublist_cons_self _ _)
              simp only [reconstructionItems]
              split
              · split
                · next number _ tokens _ =>
                    rcases extent_spec hOrdered none tokens with
                      ⟨hStart, hRest⟩
                    have hLeft := Line.starts_sublist hRest
                    have hSkipped :
                        ItemsRead (.filled line :: rest)
                          (none,
                            skipReconstruction
                              (extent none tokens line.span
                                rest).rest) :=
                      .none
                        (Line.starts_sublist
                          (((List.dropWhile_sublist _).trans
                            hRest).cons _))
                    refine
                      returns_bind (entry_span _ _)
                        (fun found hFound => ?_)
                    rcases found with _ | statement | argument
                    · exact
                        returns_bind (returns_any _)
                          (fun _ _ => returns_pure hSkipped)
                    · refine
                        returns_bind
                          (relations_ordered fuel 0
                            (hBelow.of_sublist hLeft))
                          (fun read hRelated => ?_)
                      rcases read with ⟨related, middle⟩
                      refine
                        returns_bind
                          (ih
                            (hBelow.of_sublist
                              (hRelated.rest.trans hLeft)))
                          (fun read hRead => ?_)
                      have hStep :=
                        (hRelated.of_sublist hLeft).step number
                          ((congrArg Span.start
                            (hFound _ rfl)).trans hStart)
                      exact
                        returns_pure
                          (.cons hStep.1 hStep.2 hRead)
                    · exact
                        returns_bind (returns_any _)
                          (fun _ _ => returns_pure hSkipped)
                · next rule _ tokens _ =>
                    refine
                      returns_bind (ih hBelow)
                        (fun read hRead => ?_)
                    refine returns_pure (.cons ?_ ?_ hRead)
                    · exact List.sublist_cons_self _ _
                    · intro span hSpan
                      rw [List.mem_singleton.mp hSpan]
                      exact List.mem_cons_self
                · exact returns_pure (.nil _)
              · exact returns_pure (.nil _)

/-
  A structure starts where its first line does, and it is read
  in the order of its lines.
-/
theorem reconstruction_ordered
    [YamlReader]
    (fuel : Nat)
    (hOrdered : Line.Ordered (.filled line :: lines)) :
    Returns
      (reconstruction policy fuel line.contentStart
        (.filled line :: lines))
      (fun read =>
        (Line.starts read.2).Sublist
            (Line.starts (.filled line :: lines)) ∧
          ∀ r, read.1 = some r →
            r.span.start = line.contentStart ∧
              (startsOf
                  (r.statements.flatMap NumberedEntry.entries)
                ++ Line.starts read.2).Sublist
                (Line.starts (.filled line :: lines))) := by
  unfold reconstruction
  refine
    returns_bind (reconstructionItems_ordered fuel hOrdered)
      (fun read hRead => ?_)
  have hRest :
      (Line.starts read.2).Sublist
        (Line.starts (.filled line :: lines)) :=
    (List.sublist_append_right _ _).trans hRead.order
  rcases read with ⟨_ | items, rest⟩
  · exact returns_pure ⟨hRest, fun _ hNone => by cases hNone⟩
  · simp only
    cases orderFault? items with
    | some cause =>
        exact
          returns_bind (returns_any _) (fun _ _ =>
            returns_pure
              ⟨hRest, fun _ hNone => by cases hNone⟩)
    | none =>
        refine returns_pure ⟨hRest, ?_⟩
        intro r hr
        cases hr
        refine ⟨?_, hRead.order⟩
        have hAbove := (List.pairwise_cons.mp hOrdered).1
        apply Span.mergeAll_start
        intro span hSpan
        rcases List.mem_cons.mp
          (hRead.spans items rfl span hSpan) with
          hSame | hBelow
        · exact .inl hSame
        · exact .inr (hAbove _ hBelow)

------------------------------------------------------------
-- Pieces
------------------------------------------------------------

/-
  The offsets of the elements of a piece.  A structure has the
  offset at which it starts, too, as it may stand for an
  argument of its own.
-/
def Piece.offsets : Piece → List Nat
| .block found => found.offsets
| .reconstruction r =>
    r.span.start.offset
      :: offsetsOf (r.statements.flatMap NumberedEntry.entries)

/- The offsets at which the content of some lines starts. -/
def lineOffsets (lines : List Line) : List Nat :=
  (Line.starts lines).map Position.offset

/- Places on lines below each other have offsets in order. -/
theorem pairwise_offsets
    {places : List Position}
    (hPlaces : places.Pairwise Position.Above) :
    (places.map Position.offset).Pairwise (· ≤ ·) :=
  hPlaces.map _ (fun _ _ hAbove => hAbove.2)

/- The offsets of elements are those of their starts. -/
theorem offsetsOf_eq (entries : List Entry) :
    offsetsOf entries =
      (startsOf entries).map Position.offset := by
  rw [offsetsOf, startsOf, List.map_map]
  rfl

/-
  A piece that is read from some lines has offsets that do not
  decrease and are among those of the lines, and no line that
  is left starts before.
-/
structure PieceRead
    (lines : List Line)
    (read : Option Piece × List Line) : Prop where
  rest : (Line.starts read.2).Sublist (Line.starts lines)
  order : ∀ piece, read.1 = some piece →
    (piece.offsets ++ lineOffsets read.2).Pairwise (· ≤ ·)
  among : ∀ piece, read.1 = some piece →
    piece.offsets ⊆ lineOffsets lines

/- Lines may be skipped without reading a piece. -/
theorem PieceRead.none
    {rest : List Line}
    (hRest : rest.Sublist lines) :
    PieceRead lines (Option.none, rest) :=
  ⟨Line.starts_sublist hRest, fun _ hNone => (by cases hNone),
    fun _ hNone => (by cases hNone)⟩

/-
  A piece whose elements stand on some lines in order is read
  from them.
-/
theorem PieceRead.of_order
    {rest : List Line}
    (hOrdered : Line.Ordered lines)
    {piece : Piece}
    {entries : List Entry}
    (hPiece : piece.offsets = offsetsOf entries)
    (hEntries :
      (startsOf entries ++ Line.starts rest).Sublist
        (Line.starts lines)) :
    PieceRead lines (some piece, rest) := by
  have hOffsets :
      piece.offsets = (startsOf entries).map Position.offset :=
    hPiece.trans (offsetsOf_eq entries)
  constructor
  · exact (List.sublist_append_right _ _).trans hEntries
  · intro other hOther
    cases hOther
    rw [hOffsets, lineOffsets, ← List.map_append]
    exact pairwise_offsets (hOrdered.sublist hEntries)
  · intro other hOther
    cases hOther
    rw [hOffsets]
    exact
      List.map_subset _
        ((List.sublist_append_left _ _).trans hEntries).subset

/- An element at the top level is read in order. -/
theorem elementBlock_ordered
    [YamlReader]
    (fuel : Nat)
    (hOrdered : Line.Ordered (.filled line :: lines)) :
    Returns (elementBlock policy fuel line lines)
      (fun read =>
        PieceRead (.filled line :: lines)
          (read.1.map (fun b => .block (.element b)),
            read.2)) := by
  rcases extent_spec hOrdered none
      (line.tokens.dropWhile isBullet) with ⟨hStart, hRest⟩
  have hBelow : Line.Ordered lines :=
    hOrdered.of_sublist (List.sublist_cons_self _ _)
  have hLeft := Line.starts_sublist hRest
  refine
    returns_bind (entry_span _ _) (fun found hFound => ?_)
  cases found with
  | none =>
      exact
        returns_bind (returns_any _) (fun _ _ =>
          returns_pure
            (.none
              (((List.dropWhile_sublist _).trans hRest).cons
                _)))
  | some element =>
      refine
        returns_bind
          (relations_ordered fuel line.indent
            (hBelow.of_sublist hLeft))
          (fun read hRelated => ?_)
      rcases read with ⟨related, rest⟩
      have hEntries :
          (startsOf
              (element :: RelationEntry.entriesOf related)
            ++ Line.starts rest).Sublist
            (Line.starts (.filled line :: lines)) := by
        simp only [startsOf, List.map_cons, List.cons_append,
          hFound element rfl, hStart, Line.starts_filled]
        exact (hRelated.of_sublist hLeft).order.cons_cons _
      refine returns_pure (.of_order hOrdered ?_ hEntries)
      simp [Piece.offsets, Block.offsets, ElementBlock.steps,
        offsetsOf]

/- A structure at the top level is read in order. -/
theorem reconstruction_pieceRead
    [YamlReader]
    (fuel : Nat)
    (hOrdered : Line.Ordered (.filled line :: lines)) :
    Returns
      (reconstruction policy fuel line.contentStart
        (.filled line :: lines))
      (fun read =>
        PieceRead (.filled line :: lines)
          (read.1.map .reconstruction, read.2)) := by
  refine
    (reconstruction_ordered fuel hOrdered).imp
      (fun read hRead => ?_)
  rcases read with ⟨_ | r, rest⟩
  · exact
      ⟨hRead.1, fun _ hNone => (by cases hNone),
        fun _ hNone => (by cases hNone)⟩
  · rcases hRead.2 r rfl with ⟨hStart, hOrder⟩
    have hOffsets :
        Piece.offsets (.reconstruction r)
            ++ lineOffsets rest =
          line.contentStart.offset
            :: (startsOf
                (r.statements.flatMap NumberedEntry.entries)
              ++ Line.starts rest).map Position.offset := by
      rw [Piece.offsets, hStart, offsetsOf_eq, lineOffsets,
        List.map_append]
      rfl
    have hSorted :
        (line.contentStart.offset :: lineOffsets lines).Pairwise
          (· ≤ ·) :=
      pairwise_offsets hOrdered
    have hAmong := (hOrder.map Position.offset).subset
    constructor
    · exact hRead.1
    · intro piece hPiece
      cases hPiece
      rw [hOffsets, List.pairwise_cons]
      refine
        ⟨?_, pairwise_offsets (hOrdered.sublist hOrder)⟩
      intro offset hOffset
      rcases List.mem_cons.mp (hAmong hOffset) with
        hSame | hBelow
      · exact Nat.le_of_eq hSame.symm
      · exact (List.pairwise_cons.mp hSorted).1 offset hBelow
    · intro piece hPiece
      cases hPiece
      intro offset hOffset
      have hHere :=
        List.mem_append_left (lineOffsets rest) hOffset
      rw [hOffsets] at hHere
      rcases List.mem_cons.mp hHere with hFirst | hLater
      · rw [hFirst]
        exact List.mem_cons_self
      · exact hAmong hLater

/- What a line starts is read in order. -/
theorem piece_ordered
    [YamlReader]
    (fuel : Nat)
    (hOrdered : Line.Ordered (.filled line :: lines)) :
    Returns (piece policy fuel line lines)
      (PieceRead (.filled line :: lines)) := by
  have hElement :
      Returns
        (do
          let read ← elementBlock policy fuel line lines
          pure
            (read.1.map (fun b => Piece.block (.element b)),
              read.2))
        (PieceRead (.filled line :: lines)) :=
    returns_bind (elementBlock_ordered fuel hOrdered)
      (fun _ hRead => returns_pure hRead)
  have hSkipped :
      PieceRead (.filled line :: lines)
        (none, skipDeeper 0 lines) :=
    .none ((List.dropWhile_sublist _).cons _)
  unfold piece
  simp only
  split
  · refine returns_bind (returns_any _) (fun found _ => ?_)
    have hRest := List.sublist_cons_self (.filled line) lines
    cases found with
    | none => exact returns_pure (.none hRest)
    | some h =>
        have hNothing :
            (startsOf [] ++ Line.starts lines).Sublist
              (Line.starts (.filled line :: lines)) :=
          Line.starts_sublist hRest
        exact returns_pure (.of_order hOrdered rfl hNothing)
  · split
    · exact
        returns_bind (reconstruction_pieceRead _ hOrdered)
          (fun _ hRead => returns_pure hRead)
    · exact hElement
  · exact
      returns_bind (returns_any _)
        (fun _ _ => returns_pure hSkipped)
  · exact
      returns_bind (returns_any _)
        (fun _ _ => returns_pure hSkipped)
  · exact hElement

/- All pieces of a document are read in order. -/
theorem pieces_ordered
    [YamlReader]
    (fuel : Nat)
    (hOrdered : Line.Ordered lines) :
    Returns (pieces policy fuel lines)
      (fun read =>
        (read.flatMap Piece.offsets).Pairwise (· ≤ ·) ∧
          read.flatMap Piece.offsets ⊆ lineOffsets lines) := by
  induction fuel generalizing lines with
  | zero => exact returns_pure ⟨.nil, List.nil_subset _⟩
  | succ fuel ih =>
      cases lines with
      | nil => exact returns_pure ⟨.nil, List.nil_subset _⟩
      | cons first lines =>
          cases first with
          | gap position =>
              have hRest : Line.Ordered lines := hOrdered
              exact (ih hRest).imp (fun _ hRead => hRead)
          | filled line =>
              refine
                returns_bind (piece_ordered fuel hOrdered)
                  (fun read hRead => ?_)
              refine
                returns_bind
                  (ih (hOrdered.of_sublist hRead.rest))
                  (fun more hMore => ?_)
              have hLeft :
                  lineOffsets read.2 ⊆
                    lineOffsets (.filled line :: lines) :=
                (hRead.rest.map Position.offset).subset
              apply returns_pure
              rcases read with ⟨_ | found, rest⟩
              · exact
                  ⟨hMore.1, List.Subset.trans hMore.2 hLeft⟩
              · simp only [Option.toList_some,
                  List.cons_append, List.nil_append,
                  List.flatMap_cons]
                have hHere :=
                  List.pairwise_append.mp
                    (hRead.order found rfl)
                constructor
                · rw [List.pairwise_append]
                  refine ⟨hHere.1, hMore.1, ?_⟩
                  intro a ha b hb
                  exact hHere.2.2 a ha b (hMore.2 hb)
                · rw [List.append_subset]
                  exact
                    ⟨hRead.among found rfl,
                      List.Subset.trans hMore.2 hLeft⟩

------------------------------------------------------------
-- Documents
------------------------------------------------------------

/-
  A structure adds its offsets to those of the blocks before
  it.
-/
theorem attach_sublist
    (r : Reconstruction)
    (found : List Block) :
    ((attach r found).reverse.flatMap Block.offsets).Sublist
      (found.reverse.flatMap Block.offsets
        ++ Piece.offsets (.reconstruction r)) := by
  unfold attach
  split
  · next entry related span earlier =>
      simp [Block.offsets, ElementBlock.steps, Piece.offsets,
        Reconstruction.statements, offsetsOf]
  · simp [Block.offsets, ElementBlock.steps, Piece.offsets,
      ArgumentEntry.untitled, Entry.span, offsetsOf,
      RelationEntry.entriesOf]

/- The blocks that pieces make up have no other offsets. -/
theorem assemble_sublist (found : List Piece) :
    ((assemble found).flatMap Block.offsets).Sublist
      (found.flatMap Piece.offsets) := by
  have hAll : ∀ (more : List Piece) (earlier : List Block),
      ((more.foldl
          (fun blocks piece =>
            match piece with
            | .block block => block :: blocks
            | .reconstruction found => attach found blocks)
          earlier).reverse.flatMap Block.offsets).Sublist
        (earlier.reverse.flatMap Block.offsets
          ++ more.flatMap Piece.offsets) := by
    intro more
    induction more with
    | nil => simp
    | cons piece more ih =>
        intro earlier
        rw [List.foldl_cons, List.flatMap_cons,
          ← List.append_assoc]
        refine (ih _).trans (List.Sublist.append_right ?_ _)
        cases piece with
        | block found => simp [Piece.offsets]
        | reconstruction r => exact attach_sublist r earlier
  exact hAll found []

/- A document that is read is in the order of its lines. -/
theorem document_ordered
    [YamlReader]
    {lexed : Lexer.Lexed}
    (hOrdered : Line.Ordered lexed.lines) :
    Returns (document policy lexed) Document.InSourceOrder := by
  refine returns_bind (returns_any _) (fun front _ => ?_)
  have hBlocks :
      Returns (blocks policy lexed.lines)
        (fun found =>
          (found.flatMap Block.offsets).Pairwise (· ≤ ·)) :=
    returns_bind (pieces_ordered _ hOrdered)
      (fun found hFound =>
        returns_pure
          (hFound.1.sublist (assemble_sublist found)))
  exact
    returns_bind hBlocks (fun _ hFound => returns_pure hFound)

end Parser

namespace Document

/- A document that is read is in the order of the source text. -/
theorem read_inSourceOrder [YamlReader] (input : String) :
    (read input).document.InSourceOrder :=
  read_returns
    (Parser.document_ordered (Lexer.lex_ordered input))
    List.Pairwise.nil

end Document

end Dialectic
