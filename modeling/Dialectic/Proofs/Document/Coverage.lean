import Dialectic.Notation.Yaml.Reader
import Dialectic.Proofs.Document.Enclosing
import Dialectic.Proofs.Document.Grammar
import Dialectic.Proofs.Document.Tiling
import Mathlib.Data.List.Flatten

/-
  What is read from the lines of a document covers all of them,
  except for those that are reported as faulty, and each part of
  it lies in the part of the text that it belongs to.

  Key definitions include:
    * `Parser.Lays`
    * `Parser.Spoils`
    * `Parser.Piece.span`

  Main theorems:
    * `Parser.ReadsRelations.lays`
    * `Parser.ReadsItems.lays`
    * `Parser.ReadsPiece.lays`
    * `Parser.ReadsPieces.tiled`
    * `Parser.assemble_tiled`
    * `Document.read_encloses`
-/

namespace Dialectic

namespace Parser

------------------------------------------------------------
-- Lines That Are Read
------------------------------------------------------------

/-
  Parts that stand on some lines, down to those that are left
  after them.
-/
def Lays
    (lines : List Line)
    (parts : List Span)
    (rest : List Line)
    (found : List SyntaxFault) : Prop :=
  ∃ rows,
    Line.spans lines = rows ++ Line.spans rest ∧
      Tiled found rows parts

/-
  The lines down to those that are left are given up, and one
  of them is reported.
-/
def Spoils
    (lines rest : List Line)
    (found : List SyntaxFault) : Prop :=
  ∃ rows,
    Line.spans lines = rows ++ Line.spans rest ∧
      Blamed found rows

variable {lines middle rest : List Line}
variable {parts others : List Span}
variable {found later : List SyntaxFault}
variable {line : FilledLine}
variable {s : Span}

/- No part stands on no line. -/
theorem lays_nil : Lays lines [] lines found :=
  ⟨[], rfl, .nil⟩

/- More faults may be reported. -/
theorem Lays.mono
    (hLays : Lays lines parts rest found)
    (hMore : found ⊆ later) :
    Lays lines parts rest later := by
  rcases hLays with ⟨rows, hLines, hTiled⟩
  exact ⟨rows, hLines, hTiled.mono hMore⟩

/- Parts are read one after the other. -/
theorem Lays.append
    (hFirst : Lays lines parts middle found)
    (hSecond : Lays middle others rest found) :
    Lays lines (parts ++ others) rest found := by
  rcases hFirst with ⟨rows, hLines, hTiled⟩
  rcases hSecond with ⟨below, hMiddle, hBelow⟩
  refine ⟨rows ++ below, ?_, hTiled.append hBelow⟩
  rw [hLines, hMiddle, List.append_assoc]

/- Some parts make up one. -/
theorem Lays.mergeAll
    (hLays : Lays lines (s :: parts) rest found)
    (hStacked : Span.Stacked (Line.spans lines)) :
    Lays lines [s.mergeAll parts] rest found := by
  rcases hLays with ⟨rows, hLines, hTiled⟩
  rw [hLines] at hStacked
  exact ⟨rows, hLines, hTiled.mergeAll hStacked.left⟩

/- Each part starts no later than it stops. -/
theorem Lays.proper
    (hLays : Lays lines parts rest found)
    (hStacked : Span.Stacked (Line.spans lines))
    (hPart : s ∈ parts) :
    s.start ≤ s.stop := by
  rcases hLays with ⟨rows, hLines, hTiled⟩
  rw [hLines] at hStacked
  exact hTiled.proper hStacked.left hPart

/- Each of the parts lies in what all of them cover. -/
theorem Lays.holds
    (hLays : Lays lines (s :: parts) rest found)
    (hStacked : Span.Stacked (Line.spans lines)) :
    ∀ t ∈ s :: parts, (s.mergeAll parts).Holds t := by
  intro t ht
  refine ⟨hLays.proper hStacked ht, ?_⟩
  rcases hLays with ⟨rows, hLines, hTiled⟩
  rw [hLines] at hStacked
  exact hTiled.within_mergeAll hStacked.left ht

/- Lines that are given up hold no part. -/
theorem Spoils.lays
    (hSpoils : Spoils lines rest found) :
    Lays lines [] rest found := by
  rcases hSpoils with ⟨rows, hLines, hBlamed⟩
  exact ⟨rows, hLines, .none hBlamed⟩

/- Lines above those that are given up may be given up, too. -/
theorem Spoils.below
    (hSpoils : Spoils middle rest found)
    (hRest : middle <:+ lines) :
    Spoils lines rest found := by
  rcases hSpoils with ⟨below, hMiddle, row, hRow, hFault⟩
  rcases hRest with ⟨used, rfl⟩
  refine
    ⟨Line.spans used ++ below, ?_, row,
      List.mem_append_right _ hRow, hFault⟩
  rw [Line.spans_append, hMiddle, List.append_assoc]

/- More faults may be reported. -/
theorem Spoils.mono
    (hSpoils : Spoils lines rest found)
    (hMore : found ⊆ later) :
    Spoils lines rest later := by
  rcases hSpoils with
    ⟨rows, hLines, row, hRow, cause, hFault⟩
  exact ⟨rows, hLines, row, hRow, cause, hMore hFault⟩

/- A line is given up, with lines below it, if it is faulty. -/
theorem spoils_of_suffix
    {cause : SyntaxFault.Cause}
    (hRest : rest <:+ lines)
    (own after : List SyntaxFault) :
    Spoils (.filled line :: lines) rest
      (own ++ ⟨cause, line.contentStart⟩ :: after) := by
  rcases hRest with ⟨used, rfl⟩
  exact
    ⟨line.span :: Line.spans used, by simp, line.span,
      List.mem_cons_self, cause,
      List.mem_append_right _ List.mem_cons_self⟩

/- The lines that are left are stacked like all of them. -/
theorem stacked_rest
    (hStacked : Span.Stacked (Line.spans lines))
    (hRest : rest <:+ lines) :
    Span.Stacked (Line.spans rest) :=
  hStacked.of_sublist (hRest.sublist.flatMap _)

/- So are the lines below the first one. -/
theorem stacked_below
    (hStacked :
      Span.Stacked (Line.spans (.filled line :: lines)))
    (hRest : rest <:+ lines) :
    Span.Stacked (Line.spans rest) :=
  stacked_rest hStacked (hRest.trans (List.suffix_cons _ _))

/- A part may stand on one line. -/
theorem line_lays :
    Lays (.filled line :: lines) [line.span] lines found :=
  ⟨[line.span], rfl, .single (.single _)⟩

/- An element stands on its lines. -/
theorem extent_lays
    (hStacked :
      Span.Stacked (Line.spans (.filled line :: lines)))
    (above : Option Nat)
    (tokens : List Token) :
    Lays (.filled line :: lines)
      [(extent above tokens line.span lines).span]
      (extent above tokens line.span lines).rest found := by
  have hLines :
      Line.spans (.filled line :: lines) =
        line.span
          :: Line.spans (lines.takeWhile (continues above))
          ++ Line.spans (lines.dropWhile (continues above)) := by
    rw [Line.spans_filled, List.cons_append,
      ← Line.spans_append, List.takeWhile_append_dropWhile]
  rw [hLines] at hStacked
  exact
    ⟨_, hLines,
      (Tiled.refl _).mergeAll hStacked.left⟩

/- It starts where the first one does. -/
theorem extent_start
    (hStacked :
      Span.Stacked (Line.spans (.filled line :: lines)))
    (above : Option Nat)
    (tokens : List Token) :
    (extent above tokens line.span lines).span.start =
      line.contentStart := by
  have hFewer :
      (Line.spans (lines.takeWhile (continues above))).Sublist
        (Line.spans lines) :=
    (List.takeWhile_sublist _).flatMap _
  have hOwn := hStacked.of_sublist (hFewer.cons_cons line.span)
  have hSelf :
      Tiled []
        (line.span
          :: Line.spans (lines.takeWhile (continues above)))
        (line.span
          :: Line.spans (lines.takeWhile (continues above))) :=
    .refl _
  exact (hSelf.inOrder hOwn).mergeAll_start

/- The element that is read from these lines covers them. -/
theorem entry_covers
    [YamlReader]
    {tokens : List Token}
    {e : Entry}
    (hEntry : Lists (entry .recover tokens s) (some e) found) :
    e.span = s :=
  entry_span tokens s [] (some e) _ (hEntry []) e rfl

------------------------------------------------------------
-- Relations
------------------------------------------------------------

variable {parent : Nat} {trees : List RelationEntry}

/-
  Relations stand on their lines one below the other, and what
  is below a relation line lies in it.
-/
theorem ReadsRelations.lays
    [YamlReader]
    (hReads : ReadsRelations parent lines trees rest found)
    (hStacked : Span.Stacked (Line.spans lines)) :
    Lays lines (trees.map RelationEntry.span) rest found ∧
      ∀ tree ∈ trees, tree.Nested := by
  induction hReads with
  | stop => exact ⟨lays_nil, fun _ hNone => by cases hNone⟩
  | @branch parent line rest middle last marker p tokens body
      target children siblings own below after hDeep hTokens
      hBody hTarget hChildren hSiblings ihChildren
      ihSiblings =>
      subst hBody
      have hSuffix :=
        extent_suffix (some line.indent) tokens line.span rest
      rcases ihChildren (stacked_below hStacked hSuffix) with
        ⟨hBelow, hNested⟩
      rcases ihSiblings
          (stacked_below hStacked
            (hChildren.suffix.trans hSuffix)) with
        ⟨hAfter, hOthers⟩
      have hBelow :
          Lays _ _ _ (own ++ (below ++ after)) :=
        hBelow.mono (by simp)
      have hTree :=
        (extent_lays hStacked (some line.indent) tokens).append
          hBelow
      have hHolds := hTree.holds hStacked
      constructor
      · exact
          (hTree.mergeAll hStacked).append
            (hAfter.mono (by simp))
      · refine List.forall_mem_cons.mpr ⟨?_, hOthers⟩
        refine RelationEntry.nested_node ?_ ?_ hNested
        · rw [entry_covers hTarget]
          exact hHolds _ List.mem_cons_self
        · intro child hChild
          exact
            hHolds _
              (List.mem_cons_of_mem _
                (List.mem_map_of_mem hChild))
  | @lacking parent line rest last marker p tokens body trees
      own after hDeep hTokens hBody hTarget hAfter ih =>
      subst hBody
      have hSuffix :=
        (List.dropWhile_suffix (isDeeper line.indent)).trans
          (extent_suffix (some line.indent) tokens line.span
            rest)
      rcases ih (stacked_below hStacked hSuffix) with
        ⟨hBelow, hNested⟩
      refine ⟨?_, hNested⟩
      exact
        (spoils_of_suffix hSuffix own after).lays.append
          (hBelow.mono (by simp))
  | @unexpected parent line rest last trees after hDeep hOther
      hAfter ih =>
      have hSuffix :=
        List.dropWhile_suffix (isDeeper line.indent) (l := rest)
      rcases ih (stacked_below hStacked hSuffix) with
        ⟨hBelow, hNested⟩
      refine ⟨?_, hNested⟩
      exact
        (spoils_of_suffix hSuffix [] after).lays.append
          (hBelow.mono (by simp))

------------------------------------------------------------
-- Premise-Conclusion Structures
------------------------------------------------------------

/- What is below the numbered statements of some items. -/
def StepsNested (items : List ReconstructionItem) : Prop :=
  ∀ step, .statement step ∈ items →
    ∀ tree ∈ step.relations, tree.Nested

/- A numbered statement is one of the items of a structure. -/
theorem mem_statements
    {step : NumberedEntry}
    {r : Reconstruction} :
    step ∈ r.statements ↔ .statement step ∈ r.items := by
  rw [Reconstruction.statements, List.mem_filterMap]
  constructor
  · rintro ⟨item, hItem, hSame⟩
    cases item <;> cases hSame
    exact hItem
  · exact fun hItem => ⟨.statement step, hItem, rfl⟩

/-
  The items of a structure stand on its lines one below the
  other; if one of its statements is at fault, its lines are
  given up.
-/
def LaysItems
    (lines : List Line)
    (items? : Option (List ReconstructionItem))
    (rest : List Line)
    (found : List SyntaxFault) : Prop :=
  match items? with
  | some items =>
      Lays lines (items.flatMap ReconstructionItem.spans) rest
          found ∧
        StepsNested items
  | none => Spoils lines rest found

/- This is how the items of a structure are read. -/
theorem ReadsItems.lays
    [YamlReader]
    {items? : Option (List ReconstructionItem)}
    (hReads : ReadsItems lines items? rest found)
    (hStacked : Span.Stacked (Line.spans lines)) :
    LaysItems lines items? rest found := by
  induction hReads with
  | stop =>
      exact ⟨lays_nil, fun _ hNone => by cases hNone⟩
  | gap _ _ ih => exact ih hStacked
  | @statement line rest middle last number p tokens body
      statement related items own below after hIndent hTokens
      hBody hStatement hRelated hAfter ih =>
      subst hBody
      have hSuffix := extent_suffix none tokens line.span rest
      have hLater := hRelated.suffix.trans hSuffix
      have hItems := ih (stacked_below hStacked hLater)
      cases items with
      | none =>
          refine (hItems.below ?_).mono ?_
          · exact hLater.trans (List.suffix_cons _ _)
          · simp
      | some items =>
          rcases hRelated.lays
              (stacked_below hStacked hSuffix) with
            ⟨hBelow, hNested⟩
          constructor
          · have hBelow :
                Lays _ _ _ (own ++ (below ++ after)) :=
              hBelow.mono (by simp)
            have hStep :=
              (extent_lays hStacked none tokens).append hBelow
            have hAll := hStep.append (hItems.1.mono (by simp))
            rw [← entry_covers hStatement] at hAll
            exact hAll
          · intro step hStep
            rcases List.mem_cons.mp hStep with hSame | hOther
            · cases hSame
              exact hNested
            · exact hItems.2 step hOther
  | @refused line rest number p tokens body refused own cause
      hIndent hTokens hBody hRefused hCause =>
      subst hBody
      have hSuffix := extent_suffix none tokens line.span rest
      exact
        spoils_of_suffix
          ((List.dropWhile_suffix _).trans hSuffix) own []
  | @inference line rest last rule p tokens items after hIndent
      hTokens hAfter ih =>
      have hItems :=
        ih (stacked_below hStacked (List.suffix_refl _))
      cases items with
      | none => exact hItems.below (List.suffix_cons _ _)
      | some items =>
          constructor
          · exact line_lays.append hItems.1
          · intro step hStep
            rcases List.mem_cons.mp hStep with hSame | hOther
            · cases hSame
            · exact hItems.2 step hOther

/- The first of them starts where their first line does. -/
theorem ReadsItems.first_start
    [YamlReader]
    {items? : Option (List ReconstructionItem)}
    (hReads :
      ReadsItems (.filled line :: lines) items? rest found)
    (hStacked :
      Span.Stacked (Line.spans (.filled line :: lines)))
    {items : List ReconstructionItem}
    (hItems : items? = some items)
    (hSome : items ≠ []) :
    ∃ s parts,
      items.flatMap ReconstructionItem.spans = s :: parts ∧
        s.start = line.contentStart := by
  cases hReads with
  | stop =>
      cases hItems
      exact absurd rfl hSome
  | refused => cases hItems
  | statement _ _ hBody hStatement _ _ =>
      subst hBody
      rcases Option.map_eq_some_iff.mp hItems with
        ⟨others, _, rfl⟩
      refine ⟨_, _, rfl, ?_⟩
      rw [← extent_start hStacked none]
      exact congrArg Span.start (entry_covers hStatement)
  | inference _ _ _ =>
      rcases Option.map_eq_some_iff.mp hItems with
        ⟨others, _, rfl⟩
      exact ⟨_, _, rfl, rfl⟩

------------------------------------------------------------
-- Pieces
------------------------------------------------------------

/- The part of a text that a piece covers. -/
def Piece.span : Piece → Span
| .block found => found.span
| .reconstruction r => r.span

/- What belongs to a piece lies in it. -/
def Piece.Encloses : Piece → Prop
| .block found => found.Encloses
| .reconstruction r => r.Encloses

variable {piece? : Option Piece}

/-
  A piece stands on its lines, and what belongs to it lies in
  it.  Lines without a piece are given up.
-/
theorem ReadsPiece.lays
    [YamlReader]
    (hReads : ReadsPiece line lines piece? rest found)
    (hStacked :
      Span.Stacked (Line.spans (.filled line :: lines))) :
    Lays (.filled line :: lines)
        (piece?.toList.map Piece.span) rest found ∧
      ∀ piece ∈ piece?, piece.Encloses := by
  have hNone : Spoils (.filled line :: lines) rest found →
      Lays (.filled line :: lines) [] rest found ∧
        ∀ piece ∈ (none : Option Piece), piece.Encloses :=
    fun hSpoils =>
      ⟨hSpoils.lays, fun _ hNone => by cases hNone⟩
  have hSuffix := hReads.suffix
  cases hReads with
  | heading =>
      have hLine := @line_lays lines found line
      refine ⟨hLine, ?_⟩
      rintro piece ⟨⟩
      exact hLine.proper hStacked List.mem_cons_self
  | untitled => exact hNone (spoils_of_suffix hSuffix _ [])
  | disordered =>
      exact hNone (spoils_of_suffix hSuffix _ [])
  | broken _ _ hItems => exact hNone (hItems.lays hStacked)
  | stray => exact hNone (spoils_of_suffix hSuffix [] [])
  | missing => exact hNone (spoils_of_suffix hSuffix _ [])
  | @element body element related _ own below hOpens hBody
      hElement hRelated =>
      subst hBody
      have hLeft :=
        extent_suffix none (line.tokens.dropWhile isBullet)
          line.span lines
      rcases hRelated.lays (stacked_below hStacked hLeft) with
        ⟨hTrees, hNested⟩
      have hTrees : Lays _ _ _ (own ++ below) :=
        hTrees.mono (by simp)
      have hBlock :=
        (extent_lays hStacked none
          (line.tokens.dropWhile isBullet)).append hTrees
      have hHolds := hBlock.holds hStacked
      refine ⟨hBlock.mergeAll hStacked, ?_⟩
      rintro piece ⟨⟩
      refine ⟨?_, ?_, fun _ hNone => by cases hNone⟩
      · rw [entry_covers hElement]
        exact hHolds _ List.mem_cons_self
      · refine
          RelationEntry.Nested.enclosed hNested
            (fun tree hTree => ?_)
        exact
          hHolds _
            (List.mem_cons_of_mem _ (List.mem_map_of_mem hTree))
  | @ordered number items _ _ hIndent hKind hItems hOrder =>
      rcases hItems.lays hStacked with ⟨hLays, hNested⟩
      have hSome : items ≠ [] := by
        rintro rfl
        cases hOrder
      rcases hItems.first_start hStacked rfl hSome with
        ⟨first, parts, hSpans, hStart⟩
      have hFirst : first.start ≤ first.stop :=
        hLays.proper hStacked (hSpans ▸ List.mem_cons_self)
      have hSpan :
          Span.mergeAll ⟨line.contentStart, line.contentStart⟩
              (items.flatMap ReconstructionItem.spans) =
            first.mergeAll parts := by
        rw [hSpans, ← hStart]
        exact Span.mergeAll_start_cons hFirst
      rw [hSpan]
      rw [hSpans] at hLays
      have hHolds : ∀ item ∈ items, ∀ part ∈ item.spans,
          (first.mergeAll parts).Holds part := by
        intro item hItem part hPart
        apply hLays.holds hStacked
        rw [← hSpans]
        exact List.mem_flatMap.mpr ⟨item, hItem, hPart⟩
      refine ⟨hLays.mergeAll hStacked, ?_⟩
      rintro piece ⟨⟩
      refine ⟨hHolds, fun step hStep => ?_⟩
      have hItem := mem_statements.mp hStep
      refine
        RelationEntry.Nested.enclosed (hNested step hItem)
          (fun tree hTree => ?_)
      exact
        hHolds _ hItem _
          (List.mem_cons_of_mem _ (List.mem_map_of_mem hTree))

/- The pieces of a document stand on its lines. -/
theorem ReadsPieces.tiled
    [YamlReader]
    {pieces : List Piece}
    (hReads : ReadsPieces lines pieces found)
    (hStacked : Span.Stacked (Line.spans lines)) :
    Tiled found (Line.spans lines) (pieces.map Piece.span) ∧
      ∀ piece ∈ pieces, piece.Encloses := by
  induction hReads with
  | nil => exact ⟨.nil, fun _ hNone => by cases hNone⟩
  | gap _ ih => exact ih hStacked
  | @filled line rest middle piece? pieces own after hPiece
      hAfter ih =>
      rcases hPiece.lays hStacked with
        ⟨⟨rows, hLines, hTiled⟩, hHere⟩
      rcases ih (stacked_below hStacked hPiece.suffix) with
        ⟨hBelow, hLater⟩
      constructor
      · rw [hLines, List.map_append]
        exact
          (hTiled.mono (by simp)).append
            (hBelow.mono (by simp))
      · intro piece hMem
        rcases List.mem_append.mp hMem with hFirst | hOther
        · exact hHere piece (Option.mem_toList.mp hFirst)
        · exact hLater piece hOther

------------------------------------------------------------
-- Blocks
------------------------------------------------------------

/-
  A structure that is put to the blocks before it stands below
  them, and what belongs to the blocks lies in them.
-/
theorem grow_tiled
    {rows : List Span}
    (hStacked : Span.Stacked rows)
    {blocks : List Block}
    {piece : Piece}
    (hTiled :
      Tiled found rows
        (blocks.reverse.map Block.span ++ piece.span :: others))
    (hBlocks : ∀ block ∈ blocks, block.Encloses)
    (hPiece : piece.Encloses) :
    Tiled found rows
        ((grow blocks piece).reverse.map Block.span ++ others) ∧
      ∀ block ∈ grow blocks piece, block.Encloses := by
  have hProper :=
    hTiled.proper hStacked (s := piece.span) (by simp)
  cases piece with
  | block found =>
      refine ⟨by simpa [grow, Piece.span] using hTiled, ?_⟩
      exact List.forall_mem_cons.mpr ⟨hPiece, hBlocks⟩
  | reconstruction r =>
      -- a structure that belongs to an argument of its own
      have hOwn : Tiled found rows
          ((Block.element
            ⟨.argument (.untitled r.span), [], some r, r.span⟩
              :: blocks).reverse.map Block.span ++ others) ∧
          ∀ block ∈ Block.element
            ⟨.argument (.untitled r.span), [], some r, r.span⟩
              :: blocks, block.Encloses := by
        refine
          ⟨by simpa [Block.span, Piece.span] using hTiled, ?_⟩
        refine List.forall_mem_cons.mpr ⟨?_, hBlocks⟩
        refine ⟨Span.holds_self hProper, ?_, ?_⟩
        · intro node hNone
          cases hNone
        · rintro r ⟨⟩
          exact ⟨Span.holds_self hProper, hPiece⟩
      rcases blocks with
        _ | ⟨h | ⟨e | e, related, r? | r?, span⟩, earlier⟩
      · exact hOwn
      · exact hOwn
      · exact hOwn
      · exact hOwn
      · -- a structure that belongs to the argument before it
        have hSplit :
            Tiled found rows
              (earlier.reverse.map Block.span
                ++ span :: r.span :: others) := by
          simpa [Block.span, Piece.span] using hTiled
        have hMerged := hSplit.merge hStacked
        rcases List.forall_mem_cons.mp hBlocks with
          ⟨hBlock, hEarlier⟩
        have hBoth : Span.InOrder [span, r.span] :=
          (hSplit.inOrder hStacked).sublist (by simp)
        have hWithin := hBoth.mergeAll_within
        refine
          ⟨by simpa [grow, attach, Block.span] using hMerged, ?_⟩
        refine List.forall_mem_cons.mpr ⟨?_, hEarlier⟩
        refine
          ElementBlock.Encloses.of_within hBlock
            (hWithin span (by simp)) ?_
        rintro r ⟨⟩
        exact ⟨⟨hProper, hWithin _ (by simp)⟩, hPiece⟩
      · exact hOwn

/- The blocks of a document stand on its lines like its pieces. -/
theorem assemble_tiled
    {rows : List Span}
    (hStacked : Span.Stacked rows)
    {pieces : List Piece}
    (hTiled : Tiled found rows (pieces.map Piece.span))
    (hPieces : ∀ piece ∈ pieces, piece.Encloses) :
    Tiled found rows ((assemble pieces).map Block.span) ∧
      ∀ block ∈ assemble pieces, block.Encloses := by
  have hFold : ∀ blocks : List Block,
      Tiled found rows
          (blocks.reverse.map Block.span
            ++ pieces.map Piece.span) →
        (∀ block ∈ blocks, block.Encloses) →
          Tiled found rows
              ((pieces.foldl grow blocks).reverse.map
                Block.span) ∧
            ∀ block ∈ pieces.foldl grow blocks,
              block.Encloses := by
    clear hTiled
    induction pieces with
    | nil =>
        intro blocks hTiled hBlocks
        rw [List.map_nil, List.append_nil] at hTiled
        exact ⟨hTiled, hBlocks⟩
    | cons piece pieces ih =>
        intro blocks hTiled hBlocks
        rcases List.forall_mem_cons.mp hPieces with
          ⟨hFirst, hLater⟩
        rcases grow_tiled hStacked hTiled hBlocks hFirst with
          ⟨hNext, hAll⟩
        exact ih hLater _ hNext hAll
  rcases hFold [] hTiled (fun _ hNone => by cases hNone) with
    ⟨hAll, hBlocks⟩
  rw [assemble_eq]
  exact
    ⟨hAll, fun block hBlock =>
      hBlocks block (List.mem_reverse.mp hBlock)⟩

end Parser

namespace Document

------------------------------------------------------------
-- Documents
------------------------------------------------------------

/-
  The blocks of a document that is read stand on its lines, with
  nothing between them but lines that are reported as faulty.
-/
theorem read_tiled [YamlReader] (input : String) :
    Tiled (read input).faults
        (Line.spans (Lexer.lex input).lines)
        ((read input).document.blocks.map Block.span) ∧
      ∀ block ∈ (read input).document.blocks,
        block.Encloses := by
  have hStacked := (Lexer.lex_stacked input).rows
  rcases read_pieces input with
    ⟨front, early, pieces, found, _, hReads, hRead⟩
  rcases hReads.tiled hStacked with ⟨hTiled, hPieces⟩
  rw [hRead]
  exact
    Parser.assemble_tiled hStacked (hTiled.mono (by simp))
      hPieces

/-
  In each document that is read, what belongs to a block lies in
  it, and the blocks are one below the other.  If no fault is
  reported, each line lies in one of the blocks, with all of its
  tokens.
-/
theorem read_encloses [YamlReader] (input : String) :
    (∀ block ∈ (read input).document.blocks,
        block.span.start ≤ block.span.stop ∧
          block.Encloses) ∧
      ((read input).document.blocks.map Block.span).Pairwise
        Span.Before ∧
      ((read input).faults = [] →
        ∀ line, .filled line ∈ (Lexer.lex input).lines →
          ∃ block ∈ (read input).document.blocks,
            line.span.Within block.span ∧
              ∀ token ∈ line.stream,
                block.span.start ≤ token.position ∧
                  token.position ≤ block.span.stop) := by
  have hLines := Lexer.lex_stacked input
  rcases read_tiled input with ⟨hTiled, hBlocks⟩
  refine
    ⟨fun block hBlock =>
        ⟨(hBlocks block hBlock).proper, hBlocks block hBlock⟩,
      hTiled.apart hLines.rows, fun hClean line hLine => ?_⟩
  rw [hClean] at hTiled
  rcases hTiled.covered hLines.rows
      (Line.mem_spans.mpr ⟨line, hLine, rfl⟩) with
    ⟨part, hPart, hWithin⟩
  rcases List.mem_map.mp hPart with ⟨block, hBlock, rfl⟩
  refine ⟨block, hBlock, hWithin, fun token hToken => ?_⟩
  have hPlace := (hLines.placed line hLine).tokens token hToken
  exact
    ⟨hWithin.start.trans hPlace.1, hPlace.2.trans hWithin.stop⟩

section

open scoped Yaml

/- Each line of an argument with all its parts lies in it. -/
theorem read_encloses_structure :
    let input :=
      "<A>: a\n  b\n  - [B]\n\n(1) c\n----\n(2) d"
    (read input).faults = [] ∧
      ∀ line, .filled line ∈ (Lexer.lex input).lines →
        ∃ block ∈ (read input).document.blocks,
          line.span.Within block.span ∧
            ∀ token ∈ line.stream,
              block.span.start ≤ token.position ∧
                token.position ≤ block.span.stop := by
  intro input
  have hClean : (read input).faults = [] := by decide +kernel
  exact ⟨hClean, (read_encloses input).2.2 hClean⟩

end

end Document

end Dialectic
