import Dialectic.Notation.Yaml.Reader
import Dialectic.Proofs.Document.Coverage
import Mathlib.Data.List.Induction

/-
  Which argument a premise-conclusion structure belongs to.  It
  is the one that is read just before it, so there are lines
  between them only if they were given up as faulty.

  Key definitions include:
    * `ElementBlock.alone`
    * `ElementBlock.ownSpan`
    * `Document.LineBetween`

  Main theorems:
    * `Parser.ReadsPieces.alone`
    * `Parser.attach_cases`
    * `Parser.assemble_attached`
    * `Document.read_attached`
-/

namespace Dialectic

namespace ElementBlock

/- An element and the relations below it, and nothing else. -/
def alone
    (element : Entry)
    (related : List RelationEntry) : ElementBlock :=
  ⟨element, related, none,
    RelationEntry.cover element.span related⟩

/-
  The part of the text that the element of a block and the
  relations below it cover, without its structure.
-/
def ownSpan (block : ElementBlock) : Span :=
  RelationEntry.cover block.element.span block.relations

end ElementBlock

namespace Parser

------------------------------------------------------------
-- Pieces
------------------------------------------------------------

/- An element that is read has no structure yet. -/
def Piece.Alone : Piece → Prop
| .block (.element found) =>
    found = .alone found.element found.relations
| _ => True

variable {lines rest : List Line}
variable {found : List SyntaxFault}

/- The piece that a line starts has no structure yet. -/
theorem ReadsPiece.alone
    [YamlReader]
    {line : FilledLine}
    {piece? : Option Piece}
    (hReads : ReadsPiece line lines piece? rest found) :
    ∀ piece ∈ piece?, piece.Alone := by
  cases hReads with
  | heading =>
      rintro piece ⟨⟩
      trivial
  | ordered =>
      rintro piece ⟨⟩
      trivial
  | @element body element related _ own below hOpens hBody
      hElement hRelated =>
      rintro piece ⟨⟩
      rw [Piece.Alone, ElementBlock.alone,
        entry_covers hElement]
  | untitled => exact fun _ hNone => by cases hNone
  | disordered => exact fun _ hNone => by cases hNone
  | broken => exact fun _ hNone => by cases hNone
  | stray => exact fun _ hNone => by cases hNone
  | missing => exact fun _ hNone => by cases hNone

/- None of the pieces of a document has a structure yet. -/
theorem ReadsPieces.alone
    [YamlReader]
    {pieces : List Piece}
    (hReads : ReadsPieces lines pieces found) :
    ∀ piece ∈ pieces, piece.Alone := by
  induction hReads with
  | nil => exact fun _ hNone => by cases hNone
  | gap _ ih => exact ih
  | filled hPiece _ ih =>
      intro piece hMem
      rcases List.mem_append.mp hMem with hHere | hLater
      · exact hPiece.alone piece (Option.mem_toList.mp hHere)
      · exact ih piece hLater

------------------------------------------------------------
-- Attachment
------------------------------------------------------------

variable {pieces : List Piece}
variable {block : ElementBlock} {blocks : List Block}
variable {r : Reconstruction}

/-
  A block with a title is there before a structure is read, or
  it is the last block, to which the structure is added.
-/
theorem attach_cases
    (hBlock : .element block ∈ attach r blocks)
    (hTitle : block.element.title ≠ none) :
    .element block ∈ blocks ∨
      block.reconstruction = some r ∧
        ∃ span earlier,
          blocks =
            .element
                ⟨block.element, block.relations, none, span⟩
              :: earlier := by
  unfold attach at hBlock
  split at hBlock
  · rcases List.mem_cons.mp hBlock with hLast | hEarlier
    · cases hLast
      exact .inr ⟨rfl, _, _, rfl⟩
    · exact .inl (List.mem_cons_of_mem _ hEarlier)
  · rcases List.mem_cons.mp hBlock with hOwn | hEarlier
    · cases hOwn
      exact absurd rfl hTitle
    · exact .inl hEarlier

/-
  If the last block has no structure yet, it is the piece that
  was read last.
-/
theorem assemble_last
    (hBlocks : pieces.foldl grow [] = .element block :: blocks)
    (hNone : block.reconstruction = none) :
    ∃ before, pieces = before ++ [.block (.element block)] := by
  induction pieces using List.reverseRecOn with
  | nil => cases hBlocks
  | append_singleton before piece _ =>
      rw [List.foldl_append] at hBlocks
      cases piece with
      | block found =>
          cases hBlocks
          exact ⟨before, rfl⟩
      | reconstruction r =>
          -- the last block has the structure that was read
          simp only [List.foldl_cons, List.foldl_nil, grow,
            attach] at hBlocks
          split at hBlocks <;> cases hBlocks <;> cases hNone

/-
  A structure of an argument with a title is read right after
  that argument.
-/
theorem assemble_attached
    (hAlone : ∀ piece ∈ pieces, piece.Alone)
    (hBlock : .element block ∈ assemble pieces)
    (hStructure : block.reconstruction = some r)
    (hTitle : block.element.title ≠ none) :
    ∃ before after,
      pieces =
        before
          ++ .block
              (.element (.alone block.element block.relations))
            :: .reconstruction r :: after := by
  rw [assemble_eq, List.mem_reverse] at hBlock
  induction pieces using List.reverseRecOn with
  | nil => cases hBlock
  | append_singleton done piece ih =>
      rcases List.forall_mem_append.mp hAlone with
        ⟨hDone, hPiece⟩
      by_cases hEarlier : .element block ∈ done.foldl grow []
      · rcases ih hDone hEarlier with ⟨before, after, rfl⟩
        exact ⟨before, after ++ [piece], by simp⟩
      rw [List.foldl_append, List.foldl_cons, List.foldl_nil]
        at hBlock
      cases piece with
      | block found =>
          -- a block that is read has no structure
          rcases List.mem_cons.mp hBlock with rfl | hHere
          · have hOwn : block = .alone _ _ :=
              hPiece _ List.mem_cons_self
            rw [hOwn] at hStructure
            cases hStructure
          · exact absurd hHere hEarlier
      | reconstruction other =>
          rcases attach_cases hBlock hTitle with
            hHere | ⟨hOther, span, earlier, hLast⟩
          · exact absurd hHere hEarlier
          · rcases assemble_last hLast rfl with ⟨before, rfl⟩
            have hOwn : ElementBlock.mk _ _ none span =
                .alone block.element block.relations :=
              hDone (.block (.element _)) (by simp)
            rw [hOther] at hStructure
            cases hStructure
            exact ⟨before, [], by simp [← hOwn]⟩

end Parser

namespace Document

------------------------------------------------------------
-- Documents
------------------------------------------------------------

/- A line with content lies strictly between two parts. -/
structure LineBetween
    (input : String)
    (s t : Span)
    (line : FilledLine) : Prop where
  among : .filled line ∈ (Lexer.lex input).lines
  below : s.stop.line < line.contentStart.line
  above : line.contentStart.line < t.start.line

/-
  A structure of an argument with a title stands below the
  argument and its relations.  A line lies between them if and
  only if one there is reported.
-/
theorem read_attached
    [YamlReader]
    (input : String)
    {block : ElementBlock}
    (hBlock : .element block ∈ (read input).document.blocks)
    (hTitle : block.element.title ≠ none)
    {r : Reconstruction}
    (hStructure : block.reconstruction = some r) :
    block.ownSpan.Before r.span ∧
      ((∃ line, LineBetween input block.ownSpan r.span line) ↔
        ∃ line, LineBetween input block.ownSpan r.span line ∧
          ∃ fault ∈ (read input).faults,
            fault.position = line.contentStart) := by
  have hStacked := (Lexer.lex_stacked input).rows
  rcases read_pieces input with
    ⟨front, early, pieces, found, _, hReads, hRead⟩
  rw [hRead] at hBlock ⊢
  rcases Parser.assemble_attached hReads.alone hBlock
      hStructure hTitle with
    ⟨before, after, rfl⟩
  have hTiled := (hReads.tiled hStacked).1
  rw [List.map_append, List.map_cons, List.map_cons] at hTiled
  have hApart := hTiled.apart hStacked
  constructor
  · exact
      (List.pairwise_cons.mp
        (List.pairwise_append.mp hApart).2.1).1 _
          List.mem_cons_self
  · constructor
    · rintro ⟨line, hLine, hBelow, hAbove⟩
      rcases hTiled.blamed_between hStacked
          (Line.mem_spans.mpr ⟨line, hLine, rfl⟩) hBelow
          hAbove with
        ⟨row, hRow, hBelow, hAbove, cause, hFault⟩
      rcases Line.mem_spans.mp hRow with ⟨other, hOther, rfl⟩
      exact
        ⟨other, ⟨hOther, hBelow, hAbove⟩,
          ⟨cause, other.contentStart⟩,
          List.mem_append_right _
            (List.mem_append_right _ hFault),
          rfl⟩
    · rintro ⟨line, hLine, _⟩
      exact ⟨line, hLine⟩

section

open scoped Yaml

/- A structure that is read below a line that is reported. -/
theorem read_attached_skipping :
    let input := "<A>: a\n\n+ [X]\n\n(1) p\n----\n(2) c"
    ∃ block r,
      .element block ∈ (read input).document.blocks ∧
        block.element.title = some "A" ∧
        block.reconstruction = some r ∧
        block.ownSpan.Before r.span ∧
        ∃ line, LineBetween input block.ownSpan r.span line ∧
          ∃ fault ∈ (read input).faults,
            fault.position = line.contentStart := by
  intro input
  have hFirst :
      (read input).document.elements.head?.bind
          (fun block => block.reconstruction.map
            (fun r =>
              (block.element.title, block.ownSpan.stop.line,
                r.span.start.line))) =
        some (some "A", 1, 5) := by
    decide +kernel
  have hBetween :
      ∃ row ∈ Line.spans (Lexer.lex input).lines,
        row.start.line = 3 := by
    decide +kernel
  rcases Option.bind_eq_some_iff.mp hFirst with
    ⟨block, hHead, hStructure⟩
  rcases Option.map_eq_some_iff.mp hStructure with
    ⟨r, hStructure, hPlaces⟩
  simp only [Prod.mk.injEq] at hPlaces
  rcases hPlaces with ⟨hTitle, hStop, hStart⟩
  have hBlock :
      .element block ∈ (read input).document.blocks := by
    rcases List.mem_filterMap.mp (List.mem_of_mem_head? hHead)
      with ⟨found, hFound, hSame⟩
    cases found <;> cases hSame
    exact hFound
  rcases hBetween with ⟨row, hRow, hThird⟩
  rcases Line.mem_spans.mp hRow with ⟨line, hLine, rfl⟩
  have hThird : line.contentStart.line = 3 := hThird
  rcases read_attached input hBlock (by simp [hTitle])
      hStructure with
    ⟨hBefore, hIff⟩
  exact
    ⟨block, r, hBlock, hTitle, hStructure, hBefore,
      hIff.mp ⟨line, hLine, by omega, by omega⟩⟩

end

end Document

end Dialectic
