import Dialectic.Document.Parser
import Dialectic.Proofs.Source.Shift

/-
  Moving the lines and the tree of a document down, with all
  places in them, as a text that is put before it does.

  Key definitions include:
    * `SyntaxFault.shift`
    * `Line.shift`
    * `Entry.shift`
    * `RelationEntry.shift`
    * `Block.shift`
    * `Parser.Piece.shift`

  Main theorems:
    * `FilledLine.contentStart_shift`
    * `RelationEntry.cover_shift`
    * `ReconstructionItem.spans_shift`
    * `Parser.Piece.shift_zero`
-/

namespace Dialectic

variable (d : Shift)

------------------------------------------------------------
-- Tokens and Lines
------------------------------------------------------------

/- Move a fault down. -/
def SyntaxFault.shift (fault : SyntaxFault) : SyntaxFault :=
  { fault with position := fault.position.shift d }

/- Move a token down. -/
def Token.shift (token : Token) : Token :=
  { token with position := token.position.shift d }

/- Move a line with content down. -/
def FilledLine.shift (line : FilledLine) : FilledLine :=
  { line with
    start := line.start.shift d
    tokens := line.tokens.map (Token.shift d)
    stop := line.stop.shift d }

/- Move a line down. -/
def Line.shift : Line → Line
| gap position => gap (position.shift d)
| filled line => filled (line.shift d)

------------------------------------------------------------
-- Elements and Relations
------------------------------------------------------------

/- Move a statement down. -/
def StatementEntry.shift (entry : StatementEntry) :
    StatementEntry :=
  { entry with span := entry.span.shift d }

/- Move an argument down. -/
def ArgumentEntry.shift (entry : ArgumentEntry) :
    ArgumentEntry :=
  { entry with span := entry.span.shift d }

/- Move an element down. -/
def Entry.shift : Entry → Entry
| statement entry => statement (entry.shift d)
| argument entry => argument (entry.shift d)

namespace RelationEntry

mutual

/- Move a relation line down with those below it. -/
def shift : RelationEntry → RelationEntry
| ⟨marker, target, children, span⟩ =>
    ⟨marker, target.shift d, shiftAll children, span.shift d⟩

/- Move some relation lines down with those below them. -/
def shiftAll : List RelationEntry → List RelationEntry
| [] => []
| tree :: trees => shift tree :: shiftAll trees

end

end RelationEntry

------------------------------------------------------------
-- Premise-Conclusion Structures
------------------------------------------------------------

/- Move a numbered statement down. -/
def NumberedEntry.shift (step : NumberedEntry) :
    NumberedEntry :=
  { step with
    statement := step.statement.shift d
    relations := RelationEntry.shiftAll d step.relations }

/- Move an inference down. -/
def InferenceEntry.shift (inference : InferenceEntry) :
    InferenceEntry :=
  { inference with span := inference.span.shift d }

/- Move a line of a structure down. -/
def ReconstructionItem.shift :
    ReconstructionItem → ReconstructionItem
| statement step => statement (step.shift d)
| inference found => inference (found.shift d)

/- Move a premise-conclusion structure down. -/
def Reconstruction.shift (r : Reconstruction) :
    Reconstruction :=
  ⟨r.items.map (ReconstructionItem.shift d), r.span.shift d⟩

------------------------------------------------------------
-- Blocks
------------------------------------------------------------

/- Move a heading down. -/
def Heading.shift (heading : Heading) : Heading :=
  { heading with span := heading.span.shift d }

/- Move an element at the top level down with all below it. -/
def ElementBlock.shift (block : ElementBlock) : ElementBlock :=
  { element := block.element.shift d
    relations := RelationEntry.shiftAll d block.relations
    reconstruction :=
      block.reconstruction.map (Reconstruction.shift d)
    span := block.span.shift d }

/- Move a block down. -/
def Block.shift : Block → Block
| heading found => heading (found.shift d)
| element found => element (found.shift d)

/- Move a piece of a document down. -/
def Parser.Piece.shift : Parser.Piece → Parser.Piece
| block found => block (found.shift d)
| reconstruction found => reconstruction (found.shift d)

------------------------------------------------------------
-- Staying
------------------------------------------------------------

/- A fault that is not moved stays. -/
theorem SyntaxFault.shift_zero (fault : SyntaxFault) :
    fault.shift .zero = fault :=
  rfl

/- A line with content that is not moved stays. -/
theorem FilledLine.shift_zero (line : FilledLine) :
    line.shift .zero = line := by
  have hTokens : line.tokens.map (Token.shift .zero) =
      line.tokens :=
    List.map_id'' (fun _ => rfl) _
  unfold FilledLine.shift
  rw [hTokens]
  rfl

/- A line that is not moved stays. -/
theorem Line.shift_zero (line : Line) :
    line.shift .zero = line := by
  cases line with
  | gap position => rfl
  | filled line => exact congrArg filled line.shift_zero

/- An element that is not moved stays. -/
theorem Entry.shift_zero (e : Entry) :
    e.shift .zero = e := by
  cases e <;> rfl

namespace RelationEntry

mutual

/- A relation line that is not moved stays. -/
theorem shift_zero : ∀ tree : RelationEntry,
    tree.shift .zero = tree
| ⟨marker, target, children, span⟩ => by
    rw [shift, Entry.shift_zero, shiftAll_zero, Span.shift_zero]

/- Relation lines that are not moved stay. -/
theorem shiftAll_zero : ∀ trees : List RelationEntry,
    shiftAll .zero trees = trees
| [] => rfl
| tree :: trees => by
    rw [shiftAll, shift_zero, shiftAll_zero]

end

end RelationEntry

/- A line of a structure that is not moved stays. -/
theorem ReconstructionItem.shift_zero
    (item : ReconstructionItem) :
    item.shift .zero = item := by
  cases item with
  | statement step =>
      simp only [shift, NumberedEntry.shift,
        RelationEntry.shiftAll_zero]
      rfl
  | inference found => rfl

/- A structure that is not moved stays. -/
theorem Reconstruction.shift_zero (r : Reconstruction) :
    r.shift .zero = r := by
  rw [shift, List.map_id'' ReconstructionItem.shift_zero]
  rfl

/- A block that is not moved stays. -/
theorem Block.shift_zero (block : Block) :
    block.shift .zero = block := by
  cases block with
  | heading found => rfl
  | element found =>
      rcases found with ⟨e, related, found?, span⟩
      have hStructure :
          found?.map (Reconstruction.shift .zero) =
            found? := by
        cases found? with
        | none => rfl
        | some r => exact congrArg some r.shift_zero
      simp only [shift, ElementBlock.shift,
        RelationEntry.shiftAll_zero, Entry.shift_zero,
        hStructure, Span.shift_zero]

/- A piece that is not moved stays. -/
theorem Parser.Piece.shift_zero (piece : Parser.Piece) :
    piece.shift .zero = piece := by
  cases piece with
  | block found => exact congrArg block found.shift_zero
  | reconstruction found =>
      exact congrArg reconstruction found.shift_zero

------------------------------------------------------------
-- Places
------------------------------------------------------------

namespace FilledLine

/- A line that moves is indented as before. -/
@[simp]
theorem indent_shift (line : FilledLine) :
    (line.shift d).indent = line.indent :=
  rfl

/- The tokens of a line move with it. -/
@[simp]
theorem tokens_shift (line : FilledLine) :
    (line.shift d).tokens = line.tokens.map (Token.shift d) :=
  rfl

/- The start of the content of a line moves with it. -/
@[simp]
theorem contentStart_shift (line : FilledLine) :
    (line.shift d).contentStart =
      line.contentStart.shift d := by
  rcases line with ⟨start, indent, tokens, stop⟩
  by_cases hIndent : indent = 0
  · cases tokens with
    | nil => simp [contentStart, shift, hIndent]
    | cons t tokens =>
        simp [contentStart, shift, hIndent]
        rfl
  · simp [contentStart, shift, hIndent]

/- The span of a line moves with it. -/
@[simp]
theorem span_shift (line : FilledLine) :
    (line.shift d).span = line.span.shift d := by
  rw [span, contentStart_shift]
  rfl

/- What a line starts with is its first token. -/
theorem tokens_of_headKind?
    {line : FilledLine}
    {kind : TokenKind}
    (hKind : line.headKind? = some kind) :
    ∃ p tokens, line.tokens = ⟨kind, p⟩ :: tokens := by
  rcases line with ⟨start, indent, tokens, stop⟩
  rcases tokens with _ | ⟨⟨_, p⟩, tokens⟩
  · cases hKind
  · cases hKind
    exact ⟨p, tokens, rfl⟩

/- Moving a line does not change what it starts with. -/
@[simp]
theorem headKind?_shift (line : FilledLine) :
    (line.shift d).headKind? = line.headKind? := by
  unfold headKind?
  simp only [shift, List.head?_map, Option.map_map]
  rfl

end FilledLine

namespace RelationEntry

/- Some relation lines move each. -/
theorem shiftAll_eq_map (trees : List RelationEntry) :
    shiftAll d trees = trees.map (shift d) := by
  induction trees with
  | nil => rfl
  | cons tree trees ih => rw [shiftAll, ih, List.map_cons]

/- The span of a relation line moves with it. -/
theorem span_shift (tree : RelationEntry) :
    (tree.shift d).span = tree.span.shift d := by
  cases tree
  rfl

/- The spans of some move with them. -/
theorem spans_shiftAll (trees : List RelationEntry) :
    (shiftAll d trees).map RelationEntry.span =
      (trees.map RelationEntry.span).map (Span.shift d) := by
  rw [shiftAll_eq_map, List.map_map, List.map_map]
  exact List.map_congr_left (fun tree _ => tree.span_shift d)

/- What covers relation lines moves with them. -/
theorem cover_shift
    (span : Span)
    (trees : List RelationEntry) :
    cover (span.shift d) (shiftAll d trees) =
      (cover span trees).shift d := by
  rw [cover, spans_shiftAll, Span.mergeAll_shift]
  rfl

end RelationEntry

namespace ReconstructionItem

/- The spans of a line of a structure move with it. -/
theorem spans_shift (item : ReconstructionItem) :
    (item.shift d).spans = item.spans.map (Span.shift d) := by
  cases item with
  | statement step =>
      simp only [shift, spans, NumberedEntry.shift,
        RelationEntry.spans_shiftAll, List.map_cons]
      rfl
  | inference found => rfl

end ReconstructionItem

end Dialectic
