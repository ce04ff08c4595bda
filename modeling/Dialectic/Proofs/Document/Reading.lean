import Dialectic.Document.Parser
import Dialectic.Proofs.Document.Entries

/-
  What holds of all that a reader of documents returns, proved
  one step of the reader after the other.  Numbered statements
  come below arguments in this way.

  Key definitions include:
    * `Parser.Returns`

  Main theorems:
    * `Parser.returns_bind`
    * `Document.read_returns`
    * `Document.read_stepsBelowArgument`
-/

namespace Dialectic

namespace Parser

------------------------------------------------------------
-- Readers
------------------------------------------------------------

/- Whatever is read has a property. -/
def Returns
    {α : Type}
    (m : Parsing α)
    (P : α → Prop) : Prop :=
  ∀ faults a later, m faults = .ok (a, later) → P a

/- What is given without reading is given. -/
theorem returns_pure
    {α : Type}
    {a : α}
    {P : α → Prop}
    (hHere : P a) :
    Returns (pure a) P := by
  intro faults b later hRead
  cases hRead
  exact hHere

/- Anything may be read. -/
theorem returns_any {α : Type} (m : Parsing α) :
    Returns m (fun _ => True) :=
  fun _ _ _ _ => trivial

/- What is read second may depend on what is read first. -/
theorem returns_bind
    {α β : Type}
    {m : Parsing α}
    {f : α → Parsing β}
    {P : α → Prop}
    {Q : β → Prop}
    (hFirst : Returns m P)
    (hSecond : ∀ a, P a → Returns (f a) Q) :
    Returns (m >>= f) Q := by
  intro faults b later hRead
  cases hHere : m faults with
  | error fault =>
      simp [bind, StateT.bind, Except.bind, hHere] at hRead
  | ok found =>
      rcases found with ⟨a, middle⟩
      have hRest : f a middle = .ok (b, later) := by
        simpa [bind, StateT.bind, Except.bind, hHere] using hRead
      exact
        hSecond a (hFirst faults a middle hHere) middle b later
          hRest

/- A weaker property holds of what is read, too. -/
theorem Returns.imp
    {α : Type}
    {m : Parsing α}
    {P Q : α → Prop}
    (hReads : Returns m P)
    (hWeaker : ∀ a, P a → Q a) :
    Returns m Q :=
  fun faults a later hRead =>
    hWeaker a (hReads faults a later hRead)

end Parser

/- Whatever documents have that are read has one that is. -/
theorem Document.read_returns
    [YamlReader]
    {input : String}
    {P : Document → Prop}
    (hReads :
      Parser.Returns
        (Parser.document .recover (Lexer.lex input)) P)
    (hDefault : P default) :
    P (read input).document := by
  unfold read
  split
  · next parsed hRead =>
      unfold parse at hRead
      simp only at hRead
      split at hRead
      · next document later hFound =>
          cases hRead
          exact hReads _ document later hFound
      · cases hRead
  · exact hDefault

------------------------------------------------------------
-- Numbered Statements
------------------------------------------------------------

namespace Parser

/- A block that is read has no structure yet. -/
theorem elementBlock_unstructured
    [YamlReader]
    (policy : FaultPolicy)
    (fuel : Nat)
    (line : FilledLine)
    (lines : List Line) :
    Returns (elementBlock policy fuel line lines)
      (fun read => ∀ block, read.1 = some block →
        block.reconstruction = none) := by
  refine returns_bind (returns_any _) (fun found _ => ?_)
  cases found with
  | none =>
      exact
        returns_bind (returns_any _)
          (fun _ _ => returns_pure (fun _ hNone => nomatch hNone))
  | some element =>
      refine returns_bind (returns_any _) (fun read _ => ?_)
      apply returns_pure
      intro block hBlock
      cases hBlock
      rfl

/- A piece has no numbered statements below a statement. -/
def Piece.StepsBelowArgument : Piece → Prop
| .block found => found.StepsBelowArgument
| .reconstruction _ => True

/- The piece that a line starts has none, if there is one. -/
theorem piece_stepsBelowArgument
    [YamlReader]
    (policy : FaultPolicy)
    (fuel : Nat)
    (line : FilledLine)
    (lines : List Line) :
    Returns (piece policy fuel line lines)
      (fun read => ∀ piece, read.1 = some piece →
        piece.StepsBelowArgument) := by
  have hElement :
      Returns
        (do
          let read ← elementBlock policy fuel line lines
          pure
            (read.1.map (fun b => Piece.block (.element b)),
              read.2))
        (fun read => ∀ piece, read.1 = some piece →
          piece.StepsBelowArgument) := by
    refine
      returns_bind
        (elementBlock_unstructured policy fuel line lines)
        (fun read hRead => ?_)
    apply returns_pure
    intro piece hPiece
    rcases Option.map_eq_some_iff.mp hPiece with
      ⟨block, hBlock, rfl⟩
    intro _
    rw [ElementBlock.steps, hRead block hBlock]
  have hSkipped :
      ∀ piece, (none : Option Piece) = some piece →
        piece.StepsBelowArgument :=
    fun _ hNone => nomatch hNone
  unfold piece
  simp only
  split
  · refine returns_bind (returns_any _) (fun found _ => ?_)
    apply returns_pure
    intro piece hPiece
    rcases Option.map_eq_some_iff.mp hPiece with
      ⟨heading, _, rfl⟩
    trivial
  · split
    · refine returns_bind (returns_any _) (fun read _ => ?_)
      apply returns_pure
      intro piece hPiece
      rcases Option.map_eq_some_iff.mp hPiece with
        ⟨found, _, rfl⟩
      trivial
    · exact hElement
  · exact
      returns_bind (returns_any _)
        (fun _ _ => returns_pure hSkipped)
  · exact
      returns_bind (returns_any _)
        (fun _ _ => returns_pure hSkipped)
  · exact hElement

/- No piece of a document has any. -/
theorem pieces_stepsBelowArgument
    [YamlReader]
    (policy : FaultPolicy)
    (fuel : Nat)
    (lines : List Line) :
    Returns (pieces policy fuel lines)
      (fun found => ∀ piece ∈ found,
        piece.StepsBelowArgument) := by
  induction fuel generalizing lines with
  | zero => exact returns_pure (by simp)
  | succ fuel ih =>
      cases lines with
      | nil => exact returns_pure (by simp)
      | cons first lines =>
          cases first with
          | gap position => exact ih lines
          | filled line =>
              refine
                returns_bind
                  (piece_stepsBelowArgument policy fuel line
                    lines)
                  (fun read hRead => ?_)
              refine
                returns_bind (ih read.2) (fun more hMore => ?_)
              apply returns_pure
              intro piece hPiece
              rcases List.mem_append.mp hPiece with hHere | hLater
              · exact hRead piece (Option.mem_toList.mp hHere)
              · exact hMore piece hLater

/- Pieces are put together so that no block has any. -/
theorem assemble_stepsBelowArgument
    {found : List Piece}
    (hFound : ∀ piece ∈ found, piece.StepsBelowArgument) :
    ∀ block ∈ assemble found, block.StepsBelowArgument := by
  have hAttach : ∀ r blocks,
      (∀ block ∈ blocks, block.StepsBelowArgument) →
        ∀ block ∈ attach r blocks,
          block.StepsBelowArgument := by
    intro r blocks hBlocks block hBlock
    unfold attach at hBlock
    split at hBlock
    · rcases List.mem_cons.mp hBlock with rfl | hOld
      · intro hStatement
        cases hStatement
      · exact hBlocks block (List.mem_cons_of_mem _ hOld)
    · rcases List.mem_cons.mp hBlock with rfl | hOld
      · intro hStatement
        cases hStatement
      · exact hBlocks block hOld
  have hAll : ∀ block ∈ (assemble found).reverse,
      block.StepsBelowArgument := by
    rw [assemble, List.reverse_reverse]
    refine
      List.foldlRecOn found _
        (motive := fun blocks => ∀ block ∈ blocks,
          Block.StepsBelowArgument block)
        (by simp) (fun blocks hBlocks piece hPiece => ?_)
    cases piece with
    | block first =>
        exact
          List.forall_mem_cons.mpr ⟨hFound _ hPiece, hBlocks⟩
    | reconstruction r => exact hAttach r blocks hBlocks
  exact fun block hBlock =>
    hAll block (List.mem_reverse.mpr hBlock)

end Parser

/-
  In a document that is read, numbered statements stand below
  arguments only.
-/
theorem Document.read_stepsBelowArgument
    [YamlReader]
    (input : String) :
    ∀ block ∈ (read input).document.blocks,
      block.StepsBelowArgument := by
  have hBlocks : ∀ policy lines,
      Parser.Returns (Parser.blocks policy lines)
        (fun found => ∀ block ∈ found,
          block.StepsBelowArgument) := by
    intro policy lines
    exact
      Parser.returns_bind
        (Parser.pieces_stepsBelowArgument policy _ lines)
        (fun _ hFound =>
          Parser.returns_pure
            (Parser.assemble_stepsBelowArgument hFound))
  refine
    read_returns
      (P := fun d => ∀ block ∈ d.blocks,
        block.StepsBelowArgument)
      ?_ (fun _ hNone => nomatch hNone)
  refine
    Parser.returns_bind (Parser.returns_any _)
      (fun front _ => ?_)
  exact
    Parser.returns_bind (hBlocks _ _)
      (fun _ hFound => Parser.returns_pure hFound)

end Dialectic
