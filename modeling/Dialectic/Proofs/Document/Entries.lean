import Dialectic.Model.Builder

/-
  The occurrences of elements in a document, in the order in
  which they are read, and the arguments that have a
  premise-conclusion structure.

  Key definitions include:
    * `RelationEntry.entries`
    * `Block.entries`
    * `statementCount`
    * `untitledCount`
    * `Document.EachReconstructedOnce`
-/

namespace Dialectic

------------------------------------------------------------
-- Occurrences
------------------------------------------------------------

namespace RelationEntry

mutual

/- The occurrences on a relation line and those below it. -/
def entries : RelationEntry → List Entry
| ⟨_, target, children, _⟩ => target :: entriesOf children

/- The occurrences on some relation lines and below them. -/
def entriesOf : List RelationEntry → List Entry
| [] => []
| tree :: trees => tree.entries ++ entriesOf trees

end

end RelationEntry

/- A numbered statement and the occurrences below it. -/
def NumberedEntry.entries (step : NumberedEntry) :
    List Entry :=
  .statement step.statement
    :: RelationEntry.entriesOf step.relations

namespace ElementBlock

/- The numbered statements below an element. -/
def steps (block : ElementBlock) : List NumberedEntry :=
  match block.reconstruction with
  | some r => r.statements
  | none => []

/- An element and the occurrences below it. -/
def entries (block : ElementBlock) : List Entry :=
  block.element
    :: (block.steps.flatMap NumberedEntry.entries
      ++ RelationEntry.entriesOf block.relations)

end ElementBlock

/- The occurrences in a block. -/
def Block.entries : Block → List Entry
| .heading _ => []
| .element block => block.entries

------------------------------------------------------------
-- Numbers of Occurrences
------------------------------------------------------------

/- How many occurrences are statements. -/
def statementCount (entries : List Entry) : Nat :=
  entries.countP (fun entry => !entry.isArgument)

/- How many occurrences are arguments without title. -/
def untitledCount (entries : List Entry) : Nat :=
  entries.countP
    (fun entry => entry.isArgument && entry.title.isNone)

/- Statements are counted one part after the other. -/
@[simp]
theorem statementCount_append (es fs : List Entry) :
    statementCount (es ++ fs) =
      statementCount es + statementCount fs :=
  List.countP_append

/- So are arguments without title. -/
@[simp]
theorem untitledCount_append (es fs : List Entry) :
    untitledCount (es ++ fs) =
      untitledCount es + untitledCount fs :=
  List.countP_append

/- Numbered statements are statements. -/
theorem statementCount_steps_pos
    {steps : List NumberedEntry}
    (hSome : steps ≠ []) :
    0 < statementCount
      (steps.flatMap NumberedEntry.entries) := by
  rcases List.exists_cons_of_ne_nil hSome with
    ⟨step, rest, rfl⟩
  apply List.countP_pos_iff.mpr
  exact
    ⟨.statement step.statement, List.mem_cons_self, rfl⟩

------------------------------------------------------------
-- Premise-Conclusion Structures
------------------------------------------------------------

/-
  The title of an argument after a number of arguments without
  title.
-/
def ArgumentEntry.titleAfter
    (number : Nat)
    (entry : ArgumentEntry) : String :=
  entry.title.getD (Builder.untitled (number + 1))

/-
  The title of the argument in a block that has numbered
  statements.
-/
def Block.reconstructed (number : Nat) :
    Block → List String
| .heading _ => []
| .element block =>
    match block.element with
    | .statement _ => []
    | .argument entry =>
        if block.steps.isEmpty then []
        else [entry.titleAfter number]

/- A block has at most one argument with such statements. -/
theorem Block.reconstructed_nodup
    (number : Nat)
    (block : Block) :
    (block.reconstructed number).Nodup := by
  rcases block with heading | ⟨element, _, reconstruction, _⟩
  · exact List.nodup_nil
  · cases element with
    | statement entry => exact List.nodup_nil
    | argument entry =>
        unfold reconstructed
        simp only
        split
        · exact List.nodup_nil
        · exact List.pairwise_singleton _ _

/- The titles of all arguments with numbered statements. -/
def reconstructedIn : (number : Nat) → List Block → List String
| _, [] => []
| number, block :: blocks =>
    block.reconstructed number
      ++ reconstructedIn (number + untitledCount block.entries)
        blocks

/- Numbered statements stand below arguments only. -/
def Block.StepsBelowArgument : Block → Prop
| .heading _ => True
| .element block =>
    block.element.isArgument = false → block.steps = []

/-
  Numbered statements stand below arguments only, and below no
  two occurrences of one argument.
-/
structure Document.EachReconstructedOnce (d : Document) :
    Prop where
  arguments : ∀ block ∈ d.blocks, block.StepsBelowArgument
  once : (reconstructedIn 0 d.blocks).Nodup

end Dialectic
