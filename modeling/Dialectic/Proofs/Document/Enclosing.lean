import Dialectic.Proofs.Document.Entries
import Dialectic.Proofs.Source.Range

/-
  The parts of a text that a document and its elements cover,
  and how they lie in each other.

  Key definitions include:
    * `Span.Holds`
    * `RelationEntry.nodes`
    * `RelationEntry.Encloses`
    * `Reconstruction.Encloses`
    * `Block.Encloses`

  Main theorems:
    * `RelationEntry.nested_node`
    * `RelationEntry.Nested.enclosed`
-/

namespace Dialectic

------------------------------------------------------------
-- Parts
------------------------------------------------------------

/-
  A part of a text lies in another one, and it starts no later
  than it stops.
-/
structure Span.Holds (outer s : Span) : Prop where
  proper : s.start ≤ s.stop
  within : s.Within outer

/- What lies in a part lies in a larger one. -/
theorem Span.Holds.of_within
    {outer wider s : Span}
    (hHolds : outer.Holds s)
    (hWithin : outer.Within wider) :
    wider.Holds s :=
  ⟨hHolds.proper, hHolds.within.trans hWithin⟩

/- A part that is in order lies in itself. -/
theorem Span.holds_self
    {s : Span}
    (hProper : s.start ≤ s.stop) :
    s.Holds s :=
  ⟨hProper, .refl s⟩

------------------------------------------------------------
-- Relations
------------------------------------------------------------

namespace RelationEntry

mutual

/- A relation line and those below it. -/
def nodes : RelationEntry → List RelationEntry
| ⟨marker, target, children, span⟩ =>
    ⟨marker, target, children, span⟩ :: nodesOf children

/- Some relation lines and those below them. -/
def nodesOf : List RelationEntry → List RelationEntry
| [] => []
| tree :: trees => tree.nodes ++ nodesOf trees

end

variable {node tree : RelationEntry}
variable {trees : List RelationEntry}

/- Lines below some lines are below one of them. -/
theorem mem_nodesOf :
    node ∈ nodesOf trees ↔
      ∃ tree ∈ trees, node ∈ tree.nodes := by
  induction trees with
  | nil => simp [nodesOf]
  | cons tree trees ih => simp [nodesOf, ih]

/- The target of a relation and those below it lie in it. -/
structure Encloses (node : RelationEntry) : Prop where
  target : node.span.Holds node.target.span
  children : ∀ child ∈ node.children,
    node.span.Holds child.span

/- All that is below a relation line lies in it. -/
def Nested (tree : RelationEntry) : Prop :=
  ∀ node ∈ tree.nodes,
    tree.span.Holds node.span ∧ node.Encloses

/- What is below some relations in a part lies in that part. -/
theorem Nested.enclosed
    {outer : Span}
    (hTrees : ∀ tree ∈ trees, tree.Nested)
    (hOuter : ∀ tree ∈ trees, outer.Holds tree.span) :
    ∀ node ∈ nodesOf trees,
      outer.Holds node.span ∧ node.Encloses := by
  intro node hNode
  rcases mem_nodesOf.mp hNode with ⟨tree, hTree, hBelow⟩
  rcases hTrees tree hTree node hBelow with ⟨hHolds, hNode⟩
  exact ⟨hHolds.of_within (hOuter tree hTree).within, hNode⟩

/- A line is nested if it encloses lines that are. -/
theorem nested_node
    {marker : Marker}
    {target : Entry}
    {children : List RelationEntry}
    {span : Span}
    (hTarget : span.Holds target.span)
    (hChildren : ∀ child ∈ children, span.Holds child.span)
    (hBelow : ∀ child ∈ children, child.Nested) :
    Nested ⟨marker, target, children, span⟩ := by
  have hProper : span.start ≤ span.stop :=
    hTarget.within.start.trans
      (hTarget.proper.trans hTarget.within.stop)
  intro node hNode
  rw [nodes] at hNode
  rcases List.mem_cons.mp hNode with rfl | hLater
  · exact ⟨Span.holds_self hProper, hTarget, hChildren⟩
  · exact Nested.enclosed hBelow hChildren node hLater

end RelationEntry

------------------------------------------------------------
-- Blocks
------------------------------------------------------------

/-
  The lines of a premise-conclusion structure and all relations
  below them lie in it.
-/
structure Reconstruction.Encloses (r : Reconstruction) :
    Prop where
  items : ∀ item ∈ r.items, ∀ part ∈ item.spans,
    r.span.Holds part
  relations : ∀ step ∈ r.statements,
    ∀ node ∈ RelationEntry.nodesOf step.relations,
      r.span.Holds node.span ∧ node.Encloses

/-
  The element of a block, all relations below it and its
  structure lie in the block.
-/
structure ElementBlock.Encloses (block : ElementBlock) :
    Prop where
  element : block.span.Holds block.element.span
  relations : ∀ node ∈ RelationEntry.nodesOf block.relations,
    block.span.Holds node.span ∧ node.Encloses
  reconstruction : ∀ r, block.reconstruction = some r →
    block.span.Holds r.span ∧ r.Encloses

/- The part of a text that a block covers. -/
def Block.span : Block → Span
| .heading h => h.span
| .element block => block.span

/-
  A block starts no later than it stops, and what belongs to it
  lies in it.
-/
def Block.Encloses : Block → Prop
| .heading h => h.span.start ≤ h.span.stop
| .element block => block.Encloses

/- What is in a block of a smaller part is in that of a larger. -/
theorem ElementBlock.Encloses.of_within
    {element : Entry}
    {related : List RelationEntry}
    {r? : Option Reconstruction}
    {span wider : Span}
    (hBlock : Encloses ⟨element, related, none, span⟩)
    (hWithin : span.Within wider)
    (hReconstruction : ∀ r, r? = some r →
      wider.Holds r.span ∧ r.Encloses) :
    Encloses ⟨element, related, r?, wider⟩ := by
  refine
    ⟨hBlock.element.of_within hWithin, fun node hNode => ?_,
      hReconstruction⟩
  rcases hBlock.relations node hNode with ⟨hHolds, hNode⟩
  exact ⟨hHolds.of_within hWithin, hNode⟩

/- Each block starts no later than it stops. -/
theorem Block.Encloses.proper
    {block : Block}
    (hBlock : block.Encloses) :
    block.span.start ≤ block.span.stop := by
  cases block with
  | heading h => exact hBlock
  | element block =>
      have hElement := hBlock.element
      exact
        hElement.within.start.trans
          (hElement.proper.trans hElement.within.stop)

end Dialectic
