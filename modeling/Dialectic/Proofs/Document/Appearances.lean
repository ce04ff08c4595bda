import Dialectic.Proofs.Document.SourceOrder

/-
  Where the elements of a document appear.  They are recorded
  in order, but for the structure of an argument, which is
  recorded before the relations that stand above it.

  Key definitions include:
    * `Numbering`
    * `Entry.elementAfter`
    * `appearancesAfter`
    * `Document.appearances`
    * `Document.forestalled`
    * `FirstLeast`

  Main theorems:
    * `appearancesAfter_append`
    * `FirstLeast.append`
    * `firstLeast_block`
    * `firstLeast_blocks`
    * `Document.firstLeast_appearances`
-/

namespace Dialectic

------------------------------------------------------------
-- Appearances
------------------------------------------------------------

/- How many elements without title there were. -/
structure Numbering where
  statements : Nat
  arguments : Nat
deriving DecidableEq, Repr

/- Occurrences without title count. -/
def Numbering.next (n : Numbering) : Entry → Numbering
| .statement entry =>
    if entry.title.isNone then
      { n with statements := n.statements + 1 }
    else
      n
| .argument entry =>
    if entry.title.isNone then
      { n with arguments := n.arguments + 1 }
    else
      n

/- The numbers of elements without title after some. -/
def Numbering.after
    (n : Numbering)
    (entries : List Entry) : Numbering :=
  entries.foldl Numbering.next n

/-
  The element of an occurrence after a number of elements
  without title.
-/
def Entry.elementAfter (n : Numbering) : Entry → Element
| .statement entry =>
    .statement
      (entry.title.getD (Builder.untitled (n.statements + 1)))
| .argument entry => .argument (entry.titleAfter n.arguments)

/- The elements of some occurrences, and where these start. -/
def appearancesAfter :
    Numbering → List Entry → List (Element × Nat)
| _, [] => []
| n, entry :: entries =>
    (entry.elementAfter n, entry.span.start.offset)
      :: appearancesAfter (n.next entry) entries

/- The elements of some occurrences. -/
def elementsAfter (n : Numbering) (entries : List Entry) :
    List Element :=
  (appearancesAfter n entries).map Prod.fst

/- The elements of a document, and where they occur. -/
def Document.appearances (d : Document) :
    List (Element × Nat) :=
  appearancesAfter ⟨0, 0⟩ (d.blocks.flatMap Block.entries)

/- Occurrences are numbered one part after the other. -/
theorem Numbering.after_append
    (n : Numbering)
    (es fs : List Entry) :
    n.after (es ++ fs) = (n.after es).after fs :=
  List.foldl_append

/- Elements appear one part after the other. -/
theorem appearancesAfter_append
    (n : Numbering)
    (es fs : List Entry) :
    appearancesAfter n (es ++ fs) =
      appearancesAfter n es
        ++ appearancesAfter (n.after es) fs := by
  induction es generalizing n with
  | nil => rfl
  | cons e es ih =>
      simp only [List.cons_append, appearancesAfter, ih]
      rfl

/- The offsets of appearances are those of the occurrences. -/
theorem appearancesAfter_offsets
    (n : Numbering)
    (entries : List Entry) :
    (appearancesAfter n entries).map Prod.snd =
      offsetsOf entries := by
  induction entries generalizing n with
  | nil => rfl
  | cons entry entries ih =>
      simp only [appearancesAfter, List.map_cons, ih]
      rfl

------------------------------------------------------------
-- Parts of Blocks
------------------------------------------------------------

namespace Block

/- The element at the top of a block. -/
def own : Block → List Entry
| .heading _ => []
| .element block => [block.element]

/- The elements of the structure in a block. -/
def structured : Block → List Entry
| .heading _ => []
| .element block => block.steps.flatMap NumberedEntry.entries

/- The elements on the relation lines of a block. -/
def related : Block → List Entry
| .heading _ => []
| .element block => RelationEntry.entriesOf block.relations

/- The parts of a block in the order in which it is recorded. -/
theorem entries_eq (block : Block) :
    block.entries =
      block.own ++ (block.structured ++ block.related) := by
  cases block <;> rfl

/- The parts of a block in the order of the source text. -/
theorem offsets_eq (block : Block) :
    block.offsets =
      offsetsOf block.own
        ++ (offsetsOf block.related
          ++ offsetsOf block.structured) := by
  cases block <;> rfl

/- Blocks have the same offsets in either order. -/
theorem offsetsOf_entries_perm (block : Block) :
    (offsetsOf block.entries).Perm block.offsets := by
  rw [entries_eq, offsets_eq]
  simp only [offsetsOf, List.map_append]
  exact List.perm_append_comm.append_left _

/-
  The elements of a block that appear first on a relation line
  and then in the structure, after those that have been seen.
-/
def forestalled
    (n : Numbering)
    (seen : List Element)
    (block : Block) : List Element :=
  let top := n.after block.own
  let below := top.after block.structured
  (elementsAfter top block.structured).filter
    (fun e =>
      (elementsAfter below block.related).contains e
        && !(seen ++ elementsAfter n block.own).contains e)

end Block

/-
  The elements of some blocks that are forestalled, after those
  that have been seen.
-/
def forestalledAfter :
    (n : Numbering) →
    (seen : List Element) →
    List Block →
    List Element
| _, _, [] => []
| n, seen, block :: blocks =>
    block.forestalled n seen
      ++ forestalledAfter (n.after block.entries)
          (seen ++ elementsAfter n block.entries) blocks

/-
  The elements of a document that appear first on a relation
  line and then in the structure of the same block.
-/
def Document.forestalled (d : Document) : List Element :=
  forestalledAfter ⟨0, 0⟩ [] d.blocks

------------------------------------------------------------
-- First Appearances
------------------------------------------------------------

/-
  Of all appearances of an element that has not been seen, the
  first one in a list is at the smallest offset.
-/
def FirstLeast
    (seen : List Element)
    (appearances : List (Element × Nat)) : Prop :=
  ∀ e, e ∉ seen → ∀ first offset,
    appearances.lookup e = some first →
      (e, offset) ∈ appearances → first ≤ offset

/- An appearance that is looked up is in the list. -/
theorem mem_of_lookup
    {appearances : List (Element × Nat)}
    {e : Element}
    {offset : Nat}
    (hFound : appearances.lookup e = some offset) :
    (e, offset) ∈ appearances := by
  induction appearances with
  | nil => cases hFound
  | cons appearance appearances ih =>
      rcases appearance with ⟨other, here⟩
      rw [List.lookup_cons] at hFound
      by_cases hSame : e = other
      · subst hSame
        simp only [beq_self_eq_true, Option.some.injEq]
          at hFound
        simp [hFound]
      · have hNot : (e == other) = false := by simpa using hSame
        simp only [hNot] at hFound
        exact List.mem_cons_of_mem _ (ih hFound)

/- An element without appearances is not in the list. -/
theorem not_mem_of_lookup
    {appearances : List (Element × Nat)}
    {e : Element}
    (hNone : appearances.lookup e = none) :
    e ∉ appearances.map Prod.fst := by
  induction appearances with
  | nil => simp
  | cons appearance appearances ih =>
      rcases appearance with ⟨other, here⟩
      rw [List.lookup_cons] at hNone
      by_cases hSame : e = other
      · subst hSame
        simp at hNone
      · have hNot : (e == other) = false := by simpa using hSame
        simp only [hNot] at hNone
        simpa [hSame] using ih hNone

/- In order, the first appearance is at the smallest offset. -/
theorem firstLeast_of_sorted
    (seen : List Element)
    {appearances : List (Element × Nat)}
    (hSorted : (appearances.map Prod.snd).Pairwise (· ≤ ·)) :
    FirstLeast seen appearances := by
  intro e _ first offset hFound hMem
  induction appearances with
  | nil => cases hFound
  | cons appearance appearances ih =>
      rcases appearance with ⟨other, here⟩
      rw [List.map_cons, List.pairwise_cons] at hSorted
      rw [List.lookup_cons] at hFound
      by_cases hSame : e = other
      · subst hSame
        simp only [beq_self_eq_true, Option.some.injEq]
          at hFound
        subst hFound
        rcases List.mem_cons.mp hMem with hHere | hLater
        · cases hHere
          exact Nat.le_refl _
        · exact
            hSorted.1 offset
              (List.mem_map.mpr ⟨_, hLater, rfl⟩)
      · have hNot : (e == other) = false := by simpa using hSame
        simp only [hNot] at hFound
        rcases List.mem_cons.mp hMem with hHere | hLater
        · cases hHere
          exact (hSame rfl).elim
        · exact ih hSorted.2 hFound hLater

/- Appearances follow each other if the first are smaller. -/
theorem FirstLeast.append
    {seen : List Element}
    {as bs : List (Element × Nat)}
    (hFirst : FirstLeast seen as)
    (hSecond : FirstLeast (seen ++ as.map Prod.fst) bs)
    (hApart : ∀ e, e ∉ seen → ∀ first offset,
      (e, first) ∈ as → (e, offset) ∈ bs → first ≤ offset) :
    FirstLeast seen (as ++ bs) := by
  intro e hNew first offset hFound hMem
  rw [List.lookup_append] at hFound
  cases hHere : as.lookup e with
  | some p =>
      rw [hHere] at hFound
      cases hFound
      rcases List.mem_append.mp hMem with hMem | hMem
      · exact hFirst e hNew first offset hHere hMem
      · exact
          hApart e hNew first offset (mem_of_lookup hHere) hMem
  | none =>
      rw [hHere] at hFound
      have hNone := not_mem_of_lookup hHere
      rcases List.mem_append.mp hMem with hMem | hMem
      · exact
          (hNone (List.mem_map.mpr ⟨_, hMem, rfl⟩)).elim
      · have hNotSeen : e ∉ seen ++ as.map Prod.fst := by
          rw [List.mem_append, not_or]
          exact ⟨hNew, hNone⟩
        exact hSecond e hNotSeen first offset hFound hMem

/- Elements that appear start at the offsets of occurrences. -/
theorem offset_mem
    {n : Numbering}
    {entries : List Entry}
    {e : Element}
    {offset : Nat}
    (hMem : (e, offset) ∈ appearancesAfter n entries) :
    offset ∈ offsetsOf entries := by
  rw [← appearancesAfter_offsets n entries]
  exact List.mem_map.mpr ⟨_, hMem, rfl⟩

/- Occurrences in order are first at the smallest offset. -/
theorem firstLeast_entries
    (n : Numbering)
    (seen : List Element)
    {entries : List Entry}
    (hOrder : (offsetsOf entries).Pairwise (· ≤ ·)) :
    FirstLeast seen (appearancesAfter n entries) := by
  apply firstLeast_of_sorted
  rw [appearancesAfter_offsets]
  exact hOrder

/-
  In a block in which no element is forestalled, the first
  recorded appearance of each one is at the smallest offset.
-/
theorem firstLeast_block
    {n : Numbering}
    {seen : List Element}
    {block : Block}
    (hOrder : block.offsets.Pairwise (· ≤ ·))
    (hNone : block.forestalled n seen = []) :
    FirstLeast seen (appearancesAfter n block.entries) := by
  rw [Block.offsets_eq, List.pairwise_append] at hOrder
  rcases hOrder with ⟨hOwn, hBelow, hOwnFirst⟩
  rcases List.pairwise_append.mp hBelow with
    ⟨hRelated, hStructured, _⟩
  rw [Block.entries_eq, appearancesAfter_append,
    appearancesAfter_append]
  apply (firstLeast_entries n seen hOwn).append
  · apply (firstLeast_entries _ _ hStructured).append
      (firstLeast_entries _ _ hRelated)
    -- an element of both parts would be forestalled
    intro e hNew first offset hFirst hOffset
    have hStep :
        e ∈ elementsAfter (n.after block.own)
          block.structured :=
      List.mem_map.mpr ⟨_, hFirst, rfl⟩
    have hLine :
        e ∈ elementsAfter
          ((n.after block.own).after block.structured)
          block.related :=
      List.mem_map.mpr ⟨_, hOffset, rfl⟩
    have hKept := List.filter_eq_nil_iff.mp hNone e hStep
    simp only [Bool.and_eq_true, Bool.not_eq_true',
      List.contains_eq_mem, decide_eq_true_eq,
      decide_eq_false_iff_not, not_and, not_not] at hKept
    exact (hNew (hKept hLine)).elim
  · intro e _ first offset hFirst hOffset
    apply hOwnFirst first (offset_mem hFirst)
    rcases List.mem_append.mp hOffset with hSteps | hLines
    · exact List.mem_append_right _ (offset_mem hSteps)
    · exact List.mem_append_left _ (offset_mem hLines)

/-
  If the elements of some blocks are in order and none is
  forestalled, the first recorded appearance of each one is at
  the smallest offset.
-/
theorem firstLeast_blocks
    {n : Numbering}
    {seen : List Element}
    {blocks : List Block}
    (hOrder : (blocks.flatMap Block.offsets).Pairwise (· ≤ ·))
    (hNone : forestalledAfter n seen blocks = []) :
    FirstLeast seen
      (appearancesAfter n (blocks.flatMap Block.entries)) := by
  induction blocks generalizing n seen with
  | nil =>
      intro e _ first offset hFound
      cases hFound
  | cons block blocks ih =>
      rw [List.flatMap_cons, List.pairwise_append] at hOrder
      rcases hOrder with ⟨hBlock, hRest, hBlockFirst⟩
      rcases List.append_eq_nil_iff.mp hNone with
        ⟨hHere, hLater⟩
      rw [List.flatMap_cons, appearancesAfter_append]
      apply (firstLeast_block hBlock hHere).append
        (ih hRest hLater)
      intro e _ first offset hFirst hOffset
      apply hBlockFirst first
      · exact
          (Block.offsetsOf_entries_perm block).subset
            (offset_mem hFirst)
      · rcases List.mem_map.mp (offset_mem hOffset) with
          ⟨entry, hEntry, rfl⟩
        rcases List.mem_flatMap.mp hEntry with
          ⟨other, hOther, hThere⟩
        refine List.mem_flatMap.mpr ⟨other, hOther, ?_⟩
        exact
          (Block.offsetsOf_entries_perm other).subset
            (List.mem_map.mpr ⟨entry, hThere, rfl⟩)

/-
  In a document that has been read, the first recorded
  appearance of an element that is not forestalled is at the
  smallest offset.
-/
theorem Document.firstLeast_appearances
    {d : Document}
    (hOrder : d.InSourceOrder)
    (hNone : d.forestalled = []) :
    FirstLeast [] d.appearances :=
  firstLeast_blocks hOrder hNone

end Dialectic
