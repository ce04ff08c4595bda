import Dialectic.Proofs.Data.Numbering
import Dialectic.Proofs.Document.Appearances
import Mathlib.Data.List.Induction

/-
  The titles of the occurrences that are recorded of a document.
  One without a title gets the next one that is generated, which
  may also be written in the document.

  Key definitions include:
    * `Naming`
    * `Document.recorded`
    * `Document.namings`
    * `Document.generated`
    * `Document.Mixed`

  Main theorems:
    * `Numbering.generated_nodup`
    * `untitled_perm`
    * `Document.untitled_apart`
    * `Document.mem_generated`
    * `Document.mixed_iff`
-/

namespace Dialectic

------------------------------------------------------------
-- Titles of Occurrences
------------------------------------------------------------

/- An occurrence and the element that it stands for. -/
structure Naming where
  entry : Entry
  element : Element
deriving DecidableEq, Repr

/- The occurrence has no title in the document. -/
def Naming.untitled (x : Naming) : Bool :=
  x.entry.title.isNone

/- What an occurrence says about its argument. -/
def Naming.says?
    (withoutTags : Bool)
    (x : Naming) : Option String :=
  match x.entry with
  | .statement _ => none
  | .argument entry =>
      entry.description.map
        (Builder.cleanText withoutTags entry.tags)

/- What some occurrences stand for. -/
def namingsAfter : Numbering → List Entry → List Naming
| _, [] => []
| n, entry :: entries =>
    ⟨entry, entry.elementAfter n⟩
      :: namingsAfter (n.next entry) entries

/- The elements whose titles have been generated. -/
def Numbering.generated (n : Numbering) : List Element :=
  (List.range n.statements).map
      (fun i => .statement (Builder.untitled (i + 1)))
    ++ (List.range n.arguments).map
      (fun i => .argument (Builder.untitled (i + 1)))

variable {n : Numbering}

/- Occurrences are named one part after the other. -/
theorem namingsAfter_append (es fs : List Entry) :
    namingsAfter n (es ++ fs) =
      namingsAfter n es ++ namingsAfter (n.after es) fs := by
  induction es generalizing n with
  | nil => rfl
  | cons e es ih =>
      simp only [List.cons_append, namingsAfter, ih]
      rfl

/- What occurrences stand for appears where they start. -/
theorem namingsAfter_appearances (es : List Entry) :
    (namingsAfter n es).map
        (fun x => (x.element, x.entry.span.start.offset)) =
      appearancesAfter n es := by
  induction es generalizing n with
  | nil => rfl
  | cons e es ih =>
      simp only [namingsAfter, appearancesAfter, List.map_cons,
        ih]

/- Titles of different numbers are different. -/
theorem untitled_inj
    {i j : Nat}
    (hSame : Builder.untitled i = Builder.untitled j) :
    i = j :=
  toString_inj ((String.append_right_inj _).mp hSame)

/- No title is generated twice. -/
theorem Numbering.generated_nodup (n : Numbering) :
    n.generated.Nodup := by
  refine List.nodup_append.mpr ⟨?_, ?_, ?_⟩
  · refine List.nodup_range.map (fun i j hSame => ?_)
    have hTitle := Element.statement.inj hSame
    exact Nat.succ.inj (untitled_inj hTitle)
  · refine List.nodup_range.map (fun i j hSame => ?_)
    have hTitle := Element.argument.inj hSame
    exact Nat.succ.inj (untitled_inj hTitle)
  · rintro e hStatement f hArgument rfl
    rcases List.mem_map.mp hStatement with ⟨i, _, rfl⟩
    rcases List.mem_map.mp hArgument with ⟨j, _, hSame⟩
    cases hSame

/- An occurrence without a title gets the next one. -/
theorem Numbering.generated_next
    (n : Numbering)
    (entry : Entry) :
    (n.next entry).generated.Perm
      (n.generated
        ++ if entry.title.isNone then [entry.elementAfter n]
          else []) := by
  cases entry with
  | statement entry =>
      cases hTitle : entry.title with
      | some title =>
          simp [next, Entry.title, hTitle]
      | none =>
          simp only [next, Entry.title, hTitle, generated,
            Option.isNone_none, if_true, Entry.elementAfter,
            Option.getD_none, List.range_succ, List.map_append,
            List.map_cons, List.map_nil, List.append_assoc]
          exact List.perm_append_comm.append_left _
  | argument entry =>
      cases hTitle : entry.title with
      | some title =>
          simp [next, Entry.title, hTitle]
      | none =>
          simp [next, Entry.title, hTitle, generated,
            Entry.elementAfter, ArgumentEntry.titleAfter,
            List.range_succ]

/- Occurrences without a title stand for what is generated. -/
theorem untitled_perm (es : List Entry) :
    (((namingsAfter ⟨0, 0⟩ es).filter Naming.untitled).map
        Naming.element).Perm
      ((⟨0, 0⟩ : Numbering).after es).generated := by
  induction es using List.reverseRecOn with
  | nil => exact .nil
  | append_singleton es e ih =>
      have hNext :=
        Numbering.generated_next
          ((⟨0, 0⟩ : Numbering).after es) e
      rw [namingsAfter_append, Numbering.after_append,
        List.filter_append, List.map_append]
      refine (ih.append_right _).trans (.trans ?_ hNext.symm)
      refine .append_left _ ?_
      cases hTitle : e.title <;>
        simp [namingsAfter, Naming.untitled, hTitle]

------------------------------------------------------------
-- Occurrences That Are Recorded
------------------------------------------------------------

/-
  The occurrences in a block that are recorded.  Its numbered
  statements are left out if they stand below no argument, or
  below one of `done`, which have got theirs already.
-/
def Block.recorded
    (n : Numbering)
    (done : List String)
    (block : Block) : List Entry :=
  let isNew :=
    (block.reconstructed n.arguments).any
      (fun title => !done.contains title)
  block.own
    ++ ((if isNew then block.structured else [])
      ++ block.related)

/- The occurrences in some blocks that are recorded. -/
def recordedAfter :
    (n : Numbering) →
    (done : List String) →
    List Block →
    List Entry
| _, _, [] => []
| n, done, block :: blocks =>
    block.recorded n done
      ++ recordedAfter (n.after (block.recorded n done))
        (done ++ block.reconstructed n.arguments) blocks

/- Arguments without title are counted. -/
theorem Numbering.after_arguments
    (n : Numbering)
    (es : List Entry) :
    (n.after es).arguments = n.arguments + untitledCount es := by
  induction es generalizing n with
  | nil => rfl
  | cons e es ih =>
      have hFirst : n.after (e :: es) = (n.next e).after es := rfl
      have hCount :
          untitledCount (e :: es) =
            untitledCount [e] + untitledCount es :=
        untitledCount_append [e] es
      have hNext :
          (n.next e).arguments =
            n.arguments + untitledCount [e] := by
        cases e with
        | statement entry =>
            cases hTitle : entry.title <;>
              simp [next, untitledCount, Entry.isArgument, hTitle]
        | argument entry =>
            cases hTitle : entry.title <;>
              simp [next, untitledCount, Entry.isArgument,
                Entry.title, hTitle]
      rw [hFirst, ih, hNext, hCount, Nat.add_assoc]

/- A block is recorded if its argument has got nothing yet. -/
theorem Block.recorded_eq
    {done : List String}
    {block : Block}
    (hBelow : block.StepsBelowArgument)
    (hNew : ∀ title ∈ block.reconstructed n.arguments,
      title ∉ done) :
    block.recorded n done = block.entries := by
  rcases block with heading | block
  · rfl
  rw [entries_eq, recorded]
  cases hSteps : block.steps with
  | nil => simp [structured, hSteps]
  | cons step steps =>
      -- numbered statements stand below an argument
      rcases block with ⟨entry | entry, _, _, _⟩
      · have hNone := hBelow rfl
        rw [hSteps] at hNone
        cases hNone
      · have hTitle : entry.titleAfter n.arguments ∉ done :=
          hNew _ (by simp [reconstructed, hSteps])
        simp [reconstructed, hSteps, hTitle]

/- So are blocks of which no two have the same argument. -/
theorem recordedAfter_eq
    {done : List String}
    {blocks : List Block}
    (hBelow : ∀ block ∈ blocks, block.StepsBelowArgument)
    (hOnce : (reconstructedIn n.arguments blocks).Nodup)
    (hNew : ∀ title ∈ reconstructedIn n.arguments blocks,
      title ∉ done) :
    recordedAfter n done blocks =
      blocks.flatMap Block.entries := by
  induction blocks generalizing n done with
  | nil => rfl
  | cons block blocks ih =>
      rcases List.forall_mem_cons.mp hBelow with
        ⟨hFirst, hLater⟩
      rcases List.nodup_append.mp hOnce with
        ⟨_, hRest, hApart⟩
      have hHere :
          block.recorded n done = block.entries :=
        Block.recorded_eq hFirst (fun title hTitle =>
          hNew title (List.mem_append_left _ hTitle))
      rw [← Numbering.after_arguments] at hRest hApart
      rw [recordedAfter, hHere, List.flatMap_cons]
      refine congrArg _ (ih hLater hRest ?_)
      intro title hTitle hOld
      rcases List.mem_append.mp hOld with hDone | hBlock
      · rw [Numbering.after_arguments] at hTitle
        exact
          hNew title (List.mem_append_right _ hTitle) hDone
      · exact hApart title hBlock title hTitle rfl

namespace Document

/- The occurrences in a document that are recorded. -/
def recorded (d : Document) : List Entry :=
  recordedAfter ⟨0, 0⟩ [] d.blocks

/- What the recorded occurrences stand for. -/
def namings (d : Document) : List Naming :=
  namingsAfter ⟨0, 0⟩ d.recorded

/- The elements of a document whose titles are generated. -/
def generated (d : Document) : List Element :=
  ((⟨0, 0⟩ : Numbering).after d.recorded).generated

/- Recorded occurrences are in the document, in this order. -/
theorem recorded_sublist (d : Document) :
    d.recorded.Sublist (d.blocks.flatMap Block.entries) := by
  have hBlock : ∀ n done (block : Block),
      (block.recorded n done).Sublist block.entries := by
    intro n done block
    rw [Block.entries_eq]
    unfold Block.recorded
    refine .append_left (.append_right ?_ _) _
    split
    · exact .refl _
    · exact List.nil_sublist _
  have hAll : ∀ (blocks : List Block) n done,
      (recordedAfter n done blocks).Sublist
        (blocks.flatMap Block.entries) := by
    intro blocks
    induction blocks with
    | nil => exact fun _ _ => .refl _
    | cons block blocks ih =>
        exact fun n done => (hBlock n done block).append (ih _ _)
  exact hAll d.blocks _ _

/- All of them are recorded if no argument is repeated. -/
theorem recorded_eq
    {d : Document}
    (hOnce : d.EachReconstructedOnce) :
    d.recorded = d.blocks.flatMap Block.entries :=
  recordedAfter_eq hOnce.arguments hOnce.once
    (fun _ _ => List.not_mem_nil)

/- No two occurrences without a title stand for the same. -/
theorem untitled_apart (d : Document) :
    (d.namings.filter Naming.untitled).Pairwise
      (fun x y => x.element ≠ y.element) := by
  have hNodup :=
    (untitled_perm d.recorded).nodup_iff.mpr
      (Numbering.generated_nodup _)
  exact List.pairwise_map.mp hNodup

/- What is generated stands for an occurrence without a title. -/
theorem mem_generated {d : Document} {e : Element} :
    e ∈ d.generated ↔
      ∃ x ∈ d.namings, x.untitled = true ∧ x.element = e := by
  rw [generated, ← (untitled_perm d.recorded).mem_iff]
  simp [namings, and_assoc]

/- Occurrences with and without a title stand for an element. -/
def Mixed (d : Document) (e : Element) : Prop :=
  ∃ x ∈ d.namings, ∃ y ∈ d.namings,
    x.untitled = true ∧ x.element = e ∧
      y.untitled = false ∧ y.element = e

/- They do if its title is written and generated. -/
theorem mixed_iff {d : Document} {e : Element} :
    d.Mixed e ↔
      e ∈ d.generated ∧
        ∃ y ∈ d.namings, y.untitled = false ∧ y.element = e := by
  rw [mem_generated]
  constructor
  · rintro ⟨x, hx, y, hy, hUntitled, hThis, hOther⟩
    exact ⟨⟨x, hx, hUntitled, hThis⟩, y, hy, hOther⟩
  · rintro ⟨⟨x, hx, hUntitled, hThis⟩, y, hy, hOther⟩
    exact ⟨x, hx, y, hy, hUntitled, hThis, hOther⟩

end Document

end Dialectic
