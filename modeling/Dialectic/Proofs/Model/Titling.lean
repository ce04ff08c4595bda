import Dialectic.Document.Parser
import Dialectic.Notation.Yaml.Reader
import Dialectic.Proofs.Model.History
import Dialectic.Proofs.Model.Integrity

/-
  Which occurrences share a class or an argument of the model of
  a document.  No two without a title do, and one without a
  title shares it with one that has a title exactly if that
  title is generated, too.

  Key definitions include:
    * `Model.marked?`
    * `Model.Reflects`
    * `Model.Holds`

  Main theorems:
    * `Builder.Records.reflects`
    * `Model.build_holds`
    * `Model.build_titles`
-/

namespace Dialectic

namespace Model

------------------------------------------------------------
-- Models That Reflect Occurrences
------------------------------------------------------------

/-
  Whether the class of a title is marked after some occurrences,
  if there is one: one of them has no title.
-/
def marked? (nodes : List Naming) (title : String) :
    Option Bool :=
  let there :=
    nodes.filter (fun x => x.element == .statement title)
  if there.isEmpty then none
  else some (there.any Naming.untitled)

/- The last occurrence counts for the class that it is in. -/
theorem marked?_snoc
    (nodes : List Naming)
    (x : Naming)
    (title : String) :
    marked? (nodes ++ [x]) title =
      if x.element = .statement title then
        some ((marked? nodes title).getD false || x.untitled)
      else
        marked? nodes title := by
  unfold marked?
  by_cases hHere : x.element = .statement title
  · by_cases hNone :
        nodes.filter (fun y => y.element == .statement title) =
          []
    · simp [List.filter_append, hHere, hNone]
    · simp [List.filter_append, hHere, hNone]
  · simp [List.filter_append, hHere]

variable {m n : Model}

/-
  A model reflects some occurrences: it has the classes that
  they stand for and marks those that one without a title
  stands for, and an argument is said to be what they say.
-/
structure Reflects
    (m : Model)
    (withoutTags : Bool)
    (nodes : List Naming) : Prop where
  classes : ∀ title, m.autoTitled? title = marked? nodes title
  arguments : ∀ title text,
    text ∈ m.described title ↔
      ∃ x ∈ nodes,
        x.element = .argument title ∧
          x.says? withoutTags = some text

/- What leaves the marks reflects the same occurrences. -/
theorem SameMarks.reflects
    {withoutTags : Bool}
    {nodes : List Naming}
    (hSame : SameMarks m n)
    (hReflects : m.Reflects withoutTags nodes) :
    n.Reflects withoutTags nodes := by
  constructor
  · exact fun title =>
      (hSame.classes title).trans (hReflects.classes title)
  · intro title text
    rw [hSame.arguments]
    exact hReflects.arguments title text

end Model

namespace Builder

------------------------------------------------------------
-- Occurrences That Are Reflected
------------------------------------------------------------

variable {withoutTags : Bool}
variable {b c d : Builder} {es fs : List Entry}

/- A statement without a title marks its class. -/
theorem addStatement_mark
    (withoutTags : Bool)
    (b : Builder)
    (entry : StatementEntry)
    (role : StatementRole)
    (title : String) :
    (addStatement withoutTags b entry
          role).1.model.autoTitled? title =
      if .statement title =
          (Entry.statement entry).elementAfter b.numbering then
        some
          ((b.model.autoTitled? title).getD false
            || entry.title.isNone)
      else
        b.model.autoTitled? title := by
  have hAdded :=
    Model.addStatement_autoTitled b.model
      (occurrenceOf withoutTags b entry role) title
  have hName :
      (occurrenceOf withoutTags b entry role).title =
        entry.title.getD
          (untitled (b.untitledStatements + 1)) := by
    cases hTitle : entry.title <;>
      simp [occurrenceOf, Statement.new, statementTitle, hTitle]
  rw [hName] at hAdded
  cases hTitle : entry.title with
  | some given =>
      rw [addStatement_titled withoutTags b hTitle, hAdded,
        hTitle]
      simp [Entry.elementAfter, hTitle]
  | none =>
      rw [addStatement_untitled withoutTags b hTitle,
        Model.markClass_autoTitled, hAdded, hTitle]
      simp only [Entry.elementAfter, hTitle, Option.getD_none,
        numbering, Element.statement.injEq]
      split <;> simp

/- The model after a statement reflects it, too. -/
theorem addStatement_reflects
    {nodes : List Naming}
    (hReflects : b.model.Reflects withoutTags nodes)
    (entry : StatementEntry)
    (role : StatementRole) :
    (addStatement withoutTags b entry role).1.model.Reflects
      withoutTags
      (nodes ++ namingsAfter b.numbering [.statement entry]) := by
  constructor
  · intro title
    rw [addStatement_mark, hReflects.classes, namingsAfter,
      namingsAfter, Model.marked?_snoc]
    exact if_congr eq_comm rfl rfl
  · intro title text
    have hSame :
        (addStatement withoutTags b entry
            role).1.model.arguments =
          b.model.arguments := by
      unfold addStatement
      simp only
      split <;> simp [Model.addStatement_titles]
    rw [Model.described, Model.argument?_congr hSame,
      ← Model.described, hReflects.arguments]
    simp [namingsAfter, Entry.elementAfter]

/- An argument is said to be what was and what is said. -/
theorem mem_described_describe
    {m : Model}
    {name : String}
    (hThere : (m.argument? name).isSome = true)
    (entry : ArgumentEntry)
    (title text : String) :
    text ∈
        (m.modifyArgument name (describe withoutTags entry)
          (describe_title withoutTags entry)).described title ↔
      text ∈ m.described title ∨
        (title = name ∧
          entry.description.map
              (cleanText withoutTags entry.tags) =
            some text) := by
  rcases Option.isSome_iff_exists.mp hThere with ⟨a, ha⟩
  rw [Model.described, Model.argument?_modifyArgument m name,
    Model.described]
  by_cases hHere : title = name
  · rw [if_pos hHere, hHere, ha]
    simp only [Option.map_some, Option.elim_some, describe,
      true_and]
    cases entry.description with
    | none => simp
    | some said =>
        simp [Sequence.mem_addNew, eq_comm]
  · simp [hHere]

/- So it is when an argument is added. -/
theorem mem_described_addArgument
    (withoutTags : Bool)
    (b : Builder)
    (entry : ArgumentEntry)
    (title text : String) :
    text ∈
        (addArgument withoutTags b
          entry).1.model.described title ↔
      text ∈ b.model.described title ∨
        (title = (b.argumentTitle entry).1 ∧
          entry.description.map
              (cleanText withoutTags entry.tags) =
            some text) := by
  generalize hName : (b.argumentTitle entry).1 = name
  have hEnsured :
      ((b.model.ensureArgument name).argument? name).isSome =
        true := by
    rw [Model.argument?_ensureArgument]
    cases b.model.argument? name <;> simp
  have hSaid : ∀ title,
      (b.model.ensureArgument name).described title =
        b.model.described title := by
    intro title
    rw [Model.described, Model.argument?_ensureArgument,
      Model.described]
    split
    · next hNew => rw [hNew.1, hNew.2]; rfl
    · rfl
  unfold addArgument
  simp only [hName]
  split
  · next hNew =>
      have hMarks :
          (b.model.ensureArgument name).SameMarks
            ((b.model.ensureArgument name).modifyArgument name
              (fun a =>
                { a with
                  sectionId := b.currentSection?
                  span := entry.span
                  isAutoTitled := (b.argumentTitle entry).2 })) :=
        Model.modifyArgument_marks _ name (fun _ => rfl)
      rw [← hSaid, ← hMarks.arguments]
      refine mem_described_describe ?_ entry title text
      rw [Model.argument?_modifyArgument]
      simpa using hEnsured
  · next hOld =>
      rw [← hSaid]
      exact mem_described_describe hEnsured entry title text

/- The model after an argument reflects it, too. -/
theorem addArgument_reflects
    {nodes : List Naming}
    (hReflects : b.model.Reflects withoutTags nodes)
    (entry : ArgumentEntry) :
    (addArgument withoutTags b entry).1.model.Reflects
      withoutTags
      (nodes ++ namingsAfter b.numbering [.argument entry]) := by
  constructor
  · intro title
    have hClasses :
        (addArgument withoutTags b entry).1.model.classes =
          b.model.classes := by
      unfold addArgument
      simp only [Model.recordTags, Model.modifyArgument_classes]
      split <;> simp
    have hOther : ∀ x ∈ namingsAfter b.numbering
        [.argument entry], x.element ≠ .statement title := by
      simp [namingsAfter, Entry.elementAfter]
    rw [Model.autoTitled?, Model.class?_congr hClasses,
      ← Model.autoTitled?, hReflects.classes, namingsAfter,
      namingsAfter, Model.marked?_snoc]
    exact (if_neg (hOther _ List.mem_cons_self)).symm
  · intro title text
    rw [mem_described_addArgument, hReflects.arguments,
      argumentTitle_fst]
    simp only [List.mem_append, or_and_right, exists_or]
    refine or_congr .rfl ?_
    simp [namingsAfter, Entry.elementAfter, Naming.says?,
      numbering, eq_comm (a := title)]

/- What is recorded is reflected. -/
theorem Records.reflects
    (hRecords : Records withoutTags es b c)
    {nodes : List Naming}
    (hReflects : b.model.Reflects withoutTags nodes) :
    c.model.Reflects withoutTags
      (nodes ++ namingsAfter b.numbering es) := by
  induction hRecords generalizing nodes with
  | same _ hMarks _ =>
      rw [namingsAfter, List.append_nil]
      exact hMarks.reflects hReflects
  | statement b entry role =>
      exact addStatement_reflects hReflects entry role
  | argument b entry => exact addArgument_reflects hReflects entry
  | trans hFirst _ ihFirst ihSecond =>
      have hBoth := ihSecond (ihFirst hReflects)
      rwa [hFirst.adds.numbering, List.append_assoc,
        ← namingsAfter_append] at hBoth

end Builder

namespace Model

------------------------------------------------------------
-- Models of Documents
------------------------------------------------------------

/-
  A model holds some occurrences: its statements are those that
  occur, in their classes, and its classes and arguments are
  those that the occurrences stand for.
-/
structure Holds
    (m : Model)
    (withoutTags : Bool)
    (nodes : List Naming) : Prop where
  places :
    m.Places
      (nodes.map
        (fun x => (x.element, x.entry.span.start.offset)))
  members : ∀ c ∈ m.classes,
    c.members =
      (m.statements.filter (fun s => s.title == c.title)).map
        Statement.id
  reflects : m.Reflects withoutTags nodes

/- The model of a document holds what is recorded of it. -/
theorem build_holds
    (withoutTags : Bool)
    (d : Document) :
    (build withoutTags d).1.Holds withoutTags d.namings := by
  have hLinked := (build_coherent withoutTags d).linked
  have hNothing : Builder.empty.model.Reflects withoutTags [] :=
    ⟨fun _ => rfl, fun title text => by
      simp [described, argument?_eq, Builder.empty, Model.empty,
        Sequence.lastWith]⟩
  refine
    ⟨?_, fun c hClass => hLinked.members_eq hClass, ?_⟩
  · rw [Document.namings, namingsAfter_appearances]
    exact build_places_recorded withoutTags d
  · rcases build_recorded withoutTags d with
      ⟨b, hRecords, hModel⟩
    rw [hModel]
    exact hRecords.reflects hNothing

/- A class is marked if an occurrence in it has no title. -/
theorem Holds.isAutoTitled_iff
    {m : Model}
    {withoutTags : Bool}
    {nodes : List Naming}
    (hHolds : m.Holds withoutTags nodes)
    (hLinked : m.Linked)
    {c : EquivalenceClass}
    (hClass : c ∈ m.classes) :
    (∃ x ∈ nodes, x.element = .statement c.title) ∧
      (c.isAutoTitled = true ↔
        ∃ x ∈ nodes,
          x.untitled = true ∧
            x.element = .statement c.title) := by
  have hFound :=
    (hLinked.class?_iff c.title c).mpr ⟨hClass, rfl⟩
  have hMark := hHolds.reflects.classes c.title
  rw [autoTitled?, hFound, Option.map_some, marked?] at hMark
  split at hMark
  · cases hMark
  · next hSome =>
      rw [List.isEmpty_iff, List.filter_eq_nil_iff] at hSome
      rw [Option.some.inj hMark]
      simp only [beq_iff_eq, not_forall, not_not, exists_prop]
        at hSome
      simp [hSome, List.any_filter, and_comm]

/-
  In the model of a document, no two occurrences without a title
  share a class or an argument.  A class or an argument has
  occurrences with and without a title if and only if its title
  is generated and written.  A class is marked as numbered if an
  occurrence in it has no title; the mark says that none has one
  if and only if the class has no occurrences of both kinds.
-/
theorem build_titles
    (withoutTags : Bool)
    (d : Document) :
    let m := (build withoutTags d).1
    m.Holds withoutTags d.namings ∧
      d.recorded.Sublist (d.blocks.flatMap Block.entries) ∧
      (d.namings.filter Naming.untitled).Pairwise
        (fun x y => x.element ≠ y.element) ∧
      (∀ e,
        d.Mixed e ↔
          e ∈ d.generated ∧
            ∃ y ∈ d.namings,
              y.untitled = false ∧ y.element = e) ∧
      ∀ c ∈ m.classes,
        (c.isAutoTitled = true ↔
          ∃ x ∈ d.namings,
            x.untitled = true ∧
              x.element = .statement c.title) ∧
        ((c.isAutoTitled = true ↔
            ∀ x ∈ d.namings,
              x.element = .statement c.title →
                x.untitled = true) ↔
          ¬ d.Mixed (.statement c.title)) := by
  intro m
  have hHolds := build_holds withoutTags d
  have hLinked := (build_coherent withoutTags d).linked
  refine
    ⟨hHolds, d.recorded_sublist, d.untitled_apart,
      fun _ => Document.mixed_iff, fun c hClass => ?_⟩
  rcases hHolds.isAutoTitled_iff hLinked hClass with
    ⟨⟨z, hz, hThere⟩, hMark⟩
  refine ⟨hMark, ?_⟩
  rw [hMark]
  constructor
  · rintro hBoth ⟨x, hx, y, hy, hUntitled, hThis, hTitled,
      hOther⟩
    have hAll := hBoth.mp ⟨x, hx, hUntitled, hThis⟩ y hy hOther
    rw [hTitled] at hAll
    cases hAll
  · intro hApart
    constructor
    · rintro ⟨x, hx, hUntitled, hThis⟩ y hy hOther
      by_contra hTitled
      rw [Bool.not_eq_true] at hTitled
      exact
        hApart ⟨x, hx, y, hy, hUntitled, hThis, hTitled, hOther⟩
    · exact fun hAll => ⟨z, hz, hAll z hz hThere, hThere⟩

section

open scoped Yaml

/- The generated title of a statement may be written, too. -/
theorem build_titles_written :
    let d :=
      (Document.read
        "[Untitled 1]: a\n\nanother claim").document
    ∃ c ∈ (build false d).1.classes,
      c.title = "Untitled 1" ∧
        c.members = [0, 1] ∧
        d.Mixed (.statement c.title) ∧
        ¬ (c.isAutoTitled = true ↔
          ∀ x ∈ d.namings,
            x.element = .statement c.title →
              x.untitled = true) := by
  intro d
  have hFound :
      ∃ c ∈ (build false d).1.classes,
        c.title = "Untitled 1" ∧ c.members = [0, 1] := by
    decide +kernel
  have hWritten :
      .statement "Untitled 1" ∈ d.generated ∧
        ∃ y ∈ d.namings,
          y.untitled = false ∧
            y.element = .statement "Untitled 1" := by
    decide +kernel
  rcases hFound with ⟨c, hClass, hTitle, hMembers⟩
  rw [← hTitle] at hWritten
  have hAll := (build_titles false d).2.2.2
  have hMixed := (hAll.1 _).mpr hWritten
  exact
    ⟨c, hClass, hTitle, hMembers, hMixed,
      fun hBoth => (hAll.2 c hClass).2.mp hBoth hMixed⟩

end

end Model

end Dialectic
