import Dialectic.Notation.Yaml.Reader
import Dialectic.Proofs.Model.Integrity

/-
  Which classes of a document's model list each other as
  equivalent: those whose equivalence is declared, also if the
  statements attack each other.  Such a conflict is reported,
  but the declaration is kept.

  Key definitions include:
    * `Model.listedEquivalents`
    * `Model.Opposes`
    * `Builder.ListsDeclared`

  Main theorems:
    * `Model.mem_listedEquivalents_declare`
    * `Builder.listsDeclared_kept`
    * `Builder.conflict?_isSome_iff`
    * `Model.build_conflicts_iff`
-/

namespace Dialectic

namespace Model

variable {m n : Model}

------------------------------------------------------------
-- Listed Equivalences
------------------------------------------------------------

/- The classes that the class of a title lists as equivalent. -/
def listedEquivalents (m : Model) (title : String) :
    List String :=
  match m.class? title with
  | some c => c.equivalentTo
  | none => []

/- Models of the same classes list the same equivalences. -/
theorem listedEquivalents_congr
    (hClasses : n.classes = m.classes)
    (title : String) :
    n.listedEquivalents title = m.listedEquivalents title := by
  simp only [listedEquivalents, class?_eq, hClasses]

/- A class that changes may keep its equivalences. -/
theorem listedEquivalents_modifyClass
    (m : Model)
    (changed : String)
    {f : EquivalenceClass → EquivalenceClass}
    {hTitle : ∀ c, (f c).title = c.title}
    (hKept : ∀ c, (f c).equivalentTo = c.equivalentTo)
    (title : String) :
    (m.modifyClass changed f).listedEquivalents title =
      m.listedEquivalents title := by
  rw [listedEquivalents, class?_modifyClass m changed,
    listedEquivalents]
  by_cases hHere : title = changed
  · rw [if_pos hHere]
    cases m.class? title with
    | none => rfl
    | some c => exact hKept c
  · rw [if_neg hHere]

/- A class that is new lists no equivalences. -/
theorem listedEquivalents_ensureClass
    (m : Model)
    (added : String)
    (sectionId : Option Nat)
    (title : String) :
    (m.ensureClass added sectionId).listedEquivalents title =
      m.listedEquivalents title := by
  rw [listedEquivalents, class?_ensureClass, listedEquivalents]
  by_cases hNew : title = added ∧ m.class? added = none
  · rw [if_pos hNew, hNew.1, hNew.2]
    rfl
  · rw [if_neg hNew]

/- Adding a statement leaves the equivalences. -/
theorem listedEquivalents_addStatement
    (m : Model)
    (s : Statement)
    (title : String) :
    (m.addStatement s).listedEquivalents title =
      m.listedEquivalents title := by
  rw [addStatement_eq]
  calc
    listedEquivalents _ title =
        ((m.ensureClass s.title s.sectionId).modifyClass s.title
          (addMember s m.nextStatement)
          (addMember_title s _)).listedEquivalents title :=
      listedEquivalents_congr rfl title
    _ = (m.ensureClass s.title
          s.sectionId).listedEquivalents title :=
      listedEquivalents_modifyClass _ _
        (fun c => (addMember_kept s m.nextStatement c).2.2.2)
        title
    _ = m.listedEquivalents title :=
      listedEquivalents_ensureClass m _ _ title

/- Noting a relation at its end leaves the equivalences. -/
theorem listedEquivalents_linkEnd
    (m : Model)
    (element : Element)
    (id : Nat)
    (title : String) :
    (m.linkEnd element id).listedEquivalents title =
      m.listedEquivalents title := by
  cases element with
  | statement other =>
      rw [linkEnd, listedEquivalents_modifyClass]
      exact fun _ => rfl
  | argument other =>
      rw [linkEnd]
      exact
        listedEquivalents_congr
          (modifyArgument_classes m other _) title

/- Declaring a relation leaves the equivalences. -/
theorem listedEquivalents_addRelation
    (m : Model)
    (source target : Element)
    (kind : RelationKind)
    (origin : Origin)
    (occurrence : Option Nat)
    (title : String) :
    (m.addRelation source target kind origin
        occurrence).1.listedEquivalents title =
      m.listedEquivalents title := by
  have hOccurrence : ∀ (k : Model) (id : Nat),
      (k.linkOccurrence occurrence id).classes =
        k.classes := by
    intro k id
    cases occurrence <;> rfl
  unfold addRelation
  cases m.findRelation? source target kind with
  | some id =>
      exact listedEquivalents_congr (hOccurrence _ id) title
  | none =>
      have hEnds :
          ((m.linkEnd source m.relations.length).linkEnd target
              m.relations.length).listedEquivalents title =
            m.listedEquivalents title :=
        (listedEquivalents_linkEnd _ target _ title).trans
          (listedEquivalents_linkEnd m source _ title)
      rw [← hEnds]
      exact listedEquivalents_congr (hOccurrence _ _) title

/- A class lists another one if told so or if it did before. -/
theorem mem_listedEquivalents_link
    {changed : String}
    (hThere : m.contains (.statement changed) = true)
    (added : String)
    {first second : String} :
    second ∈
        (m.linkEquivalent changed added).listedEquivalents
          first ↔
      second ∈ m.listedEquivalents first ∨
        (first = changed ∧ second = added) := by
  rw [contains, ← class?_isSome] at hThere
  rcases Option.isSome_iff_exists.mp hThere with ⟨c, hc⟩
  unfold linkEquivalent
  rw [listedEquivalents, class?_modifyClass, listedEquivalents]
  by_cases hHere : first = changed
  · subst hHere
    simp [hc, Sequence.mem_addNew]
  · simp [hHere]

/- Classes that are declared equivalent list each other. -/
theorem mem_listedEquivalents_declare
    {one other : String}
    (hOne : m.contains (.statement one) = true)
    (hOther : m.contains (.statement other) = true)
    (hApart : one ≠ other)
    {first second : String} :
    second ∈
        (m.declareEquivalence one other).listedEquivalents
          first ↔
      second ∈ m.listedEquivalents first ∨
        (first = one ∧ second = other) ∨
        (first = other ∧ second = one) := by
  have hLater :
      (m.linkEquivalent one other).contains
        (.statement other) = true :=
    (@linkEquivalent_extends [] m one other).contains hOther
  rw [declareEquivalence, if_neg hApart,
    mem_listedEquivalents_link hLater,
    mem_listedEquivalents_link hOne, or_assoc]

/-
  A declared attack or contradiction joins the classes of two
  titles, in whichever direction.
-/
def Opposes (m : Model) (first second : String) : Prop :=
  ∃ r ∈ m.explicitRelations,
    (r.kind = .attack ∨ r.kind = .contradiction) ∧
      ((r.source = .statement first ∧
          r.target = .statement second) ∨
        (r.source = .statement second ∧
          r.target = .statement first))

/- Classes that oppose each other do so both ways. -/
theorem Opposes.symm
    {first second : String}
    (hOpposes : m.Opposes first second) :
    m.Opposes second first := by
  rcases hOpposes with ⟨r, hr, hKind, hEnds⟩
  exact ⟨r, hr, hKind, hEnds.symm⟩

end Model

namespace Builder

variable {b : Builder}

------------------------------------------------------------
-- Declared Equivalences
------------------------------------------------------------

/-
  Classes list each other as equivalent if and only if it has
  been declared, in whichever order.
-/
def ListsDeclared (b : Builder) : Prop :=
  ∀ first second,
    second ∈ b.model.listedEquivalents first ↔
      (first, second) ∈ b.equivalences ∨
        (second, first) ∈ b.equivalences

/- What leaves both lists keeps them equal. -/
theorem ListsDeclared.of_same
    {c : Builder}
    (hLists : b.ListsDeclared)
    (hModel : ∀ title,
      c.model.listedEquivalents title =
        b.model.listedEquivalents title)
    (hDeclared : c.equivalences = b.equivalences) :
    c.ListsDeclared := by
  intro first second
  rw [hModel, hDeclared]
  exact hLists first second

/- Adding a statement leaves the declared equivalences. -/
theorem ListsDeclared.addStatement
    (hLists : b.ListsDeclared)
    (withoutTags : Bool)
    (entry : StatementEntry)
    (role : StatementRole) :
    (addStatement withoutTags b entry role).1.ListsDeclared := by
  refine hLists.of_same ?_ rfl
  intro title
  have hAdded :=
    Model.listedEquivalents_addStatement b.model
      (occurrenceOf withoutTags b entry role) title
  unfold Builder.addStatement
  simp only
  split
  · rw [Model.listedEquivalents_modifyClass]
    · exact hAdded
    · exact fun _ => rfl
  · exact hAdded

/- Adding an argument leaves the declared equivalences. -/
theorem ListsDeclared.addArgument
    (hLists : b.ListsDeclared)
    (withoutTags : Bool)
    (entry : ArgumentEntry) :
    (addArgument withoutTags b entry).1.ListsDeclared := by
  refine
    hLists.of_same (Model.listedEquivalents_congr ?_) rfl
  unfold Builder.addArgument
  simp only [Model.recordTags, Model.modifyArgument_classes]
  split <;> simp

/- Relating two elements lists what it declares. -/
theorem ListsDeclared.relate
    (hLists : b.ListsDeclared)
    {parent target : Element}
    (hParent : b.model.contains parent = true)
    (hTarget : b.model.contains target = true)
    (marker : Marker)
    (occurrence : Option Nat) :
    (b.relate parent target marker
      occurrence).ListsDeclared := by
  unfold Builder.relate
  split
  · exact hLists.of_same (fun _ => rfl) rfl
  · next hApart =>
      cases RelationKind.ofMarker? marker with
      | some kind =>
          exact
            hLists.of_same
              (Model.listedEquivalents_addRelation _ _ _ _ _ _)
              rfl
      | none =>
          cases parent with
          | argument title =>
              exact hLists.of_same (fun _ => rfl) rfl
          | statement one =>
              cases target with
              | argument title =>
                  exact hLists.of_same (fun _ => rfl) rfl
              | statement other =>
                  intro first second
                  have hTitles : one ≠ other :=
                    fun hSame => hApart (hSame ▸ rfl)
                  simp only [equate, List.mem_append,
                    List.mem_singleton, Prod.mk.injEq]
                  rw [Model.mem_listedEquivalents_declare
                    hParent hTarget hTitles, hLists]
                  tauto

/- Each step that builds a model lists what is declared. -/
theorem listsDeclared_kept (withoutTags : Bool) :
    Kept withoutTags ListsDeclared where
  statement entry role hLists :=
    hLists.addStatement withoutTags entry role
  argument entry hLists := hLists.addArgument withoutTags entry
  relate marker occurrence hParent hTarget hLists :=
    hLists.relate hParent hTarget marker occurrence
  steps title _ _ hLists := by
    refine hLists.of_same ?_ rfl
    dsimp only [withSteps]
    exact
      Model.listedEquivalents_congr
        (Model.modifyArgument_classes _ title _)
  conflict _ hLists := hLists.of_same (fun _ => rfl) rfl
  heading _ hLists :=
    hLists.of_same (Model.listedEquivalents_congr rfl) rfl

/- A conflict is found if the classes oppose each other. -/
theorem conflict?_isSome_iff
    {m : Model}
    {first second : String} :
    (∃ r, conflict? m first second = some r) ↔
      m.Opposes first second := by
  rw [← Option.isSome_iff_exists, conflict?,
    List.find?_isSome]
  constructor
  · rintro ⟨r, hr, hConflict⟩
    simp only [Relation.connects, Bool.and_eq_true,
      Bool.or_eq_true, beq_iff_eq] at hConflict
    exact ⟨r, hr, hConflict.1, by tauto⟩
  · rintro ⟨r, hr, hKind, hEnds⟩
    refine ⟨r, hr, ?_⟩
    simp only [Relation.connects, Bool.and_eq_true,
      Bool.or_eq_true, beq_iff_eq]
    tauto

end Builder

namespace Model

------------------------------------------------------------
-- Reported Conflicts
------------------------------------------------------------

/- The equivalence of two classes is reported as a conflict. -/
def ReportsConflict
    (faults : List ModelFault)
    (first second : String) : Prop :=
  ∃ word, .conflictingEquivalence first second word ∈ faults

/-
  A conflict is reported for each declared equivalence of
  classes that oppose each other.
-/
theorem build_reports_iff
    (withoutTags : Bool)
    (d : Document)
    (first second : String) :
    ReportsConflict (build withoutTags d).2 first second ↔
      (first, second) ∈
          (d.blocks.foldl (Builder.addBlock withoutTags)
            Builder.empty).equivalences ∧
        (build withoutTags d).1.Opposes first second := by
  have hVerified := (build_coherent withoutTags d).linked.verify_eq_nil
  have hEarly := (blocks_coherent withoutTags d).faults
  unfold build at hVerified ⊢
  simp only [Builder.checkEquivalences_model] at hVerified ⊢
  rw [hVerified, List.append_nil, ← Builder.conflict?_isSome_iff]
  constructor
  · rintro ⟨word, hFault⟩
    rcases Builder.mem_checkEquivalences.mp hFault with
      hFound | ⟨pair, hPair, r, hConflict, hFault⟩
    · -- no such fault is found while the document is read
      cases hEarly _ hFound
    · rcases pair with ⟨one, other⟩
      injection hFault with hFirst hSecond
      subst hFirst hSecond
      exact ⟨hPair, r, hConflict⟩
  · rintro ⟨hPair, r, hConflict⟩
    exact
      ⟨Builder.conflictWord r.kind,
        Builder.mem_checkEquivalences.mpr
          (.inr ⟨_, hPair, r, hConflict, rfl⟩)⟩

/-
  A conflict is reported if and only if it is in the model:
  classes that oppose each other list each other as equivalent
  where that has been declared, although it is reported.
-/
theorem build_conflicts_iff
    (withoutTags : Bool)
    (d : Document)
    (first second : String) :
    (second ∈
          (build withoutTags d).1.listedEquivalents first ∧
        (build withoutTags d).1.Opposes first second) ↔
      ReportsConflict (build withoutTags d).2 first second ∨
        ReportsConflict (build withoutTags d).2 second
          first := by
  have hLists :
      (d.blocks.foldl (Builder.addBlock withoutTags)
        Builder.empty).ListsDeclared := by
    apply (Builder.listsDeclared_kept withoutTags).addBlocks
    intro one other
    exact
      ⟨fun hListed => absurd hListed List.not_mem_nil,
        fun hDeclared =>
          absurd hDeclared (by simp [Builder.empty])⟩
  have hModel :
      (build withoutTags d).1 =
        (d.blocks.foldl (Builder.addBlock withoutTags)
          Builder.empty).model :=
    Builder.checkEquivalences_model _
  have hListed :
      second ∈ (build withoutTags d).1.listedEquivalents first ↔
        (first, second) ∈
            (d.blocks.foldl (Builder.addBlock withoutTags)
              Builder.empty).equivalences ∨
          (second, first) ∈
            (d.blocks.foldl (Builder.addBlock withoutTags)
              Builder.empty).equivalences := by
    rw [hModel]
    exact hLists first second
  rw [build_reports_iff, build_reports_iff, hListed]
  constructor
  · rintro ⟨hThere | hBack, hOpposes⟩
    · exact .inl ⟨hThere, hOpposes⟩
    · exact .inr ⟨hBack, hOpposes.symm⟩
  · rintro (⟨hThere, hOpposes⟩ | ⟨hBack, hOpposes⟩)
    · exact ⟨.inl hThere, hOpposes⟩
    · exact ⟨.inr hBack, hOpposes.symm⟩

section

open scoped Yaml

/- A conflict that is reported is still in the model. -/
example :
    let d :=
      (Document.read "[A]: a\n  = [B]: b\n  - [B]").document
    (build false d).2 =
        [.conflictingEquivalence "A" "B" "attack"] ∧
      (build false d).1.listedEquivalents "A" = ["B"] := by
  decide +kernel

end

end Model

end Dialectic
