import Dialectic.Proofs.Model.Derivation
import Dialectic.Proofs.Model.Links
import Mathlib.Data.List.Induction

/-
  What a model keeps of the relations that are declared: each
  of them once, under an id that never changes, with the first
  origin unless some declaration is explicit, and with the
  statements that declare it, which list it in turn.

  Key definitions include:
    * `Declaration`
    * `Declaration.Hits`
    * `Model.declareAll`
    * `Relation.Recalls`
    * `Model.Registered`

  Main theorems:
    * `Model.relation?_declare`
    * `Model.Registered.declare`
    * `Model.Registered.recalls`
    * `Model.declareAll_registered`
-/

namespace Dialectic

------------------------------------------------------------
-- Declarations
------------------------------------------------------------

/- What a relation is added with. -/
structure Declaration where
  source : Element
  target : Element
  kind : RelationKind
  origin : Origin
  occurrence : Option Nat
deriving DecidableEq, Repr

namespace Declaration

/-
  A declaration hits a relation of its kind between its ends.
  The ends of a contradiction may be swapped.
-/
def Hits (d : Declaration) (r : Relation) : Prop :=
  r.kind = d.kind ∧ r.Leads d.source d.target

/- The relation that a declaration adds under an id. -/
def relation (d : Declaration) (id : Nat) : Relation :=
  ⟨id, d.source, d.target, d.kind, d.origin,
    d.occurrence.toList⟩

/- A look-up for a declaration finds what it hits. -/
theorem hits_iff {d : Declaration} {r : Relation} :
    d.Hits r ↔ r.connects d.source d.target d.kind = true := by
  have hSymmetric : d.kind.isSymmetric = true ↔
      d.kind = .contradiction := by
    cases d.kind <;> decide
  simp only [Hits, Relation.Leads, Relation.connects,
    Bool.and_eq_true, Bool.or_eq_true, beq_iff_eq, hSymmetric]
  refine and_congr_right (fun hKind => ?_)
  rw [hKind]

instance (d : Declaration) (r : Relation) :
    Decidable (d.Hits r) :=
  decidable_of_iff _ hits_iff.symm

/- A declaration hits the relation that it adds. -/
theorem hits_relation (d : Declaration) (id : Nat) :
    d.Hits (d.relation id) :=
  ⟨rfl, Or.inl ⟨rfl, rfl⟩⟩

/- Relations of the same ends and kind are hit alike. -/
theorem Hits.congr
    {d : Declaration}
    {r s : Relation}
    (hSame : s.triple = r.triple) :
    d.Hits s ↔ d.Hits r := by
  simp only [Relation.triple, Prod.mk.injEq] at hSame
  rcases hSame with ⟨hSource, hTarget, hKind⟩
  simp only [Hits, Relation.Leads, hSource, hTarget, hKind]

/-
  What hits one of two relations that a declaration hits also
  hits the other one.
-/
theorem Hits.shared
    {d e : Declaration}
    {r s : Relation}
    (hr : d.Hits r)
    (hs : d.Hits s)
    (hOther : e.Hits r) :
    e.Hits s := by
  rcases hr with ⟨hKind, hEnds⟩
  rcases hs with ⟨hSame, hOwn⟩
  rcases hOther with ⟨hThird, hThirdEnds⟩
  refine ⟨hSame.trans (hKind.symm.trans hThird), ?_⟩
  simp only [Relation.Leads, hKind, hSame]
    at hEnds hOwn hThirdEnds ⊢
  grind

end Declaration

/- A relation when something has been declared. -/
def Relation.after (r : Relation) (d : Declaration) :
    Relation :=
  if d.Hits r then
    Model.repeatRelation r d.origin d.occurrence
  else
    r

/- A declaration changes neither the ends nor the id. -/
theorem Relation.after_ends (r : Relation) (d : Declaration) :
    (r.after d).ends = r.ends ∧
      (r.after d).triple = r.triple := by
  unfold Relation.after
  split <;> exact ⟨rfl, rfl⟩

namespace Model

variable {m : Model}
variable {d : Declaration}

/- Declare a relation. -/
def declare (m : Model) (d : Declaration) : Model :=
  (m.addRelation d.source d.target d.kind d.origin
    d.occurrence).1

/- The id of the relation that a declaration hits or adds. -/
def declaredId (m : Model) (d : Declaration) : Nat :=
  (m.addRelation d.source d.target d.kind d.origin
    d.occurrence).2

/- Declare several relations, in order. -/
def declareAll (m : Model) (ds : List Declaration) : Model :=
  ds.foldl declare m

/- A declaration hits no relation of the model. -/
def IsNew (m : Model) (d : Declaration) : Prop :=
  ∀ r ∈ m.relations, ¬ d.Hits r

------------------------------------------------------------
-- Registered Relations
------------------------------------------------------------

/-
  The relations of a model are registered: they are numbered
  in their order, no declaration hits two of them, none lists
  a statement twice, and a statement lists exactly those that
  list it.
-/
structure Registered (m : Model) : Prop where
  ids :
    m.relations.map Relation.id =
      List.range m.relations.length
  single : ∀ d : Declaration,
    ∀ r ∈ m.relations, ∀ s ∈ m.relations,
      d.Hits r → d.Hits s → r = s
  distinct : ∀ r ∈ m.relations, r.occurrences.Nodup
  mirrored : ∀ o s, m.statement? o = some s → ∀ id,
    id ∈ s.relations ↔
      ∃ r, m.relation? id = some r ∧ o ∈ r.occurrences

/- A model without relations has them registered. -/
theorem Registered.of_none
    (hRelations : m.relations = [])
    (hStatements : ∀ s ∈ m.statements, s.relations = []) :
    m.Registered := by
  have hNone : ∀ id, m.relation? id = none := by
    intro id
    rw [relation?, hRelations]
    rfl
  constructor
  · rw [hRelations]
    rfl
  · simp [hRelations]
  · simp [hRelations]
  · intro o s hFound id
    rw [hStatements s (List.mem_of_getElem? hFound), hNone]
    simp

/- The id of a relation is its position. -/
theorem relation?_some
    (hIds :
      m.relations.map Relation.id =
        List.range m.relations.length)
    {id : Nat}
    {r : Relation}
    (hFound : m.relation? id = some r) :
    r.id = id := by
  have hLess := (List.getElem?_eq_some_iff.mp hFound).1
  have hId :
      (m.relations.map Relation.id)[id]? = some r.id := by
    rw [List.getElem?_map]
    exact congrArg (Option.map Relation.id) hFound
  rw [hIds, List.getElem?_range hLess] at hId
  exact (Option.some.inj hId).symm

/- A relation is found by its id. -/
theorem Registered.relation?_id
    (hRegistered : m.Registered)
    {r : Relation}
    (hThere : r ∈ m.relations) :
    m.relation? r.id = some r := by
  rcases List.mem_iff_getElem?.mp hThere with ⟨id, hFound⟩
  rw [relation?_some hRegistered.ids hFound]
  exact hFound

------------------------------------------------------------
-- One Declaration
------------------------------------------------------------

/-
  A declaration hits a relation that is there, or it adds one
  if it hits none.
-/
theorem Registered.declare_cases
    (hRegistered : m.Registered)
    (d : Declaration) :
    (∃ r, m.relation? (m.declaredId d) = some r ∧ d.Hits r ∧
        (m.declare d).relations =
          m.relations.modify (m.declaredId d)
            (repeatRelation · d.origin d.occurrence)) ∨
      (m.IsNew d ∧ m.declaredId d = m.relations.length ∧
        (m.declare d).relations =
          m.relations ++ [d.relation m.relations.length]) := by
  have hKept : ∀ (n : Model) (id : Nat),
      (n.linkOccurrence d.occurrence id).relations =
        n.relations := by
    intro n id
    cases d.occurrence <;> rfl
  unfold declare declaredId addRelation
  cases hFound : m.findRelation? d.source d.target d.kind with
  | some id =>
      left
      rcases Option.map_eq_some_iff.mp hFound with
        ⟨r, hr, rfl⟩
      refine ⟨r, ?_, ?_, hKept _ _⟩
      · exact
          hRegistered.relation?_id (List.mem_of_find?_eq_some hr)
      · rw [Declaration.hits_iff]
        simpa using List.find?_some hr
  | none =>
      right
      refine ⟨?_, rfl, ?_⟩
      · intro r hr hHits
        have hNone :=
          List.find?_eq_none.mp (Option.map_eq_none_iff.mp hFound)
            r hr
        exact hNone (Declaration.hits_iff.mp hHits)
      · exact
          (hKept _ _).trans (appendRelation_relations _ _ _ _ _ _)

/- The statements when a relation has been declared. -/
theorem declare_statements (m : Model) (d : Declaration) :
    (m.declare d).statements =
      match d.occurrence with
      | some o =>
          m.statements.modify o (fun s =>
            { s with
              relations :=
                Sequence.addNew s.relations (m.declaredId d) })
      | none => m.statements := by
  unfold declare declaredId addRelation
  cases m.findRelation? d.source d.target d.kind <;>
    cases d.occurrence <;>
    simp [linkOccurrence, modifyStatement, appendRelation]

/-
  The relations when one has been declared: those that were
  there, and a new one if the declaration hits none of them.
-/
theorem Registered.relation?_declare
    (hRegistered : m.Registered)
    {id : Nat}
    {r : Relation} :
    (m.declare d).relation? id = some r ↔
      (∃ s, m.relation? id = some s ∧ r = s.after d) ∨
        (m.IsNew d ∧ id = m.relations.length ∧
          r = d.relation id) := by
  rcases hRegistered.declare_cases d with
    ⟨t, ht, hHits, hRelations⟩ | ⟨hNew, _, hRelations⟩
  · -- only the relation that is hit changes
    have hOld : ¬ m.IsNew d :=
      fun hNew => hNew t (List.mem_of_getElem? ht) hHits
    have hAfter : ∀ s, m.relation? id = some s →
        s.after d =
          if m.declaredId d = id then
            repeatRelation s d.origin d.occurrence
          else
            s := by
      intro s hs
      unfold Relation.after
      by_cases hHere : m.declaredId d = id
      · rw [hHere, hs] at ht
        cases ht
        rw [if_pos hHits, if_pos hHere]
      · rw [if_neg hHere, if_neg]
        intro hOther
        have hSame :=
          hRegistered.single d s (List.mem_of_getElem? hs) t
            (List.mem_of_getElem? ht) hOther hHits
        rw [hSame] at hs
        exact
          hHere
            ((relation?_some hRegistered.ids ht).symm.trans
              (relation?_some hRegistered.ids hs))
    simp only [hOld, false_and, or_false]
    rw [relation?, hRelations, List.getElem?_modify]
    constructor
    · intro hFound
      rcases Option.map_eq_some_iff.mp hFound with
        ⟨s, hs, hSame⟩
      refine ⟨s, hs, ?_⟩
      rw [hAfter s hs, ← hSame]
    · rintro ⟨s, hs, rfl⟩
      rw [hAfter s hs]
      refine Option.map_eq_some_iff.mpr ⟨s, hs, ?_⟩
      split
      · rfl
      · rfl
  · -- nothing that was there changes
    have hSame : ∀ s, m.relation? id = some s →
        s.after d = s := fun s hs =>
      if_neg (hNew s (List.mem_of_getElem? hs))
    rw [relation?, hRelations, Sequence.getElem?_concat_iff]
    constructor
    · rintro (hOld | ⟨rfl, rfl⟩)
      · exact Or.inl ⟨r, hOld, (hSame r hOld).symm⟩
      · exact Or.inr ⟨hNew, rfl, rfl⟩
    · rintro (⟨s, hs, rfl⟩ | ⟨_, rfl, rfl⟩)
      · rw [hSame s hs]
        exact Or.inl hs
      · exact Or.inr ⟨rfl, rfl⟩

/- The relations of a model when one has been declared. -/
theorem Registered.mem_declare
    (hRegistered : m.Registered)
    {r : Relation} :
    r ∈ (m.declare d).relations ↔
      (∃ s ∈ m.relations, r = s.after d) ∨
        (m.IsNew d ∧ r = d.relation m.relations.length) := by
  rw [List.mem_iff_getElem?]
  constructor
  · rintro ⟨id, hFound⟩
    rcases hRegistered.relation?_declare.mp hFound with
      ⟨s, hs, hSame⟩ | ⟨hNew, rfl, hSame⟩
    · exact Or.inl ⟨s, List.mem_of_getElem? hs, hSame⟩
    · exact Or.inr ⟨hNew, hSame⟩
  · rintro (⟨s, hs, hSame⟩ | ⟨hNew, hSame⟩)
    · exact
        ⟨s.id, hRegistered.relation?_declare.mpr
          (Or.inl ⟨s, hRegistered.relation?_id hs, hSame⟩)⟩
    · exact
        ⟨m.relations.length, hRegistered.relation?_declare.mpr
          (Or.inr ⟨hNew, rfl, hSame⟩)⟩

/- A declaration hits the relation whose id it gives. -/
theorem Registered.relation?_declaredId
    (hRegistered : m.Registered)
    (d : Declaration) :
    ∃ r, (m.declare d).relation? (m.declaredId d) = some r ∧
      d.Hits r := by
  rcases hRegistered.declare_cases d with
    ⟨t, ht, hHits, _⟩ | ⟨hNew, hNext, _⟩
  · refine
      ⟨t.after d,
        hRegistered.relation?_declare.mpr
          (Or.inl ⟨t, ht, rfl⟩), ?_⟩
    exact
      (Declaration.Hits.congr (t.after_ends d).2).mpr hHits
  · exact
      ⟨_, hRegistered.relation?_declare.mpr
        (Or.inr ⟨hNew, hNext, rfl⟩), d.hits_relation _⟩

/- A declaration adds its statement to the relation it hits. -/
theorem Registered.holds_declare
    (hRegistered : m.Registered)
    {id o : Nat} :
    (∃ r, (m.declare d).relation? id = some r ∧
        o ∈ r.occurrences) ↔
      (∃ r, m.relation? id = some r ∧ o ∈ r.occurrences) ∨
        (id = m.declaredId d ∧ d.occurrence = some o) := by
  rcases hRegistered.declare_cases d with
    ⟨t, ht, _, hRelations⟩ | ⟨_, hNext, hRelations⟩
  · have hRepeat :
        o ∈ (repeatRelation t d.origin
            d.occurrence).occurrences ↔
          o ∈ t.occurrences ∨ d.occurrence = some o := by
      cases d.occurrence with
      | none => simp [repeatRelation]
      | some other =>
          simp only [repeatRelation, Sequence.mem_addNew,
            Option.some.injEq]
          exact or_congr Iff.rfl eq_comm
    rw [relation?, hRelations, List.getElem?_modify]
    by_cases hHere : m.declaredId d = id
    · subst hHere
      have hOld : m.relations[m.declaredId d]? = some t := ht
      rw [hOld, ht]
      simpa using hRepeat
    · have hApart : id ≠ m.declaredId d :=
        fun hSame => hHere hSame.symm
      simp only [hHere, hApart, if_false, false_and, or_false,
        Option.map_eq_map, Option.map_id']
      rfl
  · rw [relation?, hRelations, hNext]
    simp only [Sequence.getElem?_concat_iff, or_and_right,
      exists_or, and_assoc]
    refine or_congr Iff.rfl ?_
    simp [Declaration.relation]

/- A declaration keeps the relations registered. -/
theorem Registered.declare
    (hRegistered : m.Registered)
    (d : Declaration) :
    (m.declare d).Registered := by
  constructor
  case ids =>
    rcases hRegistered.declare_cases d with
      ⟨_, _, _, hRelations⟩ | ⟨_, _, hRelations⟩
    · rw [hRelations, Sequence.map_modify, List.length_modify]
      · exact hRegistered.ids
      · exact fun _ => rfl
    · rw [hRelations, List.map_append, hRegistered.ids,
        List.length_append, List.length_singleton,
        List.range_succ]
      rfl
  case single =>
    -- what hits a new relation hits no old one
    have hApart : ∀ (e : Declaration),
        ∀ s ∈ m.relations, m.IsNew d → e.Hits (s.after d) →
          ¬ e.Hits (d.relation m.relations.length) := by
      intro e s hs hNew hOld hAdded
      have hOld :=
        (Declaration.Hits.congr (s.after_ends d).2).mp hOld
      exact
        hNew s hs
          (hAdded.shared hOld (d.hits_relation _))
    intro e r hr s hs hHits hOther
    rcases hRegistered.mem_declare.mp hr with
      ⟨r, hOld, rfl⟩ | ⟨hNew, rfl⟩
    · rcases hRegistered.mem_declare.mp hs with
        ⟨s, hAlso, rfl⟩ | ⟨hNew, rfl⟩
      · rw [Declaration.Hits.congr (Relation.after_ends _ d).2]
          at hHits hOther
        rw [hRegistered.single e r hOld s hAlso hHits hOther]
      · exact absurd hOther (hApart e r hOld hNew hHits)
    · rcases hRegistered.mem_declare.mp hs with
        ⟨s, hAlso, rfl⟩ | ⟨_, rfl⟩
      · exact absurd hHits (hApart e s hAlso hNew hOther)
      · rfl
  case distinct =>
    intro r hr
    rcases hRegistered.mem_declare.mp hr with
      ⟨s, hs, rfl⟩ | ⟨_, rfl⟩
    · have hUnique := hRegistered.distinct s hs
      unfold Relation.after
      split
      · cases hHere : d.occurrence with
        | none => exact hUnique
        | some o => exact Sequence.nodup_addNew hUnique o
      · exact hUnique
    · cases hHere : d.occurrence <;>
        simp [Declaration.relation, hHere]
  case mirrored =>
    intro o s hFound id
    rw [hRegistered.holds_declare]
    rw [statement?, declare_statements] at hFound
    cases hHere : d.occurrence with
    | none =>
        rw [hHere] at hFound
        simpa using hRegistered.mirrored o s hFound id
    | some other =>
        simp only [hHere, List.getElem?_modify] at hFound
        rcases Option.map_eq_some_iff.mp hFound with
          ⟨t, ht, hSame⟩
        have hOld := hRegistered.mirrored o t ht id
        by_cases hSelf : other = o
        · rw [if_pos hSelf] at hSame
          rw [← hSame, Sequence.mem_addNew, hOld, hSelf]
          simp
        · rw [if_neg hSelf] at hSame
          rw [← hSame]
          simpa [hSelf] using hOld

------------------------------------------------------------
-- Several Declarations
------------------------------------------------------------

/- Declarations keep the relations registered. -/
theorem Registered.declareAll
    (hRegistered : m.Registered)
    (ds : List Declaration) :
    (m.declareAll ds).Registered := by
  induction ds generalizing m with
  | nil => exact hRegistered
  | cons d ds ih => exact ih (hRegistered.declare d)

/- A relation keeps its id, its ends and its kind. -/
theorem Registered.relation?_declareAll
    (hRegistered : m.Registered)
    (ds : List Declaration)
    {id : Nat}
    {r : Relation}
    (hFound : m.relation? id = some r) :
    ∃ s, (m.declareAll ds).relation? id = some s ∧
      s.id = r.id ∧ s.triple = r.triple := by
  induction ds generalizing m r with
  | nil => exact ⟨r, hFound, rfl, rfl⟩
  | cons d ds ih =>
      have hAfter :
          (m.declare d).relation? id = some (r.after d) :=
        hRegistered.relation?_declare.mpr
          (Or.inl ⟨r, hFound, rfl⟩)
      rcases ih (hRegistered.declare d) hAfter with
        ⟨s, hs, hId, hTriple⟩
      rcases r.after_ends d with ⟨hEnds, hSame⟩
      exact
        ⟨s, hs, hId.trans (congrArg Prod.fst hEnds),
          hTriple.trans hSame⟩

/- What a declaration hits stays under the id that it gives. -/
theorem Registered.relation?_declared
    (hRegistered : m.Registered)
    (d : Declaration)
    (ds : List Declaration) :
    ∃ r, (m.declareAll (d :: ds)).relation? (m.declaredId d) =
        some r ∧ d.Hits r := by
  rcases hRegistered.relation?_declaredId d with
    ⟨s, hs, hHits⟩
  rcases
    (hRegistered.declare d).relation?_declareAll ds hs with
      ⟨r, hr, _, hTriple⟩
  exact ⟨r, hr, (Declaration.Hits.congr hTriple).mpr hHits⟩

/- Each declaration hits a relation in the end. -/
theorem Registered.exists_hit
    (hRegistered : m.Registered)
    {ds : List Declaration}
    (hDeclared : d ∈ ds) :
    ∃ r ∈ (m.declareAll ds).relations, d.Hits r := by
  rcases List.append_of_mem hDeclared with
    ⟨before, after, rfl⟩
  rcases
    (hRegistered.declareAll before).relation?_declared d
      after with
      ⟨r, hr, hHits⟩
  have hSplit :
      m.declareAll (before ++ d :: after) =
        (m.declareAll before).declareAll (d :: after) :=
    List.foldl_append
  rw [hSplit]
  exact ⟨r, List.mem_of_getElem? hr, hHits⟩

end Model

------------------------------------------------------------
-- What Relations Recall
------------------------------------------------------------

/-
  A relation recalls what has been declared of it, given what
  it was at the start, if it was there, and the declarations
  that have hit it since.  It has the ends and the kind that
  came first.  It is explicit if and only if that was declared
  at some time; otherwise its origin is the first one.  It
  lists the statements that declare it once each, in the order
  in which they came.
-/
structure Relation.Recalls
    (r : Relation)
    (start : Option Relation)
    (hits : List Declaration) : Prop where
  ends :
    (start.toList.map Relation.triple
      ++ hits.map (fun d => (d.source, d.target, d.kind))).head? =
        some r.triple
  explicit :
    r.isExplicit = true ↔
      (∃ s ∈ start, s.isExplicit = true) ∨
        ∃ d ∈ hits, d.origin.isExplicit = true
  first : r.isExplicit = false →
    (start.toList.map Relation.origin
      ++ hits.map Declaration.origin).head? = some r.origin
  occurrences :
    r.occurrences =
      (start.toList.flatMap Relation.occurrences
        ++ hits.filterMap Declaration.occurrence).eraseDups

namespace Relation.Recalls

variable {r : Relation}
variable {start : Option Relation}
variable {hits : List Declaration}
variable {d : Declaration}

/- At the start a relation recalls what it is. -/
theorem self (hDistinct : r.occurrences.Nodup) :
    r.Recalls (some r) [] where
  ends := rfl
  explicit := by simp
  first := fun _ => rfl
  occurrences := by
    simp [Sequence.eraseDups_of_nodup hDistinct]

/- A new relation recalls the declaration that added it. -/
theorem added (d : Declaration) (id : Nat) :
    (d.relation id).Recalls none [d] where
  ends := rfl
  explicit := by simp [Declaration.relation, isExplicit]
  first := fun _ => rfl
  occurrences := by
    cases hHere : d.occurrence with
    | none => simp [Declaration.relation, hHere]
    | some o =>
        have hOnce :=
          Sequence.eraseDups_of_nodup (List.nodup_singleton o)
        simp [Declaration.relation, hHere, hOnce]

/- A list of what came first does not change at its end. -/
theorem head?_kept
    {α : Type}
    {as : List α}
    {a : α}
    (hFirst : as.head? = some a)
    (bs : List α) :
    (as ++ bs).head? = some a := by
  rw [List.head?_append, hFirst]
  rfl

/- A relation recalls one more declaration that hits it. -/
theorem hit
    (hRecalls : r.Recalls start hits)
    (d : Declaration) :
    Relation.Recalls
      (Model.repeatRelation r d.origin d.occurrence) start
      (hits ++ [d]) := by
  constructor
  case ends =>
    rw [List.map_append, ← List.append_assoc]
    exact head?_kept hRecalls.ends _
  case explicit =>
    have hOrigin :
        (Model.repeatRelation r d.origin
            d.occurrence).isExplicit = true ↔
          r.isExplicit = true ∨ d.origin.isExplicit = true := by
      simp only [Model.repeatRelation, isExplicit]
      split
      · simp_all [Origin.isExplicit]
      · simp_all
    rw [hOrigin, hRecalls.explicit, or_assoc]
    simp [or_and_right, exists_or]
  case first =>
    intro hDerived
    have hOld : r.isExplicit = false ∧
        (Model.repeatRelation r d.origin d.occurrence).origin =
          r.origin := by
      simp only [Model.repeatRelation, isExplicit] at hDerived ⊢
      split at hDerived
      · simp [Origin.isExplicit] at hDerived
      · next hNot => exact ⟨hDerived, if_neg hNot⟩
    rw [hOld.2, List.map_append, ← List.append_assoc]
    exact head?_kept (hRecalls.first hOld.1) _
  case occurrences =>
    rw [List.filterMap_append, ← List.append_assoc]
    cases hHere : d.occurrence with
    | none =>
        simpa [Model.repeatRelation, hHere]
          using hRecalls.occurrences
    | some o =>
        have hOne :
            [d].filterMap Declaration.occurrence = [o] := by
          simp [hHere]
        rw [hOne, Sequence.eraseDups_concat,
          ← hRecalls.occurrences]
        rfl

/- A relation recalls a declaration if it is hit. -/
theorem after
    {ds : List Declaration}
    (hRecalls :
      r.Recalls start (ds.filter (fun d => d.Hits r)))
    (d : Declaration) :
    (r.after d).Recalls start
      ((ds ++ [d]).filter (fun e => e.Hits (r.after d))) := by
  have hSame : ∀ e : Declaration,
      e.Hits (r.after d) ↔ e.Hits r :=
    fun _ => Declaration.Hits.congr (r.after_ends d).2
  simp only [hSame, List.filter_append]
  unfold Relation.after
  by_cases hHits : d.Hits r
  · rw [if_pos hHits, List.filter_cons_of_pos (by simpa)]
    exact hRecalls.hit d
  · rw [if_neg hHits, List.filter_cons_of_neg (by simpa)]
    simpa using hRecalls

end Relation.Recalls

namespace Model

variable {m : Model}

/-
  Each relation recalls what it was at the start and all the
  declarations that hit it.
-/
theorem Registered.recalls
    (hRegistered : m.Registered)
    (ds : List Declaration)
    {id : Nat}
    {r : Relation}
    (hFound : (m.declareAll ds).relation? id = some r) :
    r.Recalls (m.relation? id)
      (ds.filter (fun d => d.Hits r)) := by
  -- one declaration after the other, the last one first
  induction ds using List.reverseRecOn generalizing r with
  | nil =>
      have hStart : m.relation? id = some r := hFound
      rw [hStart]
      exact
        .self
          (hRegistered.distinct r (List.mem_of_getElem? hStart))
  | append_singleton ds d ih =>
      have hBefore := hRegistered.declareAll ds
      have hLast :
          m.declareAll (ds ++ [d]) =
            (m.declareAll ds).declare d :=
        List.foldl_append
      rw [hLast] at hFound
      rcases hBefore.relation?_declare.mp hFound with
        ⟨s, hs, rfl⟩ | ⟨hNew, hNext, rfl⟩
      · exact (ih hs).after d
      · -- no declaration before has hit the new relation
        have hNone :
            ds.filter (fun e => e.Hits (d.relation id)) = [] := by
          rw [List.filter_eq_nil_iff]
          intro e he hHits
          rcases hRegistered.exists_hit he with ⟨s, hs, hOther⟩
          have hHits : e.Hits (d.relation id) := by
            simpa using hHits
          exact
            hNew s hs
              (hHits.shared hOther (d.hits_relation id))
        have hStart : m.relation? id = none := by
          cases hOld : m.relation? id with
          | none => rfl
          | some s =>
              rcases hRegistered.relation?_declareAll ds hOld with
                ⟨t, ht, _⟩
              have hLess := (List.getElem?_eq_some_iff.mp ht).1
              omega
        rw [hStart, List.filter_append, hNone,
          List.filter_cons_of_pos (by simp [d.hits_relation id])]
        exact .added d id

/-
  Whatever relations are declared on a model, they stay
  registered, each of them recalls all that hit it, and the id
  of a relation never changes.  Neither the ends nor the
  statements that declare a relation need be there.
-/
theorem declareAll_registered
    (hRegistered : m.Registered)
    (ds : List Declaration) :
    (m.declareAll ds).Registered ∧
      (∀ id r, (m.declareAll ds).relation? id = some r →
        r.Recalls (m.relation? id)
          (ds.filter (fun d => d.Hits r))) ∧
      (∀ before after, ds = before ++ after →
        ∀ id r, (m.declareAll before).relation? id = some r →
          ∃ s, (m.declareAll ds).relation? id = some s ∧
            s.id = r.id ∧ s.triple = r.triple) ∧
      ∀ before d after, ds = before ++ d :: after →
        ∃ r,
          (m.declareAll ds).relation?
              ((m.declareAll before).declaredId d) = some r ∧
            d.Hits r := by
  have hSplit : ∀ before after : List Declaration,
      m.declareAll (before ++ after) =
        (m.declareAll before).declareAll after :=
    fun _ _ => List.foldl_append
  refine
    ⟨hRegistered.declareAll ds,
      fun _ _ hFound => hRegistered.recalls ds hFound, ?_, ?_⟩
  · rintro before after rfl id r hFound
    rw [hSplit]
    exact
      (hRegistered.declareAll before).relation?_declareAll after
        hFound
  · rintro before d after rfl
    rw [hSplit]
    exact
      (hRegistered.declareAll before).relation?_declared d after

/- A model of two statements without relations. -/
def twoStatements : Model :=
  (empty.addStatement (Statement.new "A" .top)).addStatement
    (Statement.new "B" .top)

/-
  Declarations of a contradiction, from both ends, and of
  supports in both directions.
-/
def mixedDeclarations : List Declaration :=
  let a := Element.statement "A"
  let b := Element.statement "B"
  [ ⟨a, b, .contradiction, .derived .reciprocal, some 0⟩,
    ⟨a, b, .support, .derived .premiseAttack, none⟩,
    ⟨b, a, .contradiction, .explicit, some 1⟩,
    ⟨b, a, .support, .explicit, some 1⟩,
    ⟨a, b, .contradiction, .derived .reciprocal, some 0⟩,
    ⟨a, b, .support, .derived .conclusionPromotion, some 1⟩ ]

/-
  The contradiction is stored once and becomes explicit; each
  support is a relation of its own, and the derived one keeps
  its first rule.
-/
theorem declareAll_registered_mixed :
    twoStatements.Registered ∧
      (twoStatements.declareAll mixedDeclarations).Registered ∧
      (twoStatements.declareAll mixedDeclarations).relations =
        [ ⟨0, .statement "A", .statement "B", .contradiction,
            .explicit, [0, 1]⟩,
          ⟨1, .statement "A", .statement "B", .support,
            .derived .premiseAttack, [1]⟩,
          ⟨2, .statement "B", .statement "A", .support,
            .explicit, [1]⟩ ] ∧
      (twoStatements.declareAll
          mixedDeclarations).statements.map
            Statement.relations = [[0], [0, 2, 1]] := by
  have hStart : twoStatements.Registered :=
    .of_none (by decide +kernel) (by decide +kernel)
  exact
    ⟨hStart,
      (declareAll_registered hStart mixedDeclarations).1,
      by decide +kernel, by decide +kernel⟩

end Model

end Dialectic
