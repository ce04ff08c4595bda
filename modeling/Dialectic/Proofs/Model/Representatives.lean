import Dialectic.Proofs.Data.DisjointSets
import Dialectic.Proofs.Model.Equivalence

/-
  Two classes have the same representative if and only if
  declared equivalences connect them.

  Key definitions include:
    * `Model.Lists`
    * `Model.Equivalent`

  Main theorems:
    * `Model.eqvGen_transport`
    * `Model.eqvGen_pairs_iff`
    * `Model.root_equivalentSets`
    * `Model.representative?_eq_iff`
-/

namespace Dialectic

namespace Model

------------------------------------------------------------
-- Generated Equivalences
------------------------------------------------------------

/-
  Whatever respects a relation respects the equivalence that
  it generates.  Only some items may have an image.
-/
theorem eqvGen_transport
    {α β : Type}
    {r : α → α → Prop}
    {s : β → β → Prop}
    {image : α → Option β}
    (hStep : ∀ a b, r a b →
      ∃ x y, image a = some x ∧ image b = some y ∧ s x y)
    {a b : α}
    (hJoined : Relation.EqvGen r a b)
    {x y : β}
    (hFirst : image a = some x)
    (hSecond : image b = some y) :
    Relation.EqvGen s x y := by
  -- items without an image are equivalent to themselves only
  have hImages :
      image a = image b ∨
        ∃ x y, image a = some x ∧ image b = some y ∧
          Relation.EqvGen s x y := by
    clear hFirst hSecond
    induction hJoined with
    | rel a b hRel =>
        rcases hStep a b hRel with ⟨x, y, hx, hy, hRel⟩
        exact .inr ⟨x, y, hx, hy, .rel x y hRel⟩
    | refl a => exact .inl rfl
    | symm a b _ ih =>
        rcases ih with hSame | ⟨x, y, hx, hy, hJoined⟩
        · exact .inl hSame.symm
        · exact .inr ⟨y, x, hy, hx, hJoined.symm⟩
    | trans a b c _ _ ihFirst ihSecond =>
        rcases ihFirst with hSame | ⟨x, y, hx, hy, hLeft⟩
        · rw [hSame]
          exact ihSecond
        · rcases ihSecond with hSame | ⟨u, v, hu, hv, hRight⟩
          · rw [← hSame]
            exact .inr ⟨x, y, hx, hy, hLeft⟩
          · rw [hu] at hy
            cases hy
            exact .inr ⟨x, v, hx, hv, hLeft.trans _ _ _ hRight⟩
  rcases hImages with hSame | ⟨u, v, hu, hv, hJoined⟩
  · rw [hFirst, hSecond] at hSame
    cases hSame
    exact .refl x
  · rw [hFirst] at hu
    rw [hSecond] at hv
    cases hu
    cases hv
    exact hJoined

------------------------------------------------------------
-- Equivalent Classes
------------------------------------------------------------

variable {m : Model}

/- The class of a title lists one of the model as equivalent. -/
def Lists (m : Model) (title other : String) : Prop :=
  other ∈ m.listedEquivalents title ∧
    m.contains (.statement other) = true

/-
  Declared equivalences connect the classes of two titles,
  through any number of classes.
-/
def Equivalent (m : Model) : String → String → Prop :=
  Relation.EqvGen m.Lists

/- The class of a title is at its index. -/
theorem class?_eq_getElem?
    {title : String}
    {i : Nat}
    (hIndex : m.classIndex? title = some i) :
    m.class? title = m.classes[i]? := by
  rw [class?, hIndex]
  rfl

/-
  The pairs of indices are those of classes of which one lists
  the other.
-/
theorem mem_equivalentPairs
    (hTitles : m.classTitles.Nodup)
    {i j : Nat} :
    (i, j) ∈ m.equivalentPairs ↔
      ∃ title other,
        m.classTitles[i]? = some title ∧
          m.classTitles[j]? = some other ∧
          m.Lists title other := by
  have hListed : ∀ {c : EquivalenceClass},
      m.classes[i]? = some c →
        m.listedEquivalents c.title = c.equivalentTo := by
    intro c hc
    have hIndex : m.classIndex? c.title = some i :=
      (classIndex?_eq_some_iff hTitles).mpr
        (by rw [classTitles, List.getElem?_map, hc]; rfl)
    rw [listedEquivalents, class?_eq_getElem? hIndex, hc]
  unfold equivalentPairs
  simp only [List.mem_flatMap, List.mem_filterMap,
    Option.map_eq_some_iff, Prod.mk.injEq, Prod.exists]
  constructor
  · rintro ⟨c, k, hMem, other, hOther, l, hIndex, rfl, rfl⟩
    have hc : m.classes[k]? = some c :=
      List.mem_zipIdx_iff_getElem?.mp hMem
    refine
      ⟨c.title, other, ?_,
        (classIndex?_eq_some_iff hTitles).mp hIndex, ?_, ?_⟩
    · rw [classTitles, List.getElem?_map, hc]
      rfl
    · rw [hListed hc]
      exact hOther
    · rw [contains, hIndex]
      rfl
  · rintro ⟨title, other, hTitle, hOther, hLists, _⟩
    rw [classTitles, List.getElem?_map] at hTitle
    rcases Option.map_eq_some_iff.mp hTitle with ⟨c, hc, rfl⟩
    rw [hListed hc] at hLists
    exact
      ⟨c, i, List.mem_zipIdx_iff_getElem?.mpr hc, other, hLists,
        j, (classIndex?_eq_some_iff hTitles).mpr hOther, rfl,
        rfl⟩

/-
  Pairs of indices connect two indices if and only if the
  classes there are equivalent.
-/
theorem eqvGen_pairs_iff
    (hTitles : m.classTitles.Nodup)
    {i j : Nat}
    {title other : String}
    (hFirst : m.classTitles[i]? = some title)
    (hSecond : m.classTitles[j]? = some other) :
    Relation.EqvGen (fun a b => (a, b) ∈ m.equivalentPairs)
        i j ↔
      m.Equivalent title other := by
  constructor
  · intro hJoined
    apply eqvGen_transport _ hJoined hFirst hSecond
    intro a b hPair
    exact (mem_equivalentPairs hTitles).mp hPair
  · intro hEquivalent
    apply eqvGen_transport _ hEquivalent
      ((classIndex?_eq_some_iff hTitles).mpr hFirst)
      ((classIndex?_eq_some_iff hTitles).mpr hSecond)
    intro one two hLists
    -- a class that lists another one is in the model, too
    have hOne : ∃ a, m.classIndex? one = some a := by
      rw [← Option.isSome_iff_exists]
      have hListed := hLists.1
      unfold listedEquivalents class? at hListed
      cases hIndex : m.classIndex? one with
      | none => simp [hIndex] at hListed
      | some a => rfl
    rcases hOne with ⟨a, ha⟩
    rcases Option.isSome_iff_exists.mp hLists.2 with ⟨b, hb⟩
    exact
      ⟨a, b, ha, hb,
        (mem_equivalentPairs hTitles).mpr
          ⟨one, two, (classIndex?_eq_some_iff hTitles).mp ha,
            (classIndex?_eq_some_iff hTitles).mp hb, hLists⟩⟩

/- The index of a class is below the number of classes. -/
theorem lt_of_classTitles
    {i : Nat}
    {title : String}
    (hTitle : m.classTitles[i]? = some title) :
    i < m.classes.length := by
  have hThere := (List.getElem?_eq_some_iff.mp hTitle).1
  rwa [classTitles, List.length_map] at hThere

/-
  The indices of two classes are in the same set if and only if
  pairs of indices connect them.
-/
theorem root_equivalentSets (hTitles : m.classTitles.Nodup) :
    m.equivalentSets.Connects
      (fun a b => (a, b) ∈ m.equivalentPairs) := by
  have hPairs : ∀ pair ∈ m.equivalentPairs,
      pair.1 < m.classes.length ∧ pair.2 < m.classes.length := by
    rintro ⟨i, j⟩ hPair
    rcases (mem_equivalentPairs hTitles).mp hPair with
      ⟨_, _, hFirst, hSecond, _⟩
    exact ⟨lt_of_classTitles hFirst, lt_of_classTitles hSecond⟩
  have hSize :
      (DisjointSets.singletons m.classes.length).size =
        m.classes.length :=
    List.length_range
  have hAll :=
    (DisjointSets.connects_singletons m.classes.length).joinAll
      (hSize.symm ▸ hPairs)
  simpa only [false_or, equivalentSets] using hAll

/- The representative of a class is a class. -/
theorem representative?_eq
    (hTitles : m.classTitles.Nodup)
    {title : String}
    {i : Nat}
    (hIndex : m.classIndex? title = some i) :
    m.representative? title =
        m.classTitles[m.equivalentSets.root i]? ∧
      m.equivalentSets.root i < m.classTitles.length := by
  have hHere : i < m.classes.length :=
    lt_of_classTitles ((classIndex?_eq_some_iff hTitles).mp hIndex)
  have hRoot :
      m.representativeIndices[i]? =
        some (m.equivalentSets.root i) := by
    rw [representativeIndices, DisjointSets.representatives_eq,
      List.getElem?_map, List.getElem?_range hHere]
    rfl
  constructor
  · simp only [representative?, hIndex, hRoot, classTitles,
      Option.bind_eq_bind, Option.bind_some, List.getElem?_map]
    cases m.classes[m.equivalentSets.root i]? <;> rfl
  · rw [classTitles, List.length_map]
    exact Nat.lt_of_le_of_lt (m.equivalentSets.root_le i) hHere

/-
  Two classes have the same representative if and only if they
  are equivalent.
-/
theorem representative?_eq_iff
    (hTitles : m.classTitles.Nodup)
    {title other : String}
    (hTitle : m.contains (.statement title) = true)
    (hOther : m.contains (.statement other) = true) :
    m.representative? title = m.representative? other ↔
      m.Equivalent title other := by
  rcases Option.isSome_iff_exists.mp hTitle with ⟨i, hi⟩
  rcases Option.isSome_iff_exists.mp hOther with ⟨j, hj⟩
  rcases representative?_eq hTitles hi with ⟨hFirst, hLess⟩
  rcases representative?_eq hTitles hj with ⟨hSecond, _⟩
  calc
    m.representative? title = m.representative? other ↔
        m.equivalentSets.root i = m.equivalentSets.root j := by
      rw [hFirst, hSecond]
      exact List.getElem?_inj hLess hTitles
    _ ↔ Relation.EqvGen
          (fun a b => (a, b) ∈ m.equivalentPairs) i j :=
      root_equivalentSets hTitles i j
    _ ↔ m.Equivalent title other :=
      eqvGen_pairs_iff hTitles
        ((classIndex?_eq_some_iff hTitles).mp hi)
        ((classIndex?_eq_some_iff hTitles).mp hj)

/- The class of a title has a representative. -/
theorem representative?_isSome
    (hTitles : m.classTitles.Nodup)
    {title : String}
    (hTitle : m.contains (.statement title) = true) :
    (m.representative? title).isSome = true := by
  rcases Option.isSome_iff_exists.mp hTitle with ⟨i, hi⟩
  rcases representative?_eq hTitles hi with ⟨hEq, hLess⟩
  rw [hEq, List.getElem?_eq_getElem hLess]
  rfl

end Model

end Dialectic
