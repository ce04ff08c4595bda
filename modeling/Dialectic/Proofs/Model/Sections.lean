import Dialectic.Model.Basic

/-
  Sections are ordered: each is behind the one that it is in.
  So the path to a section goes through the paths to those
  around it.  Adding elements to a model leaves its sections.

  Key definitions include:
    * `SectionsOrdered`
    * `Model.groupPath`

  Main theorems:
    * `Model.sectionPath_of_split`
    * `Model.groupPath_of_split`
    * `Model.addSection_ordered`
-/

namespace Dialectic

------------------------------------------------------------
-- Ordered Sections
------------------------------------------------------------

/-
  The id of each section is its index, and the section that it
  is in comes before it.
-/
def SectionsOrdered (sections : List Section) : Prop :=
  ∀ (i : Nat) (s : Section), sections[i]? = some s →
    s.id = i ∧ ∀ p, s.parent = some p → p < i

/- A list without sections is ordered. -/
theorem sectionsOrdered_nil : SectionsOrdered [] := by
  intro i s hFound
  simp at hFound

/- Sections stay ordered when the next one is added. -/
theorem SectionsOrdered.append
    {sections : List Section}
    (hOrdered : SectionsOrdered sections)
    {s : Section}
    (hId : s.id = sections.length)
    (hParent : ∀ p, s.parent = some p → p < sections.length) :
    SectionsOrdered (sections ++ [s]) := by
  intro i t hFound
  by_cases hOld : i < sections.length
  · rw [List.getElem?_append_left hOld] at hFound
    exact hOrdered i t hFound
  · rw [List.getElem?_append_right (by omega)] at hFound
    have hLast : i - sections.length = 0 := by
      rcases List.getElem?_eq_some_iff.mp hFound with ⟨hi, _⟩
      simpa using hi
    have hHere : i = sections.length := by omega
    rw [hLast] at hFound
    have hSame : s = t := by simpa using hFound
    subst hSame
    rw [hHere]
    exact ⟨hId, hParent⟩

namespace Model

variable {m : Model}

------------------------------------------------------------
-- Paths
------------------------------------------------------------

/- More fuel than the index of a section does not matter. -/
theorem enclosingSections_fuel
    (hOrdered : SectionsOrdered m.sections)
    {fuel more id : Nat}
    (hFuel : id < fuel)
    (hMore : id < more) :
    m.enclosingSections fuel id =
      m.enclosingSections more id := by
  induction fuel generalizing more id with
  | zero => omega
  | succ fuel ih =>
      cases more with
      | zero => omega
      | succ more =>
          unfold enclosingSections
          cases hFound : m.section? id with
          | none => rfl
          | some s =>
              cases hParent : s.parent with
              | none => simp [hParent]
              | some p =>
                  have hBefore :=
                    (hOrdered id s hFound).2 p hParent
                  have hRest :
                      m.enclosingSections fuel p =
                        m.enclosingSections more p :=
                    ih (by omega) (by omega)
                  simp [hParent, hRest]

/- There is no path to an id that no section has. -/
theorem sectionPath_of_none
    {id : Nat}
    (hNone : m.section? id = none) :
    m.sectionPath id = [] := by
  unfold sectionPath
  cases m.sections.length with
  | zero => rfl
  | succ fuel => simp [enclosingSections, hNone]

/- The path to a section goes through that to its parent. -/
theorem sectionPath_of_some
    (hOrdered : SectionsOrdered m.sections)
    {id : Nat}
    {s : Section}
    (hFound : m.section? id = some s) :
    m.sectionPath id =
      (match s.parent with
      | none => []
      | some p => m.sectionPath p) ++ [s] := by
  have hBound : id < m.sections.length :=
    (List.getElem?_eq_some_iff.mp hFound).1
  unfold sectionPath
  cases hLength : m.sections.length with
  | zero => omega
  | succ fuel =>
      rw [enclosingSections, hFound]
      cases hParent : s.parent with
      | none => simp [hParent]
      | some p =>
          have hBefore := (hOrdered id s hFound).2 p hParent
          have hRest :=
            enclosingSections_fuel hOrdered
              (show p < fuel by omega)
              (show p < fuel + 1 by omega)
          simp [hParent, hRest]

/-
  A section on the path to another one is the end of its own
  path, which is the first part of that to the other one.
-/
theorem sectionPath_of_split
    (hOrdered : SectionsOrdered m.sections)
    {id : Nat}
    {before after : List Section}
    {s : Section}
    (hPath : m.sectionPath id = before ++ s :: after) :
    m.sectionPath s.id = before ++ [s] := by
  induction id using Nat.strongRecOn generalizing after with
  | ind id ih =>
      cases hFound : m.section? id with
      | none =>
          rw [sectionPath_of_none hFound] at hPath
          simp at hPath
      | some t =>
          have hId := (hOrdered id t hFound).1
          have hSplit := sectionPath_of_some hOrdered hFound
          rcases List.eq_nil_or_concat after with
            hLast | ⟨rest, last, hRest⟩
          · -- the section itself
            have hWhole := hPath
            rw [hSplit, hLast] at hPath
            have hEnds := (List.append_inj' hPath rfl).2
            have hSame : t = s := by simpa using hEnds
            rw [← hSame, hId, hWhole, hLast, hSame]
          · -- a section around it
            rw [hSplit, hRest] at hPath
            have hParts :
                (match t.parent with
                | none => []
                | some p => m.sectionPath p) =
                  before ++ s :: rest := by
              have hSame :
                  (match t.parent with
                  | none => []
                  | some p => m.sectionPath p) ++ [t] =
                    (before ++ s :: rest) ++ [last] := by
                simpa using hPath
              exact (List.append_inj' hSame rfl).1
            cases hParent : t.parent with
            | none => simp [hParent] at hParts
            | some p =>
                rw [hParent] at hParts
                exact
                  ih p ((hOrdered id t hFound).2 p hParent)
                    hParts

/- The sections on the path to a section that become groups. -/
def groupPath (m : Model) (id : Nat) : List Section :=
  (m.sectionPath id).filter Section.isGroup

/- The same holds for those sections that become groups. -/
theorem groupPath_of_split
    (hOrdered : SectionsOrdered m.sections)
    {id : Nat}
    {before after : List Section}
    {s : Section}
    (hPath : m.groupPath id = before ++ s :: after) :
    m.groupPath s.id = before ++ [s] := by
  unfold groupPath at hPath ⊢
  rcases List.filter_eq_append_iff.mp hPath with
    ⟨first, second, hSplit, hBefore, hAfter⟩
  rcases List.filter_eq_cons_iff.mp hAfter with
    ⟨skipped, rest, hSecond, hSkipped, hGroup, _⟩
  have hWhole :
      m.sectionPath id = (first ++ skipped) ++ s :: rest := by
    rw [hSplit, hSecond, List.append_assoc]
  have hNone : skipped.filter Section.isGroup = [] := by
    rw [List.filter_eq_nil_iff]
    exact hSkipped
  rw [sectionPath_of_split hOrdered hWhole]
  simp [hBefore, hNone, hGroup]

------------------------------------------------------------
-- Operations
------------------------------------------------------------

/- Recording tags leaves the sections. -/
@[simp]
theorem recordTags_sections (m : Model) (tags : List String) :
    (m.recordTags tags).sections = m.sections :=
  rfl

/- Without sections, the statements are outside all of them. -/
@[simp]
theorem clearSections_statements (m : Model) :
    m.clearSections.statements =
      m.statements.map (fun s => { s with sectionId := none }) :=
  rfl

/- Without sections, the classes are outside all of them. -/
@[simp]
theorem clearSections_classes (m : Model) :
    m.clearSections.classes =
      m.classes.map (fun c => { c with sectionId := none }) :=
  rfl

/- Without sections, the arguments are outside all of them. -/
@[simp]
theorem clearSections_arguments (m : Model) :
    m.clearSections.arguments =
      m.arguments.map (fun a => { a with sectionId := none }) :=
  rfl

/- Changing a class leaves the sections. -/
@[simp]
theorem modifyClass_sections
    (m : Model)
    (title : String)
    (f : EquivalenceClass → EquivalenceClass)
    {hTitle : ∀ c, (f c).title = c.title} :
    (m.modifyClass title f).sections = m.sections := by
  unfold modifyClass
  cases m.classIndex? title <;> rfl

/- Changing a statement leaves the sections. -/
@[simp]
theorem modifyStatement_sections
    (m : Model)
    (id : Nat)
    (f : Statement → Statement) :
    (m.modifyStatement id f).sections = m.sections :=
  rfl

/- Changing an argument leaves the sections. -/
@[simp]
theorem modifyArgument_sections
    (m : Model)
    (title : String)
    (f : Argument → Argument)
    {hTitle : ∀ a, (f a).title = a.title} :
    (m.modifyArgument title f).sections = m.sections := by
  unfold modifyArgument
  cases m.argumentIndex? title <;> rfl

/- Adding a class leaves the sections. -/
@[simp]
theorem ensureClass_sections
    (m : Model)
    (title : String)
    (sectionId : Option Nat) :
    (m.ensureClass title sectionId).sections = m.sections := by
  unfold ensureClass
  cases m.classIndex? title <;> rfl

/- Adding an argument leaves the sections. -/
@[simp]
theorem ensureArgument_sections
    (m : Model)
    (title : String) :
    (m.ensureArgument title).sections = m.sections := by
  unfold ensureArgument
  cases m.argumentIndex? title <;> rfl

/- Adding a statement leaves the sections. -/
@[simp]
theorem addStatement_sections (m : Model) (s : Statement) :
    (m.addStatement s).sections = m.sections := by
  simp [addStatement]

/- Noting a relation at its end leaves the sections. -/
@[simp]
theorem linkEnd_sections
    (m : Model)
    (element : Element)
    (id : Nat) :
    (m.linkEnd element id).sections = m.sections := by
  cases element <;> simp [linkEnd]

/- Noting a relation at a statement leaves the sections. -/
@[simp]
theorem linkOccurrence_sections
    (m : Model)
    (occurrence : Option Nat)
    (id : Nat) :
    (m.linkOccurrence occurrence id).sections =
      m.sections := by
  cases occurrence <;> simp [linkOccurrence]

/- Adding a relation leaves the sections. -/
@[simp]
theorem addRelation_sections
    (m : Model)
    (source target : Element)
    (kind : RelationKind)
    (origin : Origin)
    (occurrence : Option Nat) :
    (m.addRelation source target kind origin
      occurrence).1.sections = m.sections := by
  unfold addRelation
  cases m.findRelation? source target kind <;>
    simp [appendRelation]

/- Declaring an equivalence leaves the sections. -/
@[simp]
theorem declareEquivalence_sections
    (m : Model)
    (first second : String) :
    (m.declareEquivalence first second).sections =
      m.sections := by
  unfold declareEquivalence
  split <;> simp [linkEquivalent]

/- The sections when one has been added. -/
theorem addSection_sections
    (m : Model)
    (title : String)
    (level : Nat)
    (parent : Option Nat)
    (tags : List String)
    (data : Record)
    (span : Span) :
    (m.addSection title level parent tags data span).sections =
      m.sections
        ++ [⟨m.nextSection, title, level, parent, tags, data,
          span⟩] :=
  rfl

/- Sections stay ordered when one is added. -/
theorem addSection_ordered
    (hOrdered : SectionsOrdered m.sections)
    {parent : Option Nat}
    (hParent : ∀ p, parent = some p → p < m.sections.length)
    (title : String)
    (level : Nat)
    (tags : List String)
    (data : Record)
    (span : Span) :
    SectionsOrdered
      (m.addSection title level parent tags data
        span).sections := by
  rw [addSection_sections]
  exact hOrdered.append rfl hParent

end Model

end Dialectic
