import Dialectic.Proofs.Model.Elements

/-
  Which classes of a model are marked as numbered, and what is
  said about its arguments.

  Key definitions include:
    * `Model.autoTitled?`
    * `Model.described`
    * `Model.SameMarks`

  Main theorems:
    * `Model.SameElements.marks`
    * `Model.addStatement_autoTitled`
-/

namespace Dialectic

------------------------------------------------------------
-- Changes That Keep Marks
------------------------------------------------------------

namespace Model

/- Whether the class of a title is marked as numbered. -/
def autoTitled? (m : Model) (title : String) : Option Bool :=
  (m.class? title).map EquivalenceClass.isAutoTitled

/- What is said about the argument of a title. -/
def described (m : Model) (title : String) : List String :=
  (m.argument? title).elim [] Argument.descriptions

/- Two models mark the same classes and describe the same. -/
structure SameMarks (m n : Model) : Prop where
  classes : ∀ title, n.autoTitled? title = m.autoTitled? title
  arguments : ∀ title, n.described title = m.described title

variable {m n : Model}

/- A model has the same marks as itself. -/
theorem SameMarks.refl (m : Model) : SameMarks m m :=
  ⟨fun _ => rfl, fun _ => rfl⟩

/- Equal elements have the same marks. -/
theorem SameMarks.of_eq
    (hClasses : n.classes = m.classes)
    (hArguments : n.arguments = m.arguments) :
    SameMarks m n := by
  constructor <;> intro title
  · rw [autoTitled?, autoTitled?, class?_congr hClasses]
  · rw [described, described, argument?_congr hArguments]

/- An argument that changes may keep what is said. -/
theorem modifyArgument_marks
    (m : Model)
    (title : String)
    {f : Argument → Argument}
    {hTitle : ∀ a, (f a).title = a.title}
    (hSaid : ∀ a, (f a).descriptions = a.descriptions) :
    SameMarks m (m.modifyArgument title f) := by
  constructor <;> intro other
  · rw [autoTitled?, autoTitled?, class?_modifyArgument]
  · rw [described, argument?_modifyArgument m title,
      described]
    split
    · cases m.argument? other with
      | none => rfl
      | some a => exact hSaid a
    · rfl

/- Models of the same elements have the same marks. -/
theorem SameElements.marks (hSame : SameElements m n) :
    SameMarks m n := by
  have hMark : ∀ c : Option EquivalenceClass,
      (c.map EquivalenceClass.bare).map
          EquivalenceClass.isAutoTitled =
        c.map EquivalenceClass.isAutoTitled := by
    intro c
    rw [Option.map_map]
    rfl
  have hSaid : ∀ a : Option Argument,
      (a.map Argument.bare).elim [] Argument.descriptions =
        a.elim [] Argument.descriptions := by
    intro a
    cases a <;> rfl
  constructor <;> intro title
  · rw [autoTitled?, autoTitled?, ← hMark, hSame.class?, hMark]
  · rw [described, described, ← hSaid, hSame.argument?, hSaid]

------------------------------------------------------------
-- Changes of Marks
------------------------------------------------------------

/- A class may be marked. -/
theorem markClass_autoTitled
    (m : Model)
    (title other : String) :
    (m.modifyClass title
        (fun c => { c with isAutoTitled := true })).autoTitled?
          other =
      if other = title then
        (m.autoTitled? other).map (fun _ => true)
      else
        m.autoTitled? other := by
  rw [autoTitled?, class?_modifyClass, autoTitled?]
  split
  · rw [Option.map_map, Option.map_map]
    rfl
  · rfl

/- A statement that is added leaves the mark of its class. -/
theorem addStatement_autoTitled
    (m : Model)
    (s : Statement)
    (title : String) :
    (m.addStatement s).autoTitled? title =
      if title = s.title then
        some ((m.autoTitled? title).getD false)
      else
        m.autoTitled? title := by
  have hKept : ∀ c : EquivalenceClass,
      (addMember s m.nextStatement c).isAutoTitled =
        c.isAutoTitled := by
    intro c
    unfold addMember
    cases s.role <;> rfl
  rw [autoTitled?, class?_addStatement, autoTitled?]
  by_cases hHere : title = s.title
  · simp only [hHere, if_true, class?_ensureClass, true_and]
    cases hFound : m.class? s.title with
    | none =>
        simp [hKept, EquivalenceClass.new]
    | some c => simp [hKept]
  · simp [hHere, class?_ensureClass]

end Model

end Dialectic
