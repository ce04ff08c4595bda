import Dialectic.Proofs.Model.Building
import Dialectic.Proofs.Model.Links
import Dialectic.Proofs.Model.Outline

/-
  Where elements are when the sections of a model have been
  replaced.  An element that is in a section stays in it, so
  the first plan that lists an element decides; plans attract
  by their tags what is listed nowhere.  Statements move with
  the class that they are a member of, and nothing but the
  places changes, so that replacing the sections once more
  leads to the same model.

  Key definitions include:
    * `Outline.first?`
    * `SectionPlan.listed`
    * `Regrouping.Only`
    * `Regrouping.ClassAt`
    * `Regrouping.ArgumentAt`
    * `Regrouping.Moves`

  Main theorems:
    * `Regrouping.foldl_settles`
    * `Regrouping.ClassAt.placeListed`
    * `Regrouping.ClassAt.placeTagged`
    * `Regrouping.Moves.placeStatement`
    * `Model.regroup_ind`
    * `Model.regroup_places`
-/

namespace Dialectic

------------------------------------------------------------
-- Entries
------------------------------------------------------------

/- The place of the first entry whose plan satisfies `p`. -/
def Outline.first?
    (entries : Outline)
    (p : SectionPlan → Bool) : Option Nat :=
  entries.findIdx? (fun e => p e.2)

/- The first place is that of the first entry. -/
theorem Outline.find?_places
    (p : SectionPlan → Bool)
    (first : Nat)
    (entries : Outline) :
    ((places first entries).find?
        (fun place => p place.2)).map Prod.fst =
      (entries.first? p).map (first + ·) := by
  unfold first?
  induction entries generalizing first with
  | nil => rfl
  | cons e entries ih =>
      rw [places_cons, List.find?_cons, List.findIdx?_cons]
      cases hHere : p e.2 with
      | true => rfl
      | false =>
          simp only [ih, Bool.false_eq_true, if_false]
          cases entries.findIdx? (fun e => p e.2) with
          | none => rfl
          | some i => simp; omega

/-
  The place of an element: the first entry that lists its
  title, or else the first one that has one of its tags.
-/
def Outline.placeOf
    (entries : Outline)
    (listed : SectionPlan → List String)
    (title : String)
    (tags : List String) : Option Nat :=
  (entries.first? (fun plan => (listed plan).contains title)).or
    (entries.first? (fun plan => tags.any plan.tags.contains))

/- The place of an element among the plans with their ids. -/
theorem Outline.placeOf_eq
    (entries : Outline)
    (listed : SectionPlan → List String)
    (title : String)
    (tags : List String) :
    entries.placeOf listed title tags =
      (((places 0 entries).find?
        (fun place => (listed place.2).contains title)).map
          Prod.fst).or
        (((places 0 entries).find?
          (fun place =>
            tags.any place.2.tags.contains)).map Prod.fst) := by
  rw [find?_places (fun plan => (listed plan).contains title),
    find?_places (fun plan => tags.any plan.tags.contains)]
  simp [placeOf]

/- The elements that a plan lists. -/
def SectionPlan.listed (plan : SectionPlan) : List Element :=
  plan.statements.map .statement
    ++ plan.arguments.map .argument

namespace Regrouping

variable {m k : Model}

------------------------------------------------------------
-- Settled Elements
------------------------------------------------------------

/-
  If an element that is in no section is put into that of each
  plan that satisfies `p`, it stays in that of the first one.
-/
theorem foldl_settles
    (At : Model → Option Nat → Prop)
    {put : Model → Nat × SectionPlan → Model}
    {p : SectionPlan → Bool}
    (hStep : ∀ {k : Model} {s : Option Nat}
      (place : Nat × SectionPlan), At k s →
        At (put k place)
          (s.or (if p place.2 then some place.1 else none)))
    (places : Placements)
    {s : Option Nat}
    (hAt : At k s) :
    At (places.foldl put k)
      (s.or
        ((places.find? (fun place => p place.2)).map
          Prod.fst)) := by
  induction places generalizing k s with
  | nil => simpa using hAt
  | cons place places ih =>
      have hRest := ih (hStep place hAt)
      rw [List.foldl_cons, List.find?_cons]
      cases hHere : p place.2 with
      | true => cases s <;> simpa [hHere] using hRest
      | false => simpa [hHere] using hRest

/-
  If an element moves whenever its title comes, and moving it
  again has no effect, it has moved after some titles if its
  own one is among them.
-/
theorem foldl_titles
    (At : Model → Option Nat → Prop)
    {put : Model → String → Model}
    (move : Option Nat → Option Nat)
    (hAgain : ∀ s, move (move s) = move s)
    {own : String}
    (hStep : ∀ {k : Model} {s : Option Nat} (title : String),
      At k s →
        At (put k title) (if title = own then move s else s))
    (titles : List String)
    {s : Option Nat}
    (hAt : At k s) :
    At (titles.foldl put k)
      (if titles.contains own then move s else s) := by
  induction titles generalizing k s with
  | nil => simpa using hAt
  | cons title titles ih =>
      have hRest := ih (hStep title hAt)
      rw [List.foldl_cons]
      by_cases hOwn : title = own
      · subst hOwn
        simpa [hAgain] using hRest
      · have hApart : ¬ own = title :=
          fun hSame => hOwn hSame.symm
        simpa [hOwn, hApart] using hRest

------------------------------------------------------------
-- Items of a Key of Their Own
------------------------------------------------------------

/- An item at an index is the only one of its key. -/
structure Only
    {α : Type}
    (key : α → String)
    (as : List α)
    (i : Nat)
    (a : α) : Prop where
  here : as[i]? = some a
  only : ∀ j, (as.map key)[j]? = some (key a) → j = i

section Only

variable {α : Type} {key : α → String} {as : List α}
variable {i : Nat} {a : α}

/- The only item of a key is chosen if its key is. -/
theorem Only.contains_chosen
    (hOnly : Only key as i a)
    (p : α → Bool) :
    ((as.filter p).map key).contains (key a) = p a := by
  rw [Bool.eq_iff_iff, List.contains_iff_mem]
  constructor
  · intro hMem
    rcases List.mem_map.mp hMem with ⟨b, hb, hKey⟩
    rcases List.mem_filter.mp hb with ⟨hThere, hChosen⟩
    rcases List.mem_iff_getElem?.mp hThere with ⟨j, hj⟩
    have hSame : j = i := hOnly.only j (by simp [hj, hKey])
    rw [hSame, hOnly.here] at hj
    rw [Option.some.inj hj]
    exact hChosen
  · intro hChosen
    exact
      List.mem_map_of_mem
        (List.mem_filter.mpr
          ⟨List.mem_of_getElem? hOnly.here, hChosen⟩)

/- The only item of a key is the last one of it. -/
theorem Only.lastIndex?
    (hOnly : Only key as i a) :
    Sequence.lastIndex? (fun b => key b == key a) as =
      some i := by
  have hThere :
      (Sequence.lastIndex? (fun b => key b == key a)
        as).isSome = true := by
    rw [Sequence.lastIndex?_isSome, List.any_eq_true]
    exact
      ⟨a, List.mem_of_getElem? hOnly.here, beq_self_eq_true _⟩
  rcases Option.isSome_iff_exists.mp hThere with ⟨j, hLast⟩
  rcases Sequence.lastIndex?_some hLast with ⟨b, hb, hKey⟩
  rw [hLast, hOnly.only j (by simp [hb, eq_of_beq hKey])]

/- Changing all items but not their keys changes the only one. -/
theorem Only.map
    (hOnly : Only key as i a)
    {f : α → α}
    (hKey : ∀ b, key (f b) = key b) :
    Only key (as.map f) i (f a) := by
  constructor
  · rw [List.getElem?_map, hOnly.here]
    rfl
  · rw [Sequence.map_map_of_kept hKey, hKey]
    exact hOnly.only

/-
  Changing the last item of a key, if there is one, changes the
  only item of another key, or of the same one.
-/
theorem Only.modifyLast
    (hOnly : Only key as i a)
    {f : α → α}
    (hKey : ∀ b, key (f b) = key b)
    (title : String) :
    Only key
      (match Sequence.lastIndex? (fun b => key b == title) as
        with
      | some j => as.modify j f
      | none => as)
      i (if title = key a then f a else a) := by
  cases hLast :
      Sequence.lastIndex? (fun b => key b == title) as with
  | none =>
      have hApart : title ≠ key a := by
        rintro rfl
        rw [hOnly.lastIndex?] at hLast
        cases hLast
      rw [if_neg hApart]
      exact hOnly
  | some j =>
      rcases Sequence.lastIndex?_some hLast with
        ⟨b, hb, hTitle⟩
      have hSame : key b = title := eq_of_beq hTitle
      have hIndex : j = i ↔ title = key a := by
        constructor
        · rintro rfl
          rw [hOnly.here] at hb
          rw [Option.some.inj hb]
          exact hSame.symm
        · intro hOwn
          exact hOnly.only j (by simp [hb, hSame, hOwn])
      constructor
      · rw [List.getElem?_modify, hOnly.here]
        by_cases hOwn : title = key a
        · simp [hOwn, hIndex.mpr hOwn]
        · simp [hOwn, mt hIndex.mp hOwn]
      · have hKeys : (as.modify j f).map key = as.map key :=
          Sequence.map_modify j f key hKey as
        rw [hKeys]
        split
        · rw [hKey]
          exact hOnly.only
        · exact hOnly.only

end Only

------------------------------------------------------------
-- Moved Classes
------------------------------------------------------------

/- Put a statement into a section. -/
def moveStatement (id : Nat) (m : Model) (x : Nat) : Model :=
  m.modifyStatement x (fun s => { s with sectionId := some id })

/-
  Putting a class into a section changes the class, if it is
  in none, and its members.
-/
theorem placeStatement_cases
    (id : Nat)
    (m : Model)
    (title : String) :
    (placeStatement id m title = m ∧
        ∀ i c, m.classIndex? title = some i →
          m.classes[i]? = some c → c.sectionId ≠ none) ∨
      ∃ i c, m.classIndex? title = some i ∧
        m.classes[i]? = some c ∧ c.sectionId = none ∧
        placeStatement id m title =
          c.members.foldl (moveStatement id)
            (m.modifyClass title
              (fun c => { c with sectionId := some id })) := by
  unfold placeStatement Model.class?
  cases hIndex : m.classIndex? title with
  | none =>
      left
      exact ⟨rfl, fun _ _ hNone => by cases hNone⟩
  | some i =>
      rcases Model.classIndex?_some hIndex with ⟨c, hc, _⟩
      simp only [Option.bind_some, hc]
      by_cases hFree : c.sectionId = none
      · right
        refine ⟨i, c, rfl, hc, hFree, ?_⟩
        simp only [hFree, Option.isNone_none, if_true]
        rfl
      · left
        have hHeld : ¬ c.sectionId.isNone = true := by
          simpa using hFree
        rw [if_neg hHeld]
        refine ⟨rfl, ?_⟩
        intro j d hj hd
        cases hj
        rw [hc] at hd
        exact (Option.some.inj hd) ▸ hFree

/- Moving statements leaves the classes. -/
theorem moveStatements_classes
    (id : Nat)
    (members : List Nat)
    (m : Model) :
    (members.foldl (moveStatement id) m).classes =
      m.classes :=
  Model.foldl_kept Model.classes (f := moveStatement id)
    (fun _ _ => rfl) members m

/- Moving statements leaves the arguments. -/
theorem moveStatements_arguments
    (id : Nat)
    (members : List Nat)
    (m : Model) :
    (members.foldl (moveStatement id) m).arguments =
      m.arguments :=
  Model.foldl_kept Model.arguments (f := moveStatement id)
    (fun _ _ => rfl) members m

/- Putting a class into a section leaves the arguments. -/
theorem placeStatement_arguments
    (id : Nat)
    (m : Model)
    (title : String) :
    (placeStatement id m title).arguments = m.arguments := by
  rcases placeStatement_cases id m title with
    ⟨hSame, _⟩ | ⟨_, c, _, _, _, hMoved⟩
  · rw [hSame]
  · rw [hMoved, moveStatements_arguments,
      Model.modifyClass_arguments]

------------------------------------------------------------
-- Places
------------------------------------------------------------

/-
  A class at an index of a model is the only one of its title
  and the same as before but for its section.
-/
def ClassAt
    (i : Nat)
    (c : EquivalenceClass)
    (k : Model)
    (s : Option Nat) : Prop :=
  Only EquivalenceClass.title k.classes i
    { c with sectionId := s }

/- An argument at an index of a model, likewise. -/
def ArgumentAt
    (i : Nat)
    (a : Argument)
    (k : Model)
    (s : Option Nat) : Prop :=
  Only Argument.title k.arguments i { a with sectionId := s }

variable {i : Nat} {c : EquivalenceClass} {a : Argument}
variable {s : Option Nat}

/- A class that is the only one of its title is found by it. -/
theorem ClassAt.index
    (hAt : ClassAt i c k s) :
    k.classIndex? c.title = some i := by
  rw [Model.classIndex?_eq]
  exact hAt.lastIndex?

/- A class is where it is in a model of the same classes. -/
theorem ClassAt.congr
    (hAt : ClassAt i c m s)
    (hSame : k.classes = m.classes) :
    ClassAt i c k s := by
  rw [ClassAt, hSame]
  exact hAt

/- An argument is where it is among the same arguments. -/
theorem ArgumentAt.congr
    (hAt : ArgumentAt i a m s)
    (hSame : k.arguments = m.arguments) :
    ArgumentAt i a k s := by
  rw [ArgumentAt, hSame]
  exact hAt

/- Changing the class of a title changes the last such class. -/
theorem modifyClass_classes
    (m : Model)
    (title : String)
    (f : EquivalenceClass → EquivalenceClass)
    {hTitle : ∀ c, (f c).title = c.title} :
    (m.modifyClass title f).classes =
      match Sequence.lastIndex? (fun c => c.title == title)
        m.classes with
      | some j => m.classes.modify j f
      | none => m.classes := by
  rw [← Model.classIndex?_eq, Model.modifyClass]
  cases m.classIndex? title <;> rfl

/- Changing the argument of a title likewise. -/
theorem modifyArgument_arguments
    (m : Model)
    (title : String)
    (f : Argument → Argument)
    {hTitle : ∀ a, (f a).title = a.title} :
    (m.modifyArgument title f).arguments =
      match Sequence.lastIndex? (fun a => a.title == title)
        m.arguments with
      | some j => m.arguments.modify j f
      | none => m.arguments := by
  rw [← Model.argumentIndex?_eq, Model.modifyArgument]
  cases m.argumentIndex? title <;> rfl

/- Another section of a class changes it if it is its own. -/
theorem ClassAt.modifyClass
    (hAt : ClassAt i c k s)
    (title : String)
    (move : Option Nat → Option Nat) :
    ClassAt i c
      (k.modifyClass title
        (fun c => { c with sectionId := move c.sectionId }))
      (if title = c.title then move s else s) := by
  have hMoved :=
    hAt.modifyLast
      (f := fun c => { c with sectionId := move c.sectionId })
      (fun _ => rfl) title
  rw [ClassAt, modifyClass_classes]
  by_cases hOwn : title = c.title
  · rw [if_pos hOwn] at hMoved ⊢
    exact hMoved
  · rw [if_neg hOwn] at hMoved ⊢
    exact hMoved

/- Another section of an argument changes its own one. -/
theorem ArgumentAt.modifyArgument
    (hAt : ArgumentAt i a k s)
    (title : String)
    (move : Option Nat → Option Nat) :
    ArgumentAt i a
      (k.modifyArgument title
        (fun a => { a with sectionId := move a.sectionId }))
      (if title = a.title then move s else s) := by
  have hMoved :=
    hAt.modifyLast
      (f := fun a => { a with sectionId := move a.sectionId })
      (fun _ => rfl) title
  rw [ArgumentAt, modifyArgument_arguments]
  by_cases hOwn : title = a.title
  · rw [if_pos hOwn] at hMoved ⊢
    exact hMoved
  · rw [if_neg hOwn] at hMoved ⊢
    exact hMoved

/- A class that is in no section is put into a section. -/
theorem ClassAt.placeStatement
    (hAt : ClassAt i c k s)
    (id : Nat)
    (title : String) :
    ClassAt i c (placeStatement id k title)
      (if title = c.title then s.or (some id) else s) := by
  rcases placeStatement_cases id k title with
    ⟨hSame, hHeld⟩ | ⟨j, d, hLast, hd, hFree, hMoved⟩
  · rw [hSame]
    by_cases hOwn : title = c.title
    · have hSection : s ≠ none :=
        hHeld i _ (hOwn ▸ hAt.index) hAt.here
      rcases Option.ne_none_iff_exists'.mp hSection with
        ⟨id', rfl⟩
      rw [if_pos hOwn]
      exact hAt
    · rw [if_neg hOwn]
      exact hAt
  · rw [hMoved]
    have hClass :=
      (hAt.modifyClass title (fun _ => some id)).congr
        (moveStatements_classes id d.members _)
    by_cases hOwn : title = c.title
    · rw [hOwn, hAt.index] at hLast
      cases hLast
      cases hAt.here.symm.trans hd
      cases hFree
      simpa [hOwn] using hClass
    · simpa [hOwn] using hClass

/- An argument that is in no section is put into a section. -/
theorem ArgumentAt.placeArgument
    (hAt : ArgumentAt i a k s)
    (id : Nat)
    (title : String) :
    ArgumentAt i a (placeArgument id k title)
      (if title = a.title then s.or (some id) else s) := by
  have hMove : ∀ b : Argument,
      (if b.sectionId.isNone then
          { b with sectionId := some id }
        else
          b) =
        { b with sectionId := b.sectionId.or (some id) } := by
    intro b
    rcases b with ⟨_, _, _, _, sectionId⟩
    cases sectionId <;> rfl
  unfold Regrouping.placeArgument
  simp only [hMove]
  exact hAt.modifyArgument title (fun s => s.or (some id))

------------------------------------------------------------
-- Rounds of Placement
------------------------------------------------------------

/- Elements that are listed are put into the section. -/
theorem or_if
    (s : Option Nat)
    (id : Nat)
    (chosen : Bool) :
    s.or (if chosen then some id else none) =
      if chosen then s.or (some id) else s := by
  cases chosen <;> simp

/- A class is where a plan that lists it puts it. -/
theorem ClassAt.placeListed
    (hAt : ClassAt i c k s)
    (place : Nat × SectionPlan) :
    ClassAt i c (placeListed k place)
      (s.or
        (if place.2.statements.contains c.title then
          some place.1
        else
          none)) := by
  have hStatements :=
    foldl_titles (ClassAt i c)
      (fun s => s.or (some place.1)) (fun s => by simp)
      (fun title hAt => hAt.placeStatement place.1 title)
      place.2.statements hAt
  rw [or_if]
  exact
    hStatements.congr
      (Model.foldl_kept Model.classes
        (fun m title => Model.modifyArgument_classes m title _)
        _ _)

/- An argument is where a plan that lists it puts it. -/
theorem ArgumentAt.placeListed
    (hAt : ArgumentAt i a k s)
    (place : Nat × SectionPlan) :
    ArgumentAt i a (placeListed k place)
      (s.or
        (if place.2.arguments.contains a.title then
          some place.1
        else
          none)) := by
  have hStatements :=
    hAt.congr
      (Model.foldl_kept Model.arguments
        (placeStatement_arguments place.1)
        place.2.statements k)
  rw [or_if]
  exact
    foldl_titles (ArgumentAt i a)
      (fun s => s.or (some place.1)) (fun s => by simp)
      (fun title hAt => hAt.placeArgument place.1 title)
      place.2.arguments hStatements

/-
  Moving what is in no section, if it has a tag of a plan, is
  moving what has a tag, unless it is in a section.
-/
theorem if_attracts
    (plan : SectionPlan)
    (tags : List String)
    (id : Nat)
    (move : Option Nat → Option Nat)
    (hMove : move none = some id)
    (s : Option Nat) :
    (if attracts plan s tags then move s else s) =
      s.or
        (if tags.any plan.tags.contains then some id
        else none) := by
  cases s with
  | none =>
      rw [hMove]
      rfl
  | some id' => rfl

/- A class is where a plan that attracts it puts it. -/
theorem ClassAt.placeTagged
    (hAt : ClassAt i c k s)
    (place : Nat × SectionPlan) :
    ClassAt i c (placeTagged k place)
      (s.or
        (if c.tags.any place.2.tags.contains then
          some place.1
        else
          none)) := by
  have hChosen :=
    hAt.contains_chosen
      (fun c => attracts place.2 c.sectionId c.tags)
  have hStatements :=
    foldl_titles (ClassAt i c)
      (fun s => s.or (some place.1)) (fun s => by simp)
      (fun title hAt => hAt.placeStatement place.1 title)
      ((k.classes.filter
        (fun c => attracts place.2 c.sectionId c.tags)).map
        EquivalenceClass.title)
      hAt
  simp only at hChosen
  rw [hChosen,
    if_attracts place.2 c.tags place.1
      (fun s => s.or (some place.1)) rfl]
    at hStatements
  exact
    hStatements.congr
      (Model.foldl_kept Model.classes
        (fun m title => Model.modifyArgument_classes m title _)
        _ _)

/- An argument is where a plan that attracts it puts it. -/
theorem ArgumentAt.placeTagged
    (hAt : ArgumentAt i a k s)
    (place : Nat × SectionPlan) :
    ArgumentAt i a (placeTagged k place)
      (s.or
        (if a.tags.any place.2.tags.contains then
          some place.1
        else
          none)) := by
  have hChosen :=
    hAt.contains_chosen
      (fun a => attracts place.2 a.sectionId a.tags)
  have hStatements :=
    hAt.congr
      (Model.foldl_kept Model.arguments
        (placeStatement_arguments place.1)
        ((k.classes.filter
          (fun c => attracts place.2 c.sectionId c.tags)).map
          EquivalenceClass.title)
        k)
  have hArguments :=
    foldl_titles (ArgumentAt i a)
      (fun _ => some place.1) (fun _ => rfl)
      (fun title hAt =>
        hAt.modifyArgument title (fun _ => some place.1))
      ((k.arguments.filter
        (fun a => attracts place.2 a.sectionId a.tags)).map
        Argument.title)
      hStatements
  simp only at hChosen
  rw [hChosen,
    if_attracts place.2 a.tags place.1
      (fun _ => some place.1) rfl]
    at hArguments
  exact hArguments

------------------------------------------------------------
-- Members
------------------------------------------------------------

/- Where a statement is when some statements have moved. -/
theorem moveStatements_statement
    (id x : Nat)
    (members : List Nat)
    (m : Model) :
    (members.foldl (moveStatement id) m).statements[x]? =
      (m.statements[x]?).map
        (fun s =>
          if x ∈ members then { s with sectionId := some id }
          else s) := by
  induction members generalizing m with
  | nil => simp
  | cons y members ih =>
      rw [List.foldl_cons, ih, moveStatement,
        Model.modifyStatement, List.getElem?_modify]
      by_cases hHere : y = x
      · subst hHere
        cases m.statements[y]? <;> simp
      · have hApart : ¬ x = y := fun hSame => hHere hSame.symm
        simp [hHere, hApart]

/-
  The members of each class are as before, and a statement is
  where the class at an index is.
-/
structure Moves
    (m : Model)
    (x : Nat)
    (t : Statement)
    (i : Nat)
    (k : Model) : Prop where
  members :
    k.classes.map EquivalenceClass.members =
      m.classes.map EquivalenceClass.members
  place : ∃ c, k.classes[i]? = some c ∧
    k.statements[x]? =
      some { t with sectionId := c.sectionId }

variable {x : Nat} {t : Statement}

/-
  A statement moves with the class that it is a member of, if
  it is a member of no other one.
-/
theorem Moves.placeStatement
    (hMoves : Moves m x t i k)
    (hMember : ∀ j c, m.classes[j]? = some c →
      (x ∈ c.members ↔ j = i))
    (id : Nat)
    (title : String) :
    Moves m x t i (placeStatement id k title) := by
  rcases placeStatement_cases id k title with
    ⟨hSame, _⟩ | ⟨j, d, hLast, hd, hFree, hMoved⟩
  · rw [hSame]
    exact hMoves
  · have hClasses :
        (Regrouping.placeStatement id k title).classes =
          k.classes.modify j
            (fun c => { c with sectionId := some id }) := by
      rw [hMoved, moveStatements_classes, Model.modifyClass,
        hLast]
    have hKnown : x ∈ d.members ↔ j = i := by
      have hBoth :=
        congrArg (fun lists => lists[j]?) hMoves.members
      simp only [List.getElem?_map, hd, Option.map_some]
        at hBoth
      rcases Option.map_eq_some_iff.mp hBoth.symm with
        ⟨c, hc, hSame⟩
      rw [← hSame]
      exact hMember j c hc
    rcases hMoves.place with ⟨c, hc, hPlace⟩
    constructor
    · rw [hClasses,
        Sequence.map_modify j _ EquivalenceClass.members]
      · exact hMoves.members
      · exact fun _ => rfl
    · rw [hClasses, hMoved, moveStatements_statement,
        Model.modifyClass_statements, hPlace,
        List.getElem?_modify, hc]
      by_cases hHere : j = i
      · refine ⟨{ c with sectionId := some id }, ?_, ?_⟩
        · simp [hHere]
        · simp [hKnown.mpr hHere]
      · refine ⟨c, ?_, ?_⟩
        · simp [hHere]
        · simp [mt hKnown.mp hHere]

/- Arguments may change while statements move. -/
theorem Moves.modifyArgument
    (hMoves : Moves m x t i k)
    (title : String)
    (f : Argument → Argument)
    {hTitle : ∀ a, (f a).title = a.title} :
    Moves m x t i (k.modifyArgument title f) := by
  constructor
  · rw [Model.modifyArgument_classes]
    exact hMoves.members
  · rw [Model.modifyArgument_classes,
      Model.modifyArgument_statements]
    exact hMoves.place

------------------------------------------------------------
-- Unplaced Models
------------------------------------------------------------

/- A statement that is taken out of its section. -/
def unplacedStatement (s : Statement) : Statement :=
  { s with sectionId := none }

/- A class that is taken out of its section. -/
def unplacedClass (c : EquivalenceClass) : EquivalenceClass :=
  { c with sectionId := none }

/- An argument that is taken out of its section. -/
def unplacedArgument (a : Argument) : Argument :=
  { a with sectionId := none }

/-
  Models are the same without sections if their elements are
  when taken out of them.
-/
theorem clearSections_congr
    (hStatements :
      k.statements.map unplacedStatement =
        m.statements.map unplacedStatement)
    (hClasses :
      k.classes.map unplacedClass =
        m.classes.map unplacedClass)
    (hArguments :
      k.arguments.map unplacedArgument =
        m.arguments.map unplacedArgument)
    (hRelations : k.relations = m.relations)
    (hTags : k.tags = m.tags) :
    k.clearSections = m.clearSections :=
  Model.ext_of_data hStatements hClasses hArguments hRelations
    rfl hTags

/- Without sections, all models of an outline are the same. -/
theorem clearSections_outlined
    (m : Model)
    (entries : Outline) :
    (outlined m.clearSections entries).clearSections =
      m.clearSections := by
  apply clearSections_congr <;>
    simp [outlined, Model.clearSections, Model.mapClasses,
      Model.mapArguments, Function.comp_def,
      unplacedStatement, unplacedClass, unplacedArgument]

/- Without sections, it does not matter where a class is. -/
theorem clearSections_placeStatement
    (id : Nat)
    (m : Model)
    (title : String) :
    (placeStatement id m title).clearSections =
      m.clearSections := by
  have hStatements : ∀ (k : Model) (x : Nat),
      (moveStatement id k x).clearSections =
        k.clearSections := by
    intro k x
    refine clearSections_congr ?_ rfl rfl rfl rfl
    apply Sequence.map_modify
    exact fun _ => rfl
  rcases placeStatement_cases id m title with
    ⟨hSame, _⟩ | ⟨j, c, hLast, _, _, hMoved⟩
  · rw [hSame]
  · rw [hMoved,
      Model.foldl_kept Model.clearSections hStatements,
      Model.modifyClass, hLast]
    refine clearSections_congr rfl ?_ rfl rfl rfl
    apply Sequence.map_modify
    exact fun _ => rfl

/- Without sections, it does not matter where arguments are. -/
theorem clearSections_modifyArgument
    (m : Model)
    (title : String)
    {f : Argument → Argument}
    {hTitle : ∀ a, (f a).title = a.title}
    (hPlace : ∀ a, ∃ s, f a = { a with sectionId := s }) :
    (m.modifyArgument title f).clearSections =
      m.clearSections := by
  unfold Model.modifyArgument
  cases m.argumentIndex? title with
  | none => rfl
  | some j =>
      refine clearSections_congr rfl rfl ?_ rfl rfl
      apply Sequence.map_modify
      intro a
      rcases hPlace a with ⟨s, hSame⟩
      rw [hSame]
      rfl

end Regrouping

------------------------------------------------------------
-- Regrouped Models
------------------------------------------------------------

namespace Model

open Regrouping

/-
  The sections of a model are replaced in three steps: those
  of the plans are added, the plans place what they list, and
  then they place what they attract.
-/
theorem regroup_eq
    (m : Model)
    (plans : List SectionPlan) :
    m.regroup plans =
      let entries := SectionPlan.preorderOf 1 plans
      let places := Outline.places 0 entries
      let start := outlined m.clearSections entries
      (places.foldl placeTagged
          (places.foldl placeListed start),
        places.flatMap
          (fun place => unknownElements start place.2)) := by
  have hAdded := addSections_eq m.clearSections [] 1 plans
  unfold regroup
  rw [show addSections m.clearSections none 1 plans = _ from
    hAdded]
  rfl

/-
  What holds when the sections of some plans have been added,
  and stays when classes and arguments are placed, holds when
  the sections have been replaced.
-/
theorem regroup_ind
    {P : Model → Prop}
    (m : Model)
    (plans : List SectionPlan)
    (hStart :
      P (outlined m.clearSections
        (SectionPlan.preorderOf 1 plans)))
    (hStatement : ∀ k id title, P k →
      P (placeStatement id k title))
    (hArgument : ∀ k title f,
      ∀ hTitle : ∀ a : Argument, (f a).title = a.title,
        (∀ a, ∃ s, f a = { a with sectionId := s }) →
          P k → P (k.modifyArgument title f)) :
    P (m.regroup plans).1 := by
  have hListed : ∀ k place, P k → P (placeListed k place) := by
    intro k place hK
    refine
      List.foldlRecOn place.2.arguments _ (motive := P)
        (List.foldlRecOn place.2.statements _ (motive := P) hK
          (fun k hK title _ => hStatement k _ title hK))
        (fun k hK title _ => hArgument k title _ _ ?_ hK)
    intro a
    split
    · exact ⟨_, rfl⟩
    · exact ⟨a.sectionId, rfl⟩
  have hTagged : ∀ k place, P k → P (placeTagged k place) := by
    intro k place hK
    exact
      List.foldlRecOn _ _ (motive := P)
        (List.foldlRecOn _ _ (motive := P) hK
          (fun k hK title _ => hStatement k _ title hK))
        (fun k hK title _ =>
          hArgument k title _ _ (fun _ => ⟨_, rfl⟩) hK)
  rw [regroup_eq]
  exact
    List.foldlRecOn _ _ (motive := P)
      (List.foldlRecOn _ _ (motive := P) hStart
        (fun k hK place _ => hListed k place hK))
      (fun k hK place _ => hTagged k place hK)

/- But for the sections, a model is the same as before. -/
theorem regroup_clearSections
    (m : Model)
    (plans : List SectionPlan) :
    (m.regroup plans).1.clearSections = m.clearSections :=
  regroup_ind (P := fun k => k.clearSections = m.clearSections)
    m plans (clearSections_outlined m _)
    (fun k id title hK =>
      (clearSections_placeStatement id k title).trans hK)
    (fun k title _ _ hPlace hK =>
      (clearSections_modifyArgument k title hPlace).trans hK)

/-
  Listed elements that a model does not have are not in it
  while sections are replaced either.
-/
theorem unknown_eq
    (m : Model)
    (entries : Outline) :
    (Outline.places 0 entries).flatMap
        (fun place =>
          unknownElements (outlined m.clearSections entries)
            place.2) =
      (entries.flatMap (fun e => e.2.listed)).filter
        (fun e => !m.contains e) := by
  have hContains : ∀ e,
      (outlined m.clearSections entries).contains e =
        m.contains e :=
    contains_congr List.map_map List.map_map
  have hPlans : ∀ (first : Nat) (entries : Outline),
      (Outline.places first entries).map Prod.snd =
        entries.map Prod.snd := by
    intro first entries
    induction entries generalizing first with
    | nil => rfl
    | cons e entries ih =>
        rw [Outline.places_cons, List.map_cons, ih,
          List.map_cons]
  have hUnknown : ∀ plan,
      unknownElements (outlined m.clearSections entries) plan =
        plan.listed.filter (fun e => !m.contains e) := by
    intro plan
    unfold unknownElements SectionPlan.listed
    simp only [hContains]
  simp only [hUnknown]
  rw [List.filter_flatMap,
    ← List.flatMap_map Prod.snd
      (fun plan : SectionPlan =>
        plan.listed.filter (fun e => !m.contains e)),
    hPlans, List.flatMap_map]

/- The sections of a model are those of the plans. -/
theorem regroup_sections
    (m : Model)
    (plans : List SectionPlan) :
    (m.regroup plans).1.sections =
      (SectionPlan.preorderOf 1 plans).sections := by
  rw [regroup_eq]
  simp only
  rw [foldl_sections placeTagged_sections,
    foldl_sections placeListed_sections]
  rfl

/-
  An element has its place if it is put into the section of
  each plan that lists it, and of each that attracts it, unless
  it is in a section.
-/
theorem regroup_settles
    (At : Model → Option Nat → Prop)
    (m : Model)
    (plans : List SectionPlan)
    {listed : SectionPlan → List String}
    {title : String}
    {tags : List String}
    (hListed : ∀ {k s} (place : Nat × SectionPlan), At k s →
      At (placeListed k place)
        (s.or
          (if (listed place.2).contains title then
            some place.1
          else
            none)))
    (hTagged : ∀ {k s} (place : Nat × SectionPlan), At k s →
      At (placeTagged k place)
        (s.or
          (if tags.any place.2.tags.contains then
            some place.1
          else
            none)))
    (hStart :
      At
        (outlined m.clearSections
          (SectionPlan.preorderOf 1 plans))
        none) :
    At (m.regroup plans).1
      ((SectionPlan.preorderOf 1 plans).placeOf listed title
        tags) := by
  have hFirst :=
    foldl_settles At
      (p := fun plan => (listed plan).contains title) hListed
      (Outline.places 0 (SectionPlan.preorderOf 1 plans))
      hStart
  have hSecond :=
    foldl_settles At
      (p := fun plan => tags.any plan.tags.contains) hTagged
      (Outline.places 0 (SectionPlan.preorderOf 1 plans))
      hFirst
  rw [regroup_eq, Outline.placeOf_eq]
  exact hSecond

/- A class that is the only one of its title has its place. -/
theorem regroup_class
    (m : Model)
    (plans : List SectionPlan)
    {i : Nat}
    {c : EquivalenceClass}
    (hHere : m.classes[i]? = some c)
    (hOnly : ∀ j, m.classTitles[j]? = some c.title → j = i) :
    (m.regroup plans).1.classes[i]? =
      some { c with
        sectionId :=
          (SectionPlan.preorderOf 1 plans).placeOf
            SectionPlan.statements c.title c.tags } := by
  have hStart :
      ClassAt i c
        (outlined m.clearSections
          (SectionPlan.preorderOf 1 plans))
        none :=
    Only.map ⟨hHere, hOnly⟩ (f := unplacedClass) (fun _ => rfl)
  exact
    (regroup_settles (ClassAt i c) m plans
      (fun place hAt => hAt.placeListed place)
      (fun place hAt => hAt.placeTagged place)
      hStart).here

/- An argument that is the only one of its title, likewise. -/
theorem regroup_argument
    (m : Model)
    (plans : List SectionPlan)
    {i : Nat}
    {a : Argument}
    (hHere : m.arguments[i]? = some a)
    (hOnly : ∀ j, m.argumentTitles[j]? = some a.title → j = i) :
    (m.regroup plans).1.arguments[i]? =
      some { a with
        sectionId :=
          (SectionPlan.preorderOf 1 plans).placeOf
            SectionPlan.arguments a.title a.tags } := by
  have hStart :
      ArgumentAt i a
        (outlined m.clearSections
          (SectionPlan.preorderOf 1 plans))
        none :=
    Only.map ⟨hHere, hOnly⟩ (f := unplacedArgument)
      (fun _ => rfl)
  exact
    (regroup_settles (ArgumentAt i a) m plans
      (fun place hAt => hAt.placeListed place)
      (fun place hAt => hAt.placeTagged place)
      hStart).here

/- A statement is where the only class is that it is in. -/
theorem regroup_statement
    (m : Model)
    (plans : List SectionPlan)
    {x i : Nat}
    {s : Statement}
    {c : EquivalenceClass}
    (hStatement : m.statements[x]? = some s)
    (hClass : m.classes[i]? = some c)
    (hMember : ∀ j d, m.classes[j]? = some d →
      (x ∈ d.members ↔ j = i)) :
    ∃ d, (m.regroup plans).1.classes[i]? = some d ∧
      (m.regroup plans).1.statements[x]? =
        some { s with sectionId := d.sectionId } := by
  have hMoves :=
    regroup_ind (P := Moves m x s i) m plans
      ⟨by simp [outlined, Function.comp_def],
        { c with sectionId := none },
        by simp [outlined, hClass],
        by simp [outlined, hStatement]⟩
      (fun _ id title hMoves =>
        hMoves.placeStatement hMember id title)
      (fun _ title f _ _ hMoves =>
        hMoves.modifyArgument title f)
  exact hMoves.place

/-
  Replacing the sections of a model.  The sections are those of
  the plans in preorder, each inside the one that encloses it.
  A class, or an argument, whose title no other one has is in
  the first section that lists it, or else in the first one
  that has one of its tags, or else in none.  A statement is
  where the one class is that it is a member of.  The listed
  elements that the model does not have are given in order.
  Nothing but the sections changes, and replacing them once
  more changes nothing.
-/
theorem regroup_places (m : Model) (plans : List SectionPlan) :
    let next := (m.regroup plans).1
    let entries := SectionPlan.preorderOf 1 plans
    next.sections = entries.sections ∧
    (∀ (i : Nat) e, entries[i]? = some e →
      match Outline.enclosing? (entries.take i) e.1 with
      | none => e.1 = 1 ∧ e.2 ∈ plans
      | some p => p < i ∧ ∃ q, entries[p]? = some q ∧
          e.1 = q.1 + 1 ∧ e.2 ∈ q.2.children) ∧
    (∀ (i : Nat) (c : EquivalenceClass),
      m.classes[i]? = some c →
      (∀ j : Nat, m.classTitles[j]? = some c.title → j = i) →
        next.classes[i]? =
          some { c with
            sectionId :=
              entries.placeOf SectionPlan.statements c.title
                c.tags }) ∧
    (∀ (i : Nat) (a : Argument), m.arguments[i]? = some a →
      (∀ j : Nat, m.argumentTitles[j]? = some a.title →
        j = i) →
        next.arguments[i]? =
          some { a with
            sectionId :=
              entries.placeOf SectionPlan.arguments a.title
                a.tags }) ∧
    (∀ (x i : Nat) (s : Statement) (c : EquivalenceClass),
      m.statements[x]? = some s → m.classes[i]? = some c →
        (∀ (j : Nat) (d : EquivalenceClass),
          m.classes[j]? = some d →
            (x ∈ d.members ↔ j = i)) →
            ∃ d : EquivalenceClass,
              next.classes[i]? = some d ∧
              next.statements[x]? =
                some { s with sectionId := d.sectionId }) ∧
    (m.regroup plans).2 =
      (entries.flatMap (fun e => e.2.listed)).filter
        (fun e => !m.contains e) ∧
    next.clearSections = m.clearSections ∧
    next.regroup plans = m.regroup plans := by
  intro next entries
  refine
    ⟨regroup_sections m plans, ?_,
      fun i c => regroup_class m plans,
      fun i a => regroup_argument m plans,
      fun x i s c => regroup_statement m plans, ?_,
      regroup_clearSections m plans, ?_⟩
  · intro i e hHere
    cases hEnclosing :
        Outline.enclosing? (entries.take i) e.1 with
    | none => exact Outline.enclosing_none hHere hEnclosing
    | some p => exact Outline.enclosing_child hHere hEnclosing
  · rw [regroup_eq m plans]
    exact unknown_eq m entries
  · rw [regroup_eq, regroup_eq m,
      regroup_clearSections m plans]

/-
  Of two classes of one title only the last one is placed: a
  section that lists the title leaves the first one outside.
-/
theorem regroup_shadowed :
    ¬ ∀ (m : Model) (plans : List SectionPlan) (i : Nat)
        (c : EquivalenceClass), m.classes[i]? = some c →
      (m.regroup plans).1.classes[i]? =
        some { c with
          sectionId :=
            (SectionPlan.preorderOf 1 plans).placeOf
              SectionPlan.statements c.title c.tags } := by
  intro hAll
  let twin := EquivalenceClass.new "A"
  let m : Model :=
    ofData { ModelData.empty with classes := [twin 0, twin 1] }
  have hFirst :=
    hAll m [⟨"S", ["A"], [], [], none, []⟩] 0 (twin 0) rfl
  revert hFirst
  decide

end Model

end Dialectic
