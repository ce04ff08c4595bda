import Dialectic.Proofs.Document.Appearances
import Dialectic.Proofs.Model.Elements
import Dialectic.Proofs.Model.Occurrences

/-
  A model keeps the place where each element of a document
  appears first: the first statement of a class and the
  argument of a title are where the document mentions them for
  the first time, in the order in which it is recorded.

  Key definitions include:
    * `Model.Places`
    * `Builder.Adds`

  Main theorems:
    * `Model.SamePlaces.places`
    * `Builder.Adds.trans`
    * `Builder.addStatement_adds`
    * `Builder.addArgument_adds`
-/

namespace Dialectic

namespace Model

------------------------------------------------------------
-- Places in Models
------------------------------------------------------------

/- The element of a statement, and where it occurs. -/
def placeOf (s : Statement) : Element × Nat :=
  (.statement s.title, s.span.start.offset)

/- The same statements are in the same places. -/
theorem map_placeOf
    {ss ts : List Statement}
    (hSame : ts.map Statement.bare = ss.map Statement.bare) :
    ts.map placeOf = ss.map placeOf := by
  have hPlace : placeOf ∘ Statement.bare = placeOf := rfl
  rw [← hPlace, ← List.map_map, hSame, List.map_map]

/- Where the argument of a title is. -/
def argumentOffset? (m : Model) (title : String) :
    Option Nat :=
  (m.argument? title).map (fun a => a.span.start.offset)

/-
  A model places what has appeared: its statements are those
  that did, one by one, there is no class without a statement,
  and an argument is where it appeared first.
-/
structure Places
    (m : Model)
    (seen : List (Element × Nat)) : Prop where
  statements :
    m.statements.map placeOf =
      seen.filter (fun appearance => appearance.1.isStatement)
  classes : ∀ title ∈ m.classTitles,
    .statement title ∈ seen.map Prod.fst
  arguments : ∀ title,
    m.argumentOffset? title = seen.lookup (.argument title)

/-
  Two models place the same: their statements are the same but
  for the relations that these declare.
-/
structure SamePlaces (m n : Model) : Prop where
  statements :
    n.statements.map Statement.bare =
      m.statements.map Statement.bare
  classes : n.classTitles = m.classTitles
  arguments : ∀ title,
    n.argumentOffset? title = m.argumentOffset? title

variable {m n k : Model}

/- A model places the same as itself. -/
theorem SamePlaces.refl (m : Model) : SamePlaces m m :=
  ⟨rfl, rfl, fun _ => rfl⟩

/- Changes that leave places may follow each other. -/
theorem SamePlaces.trans
    (hFirst : SamePlaces m n)
    (hSecond : SamePlaces n k) :
    SamePlaces m k :=
  ⟨hSecond.statements.trans hFirst.statements,
    hSecond.classes.trans hFirst.classes,
    fun title =>
      (hSecond.arguments title).trans (hFirst.arguments title)⟩

/- Equal elements are in the same places. -/
theorem SamePlaces.of_eq
    (hStatements : n.statements = m.statements)
    (hClasses : n.classTitles = m.classTitles)
    (hArguments : n.arguments = m.arguments) :
    SamePlaces m n := by
  refine ⟨?_, hClasses, ?_⟩
  · rw [hStatements]
  · intro title
    rw [argumentOffset?, argumentOffset?, argument?_eq,
      argument?_eq, hArguments]

/- A class that changes leaves the places. -/
theorem modifyClass_places
    (m : Model)
    (title : String)
    {f : EquivalenceClass → EquivalenceClass}
    {hTitle : ∀ c, (f c).title = c.title} :
    SamePlaces m (m.modifyClass title f) :=
  .of_eq (modifyClass_statements m title f)
    (modifyClass_titles m title)
    (modifyClass_arguments m title f)

/- An argument that changes may stay where it is. -/
theorem modifyArgument_places
    (m : Model)
    (title : String)
    {f : Argument → Argument}
    {hTitle : ∀ a, (f a).title = a.title}
    (hSpan : ∀ a, (f a).span = a.span) :
    SamePlaces m (m.modifyArgument title f) := by
  refine ⟨?_, ?_, ?_⟩
  · rw [modifyArgument_statements]
  · rw [classTitles, modifyArgument_classes]
    rfl
  · intro other
    rw [argumentOffset?, argument?_modifyArgument m title,
      argumentOffset?]
    by_cases hHere : other = title
    · rw [if_pos hHere, Option.map_map]
      congr 1
      funext a
      simp [hSpan]
    · rw [if_neg hHere]

/- Models of the same elements place the same. -/
theorem SameElements.places (hSame : SameElements m n) :
    SamePlaces m n := by
  refine ⟨hSame.statements, hSame.classTitles, ?_⟩
  have hOffset : ∀ a : Option Argument,
      (a.map Argument.bare).map
          (fun a => a.span.start.offset) =
        a.map (fun a => a.span.start.offset) := by
    intro a
    rw [Option.map_map]
    rfl
  intro title
  rw [argumentOffset?, argumentOffset?, ← hOffset,
    hSame.argument?, hOffset]

/- What leaves the places places what has appeared. -/
theorem SamePlaces.places
    {seen : List (Element × Nat)}
    (hSame : SamePlaces m n)
    (hPlaces : m.Places seen) :
    n.Places seen :=
  ⟨(map_placeOf hSame.statements).trans hPlaces.statements,
    fun title hTitle =>
      hPlaces.classes title (hSame.classes ▸ hTitle),
    fun title =>
      (hSame.arguments title).trans (hPlaces.arguments title)⟩

/- A statement that is added appears last. -/
theorem Places.addStatement
    {seen : List (Element × Nat)}
    (hPlaces : m.Places seen)
    (s : Statement) :
    (m.addStatement s).Places (seen ++ [placeOf s]) := by
  have hArguments : (m.addStatement s).arguments =
      m.arguments :=
    (addStatement_titles m s).2.trans
      (ensureClass_arguments m _ _)
  refine ⟨?_, ?_, ?_⟩
  · rw [addStatement_statements, List.map_append,
      hPlaces.statements, List.filter_append]
    rfl
  · intro title hTitle
    rw [List.map_append, List.mem_append]
    rw [(addStatement_titles m s).1, ensureClass_titles]
      at hTitle
    split at hTitle
    · exact .inl (hPlaces.classes title hTitle)
    · rcases List.mem_append.mp hTitle with hOld | hNew
      · exact .inl (hPlaces.classes title hOld)
      · rw [List.mem_singleton.mp hNew]
        exact .inr List.mem_cons_self
  · intro title
    have hSame : (m.addStatement s).argumentOffset? title =
        m.argumentOffset? title := by
      rw [argumentOffset?, argumentOffset?, argument?_eq,
        argument?_eq, hArguments]
    have hOther :
        (Element.argument title == .statement s.title) = false :=
      rfl
    rw [hSame, hPlaces.arguments, List.lookup_append]
    simp [placeOf, List.lookup_cons, hOther]

/-
  An argument that occurs is where it appeared first, or where
  it occurs.
-/
theorem Places.addArgument
    {seen : List (Element × Nat)}
    (hPlaces : m.Places seen)
    {title : String}
    {offset : Nat}
    (hStatements :
      n.statements.map placeOf = m.statements.map placeOf)
    (hClasses : n.classTitles = m.classTitles)
    (hHere :
      n.argumentOffset? title =
        (m.argumentOffset? title).or (some offset))
    (hOthers : ∀ other, other ≠ title →
      n.argumentOffset? other = m.argumentOffset? other) :
    n.Places (seen ++ [(.argument title, offset)]) := by
  refine ⟨?_, ?_, ?_⟩
  · rw [hStatements, hPlaces.statements, List.filter_append]
    simp [Element.isStatement]
  · intro other hOther
    rw [List.map_append]
    exact
      List.mem_append_left _
        (hPlaces.classes other (hClasses ▸ hOther))
  · intro other
    rw [List.lookup_append, ← hPlaces.arguments]
    by_cases hSame : other = title
    · subst hSame
      simp [hHere]
    · have hApart :
          (Element.argument other == .argument title) =
            false := by
        simpa using hSame
      rw [hOthers other hSame]
      simp [List.lookup_cons, hApart]

end Model

namespace Builder

variable {b c d : Builder} {es fs : List Entry}

------------------------------------------------------------
-- Adding Occurrences
------------------------------------------------------------

/- The numbers of elements without title so far. -/
def numbering (b : Builder) : Numbering :=
  ⟨b.untitledStatements, b.untitledArguments⟩

/-
  Occurrences have been added: they are numbered, and the
  model places them after what has appeared before.
-/
structure Adds (entries : List Entry) (b c : Builder) :
    Prop where
  numbering : c.numbering = b.numbering.after entries
  places : ∀ seen, b.model.Places seen →
    c.model.Places
      (seen ++ appearancesAfter b.numbering entries)

/- What leaves places and numbers adds no occurrences. -/
theorem Adds.of_same
    (hSame : Model.SamePlaces b.model c.model)
    (hNumbering : c.numbering = b.numbering) :
    Adds [] b c := by
  refine ⟨hNumbering, ?_⟩
  intro seen hPlaces
  rw [appearancesAfter, List.append_nil]
  exact hSame.places hPlaces

/- Occurrences are added one after the other. -/
theorem Adds.trans
    (hFirst : Adds es b c)
    (hSecond : Adds fs c d) :
    Adds (es ++ fs) b d := by
  constructor
  · rw [hSecond.numbering, hFirst.numbering,
      Numbering.after_append]
  · intro seen hPlaces
    have hBoth := hSecond.places _ (hFirst.places seen hPlaces)
    rw [hFirst.numbering] at hBoth
    rw [appearancesAfter_append, ← List.append_assoc]
    exact hBoth

/- A statement appears when it is added. -/
theorem addStatement_adds
    (withoutTags : Bool)
    (b : Builder)
    (entry : StatementEntry)
    (role : StatementRole) :
    Adds [.statement entry] b
      (addStatement withoutTags b entry role).1 := by
  have hModel :
      Model.SamePlaces
        (b.model.addStatement
          (occurrenceOf withoutTags b entry role))
        (addStatement withoutTags b entry role).1.model := by
    cases hTitle : entry.title with
    | some title =>
        simp only [addStatement, occurrenceOf, statementTitle,
          hTitle]
        exact .refl _
    | none =>
        simp only [addStatement, occurrenceOf, statementTitle,
          hTitle, if_true]
        exact Model.modifyClass_places _ _
  have hPlace :
      Model.placeOf (occurrenceOf withoutTags b entry role) =
        ((Entry.statement entry).elementAfter b.numbering,
          entry.span.start.offset) := by
    cases hTitle : entry.title <;>
      simp [Model.placeOf, occurrenceOf, Statement.new,
        statementTitle, Entry.elementAfter, numbering, hTitle]
  constructor
  · cases hTitle : entry.title <;>
      simp [addStatement, statementTitle, numbering,
        Numbering.after, Numbering.next, hTitle]
  · intro seen hPlaces
    have hAdded :=
      hPlaces.addStatement
        (occurrenceOf withoutTags b entry role)
    rw [hPlace] at hAdded
    exact hModel.places hAdded

/-
  The first occurrence of an argument says where it is, later
  ones leave it there.
-/
theorem addArgument_offsets
    (withoutTags : Bool)
    (b : Builder)
    (entry : ArgumentEntry) :
    (addArgument withoutTags b
          entry).1.model.statements.map Statement.bare =
        b.model.statements.map Statement.bare ∧
      (addArgument withoutTags b entry).1.model.classTitles =
        b.model.classTitles ∧
      ∀ title,
        (addArgument withoutTags b
            entry).1.model.argumentOffset? title =
          if title = (b.argumentTitle entry).1 then
            (b.model.argumentOffset? title).or
              (some entry.span.start.offset)
          else
            b.model.argumentOffset? title := by
  generalize hName : (b.argumentTitle entry).1 = name
  have hDescribed : ∀ m : Model,
      Model.SamePlaces m
        ((m.modifyArgument name
          (describe withoutTags entry)).recordTags
            entry.tags) := by
    intro m
    have hChanged :
        Model.SamePlaces m
          (m.modifyArgument name
            (describe withoutTags entry)) :=
      Model.modifyArgument_places m name (fun _ => rfl)
    exact hChanged.trans (.of_eq rfl rfl rfl)
  unfold addArgument
  simp only [hName]
  split
  · next hNew =>
      rw [Option.isNone_iff_eq_none] at hNew
      refine ⟨?_, ?_, ?_⟩
      · rw [(hDescribed _).statements,
          Model.modifyArgument_statements,
          Model.ensureArgument_statements]
      · rw [(hDescribed _).classes]
        simp [Model.classTitles]
      · intro title
        rw [(hDescribed _).arguments]
        simp only [Model.argumentOffset?]
        rw [Model.argument?_modifyArgument,
          Model.argument?_ensureArgument]
        by_cases hHere : title = name
        · subst hHere
          simp [hNew]
        · simp [hHere]
  · next hOld =>
      rw [Option.isNone_iff_eq_none] at hOld
      refine ⟨?_, ?_, ?_⟩
      · rw [(hDescribed _).statements,
          Model.ensureArgument_statements]
      · rw [(hDescribed _).classes]
        simp [Model.classTitles]
      · intro title
        rw [(hDescribed _).arguments]
        simp only [Model.argumentOffset?]
        rw [Model.argument?_ensureArgument]
        by_cases hHere : title = name
        · subst hHere
          rcases Option.ne_none_iff_exists'.mp hOld with
            ⟨a, ha⟩
          simp [ha]
        · simp [hHere]

/- An argument appears when it is added. -/
theorem addArgument_adds
    (withoutTags : Bool)
    (b : Builder)
    (entry : ArgumentEntry) :
    Adds [.argument entry] b
      (addArgument withoutTags b entry).1 := by
  rcases addArgument_offsets withoutTags b entry with
    ⟨hStatements, hClasses, hOffsets⟩
  have hTitle := argumentTitle_fst b entry
  constructor
  · cases hTitle : entry.title <;>
      simp [addArgument, argumentTitle, numbering,
        Numbering.after, Numbering.next, hTitle]
  · intro seen hPlaces
    have hElement :
        appearancesAfter b.numbering [.argument entry] =
          [(.argument (b.argumentTitle entry).1,
            entry.span.start.offset)] := by
      rw [hTitle]
      rfl
    rw [hElement]
    apply
      hPlaces.addArgument (Model.map_placeOf hStatements)
        hClasses
    · rw [hOffsets, if_pos rfl]
    · intro other hOther
      rw [hOffsets, if_neg hOther]

end Builder

end Dialectic
