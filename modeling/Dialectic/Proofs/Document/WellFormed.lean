import Dialectic.Proofs.Document.Reading
import Dialectic.Proofs.Document.Tokens

/-
  What everyone who uses a document that was read may rely on:
  levels, titles, texts and tags are as they should be,
  references have a title and no text, and premise-conclusion
  structures stand below arguments and are in order.

  Key definitions include:
    * `Entry.WellFormed`
    * `Heading.WellFormed`
    * `Reconstruction.WellFormed`
    * `ElementBlock.WellFormed`
    * `Document.WellFormed`
    * `Inline.Sound`

  Main theorems:
    * `Parser.entry_sound`
    * `Parser.relations_sound`
    * `Parser.orderFault?_none`
    * `Document.read_wellFormed`
-/

namespace Dialectic

------------------------------------------------------------
-- Well-Formed Documents
------------------------------------------------------------

/-
  A statement has a title or a text, and it refers to another
  one if it has the title only.
-/
structure StatementEntry.WellFormed
    (entry : StatementEntry) : Prop where
  title : ∀ t, entry.title = some t → Text.IsTrimmed t.toList
  text : ∀ t, entry.text = some t → Text.IsNormalised t.toList
  tags : entry.tags.Nodup
  reference : entry.isReference = true →
    entry.title.isSome = true ∧ entry.text = none
  untitled : entry.title = none → entry.text.isSome = true

/- An argument refers to another one if it has a title only. -/
structure ArgumentEntry.WellFormed
    (entry : ArgumentEntry) : Prop where
  title : ∀ t, entry.title = some t → Text.IsTrimmed t.toList
  description : ∀ t, entry.description = some t →
    Text.IsNormalised t.toList
  tags : entry.tags.Nodup
  reference : entry.isReference = true →
    entry.title.isSome = true ∧ entry.description = none

namespace Entry

/- An element is well formed. -/
def WellFormed : Entry → Prop
| statement entry => entry.WellFormed
| argument entry => entry.WellFormed

/-
  An element is well formed and, if it is an argument, has a
  title.
-/
def Sound (e : Entry) : Prop :=
  e.WellFormed ∧
    (e.isArgument = true → e.title.isSome = true)

end Entry

/- A heading has one of six levels and a title. -/
structure Heading.WellFormed (heading : Heading) : Prop where
  level : 1 ≤ heading.level ∧ heading.level ≤ 6
  title : Text.IsNormalised heading.title.toList
  tags : heading.tags.Nodup

/-
  A premise-conclusion structure starts with a premise, ends
  with an inference and a conclusion, and has no two inferences
  in a row.
-/
structure Reconstruction.WellFormed
    (r : Reconstruction) : Prop where
  premise : ∃ entry rest, r.items = .statement entry :: rest
  apart : r.items.IsChain
    (fun a b => a.isInference = true → b.isInference = false)
  conclusion : ∃ before inference entry,
    r.items = before ++ [.inference inference, .statement entry]

/- The occurrences below the element of a block. -/
def ElementBlock.below (block : ElementBlock) : List Entry :=
  block.steps.flatMap NumberedEntry.entries
    ++ RelationEntry.entriesOf block.relations

/-
  An element is well formed with all below it.  An argument
  without title stands at the top and has a premise-conclusion
  structure, and nothing but an argument has one.
-/
structure ElementBlock.WellFormed
    (block : ElementBlock) : Prop where
  element : block.element.WellFormed
  below : ∀ e ∈ block.below, e.Sound
  untitled : block.element.isArgument = true →
    block.element.title = none →
      block.reconstruction.isSome = true
  structured : ∀ r, block.reconstruction = some r →
    block.element.isArgument = true ∧ r.WellFormed

/- A block is well formed. -/
def Block.WellFormed : Block → Prop
| .heading found => found.WellFormed
| .element found => found.WellFormed

/- All blocks of a document are well formed. -/
def Document.WellFormed (d : Document) : Prop :=
  ∀ block ∈ d.blocks, block.WellFormed

namespace Parser

------------------------------------------------------------
-- Inline Content
------------------------------------------------------------

/-
  Tags are listed once, and they are part of the text, which is
  not blank therefore.
-/
structure Inline.Sound (inline : Inline) : Prop where
  tags : inline.tags.Nodup
  shown : inline.tags ≠ [] →
    ∃ c ∈ inline.text, Text.isBlank c = false

namespace Inline

/- There is nothing wrong with no content. -/
theorem empty_sound : empty.Sound :=
  ⟨List.nodup_nil, fun hSome => absurd rfl hSome⟩

variable {inline : Inline}

/- More text does not matter. -/
theorem Sound.addText
    (hSound : inline.Sound)
    (text : String) :
    (inline.addText text).Sound := by
  refine ⟨hSound.tags, fun hSome => ?_⟩
  rcases hSound.shown hSome with ⟨c, hc, hSolid⟩
  exact ⟨c, List.mem_append_left _ hc, hSolid⟩

/- A tag comes with its number sign, which is no blank. -/
theorem Sound.addTag
    (hSound : inline.Sound)
    (tag : String) :
    (inline.addTag tag).Sound := by
  constructor
  · simp only [Inline.addTag]
    split
    · exact hSound.tags
    · next hNew =>
        refine List.nodup_append.mpr
          ⟨hSound.tags, List.pairwise_singleton _ _, ?_⟩
        rintro old hOld _ hTag rfl
        rw [List.mem_singleton.mp hTag] at hOld
        exact hNew (List.contains_iff_mem.mpr hOld)
  · intro _
    refine ⟨'#', ?_, by decide⟩
    simp only [Inline.addTag, Inline.addText]
    split <;> simp

/- Any token may be added. -/
theorem Sound.addToken
    (hSound : inline.Sound)
    (kind : TokenKind) :
    (inline.addToken kind).Sound := by
  have hMention : ∀ mention text,
      (inline.addMention mention text).Sound := by
    intro mention text
    exact ⟨hSound.tags, (hSound.addText text).shown⟩
  cases kind with
  | tag name => exact hSound.addTag name
  | text content => exact hSound.addText content
  | statementMention title => exact hMention _ _
  | argumentMention title => exact hMention _ _
  | statementDefinition title => exact hSound.addText _
  | statementReference title => exact hSound.addText _
  | argumentDefinition title => exact hSound.addText _
  | argumentReference title => exact hSound.addText _
  | frontMatter content => exact hSound
  | indentation width => exact hSound
  | blankLine => exact hSound
  | lineEnd => exact hSound
  | heading level => exact hSound
  | relation marker => exact hSound
  | step number => exact hSound
  | inference rule => exact hSound
  | bullet => exact hSound
  | data content => exact hSound
  | documentEnd => exact hSound

/- The text of some content is normalised. -/
theorem squeezed_isNormalised
    (hSome : ¬ inline.squeezed.isEmpty = true) :
    Text.IsNormalised inline.squeezed.toList := by
  rw [squeezed, String.toList_ofList]
  apply Text.squeeze_isNormalised
  rintro hNone
  simp [squeezed, hNone] at hSome

/- Content with tags has some text. -/
theorem Sound.squeezed_isEmpty
    (hSound : inline.Sound)
    (hTags : inline.tags ≠ []) :
    ¬ inline.squeezed.isEmpty = true := by
  rcases hSound.shown hTags with ⟨c, hc, hSolid⟩
  have hSome := Text.squeeze_ne_nil hc hSolid
  simpa [squeezed, String.isEmpty_iff] using hSome

end Inline

variable {policy : FaultPolicy}

/- Content that is sound stays so when more is read. -/
theorem inlineAfter_sound
    [YamlReader]
    {inline : Inline}
    (hSound : inline.Sound)
    (tokens : List Token) :
    Returns (inlineAfter policy inline tokens)
      Inline.Sound := by
  induction tokens generalizing inline with
  | nil => exact returns_pure hSound
  | cons token tokens ih =>
      rcases token with ⟨kind, position⟩
      cases kind with
      | data text =>
          refine returns_bind (returns_any _) (fun fields _ => ?_)
          cases fields with
          | none => exact ih hSound
          | some fields => exact ih ⟨hSound.tags, hSound.shown⟩
      | _ => exact ih (hSound.addToken _)

/- The content of some tokens is sound. -/
theorem inline_sound [YamlReader] (tokens : List Token) :
    Returns (inline policy tokens) Inline.Sound :=
  inlineAfter_sound Inline.empty_sound tokens

------------------------------------------------------------
-- Elements
------------------------------------------------------------

section Elements

variable {content : Inline} {title : String}
variable (span : Span)

/- A statement with a title is well formed. -/
theorem titledStatement_sound
    (hContent : content.Sound)
    (hTitle : Text.IsTrimmed title.toList)
    (isDefinition : Bool) :
    (Entry.statement
      (titledStatement title isDefinition content
        span)).Sound := by
  refine ⟨⟨?_, ?_, hContent.tags, ?_, ?_⟩, ?_⟩
  · rintro t hSame
    cases hSame
    exact hTitle
  · intro t hText
    simp only [titledStatement] at hText
    split at hText
    · cases hText
    · next hSome =>
        cases hText
        exact Inline.squeezed_isNormalised hSome
  · intro hReference
    simp only [titledStatement, Bool.and_eq_true]
      at hReference
    exact ⟨rfl, if_pos hReference.2⟩
  · rintro hNone
    cases hNone
  · rintro hArgument
    cases hArgument

/- So is an argument with one. -/
theorem titledArgument_sound
    (hContent : content.Sound)
    (hTitle : Text.IsTrimmed title.toList)
    (isDefinition : Bool) :
    (Entry.argument
      (titledArgument title isDefinition content
        span)).Sound := by
  refine ⟨⟨?_, ?_, hContent.tags, ?_⟩, fun _ => rfl⟩
  · rintro t hSame
    cases hSame
    exact hTitle
  · intro t hText
    simp only [titledArgument] at hText
    split at hText
    · cases hText
    · next hSome =>
        cases hText
        exact Inline.squeezed_isNormalised hSome
  · intro hReference
    simp only [titledArgument, Bool.and_eq_true]
      at hReference
    exact ⟨rfl, if_pos hReference.2⟩

/- A statement without title is well formed and has a text. -/
theorem untitledStatement?_sound
    (hContent : content.Sound)
    {entry : StatementEntry}
    (hFound : untitledStatement? content span = some entry) :
    (Entry.statement entry).Sound := by
  unfold untitledStatement? at hFound
  simp only at hFound
  split at hFound
  · cases hFound
  · next hSome =>
      cases hFound
      have hText : ¬ content.squeezed.isEmpty = true := by
        intro hNone
        refine hContent.squeezed_isEmpty (fun hTags => ?_) hNone
        exact hSome (by simp [hNone, hTags])
      refine ⟨⟨?_, ?_, hContent.tags, ?_, ?_⟩, ?_⟩
      · rintro t hNone
        cases hNone
      · rintro t hSame
        cases hSame
        exact Inline.squeezed_isNormalised hText
      · rintro hReference
        cases hReference
      · exact fun _ => rfl
      · rintro hArgument
        cases hArgument

/- An element that is read from sound tokens is sound. -/
theorem entry_sound
    [YamlReader]
    {tokens : List Token}
    (hTokens : Token.AllSound tokens) :
    Returns (entry policy tokens span)
      (fun found => ∀ e, found = some e → e.Sound) := by
  unfold entry
  split
  · exact returns_pure (fun _ hNone => by cases hNone)
  all_goals
    refine
      returns_bind (inline_sound _) (fun content hContent => ?_)
    refine returns_pure ?_
  · rintro e hSame
    cases hSame
    exact
      titledStatement_sound span hContent
        (hTokens _ List.mem_cons_self) true
  · rintro e hSame
    cases hSame
    exact
      titledStatement_sound span hContent
        (hTokens _ List.mem_cons_self) false
  · rintro e hSame
    cases hSame
    exact
      titledArgument_sound span hContent
        (hTokens _ List.mem_cons_self) true
  · rintro e hSame
    cases hSame
    exact
      titledArgument_sound span hContent
        (hTokens _ List.mem_cons_self) false
  · intro e hFound
    rcases Option.map_eq_some_iff.mp hFound with
      ⟨entry, hEntry, rfl⟩
    exact untitledStatement?_sound span hContent hEntry

end Elements

------------------------------------------------------------
-- Lines
------------------------------------------------------------

/- Some of the lines are sound if all are. -/
theorem allSound_dropWhile
    {lines : List Line}
    (hLines : Line.AllSound lines)
    (p : Line → Bool) :
    Line.AllSound (lines.dropWhile p) :=
  fun line hLine =>
    hLines line ((List.dropWhile_sublist p).subset hLine)

/- An element that goes on over sound lines has sound tokens. -/
theorem extent_sound
    {tokens : List Token}
    {lines : List Line}
    (hTokens : Token.AllSound tokens)
    (hLines : Line.AllSound lines)
    (above : Option Nat)
    (span : Span) :
    Token.AllSound (extent above tokens span lines).tokens ∧
      Line.AllSound (extent above tokens span lines).rest := by
  refine ⟨?_, allSound_dropWhile hLines _⟩
  intro token hToken
  rcases List.mem_append.mp hToken with hHere | hMore
  · exact hTokens token hHere
  · rcases List.mem_flatMap.mp hMore with ⟨line, hLine, hToken⟩
    have hSound : line.Sound :=
      hLines line ((List.takeWhile_sublist _).subset hLine)
    cases line with
    | gap position => cases hToken
    | filled line =>
        rcases List.mem_cons.mp hToken with rfl | hToken
        · trivial
        · exact hSound token hToken

/- The tokens after the first one of a line are sound. -/
theorem tail_sound
    {token : Token}
    {tokens : List Token}
    {line : FilledLine}
    {lines : List Line}
    (hLines : Line.AllSound (.filled line :: lines))
    (hTokens : line.tokens = token :: tokens) :
    Token.AllSound tokens := by
  intro other hOther
  have hLine : Token.AllSound line.tokens :=
    hLines _ List.mem_cons_self
  rw [hTokens] at hLine
  exact hLine other (List.mem_cons_of_mem token hOther)

------------------------------------------------------------
-- Relations
------------------------------------------------------------

/- Relations whose targets are sound at any depth. -/
def RelationsSound (relations : List RelationEntry) : Prop :=
  ∀ e ∈ RelationEntry.entriesOf relations, e.Sound

/- The relations of sound lines are sound. -/
theorem relations_sound
    [YamlReader]
    (fuel parent : Nat)
    {lines : List Line}
    (hLines : Line.AllSound lines) :
    Returns (relations policy fuel parent lines)
      (fun read =>
        RelationsSound read.1 ∧ Line.AllSound read.2) := by
  have hNone : RelationsSound [] := fun _ hNone => by cases hNone
  induction fuel generalizing parent lines with
  | zero => exact returns_pure ⟨hNone, hLines⟩
  | succ fuel ih =>
      cases lines with
      | nil => exact returns_pure ⟨hNone, hLines⟩
      | cons first rest =>
          cases first with
          | gap position => exact returns_pure ⟨hNone, hLines⟩
          | filled line =>
              have hRest : Line.AllSound rest := hLines.tail
              simp only [relations]
              split
              · exact returns_pure ⟨hNone, hLines⟩
              · split
                · next marker _ tokens hTokens =>
                    rcases extent_sound
                        (tail_sound hLines hTokens) hRest
                        (some line.indent) line.span with
                      ⟨hBody, hLeft⟩
                    refine
                      returns_bind (entry_sound _ hBody)
                        (fun found hFound => ?_)
                    cases found with
                    | none =>
                        exact
                          returns_bind (returns_any _)
                            (fun _ _ =>
                              ih _ (allSound_dropWhile hLeft _))
                    | some target =>
                        refine
                          returns_bind (ih _ hLeft)
                            (fun read hChildren => ?_)
                        refine
                          returns_bind (ih _ hChildren.2)
                            (fun later hSiblings => ?_)
                        refine returns_pure ⟨?_, hSiblings.2⟩
                        exact
                          List.forall_mem_append.mpr
                            ⟨List.forall_mem_cons.mpr
                                ⟨hFound target rfl,
                                  hChildren.1⟩,
                              hSiblings.1⟩
                · exact
                    returns_bind (returns_any _)
                      (fun _ _ =>
                        ih _ (allSound_dropWhile hRest _))

------------------------------------------------------------
-- Premise-Conclusion Structures
------------------------------------------------------------

/- The numbered statements of some items are sound. -/
def ItemsSound (items : List ReconstructionItem) : Prop :=
  ∀ step, .statement step ∈ items →
    ∀ e ∈ step.entries, e.Sound

/- A sound item may come before sound items, if there are any. -/
theorem itemsSound_cons
    {item : ReconstructionItem}
    {items? : Option (List ReconstructionItem)}
    (hItem : ItemsSound [item])
    (hItems : ∀ items, items? = some items →
      ItemsSound items) :
    ∀ items, items?.map (item :: ·) = some items →
      ItemsSound items := by
  intro items hSome step hStep
  rcases Option.map_eq_some_iff.mp hSome with
    ⟨more, hMore, rfl⟩
  rcases List.mem_cons.mp hStep with hHere | hLater
  · exact hItem step (List.mem_singleton.mpr hHere)
  · exact hItems more hMore step hLater

/- The items of sound lines are sound. -/
theorem reconstructionItems_sound
    [YamlReader]
    (fuel : Nat)
    {lines : List Line}
    (hLines : Line.AllSound lines) :
    Returns (reconstructionItems policy fuel lines)
      (fun read =>
        (∀ items, read.1 = some items → ItemsSound items) ∧
          Line.AllSound read.2) := by
  have hNothing : ∀ items,
      some ([] : List ReconstructionItem) = some items →
        ItemsSound items := by
    rintro items hSame
    cases hSame
    exact fun _ hNone => by cases hNone
  have hFailed : ∀ items,
      (none : Option (List ReconstructionItem)) = some items →
        ItemsSound items :=
    fun _ hNone => by cases hNone
  induction fuel generalizing lines with
  | zero => exact returns_pure ⟨hNothing, hLines⟩
  | succ fuel ih =>
      cases lines with
      | nil => exact returns_pure ⟨hNothing, hLines⟩
      | cons first rest =>
          have hRest : Line.AllSound rest := hLines.tail
          cases first with
          | gap position =>
              simp only [reconstructionItems]
              split
              · exact ih hRest
              · exact returns_pure ⟨hNothing, hLines⟩
          | filled line =>
              simp only [reconstructionItems]
              split
              · split
                · next number _ tokens hTokens =>
                    rcases extent_sound
                        (tail_sound hLines hTokens) hRest
                        none line.span with
                      ⟨hBody, hLeft⟩
                    have hSkipped :
                        Line.AllSound (skipReconstruction _) :=
                      allSound_dropWhile hLeft _
                    refine
                      returns_bind (entry_sound _ hBody)
                        (fun found hFound => ?_)
                    rcases found with _ | statement | argument
                    · exact
                        returns_bind (returns_any _)
                          (fun _ _ => returns_pure
                            ⟨hFailed, hSkipped⟩)
                    · refine
                        returns_bind
                          (relations_sound fuel 0 hLeft)
                          (fun read hRelated => ?_)
                      refine
                        returns_bind (ih hRelated.2)
                          (fun later hItems => ?_)
                      refine
                        returns_pure
                          ⟨itemsSound_cons ?_ hItems.1,
                            hItems.2⟩
                      intro step hStep
                      cases List.mem_singleton.mp hStep
                      exact
                        List.forall_mem_cons.mpr
                          ⟨hFound _ rfl, hRelated.1⟩
                    · exact
                        returns_bind (returns_any _)
                          (fun _ _ => returns_pure
                            ⟨hFailed, hSkipped⟩)
                · refine
                    returns_bind (ih hRest)
                      (fun later hItems => ?_)
                  refine
                    returns_pure
                      ⟨itemsSound_cons ?_ hItems.1, hItems.2⟩
                  intro step hStep
                  cases List.mem_singleton.mp hStep
                · exact returns_pure ⟨hNothing, hLines⟩
              · exact returns_pure ⟨hNothing, hLines⟩

/- No two inferences are found to follow each other. -/
theorem hasAdjacentInferences_eq_false
    {items : List ReconstructionItem}
    (hApart : hasAdjacentInferences items = false) :
    items.IsChain
      (fun a b =>
        a.isInference = true → b.isInference = false) := by
  induction items with
  | nil => exact .nil
  | cons a items ih =>
      cases items with
      | nil => exact .singleton a
      | cons b items =>
          simp only [hasAdjacentInferences, Bool.or_eq_false_iff,
            Bool.and_eq_false_imp] at hApart
          exact .cons_cons hApart.1 (ih hApart.2)

/- A structure whose order has no fault is well formed. -/
theorem orderFault?_none
    {items : List ReconstructionItem}
    (hOrder : orderFault? items = none)
    (span : Span) :
    Reconstruction.WellFormed ⟨items, span⟩ := by
  unfold orderFault? at hOrder
  split at hOrder
  · next entry rest =>
      split at hOrder
      · cases hOrder
      · next hApart =>
          split at hOrder
          · next last inference other before hReverse =>
              refine ⟨⟨entry, rest, rfl⟩, ?_, ?_⟩
              · exact
                  hasAdjacentInferences_eq_false
                    (by simpa using hApart)
              · refine
                  ⟨(other :: before).reverse, inference, last, ?_⟩
                have hItems := congrArg List.reverse hReverse
                simpa using hItems
          · cases hOrder
  · cases hOrder

/-
  A structure is well formed, and so are the elements of its
  numbered statements.
-/
def ReconstructionSound (r : Reconstruction) : Prop :=
  r.WellFormed ∧
    ∀ e ∈ r.statements.flatMap NumberedEntry.entries, e.Sound

/- The structure of sound lines is well formed. -/
theorem reconstruction_sound
    [YamlReader]
    (fuel : Nat)
    (start : Position)
    {lines : List Line}
    (hLines : Line.AllSound lines) :
    Returns (reconstruction policy fuel start lines)
      (fun read =>
        (∀ r, read.1 = some r → ReconstructionSound r) ∧
          Line.AllSound read.2) := by
  refine
    returns_bind (reconstructionItems_sound fuel hLines)
      (fun read hRead => ?_)
  rcases read with ⟨_ | items, rest⟩
  · exact
      returns_pure ⟨fun _ hNone => (by cases hNone), hRead.2⟩
  · simp only
    cases hOrder : orderFault? items with
    | some cause =>
        exact
          returns_bind (returns_any _) (fun _ _ =>
            returns_pure
              ⟨fun _ hNone => (by cases hNone), hRead.2⟩)
    | none =>
        refine returns_pure ⟨?_, hRead.2⟩
        intro r hr
        cases hr
        refine ⟨orderFault?_none hOrder _, ?_⟩
        intro e he
        rcases List.mem_flatMap.mp he with ⟨step, hStep, he⟩
        rcases List.mem_filterMap.mp hStep with
          ⟨item, hItem, hSame⟩
        cases item with
        | statement found =>
            cases hSame
            exact hRead.1 items rfl _ hItem e he
        | inference found => cases hSame

------------------------------------------------------------
-- Blocks
------------------------------------------------------------

/- A heading of sound tokens is well formed. -/
theorem heading_sound
    [YamlReader]
    {level : Nat}
    (hLevel : 1 ≤ level ∧ level ≤ 6)
    (tokens : List Token)
    (line : FilledLine) :
    Returns (heading policy level tokens line)
      (fun found => ∀ h, found = some h → h.WellFormed) := by
  refine
    returns_bind (inline_sound tokens)
      (fun content hContent => ?_)
  simp only
  split
  · exact
      returns_bind (returns_any _)
        (fun _ _ => returns_pure (fun _ hNone => by cases hNone))
  · next hSome =>
      refine returns_pure ?_
      rintro h hSame
      cases hSame
      exact
        ⟨hLevel, Inline.squeezed_isNormalised hSome,
          hContent.tags⟩

/- What is read at the top level is well formed. -/
def Piece.Sound : Piece → Prop
| .block found => found.WellFormed
| .reconstruction r => ReconstructionSound r

/- An element of sound lines is well formed. -/
theorem elementBlock_sound
    [YamlReader]
    (fuel : Nat)
    {line : FilledLine}
    {lines : List Line}
    (hLines : Line.AllSound (.filled line :: lines)) :
    Returns (elementBlock policy fuel line lines)
      (fun read =>
        (∀ block, read.1 = some block → block.WellFormed) ∧
          Line.AllSound read.2) := by
  have hRest : Line.AllSound lines := hLines.tail
  have hTokens :
      Token.AllSound (line.tokens.dropWhile isBullet) := by
    intro token hToken
    exact
      hLines (.filled line) List.mem_cons_self token
        ((List.dropWhile_sublist _).subset hToken)
  rcases extent_sound hTokens hRest none line.span with
    ⟨hBody, hLeft⟩
  refine
    returns_bind (entry_sound _ hBody) (fun found hFound => ?_)
  cases found with
  | none =>
      exact
        returns_bind (returns_any _) (fun _ _ =>
          returns_pure
            ⟨fun _ hNone => (by cases hNone),
              allSound_dropWhile hLeft _⟩)
  | some element =>
      refine
        returns_bind (relations_sound fuel line.indent hLeft)
          (fun read hRelated => ?_)
      refine returns_pure ⟨?_, hRelated.2⟩
      rintro block hSame
      cases hSame
      rcases hFound element rfl with ⟨hElement, hNamed⟩
      refine ⟨hElement, hRelated.1, ?_, ?_⟩
      · intro hArgument hUntitled
        have hTitle := hNamed hArgument
        rw [hUntitled] at hTitle
        cases hTitle
      · rintro r hNone
        cases hNone

/- The piece that sound lines start with is well formed. -/
theorem piece_sound
    [YamlReader]
    (fuel : Nat)
    {line : FilledLine}
    {lines : List Line}
    (hLines : Line.AllSound (.filled line :: lines)) :
    Returns (piece policy fuel line lines)
      (fun read =>
        (∀ found, read.1 = some found → found.Sound) ∧
          Line.AllSound read.2) := by
  have hRest : Line.AllSound lines := hLines.tail
  have hElement :
      Returns
        (do
          let read ← elementBlock policy fuel line lines
          pure
            (read.1.map (fun b => Piece.block (.element b)),
              read.2))
        (fun read =>
          (∀ found, read.1 = some found → found.Sound) ∧
            Line.AllSound read.2) := by
    refine
      returns_bind (elementBlock_sound fuel hLines)
        (fun read hRead => ?_)
    refine returns_pure ⟨?_, hRead.2⟩
    intro found hFound
    rcases Option.map_eq_some_iff.mp hFound with
      ⟨block, hBlock, rfl⟩
    exact hRead.1 block hBlock
  have hSkipped :
      (∀ found, (none : Option Piece) = some found →
        found.Sound) ∧ Line.AllSound (skipDeeper 0 lines) :=
    ⟨fun _ hNone => (by cases hNone), allSound_dropWhile hRest _⟩
  unfold piece
  simp only
  split
  · next level _ tokens hTokens =>
      have hLevel : 1 ≤ level ∧ level ≤ 6 := by
        have hLine : Token.AllSound line.tokens :=
          hLines _ List.mem_cons_self
        rw [hTokens] at hLine
        exact hLine _ List.mem_cons_self
      refine
        returns_bind (heading_sound hLevel tokens line)
          (fun read hRead => ?_)
      refine returns_pure ⟨?_, hRest⟩
      intro found hFound
      rcases Option.map_eq_some_iff.mp hFound with
        ⟨h, hHeading, rfl⟩
      exact hRead h hHeading
  · split
    · refine
        returns_bind (reconstruction_sound _ _ hLines)
          (fun read hRead => ?_)
      refine returns_pure ⟨?_, hRead.2⟩
      intro found hFound
      rcases Option.map_eq_some_iff.mp hFound with
        ⟨r, hStructure, rfl⟩
      exact hRead.1 r hStructure
    · exact hElement
  · exact
      returns_bind (returns_any _)
        (fun _ _ => returns_pure hSkipped)
  · exact
      returns_bind (returns_any _)
        (fun _ _ => returns_pure hSkipped)
  · exact hElement

/- All pieces of sound lines are well formed. -/
theorem pieces_sound
    [YamlReader]
    (fuel : Nat)
    {lines : List Line}
    (hLines : Line.AllSound lines) :
    Returns (pieces policy fuel lines)
      (fun found => ∀ piece ∈ found, piece.Sound) := by
  induction fuel generalizing lines with
  | zero => exact returns_pure (by simp)
  | succ fuel ih =>
      cases lines with
      | nil => exact returns_pure (by simp)
      | cons first rest =>
          cases first with
          | gap position => exact ih hLines.tail
          | filled line =>
              refine
                returns_bind (piece_sound fuel hLines)
                  (fun read hRead => ?_)
              refine
                returns_bind (ih hRead.2) (fun more hMore => ?_)
              apply returns_pure
              intro piece hPiece
              rcases List.mem_append.mp hPiece with hHere | hLater
              · exact hRead.1 piece (Option.mem_toList.mp hHere)
              · exact hMore piece hLater

/-
  Well-formed blocks stay so when a structure is attached, to
  the last argument or to one of its own.
-/
theorem attach_wellFormed
    {r : Reconstruction}
    {blocks : List Block}
    (hStructure : ReconstructionSound r)
    (hBlocks : ∀ block ∈ blocks, block.WellFormed) :
    ∀ block ∈ attach r blocks, block.WellFormed := by
  unfold attach
  split
  · next entry related span blocks =>
      rcases List.forall_mem_cons.mp hBlocks with
        ⟨hFirst, hOthers⟩
      refine List.forall_mem_cons.mpr ⟨?_, hOthers⟩
      refine
        ⟨hFirst.element, ?_, fun _ _ => rfl, fun _ hSame => ?_⟩
      · exact
          List.forall_mem_append.mpr
            ⟨hStructure.2, hFirst.below⟩
      · cases hSame
        exact ⟨rfl, hStructure.1⟩
  · refine List.forall_mem_cons.mpr ⟨?_, hBlocks⟩
    refine ⟨?_, ?_, fun _ _ => rfl, fun _ hSame => ?_⟩
    · exact
        ⟨fun _ hNone => (by cases hNone),
          fun _ hNone => (by cases hNone), List.nodup_nil,
          fun hNone => (by cases hNone)⟩
    · exact
        List.forall_mem_append.mpr
          ⟨hStructure.2, fun _ hNone => by cases hNone⟩
    · cases hSame
      exact ⟨rfl, hStructure.1⟩

/- Well-formed pieces are put together to such blocks. -/
theorem assemble_wellFormed
    {found : List Piece}
    (hFound : ∀ piece ∈ found, piece.Sound) :
    ∀ block ∈ assemble found, block.WellFormed := by
  have hAll : ∀ block ∈ (assemble found).reverse,
      block.WellFormed := by
    rw [assemble, List.reverse_reverse]
    refine
      List.foldlRecOn found _
        (motive := fun blocks => ∀ block ∈ blocks,
          Block.WellFormed block)
        (by simp) (fun blocks hBlocks piece hPiece => ?_)
    cases piece with
    | block first =>
        exact
          List.forall_mem_cons.mpr ⟨hFound _ hPiece, hBlocks⟩
    | reconstruction r =>
        exact attach_wellFormed (hFound _ hPiece) hBlocks
  exact fun block hBlock =>
    hAll block (List.mem_reverse.mpr hBlock)

end Parser

/- Every document that is read is well formed. -/
theorem Document.read_wellFormed [YamlReader] (input : String) :
    (read input).document.WellFormed := by
  refine
    read_returns (P := Document.WellFormed) ?_
      (fun _ hNone => by cases hNone)
  refine
    Parser.returns_bind (Parser.returns_any _)
      (fun front _ => ?_)
  have hBlocks :
      Parser.Returns
        (Parser.blocks .recover (Lexer.lex input).lines)
        (fun found => ∀ block ∈ found, block.WellFormed) :=
    Parser.returns_bind
      (Parser.pieces_sound _ (Lexer.lex_sound input))
      (fun _ hFound =>
        Parser.returns_pure (Parser.assemble_wellFormed hFound))
  exact
    Parser.returns_bind hBlocks
      (fun _ hFound => Parser.returns_pure hFound)

end Dialectic
