import Dialectic.Proofs.Document.Erasure
import Dialectic.Proofs.Document.Simulation

/-
  Reading lines that are alike: under either policy the same is
  read, spans aside, and the faults found have the same causes
  in the same order.

  Key definitions include:
    * `Parser.SameOutcome`
    * `Parser.Mirrors`
    * `Parser.MirrorsLines`
    * `Parser.Inline.Alike`

  Main theorems:
    * `Parser.mirrors_bind`
    * `Parser.entry_mirrors`
    * `Parser.relations_mirrors`
    * `Parser.reconstruction_mirrors`
    * `Parser.document_mirrors`
-/

namespace Dialectic

namespace Parser

------------------------------------------------------------
-- Readers
------------------------------------------------------------

section Readers

variable {α β γ δ : Type}
variable {policy : FaultPolicy}

/-
  Two readers have read what corresponds and have found faults
  of the same causes, or they have ended with such faults.
-/
inductive SameOutcome (R : α → β → Prop) :
    Except SyntaxFault (α × List SyntaxFault) →
      Except SyntaxFault (β × List SyntaxFault) → Prop where
| read
    {a : α}
    {b : β}
    {found others : List SyntaxFault}
    (hRead : R a b)
    (hFaults :
      found.map SyntaxFault.cause =
        others.map SyntaxFault.cause) :
    SameOutcome R (.ok (a, found)) (.ok (b, others))
| ended
    {fault other : SyntaxFault}
    (hCause : fault.cause = other.cause) :
    SameOutcome R (.error fault) (.error other)

/- One reader goes the way of another one. -/
def Mirrors
    (R : α → β → Prop)
    (m : Parsing α)
    (m' : Parsing β) : Prop :=
  ∀ faults faults',
    faults.map SyntaxFault.cause =
        faults'.map SyntaxFault.cause →
      SameOutcome R (m faults) (m' faults')

/- What is given without reading corresponds. -/
theorem mirrors_pure
    {R : α → β → Prop}
    {a : α}
    {b : β}
    (hHere : R a b) :
    Mirrors R (pure a) (pure b) :=
  fun _ _ hFaults => .read hHere hFaults

/- A fault of the same cause is met. -/
theorem mirrors_report
    (cause : SyntaxFault.Cause)
    (p q : Position) :
    Mirrors Eq (report policy ⟨cause, p⟩)
      (report policy ⟨cause, q⟩) := by
  intro faults faults' hFaults
  cases policy with
  | recover => exact .read rfl (by simp [hFaults])
  | failFast => exact .ended rfl

/- Readers that go the same way do so in sequence. -/
theorem mirrors_bind
    {R : α → β → Prop}
    {S : γ → δ → Prop}
    {m : Parsing α}
    {m' : Parsing β}
    {k : α → Parsing γ}
    {k' : β → Parsing δ}
    (hFirst : Mirrors R m m')
    (hSecond : ∀ a b, R a b → Mirrors S (k a) (k' b)) :
    Mirrors S (m >>= k) (m' >>= k') := by
  intro faults faults' hFaults
  have hHere := hFirst faults faults' hFaults
  simp only [bind, StateT.bind, Except.bind]
  generalize m faults = outcome at hHere
  generalize m' faults' = outcome' at hHere
  cases hHere with
  | read hRead hFound => exact hSecond _ _ hRead _ _ hFound
  | ended hCause => exact .ended hCause

/- A fault may be met before. -/
theorem Mirrors.reported
    {R : α → β → Prop}
    {m : Parsing α}
    {m' : Parsing β}
    (hRest : Mirrors R m m')
    (cause : SyntaxFault.Cause)
    (p q : Position) :
    Mirrors R
      (do
        report policy ⟨cause, p⟩
        m)
      (do
        report policy ⟨cause, q⟩
        m') :=
  mirrors_bind (mirrors_report cause p q) (fun _ _ _ => hRest)

/-
  Readers that leave lines alike, and read what a function
  makes equal.
-/
def MirrorsLines
    (f : α → γ)
    (m m' : Parsing (α × List Line)) : Prop :=
  Mirrors
    (fun read read' =>
      f read.1 = f read'.1 ∧
        List.Forall₂ Line.Alike read.2 read'.2)
    m m'

end Readers

variable {policy : FaultPolicy}

------------------------------------------------------------
-- Inline Content
------------------------------------------------------------

/- The same content, but for texts that are alike. -/
structure Inline.Alike (a b : Inline) : Prop where
  text : Text.SqueezedAlike a.text b.text
  tags : a.tags = b.tags
  mentions : a.mentions = b.mentions
  data : a.data = b.data

namespace Inline.Alike

variable {a b : Inline}

/- Content is alike itself. -/
theorem refl (a : Inline) : a.Alike a :=
  ⟨.refl a.text, rfl, rfl, rfl⟩

/- Content that is alike has the same squeezed text. -/
theorem squeezed (hAlike : a.Alike b) :
    a.squeezed = b.squeezed :=
  congrArg String.ofList hAlike.text.squeeze_eq

/- Texts that are alike may be added. -/
theorem addText
    (hAlike : a.Alike b)
    {content content' : String}
    (hText :
      Text.SqueezedAlike content.toList content'.toList) :
    (a.addText content).Alike (b.addText content') :=
  ⟨hAlike.text.append hText, hAlike.tags, hAlike.mentions,
    hAlike.data⟩

/- The same text may be added. -/
theorem addSame (hAlike : a.Alike b) (content : String) :
    (a.addText content).Alike (b.addText content) :=
  hAlike.addText (.refl content.toList)

/- The same tag may be added. -/
theorem addTag (hAlike : a.Alike b) (tag : String) :
    (a.addTag tag).Alike (b.addTag tag) := by
  have hText :=
    hAlike.addSame
      (if tag.toList.any Text.isBlank then "#(" ++ tag ++ ")"
        else "#" ++ tag)
  exact
    ⟨hText.text, by simp only [Inline.addTag, hAlike.tags],
      hText.mentions, hText.data⟩

/- The same mention may be added. -/
theorem addMention
    (hAlike : a.Alike b)
    (mention : Mention)
    (text : String) :
    (a.addMention mention text).Alike
      (b.addMention mention text) := by
  have hText := hAlike.addSame text
  exact
    ⟨hText.text, hText.tags,
      congrArg (· ++ [mention]) hAlike.mentions, hText.data⟩

/- The same fields may be added. -/
theorem addData (hAlike : a.Alike b) (fields : Record) :
    (a.addData fields).Alike (b.addData fields) :=
  ⟨hAlike.text, hAlike.tags, hAlike.mentions, by
    simp only [Inline.addData, hAlike.data]⟩

/- Tokens that are alike may be added. -/
theorem addToken
    (hAlike : a.Alike b)
    {kind kind' : TokenKind}
    (hKind : kind.Alike kind') :
    (a.addToken kind).Alike (b.addToken kind') := by
  cases hKind with
  | text hText => exact hAlike.addText hText
  | same =>
      cases kind with
      | text content => exact hAlike.addSame content
      | tag name => exact hAlike.addTag name
      | statementMention title => exact hAlike.addMention _ _
      | argumentMention title => exact hAlike.addMention _ _
      | statementDefinition title => exact hAlike.addSame _
      | statementReference title => exact hAlike.addSame _
      | argumentDefinition title => exact hAlike.addSame _
      | argumentReference title => exact hAlike.addSame _
      | _ => exact hAlike

end Inline.Alike

/- The place of data only matters for the place of a fault. -/
theorem read_cases
    [YamlReader]
    (place : DataPlace)
    (content : String) :
    (∃ fields, ∀ p, place.read content p = .ok fields) ∨
      ∃ cause, ∀ p, place.read content p = .error ⟨cause, p⟩ := by
  unfold DataPlace.read
  by_cases hBlank : Text.allBlank content.toList = true
  · exact .inl ⟨[], fun _ => by rw [if_pos hBlank]⟩
  · simp only [hBlank]
    cases YamlReader.read? content with
    | none => exact .inr ⟨_, fun _ => rfl⟩
    | some value =>
        cases value with
        | record fields => exact .inl ⟨_, fun _ => rfl⟩
        | null => exact .inl ⟨_, fun _ => rfl⟩
        | _ => exact .inr ⟨_, fun _ => rfl⟩

/- The same data is read the same way at any two places. -/
theorem readData_mirrors
    [YamlReader]
    (place : DataPlace)
    (content : String)
    (p q : Position) :
    Mirrors Eq (readData policy place content p)
      (readData policy place content q) := by
  unfold readData
  rcases read_cases place content with
    ⟨fields, hRead⟩ | ⟨cause, hRead⟩
  · rw [hRead, hRead]
    exact mirrors_pure rfl
  · rw [hRead, hRead]
    exact (mirrors_pure rfl).reported cause p q

/- The content of tokens that are alike is alike. -/
theorem inlineAfter_mirrors
    [YamlReader]
    {tokens tokens' : List Token}
    (hTokens : List.Forall₂ Token.Alike tokens tokens')
    {content content' : Inline}
    (hBefore : content.Alike content') :
    Mirrors Inline.Alike (inlineAfter policy content tokens)
      (inlineAfter policy content' tokens') := by
  induction hTokens generalizing content content' with
  | nil => exact mirrors_pure hBefore
  | @cons token token' _ _ hFirst _ ih =>
      rcases token with ⟨kind, p⟩
      rcases token' with ⟨kind', q⟩
      change kind.Alike kind' at hFirst
      cases hFirst with
      | text hText => exact ih (hBefore.addText hText)
      | same =>
          cases kind with
          | data text =>
              refine
                mirrors_bind (readData_mirrors _ text p q) ?_
              rintro fields _ rfl
              cases fields with
              | none => exact ih hBefore
              | some fields => exact ih (hBefore.addData fields)
          | _ => exact ih (hBefore.addToken (.same _))

/- The content of an element is alike. -/
theorem inline_mirrors
    [YamlReader]
    {tokens tokens' : List Token}
    (hTokens : List.Forall₂ Token.Alike tokens tokens') :
    Mirrors Inline.Alike (inline policy tokens)
      (inline policy tokens') :=
  inlineAfter_mirrors hTokens (.refl Inline.empty)

------------------------------------------------------------
-- Elements
------------------------------------------------------------

/- Content that is alike makes the same statement. -/
theorem titledStatement_erase
    {content content' : Inline}
    (hAlike : content.Alike content')
    (title : String)
    (isDefinition : Bool)
    (span span' : Span) :
    (titledStatement title isDefinition content span).erase =
      (titledStatement title isDefinition content'
        span').erase := by
  simp only [titledStatement, StatementEntry.erase,
    hAlike.squeezed, hAlike.tags, hAlike.mentions, hAlike.data]

/- It makes the same argument. -/
theorem titledArgument_erase
    {content content' : Inline}
    (hAlike : content.Alike content')
    (title : String)
    (isDefinition : Bool)
    (span span' : Span) :
    (titledArgument title isDefinition content span).erase =
      (titledArgument title isDefinition content'
        span').erase := by
  simp only [titledArgument, ArgumentEntry.erase,
    hAlike.squeezed, hAlike.tags, hAlike.mentions, hAlike.data]

/- It makes the same statement without title, if any. -/
theorem untitledStatement?_erase
    {content content' : Inline}
    (hAlike : content.Alike content')
    (span span' : Span) :
    ((untitledStatement? content span).map
        Entry.statement).map Entry.erase =
      ((untitledStatement? content' span').map
        Entry.statement).map Entry.erase := by
  simp only [untitledStatement?, hAlike.squeezed, hAlike.tags,
    hAlike.mentions, hAlike.data]
  split <;> rfl

/- Content that is alike makes the same element, if any. -/
theorem content_mirrors
    [YamlReader]
    {tokens tokens' : List Token}
    (hTokens : List.Forall₂ Token.Alike tokens tokens')
    {make make' : Inline → Option Entry}
    (hMake : ∀ content content' : Inline,
      content.Alike content' →
        (make content).map Entry.erase =
          (make' content').map Entry.erase) :
    Mirrors
      (fun found found' =>
        found.map Entry.erase = found'.map Entry.erase)
      (do
        let content ← inline policy tokens
        pure (make content))
      (do
        let content ← inline policy tokens'
        pure (make' content)) :=
  mirrors_bind (inline_mirrors hTokens)
    (fun _ _ hAlike => mirrors_pure (hMake _ _ hAlike))

/- Tokens that are alike stand for the same element. -/
theorem entry_mirrors
    [YamlReader]
    {tokens tokens' : List Token}
    (hTokens : List.Forall₂ Token.Alike tokens tokens')
    (span span' : Span) :
    Mirrors
      (fun found found' =>
        found.map Entry.erase = found'.map Entry.erase)
      (entry policy tokens span)
      (entry policy tokens' span') := by
  have hStatement : ∀ title isDefinition content content',
      content.Alike content' →
        (some (Entry.statement
          (titledStatement title isDefinition content
            span))).map Entry.erase =
        (some (Entry.statement
          (titledStatement title isDefinition content'
            span'))).map Entry.erase :=
    fun _ _ _ _ hAlike =>
      congrArg (some ∘ Entry.statement)
        (titledStatement_erase hAlike _ _ _ _)
  have hArgument : ∀ title isDefinition content content',
      content.Alike content' →
        (some (Entry.argument
          (titledArgument title isDefinition content
            span))).map Entry.erase =
        (some (Entry.argument
          (titledArgument title isDefinition content'
            span'))).map Entry.erase :=
    fun _ _ _ _ hAlike =>
      congrArg (some ∘ Entry.argument)
        (titledArgument_erase hAlike _ _ _ _)
  have hUntitled :
      Mirrors
        (fun found found' =>
          found.map Entry.erase = found'.map Entry.erase)
        (do
          let content ← inline policy tokens
          pure ((untitledStatement? content span).map
            Entry.statement))
        (do
          let content ← inline policy tokens'
          pure ((untitledStatement? content span').map
            Entry.statement)) :=
    content_mirrors hTokens
      (fun _ _ hAlike => untitledStatement?_erase hAlike _ _)
  cases hTokens with
  | nil => exact mirrors_pure rfl
  | @cons token token' rest rest' hFirst hRest =>
      rcases token with ⟨kind, p⟩
      rcases token' with ⟨kind', q⟩
      change kind.Alike kind' at hFirst
      cases hFirst with
      | text hText => exact hUntitled
      | same =>
          cases kind with
          | statementDefinition title =>
              exact content_mirrors hRest (hStatement _ _)
          | statementReference title =>
              exact content_mirrors hRest (hStatement _ _)
          | argumentDefinition title =>
              exact content_mirrors hRest (hArgument _ _)
          | argumentReference title =>
              exact content_mirrors hRest (hArgument _ _)
          | _ => exact hUntitled

------------------------------------------------------------
-- Lines
------------------------------------------------------------

/- Lines that are alike are equally deep. -/
theorem isDeeper_alike
    (indent : Nat)
    {line line' : Line}
    (hAlike : line.Alike line') :
    isDeeper indent line = isDeeper indent line' := by
  cases hAlike with
  | gap => rfl
  | filled hContent =>
      simp only [isDeeper, hContent.indent]

/- They go on with an element alike. -/
theorem continues_alike
    (above : Option Nat)
    {line line' : Line}
    (hAlike : line.Alike line') :
    continues above line = continues above line' := by
  cases hAlike with
  | gap => rfl
  | filled hContent =>
      simp only [continues, hContent.indent]
      rcases hContent.headKind?_cases with
        ⟨hNone, hNone'⟩ | ⟨kind, kind', hKind, hKind', hSame⟩
      · rw [hNone, hNone']
      · simp only [hKind, hKind', hSame.opensLine,
          hSame.opensDefinition]

/- They are part of a premise-conclusion structure alike. -/
theorem inReconstruction_alike
    {line line' : Line}
    (hAlike : line.Alike line') :
    inReconstruction line = inReconstruction line' := by
  cases hAlike with
  | gap => rfl
  | filled hContent =>
      rcases hContent.headKind?_cases with
        ⟨hNone, hNone'⟩ | ⟨kind, kind', hKind, hKind', hSame⟩
      · simp only [inReconstruction, hNone, hNone']
      · simp only [inReconstruction, hKind, hKind']
        cases hSame <;> rfl

variable {lines lines' : List Line}

/- Deeper lines are skipped alike. -/
theorem skipDeeper_alike
    (indent : Nat)
    (hLines : List.Forall₂ Line.Alike lines lines') :
    List.Forall₂ Line.Alike (skipDeeper indent lines)
      (skipDeeper indent lines') :=
  forall₂_dropWhile (fun _ _ => isDeeper_alike indent) hLines

/- What is left of a structure is skipped alike. -/
theorem skipReconstruction_alike
    (hLines : List.Forall₂ Line.Alike lines lines') :
    List.Forall₂ Line.Alike (skipReconstruction lines)
      (skipReconstruction lines') := by
  apply forall₂_dropWhile _ hLines
  intro line line' hAlike
  rw [isDeeper_alike 0 hAlike, inReconstruction_alike hAlike]

/- A structure goes on alike. -/
theorem resumes_alike
    (hLines : List.Forall₂ Line.Alike lines lines') :
    resumes lines = resumes lines' := by
  induction hLines with
  | nil => rfl
  | cons hFirst _ ih =>
      have hSame := inReconstruction_alike hFirst
      cases hFirst with
      | gap => exact ih
      | filled hContent =>
          simp only [resumes, hContent.indent, hSame]

/- An element has tokens alike and leaves lines alike. -/
structure Extent.Alike (a b : Extent) : Prop where
  tokens : List.Forall₂ Token.Alike a.tokens b.tokens
  rest : List.Forall₂ Line.Alike a.rest b.rest

/- An element goes on over lines that are alike. -/
theorem extent_alike
    (above : Option Nat)
    {tokens tokens' : List Token}
    (hTokens : List.Forall₂ Token.Alike tokens tokens')
    (span span' : Span)
    (hLines : List.Forall₂ Line.Alike lines lines') :
    (extent above tokens span lines).Alike
      (extent above tokens' span' lines') := by
  have hSame : ∀ line line' : Line, line.Alike line' →
      continues above line = continues above line' :=
    fun _ _ => continues_alike above
  refine
    ⟨List.rel_append hTokens ?_, forall₂_dropWhile hSame hLines⟩
  refine List.rel_flatMap (forall₂_takeWhile hSame hLines) ?_
  intro line line' hAlike
  cases hAlike with
  | gap => exact .nil
  | filled hContent =>
      exact .cons (.same (.text " ")) hContent.tokens

------------------------------------------------------------
-- Relations
------------------------------------------------------------

/-
  Relation lines that are alike are the same if what is below
  their targets and what comes after them is.
-/
theorem marker_mirrors
    [YamlReader]
    {fuel : Nat}
    (hFewer : ∀ {left left' : List Line} (parent : Nat),
      List.Forall₂ Line.Alike left left' →
        MirrorsLines RelationEntry.eraseAll
          (relations policy fuel parent left)
          (relations policy fuel parent left'))
    {line line' : FilledLine}
    (hContent : line.Alike line')
    (hLines : List.Forall₂ Line.Alike lines lines')
    {parent : Nat}
    (hDeep : ¬ line.indent ≤ parent)
    {marker : Marker}
    {p : Position}
    {tokens : List Token}
    (hTokens : line.tokens = ⟨.relation marker, p⟩ :: tokens) :
    MirrorsLines RelationEntry.eraseAll
      (relations policy (fuel + 1) parent
        (.filled line :: lines))
      (relations policy (fuel + 1) parent
        (.filled line' :: lines')) := by
  rcases hContent.tokens_tail (by simp) hTokens with
    ⟨q, tokens', hTokens', hTail⟩
  have hBody :=
    extent_alike (some line.indent) hTail line.span line'.span
      hLines
  simp only [relations, ← hContent.indent, hDeep, if_false,
    hTokens, hTokens']
  refine
    mirrors_bind (entry_mirrors hBody.tokens _ _)
      (fun found found' hFound => ?_)
  cases found with
  | none =>
      cases Option.map_eq_none_iff.mp hFound.symm
      exact
        (hFewer parent
          (skipDeeper_alike line.indent hBody.rest)).reported
            _ _ _
  | some target =>
      rcases Option.map_eq_some_iff.mp hFound.symm with
        ⟨target', rfl, hTarget⟩
      refine
        mirrors_bind (hFewer line.indent hBody.rest)
          (fun read read' hChildren => ?_)
      refine
        mirrors_bind (hFewer parent hChildren.2)
          (fun later later' hSiblings => ?_)
      refine mirrors_pure ⟨?_, hSiblings.2⟩
      simp only [RelationEntry.eraseAll, RelationEntry.erase,
        hTarget, hChildren.1, hSiblings.1]

/- The relations below lines that are alike are the same. -/
theorem relations_mirrors
    [YamlReader]
    (fuel parent : Nat)
    (hLines : List.Forall₂ Line.Alike lines lines') :
    MirrorsLines RelationEntry.eraseAll
      (relations policy fuel parent lines)
      (relations policy fuel parent lines') := by
  -- the induction is on the fuel that the lines above leave
  induction fuel generalizing parent lines lines' with
  | zero => exact mirrors_pure ⟨rfl, hLines⟩
  | succ fuel ih =>
      cases hLines with
      | nil => exact mirrors_pure ⟨rfl, .nil⟩
      | @cons _ _ rest rest' hFirst hRest =>
          cases hFirst with
          | gap p q =>
              exact mirrors_pure ⟨rfl, .cons (.gap p q) hRest⟩
          | @filled line line' hContent =>
              by_cases hShallow : line.indent ≤ parent
              · simp only [relations, ← hContent.indent,
                  hShallow, if_true]
                exact
                  mirrors_pure
                    ⟨rfl, .cons (.filled hContent) hRest⟩
              by_cases hMarker :
                  ∃ marker,
                    line.headKind? = some (.relation marker)
              · rcases hMarker with ⟨marker, hKind⟩
                rcases FilledLine.tokens_of_headKind? hKind with
                  ⟨p, tokens, hTokens⟩
                exact
                  marker_mirrors ih hContent hRest hShallow
                    hTokens
              · have hOther := not_exists.mp hMarker
                have hOther' : ∀ marker,
                    line'.headKind? ≠
                      some (.relation marker) :=
                  fun marker hKind =>
                    hOther marker
                      (hContent.symm.headKind?_eq (by simp)
                        hKind)
                have hDeep : ¬ line'.indent ≤ parent :=
                  hContent.indent ▸ hShallow
                rw [relations_unexpected _ fuel hShallow hOther,
                  relations_unexpected _ fuel hDeep hOther',
                  ← hContent.indent]
                exact
                  (ih parent
                    (skipDeeper_alike line.indent
                      hRest)).reported _ _ _

------------------------------------------------------------
-- Premise-Conclusion Structures
------------------------------------------------------------

/- Erase the spans of the lines of a structure, if any. -/
def eraseItems :
    Option (List ReconstructionItem) →
      Option (List ReconstructionItem) :=
  Option.map (List.map ReconstructionItem.erase)

/- The same line may come first. -/
theorem eraseItems_cons
    {item item' : ReconstructionItem}
    (hItem : item.erase = item'.erase)
    {items items' : Option (List ReconstructionItem)}
    (hItems : eraseItems items = eraseItems items') :
    eraseItems (items.map (item :: ·)) =
      eraseItems (items'.map (item' :: ·)) := by
  have hCons : ∀ (item : ReconstructionItem)
      (items : Option (List ReconstructionItem)),
      eraseItems (items.map (item :: ·)) =
        (eraseItems items).map (item.erase :: ·) := by
    intro item items
    cases items <;> rfl
  rw [hCons, hCons, hItem, hItems]

/-
  Numbered statements that are alike are the same if what comes
  after them is.
-/
theorem step_mirrors
    [YamlReader]
    {fuel : Nat}
    (hFewer : ∀ {left left' : List Line},
      List.Forall₂ Line.Alike left left' →
        MirrorsLines eraseItems
          (reconstructionItems policy fuel left)
          (reconstructionItems policy fuel left'))
    {line line' : FilledLine}
    (hContent : line.Alike line')
    (hLines : List.Forall₂ Line.Alike lines lines')
    (hIndent : line.indent = 0)
    {number : Nat}
    {p : Position}
    {tokens : List Token}
    (hTokens : line.tokens = ⟨.step number, p⟩ :: tokens) :
    MirrorsLines eraseItems
      (reconstructionItems policy (fuel + 1)
        (.filled line :: lines))
      (reconstructionItems policy (fuel + 1)
        (.filled line' :: lines')) := by
  rcases hContent.tokens_tail (by simp) hTokens with
    ⟨q, tokens', hTokens', hTail⟩
  have hBody :=
    extent_alike none hTail line.span line'.span hLines
  have hSkipped := skipReconstruction_alike hBody.rest
  simp only [reconstructionItems, ← hContent.indent, hIndent,
    if_true, hTokens, hTokens']
  refine
    mirrors_bind (entry_mirrors hBody.tokens _ _)
      (fun found found' hFound => ?_)
  cases found with
  | none =>
      cases Option.map_eq_none_iff.mp hFound.symm
      exact (mirrors_pure ⟨rfl, hSkipped⟩).reported _ _ _
  | some element =>
      rcases Option.map_eq_some_iff.mp hFound.symm with
        ⟨element', rfl, hElement⟩
      cases element with
      | statement statement =>
          cases element' with
          | argument argument => cases hElement
          | statement statement' =>
              have hStatement :
                  statement.erase = statement'.erase :=
                Entry.statement.inj hElement.symm
              refine
                mirrors_bind (relations_mirrors fuel 0 hBody.rest)
                  (fun read read' hRelated => ?_)
              refine
                mirrors_bind (hFewer hRelated.2)
                  (fun later later' hItems => ?_)
              refine
                mirrors_pure
                  ⟨eraseItems_cons ?_ hItems.1, hItems.2⟩
              simp only [ReconstructionItem.erase,
                NumberedEntry.erase, hStatement, hRelated.1]
      | argument argument =>
          cases element' with
          | statement statement => cases hElement
          | argument argument' =>
              exact
                (mirrors_pure ⟨rfl, hSkipped⟩).reported _ _ _

/- The lines of a structure are the same if they are alike. -/
theorem reconstructionItems_mirrors
    [YamlReader]
    (fuel : Nat)
    (hLines : List.Forall₂ Line.Alike lines lines') :
    MirrorsLines eraseItems
      (reconstructionItems policy fuel lines)
      (reconstructionItems policy fuel lines') := by
  induction fuel generalizing lines lines' with
  | zero => exact mirrors_pure ⟨rfl, hLines⟩
  | succ fuel ih =>
      have hSame := resumes_alike hLines
      cases hResumes : resumes lines with
      | false =>
          rw [reconstructionItems_stops _ _ hResumes,
            reconstructionItems_stops _ _
              (hSame.symm.trans hResumes)]
          exact mirrors_pure ⟨rfl, hLines⟩
      | true =>
          cases hLines with
          | nil => cases hResumes
          | @cons _ _ rest rest' hFirst hRest =>
              cases hFirst with
              | gap p q =>
                  have hLater : resumes rest = true := hResumes
                  simp only [reconstructionItems,
                    ← resumes_alike hRest, hLater, if_true]
                  exact ih hRest
              | @filled line line' hContent =>
                  rcases tokens_of_resumes hResumes with
                    ⟨hIndent, ⟨number, p, tokens, hTokens⟩ |
                      ⟨rule, p, tokens, hTokens⟩⟩
                  · exact
                      step_mirrors ih hContent hRest hIndent
                        hTokens
                  · rcases hContent.tokens_tail (by simp)
                        hTokens with
                      ⟨q, tokens', hTokens', hTail⟩
                    simp only [reconstructionItems,
                      ← hContent.indent, hIndent, if_true,
                      hTokens, hTokens']
                    refine
                      mirrors_bind (ih hRest)
                        (fun later later' hItems => ?_)
                    have hRule :
                        (ReconstructionItem.inference
                            ⟨rule, line.span⟩).erase =
                          (ReconstructionItem.inference
                            ⟨rule, line'.span⟩).erase :=
                      rfl
                    exact
                      mirrors_pure
                        ⟨eraseItems_cons hRule hItems.1,
                          hItems.2⟩

/- A structure is the same if its lines are. -/
theorem reconstruction_mirrors
    [YamlReader]
    {fuel : Nat}
    (hItems :
      MirrorsLines eraseItems
        (reconstructionItems policy fuel lines)
        (reconstructionItems policy fuel lines'))
    (p q : Position) :
    MirrorsLines (Option.map Reconstruction.erase)
      (reconstruction policy fuel p lines)
      (reconstruction policy fuel q lines') := by
  refine mirrors_bind hItems (fun read read' hRead => ?_)
  rcases read with ⟨found, rest⟩
  rcases read' with ⟨found', rest'⟩
  rcases hRead with ⟨hFound, hRest⟩
  cases found with
  | none =>
      cases Option.map_eq_none_iff.mp hFound.symm
      exact mirrors_pure ⟨rfl, hRest⟩
  | some items =>
      rcases Option.map_eq_some_iff.mp hFound.symm with
        ⟨items', rfl, hErased⟩
      have hOrder : ∀ items,
          orderFault? (items.map ReconstructionItem.erase) =
            orderFault? items :=
        orderFault?_map NumberedEntry.erase InferenceEntry.erase
          (fun _ => rfl) (fun _ => rfl)
      have hSame : orderFault? items' = orderFault? items := by
        rw [← hOrder items', hErased, hOrder]
      simp only [hSame]
      cases orderFault? items with
      | some cause =>
          exact (mirrors_pure ⟨rfl, hRest⟩).reported cause p q
      | none =>
          refine mirrors_pure ⟨?_, hRest⟩
          simp only [Option.map_some, Reconstruction.erase,
            hErased]

------------------------------------------------------------
-- Blocks
------------------------------------------------------------

/- Headings that are alike are the same. -/
theorem heading_mirrors
    [YamlReader]
    (level : Nat)
    {tokens tokens' : List Token}
    (hTokens : List.Forall₂ Token.Alike tokens tokens')
    (line line' : FilledLine) :
    Mirrors
      (fun found found' =>
        found.map Heading.erase = found'.map Heading.erase)
      (heading policy level tokens line)
      (heading policy level tokens' line') := by
  refine
    mirrors_bind (inline_mirrors hTokens)
      (fun content content' hAlike => ?_)
  simp only [hAlike.squeezed, hAlike.tags, hAlike.data]
  split
  · refine Mirrors.reported ?_ _ _ _
    exact mirrors_pure rfl
  · exact mirrors_pure rfl

/- Elements at the top level that are alike are the same. -/
theorem elementBlock_mirrors
    [YamlReader]
    (fuel : Nat)
    {line line' : FilledLine}
    (hContent : line.Alike line')
    (hLines : List.Forall₂ Line.Alike lines lines') :
    MirrorsLines (Option.map ElementBlock.erase)
      (elementBlock policy fuel line lines)
      (elementBlock policy fuel line' lines') := by
  have hBullet : ∀ token token' : Token, token.Alike token' →
      isBullet token = isBullet token' := by
    rintro ⟨kind, p⟩ ⟨kind', q⟩ hKind
    change kind.Alike kind' at hKind
    cases hKind <;> rfl
  have hBody :=
    extent_alike none
      (forall₂_dropWhile hBullet hContent.tokens)
      line.span line'.span hLines
  refine
    mirrors_bind (entry_mirrors hBody.tokens _ _)
      (fun found found' hFound => ?_)
  cases found with
  | none =>
      cases Option.map_eq_none_iff.mp hFound.symm
      have hSkipped := skipDeeper_alike line.indent hBody.rest
      simp only [← hContent.indent]
      exact (mirrors_pure ⟨rfl, hSkipped⟩).reported _ _ _
  | some element =>
      rcases Option.map_eq_some_iff.mp hFound.symm with
        ⟨element', rfl, hElement⟩
      simp only [← hContent.indent]
      refine
        mirrors_bind
          (relations_mirrors fuel line.indent hBody.rest)
          (fun read read' hRelated => ?_)
      refine mirrors_pure ⟨?_, hRelated.2⟩
      simp only [Option.map_some, ElementBlock.erase, hElement,
        hRelated.1]

/- What is made of things that are the same is the same. -/
theorem map_erase
    {α β : Type}
    {erase : α → α}
    {erase' : β → β}
    {make : α → β}
    {found found' : Option α}
    (hSame : found.map erase = found'.map erase)
    (hMake : ∀ a, erase' (make a) = make (erase a)) :
    (found.map make).map erase' =
      (found'.map make).map erase' := by
  have hErased : ∀ found : Option α,
      (found.map make).map erase' =
        (found.map erase).map make := by
    rintro (_ | a)
    · rfl
    · exact congrArg some (hMake a)
  rw [hErased, hErased, hSame]

/- What lines that are alike start is the same. -/
theorem piece_mirrors
    [YamlReader]
    (fuel : Nat)
    {line line' : FilledLine}
    (hContent : line.Alike line')
    (hLines : List.Forall₂ Line.Alike lines lines') :
    MirrorsLines (Option.map Piece.erase)
      (piece policy fuel line lines)
      (piece policy fuel line' lines') := by
  have hElement :
      MirrorsLines (Option.map Piece.erase)
        (do
          let read ← elementBlock policy fuel line lines
          pure
            (read.1.map (fun b => Piece.block (.element b)),
              read.2))
        (do
          let read ← elementBlock policy fuel line' lines'
          pure
            (read.1.map (fun b => Piece.block (.element b)),
              read.2)) := by
    refine
      mirrors_bind (elementBlock_mirrors fuel hContent hLines)
        (fun read read' hRead => mirrors_pure ⟨?_, hRead.2⟩)
    exact map_erase hRead.1 (fun _ => rfl)
  have hSkipped : ∀ cause,
      MirrorsLines (Option.map Piece.erase)
        (do
          report policy ⟨cause, line.contentStart⟩
          pure (none, skipDeeper 0 lines))
        (do
          report policy ⟨cause, line'.contentStart⟩
          pure (none, skipDeeper 0 lines')) :=
    fun cause =>
      Mirrors.reported
        (mirrors_pure ⟨rfl, skipDeeper_alike 0 hLines⟩) _ _ _
  unfold piece
  simp only [← hContent.indent]
  have hTokens := hContent.tokens
  rcases hHere : line.tokens with _ | ⟨⟨kind, p⟩, tokens⟩
  · rw [hHere] at hTokens
    rw [List.forall₂_nil_left_iff.mp hTokens]
    exact hElement
  · rw [hHere] at hTokens
    rcases List.forall₂_cons_left_iff.mp hTokens with
      ⟨⟨kind', q⟩, tokens', hFirst, hTail, hThere⟩
    rw [hThere]
    change kind.Alike kind' at hFirst
    cases hFirst with
    | text hText => exact hElement
    | same =>
        cases kind with
        | heading level =>
            refine
              mirrors_bind (heading_mirrors level hTail _ _)
                (fun found found' hFound =>
                  mirrors_pure ⟨?_, hLines⟩)
            exact map_erase hFound (fun _ => rfl)
        | step number =>
            by_cases hIndent : line.indent = 0
            · simp only [hIndent, if_true]
              have hItems :
                  MirrorsLines eraseItems
                    (reconstructionItems policy (fuel + 1)
                      (.filled line :: lines))
                    (reconstructionItems policy (fuel + 1)
                      (.filled line' :: lines')) :=
                step_mirrors (reconstructionItems_mirrors fuel)
                  hContent hLines hIndent hHere
              refine
                mirrors_bind (reconstruction_mirrors hItems _ _)
                  (fun read read' hRead =>
                    mirrors_pure ⟨?_, hRead.2⟩)
              exact map_erase hRead.1 (fun _ => rfl)
            · simp only [hIndent, if_false]
              exact hElement
        | inference rule => exact hSkipped _
        | relation marker => exact hSkipped _
        | _ => exact hElement

/- The pieces of lines that are alike are the same. -/
theorem pieces_mirrors
    [YamlReader]
    (fuel : Nat)
    (hLines : List.Forall₂ Line.Alike lines lines') :
    Mirrors
      (fun found found' =>
        found.map Piece.erase = found'.map Piece.erase)
      (pieces policy fuel lines)
      (pieces policy fuel lines') := by
  induction fuel generalizing lines lines' with
  | zero => exact mirrors_pure rfl
  | succ fuel ih =>
      cases hLines with
      | nil => exact mirrors_pure rfl
      | cons hFirst hRest =>
          cases hFirst with
          | gap p q => exact ih hRest
          | filled hContent =>
              refine
                mirrors_bind (piece_mirrors fuel hContent hRest)
                  (fun read read' hRead => ?_)
              refine
                mirrors_bind (ih hRead.2)
                  (fun more more' hMore => mirrors_pure ?_)
              simp only [List.map_append, hMore,
                ← Option.toList_map, hRead.1]

------------------------------------------------------------
-- Documents
------------------------------------------------------------

/- A piece without spans is put to blocks without spans. -/
theorem grow_erase (blocks : List Block) (piece : Piece) :
    grow (blocks.map Block.erase) piece.erase =
      (grow blocks piece).map Block.erase := by
  cases piece with
  | block found => rfl
  | reconstruction r =>
      rcases blocks with
        _ | ⟨h | ⟨e | e, related, found?, span⟩, blocks⟩
      · rfl
      · rfl
      · rfl
      · cases found? <;> rfl

/- The document of lines that are alike is the same. -/
theorem document_mirrors
    [YamlReader]
    {lexed lexed' : Lexer.Lexed}
    (hFront : lexed.frontMatter = none)
    (hFront' : lexed'.frontMatter = none)
    (hLines :
      List.Forall₂ Line.Alike lexed.lines lexed'.lines) :
    Mirrors
      (fun found found' => found.erase = found'.erase)
      (document policy lexed)
      (document policy lexed') := by
  unfold document
  rw [hFront, hFront']
  refine
    mirrors_bind (mirrors_pure rfl) (fun front front' hSame => ?_)
  have hPieces :
      Mirrors
        (fun found found' =>
          found.map Piece.erase = found'.map Piece.erase)
        (pieces policy lexed.lines.length lexed.lines)
        (pieces policy lexed'.lines.length lexed'.lines) := by
    rw [← hLines.length_eq]
    exact pieces_mirrors _ hLines
  have hBlocks :
      Mirrors
        (fun found found' =>
          found.map Block.erase = found'.map Block.erase)
        (blocks policy lexed.lines)
        (blocks policy lexed'.lines) := by
    refine
      mirrors_bind hPieces
        (fun found found' hFound => mirrors_pure ?_)
    rw [← assemble_map grow_erase, hFound,
      assemble_map grow_erase]
  refine
    mirrors_bind hBlocks
      (fun found found' hFound => mirrors_pure ?_)
  simp only [Document.erase, hSame, hFound]

end Parser

end Dialectic
