import Dialectic.Notation.Yaml.Reader
import Dialectic.Proofs.Document.Bodies
import Dialectic.Proofs.Model.Headings
import Dialectic.Proofs.Model.Titling
import Dialectic.Proofs.Model.Untagging

/-
  The texts of a model that is built without tags.  The text of
  an element is what its tokens are written as; where its tags
  can be told from the rest, the model has this text with a
  blank for each of them.

  Key definitions include:
    * `TokenKind.glyphs`
    * `untagged`
    * `Entry.IsWritten`
    * `StoredAs`

  Main theorems:
    * `Parser.inlineAfter_written`
    * `Parser.entry_written`
    * `storedAs_cleaned`
    * `Model.build_untagged`
-/

namespace Dialectic

open Text

------------------------------------------------------------
-- Texts of Tokens
------------------------------------------------------------

/-
  What a token adds to a text: a tag adds itself, other tokens
  add the characters that they are written with.
-/
def TokenKind.glyphs : TokenKind → List Glyph
| tag name => [.tag name]
| kind => (Parser.Inline.empty.addToken kind).text.map .char

/- What some tokens add to a text. -/
def Token.glyphs (tokens : List Token) : List Glyph :=
  tokens.flatMap (fun token => token.kind.glyphs)

/- The text of some tokens with a blank for each tag. -/
def untagged (tokens : List Token) : String :=
  String.ofList
    (squeeze (written blankText (Token.glyphs tokens)))

namespace Parser

/- A token adds what it is written with to a text. -/
theorem addToken_written (content : Inline) (kind : TokenKind) :
    (content.addToken kind).text =
      content.text ++ written tagText kind.glyphs := by
  cases kind with
  | tag name =>
      have hText : written tagText [.tag name] = tagText name :=
        List.append_nil _
      rw [TokenKind.glyphs, hText, tagText, isLong,
        Inline.addToken, Inline.addTag, Inline.addText]
      split <;> simp [enclosed, hashed]
  | _ =>
      simp [TokenKind.glyphs, Inline.addToken, Inline.addText,
        Inline.addMention, Inline.empty]

/- A token lists the tag that it is. -/
theorem mem_addToken_tags
    {content : Inline}
    {kind : TokenKind}
    {name : String} :
    name ∈ (content.addToken kind).tags ↔
      name ∈ content.tags ∨ .tag name ∈ kind.glyphs := by
  cases kind with
  | tag other =>
      simp only [Inline.addToken, Inline.addTag,
        TokenKind.glyphs]
      split
      · next hOld =>
          have hThere : other ∈ content.tags := by
            simpa using hOld
          constructor
          · exact .inl
          · rintro (hName | hNew)
            · exact hName
            · cases List.mem_singleton.mp hNew
              exact hThere
      · simp
  | _ =>
      simp [TokenKind.glyphs, Inline.addToken, Inline.addText,
        Inline.addMention]

/- Some content has the text and the tags of some tokens. -/
structure Inline.IsWritten
    (content : Inline)
    (tokens : List Token) : Prop where
  text : content.text = written tagText (Token.glyphs tokens)
  tags : ∀ name,
    name ∈ content.tags ↔ .tag name ∈ Token.glyphs tokens

/- More tokens are read behind those of some content. -/
theorem inlineAfter_written
    [YamlReader]
    (policy : FaultPolicy)
    (content : Inline)
    (tokens : List Token) :
    Returns (inlineAfter policy content tokens)
      (fun found =>
        found.text =
            content.text
              ++ written tagText (Token.glyphs tokens) ∧
          ∀ name, name ∈ found.tags ↔
            name ∈ content.tags ∨
              .tag name ∈ Token.glyphs tokens) := by
  induction tokens generalizing content with
  | nil =>
      exact
        returns_pure
          ⟨(List.append_nil _).symm, fun name => by
            simp [Token.glyphs]⟩
  | cons token tokens ih =>
      rcases token with ⟨kind, position⟩
      have hGlyphs :
          Token.glyphs (⟨kind, position⟩ :: tokens) =
            kind.glyphs ++ Token.glyphs tokens :=
        rfl
      cases kind with
      | data text =>
          refine returns_bind (returns_any _) (fun fields _ => ?_)
          cases fields with
          | none => exact ih content
          | some fields => exact ih (content.addData fields)
      | _ =>
          refine (ih _).imp (fun found hFound => ?_)
          rcases hFound with ⟨hText, hTags⟩
          rw [hGlyphs]
          constructor
          · rw [hText, addToken_written, written_append,
              List.append_assoc]
          · intro name
            rw [hTags, mem_addToken_tags, List.mem_append,
              or_assoc]

/- The content of tokens is what they are written with. -/
theorem inline_written
    [YamlReader]
    (policy : FaultPolicy)
    (tokens : List Token) :
    Returns (inline policy tokens)
      (Inline.IsWritten · tokens) := by
  refine
    (inlineAfter_written policy Inline.empty tokens).imp
      (fun content hContent => ?_)
  rcases hContent with ⟨hText, hTags⟩
  exact ⟨hText, fun name => by simp [hTags, Inline.empty]⟩

end Parser

------------------------------------------------------------
-- Texts of Elements
------------------------------------------------------------

namespace Entry

/- The text of a statement or the description of an argument. -/
def text? : Entry → Option String
| statement entry => entry.text
| argument entry => entry.description

/- The tags of an element. -/
def tags : Entry → List String
| statement entry => entry.tags
| argument entry => entry.tags

/- The text of an element, without its tags if so wished. -/
def cleaned? (withoutTags : Bool) (e : Entry) : Option String :=
  e.text?.map (Builder.cleanText withoutTags e.tags)

/- An element has the text and the tags of some content. -/
structure HasContent (e : Entry) (content : Parser.Inline) :
    Prop where
  text : ∀ text ∈ e.text?, text = content.squeezed
  tags : e.tags = content.tags

/- An element has the text and the tags of some tokens. -/
structure IsWritten (e : Entry) (tokens : List Token) :
    Prop where
  text : ∀ text ∈ e.text?,
    text =
      String.ofList
        (squeeze (written tagText (Token.glyphs tokens)))
  tags : ∀ name,
    name ∈ e.tags ↔ .tag name ∈ Token.glyphs tokens

/-
  Where the tags can be told from the rest, an element is
  cleaned by a blank for each of them.
-/
theorem IsWritten.cleaned?_eq
    {e : Entry}
    {tokens : List Token}
    (hWritten : e.IsWritten tokens)
    (hLegible : Legible (Token.glyphs tokens)) :
    e.cleaned? true = e.text?.map (fun _ => untagged tokens) := by
  unfold cleaned?
  cases hText : e.text? with
  | none => rfl
  | some text =>
      rw [Option.map_some, Option.map_some, Builder.cleanText,
        if_pos rfl, hWritten.text text hText,
        removeTags_written hLegible hWritten.tags]
      rfl

end Entry

namespace Parser

/- What is made of content is written with its tokens. -/
theorem made_written
    [YamlReader]
    (policy : FaultPolicy)
    (tokens : List Token)
    {make : Inline → Option Entry}
    (hMake : ∀ content, ∀ target ∈ make content,
      target.HasContent content) :
    Returns
      (do
        let content ← inline policy tokens
        pure (make content))
      (fun target? => ∀ target ∈ target?,
        target.IsWritten tokens) := by
  refine
    returns_bind (inline_written policy tokens)
      (fun content hContent => returns_pure ?_)
  intro target hTarget
  have hContained := hMake content target hTarget
  constructor
  · intro text hThere
    rw [hContained.text text hThere, Inline.squeezed, hContent.text]
  · rw [hContained.tags]
    exact hContent.tags

/- A statement with a title has the text of its content. -/
theorem titledStatement_hasContent
    (title : String)
    (isDefinition : Bool)
    (span : Span)
    (content : Inline) :
    ∀ target ∈ some (Entry.statement
        (titledStatement title isDefinition content span)),
      target.HasContent content := by
  rintro _ ⟨⟩
  refine ⟨fun text hText => ?_, rfl⟩
  simp only [Entry.text?, titledStatement] at hText
  split at hText <;> cases hText
  rfl

/- So has an argument. -/
theorem titledArgument_hasContent
    (title : String)
    (isDefinition : Bool)
    (span : Span)
    (content : Inline) :
    ∀ target ∈ some (Entry.argument
        (titledArgument title isDefinition content span)),
      target.HasContent content := by
  rintro _ ⟨⟩
  refine ⟨fun text hText => ?_, rfl⟩
  simp only [Entry.text?, titledArgument] at hText
  split at hText <;> cases hText
  rfl

/- So has a statement without a title. -/
theorem untitledStatement_hasContent
    (span : Span)
    (content : Inline) :
    ∀ target ∈
        (untitledStatement? content span).map Entry.statement,
      target.HasContent content := by
  intro target hTarget
  rcases Option.map_eq_some_iff.mp hTarget with
    ⟨entry, hEntry, rfl⟩
  simp only [untitledStatement?] at hEntry
  split at hEntry <;> cases hEntry
  refine ⟨fun text hText => ?_, rfl⟩
  cases hText
  rfl

/- The element of some tokens is written with its content. -/
theorem entry_written
    [YamlReader]
    (policy : FaultPolicy)
    (tokens : List Token)
    (span : Span) :
    Returns (entry policy tokens span)
      (fun target? => ∀ target ∈ target?,
        target.IsWritten (contentOf tokens)) := by
  rcases tokens with _ | ⟨⟨kind, position⟩, rest⟩
  · exact returns_pure (fun _ hNone => by cases hNone)
  · cases kind with
    | statementDefinition title =>
        exact
          made_written policy rest
            (titledStatement_hasContent title true span)
    | statementReference title =>
        exact
          made_written policy rest
            (titledStatement_hasContent title false span)
    | argumentDefinition title =>
        exact
          made_written policy rest
            (titledArgument_hasContent title true span)
    | argumentReference title =>
        exact
          made_written policy rest
            (titledArgument_hasContent title false span)
    | _ =>
        exact
          made_written policy _ (untitledStatement_hasContent span)

end Parser

------------------------------------------------------------
-- Texts of Models
------------------------------------------------------------

/-
  A text is stored for an element with a body on some lines.
  Where the tags of its content can be told from the rest, it is
  the text of the content with a blank for each of them.
-/
def StoredAs
    [YamlReader]
    (lines : List Line)
    (e : Entry)
    (text? : Option String) : Prop :=
  Parser.HasBody lines e ∧
    ∀ body : Parser.Body, body.StandsFor lines e →
      Legible (Token.glyphs body.content) →
        text? = e.text?.map (fun _ => untagged body.content)

/- What an element is cleaned to is stored for it. -/
theorem storedAs_cleaned
    [YamlReader]
    {lines : List Line}
    {e : Entry}
    (hThere : Parser.HasBody lines e) :
    StoredAs lines e (e.cleaned? true) := by
  refine ⟨hThere, fun body hBody hLegible => ?_⟩
  rcases hBody.read with ⟨found, hRead⟩
  have hWritten :=
    Parser.entry_written .recover body.extent.tokens
      body.extent.span [] _ _ (hRead []) e rfl
  exact hWritten.cleaned?_eq hLegible

/- What is named is recorded. -/
theorem Naming.entry_mem
    {d : Document}
    {x : Naming}
    (hNaming : x ∈ d.namings) :
    x.entry ∈ d.recorded := by
  have hAfter : ∀ n es, (namingsAfter n es).map Naming.entry =
      es := by
    intro n es
    induction es generalizing n with
    | nil => rfl
    | cons e es ih => rw [namingsAfter, List.map_cons, ih]
  rw [← hAfter ⟨0, 0⟩ d.recorded]
  exact List.mem_map_of_mem hNaming

namespace Model

/- A statement of a document has a body on its lines. -/
theorem statement_hasBody
    [YamlReader]
    {input : String}
    {entry : StatementEntry}
    (hThere : entry ∈
      statementsOf (Document.read input).document.recorded) :
    Parser.HasBody (Lexer.lex input).lines
      (.statement entry) := by
  rcases List.mem_filterMap.mp hThere with ⟨e, he, hSame⟩
  cases e with
  | argument other => cases hSame
  | statement other =>
      cases hSame
      rcases Document.read_bodies input _
          ((Document.recorded_sublist _).subset he) with
        hBody | ⟨span, hOther⟩
      · exact hBody
      · cases hOther

/- So does an argument that is described. -/
theorem argument_hasBody
    [YamlReader]
    {input : String}
    {entry : ArgumentEntry}
    (hThere : .argument entry ∈
      (Document.read input).document.recorded)
    (hSome : entry.description ≠ none) :
    Parser.HasBody (Lexer.lex input).lines
      (.argument entry) := by
  rcases Document.read_bodies input _
      ((Document.recorded_sublist _).subset hThere) with
    hBody | ⟨span, hOther⟩
  · exact hBody
  · cases hOther
    exact absurd rfl hSome

/- The statements of a model are told by those recorded. -/
theorem build_tells
    (withoutTags : Bool)
    (d : Document) :
    List.Forall₂ (fun entry s => s.Tells withoutTags entry)
      (statementsOf d.recorded)
      (build withoutTags d).1.statements := by
  rcases build_opened withoutTags d with ⟨b, hModel, _, hTells⟩
  have hPlaced :
      d.placed.map Prod.fst = statementsOf d.recorded :=
    placedAfter_fst _ _ _ _
  rw [← hPlaced, List.forall₂_map_left_iff, hModel]
  exact hTells.imp (fun _ _ hBoth => hBoth.1)

/- An argument is described by its occurrences. -/
theorem build_describes
    {withoutTags : Bool}
    {d : Document}
    {a : Argument}
    (ha : a ∈ (build withoutTags d).1.arguments)
    {text : String} :
    text ∈ a.descriptions ↔
      ∃ entry : ArgumentEntry,
        ⟨.argument entry, .argument a.title⟩ ∈ d.namings ∧
          (Entry.argument entry).cleaned? withoutTags =
            some text := by
  have hLinked := (build_coherent withoutTags d).linked
  have hDescribed :
      text ∈ (build withoutTags d).1.described a.title ↔
        ∃ x ∈ d.namings, x.element = .argument a.title ∧
          x.says? withoutTags = some text :=
    (build_holds withoutTags d).reflects.arguments a.title text
  rw [described, (hLinked.argument?_iff a.title a).mpr ⟨ha, rfl⟩]
    at hDescribed
  refine hDescribed.trans ⟨?_, ?_⟩
  · rintro ⟨⟨e, element⟩, hNaming, rfl, hSays⟩
    cases e with
    | statement entry => cases hSays
    | argument entry => exact ⟨entry, hNaming, hSays⟩
  · rintro ⟨entry, hNaming, hSays⟩
    exact ⟨_, hNaming, rfl, hSays⟩

/- What a described argument is cleaned to is stored for it. -/
theorem argument_storedAs
    [YamlReader]
    {input : String}
    {entry : ArgumentEntry}
    (hThere : .argument entry ∈
      (Document.read input).document.recorded)
    (hSome : entry.description ≠ none)
    {text : String}
    (hText : (Entry.argument entry).cleaned? true = some text) :
    StoredAs (Lexer.lex input).lines (.argument entry)
      (some text) := by
  rw [← hText]
  exact storedAs_cleaned (argument_hasBody hThere hSome)

/-
  Without tags, the statements of the model of a text are those
  that are recorded of it, each with the text that is stored for
  its element, and an argument is described by the texts that
  are stored for its occurrences with a description, and by no
  others.
-/
theorem build_untagged [YamlReader] (input : String) :
    let lines := (Lexer.lex input).lines
    let d := (Document.read input).document
    let m := (build true d).1
    List.Forall₂
        (fun entry s => s.Tells true entry ∧
          StoredAs lines (.statement entry) s.text)
        (statementsOf d.recorded) m.statements ∧
      ∀ a ∈ m.arguments,
        (∀ text ∈ a.descriptions,
          ∃ entry : ArgumentEntry,
            ⟨.argument entry, .argument a.title⟩ ∈ d.namings ∧
              entry.description ≠ none ∧
              StoredAs lines (.argument entry) (some text)) ∧
          ∀ entry : ArgumentEntry,
            ⟨.argument entry, .argument a.title⟩ ∈ d.namings →
              entry.description ≠ none →
                ∃ text ∈ a.descriptions,
                  StoredAs lines (.argument entry)
                    (some text) := by
  intro lines d m
  constructor
  · have hBodies : ∀ entry ∈ statementsOf d.recorded,
        Parser.HasBody lines (.statement entry) :=
      fun entry hThere => statement_hasBody hThere
    have hBoth :=
      (List.forall₂_and_left _ _).mpr
        ⟨hBodies, build_tells true d⟩
    refine hBoth.imp (fun entry s hEntry => ⟨hEntry.2, ?_⟩)
    rw [hEntry.2.text]
    exact storedAs_cleaned hEntry.1
  · intro a ha
    constructor
    · intro text hText
      rcases (build_describes ha).mp hText with
        ⟨entry, hNaming, hSays⟩
      have hSome : entry.description ≠ none := by
        intro hNone
        rw [Entry.cleaned?, Entry.text?, hNone] at hSays
        cases hSays
      exact
        ⟨entry, hNaming, hSome,
          argument_storedAs (Naming.entry_mem hNaming) hSome
            hSays⟩
    · intro entry hNaming hSome
      rcases Option.ne_none_iff_exists'.mp hSome with
        ⟨said, hSaid⟩
      have hSays :
          (Entry.argument entry).cleaned? true =
            some (Builder.cleanText true entry.tags said) := by
        rw [Entry.cleaned?, Entry.text?, hSaid]
        rfl
      exact
        ⟨_, (build_describes ha).mpr ⟨entry, hNaming, hSays⟩,
          argument_storedAs (Naming.entry_mem hNaming) hSome
            hSays⟩

section

open scoped Yaml

/- Tags may be the start of others, or have a mark behind them. -/
theorem build_untagged_beside :
    let input :=
      "[A]: #(very long), #pro #procedure @[B] C# #pro"
    let m := (build true (Document.read input).document).1
    ∃ body e,
      Parser.Body.StandsFor body (Lexer.lex input).lines e ∧
        Legible (Token.glyphs body.content) ∧
        m.statements.map Statement.text =
          [some (untagged body.content)] ∧
        untagged body.content = ", @[B] C#" := by
  intro input m
  generalize hLines : (Lexer.lex input).lines = lines
  have hRead :
      (statementsOf
          (Document.read input).document.recorded).map
            (fun entry => entry.text.isSome) = [true] ∧
        lines.length = 1 ∧
          let tokens :=
            (lines.flatMap Parser.continuationTokens).tail
          (∀ token ∈ tokens.head?,
              token.kind.opensLine = false) ∧
            Legible (Token.glyphs (Parser.contentOf tokens)) ∧
            untagged (Parser.contentOf tokens) =
              ", @[B] C#" := by
    rw [← hLines]
    decide +kernel
  rcases hRead with ⟨hSome, hLength, hHead, hLegible, hText⟩
  rcases List.length_eq_one_iff.mp hLength with ⟨line, rfl⟩
  rcases List.map_eq_singleton_iff.mp hSome with
    ⟨entry, hEntry, hIsSome⟩
  rcases Option.isSome_iff_exists.mp hIsSome with ⟨text, hThere⟩
  have hTold := (build_untagged input).1
  rw [hEntry, hLines] at hTold
  rcases List.forall₂_cons_left_iff.mp hTold with
    ⟨s, others, ⟨_, ⟨body, hBody⟩, hStored⟩, hNone, hModel⟩
  rw [List.forall₂_nil_left_iff.mp hNone] at hModel
  have hLine : [Line.filled body.line] = [line] := by
    have hSame := hBody.there.eq_of_length_le (by simp)
    rw [← hSame, (List.cons.inj hSame).2]
  cases hLine
  have hTokens :
      ([Line.filled body.line].flatMap
          Parser.continuationTokens).tail =
        body.line.tokens := by
    simp [Parser.continuationTokens]
  simp only [hTokens] at hHead hLegible hText
  rw [← hBody.content_eq rfl hHead] at hLegible hText
  refine ⟨body, .statement entry, hBody, hLegible, ?_, hText⟩
  have hStatements : m.statements = [s] := hModel
  rw [hStatements, List.map_singleton, hStored body hBody hLegible,
    Entry.text?, hThere, Option.map_some]

end

end Model

end Dialectic
