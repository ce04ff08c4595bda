import Dialectic.Document.Parser
import Dialectic.Proofs.Text.Padding
import Mathlib.Data.List.Forall2

/-
  Documents without their spans, and lines that are alike: they
  may stand at other places, and their texts may differ where
  squeezing makes them equal.

  Key definitions include:
    * `Document.erase`
    * `Token.Alike`
    * `Line.Alike`

  Main theorems:
    * `FilledLine.Alike.tokens_tail`
    * `forall₂_takeWhile`, `forall₂_dropWhile`
-/

namespace Dialectic

------------------------------------------------------------
-- Elements and Relations
------------------------------------------------------------

/- Erase the span of a statement. -/
def StatementEntry.erase (entry : StatementEntry) :
    StatementEntry :=
  { entry with span := .origin }

/- Erase the span of an argument. -/
def ArgumentEntry.erase (entry : ArgumentEntry) :
    ArgumentEntry :=
  { entry with span := .origin }

/- Erase the span of an element. -/
def Entry.erase : Entry → Entry
| statement entry => statement entry.erase
| argument entry => argument entry.erase

namespace RelationEntry

mutual

/- Erase the spans of a relation line and those below it. -/
def erase : RelationEntry → RelationEntry
| ⟨marker, target, children, _⟩ =>
    ⟨marker, target.erase, eraseAll children, .origin⟩

/- Erase the spans of some relation lines. -/
def eraseAll : List RelationEntry → List RelationEntry
| [] => []
| tree :: trees => erase tree :: eraseAll trees

end

end RelationEntry

------------------------------------------------------------
-- Premise-Conclusion Structures
------------------------------------------------------------

/- Erase the spans of a numbered statement. -/
def NumberedEntry.erase (step : NumberedEntry) :
    NumberedEntry :=
  { step with
    statement := step.statement.erase
    relations := RelationEntry.eraseAll step.relations }

/- Erase the span of an inference. -/
def InferenceEntry.erase (inference : InferenceEntry) :
    InferenceEntry :=
  { inference with span := .origin }

/- Erase the spans of a line of a structure. -/
def ReconstructionItem.erase :
    ReconstructionItem → ReconstructionItem
| statement step => statement step.erase
| inference found => inference found.erase

/- Erase the spans of a premise-conclusion structure. -/
def Reconstruction.erase (r : Reconstruction) :
    Reconstruction :=
  ⟨r.items.map ReconstructionItem.erase, .origin⟩

------------------------------------------------------------
-- Documents
------------------------------------------------------------

/- Erase the span of a heading. -/
def Heading.erase (heading : Heading) : Heading :=
  { heading with span := .origin }

/- Erase the spans of an element at the top level. -/
def ElementBlock.erase (block : ElementBlock) : ElementBlock :=
  { element := block.element.erase
    relations := RelationEntry.eraseAll block.relations
    reconstruction :=
      block.reconstruction.map Reconstruction.erase
    span := .origin }

/- Erase the spans of a block. -/
def Block.erase : Block → Block
| heading found => heading found.erase
| element found => element found.erase

/- Erase the spans of a piece of a document. -/
def Parser.Piece.erase : Parser.Piece → Parser.Piece
| block found => block found.erase
| reconstruction found => reconstruction found.erase

/- Erase all spans of a document. -/
def Document.erase (document : Document) : Document :=
  ⟨document.frontMatter, document.blocks.map Block.erase⟩

------------------------------------------------------------
-- Tokens and Lines
------------------------------------------------------------

/- The same kind of tokens, or texts that are alike. -/
inductive TokenKind.Alike : TokenKind → TokenKind → Prop where
| same (kind : TokenKind) : Alike kind kind
| text
    {a b : String}
    (hText : Text.SqueezedAlike a.toList b.toList) :
    Alike (.text a) (.text b)

/- Tokens of kinds that are alike, at any places. -/
def Token.Alike (a b : Token) : Prop :=
  a.kind.Alike b.kind

/- Lines that are indented equally, with tokens alike. -/
structure FilledLine.Alike (a b : FilledLine) : Prop where
  indent : a.indent = b.indent
  tokens : List.Forall₂ Token.Alike a.tokens b.tokens

/- Two gaps, or two lines whose content is alike. -/
inductive Line.Alike : Line → Line → Prop where
| gap (p q : Position) : Alike (.gap p) (.gap q)
| filled
    {a b : FilledLine}
    (hContent : a.Alike b) :
    Alike (.filled a) (.filled b)

namespace TokenKind.Alike

variable {a b : TokenKind}

/- Tokens that are alike open lines of their own alike. -/
theorem opensLine (hAlike : a.Alike b) :
    a.opensLine = b.opensLine := by
  cases hAlike <;> rfl

/- They open definitions alike. -/
theorem opensDefinition (hAlike : a.Alike b) :
    a.opensDefinition = b.opensDefinition := by
  cases hAlike <;> rfl

/- Only texts are alike that differ. -/
theorem eq_of_not_text
    (hAlike : a.Alike b)
    (hNot : ∀ content, a ≠ .text content) :
    b = a := by
  cases hAlike with
  | same => rfl
  | text => exact absurd rfl (hNot _)

/- What is alike is so the other way round. -/
theorem symm (hAlike : a.Alike b) : b.Alike a := by
  cases hAlike with
  | same => exact .same a
  | text hText => exact .text hText.symm

end TokenKind.Alike

namespace FilledLine.Alike

variable {a b : FilledLine}

/- What is alike is so the other way round. -/
theorem symm (hAlike : a.Alike b) : b.Alike a :=
  ⟨hAlike.indent.symm,
    hAlike.tokens.flip.imp (fun _ _ hToken => hToken.symm)⟩

/- Lines that are alike start with tokens that are alike. -/
theorem headKind?_cases (hAlike : a.Alike b) :
    (a.headKind? = none ∧ b.headKind? = none) ∨
      ∃ kind kind',
        a.headKind? = some kind ∧ b.headKind? = some kind' ∧
          kind.Alike kind' := by
  rcases a with ⟨_, _, tokens, _⟩
  rcases b with ⟨_, _, tokens', _⟩
  rcases hAlike with ⟨_, hTokens⟩
  cases hTokens with
  | nil => exact .inl ⟨rfl, rfl⟩
  | cons hFirst _ => exact .inr ⟨_, _, rfl, rfl, hFirst⟩

/- A token that is no text starts both lines or none. -/
theorem headKind?_eq
    (hAlike : a.Alike b)
    {kind : TokenKind}
    (hNot : ∀ content, kind ≠ .text content)
    (hKind : a.headKind? = some kind) :
    b.headKind? = some kind := by
  rcases hAlike.headKind?_cases with
    ⟨hNone, _⟩ | ⟨first, first', hFirst, hFirst', hSame⟩
  · rw [hNone] at hKind
    cases hKind
  · rw [hFirst] at hKind
    cases hKind
    rw [hFirst', hSame.eq_of_not_text hNot]

/- What follows that token is alike. -/
theorem tokens_tail
    (hAlike : a.Alike b)
    {kind : TokenKind}
    (hNot : ∀ content, kind ≠ .text content)
    {p : Position}
    {tokens : List Token}
    (hTokens : a.tokens = ⟨kind, p⟩ :: tokens) :
    ∃ q tokens', b.tokens = ⟨kind, q⟩ :: tokens' ∧
      List.Forall₂ Token.Alike tokens tokens' := by
  have hAll := hAlike.tokens
  rw [hTokens] at hAll
  rcases List.forall₂_cons_left_iff.mp hAll with
    ⟨⟨kind', q⟩, tokens', hFirst, hRest, hOther⟩
  have hKind : kind' = kind :=
    TokenKind.Alike.eq_of_not_text hFirst hNot
  exact ⟨q, tokens', hKind ▸ hOther, hRest⟩

end FilledLine.Alike

------------------------------------------------------------
-- Taking and Dropping
------------------------------------------------------------

section Lists

variable {α β : Type}
variable {R : α → β → Prop}
variable {p : α → Bool} {q : β → Bool}
variable {as : List α} {bs : List β}

/- What is taken from lists that correspond corresponds. -/
theorem forall₂_takeWhile
    (hSame : ∀ a b, R a b → p a = q b)
    (hLists : List.Forall₂ R as bs) :
    List.Forall₂ R (as.takeWhile p) (bs.takeWhile q) := by
  induction hLists with
  | nil => exact .nil
  | cons hHead _ ih =>
      rw [List.takeWhile_cons, List.takeWhile_cons,
        hSame _ _ hHead]
      split
      · exact .cons hHead ih
      · exact .nil

/- So does what is left when some of it is dropped. -/
theorem forall₂_dropWhile
    (hSame : ∀ a b, R a b → p a = q b)
    (hLists : List.Forall₂ R as bs) :
    List.Forall₂ R (as.dropWhile p) (bs.dropWhile q) := by
  induction hLists with
  | nil => exact .nil
  | cons hHead hTail ih =>
      rw [List.dropWhile_cons, List.dropWhile_cons,
        hSame _ _ hHead]
      split
      · exact ih
      · exact .cons hHead hTail

end Lists

end Dialectic
