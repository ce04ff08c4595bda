import Dialectic.Document.Lexer
import Dialectic.Proofs.Text.Squeezing
import Mathlib.Data.Option.Basic

/-
  What the tokens of a document have to offer to its reader:
  the levels of headings are bounded, and the titles of
  elements are trimmed.

  Key definitions include:
    * `TokenKind.Sound`
    * `Token.AllSound`
    * `Line.AllSound`

  Main theorems:
    * `Lexer.opening?_cases`
    * `Lexer.inlineFrom_forall`
    * `Lexer.line_sound`
    * `Lexer.lex_sound`
-/

namespace Dialectic

------------------------------------------------------------
-- Tokens
------------------------------------------------------------

/-
  A heading has a level from one to six, and an element a title
  without blanks around it.
-/
def TokenKind.Sound : TokenKind → Prop
| heading level => 1 ≤ level ∧ level ≤ 6
| statementDefinition title => Text.IsTrimmed title.toList
| statementReference title => Text.IsTrimmed title.toList
| argumentDefinition title => Text.IsTrimmed title.toList
| argumentReference title => Text.IsTrimmed title.toList
| _ => True

/- All tokens of a list are sound. -/
def Token.AllSound (tokens : List Token) : Prop :=
  ∀ token ∈ tokens, token.kind.Sound

/- All tokens of a line are sound. -/
def Line.Sound : Line → Prop
| gap _ => True
| filled line => Token.AllSound line.tokens

/- All lines of a list are sound. -/
def Line.AllSound (lines : List Line) : Prop :=
  ∀ line ∈ lines, line.Sound

/- The lines after the first one are sound with it. -/
theorem Line.AllSound.tail
    {first : Line}
    {lines : List Line}
    (hLines : AllSound (first :: lines)) :
    AllSound lines :=
  fun line hLine => hLines line (List.mem_cons_of_mem _ hLine)

namespace Lexer

/- A title in brackets is trimmed, if it is not blank. -/
theorem title?_isTrimmed
    {closing : Char}
    {cs title after : List Char}
    (hFound : title? closing cs = some (title, after))
    (hSome : title ≠ []) :
    Text.IsTrimmed title := by
  unfold title? at hFound
  split at hFound
  · cases hFound
    exact Text.trim_isTrimmed hSome
  · cases hFound

/- The head of an element is sound. -/
theorem head_sound
    {cs : List Char}
    {kind : TokenKind}
    {length : Nat}
    (hToken : head cs = .token kind length) :
    kind.Sound := by
  have hTitle : ∀ {closing cs title after},
      title? closing cs = some (title, after) →
        title ≠ [] →
          Text.IsTrimmed (String.ofList title).toList := by
    intro closing cs title after hFound hSome
    rw [String.toList_ofList]
    exact title?_isTrimmed hFound hSome
  unfold head at hToken
  split at hToken
  · split at hToken
    · cases hToken
    · cases hToken
    · cases hToken
    · next hSome hFound =>
        cases hToken
        exact hTitle hFound hSome
    · next hSome _ _ hFound =>
        cases hToken
        exact hTitle hFound hSome
  · split at hToken
    · cases hToken
    · cases hToken
    · next hSome hFound =>
        cases hToken
        exact hTitle hFound hSome
    · next hSome _ hFound =>
        cases hToken
        exact hTitle hFound hSome
  · cases hToken

/- A tag is sound. -/
theorem tag_sound
    {cs : List Char}
    {kind : TokenKind}
    {length : Nat}
    (hToken : tag cs = .token kind length) :
    kind.Sound := by
  unfold tag at hToken
  split at hToken
  · split at hToken <;> cases hToken
    trivial
  · simp only at hToken
    split at hToken <;> cases hToken
    trivial

/- A mention is sound. -/
theorem mention_sound
    {cs : List Char}
    {kind : TokenKind}
    {length : Nat}
    (hToken : mention cs = .token kind length) :
    kind.Sound := by
  unfold mention at hToken
  split at hToken
  · split at hToken <;> cases hToken
    trivial
  · split at hToken <;> cases hToken
    trivial
  · cases hToken

/- Data is sound. -/
theorem data_sound
    {cs : List Char}
    {kind : TokenKind}
    {length : Nat}
    (hToken : data cs = .token kind length) :
    kind.Sound := by
  unfold data at hToken
  split at hToken
  · split at hToken <;> cases hToken
    trivial
  · cases hToken

/- A token inside a line is sound. -/
theorem item_sound
    {afterBlank : Bool}
    {c : Char}
    {cs : List Char}
    {kind : TokenKind}
    {length : Nat}
    (hToken : item afterBlank c cs = .token kind length) :
    kind.Sound := by
  unfold item at hToken
  split at hToken
  · split at hToken
    · exact tag_sound hToken
    · cases hToken
  · exact mention_sound hToken
  · exact data_sound hToken
  · cases hToken

/-
  What opens a line: a heading with a level from one to six, an
  inference, which takes all of the line, a marker, a number or
  the mark of a list item.
-/
theorem opening?_cases
    {indent : Nat}
    {cs : List Char}
    {kind : TokenKind}
    {length : Nat}
    (hFound : opening? indent cs = some (kind, length)) :
    (∃ level, kind = .heading level ∧ 1 ≤ level ∧ level ≤ 6) ∨
      (∃ rule, kind = .inference rule ∧ length = cs.length) ∨
      (∃ marker, kind = .relation marker) ∨
      (∃ number, kind = .step number) ∨
      kind = .bullet := by
  simp only [opening?, Option.orElse_eq_some] at hFound
  rcases hFound with hHeading | ⟨_, hInference | ⟨_, hRelation |
    ⟨_, hStep | ⟨_, hBullet⟩⟩⟩⟩
  · split at hHeading
    · unfold heading? at hHeading
      simp only at hHeading
      split at hHeading <;> cases hHeading
      next hLevel =>
        simp only [Bool.and_eq_true, decide_eq_true_eq] at hLevel
        exact .inl ⟨_, rfl, hLevel.1⟩
    · cases hHeading
  · simp only [inference?] at hInference
    split at hInference <;> cases hInference
    exact .inr (.inl ⟨_, rfl, rfl⟩)
  · unfold relation? at hRelation
    split at hRelation <;> cases hRelation
    exact .inr (.inr (.inl ⟨_, rfl⟩))
  · unfold step? at hStep
    split at hStep
    · simp only at hStep
      split at hStep
      · split at hStep <;> cases hStep
        exact .inr (.inr (.inr (.inl ⟨_, rfl⟩)))
      · cases hStep
    · cases hStep
  · simp only [bullet?] at hBullet
    split at hBullet
    · cases hBullet
      exact .inr (.inr (.inr (.inr rfl)))
    · split at hBullet <;> cases hBullet
      exact .inr (.inr (.inr (.inr rfl)))

/- What opens a line is sound. -/
theorem opening?_sound
    {indent : Nat}
    {cs : List Char}
    {kind : TokenKind}
    {length : Nat}
    (hFound : opening? indent cs = some (kind, length)) :
    kind.Sound := by
  rcases opening?_cases hFound with
    ⟨level, rfl, hLevel⟩ | ⟨_, rfl, _⟩ | ⟨_, rfl⟩ | ⟨_, rfl⟩ |
      rfl
  · exact hLevel
  all_goals trivial

------------------------------------------------------------
-- Lines
------------------------------------------------------------

/-
  What holds of text, and of each token that is found inside a
  line, holds of all tokens of the rest of a line.
-/
theorem inlineFrom_forall
    {P : TokenKind → Prop}
    (hText : ∀ content, P (.text content))
    (hItem : ∀ {afterBlank c cs kind length},
      item afterBlank c cs = .token kind length → P kind)
    (textStart : Position)
    (text : List Char)
    (afterBlank : Bool)
    (skip : Nat)
    (position : Position)
    (cs : List Char) :
    ∀ token ∈ (inlineFrom textStart text afterBlank skip
        position cs).1,
      P token.kind := by
  have hRead : ∀ (p : Position) (text : List Char),
      ∀ token ∈ textToken p text, P token.kind := by
    intro p text token hToken
    unfold textToken at hToken
    split at hToken
    · cases hToken
    · rw [List.mem_singleton.mp hToken]
      exact hText _
  induction cs generalizing textStart text afterBlank skip
      position with
  | nil => cases skip <;> exact hRead textStart text.reverse
  | cons c cs ih =>
      cases skip with
      | succ skip => exact ih _ _ _ _ _
      | zero =>
          unfold inlineFrom
          simp only
          cases hFound : item afterBlank c cs with
          | plain => exact ih _ _ _ _ _
          | broken cause => exact ih _ _ _ _ _
          | token kind length =>
              intro token hToken
              rcases List.mem_append.mp hToken with
                hBefore | hToken
              · exact hRead _ _ token hBefore
              · rcases List.mem_cons.mp hToken with rfl | hLater
                · exact hItem hFound
                · exact ih _ _ _ _ _ token hLater

/- The inline tokens of a text are sound. -/
theorem inlineTokens_sound
    (position : Position)
    (cs : List Char) :
    Token.AllSound (inlineTokens position cs).1 :=
  inlineFrom_forall (fun _ => trivial) item_sound position []
    true 0 position cs

/- The tokens of the content of a line are sound. -/
theorem content_sound
    (headAllowed : Bool)
    (position : Position)
    (cs : List Char) :
    Token.AllSound (content headAllowed position cs).1 := by
  unfold content
  simp only
  split
  · next kind length hItem =>
      split at hItem
      · exact
          List.forall_mem_cons.mpr
            ⟨head_sound hItem, inlineTokens_sound _ _⟩
      · cases hItem
  · exact inlineTokens_sound _ _
  · exact inlineTokens_sound _ _

/- The tokens of a line after its indentation are sound. -/
theorem body_sound
    (indent : Nat)
    (position : Position)
    (cs : List Char) :
    Token.AllSound (body indent position cs).1 := by
  unfold body
  split
  · exact List.forall_mem_singleton.mpr trivial
  · next hFound =>
      exact
        List.forall_mem_cons.mpr
          ⟨opening?_sound hFound, content_sound _ _ _⟩
  · exact content_sound true position cs

/- The line of tokens of a source line is sound. -/
theorem line_sound (source : SourceLine) :
    (line source).1.Sound := by
  unfold line
  split
  · trivial
  · exact body_sound _ _ _

/- All lines of a document are sound. -/
theorem lex_sound (input : String) :
    Line.AllSound (lex input).lines := by
  have hLines : ∀ sources,
      Line.AllSound (linesOf sources).1 := by
    intro sources found hFound
    simp only [linesOf, List.map_map, List.mem_map] at hFound
    rcases hFound with ⟨source, _, rfl⟩
    exact line_sound source
  unfold lex
  simp only
  split
  · exact hLines _
  · exact hLines _

end Lexer

end Dialectic
