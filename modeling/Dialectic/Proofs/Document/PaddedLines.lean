import Dialectic.Proofs.Document.Erasure
import Dialectic.Proofs.Document.Positions

/-
  The tokens of lines that differ only in how many spaces are
  at their end: these are part of the last text, if it is read
  at all, so the lines are alike.

  Key definitions include:
    * `Lexer.Item.Alike`
    * `Lexer.FoundAlike`
    * `SourceLine.Alike`

  Main theorems:
    * `Lexer.item_alike`
    * `Lexer.inlineFrom_alike`
    * `Lexer.opening?_alike`
    * `Lexer.line_alike`
-/

namespace Dialectic

namespace Lexer

open Text (Padded)

variable {cs cs' : List Char}

------------------------------------------------------------
-- Items
------------------------------------------------------------

/-
  What starts at the characters before two texts is the same,
  and what is left of the texts after it is padded alike.
-/
inductive Item.Alike (cs cs' : List Char) :
    Item → Item → Prop where
| plain : Alike cs cs' .plain .plain
| broken (cause : SyntaxFault.Cause) :
    Alike cs cs' (.broken cause) (.broken cause)
| token
    (kind : TokenKind)
    {n n' : Nat}
    (hRest : Padded (cs.drop n) (cs'.drop n')) :
    Alike cs cs' (.token kind (n + 1)) (.token kind (n' + 1))

/- Both texts have the same title, or none has one. -/
theorem title?_padded
    {closing : Char}
    (hClosing : closing ≠ ' ')
    (hPadded : Padded cs cs') :
    (title? closing cs = none ∧ title? closing cs' = none) ∨
      ∃ title after after',
        title? closing cs = some (title, after) ∧
          title? closing cs' = some (title, after') ∧
          Padded after after' := by
  rcases hPadded.findChar? hClosing with ⟨hSame, hFound⟩
  unfold title?
  rw [hSame]
  cases hIndex : Text.findChar? closing cs with
  | none => exact .inl ⟨rfl, rfl⟩
  | some n =>
      rcases hFound n hIndex with ⟨hTake, hDrop⟩
      refine .inr ⟨_, _, _, rfl, ?_, hDrop⟩
      simp only [hTake]

/- A title is followed by the end of the text. -/
theorem title?_suffix
    {closing : Char}
    {cs title after : List Char}
    (hTitle : title? closing cs = some (title, after)) :
    after <:+ cs := by
  rcases title?_some hTitle with ⟨inner, hText⟩
  exact ⟨inner ++ [closing], by simp [hText]⟩

/- What is left after a token is the end of the text. -/
theorem padded_drop
    {after after' : List Char}
    (hEnd : after <:+ cs)
    (hEnd' : after' <:+ cs')
    (hAfter : Padded after after') :
    Padded (cs.drop (cs.length - after.length))
      (cs'.drop (cs'.length - after'.length)) := by
  rw [← List.suffix_iff_eq_drop.mp hEnd,
    ← List.suffix_iff_eq_drop.mp hEnd']
  exact hAfter

/- The heads of elements are alike. -/
theorem head_alike
    (c : Char)
    (hPadded : Padded cs cs') :
    Item.Alike cs cs' (head (c :: cs)) (head (c :: cs')) := by
  by_cases hSquare : c = '['
  · subst hSquare
    rcases title?_padded (by decide : ']' ≠ ' ') hPadded with
      ⟨hNone, hNone'⟩ |
        ⟨title, after, after', hTitle, hTitle', hAfter⟩
    · simp only [head, hNone, hNone']
      exact .broken _
    have hEnd := title?_suffix hTitle
    have hEnd' := title?_suffix hTitle'
    have hRest := padded_drop hEnd hEnd' hAfter
    rcases title with _ | ⟨d, title⟩
    · simp only [head, hTitle, hTitle']
      exact .plain
    cases hAfter with
    | nil =>
        simp only [head, hTitle, hTitle']
        exact .token _ hRest
    | space =>
        simp only [head, hTitle, hTitle']
        exact .token _ hRest
    | cons e hMore =>
        by_cases hLink : e = '('
        · subst hLink
          simp only [head, hTitle, hTitle']
          exact .plain
        by_cases hColon : e = ':'
        · subst hColon
          simp only [head, hTitle, hTitle']
          exact
            .token _
              (padded_drop ((List.suffix_cons _ _).trans hEnd)
                ((List.suffix_cons _ _).trans hEnd') hMore)
        · simp only [head, hTitle, hTitle', List.cons.injEq,
            hLink, hColon, false_and, imp_self, implies_true]
          exact .token _ hRest
  by_cases hAngle : c = '<'
  · subst hAngle
    rcases title?_padded (by decide : '>' ≠ ' ') hPadded with
      ⟨hNone, hNone'⟩ |
        ⟨title, after, after', hTitle, hTitle', hAfter⟩
    · simp only [head, hNone, hNone']
      exact .broken _
    have hEnd := title?_suffix hTitle
    have hEnd' := title?_suffix hTitle'
    have hRest := padded_drop hEnd hEnd' hAfter
    rcases title with _ | ⟨d, title⟩
    · simp only [head, hTitle, hTitle']
      exact .plain
    cases hAfter with
    | nil =>
        simp only [head, hTitle, hTitle']
        exact .token _ hRest
    | space =>
        simp only [head, hTitle, hTitle']
        exact .token _ hRest
    | cons e hMore =>
        by_cases hColon : e = ':'
        · subst hColon
          simp only [head, hTitle, hTitle']
          exact
            .token _
              (padded_drop ((List.suffix_cons _ _).trans hEnd)
                ((List.suffix_cons _ _).trans hEnd') hMore)
        · simp only [head, hTitle, hTitle', List.cons.injEq,
            hColon, false_and, imp_self, implies_true]
          exact .token _ hRest
  · have hPlain : ∀ cs, head (c :: cs) = .plain := by
      intro cs
      unfold head
      split
      · next hText => cases hText; exact absurd rfl hSquare
      · next hText => cases hText; exact absurd rfl hAngle
      · rfl
    rw [hPlain, hPlain]
    exact .plain

/- The tags are alike. -/
theorem tag_alike (hPadded : Padded cs cs') :
    Item.Alike cs cs' (tag cs) (tag cs') := by
  by_cases hParen : cs.head? = some '('
  · cases hPadded with
    | nil => cases hParen
    | space => cases hParen
    | @cons c rest rest' hRest =>
        cases hParen
        rcases title?_padded (by decide : ')' ≠ ' ') hRest with
          ⟨hNone, hNone'⟩ |
            ⟨title, after, after', hTitle, hTitle', hAfter⟩
        · simp only [tag, hNone, hNone']
          exact .broken _
        rcases title with _ | ⟨d, title⟩
        · simp only [tag, hTitle, hTitle']
          exact .plain
        · simp only [tag, hTitle, hTitle']
          exact
            .token _
              (padded_drop (title?_suffix hTitle)
                (title?_suffix hTitle') hAfter)
  · have hName : ∀ cs : List Char, cs.head? ≠ some '(' →
        tag cs =
          if (cs.takeWhile isTagChar).isEmpty then .plain
          else
            .token
              (.tag (String.ofList (cs.takeWhile isTagChar)))
              ((cs.takeWhile isTagChar).length + 1) := by
      intro cs hOther
      unfold tag
      split
      · exact absurd rfl hOther
      · rfl
    have hOther : cs'.head? ≠ some '(' := hPadded.head? ▸ hParen
    have hSame :
        cs'.takeWhile isTagChar = cs.takeWhile isTagChar :=
      hPadded.takeWhile (.inl rfl)
    have hRest := hPadded.drop_takeWhile isTagChar
    rw [hName cs hParen, hName cs' hOther]
    rw [hSame] at hRest ⊢
    split
    · exact .plain
    · exact .token _ hRest

/- Mentions in brackets of one kind are alike. -/
theorem bracketed_alike
    (opening : Char)
    {closing : Char}
    (hClosing : closing ≠ ' ')
    (hPadded : Padded cs cs')
    (kind : String → TokenKind) :
    Item.Alike (opening :: cs) (opening :: cs')
      (match title? closing cs with
      | some (c :: name, after) =>
          .token (kind (String.ofList (c :: name)))
            (cs.length - after.length + 2)
      | _ => .plain)
      (match title? closing cs' with
      | some (c :: name, after) =>
          .token (kind (String.ofList (c :: name)))
            (cs'.length - after.length + 2)
      | _ => .plain) := by
  rcases title?_padded hClosing hPadded with
    ⟨hNone, hNone'⟩ |
      ⟨title, after, after', hTitle, hTitle', hAfter⟩
  · simp only [hNone, hNone']
    exact .plain
  rcases title with _ | ⟨d, title⟩
  · simp only [hTitle, hTitle']
    exact .plain
  · simp only [hTitle, hTitle']
    exact
      .token _
        (padded_drop (title?_suffix hTitle)
          (title?_suffix hTitle') hAfter)

/- The mentions are alike. -/
theorem mention_alike (hPadded : Padded cs cs') :
    Item.Alike cs cs' (mention cs) (mention cs') := by
  cases hPadded with
  | nil => exact .plain
  | space => exact .plain
  | @cons c rest rest' hRest =>
      by_cases hSquare : c = '['
      · subst hSquare
        exact bracketed_alike '[' (by decide) hRest _
      by_cases hAngle : c = '<'
      · subst hAngle
        exact bracketed_alike '<' (by decide) hRest _
      · simp only [mention, List.cons.injEq, hSquare, hAngle,
          false_and, imp_self, implies_true]
        exact .plain

/- Both texts have the same closing brace, or none has one. -/
theorem closingBrace?_padded
    (depth : Nat)
    (hPadded : Padded cs cs') :
    closingBrace? depth cs' = closingBrace? depth cs ∧
      ∀ n, closingBrace? depth cs = some n →
        cs'.take n = cs.take n ∧
          Padded (cs.drop n) (cs'.drop n) := by
  induction hPadded generalizing depth with
  | nil => simp [closingBrace?]
  | space => simp [closingBrace?]
  | @cons c rest rest' hRest ih =>
      have hNext : ∀ depth,
          (closingBrace? depth rest').map (· + 1) =
              (closingBrace? depth rest).map (· + 1) ∧
            ∀ n,
              (closingBrace? depth rest).map (· + 1) = some n →
                (c :: rest').take n = (c :: rest).take n ∧
                  Padded ((c :: rest).drop n)
                    ((c :: rest').drop n) := by
        intro depth
        rcases ih depth with ⟨hSame, hFound⟩
        refine ⟨by rw [hSame], fun n hn => ?_⟩
        rcases Option.map_eq_some_iff.mp hn with ⟨m, hm, rfl⟩
        rcases hFound m hm with ⟨hTake, hDrop⟩
        exact ⟨congrArg (c :: ·) hTake, hDrop⟩
      by_cases hOpen : c = '\x7b'
      · subst hOpen
        exact hNext (depth + 1)
      by_cases hClose : c = '\x7d'
      · subst hClose
        simp only [closingBrace?]
        by_cases hLast : depth ≤ 1
        · simp only [hLast, if_true]
          refine ⟨trivial, fun n hn => ?_⟩
          cases hn
          exact ⟨rfl, hRest⟩
        · simp only [hLast, if_false]
          exact hNext (depth - 1)
      · simp only [closingBrace?]
        exact hNext depth

/- The blocks of data are alike. -/
theorem data_alike (hPadded : Padded cs cs') :
    Item.Alike cs cs' (data ('\x7b' :: cs))
      (data ('\x7b' :: cs')) := by
  rcases closingBrace?_padded 0 (hPadded.cons '\x7b') with
    ⟨hSame, hFound⟩
  unfold data
  rw [hSame]
  cases hClosing : closingBrace? 0 ('\x7b' :: cs) with
  | none => exact .plain
  | some n =>
      rcases hFound n hClosing with ⟨hTake, hDrop⟩
      simp only [hTake, hDrop.allBlank]
      split
      · refine .token _ ?_
        rw [List.drop_length, List.drop_length]
        exact .nil
      · exact .plain

/- What starts at the characters before the texts is alike. -/
theorem item_alike
    (afterBlank : Bool)
    (c : Char)
    (hPadded : Padded cs cs') :
    Item.Alike cs cs' (item afterBlank c cs)
      (item afterBlank c cs') := by
  by_cases hTag : c = '#'
  · subst hTag
    cases afterBlank with
    | true => exact tag_alike hPadded
    | false => exact .plain
  by_cases hMention : c = '@'
  · subst hMention
    exact mention_alike hPadded
  by_cases hData : c = '\x7b'
  · subst hData
    exact data_alike hPadded
  · simp only [item]
    exact .plain

------------------------------------------------------------
-- Inline Tokens
------------------------------------------------------------

/- Tokens that are alike, and faults of the same causes. -/
structure FoundAlike
    (found found' : List Token × List SyntaxFault) : Prop where
  tokens : List.Forall₂ Token.Alike found.1 found'.1
  causes :
    found.2.map SyntaxFault.cause =
      found'.2.map SyntaxFault.cause

/- A token may be found before. -/
theorem FoundAlike.cons
    {found found' : List Token × List SyntaxFault}
    (hRest : FoundAlike found found')
    (kind : TokenKind)
    (p q : Position) :
    FoundAlike (⟨kind, p⟩ :: found.1, found.2)
      (⟨kind, q⟩ :: found'.1, found'.2) :=
  ⟨.cons (.same kind) hRest.tokens, hRest.causes⟩

/- A fault may be found before. -/
theorem FoundAlike.fault
    {found found' : List Token × List SyntaxFault}
    (hRest : FoundAlike found found')
    (cause : SyntaxFault.Cause)
    (p q : Position) :
    FoundAlike (found.1, ⟨cause, p⟩ :: found.2)
      (found'.1, ⟨cause, q⟩ :: found'.2) :=
  ⟨hRest.tokens, congrArg (cause :: ·) hRest.causes⟩

/- The token of a text is alike wherever it stands. -/
theorem textToken_alike
    (p q : Position)
    {text text' : List Char}
    (hEmpty : text'.isEmpty = text.isEmpty)
    (hText : Text.SqueezedAlike text text') :
    List.Forall₂ Token.Alike (textToken p text)
      (textToken q text') := by
  unfold textToken
  rw [hEmpty]
  split
  · exact .nil
  · refine .cons (.text ?_) .nil
    rw [String.toList_ofList, String.toList_ofList]
    exact hText

/- Characters that belong to the token before are skipped. -/
theorem inlineFrom_skip
    (textStart : Position)
    (text : List Char)
    (skip : Nat)
    (p : Position)
    (cs : List Char) :
    inlineFrom textStart text false skip p cs =
      inlineFrom textStart text false 0
        (p.advanceBy (cs.take skip)) (cs.drop skip) := by
  induction cs generalizing skip p with
  | nil => cases skip <;> rfl
  | cons c cs ih =>
      cases skip with
      | zero => rfl
      | succ skip => exact ih skip (p.advance c)

/- The tokens of texts that are padded alike are alike. -/
theorem inlineFrom_alike
    (textStart textStart' : Position)
    (text : List Char)
    (afterBlank : Bool)
    (p q : Position)
    (hPadded : Padded cs cs') :
    FoundAlike
      (inlineFrom textStart text afterBlank 0 p cs)
      (inlineFrom textStart' text afterBlank 0 q cs') := by
  -- a token may take several characters at once
  induction hLength : cs.length using Nat.strongRecOn
    generalizing cs cs' textStart textStart' text afterBlank p q
    with
  | ind length ih =>
      subst hLength
      cases hPadded with
      | nil =>
          exact ⟨textToken_alike _ _ rfl (.refl text.reverse), rfl⟩
      | space =>
          -- both spaces are part of the last text
          have hText :
              Text.SqueezedAlike (' ' :: text).reverse
                (' ' :: ' ' :: text).reverse := by
            simpa using
              (Text.SqueezedAlike.refl text.reverse).append
                Text.squeezedAlike_spaces
          have hEmpty :
              (' ' :: ' ' :: text).reverse.isEmpty =
                (' ' :: text).reverse.isEmpty := by
            rw [List.isEmpty_reverse, List.isEmpty_reverse]
            rfl
          exact ⟨textToken_alike _ _ hEmpty hText, rfl⟩
      | @cons c rest rest' hRest =>
          have hNext : ∀ textStart textStart' text afterBlank p q,
              FoundAlike
                (inlineFrom textStart text afterBlank 0 p rest)
                (inlineFrom textStart' text afterBlank 0 q
                  rest') :=
            fun _ _ _ _ _ _ =>
              ih rest.length (Nat.lt_succ_self _) _ _ _ _ _ _
                hRest rfl
          have hItem := item_alike afterBlank c hRest
          simp only [inlineFrom]
          generalize item afterBlank c rest = found at hItem
          generalize item afterBlank c rest' = found' at hItem
          cases hItem with
          | plain => exact hNext _ _ _ _ _ _
          | broken cause =>
              exact (hNext _ _ _ _ _ _).fault cause p q
          | @token kind n n' hLeft =>
              have hLess :
                  (rest.drop n).length < (c :: rest).length := by
                rw [List.length_drop, List.length_cons]
                omega
              have hLater :=
                ih _ hLess (p.advance c) (q.advance c) [] false
                  ((p.advance c).advanceBy (rest.take n))
                  ((q.advance c).advanceBy (rest'.take n')) hLeft
                  rfl
              simp only [Nat.add_sub_cancel]
              rw [inlineFrom_skip _ _ n, inlineFrom_skip _ _ n']
              refine
                ⟨List.rel_append
                    (textToken_alike _ _ rfl (.refl _)) ?_,
                  hLater.causes⟩
              exact .cons (.same kind) hLater.tokens

------------------------------------------------------------
-- Line Openings
------------------------------------------------------------

/-
  Both lines open with the same kind of token, if at all, and
  what is left of them is padded alike.
-/
def OpensAlike (cs cs' : List Char) :
    Option (TokenKind × Nat) →
      Option (TokenKind × Nat) → Prop :=
  Option.Rel (fun found found' =>
    found.1 = found'.1 ∧
      Padded (cs.drop found.2) (cs'.drop found'.2))

/- If the first openings are alike, the second ones may be. -/
theorem OpensAlike.orElse
    {found found' other other' : Option (TokenKind × Nat)}
    (hFirst : OpensAlike cs cs' found found')
    (hSecond : OpensAlike cs cs' other other') :
    OpensAlike cs cs' (found <|> other)
      (found' <|> other') := by
  cases hFirst with
  | some hSame => exact .some hSame
  | none => exact hSecond

/- The lines are headings of the same level, or none is. -/
theorem heading?_alike (hPadded : Padded cs cs') :
    OpensAlike cs cs' (heading? cs) (heading? cs') := by
  have hSigns :
      cs'.takeWhile (· == '#') = cs.takeWhile (· == '#') :=
    hPadded.takeWhile (.inl rfl)
  have hRest := hPadded.drop_takeWhile (· == '#')
  unfold heading?
  rw [hSigns] at hRest ⊢
  simp only [hRest.atBreak]
  split
  · exact .some ⟨rfl, hRest⟩
  · exact .none

/- The lines are inference lines with the same rule, or none. -/
theorem inference?_alike (hPadded : Padded cs cs') :
    OpensAlike cs cs' (inference? cs) (inference? cs') := by
  unfold inference?
  simp only [hPadded.trimEnd]
  split
  · refine .some ⟨rfl, ?_⟩
    rw [List.drop_length, List.drop_length]
    exact .nil
  · exact .none

/- The lines are relation lines with one marker, or none is. -/
theorem relation?_alike (hPadded : Padded cs cs') :
    OpensAlike cs cs' (relation? cs) (relation? cs') := by
  have hMarker : ∀ marker : Marker,
      Option.Rel Padded
        (Text.stripPrefix? marker.symbol.toList cs)
        (Text.stripPrefix? marker.symbol.toList cs') :=
    fun marker =>
      hPadded.stripPrefix? (by cases marker <;> decide)
  have hOpens : (opensWith · cs') = (opensWith · cs) := by
    funext marker
    have hAfter := hMarker marker
    unfold opensWith
    generalize Text.stripPrefix? _ cs = after at hAfter
    generalize Text.stripPrefix? _ cs' = after' at hAfter
    cases hAfter with
    | none => rfl
    | some hAfter => exact hAfter.atBreak
  unfold relation?
  rw [hOpens]
  cases hFound :
      Marker.inMatchingOrder.find? (opensWith · cs) with
  | none => exact .none
  | some marker =>
      have hHere := List.find?_some hFound
      have hBoth := hMarker marker
      refine .some ⟨rfl, ?_⟩
      unfold opensWith at hHere
      cases hAfter : Text.stripPrefix? marker.symbol.toList cs with
      | none =>
          rw [hAfter] at hHere
          cases hHere
      | some after =>
          rw [hAfter] at hBoth
          cases hAfter' :
              Text.stripPrefix? marker.symbol.toList cs' with
          | none =>
              rw [hAfter'] at hBoth
              cases hBoth
          | some after' =>
              rw [hAfter'] at hBoth
              rw [← String.length_toList,
                Text.eq_append_of_stripPrefix? hAfter,
                Text.eq_append_of_stripPrefix? hAfter',
                List.drop_left, List.drop_left]
              exact Option.rel_some_some.mp hBoth

/- The lines are statements of the same number, or none is. -/
theorem step?_alike (hPadded : Padded cs cs') :
    OpensAlike cs cs' (step? cs) (step? cs') := by
  cases hPadded with
  | nil => exact .none
  | space => exact .none
  | @cons c rest rest' hRest =>
      by_cases hParen : c = '('
      · subst hParen
        have hDigits :
            rest'.takeWhile Text.isDigit =
              rest.takeWhile Text.isDigit :=
          hRest.takeWhile (.inl rfl)
        have hAfter := hRest.drop_takeWhile Text.isDigit
        simp only [step?]
        rw [hDigits] at hAfter ⊢
        generalize rest.takeWhile Text.isDigit = digits
          at hAfter ⊢
        have hTail : ∀ rest : List Char,
            ('(' :: rest).drop (digits.length + 2) =
              (rest.drop digits.length).tail := by
          intro rest
          rw [List.tail_drop]
          rfl
        have hLeft :
            rest.drop digits.length ≠ [' '] →
              Padded (('(' :: rest).drop (digits.length + 2))
                (('(' :: rest').drop (digits.length + 2)) := by
          rw [hTail, hTail]
          exact hAfter.tail
        generalize rest.drop digits.length = left
          at hAfter hLeft ⊢
        generalize rest'.drop digits.length = left' at hAfter ⊢
        cases hAfter with
        | nil => exact .none
        | space => exact .none
        | cons d hMore =>
            by_cases hClose : d = ')'
            · subst hClose
              simp only [hMore.atBreak]
              split
              · exact .none
              · exact .some ⟨rfl, hLeft (by simp)⟩
            · simp only [List.cons.injEq, hClose, false_and,
                imp_self, implies_true]
              exact .none
      · simp only [step?, List.cons.injEq, hParen, false_and,
          imp_self, implies_true]
        exact .none

/- The lines are list items of the same kind, or none is. -/
theorem bullet?_alike (hPadded : Padded cs cs') :
    OpensAlike cs cs' (bullet? cs) (bullet? cs') := by
  have hDigits :
      cs'.takeWhile Text.isDigit = cs.takeWhile Text.isDigit :=
    hPadded.takeWhile (.inl rfl)
  have hAfter := hPadded.drop_takeWhile Text.isDigit
  rw [hDigits] at hAfter
  have hStar :
      Text.startsWith ['*', ' '] cs' =
        Text.startsWith ['*', ' '] cs :=
    hPadded.startsWith (by decide)
  have hPoint :
      Text.startsWith ['.', ' ']
          (cs'.drop (cs.takeWhile Text.isDigit).length) =
        Text.startsWith ['.', ' ']
          (cs.drop (cs.takeWhile Text.isDigit).length) :=
    hAfter.startsWith (by decide)
  -- a last space is not dropped, as there are two in its place
  have hNotBlank : ∀ {p : Char} {cs : List Char}, p ≠ ' ' →
      Text.startsWith [p, ' '] cs = true → cs ≠ [' '] := by
    rintro p cs hOther hStarts rfl
    simp [Text.startsWith, Text.stripPrefix?, hOther] at hStarts
  unfold bullet?
  simp only [hDigits, hStar, hPoint]
  split
  · next hHere =>
      refine .some ⟨rfl, ?_⟩
      rw [List.drop_one, List.drop_one]
      exact hPadded.tail (hNotBlank (by decide) hHere)
  · split
    · next hHere =>
        refine .some ⟨rfl, ?_⟩
        rw [← List.tail_drop, ← List.tail_drop]
        exact
          hAfter.tail
            (hNotBlank (by decide)
              (Bool.and_eq_true_iff.mp hHere).2)
    · exact .none

/- What opens two lines is alike. -/
theorem opening?_alike
    (indent : Nat)
    (hPadded : Padded cs cs') :
    OpensAlike cs cs' (opening? indent cs)
      (opening? indent cs') := by
  have hHeading :
      OpensAlike cs cs'
        (if indent = 0 then heading? cs else none)
        (if indent = 0 then heading? cs' else none) := by
    split
    · exact heading?_alike hPadded
    · exact .none
  exact
    hHeading.orElse
      ((inference?_alike hPadded).orElse
        ((relation?_alike hPadded).orElse
          ((step?_alike hPadded).orElse
            (bullet?_alike hPadded))))

------------------------------------------------------------
-- Lines
------------------------------------------------------------

/- The tokens of the contents of two lines are alike. -/
theorem content_alike
    (headAllowed : Bool)
    (p q : Position)
    (hPadded : Padded cs cs') :
    FoundAlike (content headAllowed p cs)
      (content headAllowed q cs') := by
  have hBody := hPadded.dropWhile Text.isBlank
  have hPlain : ∀ p q,
      FoundAlike
        (inlineTokens p (cs.dropWhile Text.isBlank))
        (inlineTokens q (cs'.dropWhile Text.isBlank)) :=
    fun p q => inlineFrom_alike p q [] true p q hBody
  unfold content
  generalize cs.dropWhile Text.isBlank = body at hBody hPlain ⊢
  generalize cs'.dropWhile Text.isBlank = body'
    at hBody hPlain ⊢
  cases headAllowed with
  | false => exact hPlain _ _
  | true =>
      cases hBody with
      | nil => exact hPlain _ _
      | space => exact hPlain _ _
      | @cons c rest rest' hRest =>
          have hHead := head_alike c hRest
          simp only [if_true]
          generalize head (c :: rest) = found at hHead
          generalize head (c :: rest') = found' at hHead
          cases hHead with
          | plain => exact hPlain _ _
          | broken cause =>
              exact (hPlain _ _).fault cause _ _
          | token kind hLeft =>
              exact
                (inlineFrom_alike _ _ [] true _ _ hLeft).cons
                  kind _ _

/- The tokens of two lines are alike. -/
theorem body_alike
    (indent : Nat)
    (p q : Position)
    (hPadded : Padded cs cs') :
    FoundAlike (body indent p cs) (body indent q cs') := by
  have hOpens := opening?_alike indent hPadded
  unfold body
  generalize opening? indent cs = found at hOpens
  generalize opening? indent cs' = found' at hOpens
  cases hOpens with
  | none => exact content_alike true p q hPadded
  | @some found found' hSame =>
      rcases found with ⟨kind, length⟩
      rcases found' with ⟨kind', length'⟩
      rcases hSame with ⟨rfl, hRest⟩
      cases kind with
      | inference rule =>
          exact ⟨.cons (.same (.inference rule)) .nil, rfl⟩
      | heading level =>
          exact (content_alike false _ _ hRest).cons _ p q
      | _ => exact (content_alike true _ _ hRest).cons _ p q

end Lexer

/- Lines that are blank, or padded alike, at any places. -/
inductive SourceLine.Alike : SourceLine → SourceLine → Prop where
| blank
    {a b : SourceLine}
    (hBlank : a.isBlank = true)
    (hBlank' : b.isBlank = true) :
    Alike a b
| padded
    {a b : SourceLine}
    (hText : Text.Padded a.text b.text) :
    Alike a b

namespace SourceLine.Alike

variable {a b : SourceLine}

/- Both lines are blank, or none is. -/
theorem isBlank (hAlike : a.Alike b) :
    b.isBlank = a.isBlank := by
  cases hAlike with
  | blank hBlank hBlank' => rw [hBlank, hBlank']
  | padded hText => exact hText.allBlank

/- Both lines are fences, or none is. -/
theorem isFence (hAlike : a.Alike b) :
    b.isFence = a.isFence := by
  have hNone : ∀ line : SourceLine, line.isBlank = true →
      line.isFence = false := by
    intro line hBlank
    have hTrim : Text.trimStart line.text = [] :=
      List.dropWhile_eq_nil_iff.mpr (List.all_eq_true.mp hBlank)
    unfold SourceLine.isFence Text.trim
    rw [hTrim]
    rfl
  cases hAlike with
  | blank hBlank hBlank' => rw [hNone a hBlank, hNone b hBlank']
  | padded hText =>
      have hTrim := (hText.dropWhile Text.isBlank).trimEnd
      unfold SourceLine.isFence
      exact congrArg (· == ['=', '=', '=']) hTrim

end SourceLine.Alike

namespace Lexer

/- Source lines that are alike have tokens that are. -/
theorem line_alike
    {source source' : SourceLine}
    (hAlike : source.Alike source') :
    (line source).1.Alike (line source').1 ∧
      (line source).2.map SyntaxFault.cause =
        (line source').2.map SyntaxFault.cause := by
  have hSame := hAlike.isBlank
  unfold line
  rw [hSame]
  cases hBlank : source.isBlank with
  | true => exact ⟨.gap _ _, rfl⟩
  | false =>
      cases hAlike with
      | blank hOther =>
          rw [hBlank] at hOther
          cases hOther
      | padded hText =>
          have hSolid :
              ∃ c ∈ source.text, isIndentation c = false := by
            rcases List.all_eq_false.mp hBlank with
              ⟨c, hc, hNot⟩
            refine ⟨c, hc, Bool.eq_false_iff.mpr ?_⟩
            intro hIndents
            apply hNot
            simp only [isIndentation, Bool.or_eq_true,
              beq_iff_eq] at hIndents
            rcases hIndents with rfl | rfl <;> rfl
          have hBody :=
            body_alike
              (width (source.text.takeWhile isIndentation))
              (source.start.advanceBy
                (source.text.takeWhile isIndentation))
              (source'.start.advanceBy
                (source.text.takeWhile isIndentation))
              (hText.dropWhile isIndentation)
          simp only [hText.takeWhile (.inr hSolid)]
          exact ⟨.filled ⟨rfl, hBody.tokens⟩, hBody.causes⟩

/- So are those of several lines. -/
theorem linesOf_alike
    {sources sources' : List SourceLine}
    (hAlike : List.Forall₂ SourceLine.Alike sources sources') :
    List.Forall₂ Line.Alike (linesOf sources).1
        (linesOf sources').1 ∧
      (linesOf sources).2.map SyntaxFault.cause =
        (linesOf sources').2.map SyntaxFault.cause := by
  induction hAlike with
  | nil => exact ⟨.nil, rfl⟩
  | cons hFirst _ ih =>
      rcases line_alike hFirst with ⟨hLine, hCauses⟩
      refine ⟨.cons hLine ih.1, ?_⟩
      have hLater := ih.2
      simp only [linesOf, List.map_cons, List.flatMap_cons,
        List.map_append] at hLater ⊢
      rw [hCauses, hLater]

/-
  Lines have no front matter unless the first one that is not
  blank is a fence.
-/
theorem frontMatter?_eq_none_iff (lines : List SourceLine) :
    frontMatter? lines = none ↔
      ∀ first ∈ (lines.dropWhile SourceLine.isBlank).head?,
        first.isFence = false := by
  unfold frontMatter?
  cases lines.dropWhile SourceLine.isBlank with
  | nil => simp
  | cons first rest =>
      cases hFence : first.isFence with
      | false => simp [hFence]
      | true =>
          simp only [hFence, if_true]
          cases rest.dropWhile (fun line => !line.isFence) <;>
            simp [hFence]

/- If lines have no front matter, lines like them have none. -/
theorem frontMatter?_alike
    {sources sources' : List SourceLine}
    (hAlike : List.Forall₂ SourceLine.Alike sources sources')
    (hNone : frontMatter? sources = none) :
    frontMatter? sources' = none := by
  have hBlank : ∀ a b : SourceLine, a.Alike b →
      a.isBlank = b.isBlank :=
    fun _ _ hLine => hLine.isBlank.symm
  have hLines := forall₂_dropWhile hBlank hAlike
  rw [frontMatter?_eq_none_iff] at hNone ⊢
  generalize sources.dropWhile SourceLine.isBlank = rest
    at hLines hNone
  generalize sources'.dropWhile SourceLine.isBlank = rest'
    at hLines
  cases hLines with
  | nil => simp
  | cons hFirst _ =>
      intro first hHead
      cases hHead
      rw [hFirst.isFence]
      exact hNone _ rfl

end Lexer

end Dialectic
