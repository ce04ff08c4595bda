import Dialectic.Proofs.Document.SourceLines
import Mathlib.Data.List.TakeWhile

/-
  The places of tokens and faults: each lies between two
  characters of the source text and on the right line.  Its
  column is right, too, unless a comment before it on its line
  has a character of several bytes.

  Key definitions include:
    * `Lexer.Cut`
    * `Lexer.IsWidened`

  Main theorems:
    * `Lexer.item_ends`
    * `Lexer.inlineFrom_cuts`
    * `Lexer.line_cuts`
    * `Lexer.linesOf_cuts`
    * `Lexer.lex_cuts`
    * `Lexer.lex_positions`
-/

namespace Dialectic

namespace Lexer

------------------------------------------------------------
-- Cuts
------------------------------------------------------------

/-
  A place in a text that starts at `origin`, where no space
  stands on both sides.
-/
def Cut
    (origin : Position)
    (text : List Char)
    (p : Position) : Prop :=
  ∃ before after,
    Comment.Splits text before after ∧
      p = origin.advanceBy before

/- The first place of a text. -/
theorem Cut.first
    (origin : Position)
    (text : List Char) :
    Cut origin text origin :=
  ⟨[], text, ⟨rfl, by simp⟩, rfl⟩

/- The last place of a text. -/
theorem Cut.last
    (origin : Position)
    (text : List Char) :
    Cut origin text (origin.advanceBy text) :=
  ⟨text, [], ⟨(List.append_nil text).symm, by simp⟩, rfl⟩

/- The place after a beginning, before no space. -/
theorem Cut.after
    (origin : Position)
    {text before after : List Char}
    (hText : text = before ++ after)
    (hHead : after.head? ≠ some ' ') :
    Cut origin text (origin.advanceBy before) :=
  ⟨before, after, ⟨hText, fun hBoth => hHead hBoth.2⟩, rfl⟩

/-
  A place in a part of a text is one of the text, if no space
  stands next to the part.
-/
theorem Cut.within
    {text before part after : List Char}
    {p : Position}
    (hCut : Cut (Position.ofEnd before) part p)
    (hText : text = before ++ part ++ after)
    (hBefore : before.getLast? ≠ some ' ')
    (hAfter : after.head? ≠ some ' ') :
    Cut Position.start text p := by
  rcases hCut with ⟨first, rest, ⟨hPart, hApart⟩, hPlace⟩
  refine ⟨before ++ first, rest ++ after, ⟨?_, ?_⟩, ?_⟩
  · rw [hText, hPart]
    simp only [List.append_assoc]
  · rw [List.getLast?_append, List.head?_append]
    rintro ⟨hLast, hHead⟩
    -- a part that is empty on one side borders on the text
    cases hFirst : first.getLast? with
    | none =>
        rw [hFirst] at hLast
        exact hBefore hLast
    | some c =>
        cases hRest : rest.head? with
        | none =>
            rw [hRest] at hHead
            exact hAfter hHead
        | some d =>
            rw [hFirst] at hLast
            rw [hRest] at hHead
            exact
              hApart ⟨hFirst.trans hLast, hRest.trans hHead⟩
  · rw [hPlace, Position.advanceBy_append]
    rfl

------------------------------------------------------------
-- Ends of Tokens
------------------------------------------------------------

/-
  Some characters of a text end with no space, or are all of
  it.
-/
def EndsApart (cs : List Char) (length : Nat) : Prop :=
  (cs.take length).getLast? ≠ some ' ' ∨ cs.drop length = []

/- Characters that end with one that is no space. -/
theorem endsApart_of_append
    (as bs : List Char)
    {c : Char}
    (hSpace : c ≠ ' ')
    {length : Nat}
    (hLength : length = as.length + 1) :
    EndsApart (as ++ c :: bs) length := by
  have hTake : (as ++ c :: bs).take length = as ++ [c] := by
    rw [hLength, List.take_length_add_append,
      List.take_succ_cons, List.take_zero]
  left
  rw [hTake, List.getLast?_concat]
  exact fun hSame => hSpace (Option.some.inj hSame)

/- A title ends with its closing character. -/
theorem title?_some
    {closing : Char}
    {cs name after : List Char}
    (hFound : title? closing cs = some (name, after)) :
    ∃ inner, cs = inner ++ closing :: after := by
  unfold title? Text.findChar? at hFound
  cases hIndex : cs.findIdx? (· == closing) with
  | none =>
      rw [hIndex] at hFound
      cases hFound
  | some n =>
      rw [hIndex] at hFound
      simp only [Option.some.injEq, Prod.mk.injEq] at hFound
      rcases List.findIdx?_eq_some_iff_getElem.mp hIndex with
        ⟨hLess, hHere, _⟩
      refine ⟨cs.take n, ?_⟩
      rw [← hFound.2, ← eq_of_beq hHere,
        List.getElem_cons_drop hLess, List.take_append_drop]

/-
  A title in brackets, after some characters, ends with the
  closing bracket.
-/
theorem endsApart_title
    (lead : List Char)
    {closing : Char}
    (hSpace : closing ≠ ' ')
    {cs name after : List Char}
    (hFound : title? closing cs = some (name, after)) :
    EndsApart (lead ++ cs)
      (cs.length - after.length + lead.length) := by
  rcases title?_some hFound with ⟨inner, rfl⟩
  rw [← List.append_assoc]
  apply endsApart_of_append (lead ++ inner) after hSpace
  simp only [List.length_append, List.length_cons]
  omega

/-
  A title in brackets and the colon after it, after some
  characters, end with the colon.
-/
theorem endsApart_definition
    (lead : List Char)
    {closing : Char}
    {cs name after : List Char}
    (hFound : title? closing cs = some (name, ':' :: after)) :
    EndsApart (lead ++ cs)
      (cs.length - after.length + lead.length) := by
  rcases title?_some hFound with ⟨inner, rfl⟩
  have hText :
      lead ++ (inner ++ closing :: ':' :: after) =
        (lead ++ inner ++ [closing]) ++ ':' :: after := by
    simp
  rw [hText]
  apply endsApart_of_append _ after (by decide)
  simp only [List.length_append, List.length_cons,
    List.length_nil]
  omega

/- The head of an element ends with a bracket or a colon. -/
theorem head_ends
    {cs : List Char}
    {kind : TokenKind}
    {length : Nat}
    (hToken : head cs = .token kind length) :
    0 < length ∧ EndsApart cs length := by
  unfold head at hToken
  split at hToken
  · split at hToken
    · cases hToken
    · cases hToken
    · cases hToken
    · next hTitle =>
        cases hToken
        exact
          ⟨Nat.succ_pos _, endsApart_definition ['['] hTitle⟩
    · next hTitle =>
        cases hToken
        exact
          ⟨Nat.succ_pos _,
            endsApart_title ['['] (by decide) hTitle⟩
  · split at hToken
    · cases hToken
    · cases hToken
    · next hTitle =>
        cases hToken
        exact
          ⟨Nat.succ_pos _, endsApart_definition ['<'] hTitle⟩
    · next hTitle =>
        cases hToken
        exact
          ⟨Nat.succ_pos _,
            endsApart_title ['<'] (by decide) hTitle⟩
  · cases hToken

/- A tag ends with a parenthesis or a character of tags. -/
theorem tag_ends
    {cs : List Char}
    {kind : TokenKind}
    {length : Nat}
    (hToken : tag cs = .token kind length) :
    0 < length ∧ EndsApart ('#' :: cs) length := by
  unfold tag at hToken
  split at hToken
  · split at hToken
    · cases hToken
    · cases hToken
    · next hTitle =>
        cases hToken
        exact
          ⟨Nat.succ_pos _,
            endsApart_title ['#', '('] (by decide) hTitle⟩
  · simp only at hToken
    split at hToken
    · cases hToken
    · next hSome =>
        cases hToken
        refine ⟨Nat.succ_pos _, ?_⟩
        rw [List.isEmpty_iff] at hSome
        have hLast := List.getLast_mem hSome
        have hTagChar := List.mem_takeWhile_imp hLast
        have hSpace :
            (cs.takeWhile isTagChar).getLast hSome ≠ ' ' := by
          intro hSame
          rw [hSame] at hTagChar
          exact absurd hTagChar (by decide)
        have hText :
            '#' :: cs =
              ('#' :: (cs.takeWhile isTagChar).dropLast)
                ++ (cs.takeWhile isTagChar).getLast hSome
                  :: cs.dropWhile isTagChar := by
          rw [List.cons_append, List.append_cons,
            List.dropLast_concat_getLast,
            List.takeWhile_append_dropWhile]
        rw [hText]
        apply endsApart_of_append _ _ hSpace
        have hPos := List.length_pos_iff.mpr hSome
        simp only [List.length_cons, List.length_dropLast]
        omega

/- A mention ends with a bracket. -/
theorem mention_ends
    {cs : List Char}
    {kind : TokenKind}
    {length : Nat}
    (hToken : mention cs = .token kind length) :
    0 < length ∧ EndsApart ('@' :: cs) length := by
  unfold mention at hToken
  split at hToken
  · split at hToken
    · next hTitle =>
        cases hToken
        exact
          ⟨Nat.succ_pos _,
            endsApart_title ['@', '['] (by decide) hTitle⟩
    · cases hToken
  · split at hToken
    · next hTitle =>
        cases hToken
        exact
          ⟨Nat.succ_pos _,
            endsApart_title ['@', '<'] (by decide) hTitle⟩
    · cases hToken
  · cases hToken

/- Data ends with its line. -/
theorem data_ends
    {cs : List Char}
    {kind : TokenKind}
    {length : Nat}
    (hSome : cs ≠ [])
    (hToken : data cs = .token kind length) :
    0 < length ∧ EndsApart cs length := by
  unfold data at hToken
  split at hToken
  · split at hToken
    · cases hToken
      exact
        ⟨List.length_pos_iff.mpr hSome, .inr List.drop_length⟩
    · cases hToken
  · cases hToken

/-
  A token inside a line has some character, and it ends with
  no space or with its line.
-/
theorem item_ends
    {afterBlank : Bool}
    {c : Char}
    {cs : List Char}
    {kind : TokenKind}
    {length : Nat}
    (hToken : item afterBlank c cs = .token kind length) :
    0 < length ∧ EndsApart (c :: cs) length := by
  unfold item at hToken
  split at hToken
  · split at hToken
    · exact tag_ends hToken
    · cases hToken
  · exact mention_ends hToken
  · exact data_ends (List.cons_ne_nil _ _) hToken
  · cases hToken

/- Only plain text starts with a space. -/
theorem item_space
    (afterBlank : Bool)
    (cs : List Char) :
    item afterBlank ' ' cs = .plain :=
  rfl

/- What is not plain text starts at a cut. -/
theorem Cut.of_item
    {origin : Position}
    {whole before cs : List Char}
    {c : Char}
    (afterBlank : Bool)
    (hWhole : whole = before ++ c :: cs)
    (hItem : item afterBlank c cs ≠ .plain) :
    Cut origin whole (origin.advanceBy before) := by
  have hSpace : c ≠ ' ' := by
    rintro rfl
    exact hItem (item_space afterBlank cs)
  exact .after origin hWhole (by simpa using hSpace)

/- What is broken inside a line is a tag. -/
theorem item_broken
    {afterBlank : Bool}
    {c : Char}
    {cs : List Char}
    {cause : SyntaxFault.Cause}
    (hBroken : item afterBlank c cs = .broken cause) :
    cause ≠ .unterminatedComment := by
  unfold item at hBroken
  split at hBroken
  · split at hBroken
    · unfold tag at hBroken
      split at hBroken
      · split at hBroken <;> cases hBroken
        simp
      · simp only at hBroken
        split at hBroken <;> cases hBroken
    · cases hBroken
  · unfold mention at hBroken
    split at hBroken
    · split at hBroken <;> cases hBroken
    · split at hBroken <;> cases hBroken
    · cases hBroken
  · unfold data at hBroken
    split at hBroken
    · split at hBroken <;> cases hBroken
    · cases hBroken
  · cases hBroken

/- What is broken at the head of an element is a title. -/
theorem head_broken
    {cs : List Char}
    {cause : SyntaxFault.Cause}
    (hBroken : head cs = .broken cause) :
    cause ≠ .unterminatedComment := by
  unfold head at hBroken
  split at hBroken
  · split at hBroken <;> cases hBroken
    simp
  · split at hBroken <;> cases hBroken
    simp
  · cases hBroken

------------------------------------------------------------
-- Inside a Line
------------------------------------------------------------

/-
  Tokens and faults whose places are cuts of a text.  None of
  the faults is about a comment.
-/
structure Cuts
    (origin : Position)
    (text : List Char)
    (found : List Token × List SyntaxFault) : Prop where
  tokens : ∀ token ∈ found.1, Cut origin text token.position
  faults : ∀ fault ∈ found.2,
    fault.cause ≠ .unterminatedComment ∧
      Cut origin text fault.position

/- Another token comes first. -/
theorem Cuts.token
    {origin : Position}
    {text : List Char}
    {found : List Token × List SyntaxFault}
    (hCuts : Cuts origin text found)
    {p : Position}
    (hCut : Cut origin text p)
    (kind : TokenKind) :
    Cuts origin text (⟨kind, p⟩ :: found.1, found.2) := by
  refine ⟨?_, hCuts.faults⟩
  intro token hToken
  rcases List.mem_cons.mp hToken with hHere | hLater
  · rw [hHere]
    exact hCut
  · exact hCuts.tokens token hLater

/- Another fault comes first. -/
theorem Cuts.fault
    {origin : Position}
    {text : List Char}
    {found : List Token × List SyntaxFault}
    (hCuts : Cuts origin text found)
    {p : Position}
    (hCut : Cut origin text p)
    {cause : SyntaxFault.Cause}
    (hCause : cause ≠ .unterminatedComment) :
    Cuts origin text (found.1, ⟨cause, p⟩ :: found.2) := by
  refine ⟨hCuts.tokens, ?_⟩
  intro fault hFault
  rcases List.mem_cons.mp hFault with hHere | hLater
  · rw [hHere]
    exact ⟨hCause, hCut⟩
  · exact hCuts.faults fault hLater

/- Some text comes first, if there is any. -/
theorem Cuts.text
    {origin : Position}
    {text : List Char}
    {found : List Token × List SyntaxFault}
    (hCuts : Cuts origin text found)
    {p : Position}
    {content : List Char}
    (hCut : content = [] ∨ Cut origin text p) :
    Cuts origin text
      (textToken p content.reverse ++ found.1, found.2) := by
  refine ⟨?_, hCuts.faults⟩
  intro token hToken
  rcases List.mem_append.mp hToken with hHere | hLater
  · rcases hCut with rfl | hCut
    · exact absurd hHere List.not_mem_nil
    · unfold textToken at hHere
      split at hHere
      · exact absurd hHere List.not_mem_nil
      · rw [List.mem_singleton.mp hHere]
        exact hCut
  · exact hCuts.tokens token hLater

/- A text is split where a token ends. -/
theorem splits_of_endsApart
    {whole before cs : List Char}
    (hWhole : whole = before ++ cs)
    {length : Nat}
    (hToken : 0 < length ∧ EndsApart cs length) :
    Comment.Splits whole (before ++ cs.take length)
      (cs.drop length) := by
  rcases hToken with ⟨hPos, hEnds⟩
  constructor
  · rw [hWhole, List.append_assoc, List.take_append_drop]
  · rintro ⟨hLast, hHead⟩
    rcases hEnds with hApart | hNone
    · cases hToken : (cs.take length).getLast? with
      | none =>
          -- there is nothing left of the text, either
          have hEmpty : cs = [] := by
            simpa [Nat.ne_of_gt hPos] using hToken
          rw [hEmpty, List.drop_nil] at hHead
          cases hHead
      | some c =>
          rw [List.getLast?_append, hToken] at hLast
          exact hApart (hToken.trans hLast)
    · rw [hNone] at hHead
      cases hHead

/-
  The tokens after a beginning of a line.  While no text has
  been read, the token before ends at a cut; text starts at
  one.
-/
theorem inlineFrom_cuts
    {origin : Position}
    {whole before cs : List Char}
    (hWhole : whole = before ++ cs)
    {textStart : Position}
    {text : List Char}
    (hText : text = [] ∨ Cut origin whole textStart)
    {skip : Nat}
    (hSkip : 0 < skip → text = [])
    (hEnd : text = [] →
      Comment.Splits whole (before ++ cs.take skip)
        (cs.drop skip))
    (afterBlank : Bool) :
    Cuts origin whole
      (inlineFrom textStart text afterBlank skip
        (origin.advanceBy before) cs) := by
  induction cs generalizing before textStart text skip
      afterBlank with
  | nil =>
      have hNone : Cuts origin whole ([], []) :=
        ⟨by simp, by simp⟩
      have hTextOnly := hNone.text hText
      cases skip with
      | zero => simpa [inlineFrom] using hTextOnly
      | succ skip => simpa [inlineFrom] using hTextOnly
  | cons c cs ih =>
      have hNext :
          (origin.advanceBy before).advance c =
            origin.advanceBy (before ++ [c]) := by
        rw [Position.advanceBy_append]
        rfl
      have hWholeNext : whole = (before ++ [c]) ++ cs := by
        rw [hWhole]
        simp
      cases skip with
      | succ skip =>
          have hNone := hSkip (Nat.succ_pos skip)
          rw [inlineFrom, hNext]
          refine ih hWholeNext hText (fun _ => hNone) ?_ false
          intro hEmpty
          simpa using hEnd hEmpty
      | zero =>
          -- the start of a text or token that comes here
          have hHere : ∀ start : Position,
              (text = [] ∨ Cut origin whole start) →
                Cut origin whole
                  (if text.isEmpty then
                    origin.advanceBy before
                  else start) := by
            intro start hStart
            cases text with
            | nil =>
                exact ⟨before, c :: cs, by simpa using hEnd rfl,
                  rfl⟩
            | cons d text =>
                simpa using hStart
          unfold inlineFrom
          simp only
          cases hItem : item afterBlank c cs with
          | plain =>
              simp only [hNext]
              exact
                ih hWholeNext (.inr (hHere _ hText))
                  (fun hLess => absurd hLess (Nat.lt_irrefl 0))
                  (fun hNone => absurd hNone (by simp)) _
          | broken cause =>
              have hCut : Cut origin whole
                  (origin.advanceBy before) :=
                .of_item afterBlank hWhole (by simp [hItem])
              simp only [hNext]
              exact
                (ih hWholeNext (.inr (hHere _ hText))
                  (fun hLess => absurd hLess (Nat.lt_irrefl 0))
                  (fun hNone => absurd hNone (by simp))
                  _).fault hCut (item_broken hItem)
          | token kind length =>
              have hCut : Cut origin whole
                  (origin.advanceBy before) :=
                .of_item afterBlank hWhole (by simp [hItem])
              have hEnds := item_ends hItem
              have hSplits :
                  Comment.Splits whole
                    ((before ++ [c]) ++ cs.take (length - 1))
                    (cs.drop (length - 1)) := by
                have hToken := splits_of_endsApart hWhole hEnds
                cases length with
                | zero => exact absurd hEnds.1 (Nat.lt_irrefl 0)
                | succ n => simpa using hToken
              have hLater :
                  Cuts origin whole
                    (inlineFrom
                      (origin.advanceBy (before ++ [c])) []
                      false (length - 1)
                      (origin.advanceBy (before ++ [c])) cs) :=
                ih hWholeNext (.inl rfl) (fun _ => rfl)
                  (fun _ => hSplits) false
              simp only [hNext]
              exact (hLater.token hCut kind).text hText

/- The tokens of the rest of a line that starts at a cut. -/
theorem inlineTokens_cuts
    {origin : Position}
    {whole before cs : List Char}
    (hSplits : Comment.Splits whole before cs) :
    Cuts origin whole
      (inlineTokens (origin.advanceBy before) cs) :=
  inlineFrom_cuts hSplits.1 (.inl rfl) (fun _ => rfl)
    (fun _ => by simpa using hSplits) true

/- What follows the blanks of a text is no space. -/
theorem dropWhile_head
    {p : Char → Bool}
    (hSpace : p ' ' = true)
    (cs : List Char) :
    (cs.dropWhile p).head? ≠ some ' ' := by
  intro hHead
  have hFirst := List.head?_dropWhile_not p cs
  rw [hHead] at hFirst
  simp only [hSpace] at hFirst
  cases hFirst

/- The tokens of the content of a line after its opening. -/
theorem content_cuts
    (headAllowed : Bool)
    (origin : Position)
    {whole before cs : List Char}
    (hWhole : whole = before ++ cs) :
    Cuts origin whole
      (content headAllowed (origin.advanceBy before) cs) := by
  have hBody :
      whole =
        (before ++ cs.takeWhile Text.isBlank)
          ++ cs.dropWhile Text.isBlank := by
    rw [List.append_assoc, List.takeWhile_append_dropWhile,
      hWhole]
  have hHead :
      (cs.dropWhile Text.isBlank).head? ≠ some ' ' :=
    dropWhile_head (by decide) cs
  have hStart :
      (origin.advanceBy before).advanceBy
          (cs.takeWhile Text.isBlank) =
        origin.advanceBy
          (before ++ cs.takeWhile Text.isBlank) :=
    (Position.advanceBy_append _ _ _).symm
  have hCut := Cut.after origin hBody hHead
  have hRest :
      Cuts origin whole
        (inlineTokens
          (origin.advanceBy
            (before ++ cs.takeWhile Text.isBlank))
          (cs.dropWhile Text.isBlank)) :=
    inlineTokens_cuts ⟨hBody, fun hBoth => hHead hBoth.2⟩
  unfold content
  simp only [hStart]
  cases hItem :
      (if headAllowed = true then
        head (cs.dropWhile Text.isBlank)
      else .plain) with
  | plain => exact hRest
  | broken cause =>
      split at hItem
      · exact hRest.fault hCut (head_broken hItem)
      · cases hItem
  | token kind length =>
      split at hItem
      · have hLater :=
          @inlineTokens_cuts origin _ _ _
            (splits_of_endsApart hBody (head_ends hItem))
        rw [Position.advanceBy_append] at hLater
        exact hLater.token hCut kind
      · cases hItem

/- The tokens of a line after its indentation. -/
theorem body_cuts
    (indent : Nat)
    (origin : Position)
    {whole before cs : List Char}
    (hWhole : whole = before ++ cs)
    (hHead : cs.head? ≠ some ' ') :
    Cuts origin whole
      (body indent (origin.advanceBy before) cs) := by
  have hCut := Cut.after origin hWhole hHead
  unfold body
  split
  · refine ⟨?_, by simp⟩
    intro token hToken
    rw [List.mem_singleton.mp hToken]
    exact hCut
  · next kind length _ _ =>
      have hRest :
          whole =
            (before ++ cs.take length) ++ cs.drop length := by
        rw [List.append_assoc, List.take_append_drop, hWhole]
      rw [← Position.advanceBy_append]
      exact (content_cuts _ origin hRest).token hCut kind
  · exact content_cuts true origin hWhole

/- The tokens of a line with its indentation and its end. -/
theorem line_cuts (source : SourceLine) :
    Cuts source.start source.text
      ((line source).1.stream, (line source).2) := by
  have hFirst := Cut.first source.start source.text
  unfold line
  split
  · refine ⟨?_, by simp⟩
    intro token hToken
    rw [List.mem_singleton.mp hToken]
    exact hFirst
  · have hText :
        source.text =
          source.text.takeWhile isIndentation
            ++ source.text.dropWhile isIndentation :=
      List.takeWhile_append_dropWhile.symm
    have hBody :=
      body_cuts (width (source.text.takeWhile isIndentation))
        source.start hText
        (dropWhile_head (by decide) source.text)
    refine ⟨?_, hBody.faults⟩
    have hContent : ∀ token ∈
        (body (width (source.text.takeWhile isIndentation))
          (source.start.advanceBy
            (source.text.takeWhile isIndentation))
          (source.text.dropWhile isIndentation)).1
            ++ [⟨.lineEnd, source.stop⟩],
        Cut source.start source.text token.position := by
      intro token hToken
      rcases List.mem_append.mp hToken with hToken | hToken
      · exact hBody.tokens token hToken
      · rw [List.mem_singleton.mp hToken]
        exact Cut.last source.start source.text
    intro token hToken
    simp only [Line.stream, FilledLine.stream] at hToken
    split at hToken
    · exact hContent token hToken
    · rcases List.mem_cons.mp hToken with hHere | hLater
      · rw [hHere]
        exact hFirst
      · exact hContent token hLater

------------------------------------------------------------
-- Documents
------------------------------------------------------------

/- The lines after the front matter are lines of the text. -/
theorem frontMatter?_lines
    {lines rest : List SourceLine}
    {found : FrontMatter}
    {faults : List SyntaxFault}
    (hFound :
      frontMatter? lines = some (found, rest, faults)) :
    rest.Sublist lines ∧
      ∃ first ∈ lines, found.position = first.start ∧
        ∀ fault ∈ faults,
          fault = ⟨.unterminatedFrontMatter, first.start⟩ := by
  unfold frontMatter? at hFound
  split at hFound
  · cases hFound
  · next first others hLines =>
      have hSuffix : (first :: others).Sublist lines :=
        hLines ▸ List.dropWhile_sublist _
      split at hFound
      · split at hFound
        · next hClosed =>
            cases hFound
            have hRest := List.dropWhile_sublist
              (fun l => !SourceLine.isFence l) (l := others)
            rw [hClosed] at hRest
            refine ⟨?_, first, ?_, rfl, by simp⟩
            · exact
                (List.sublist_of_cons_sublist hRest).trans
                  (List.sublist_of_cons_sublist hSuffix)
            · exact hSuffix.subset List.mem_cons_self
        · cases hFound
          exact
            ⟨List.nil_sublist _, first,
              hSuffix.subset List.mem_cons_self, rfl, by simp⟩
      · cases hFound

/- A cut of a line of a text is one of the text. -/
theorem Cut.in_text
    {text : List Char}
    {source : SourceLine}
    (hSource : source ∈ SourceLine.ofText text)
    {p : Position}
    (hCut : Cut source.start source.text p) :
    Cut Position.start text p := by
  rcases SourceLine.ofText_standsIn text source hSource with
    ⟨before, after, hText, hStart, hBefore, hAfter⟩
  rw [hStart] at hCut
  exact hCut.within hText hBefore hAfter

/- The tokens of some lines of a text. -/
theorem linesOf_cuts
    {text : List Char}
    {sources : List SourceLine}
    (hSources : sources ⊆ SourceLine.ofText text) :
    Cuts Position.start text
      ((linesOf sources).1.flatMap Line.stream,
        (linesOf sources).2) := by
  constructor
  · intro token hToken
    rcases List.mem_flatMap.mp hToken with
      ⟨found, hFound, hToken⟩
    simp only [linesOf, List.map_map, List.mem_map] at hFound
    rcases hFound with ⟨source, hSource, rfl⟩
    exact
      ((line_cuts source).tokens token hToken).in_text
        (hSources hSource)
  · intro fault hFault
    simp only [linesOf, List.mem_flatMap, List.mem_map]
      at hFault
    rcases hFault with ⟨_, ⟨source, hSource, rfl⟩, hFault⟩
    have hCut := (line_cuts source).faults fault hFault
    exact ⟨hCut.1, hCut.2.in_text (hSources hSource)⟩

/-
  The places of tokens in the text without comments: all but
  that of the end of the document are cuts.  Faults of comments
  are left out here.
-/
theorem lex_cuts (input : String) :
    (∀ token ∈ (lex input).tokens,
      token =
          ⟨.documentEnd, Position.ofEnd input.toList⟩ ∨
        Cut Position.start (Comment.blank input.toList).1
          token.position) ∧
      ∀ fault ∈ (lex input).faults,
        fault ∈ (Comment.blank input.toList).2 ∨
          fault.cause ≠ .unterminatedComment ∧
            Cut Position.start (Comment.blank input.toList).1
              fault.position := by
  generalize hBlank : Comment.blank input.toList = blanked
  rcases blanked with ⟨text, commentFaults⟩
  unfold lex
  simp only [hBlank]
  cases hFront : frontMatter? (SourceLine.ofText text) with
  | none =>
      have hAll :=
        linesOf_cuts (List.Subset.refl (SourceLine.ofText text))
      constructor
      · intro token hToken
        rcases List.mem_append.mp hToken with hToken | hEnd
        · exact .inr (hAll.tokens token hToken)
        · exact .inl (List.mem_singleton.mp hEnd)
      · intro fault hFault
        exact
          (List.mem_append.mp hFault).imp_right
            (hAll.faults fault)
  | some found =>
      rcases found with ⟨front, rest, frontFaults⟩
      rcases frontMatter?_lines hFront with
        ⟨hRest, first, hFirst, hPlace, hFrontFaults⟩
      have hAll := linesOf_cuts hRest.subset
      have hCut :=
        (Cut.first first.start first.text).in_text hFirst
      constructor
      · intro token hToken
        rcases List.mem_append.mp hToken with hToken | hEnd
        · rcases List.mem_append.mp hToken with hHere | hToken
          · rw [List.mem_singleton.mp hHere, hPlace]
            exact .inr hCut
          · exact .inr (hAll.tokens token hToken)
        · exact .inl (List.mem_singleton.mp hEnd)
      · intro fault hFault
        rcases List.mem_append.mp hFault with hFault | hLater
        · refine (List.mem_append.mp hFault).imp_right ?_
          intro hHere
          rw [hFrontFaults fault hHere]
          exact ⟨by simp, hCut⟩
        · exact .inr (hAll.faults fault hLater)

/-
  A place that counts the characters of comments before it on
  its line by their bytes.  It is between two characters of
  the source text and on their line, and it is the place
  between them if and only if no comment there has a character
  of several bytes.
-/
def IsWidened (cs : List Char) (p : Position) : Prop :=
  ∃ before after,
    Comment.marks cs = before ++ after ∧
      p.offset = Text.byteSize (before.map Prod.fst) ∧
      p.line = (Position.ofEnd (before.map Prod.fst)).line ∧
      p.column =
        (Position.ofEnd (before.map Prod.fst)).column
          + Comment.surplus before ∧
      (p.IsPlaceIn cs ↔ Comment.surplus before = 0)

/- A cut of the text without comments counts their bytes. -/
theorem Cut.isWidened
    {cs : List Char}
    {p : Position}
    (hCut : Cut Position.start (Comment.blank cs).1 p) :
    IsWidened cs p := by
  rcases hCut with ⟨shown, rest, hSplits, hPlace⟩
  rw [Comment.blank_eq] at hSplits
  rcases Comment.exists_marks_of_splits hSplits with
    ⟨before, after, hMarks, rfl⟩
  have hWiden := Comment.ofEnd_shown before
  rw [Position.ofEnd, ← hPlace] at hWiden
  refine ⟨before, after, hMarks, ?_, ?_, ?_, ?_⟩
  · rw [hWiden]
    exact Position.ofEnd_offset _
  · rw [hWiden]
    rfl
  · rw [hWiden]
    rfl
  · have hText := Comment.marks_fst cs
    rw [hMarks, List.map_append] at hText
    rw [hWiden, ← hText]
    exact Position.widen_isPlaceIn_iff

/-
  The places of tokens and faults.  The end of the document
  and comments that are not closed are where the source text
  has them.  All others are between two characters of the
  source text and on the right line, and their columns are
  right, too, unless a comment before them on their line has a
  character of several bytes: each of its bytes counts.
-/
theorem lex_positions (input : String) :
    (∀ token ∈ (lex input).tokens,
      token =
          ⟨.documentEnd, Position.ofEnd input.toList⟩ ∨
        IsWidened input.toList token.position) ∧
      ∀ fault ∈ (lex input).faults,
        fault.cause = .unterminatedComment ∧
            fault.position.IsPlaceIn input.toList ∨
          fault.cause ≠ .unterminatedComment ∧
            IsWidened input.toList fault.position := by
  rcases lex_cuts input with ⟨hTokens, hFaults⟩
  constructor
  · intro token hToken
    exact (hTokens token hToken).imp_right Cut.isWidened
  · intro fault hFault
    refine (hFaults fault hFault).imp ?_ ?_
    · exact Comment.blank_faults input.toList fault
    · exact fun hCut => ⟨hCut.1, hCut.2.isWidened⟩

end Lexer

end Dialectic
