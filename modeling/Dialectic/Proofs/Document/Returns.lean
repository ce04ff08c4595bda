import Dialectic.Proofs.Document.PaddedLines

/-
  Carriage returns before the line feeds of a text.  Outside
  of comments they are dropped, and inside they are blanked to
  spaces; so the source lines are alike.

  Key definitions include:
    * `Text.withReturns`
    * `Comment.Covers`
    * `Comment.Ended`

  Main theorems:
    * `Comment.opening?_returns`
    * `Comment.blank_returns`
    * `Comment.Ended.splitOn`
    * `SourceLine.ofText_alike`
-/

namespace Dialectic

------------------------------------------------------------
-- Texts with Returns
------------------------------------------------------------

namespace Text

/- Put a carriage return before each line feed. -/
def withReturns : List Char → List Char
| [] => []
| c :: cs =>
    if c = '\n' then '\r' :: '\n' :: withReturns cs
    else c :: withReturns cs

/- A line feed follows a carriage return. -/
@[simp]
theorem withReturns_feed (cs : List Char) :
    withReturns ('\n' :: cs) = '\r' :: '\n' :: withReturns cs :=
  rfl

/- Other characters stay. -/
@[simp]
theorem withReturns_cons
    {c : Char}
    (hFeed : c ≠ '\n')
    (cs : List Char) :
    withReturns (c :: cs) = c :: withReturns cs := by
  rw [withReturns, if_neg hFeed]

/- A text without line feeds and carriage returns. -/
def Unbroken (cs : List Char) : Prop :=
  ∀ c ∈ cs, c ≠ '\n' ∧ c ≠ '\r'

/- What a text on one line is followed by gets returns. -/
theorem stripPrefix?_returns
    {lead : List Char}
    (hLead : Unbroken lead)
    (cs : List Char) :
    stripPrefix? lead (withReturns cs) =
      (stripPrefix? lead cs).map withReturns := by
  induction lead generalizing cs with
  | nil => rfl
  | cons p lead ih =>
      rcases List.forall_mem_cons.mp hLead with
        ⟨⟨hFeed, hReturn⟩, hMore⟩
      cases cs with
      | nil => rfl
      | cons c cs =>
          by_cases hHere : c = '\n'
          · subst hHere
            simp only [withReturns_feed, stripPrefix?, hReturn,
              hFeed, if_false, Option.map_none]
          · rw [withReturns_cons hHere]
            simp only [stripPrefix?]
            split
            · exact ih hMore cs
            · rfl

/- Returns do not matter for what a text starts with. -/
theorem startsWith_returns
    {lead : List Char}
    (hLead : Unbroken lead)
    (cs : List Char) :
    startsWith lead (withReturns cs) = startsWith lead cs := by
  unfold startsWith
  rw [stripPrefix?_returns hLead, Option.isSome_map]

/- No text on one line starts with the end of a line. -/
theorem startsWith_break
    {lead : List Char}
    (hLead : Unbroken lead)
    (hSome : lead ≠ [])
    {c : Char}
    (hBreak : c = '\n' ∨ c = '\r')
    (cs : List Char) :
    startsWith lead (c :: cs) = false := by
  cases lead with
  | nil => exact absurd rfl hSome
  | cons p lead =>
      rcases List.forall_mem_cons.mp hLead with
        ⟨⟨hFeed, hReturn⟩, _⟩
      unfold startsWith stripPrefix?
      rcases hBreak with rfl | rfl
      · rw [if_neg hFeed]
        rfl
      · rw [if_neg hReturn]
        rfl

end Text

namespace Comment

open Text (withReturns Unbroken)

------------------------------------------------------------
-- Lengths of Comments
------------------------------------------------------------

/-
  The same comment covers some characters of a text, and some
  of the text with returns.  It may end with the return before
  a line feed.
-/
inductive Covers : List Char → Nat → Nat → Prop where
| done (cs : List Char) : Covers cs 0 0
| last (cs : List Char) : Covers ('\n' :: cs) 0 1
| feed
    {cs : List Char}
    {n n' : Nat}
    (hRest : Covers cs n n') :
    Covers ('\n' :: cs) (n + 1) (n' + 2)
| char
    {c : Char}
    (hFeed : c ≠ '\n')
    {cs : List Char}
    {n n' : Nat}
    (hRest : Covers cs n n') :
    Covers (c :: cs) (n + 1) (n' + 1)

/- All characters of a text are covered. -/
theorem covers_all (cs : List Char) :
    Covers cs cs.length (withReturns cs).length := by
  induction cs with
  | nil => exact .done []
  | cons c cs ih =>
      by_cases hFeed : c = '\n'
      · subst hFeed
        exact .feed ih
      · rw [Text.withReturns_cons hFeed]
        exact .char hFeed ih

/- A line is covered, with the return at its end. -/
theorem covers_line (cs : List Char) :
    Covers cs (lineLength cs) (lineLength (withReturns cs)) := by
  induction cs with
  | nil => exact .done []
  | cons c cs ih =>
      unfold lineLength at ih ⊢
      by_cases hFeed : c = '\n'
      · subst hFeed
        exact .last cs
      · have hTake : ∀ rest : List Char,
            (c :: rest).takeWhile (· != '\n') =
              c :: rest.takeWhile (· != '\n') :=
          fun _ =>
            List.takeWhile_cons_of_pos (bne_iff_ne.mpr hFeed)
        rw [Text.withReturns_cons hFeed, hTake, hTake]
        exact .char hFeed ih

/- More characters are covered if some stand before. -/
theorem covers_lead
    {lead cs : List Char}
    (hLead : Unbroken lead)
    {n n' : Nat}
    (hRest : Covers cs n n') :
    Covers (lead ++ cs) (lead.length + n) (lead.length + n') := by
  induction lead with
  | nil => simpa using hRest
  | cons p lead ih =>
      rcases List.forall_mem_cons.mp hLead with
        ⟨⟨hFeed, _⟩, hMore⟩
      simp only [List.length_cons, Nat.add_right_comm]
      exact .char hFeed (ih hMore)

/- Both texts have the same end of a comment, or none has one. -/
theorem find?_returns
    {closing : List Char}
    (hClosing : Unbroken closing)
    (hSome : closing ≠ [])
    (cs : List Char) :
    Option.Rel
      (fun n n' =>
        Covers cs (n + closing.length) (n' + closing.length))
      (Text.find? closing cs)
      (Text.find? closing (withReturns cs)) := by
  induction cs with
  | nil =>
      have hNone : Text.find? closing [] = none := by
        simp [Text.find?, hSome]
      rw [withReturns, hNone]
      exact .none
  | cons c cs ih =>
      by_cases hFeed : c = '\n'
      · subst hFeed
        rw [Text.withReturns_feed]
        simp only [Text.find?,
          Text.startsWith_break hClosing hSome (.inl rfl),
          Text.startsWith_break hClosing hSome (.inr rfl),
          Bool.false_eq_true, if_false, Option.map_map]
        generalize Text.find? closing cs = found at ih ⊢
        generalize Text.find? closing (withReturns cs) = found'
          at ih ⊢
        cases ih with
        | none => exact .none
        | @some n n' hRest =>
            refine .some ?_
            change
              Covers ('\n' :: cs) (n + 1 + closing.length)
                (n' + 1 + 1 + closing.length)
            rw [Nat.add_right_comm n, Nat.add_right_comm (n' + 1),
              Nat.add_right_comm n']
            exact .feed hRest
      · have hStarts :=
          Text.startsWith_returns hClosing (c :: cs)
        rw [Text.withReturns_cons hFeed] at hStarts ⊢
        simp only [Text.find?, hStarts]
        split
        · next hHere =>
            rcases Option.isSome_iff_exists.mp hHere with
              ⟨after, hAfter⟩
            have hCovers := covers_lead hClosing (.done after)
            rw [← Text.eq_append_of_stripPrefix? hAfter]
              at hCovers
            refine .some ?_
            simpa only [Nat.zero_add, Nat.add_zero] using hCovers
        · generalize Text.find? closing cs = found at ih ⊢
          generalize Text.find? closing (withReturns cs) = found'
            at ih ⊢
          cases ih with
          | none => exact .none
          | @some n n' hRest =>
              refine .some ?_
              rw [Nat.add_right_comm n, Nat.add_right_comm n']
              exact .char hFeed hRest

/- The same comment is enclosed, and closed in both or none. -/
theorem enclosedLength_returns
    {opening closing cs body : List Char}
    (hOpening : Unbroken opening)
    (hBody : Text.stripPrefix? opening cs = some body)
    (hClosing : Unbroken closing)
    (hSome : closing ≠ []) :
    (enclosedLength opening closing body).2 =
        (enclosedLength opening closing (withReturns body)).2 ∧
      Covers cs (enclosedLength opening closing body).1
        (enclosedLength opening closing
          (withReturns body)).1 := by
  rw [Text.eq_append_of_stripPrefix? hBody]
  have hFound := find?_returns hClosing hSome body
  unfold enclosedLength
  generalize Text.find? closing body = found at hFound ⊢
  generalize Text.find? closing (withReturns body) = found'
    at hFound ⊢
  cases hFound with
  | none =>
      exact ⟨rfl, covers_lead hOpening (covers_all body)⟩
  | @some n n' hCovers =>
      refine ⟨rfl, ?_⟩
      simp only [Nat.add_assoc]
      exact covers_lead hOpening hCovers

/- A comment opens with its first characters. -/
theorem opening?_eq (afterBlank : Bool) (cs : List Char) :
    opening? afterBlank cs =
      match Text.stripPrefix? ['/', '*'] cs with
      | some body =>
          some (enclosedLength ['/', '*'] ['*', '/'] body)
      | none =>
          match Text.stripPrefix? ['<', '!', '-', '-'] cs with
          | some body =>
              some
                (enclosedLength ['<', '!', '-', '-']
                  ['-', '-', '>'] body)
          | none =>
              if Text.startsWith ['/', '/'] cs && afterBlank then
                some (lineLength cs, true)
              else
                none := by
  unfold opening?
  split
  · rfl
  · rfl
  · rfl
  · next hSlash hAngle hLine =>
      have hNot : ∀ {lead : List Char},
          (∀ body, cs = lead ++ body → False) →
            Text.stripPrefix? lead cs = none := by
        intro lead hOther
        cases hBody : Text.stripPrefix? lead cs with
        | none => rfl
        | some body =>
            exact
              (hOther body
                (Text.eq_append_of_stripPrefix? hBody)).elim
      have hLines :
          Text.startsWith ['/', '/'] cs = false := by
        rw [Text.startsWith, hNot hLine]
        rfl
      rw [hNot hSlash, hNot hAngle, hLines]
      rfl

/-
  The same comment opens both texts, or none does.  It is
  closed in both or in none.
-/
theorem opening?_returns (afterBlank : Bool) (cs : List Char) :
    Option.Rel
      (fun found found' =>
        found.2 = found'.2 ∧ Covers cs found.1 found'.1)
      (opening? afterBlank cs)
      (opening? afterBlank (withReturns cs)) := by
  have hSlash : Unbroken ['/', '*'] := by
    simp [Unbroken]
  have hAngle : Unbroken ['<', '!', '-', '-'] := by
    simp [Unbroken]
  have hLine : Unbroken ['/', '/'] := by
    simp [Unbroken]
  rw [opening?_eq, opening?_eq, Text.stripPrefix?_returns hSlash,
    Text.stripPrefix?_returns hAngle,
    Text.startsWith_returns hLine]
  cases hFirst : Text.stripPrefix? ['/', '*'] cs with
  | some body =>
      exact
        .some
          (enclosedLength_returns hSlash hFirst
            (by simp [Unbroken]) (List.cons_ne_nil _ _))
  | none =>
      cases hSecond :
          Text.stripPrefix? ['<', '!', '-', '-'] cs with
      | some body =>
          exact
            .some
              (enclosedLength_returns hAngle hSecond
                (by simp [Unbroken]) (List.cons_ne_nil _ _))
      | none =>
          simp only [Option.map_none]
          split
          · exact .some ⟨rfl, covers_line cs⟩
          · exact .none

/- One character less is covered behind one on the line. -/
theorem Covers.tail
    {c : Char}
    {cs : List Char}
    {n n' : Nat}
    (hCovers : Covers (c :: cs) n n')
    (hFeed : c ≠ '\n') :
    Covers cs (n - 1) (n' - 1) := by
  cases hCovers with
  | done => exact .done cs
  | last => exact absurd rfl hFeed
  | feed => exact absurd rfl hFeed
  | char _ hRest => exact hRest

------------------------------------------------------------
-- Blanked Texts
------------------------------------------------------------

/-
  One text is another one with a character before each line
  feed: a return, or else a space that stands on an empty line
  or after a space.
-/
inductive Ended :
    (atSpace : Bool) → List Char → List Char → Prop where
| nil (atSpace : Bool) : Ended atSpace [] []
| char
    (atSpace : Bool)
    {c : Char}
    (hFeed : c ≠ '\n')
    (hReturn : c ≠ '\r')
    {cs cs' : List Char}
    (hRest : Ended (c == ' ') cs cs') :
    Ended atSpace (c :: cs) (c :: cs')
| feed
    (atSpace : Bool)
    {cs cs' : List Char}
    (hRest : Ended true cs cs') :
    Ended atSpace ('\n' :: cs) ('\r' :: '\n' :: cs')
| space
    {cs cs' : List Char}
    (hRest : Ended true cs cs') :
    Ended true ('\n' :: cs) (' ' :: '\n' :: cs')

/- A row of spaces may stand before. -/
theorem Ended.spaces
    {cs cs' : List Char}
    (hRest : Ended true cs cs')
    (n : Nat) :
    Ended true (List.replicate n ' ' ++ cs)
      (List.replicate n ' ' ++ cs') := by
  induction n with
  | zero => exact hRest
  | succ n ih => exact .char true (by decide) (by decide) ih

/- What stands for a character of a comment may, too. -/
theorem Ended.blanked
    {cs cs' : List Char}
    (hRest : Ended true cs cs')
    (atSpace : Bool)
    {c : Char}
    (hFeed : c ≠ '\n') :
    Ended atSpace (blankOf c ++ cs) (blankOf c ++ cs') := by
  rcases Nat.exists_eq_succ_of_ne_zero c.utf8Size_pos.ne' with
    ⟨n, hn⟩
  rw [blankOf, if_neg hFeed, hn, List.replicate_succ]
  exact .char atSpace (by decide) (by decide) (hRest.spaces n)

/-
  Blanking comments keeps the characters before line feeds,
  but for those in comments, which it turns into spaces.
-/
theorem blankFrom_returns
    {cs : List Char}
    (hPlain : '\r' ∉ cs)
    {n n' : Nat}
    (hCovers : Covers cs n n')
    {atSpace : Bool}
    (hInside : 0 < n' → atSpace = true)
    (afterBlank : Bool)
    (p q : Position) :
    Ended atSpace (blankFrom n afterBlank p cs).1
        (blankFrom n' afterBlank q (withReturns cs)).1 ∧
      (blankFrom n afterBlank p cs).2.map SyntaxFault.cause =
        (blankFrom n' afterBlank q
          (withReturns cs)).2.map SyntaxFault.cause := by
  -- inside a comment, `hCovers` says what is left of it; there
  -- the character before is a space, which a return becomes
  induction cs generalizing n n' atSpace afterBlank p q with
  | nil =>
      cases hCovers
      exact ⟨.nil atSpace, rfl⟩
  | cons c cs ih =>
      rcases List.ne_and_not_mem_of_not_mem_cons hPlain with
        ⟨hReturn, hMore⟩
      cases hCovers with
      | feed hRest =>
          cases hInside (Nat.succ_pos _)
          have hLater :=
            ih hMore hRest (fun _ => rfl) true (p.advance '\n')
              ((q.advance '\r').advance '\n')
          exact ⟨.space hLater.1, hLater.2⟩
      | last =>
          cases hInside Nat.one_pos
          have hLater :=
            ih hMore (.done cs) (fun _ => rfl)
              (Text.isBlank '\n') (p.advance '\n')
              ((q.advance '\r').advance '\n')
          exact ⟨.space hLater.1, hLater.2⟩
      | char hFeed hRest =>
          have hLater :=
            ih hMore hRest (fun _ => rfl) true (p.advance c)
              (q.advance c)
          rw [Text.withReturns_cons hFeed]
          exact ⟨hLater.1.blanked atSpace hFeed, hLater.2⟩
      | done =>
          by_cases hFeed : c = '\n'
          · subst hFeed
            have hLater :=
              ih hMore (.done cs) (fun _ => rfl)
                (Text.isBlank '\n') (p.advance '\n')
                ((q.advance '\r').advance '\n')
            exact ⟨.feed atSpace hLater.1, hLater.2⟩
          have hOpens := opening?_returns afterBlank (c :: cs)
          rw [Text.withReturns_cons hFeed] at hOpens ⊢
          unfold blankFrom
          generalize opening? afterBlank (c :: cs) = found
            at hOpens ⊢
          generalize
            opening? afterBlank (c :: withReturns cs) = found'
            at hOpens ⊢
          cases hOpens with
          | none =>
              have hOutside : 0 < 0 → (c == ' ') = true :=
                fun hNone => absurd hNone (Nat.lt_irrefl 0)
              have hLater :=
                ih hMore (.done cs) hOutside (Text.isBlank c)
                  (p.advance c) (q.advance c)
              exact
                ⟨.char atSpace hFeed hReturn.symm hLater.1,
                  hLater.2⟩
          | @some found found' hSame =>
              rcases found with ⟨length, closed⟩
              rcases found' with ⟨length', closed'⟩
              rcases hSame with ⟨hClosed, hCovers⟩
              have hLater :=
                ih hMore (hCovers.tail hFeed) (fun _ => rfl) true
                  (p.advance c) (q.advance c)
              change closed = closed' at hClosed
              subst hClosed
              refine ⟨hLater.1.blanked atSpace hFeed, ?_⟩
              cases closed with
              | true => exact hLater.2
              | false =>
                  exact
                    congrArg (.unterminatedComment :: ·) hLater.2

/- Blanking the comments of a text goes the same way. -/
theorem blank_returns {cs : List Char} (hPlain : '\r' ∉ cs) :
    Ended true (blank cs).1 (blank (withReturns cs)).1 ∧
      (blank cs).2.map SyntaxFault.cause =
        (blank (withReturns cs)).2.map SyntaxFault.cause :=
  blankFrom_returns hPlain (.done cs) (fun _ => rfl) true
    Position.start Position.start

------------------------------------------------------------
-- Source Lines
------------------------------------------------------------

/-
  One part of a text is another one with what is before a line
  feed, if there is one.
-/
structure PartEnded
    (atSpace : Bool)
    (part part' : List Char) : Prop where
  plain : '\r' ∉ part
  ending :
    part' = part ∨ part' = part ++ ['\r'] ∨
      part' = part ++ [' '] ∧
        (part = [] ∧ atSpace = true ∨
          part.getLast? = some ' ')

/- The parts between line feeds end that way. -/
theorem Ended.splitOn
    {atSpace : Bool}
    {cs cs' : List Char}
    (hEnded : Ended atSpace cs cs') :
    ∃ part parts part' parts',
      Text.splitOn '\n' cs = part :: parts ∧
        Text.splitOn '\n' cs' = part' :: parts' ∧
        PartEnded atSpace part part' ∧
        List.Forall₂ (PartEnded true) parts parts' := by
  induction hEnded with
  | nil atSpace =>
      exact
        ⟨[], [], [], [], rfl, rfl, ⟨by simp, .inl rfl⟩, .nil⟩
  | @char atSpace c hFeed hReturn cs cs' hRest ih =>
      rcases ih with
        ⟨part, parts, part', parts', hParts, hParts', hFirst,
          hOthers⟩
      refine
        ⟨c :: part, parts, c :: part', parts', ?_, ?_, ⟨?_, ?_⟩,
          hOthers⟩
      · rw [Text.splitOn, if_neg hFeed, hParts]
      · rw [Text.splitOn, if_neg hFeed, hParts']
      · simp [hFirst.plain, hReturn.symm]
      · rcases hFirst.ending with
          hSame | hSame | ⟨hSame, hSpace⟩
        · exact .inl (congrArg (c :: ·) hSame)
        · exact .inr (.inl (congrArg (c :: ·) hSame))
        · refine
            .inr (.inr ⟨congrArg (c :: ·) hSame, .inr ?_⟩)
          -- behind `c` nothing is left, or a space at the end
          rcases hSpace with ⟨rfl, hHere⟩ | hLast
          · exact congrArg some (eq_of_beq hHere)
          · rw [List.getLast?_cons, hLast]
            rfl
  | feed atSpace _ ih =>
      rcases ih with
        ⟨part, parts, part', parts', hParts, hParts', hFirst,
          hOthers⟩
      refine
        ⟨[], part :: parts, ['\r'], part' :: parts', ?_, ?_,
          ⟨by simp, .inr (.inl rfl)⟩, .cons hFirst hOthers⟩
      · rw [Text.splitOn, if_pos rfl, hParts]
      · simp [Text.splitOn, hParts']
  | space _ ih =>
      rcases ih with
        ⟨part, parts, part', parts', hParts, hParts', hFirst,
          hOthers⟩
      refine
        ⟨[], part :: parts, [' '], part' :: parts', ?_, ?_,
          ⟨by simp, .inr (.inr ⟨rfl, .inl ⟨rfl, rfl⟩⟩)⟩,
          .cons hFirst hOthers⟩
      · rw [Text.splitOn, if_pos rfl, hParts]
      · simp [Text.splitOn, hParts']

/- Both texts end with a line feed, or none does. -/
theorem Ended.getLast?
    {atSpace : Bool}
    {cs cs' : List Char}
    (hEnded : Ended atSpace cs cs') :
    cs'.getLast? = cs.getLast? := by
  induction hEnded with
  | nil => rfl
  | char _ _ _ _ ih =>
      rw [List.getLast?_cons, List.getLast?_cons, ih]
  | feed _ _ ih =>
      rw [List.getLast?_cons, List.getLast?_cons,
        List.getLast?_cons, ih]
      rfl
  | space _ ih =>
      rw [List.getLast?_cons, List.getLast?_cons,
        List.getLast?_cons, ih]
      rfl

end Comment

namespace SourceLine

open Text (withReturns)

/- Nothing is dropped from a part without returns. -/
theorem dropReturn_of_not_mem
    {part : List Char}
    (hPlain : '\r' ∉ part) :
    dropReturn part = part := by
  unfold dropReturn
  split
  · next hLast =>
      exact absurd (List.mem_of_getLast? hLast) hPlain
  · rfl

/- The lines of parts that end that way are alike. -/
theorem partEnded_alike
    {part part' : List Char}
    (hPart : Comment.PartEnded true part part')
    (first offset offset' : Nat) :
    Alike ⟨first, offset, dropReturn part⟩
      ⟨first, offset', dropReturn part'⟩ := by
  rcases hPart with ⟨hPlain, hSame | hSame | ⟨hSame, hSpace⟩⟩
  · rw [hSame]
    exact .padded (.refl _)
  · rw [dropReturn_of_not_mem hPlain, hSame]
    have hDropped : dropReturn (part ++ ['\r']) = part := by
      simp [dropReturn]
    rw [hDropped]
    exact .padded (.refl _)
  · have hPlain' : '\r' ∉ part' := by
      simpa [hSame] using hPlain
    rw [dropReturn_of_not_mem hPlain,
      dropReturn_of_not_mem hPlain', hSame]
    -- a line that starts inside of a comment may be empty
    rcases hSpace with ⟨rfl, _⟩ | hLast
    · exact .blank rfl rfl
    · rcases List.getLast?_eq_some_iff.mp hLast with
        ⟨before, rfl⟩
      rw [List.append_assoc]
      exact .padded (.append before .space)

/- So are the lines of several parts. -/
theorem numbered_alike
    {parts parts' : List (List Char)}
    (hParts :
      List.Forall₂ (Comment.PartEnded true) parts parts')
    (first offset offset' : Nat) :
    List.Forall₂ Alike (numbered first offset parts)
      (numbered first offset' parts') := by
  induction hParts generalizing first offset offset' with
  | nil => exact .nil
  | cons hFirst _ ih =>
      exact .cons (partEnded_alike hFirst _ _ _) (ih _ _ _)

/- The source lines of texts that end that way are alike. -/
theorem ofText_alike
    {cs cs' : List Char}
    (hEnded : Comment.Ended true cs cs') :
    List.Forall₂ Alike (ofText cs) (ofText cs') := by
  rcases hEnded.splitOn with
    ⟨part, parts, part', parts', hParts, hParts', hFirst,
      hOthers⟩
  have hLines :=
    numbered_alike (.cons hFirst hOthers) 1 0 0
  rw [← hParts, ← hParts'] at hLines
  unfold ofText
  rw [hEnded.getLast?]
  split
  · rw [List.dropLast_eq_take, List.dropLast_eq_take,
      hLines.length_eq]
    exact List.forall₂_take _ hLines
  · exact hLines

end SourceLine

end Dialectic
