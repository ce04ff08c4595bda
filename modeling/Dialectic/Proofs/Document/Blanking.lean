import Dialectic.Proofs.Document.Returns
import Dialectic.Proofs.Text.Finding

/-
  A text is cut into comments and the characters outside of
  them in one way only, and blanking leaves the latter where
  they are.  It leaves nothing that starts a comment, so that
  blanking a second time changes nothing.

  Key definitions include:
    * `Comment.Starts`
    * `Comment.Piece`
    * `Comment.CutInto`
    * `Comment.Blanked`

  Main theorems:
    * `Comment.opening?_eq_some_iff`
    * `Comment.CutInto.marks`
    * `Comment.shown_blanked`
    * `Comment.blankFrom_shown`
    * `Comment.blank_blanked`
-/

namespace Dialectic

/- A character stands in a text behind a number of bytes. -/
def Text.StandsAt
    (c : Char)
    (offset : Nat)
    (cs : List Char) : Prop :=
  ∃ before after,
    cs = before ++ c :: after ∧ byteSize before = offset

namespace Comment

------------------------------------------------------------
-- Comments of a Text
------------------------------------------------------------

/- What encloses a comment that may take several lines. -/
inductive Encloses : (opening closing : List Char) → Prop where
| slash : Encloses ['/', '*'] ['*', '/']
| angle : Encloses ['<', '!', '-', '-'] ['-', '-', '>']

/-
  A comment starts a text, and the rest follows it.  One of the
  kind that has to follow a blank, or to start the text, ends
  before the next line feed.  The others end with the first
  closing, or with the text if there is none.
-/
inductive Starts :
    (afterBlank : Bool) →
    (comment rest : List Char) →
    (closed : Bool) → Prop where
| line
    {body rest : List Char}
    (hBody : '\n' ∉ body)
    (hRest : rest = [] ∨ rest.head? = some '\n') :
    Starts true ('/' :: '/' :: body) rest true
| closed
    {afterBlank : Bool}
    {opening closing body : List Char}
    (hKind : Encloses opening closing)
    (hFirst : Text.FirstAt closing body)
    (rest : List Char) :
    Starts afterBlank (opening ++ body ++ closing) rest true
| unclosed
    {afterBlank : Bool}
    {opening closing body : List Char}
    (hKind : Encloses opening closing)
    (hNone : ¬ closing <:+: body) :
    Starts afterBlank (opening ++ body) [] false

/-
  A part of a text: a character outside of comments, or a
  comment.
-/
inductive Piece where
| plain (c : Char)
| comment (text : List Char) (closed : Bool)

namespace Piece

/- The characters of a piece. -/
def text : Piece → List Char
| plain c => [c]
| comment text _ => text

/- The characters of a piece, with whether they are comments. -/
def marks : Piece → List (Char × Bool)
| plain c => [(c, false)]
| comment text _ => text.map (·, true)

/- The marked characters are those of the piece. -/
theorem marks_fst (piece : Piece) :
    piece.marks.map Prod.fst = piece.text := by
  cases piece with
  | plain c => rfl
  | comment text closed =>
      simp [marks, Piece.text, Function.comp_def]

end Piece

/-
  How a text is cut into pieces, the first one first: a comment
  wherever one starts, else a character.
-/
inductive CutInto :
    (afterBlank : Bool) → List Char → List Piece → Prop where
| done {afterBlank : Bool} : CutInto afterBlank [] []
| comment
    {afterBlank closed : Bool}
    {comment rest : List Char}
    {pieces : List Piece}
    (hStarts : Starts afterBlank comment rest closed)
    (hRest : CutInto true rest pieces) :
    CutInto afterBlank (comment ++ rest)
      (.comment comment closed :: pieces)
| plain
    {afterBlank : Bool}
    {c : Char}
    {cs : List Char}
    {pieces : List Piece}
    (hNone : ∀ comment rest closed, c :: cs = comment ++ rest →
      ¬ Starts afterBlank comment rest closed)
    (hRest : CutInto (Text.isBlank c) cs pieces) :
    CutInto afterBlank (c :: cs) (.plain c :: pieces)

/- A character outside of comments, and the bytes before it. -/
def Outside
    (pieces : List Piece)
    (c : Char)
    (offset : Nat) : Prop :=
  ∃ before after,
    pieces = before ++ .plain c :: after ∧
      Text.byteSize (before.flatMap Piece.text) = offset

/-
  The comments of a text have been blanked.  Line feeds and
  what is outside of comments stay in their places, and all
  else is spaces.
-/
structure Blanked
    (pieces : List Piece)
    (cs out : List Char) : Prop where
  size : Text.byteSize out = Text.byteSize cs
  feeds : ∀ offset,
    Text.StandsAt '\n' offset out ↔
      Text.StandsAt '\n' offset cs
  kept : ∀ c offset, Outside pieces c offset →
    Text.StandsAt c offset cs ∧ Text.StandsAt c offset out
  spaces : ∀ c offset, Text.StandsAt c offset out →
    Outside pieces c offset ∨ c = '\n' ∨ c = ' '

------------------------------------------------------------
-- Where Comments Start
------------------------------------------------------------

variable {afterBlank closed : Bool}
variable {cs comment rest : List Char}
variable {pieces : List Piece}

/- A comment has some characters. -/
theorem Starts.ne_nil
    (hStarts : Starts afterBlank comment rest closed) :
    comment ≠ [] := by
  cases hStarts with
  | line hBody hRest => exact List.cons_ne_nil _ _
  | closed hKind hFirst rest => cases hKind <;> simp
  | unclosed hKind hNone => cases hKind <;> simp

/- What closes a comment has some characters. -/
theorem Encloses.closing_ne_nil
    {opening closing : List Char}
    (hKind : Encloses opening closing) :
    closing ≠ [] := by
  cases hKind <;> simp

/- What opens a comment of several lines is found first. -/
theorem Encloses.opening?_eq
    {opening closing : List Char}
    (hKind : Encloses opening closing)
    (afterBlank : Bool)
    (body : List Char) :
    opening? afterBlank (opening ++ body) =
      some (enclosedLength opening closing body) := by
  cases hKind <;> rfl

/- The length is that of the comment up to its first closing. -/
theorem starts_of_enclosedLength
    {opening closing body : List Char}
    (hKind : Encloses opening closing)
    {n : Nat}
    (hLength :
      enclosedLength opening closing body = (n, closed)) :
    ∃ comment rest, opening ++ body = comment ++ rest ∧
      comment.length = n ∧
        Starts afterBlank comment rest closed := by
  unfold enclosedLength at hLength
  split at hLength
  · next m hFound =>
      cases hLength
      rcases Text.firstAt_of_find? hKind.closing_ne_nil
          hFound with
        ⟨inner, rest, rfl, rfl, hFirst⟩
      exact
        ⟨opening ++ inner ++ closing, rest, by simp,
          by simp [Nat.add_assoc], .closed hKind hFirst rest⟩
  · next hNone =>
      cases hLength
      have hOpen :=
        (Text.find?_eq_none_iff hKind.closing_ne_nil).mp hNone
      exact
        ⟨opening ++ body, [], by simp, by simp,
          .unclosed hKind hOpen⟩

/- What is found at the start of a text is a comment there. -/
theorem starts_of_opening?
    {n : Nat}
    (hFound : opening? afterBlank cs = some (n, closed)) :
    ∃ comment rest, cs = comment ++ rest ∧
      comment.length = n ∧
        Starts afterBlank comment rest closed := by
  unfold opening? at hFound
  split at hFound
  · exact
      starts_of_enclosedLength .slash (Option.some.inj hFound)
  · exact
      starts_of_enclosedLength .angle (Option.some.inj hFound)
  · next body =>
      split at hFound <;> cases hFound
      next hBlank =>
        subst hBlank
        have hTake :
            ('/' :: '/' :: body).takeWhile (· != '\n') =
              '/' :: '/' :: body.takeWhile (· != '\n') := rfl
        refine
          ⟨'/' :: '/' :: body.takeWhile (· != '\n'),
            body.dropWhile (· != '\n'), ?_,
            by rw [lineLength, hTake], .line ?_ ?_⟩
        · simp
        · intro hMem
          simpa using List.mem_takeWhile_imp hMem
        · have hHead :=
            List.head?_dropWhile_not (· != '\n') body
          cases hRest : body.dropWhile (· != '\n') with
          | nil => exact .inl rfl
          | cons c after =>
              rw [hRest] at hHead
              exact .inr (by simpa using hHead)
  · cases hFound

/- A line up to its end. -/
theorem takeWhile_line
    {body rest : List Char}
    (hBody : '\n' ∉ body)
    (hRest : rest = [] ∨ rest.head? = some '\n') :
    (body ++ rest).takeWhile (· != '\n') = body := by
  have hAll : ∀ c ∈ body, (c != '\n') = true := by
    intro c hc
    exact bne_iff_ne.mpr (fun hSame => hBody (hSame ▸ hc))
  rw [List.takeWhile_append_of_pos hAll]
  rcases hRest with rfl | hHead
  · simp
  · cases rest with
    | nil => simp
    | cons c rest =>
        rw [List.head?_cons, Option.some.injEq] at hHead
        simp [hHead]

/-
  What is found at the start of a text is the comment that
  starts it.
-/
theorem opening?_eq_some_iff {n : Nat} :
    opening? afterBlank cs = some (n, closed) ↔
      ∃ comment rest, cs = comment ++ rest ∧
        comment.length = n ∧
          Starts afterBlank comment rest closed := by
  refine ⟨starts_of_opening?, ?_⟩
  rintro ⟨comment, rest, rfl, rfl, hStarts⟩
  cases hStarts with
  | @line body _ hBody hRest =>
      have hTake := takeWhile_line hBody hRest
      simp only [List.cons_append, opening?, if_true, lineLength,
        Option.some.injEq, Prod.mk.injEq, and_true]
      exact congrArg (· + 2) (congrArg List.length hTake)
  | @closed _ opening closing body hKind hFirst =>
      have hFound :=
        (Text.find?_eq_some_iff hKind.closing_ne_nil).mpr
          ⟨body, rest, rfl, rfl, hFirst⟩
      rw [List.append_assoc, List.append_assoc,
        hKind.opening?_eq, ← List.append_assoc, enclosedLength,
        hFound]
      simp [Nat.add_assoc]
  | @unclosed _ opening closing body hKind hNone =>
      have hFound :=
        (Text.find?_eq_none_iff hKind.closing_ne_nil).mpr hNone
      rw [List.append_nil, hKind.opening?_eq, enclosedLength,
        hFound]
      simp

/- Nothing is found where no comment starts. -/
theorem opening?_eq_none_iff :
    opening? afterBlank cs = none ↔
      ∀ comment rest closed, cs = comment ++ rest →
        ¬ Starts afterBlank comment rest closed := by
  constructor
  · intro hNone comment rest closed hText hStarts
    have hFound :=
      opening?_eq_some_iff.mpr
        ⟨comment, rest, hText, rfl, hStarts⟩
    rw [hNone] at hFound
    cases hFound
  · intro hOther
    cases hFound : opening? afterBlank cs with
    | none => rfl
    | some found =>
        rcases starts_of_opening? hFound with
          ⟨comment, rest, hText, _, hStarts⟩
        exact absurd hStarts (hOther _ _ _ hText)

------------------------------------------------------------
-- Cutting
------------------------------------------------------------

/- Each text can be cut. -/
theorem exists_cutInto
    (afterBlank : Bool)
    (cs : List Char) :
    ∃ pieces, CutInto afterBlank cs pieces := by
  induction hLength : cs.length using Nat.strong_induction_on
    generalizing afterBlank cs with
  | _ n ih =>
      cases cs with
      | nil => exact ⟨[], .done⟩
      | cons c cs =>
          cases hFound : opening? afterBlank (c :: cs) with
          | none =>
              have hLess : cs.length < n := by
                rw [← hLength]
                exact Nat.lt_succ_self _
              rcases ih _ hLess (Text.isBlank c) cs rfl with
                ⟨pieces, hRest⟩
              exact
                ⟨_, .plain (opening?_eq_none_iff.mp hFound)
                  hRest⟩
          | some found =>
              rcases starts_of_opening? hFound with
                ⟨comment, rest, hText, _, hStarts⟩
              have hLess : rest.length < n := by
                have hSome :=
                  List.length_pos_iff.mpr hStarts.ne_nil
                rw [← hLength, hText, List.length_append]
                omega
              rcases ih _ hLess true rest rfl with
                ⟨pieces, hRest⟩
              rw [hText]
              exact ⟨_, .comment hStarts hRest⟩

/- The pieces of a text make it up. -/
theorem CutInto.text_eq
    (hCut : CutInto afterBlank cs pieces) :
    pieces.flatMap Piece.text = cs := by
  induction hCut with
  | done => rfl
  | comment hStarts hRest ih =>
      rw [List.flatMap_cons, ih, Piece.text]
  | plain hNone hRest ih =>
      rw [List.flatMap_cons, ih, Piece.text]
      rfl

/- There are no more pieces than characters. -/
theorem CutInto.length_le
    (hCut : CutInto afterBlank cs pieces) :
    pieces.length ≤ cs.length := by
  induction hCut with
  | done => exact Nat.le_refl 0
  | comment hStarts hRest ih =>
      have hSome := List.length_pos_iff.mpr hStarts.ne_nil
      rw [List.length_cons, List.length_append]
      omega
  | plain hNone hRest ih => exact Nat.succ_le_succ ih

/- All characters of a comment are marked. -/
theorem marksFrom_inside (comment rest : List Char) :
    marksFrom comment.length true (comment ++ rest) =
      comment.map (·, true) ++ marksFrom 0 true rest := by
  induction comment with
  | nil => rfl
  | cons c comment ih =>
      rw [List.length_cons, List.cons_append, marksFrom, ih]
      rfl

/- The marked characters are those of the pieces. -/
theorem CutInto.marks
    (hCut : CutInto afterBlank cs pieces) :
    marksFrom 0 afterBlank cs =
      pieces.flatMap Piece.marks := by
  induction hCut with
  | done => rfl
  | @comment afterBlank closed comment rest pieces hStarts _ ih =>
      have hFound :=
        opening?_eq_some_iff.mpr
          ⟨comment, rest, rfl, rfl, hStarts⟩
      cases comment with
      | nil => exact absurd rfl hStarts.ne_nil
      | cons c comment =>
          rw [List.cons_append] at hFound ⊢
          simp only [marksFrom, hFound, List.length_cons,
            Nat.add_sub_cancel, marksFrom_inside, ih,
            List.flatMap_cons, Piece.marks, List.map_cons,
            List.cons_append]
  | @plain afterBlank c cs pieces hNone _ ih =>
      have hFound := opening?_eq_none_iff.mpr hNone
      simp only [marksFrom, hFound, ih, List.flatMap_cons,
        Piece.marks, List.singleton_append]

/- Only the same comment starts a text. -/
theorem Starts.unique
    {comment' rest' : List Char}
    {closed' : Bool}
    (hStarts : Starts afterBlank comment rest closed)
    (hOther : Starts afterBlank comment' rest' closed')
    (hText : comment ++ rest = comment' ++ rest') :
    comment' = comment ∧ rest' = rest ∧ closed' = closed := by
  have hFound :=
    opening?_eq_some_iff.mpr ⟨comment, rest, rfl, rfl, hStarts⟩
  have hFound' :=
    opening?_eq_some_iff.mpr
      ⟨comment', rest', rfl, rfl, hOther⟩
  rw [hText, hFound', Option.some.injEq, Prod.mk.injEq]
    at hFound
  rcases List.append_inj hText hFound.1.symm with
    ⟨hComment, hRest⟩
  exact ⟨hComment.symm, hRest.symm, hFound.2⟩

/- A text is cut in one way only. -/
theorem CutInto.unique
    {others : List Piece}
    (hCut : CutInto afterBlank cs pieces)
    (hOther : CutInto afterBlank cs others) :
    others = pieces := by
  induction hCut generalizing others with
  | done =>
      have hLength := hOther.length_le
      exact List.length_eq_zero_iff.mp (Nat.le_zero.mp hLength)
  | @comment afterBlank closed comment rest pieces hStarts _ ih =>
      generalize hText : comment ++ rest = cs at hOther
      cases hOther with
      | done =>
          exact
            absurd (List.append_eq_nil_iff.mp hText).1
              hStarts.ne_nil
      | comment hStarts' hRest =>
          rcases hStarts.unique hStarts' hText with
            ⟨rfl, rfl, rfl⟩
          rw [ih hRest]
      | plain hNone _ =>
          exact absurd hStarts (hNone _ _ _ hText.symm)
  | @plain afterBlank c cs pieces hNone _ ih =>
      generalize hText : c :: cs = text at hOther
      cases hOther with
      | done => cases hText
      | comment hStarts _ =>
          exact absurd hStarts (hNone _ _ _ hText)
      | plain _ hRest =>
          cases hText
          rw [ih hRest]

------------------------------------------------------------
-- What Blanking Leaves
------------------------------------------------------------

/- What is left of a character has the bytes that it had. -/
theorem byteSize_shown (m : Char × Bool) :
    Text.byteSize (shown m) = m.1.utf8Size := by
  have hSpaces : ∀ n,
      Text.byteSize (List.replicate n ' ') = n := by
    intro n
    induction n with
    | zero => rfl
    | succ n ih =>
        have hSpace : ' '.utf8Size = 1 := rfl
        rw [List.replicate_succ, Text.byteSize_cons, ih, hSpace,
          Nat.add_comm]
  rcases m with ⟨c, inside⟩
  cases inside with
  | false => simp [shown]
  | true =>
      by_cases hFeed : c = '\n'
      · simp [shown, blankOf, hFeed]
      · simp [shown, blankOf, hFeed, hSpaces]

/- What is left of a text has the bytes that it had. -/
theorem byteSize_flatMap_shown (marked : List (Char × Bool)) :
    Text.byteSize (marked.flatMap shown) =
      Text.byteSize (marked.map Prod.fst) := by
  induction marked with
  | nil => rfl
  | cons m marked ih =>
      rw [List.flatMap_cons, Text.byteSize_append,
        byteSize_shown, ih, List.map_cons, Text.byteSize_cons]

/- The pieces before a character take the bytes before it. -/
theorem byteSize_marks (pieces : List Piece) :
    Text.byteSize
        ((pieces.flatMap Piece.marks).map Prod.fst) =
      Text.byteSize (pieces.flatMap Piece.text) := by
  rw [List.map_flatMap]
  simp only [Piece.marks_fst]

/- What stands in lists in a row stands in one of them. -/
theorem split_flatMap
    {α β : Type}
    {f : α → List β}
    {items : List α}
    {before after : List β}
    {c : β}
    (hText : items.flatMap f = before ++ c :: after) :
    ∃ first item rest left right,
      items = first ++ item :: rest ∧
        f item = left ++ c :: right ∧
          before = first.flatMap f ++ left := by
  induction items generalizing before with
  | nil => simp at hText
  | cons item items ih =>
      rw [List.flatMap_cons] at hText
      rcases List.append_eq_append_iff.mp hText with
        ⟨later, rfl, hRest⟩ | ⟨later, hHere, hRest⟩
      · rcases ih hRest with
          ⟨first, found, rest, left, right, rfl, hFound, rfl⟩
        exact
          ⟨item :: first, found, rest, left, right, rfl, hFound,
            by simp⟩
      · cases later with
        | nil =>
            rw [List.append_nil] at hHere
            have hStart :
                items.flatMap f = [] ++ c :: after :=
              hRest.symm
            rcases ih hStart with
              ⟨first, found, rest, left, right, rfl, hFound,
                hNone⟩
            exact
              ⟨item :: first, found, rest, left, right, rfl,
                hFound, by
                rw [List.flatMap_cons, List.append_assoc,
                  ← hNone, List.append_nil, hHere]⟩
        | cons d later =>
            rw [List.cons_append, List.cons.injEq] at hRest
            rcases hRest with ⟨rfl, _⟩
            exact ⟨[], item, items, before, later, rfl, hHere, rfl⟩

/-
  A character of what is left is left of a character at its
  place: of itself outside of comments, of a line feed, or it
  is a space.
-/
theorem standsAt_shown
    {marked : List (Char × Bool)}
    {c : Char}
    {offset : Nat}
    (hStands : Text.StandsAt c offset (marked.flatMap shown)) :
    (∃ first rest inside,
        marked = first ++ (c, inside) :: rest ∧
          (inside = false ∨ c = '\n') ∧
          Text.byteSize (first.map Prod.fst) = offset) ∨
      c = ' ' := by
  rcases hStands with ⟨before, after, hText, rfl⟩
  rcases split_flatMap hText with
    ⟨first, ⟨d, inside⟩, rest, left, right, rfl, hHere, rfl⟩
  by_cases hKind : inside = false ∨ d = '\n'
  · have hOne : shown (d, inside) = [d] := by
      rcases hKind with rfl | rfl
      · rfl
      · cases inside <;> rfl
    rw [hOne] at hHere
    cases left with
    | nil =>
        cases hHere
        refine .inl ⟨first, rest, inside, rfl, hKind, ?_⟩
        rw [List.append_nil, byteSize_flatMap_shown]
    | cons b left => simp at hHere
  · rw [not_or, Bool.not_eq_false] at hKind
    rcases hKind with ⟨rfl, hFeed⟩
    have hMem : c ∈ shown (d, true) := by
      rw [hHere]
      simp
    rw [shown, blankOf, if_neg hFeed] at hMem
    exact .inr (List.eq_of_mem_replicate hMem)

/- A line feed is left where it was. -/
theorem standsAt_feed
    {marked : List (Char × Bool)}
    {offset : Nat} :
    Text.StandsAt '\n' offset (marked.flatMap shown) ↔
      Text.StandsAt '\n' offset (marked.map Prod.fst) := by
  constructor
  · intro hStands
    rcases standsAt_shown hStands with
      ⟨first, rest, inside, rfl, _, hSize⟩ | hSpace
    · exact
        ⟨first.map Prod.fst, rest.map Prod.fst, by simp, hSize⟩
    · exact absurd hSpace (by decide)
  · rintro ⟨before, after, hText, rfl⟩
    rcases List.map_eq_append_iff.mp hText with
      ⟨first, later, rfl, rfl, hLater⟩
    rcases List.map_eq_cons_iff.mp hLater with
      ⟨⟨c, inside⟩, rest, rfl, rfl, rfl⟩
    refine
      ⟨first.flatMap shown, rest.flatMap shown, ?_,
        byteSize_flatMap_shown first⟩
    cases inside <;> simp [shown, blankOf]

/- A marked character outside of comments is a piece. -/
theorem outside_of_marks
    {first rest : List (Char × Bool)}
    {c : Char}
    (hMarks :
      pieces.flatMap Piece.marks = first ++ (c, false) :: rest) :
    Outside pieces c (Text.byteSize (first.map Prod.fst)) := by
  rcases split_flatMap hMarks with
    ⟨before, piece, after, left, right, rfl, hHere, rfl⟩
  cases piece with
  | plain d =>
      cases left with
      | nil =>
          cases hHere
          refine ⟨before, after, rfl, ?_⟩
          rw [List.append_nil, byteSize_marks]
      | cons m left => simp [Piece.marks] at hHere
  | comment text closed =>
      have hMem : (c, false) ∈ text.map (·, true) := by
        rw [show text.map (·, true) = _ from hHere]
        simp
      simp at hMem

/-
  Blanking keeps line feeds and what is outside of comments in
  their places, and leaves spaces of the rest.
-/
theorem shown_blanked
    (hCut : CutInto afterBlank cs pieces) :
    Blanked pieces cs
      ((marksFrom 0 afterBlank cs).flatMap shown) where
  size := by
    rw [byteSize_flatMap_shown, marksFrom_fst]
  feeds := by
    intro offset
    rw [standsAt_feed, marksFrom_fst]
  kept := by
    rintro c offset ⟨before, after, rfl, rfl⟩
    constructor
    · refine
        ⟨before.flatMap Piece.text,
          after.flatMap Piece.text, ?_, rfl⟩
      rw [← hCut.text_eq]
      simp [Piece.text]
    · refine
        ⟨(before.flatMap Piece.marks).flatMap shown,
          (after.flatMap Piece.marks).flatMap shown, ?_, ?_⟩
      · rw [hCut.marks]
        simp [Piece.marks, shown]
      · rw [byteSize_flatMap_shown, byteSize_marks]
  spaces := by
    intro c offset hStands
    rcases standsAt_shown hStands with
      ⟨first, rest, inside, hMarks, hKind, rfl⟩ | hSpace
    · rcases hKind with rfl | hFeed
      · rw [hCut.marks] at hMarks
        exact .inl (outside_of_marks hMarks)
      · exact .inr (.inl hFeed)
    · exact .inr (.inr hSpace)

------------------------------------------------------------
-- Blanking Twice
------------------------------------------------------------

/- What is left of a comment is spaces and line feeds. -/
theorem shown_inside (c : Char) :
    shown (c, true) ≠ [] ∧
      ∀ d ∈ shown (c, true), d = ' ' ∨ d = '\n' := by
  by_cases hFeed : c = '\n'
  · simp [shown, blankOf, hFeed]
  · have hSize := c.utf8Size_pos
    rw [shown, blankOf, if_neg hFeed]
    constructor
    · simpa using Nat.ne_of_gt hSize
    · intro d hd
      exact .inl (List.eq_of_mem_replicate hd)

/-
  What starts the text that is left starts the text itself, if
  there is no space and no line feed in it.
-/
theorem prefix_of_shown
    {lead : List Char}
    (hLead : ∀ c ∈ lead, c ≠ ' ' ∧ c ≠ '\n')
    {marked : List (Char × Bool)}
    (hPrefix : lead <+: marked.flatMap shown) :
    lead <+: marked.map Prod.fst := by
  induction lead generalizing marked with
  | nil => exact List.nil_prefix
  | cons p lead ih =>
      rcases List.forall_mem_cons.mp hLead with
        ⟨⟨hSpace, hFeed⟩, hMore⟩
      cases marked with
      | nil => simp at hPrefix
      | cons m marked =>
          rcases m with ⟨c, inside⟩
          rw [List.flatMap_cons] at hPrefix
          cases inside with
          | false =>
              rw [shown, List.singleton_append,
                List.cons_prefix_cons] at hPrefix
              rw [List.map_cons, List.cons_prefix_cons]
              exact ⟨hPrefix.1, ih hMore hPrefix.2⟩
          | true =>
              rcases shown_inside c with ⟨hSome, hBlanks⟩
              cases hShown : shown (c, true) with
              | nil => exact absurd hShown hSome
              | cons d left =>
                  rw [hShown, List.cons_append,
                    List.cons_prefix_cons] at hPrefix
                  have hBlank :=
                    hBlanks d (hShown ▸ List.mem_cons_self)
                  rw [← hPrefix.1] at hBlank
                  exact (hBlank.elim hSpace hFeed).elim

/- A comment starts with one of three openings. -/
theorem opening?_none_iff_leads :
    opening? afterBlank cs = none ↔
      ¬ ['/', '*'] <+: cs ∧ ¬ ['<', '!', '-', '-'] <+: cs ∧
        ¬ (['/', '/'] <+: cs ∧ afterBlank = true) := by
  have hStrip : ∀ lead,
      (∃ body, Text.stripPrefix? lead cs = some body) ↔
        lead <+: cs := by
    intro lead
    rw [← Text.startsWith_iff, Text.startsWith,
      Option.isSome_iff_exists]
  rw [opening?_eq, ← hStrip ['/', '*'],
    ← hStrip ['<', '!', '-', '-'], ← Text.startsWith_iff]
  cases Text.stripPrefix? ['/', '*'] cs with
  | some body => simp
  | none =>
      cases Text.stripPrefix? ['<', '!', '-', '-'] cs with
      | some body => simp
      | none => simp

/- Where no comment starts none does in what is left. -/
theorem opening?_shown
    (marked : List (Char × Bool))
    (hNone :
      opening? afterBlank (marked.map Prod.fst) = none) :
    opening? afterBlank (marked.flatMap shown) = none := by
  rw [opening?_none_iff_leads] at hNone ⊢
  rcases hNone with ⟨hSlash, hAngle, hLine⟩
  refine ⟨?_, ?_, ?_⟩
  · exact fun hHere => hSlash (prefix_of_shown (by simp) hHere)
  · exact fun hHere => hAngle (prefix_of_shown (by simp) hHere)
  · exact fun hHere =>
      hLine ⟨prefix_of_shown (by simp) hHere.1, hHere.2⟩

/- Spaces and line feeds are passed, and are blanks. -/
theorem blankFrom_blanks
    {blanks : List Char}
    (hBlanks : ∀ c ∈ blanks, c = ' ' ∨ c = '\n')
    (hSome : blanks ≠ [])
    (afterBlank : Bool)
    (p : Position)
    (cs : List Char) :
    blankFrom 0 afterBlank p (blanks ++ cs) =
      (blanks ++ (blankFrom 0 true (p.advanceBy blanks) cs).1,
        (blankFrom 0 true (p.advanceBy blanks) cs).2) := by
  induction blanks generalizing afterBlank p with
  | nil => exact absurd rfl hSome
  | cons c blanks ih =>
      rcases List.forall_mem_cons.mp hBlanks with
        ⟨hHere, hMore⟩
      have hStep : blankFrom 0 afterBlank p (c :: (blanks ++ cs)) =
          (c :: (blankFrom 0 true (p.advance c)
            (blanks ++ cs)).1,
            (blankFrom 0 true (p.advance c)
              (blanks ++ cs)).2) := by
        rcases hHere with rfl | rfl <;> rfl
      rw [List.cons_append, hStep]
      cases blanks with
      | nil => rfl
      | cons d blanks =>
          rw [ih hMore (List.cons_ne_nil d blanks)]
          rfl

/- Nothing of what is left is a comment. -/
theorem blankFrom_shown
    (inside : Nat)
    (afterBlank : Bool)
    (p : Position)
    (cs : List Char) :
    blankFrom 0 afterBlank p
        ((marksFrom inside afterBlank cs).flatMap shown) =
      ((marksFrom inside afterBlank cs).flatMap shown, []) := by
  induction cs generalizing inside afterBlank p with
  | nil => cases inside <;> rfl
  | cons c cs ih =>
      -- what is left of a character in a comment is blank
      have hInside : ∀ more,
          blankFrom 0 afterBlank p
              (shown (c, true)
                ++ (marksFrom more true cs).flatMap shown) =
            (shown (c, true)
              ++ (marksFrom more true cs).flatMap shown, []) := by
        intro more
        rcases shown_inside c with ⟨hSome, hBlanks⟩
        rw [blankFrom_blanks hBlanks hSome, ih more true]
      cases inside with
      | succ inside => exact hInside inside
      | zero =>
          cases hFound : opening? afterBlank (c :: cs) with
          | some found =>
              simp only [marksFrom, hFound]
              exact hInside (found.1 - 1)
          | none =>
              have hText :
                  ((c, false) :: marksFrom 0 (Text.isBlank c)
                    cs).map Prod.fst = c :: cs := by
                rw [List.map_cons, marksFrom_fst]
              have hNone := opening?_shown _ (hText ▸ hFound)
              simp only [List.flatMap_cons, shown,
                List.singleton_append] at hNone
              simp only [marksFrom, hFound, List.flatMap_cons,
                shown, List.singleton_append, blankFrom, hNone,
                ih]

/-
  Blanking comments.  The text is cut into pieces in one way,
  one round of blanking for each, and each round takes some
  characters.  Line feeds and what is outside of comments keep
  their places, all else becomes spaces, and blanking again
  changes nothing and finds no fault.
-/
theorem blank_blanked (cs : List Char) :
    ∃ pieces, CutInto true cs pieces ∧
      (∀ others, CutInto true cs others → others = pieces) ∧
      pieces.flatMap Piece.text = cs ∧
      pieces.length ≤ cs.length ∧
      Blanked pieces cs (blank cs).1 ∧
      blank (blank cs).1 = ((blank cs).1, []) := by
  rcases exists_cutInto true cs with ⟨pieces, hCut⟩
  rw [blank_eq]
  exact
    ⟨pieces, hCut, fun _ hOther => hCut.unique hOther,
      hCut.text_eq, hCut.length_le, shown_blanked hCut,
      blankFrom_shown 0 true Position.start cs⟩

end Comment

end Dialectic
