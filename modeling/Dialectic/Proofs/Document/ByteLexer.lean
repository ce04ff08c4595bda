import Dialectic.Proofs.Document.Blanking
import Dialectic.Proofs.Document.ByteLines

/-
  Splitting a text into tokens with all places in it given by
  numbers of bytes.  This blanks its comments, finds its front
  matter, and goes through its lines.  It never fails, and the
  tokens and faults are those of the lexer.

  Key definitions include:
    * `ByteLexer.frontMatter?`
    * `ByteLexer.blank?`
    * `ByteLexer.lex?`

  Main theorems:
    * `ByteLexer.blank?_eq`
    * `ByteLexer.frontMatter?_eq`
    * `ByteLexer.lex?_eq`
    * `ByteLexer.lex?_shape`
-/

namespace Dialectic

namespace ByteLexer

------------------------------------------------------------
-- Comments
------------------------------------------------------------

/- The openings of comments of several lines, and closings. -/
def enclosing? (rest : List Char) :
    Option (List Char × List Char) :=
  if Text.startsWith ['/', '*'] rest then
    some (['/', '*'], ['*', '/'])
  else if Text.startsWith ['<', '!', '-', '-'] rest then
    some (['<', '!', '-', '-'], ['-', '-', '>'])
  else
    none

/- The bytes of the comment that starts here; none without it. -/
def comment?
    (previous : Option Char)
    (position : Position)
    (rest : List Char) : Option (Nat × List SyntaxFault) :=
  match enclosing? rest with
  | some (opening, closing) => do
      let body ←
        Text.dropBytes? (Text.byteSize opening) rest
      match Text.findBytes? closing body with
      | some bytes =>
          some
            ( Text.byteSize opening + bytes
                + Text.byteSize closing,
              [] )
      | none =>
          some
            ( Text.byteSize rest,
              [⟨.unterminatedComment, position⟩] )
  | none =>
      if Text.startsWith ['/', '/'] rest
          && previous.all Text.isBlank then
        some
          ( (Text.findCharBytes? '\n' rest).getD
              (Text.byteSize rest),
            [] )
      else
        some (0, [])

/-
  Blank the comments of a text from a place on.  Each round
  takes some bytes, so `fuel` is enough if it is larger than
  their number.
-/
def blankFrom? (cs : List Char) :
    (fuel index : Nat) →
    (previous : Option Char) →
    Position →
    Option (List Char × List SyntaxFault)
| 0, _, _, _ => none
| fuel + 1, index, previous, position =>
    if Text.byteSize cs ≤ index then
      some ([], [])
    else do
      let rest ← Text.dropBytes? index cs
      let (bytes, faults) ← comment? previous position rest
      if 0 < bytes then do
        let comment ← Text.slice? 0 bytes rest
        let (out, later) ←
          blankFrom? cs fuel (index + bytes) (some ' ')
            (position.advanceBy comment)
        some (comment.flatMap Comment.blankOf ++ out,
          faults ++ later)
      else
        match rest with
        | [] => some ([], faults)
        | c :: _ => do
            let (out, later) ←
              blankFrom? cs fuel (index + c.utf8Size) (some c)
                (position.advance c)
            some (c :: out, faults ++ later)

/- Blank all comments of a text. -/
def blank? (cs : List Char) :
    Option (List Char × List SyntaxFault) :=
  blankFrom? cs (Text.byteSize cs + 1) 0 none Position.start

------------------------------------------------------------
-- Front Matter
------------------------------------------------------------

/- The items between two indices. -/
def items? {α : Type} (first last : Nat) (as : List α) :
    Option (List α) :=
  if first ≤ last ∧ last ≤ as.length then
    some ((as.take last).drop first)
  else
    none

/- The front matter, and the number of lines that it takes. -/
def frontMatter? (lines : List SourceLine) :
    Option
      (Option (Lexer.FrontMatter × Nat × List SyntaxFault)) :=
  match lines.findIdx? (fun l => !l.isBlank) with
  | none => some none
  | some first => do
      let opened ← lines[first]?
      if opened.isFence then do
        let below ← items? (first + 1) lines.length lines
        let closing :=
          (below.findIdx? SourceLine.isFence).map
            (first + 1 + ·)
        let last := closing.getD lines.length
        let inner ← items? (first + 1) last lines
        some
          (some
            ( ⟨String.ofList
                (Lexer.joinLines (inner.map SourceLine.text)),
                opened.start⟩,
              min (last + 1) lines.length,
              if closing.isSome then []
              else [⟨.unterminatedFrontMatter, opened.start⟩] ))
      else
        some none

------------------------------------------------------------
-- Documents
------------------------------------------------------------

/-
  The token of the front matter, the number of lines that it
  takes, and its faults.
-/
def opened
    (front : Option (Lexer.FrontMatter × Nat × List SyntaxFault)) :
    List Token × Nat × List SyntaxFault :=
  match front with
  | some (found, taken, faults) =>
      ([⟨.frontMatter found.content, found.position⟩], taken,
        faults)
  | none => ([], 0, [])

/- The tokens of a text, and its faults. -/
def lex? (input : String) :
    Option (List Token × List SyntaxFault) := do
  let cs := input.toList
  let (text, commentFaults) ← blank? cs
  let lines := SourceLine.ofText text
  let front ← frontMatter? lines
  let (first, taken, frontFaults) := opened front
  let rest ← items? taken lines.length lines
  let scanned ← rest.mapM line?
  some
    ( first ++ scanned.flatMap Prod.fst
        ++ [⟨.documentEnd, Position.ofEnd cs⟩],
      commentFaults ++ frontFaults
        ++ scanned.flatMap Prod.snd )

------------------------------------------------------------
-- Comments in Bytes
------------------------------------------------------------

variable {previous : Option Char}
variable {closed : Bool}
variable {comment rest : List Char}

/- What encloses a comment is found at its start. -/
theorem enclosing?_eq
    {opening closing : List Char}
    (hKind : Comment.Encloses opening closing)
    (body : List Char) :
    enclosing? (opening ++ body) = some (opening, closing) := by
  cases hKind <;> rfl

/- A comment is passed as a whole. -/
theorem comment?_starts
    (hStarts :
      Comment.Starts (previous.all Text.isBlank) comment rest
        closed)
    (position : Position) :
    comment? previous position (comment ++ rest) =
      some
        (Text.byteSize comment,
          if closed then []
          else [⟨.unterminatedComment, position⟩]) := by
  generalize hBlank : previous.all Text.isBlank = afterBlank
    at hStarts
  cases hStarts with
  | @line body _ hBody hRest =>
      have hFeed : '\n' ∉ '/' :: '/' :: body := by
        simpa using hBody
      have hBytes :
          (Text.findCharBytes? '\n'
              ('/' :: '/' :: body ++ rest)).getD
            (Text.byteSize ('/' :: '/' :: body ++ rest)) =
              Text.byteSize ('/' :: '/' :: body) := by
        rcases hRest with rfl | hHead
        · rw [List.append_nil, Text.findCharBytes?_eq_none hFeed]
          rfl
        · rcases List.head?_eq_some_iff.mp hHead with
            ⟨after, rfl⟩
          rw [Text.findCharBytes?_append hFeed]
          rfl
      have hNone :
          enclosing? ('/' :: '/' :: body ++ rest) = none := rfl
      have hSlashes :
          Text.startsWith ['/', '/']
            ('/' :: '/' :: body ++ rest) = true := rfl
      unfold comment?
      rw [hNone, hSlashes, hBlank, hBytes]
      rfl
  | @closed _ opening closing body hKind hFirst =>
      have hFound :
          Text.find? closing (body ++ closing ++ rest) =
            some body.length :=
        (Text.find?_eq_some_iff hKind.closing_ne_nil).mpr
          ⟨body, rest, rfl, rfl, hFirst⟩
      have hBytes :
          Text.findBytes? closing (body ++ closing ++ rest) =
            some (Text.byteSize body) := by
        rw [Text.findBytes?, hFound, Option.map_some,
          List.append_assoc, List.take_left]
      have hText : opening ++ body ++ closing ++ rest =
          opening ++ (body ++ closing ++ rest) := by
        simp only [List.append_assoc]
      unfold comment?
      rw [hText, enclosing?_eq hKind]
      simp only [Text.dropBytes?_append, Option.bind_eq_bind,
        Option.bind_some, hBytes, Text.byteSize_append, if_true]
  | @unclosed _ opening closing body hKind hNone =>
      have hFound : Text.find? closing body = none :=
        (Text.find?_eq_none_iff hKind.closing_ne_nil).mpr hNone
      unfold comment?
      rw [List.append_nil, enclosing?_eq hKind]
      simp only [Text.dropBytes?_append, Option.bind_eq_bind,
        Option.bind_some, Text.findBytes?, hFound,
        Option.map_none]
      rfl

/- Nothing is passed where no comment starts. -/
theorem comment?_none
    (hNone :
      Comment.opening? (previous.all Text.isBlank) rest = none)
    (position : Position) :
    comment? previous position rest = some (0, []) := by
  rcases Comment.opening?_none_iff_leads.mp hNone with
    ⟨hSlash, hAngle, hLine⟩
  rw [← Text.startsWith_iff] at hSlash hAngle hLine
  unfold comment? enclosing?
  rw [if_neg hSlash, if_neg hAngle]
  refine if_neg ?_
  rw [Bool.and_eq_true]
  exact hLine

/- The rest of a comment is blanked to its end. -/
theorem blankFrom_inside
    (position : Position)
    (comment rest : List Char) :
    Comment.blankFrom comment.length true position
        (comment ++ rest) =
      let later :=
        Comment.blankFrom 0 true (position.advanceBy comment)
          rest
      (comment.flatMap Comment.blankOf ++ later.1, later.2) := by
  induction comment generalizing position with
  | nil => rfl
  | cons c comment ih =>
      rw [List.length_cons, List.cons_append, Comment.blankFrom,
        ih]
      simp only [List.flatMap_cons, List.append_assoc,
        Position.advanceBy_cons]

/- A comment is blanked as a whole. -/
theorem blankFrom_starts
    {afterBlank : Bool}
    (hStarts : Comment.Starts afterBlank comment rest closed)
    (position : Position) :
    Comment.blankFrom 0 afterBlank position (comment ++ rest) =
      let later :=
        Comment.blankFrom 0 true (position.advanceBy comment)
          rest
      ( comment.flatMap Comment.blankOf ++ later.1,
        (if closed then []
          else [⟨.unterminatedComment, position⟩])
          ++ later.2 ) := by
  have hFound :=
    Comment.opening?_eq_some_iff.mpr
      ⟨comment, rest, rfl, rfl, hStarts⟩
  cases comment with
  | nil => exact absurd rfl hStarts.ne_nil
  | cons c comment =>
      rw [List.cons_append] at hFound ⊢
      simp only [Comment.blankFrom, hFound, List.length_cons,
        Nat.add_sub_cancel, blankFrom_inside, List.flatMap_cons,
        List.append_assoc, Position.advanceBy_cons]
      cases closed <;> rfl

/- The comments of the rest of a text are blanked in bytes. -/
theorem blankFrom?_eq
    {fuel : Nat}
    (hFuel : rest.length < fuel)
    (before : List Char)
    (previous : Option Char)
    (position : Position) :
    blankFrom? (before ++ rest) fuel (Text.byteSize before)
        previous position =
      some
        (Comment.blankFrom 0 (previous.all Text.isBlank)
          position rest) := by
  induction fuel generalizing before rest previous position with
  | zero => exact absurd hFuel (Nat.not_lt_zero _)
  | succ fuel ih =>
      unfold blankFrom?
      split
      · next hEnd =>
          rw [Text.byteSize_append] at hEnd
          have hNil : rest = [] :=
            Text.eq_nil_of_byteSize (by omega)
          rw [hNil]
          rfl
      · rw [Text.dropBytes?_append]
        simp only [Option.bind_eq_bind, Option.bind_some]
        cases hFound :
            Comment.opening? (previous.all Text.isBlank) rest with
        | some found =>
            rcases Comment.starts_of_opening? hFound with
              ⟨comment, later, rfl, _, hStarts⟩
            have hSome := List.length_pos_iff.mpr hStarts.ne_nil
            have hBytes := Text.length_le_byteSize comment
            have hPart :
                Text.slice? 0 (Text.byteSize comment)
                    (comment ++ later) =
                  some comment :=
              Text.slice?_eq_some_iff.mpr
                ⟨[], later, rfl, rfl, Nat.zero_add _⟩
            have hShort : later.length < fuel := by
              rw [List.length_append] at hFuel
              omega
            have hLater :=
              ih hShort (before ++ comment) (some ' ')
                (position.advanceBy comment)
            rw [List.append_assoc, Text.byteSize_append]
              at hLater
            rw [comment?_starts hStarts, blankFrom_starts hStarts]
            simp only [Option.bind_some, hPart, hLater,
              if_pos (Nat.lt_of_lt_of_le hSome hBytes)]
            rfl
        | none =>
            rw [comment?_none hFound]
            cases rest with
            | nil => rfl
            | cons c rest =>
                have hLater :=
                  ih (Nat.lt_of_succ_lt_succ hFuel)
                    (before ++ [c]) (some c)
                    (position.advance c)
                rw [List.append_assoc, Text.byteSize_append,
                  Text.byteSize_cons, Text.byteSize_nil,
                  List.singleton_append] at hLater
                unfold Comment.blankFrom
                simp only [Option.bind_some, Nat.lt_irrefl,
                  if_false, hFound]
                rw [Nat.add_zero] at hLater
                rw [hLater]
                rfl

/- The comments of a text are blanked in bytes. -/
theorem blank?_eq (cs : List Char) :
    blank? cs = some (Comment.blank cs) := by
  have hFuel : cs.length < Text.byteSize cs + 1 :=
    Nat.lt_succ_of_le (Text.length_le_byteSize cs)
  exact blankFrom?_eq hFuel [] none Position.start

------------------------------------------------------------
-- Front Matter in Indices
------------------------------------------------------------

/- The items between those before and those after them. -/
theorem items?_append
    {α : Type}
    (before part after : List α) :
    items? before.length (before ++ part).length
        (before ++ part ++ after) =
      some part := by
  have hBounds : before.length ≤ (before ++ part).length ∧
      (before ++ part).length ≤
        (before ++ part ++ after).length := by
    simp
  rw [items?, if_pos hBounds, List.take_left, List.drop_left]

/- The items from an index on. -/
theorem items?_rest
    {α : Type}
    (before part : List α) :
    items? before.length (before ++ part).length
        (before ++ part) =
      some part := by
  have hItems := items?_append before part []
  rwa [List.append_nil] at hItems

/- The first item of some kind comes after those of none. -/
theorem findIdx?_first
    {α : Type}
    {p : α → Bool}
    {before : List α}
    {first : α}
    (hBefore : ∀ a ∈ before, p a = false)
    (hFirst : p first = true)
    (after : List α) :
    (before ++ first :: after).findIdx? p =
      some before.length := by
  have hNone : before.findIdx? p = none :=
    List.findIdx?_eq_none_iff.mpr hBefore
  simp [List.findIdx?_append, hNone, List.findIdx?_cons, hFirst]

section FrontMatter

variable {blanks inner lines rest : List SourceLine}
variable {opening : SourceLine}
variable {front : Option Lexer.FrontMatter}
variable {faults : List SyntaxFault}

/- Front matter is read up to its closing fence. -/
theorem frontMatter?_between
    (hBlanks : ∀ line ∈ blanks, line.isBlank = true)
    (hFirst : opening.isBlank = false)
    (hOpening : opening.isFence = true)
    (hInner : ∀ line ∈ inner, line.isFence = false)
    (after : List SourceLine)
    (hClosing : ∀ closing ∈ after.head?,
      closing.isFence = true) :
    frontMatter? (blanks ++ opening :: inner ++ after) =
      some
        (some
          ( .between opening inner,
            (blanks ++ opening :: inner ++ after.take 1).length,
            if after = [] then
              [⟨.unterminatedFrontMatter, opening.start⟩]
            else [] )) := by
  have hIndex :
      (blanks ++ opening :: inner ++ after).findIdx?
          (fun l => !l.isBlank) =
        some blanks.length := by
    rw [List.append_assoc, List.cons_append]
    exact
      findIdx?_first (by simpa using hBlanks) (by simp [hFirst]) _
  have hLead : blanks ++ opening :: inner ++ after =
      (blanks ++ [opening]) ++ (inner ++ after) := by
    simp
  have hLength :
      blanks.length + 1 = (blanks ++ [opening]).length := by
    simp
  have hFound :
      (blanks ++ [opening]
        ++ (inner ++ after))[blanks.length]? =
        some opening := by
    simp
  unfold frontMatter?
  rw [hIndex, hLead]
  simp only [hFound, Option.bind_eq_bind, Option.bind_some,
    hOpening, if_true, hLength, items?_rest]
  cases after with
  | nil =>
      have hNone : inner.findIdx? SourceLine.isFence = none :=
        List.findIdx?_eq_none_iff.mpr hInner
      simp only [List.append_nil, hNone, Option.map_none,
        Option.getD_none, items?_rest, Option.bind_some]
      simp [Lexer.FrontMatter.between]
  | cons closing after =>
      have hNext :
          (inner ++ closing :: after).findIdx?
              SourceLine.isFence =
            some inner.length :=
        findIdx?_first hInner (hClosing closing rfl) after
      have hItems :
          items? (blanks ++ [opening]).length
              ((blanks ++ [opening]).length + inner.length)
              ((blanks ++ [opening])
                ++ (inner ++ closing :: after)) =
            some inner := by
        rw [← List.length_append, ← List.append_assoc]
        exact items?_append _ inner _
      have hTaken :
          min ((blanks ++ [opening]).length + inner.length + 1)
              (blanks ++ [opening]
                ++ (inner ++ closing :: after)).length =
            (blanks ++ opening :: inner
              ++ (closing :: after).take 1).length := by
        simp only [List.length_append, List.length_cons,
          List.length_nil, List.take_succ_cons, List.take_zero]
        omega
      simp only [hNext, Option.map_some, Option.getD_some, hItems,
        Option.bind_some, hTaken]
      rfl

/- There is none if the first line with content is no fence. -/
theorem frontMatter?_none
    (hNone : ∀ blanks first below,
      lines = blanks ++ first :: below →
        (∀ line ∈ blanks, line.isBlank = true) →
          first.isBlank = false → first.isFence = false) :
    frontMatter? lines = some none := by
  rcases Lexer.split_at_first SourceLine.isBlank lines with
    ⟨hBlanks, hLines, hMark⟩
  generalize lines.takeWhile SourceLine.isBlank = blanks
    at hBlanks hLines
  unfold frontMatter?
  cases hRest : lines.dropWhile SourceLine.isBlank with
  | nil =>
      rw [hRest, List.append_nil] at hLines
      have hIndex : lines.findIdx? (fun l => !l.isBlank) = none :=
        List.findIdx?_eq_none_iff.mpr
          (by simpa [hLines] using hBlanks)
      rw [hIndex]
  | cons first below =>
      rw [hRest] at hLines hMark
      have hFirst := hMark first rfl
      have hFence :=
        hNone blanks first below hLines hBlanks hFirst
      have hIndex : lines.findIdx? (fun l => !l.isBlank) =
          some blanks.length := by
        rw [hLines]
        exact
          findIdx?_first (by simpa using hBlanks)
            (by simp [hFirst]) below
      have hFound : lines[blanks.length]? = some first := by
        simp [hLines]
      rw [hIndex]
      simp [hFound, hFence]

/-
  The front matter in indices is that of the lexer, and the
  lines after it are those from an index on.
-/
theorem frontMatter?_eq
    (hFronted : Lexer.Fronted lines (front, rest, faults)) :
    ∃ found taken,
      frontMatter? lines = some found ∧
        opened found =
          ((front.map Lexer.FrontMatter.token).toList, taken,
            faults) ∧
        items? taken lines.length lines = some rest := by
  cases hFronted with
  | none hNone =>
      exact
        ⟨none, 0, frontMatter?_none hNone, rfl,
          items?_rest [] lines⟩
  | @closed blanks inner _ opening closing hBlanks hFirst
      hOpening hInner hClosing =>
      have hFound :=
        frontMatter?_between hBlanks hFirst hOpening hInner
          (closing :: rest) (by simpa using hClosing)
      have hLines :
          blanks ++ opening :: inner ++ closing :: rest =
            blanks ++ opening :: inner ++ [closing] ++ rest :=
        List.append_cons _ _ _
      refine ⟨_, _, hFound, rfl, ?_⟩
      rw [hLines]
      exact items?_rest _ rest
  | @unclosed blanks inner opening hBlanks hFirst hOpening
      hInner =>
      have hFound :=
        frontMatter?_between hBlanks hFirst hOpening hInner []
          (by simp)
      rw [List.append_nil] at hFound
      refine ⟨_, _, hFound, rfl, ?_⟩
      simpa using items?_rest (blanks ++ opening :: inner) []

end FrontMatter

------------------------------------------------------------
-- Documents in Bytes
------------------------------------------------------------

/- Each line has its tokens and faults in bytes. -/
theorem mapM_line?
    {sources : List SourceLine}
    (hFeed : ∀ source ∈ sources, '\n' ∉ source.text) :
    sources.mapM line? =
      some
        (sources.map
          (fun source =>
            ((Lexer.line source).1.stream,
              (Lexer.line source).2))) := by
  induction sources with
  | nil => rfl
  | cons source sources ih =>
      have hLater :=
        ih (fun s hs => hFeed s (List.mem_cons_of_mem source hs))
      rw [List.mapM_cons, hLater,
        line?_eq (hFeed source List.mem_cons_self)]
      rfl

/- A text has the same tokens and faults in bytes. -/
theorem lex?_eq (input : String) :
    lex? input =
      some
        ((Lexer.lex input).tokens,
          (Lexer.lex input).faults) := by
  have hFronted := Lexer.frontOf_fronted
    (SourceLine.ofText (Comment.blank input.toList).1)
  rcases hFront : Lexer.frontOf
      (SourceLine.ofText (Comment.blank input.toList).1) with
    ⟨front, rest, faults⟩
  rw [hFront] at hFronted
  rcases hFronted.below with ⟨skipped, hLines, _⟩
  rcases frontMatter?_eq hFronted with
    ⟨found, taken, hFound, hOpened, hRest⟩
  have hFeed : ∀ source ∈ rest, '\n' ∉ source.text :=
    fun source hSource =>
      SourceLine.ofText_noFeed _ source
        (hLines ▸ List.mem_append_right skipped hSource)
  have hFaults : (Lexer.lex input).faults =
      (Comment.blank input.toList).2 ++ faults
        ++ (Lexer.linesOf rest).2 := by
    rw [Lexer.lex_eq, hFront]
  rw [Lexer.lex_tokens hFront, hFaults]
  unfold lex?
  simp only [blank?_eq, hFound, hOpened, hRest, mapM_line? hFeed,
    Option.bind_eq_bind, Option.bind_some]
  simp only [Lexer.streams, Lexer.linesOf, List.flatMap_def,
    List.map_map]
  rfl

/-
  The shape of the tokens of a text.  After its comments are
  blanked, the text is divided into lines.  The token of the
  front matter comes first, if there is some, and then those of
  each line after it, in order.  The last token stands at the
  end of the text.  The offsets never decrease, and no part of
  the text that is asked for in bytes is out of range or starts
  or ends within a character.
-/
theorem lex?_shape (input : String) :
    ∃ lines front rest faults groups stop,
      SourceLine.Divide (Comment.blank input.toList).1 lines ∧
      Lexer.Fronted lines (front, rest, faults) ∧
      List.Forall₂ Lexer.LineTokens rest groups ∧
      stop.offset = Text.byteSize input.toList ∧
      (Lexer.lex input).tokens =
        (front.map Lexer.FrontMatter.token).toList
          ++ groups.flatten ++ [⟨.documentEnd, stop⟩] ∧
      (Lexer.lex input).tokens.Pairwise
        (fun s t => s.position.offset ≤ t.position.offset) ∧
      lex? input =
        some
          ((Lexer.lex input).tokens,
            (Lexer.lex input).faults) := by
  have hFronted := Lexer.frontOf_fronted
    (SourceLine.ofText (Comment.blank input.toList).1)
  rcases hFront : Lexer.frontOf
      (SourceLine.ofText (Comment.blank input.toList).1) with
    ⟨front, rest, faults⟩
  rw [hFront] at hFronted
  rcases hFronted.below with ⟨skipped, hLines, _⟩
  have hShapes :
      List.Forall₂ Lexer.LineTokens rest
        (Lexer.streams rest) := by
    refine List.forall₂_map_right_iff.mpr
      (List.forall₂_same.mpr ?_)
    intro source hSource
    have hLine : source ∈
        SourceLine.ofText (Comment.blank input.toList).1 :=
      hLines ▸ List.mem_append_right skipped hSource
    exact
      Lexer.line_tokens (SourceLine.ofText_noFeed _ source hLine)
  exact
    ⟨_, front, rest, faults, Lexer.streams rest, _,
      SourceLine.ofText_divide _, hFronted, hShapes,
      Position.ofEnd_offset _, Lexer.lex_tokens hFront,
      Lexer.lex_pairwise input, lex?_eq input⟩

end ByteLexer

end Dialectic
