import Dialectic.Document.Lexer
import Dialectic.Proofs.Document.Positions
import Dialectic.Proofs.Text.Slicing
import Dialectic.Proofs.Text.Squeezing

/-
  What starts a line or stands in it, measured in bytes.  Each
  part of the text is given by numbers of bytes, and there may
  be no such part.  In fact there always is, and it is the one
  that is found by counting characters.

  Key definitions include:
    * `ByteLexer.opening?`
    * `ByteLexer.head?`
    * `ByteLexer.item?`
    * `ByteLexer.measured`

  Main theorems:
    * `ByteLexer.opening?_eq`
    * `ByteLexer.head?_eq`
    * `ByteLexer.item?_eq`
-/

namespace Dialectic

namespace ByteLexer

------------------------------------------------------------
-- Line Openings
------------------------------------------------------------

/- The level of a heading is a number of bytes, too. -/
def heading? (rest : List Char) :
    Option (Option (TokenKind × Nat)) :=
  if Text.startsWith ['#'] rest then do
    let level := (rest.takeWhile (· == '#')).length
    let after ← Text.dropBytes? level rest
    if level ≤ Lexer.deepestHeading && Text.atBreak after then
      some (some (.heading level, level))
    else
      some none
  else
    some none

/- An inference takes all bytes of its line. -/
def inference? (rest : List Char) : Option (TokenKind × Nat) :=
  (Lexer.inference? rest).map
    (fun found => (found.1, Text.byteSize rest))

/- A marker takes the bytes of its symbol. -/
def relation? (rest : List Char) : Option (TokenKind × Nat) :=
  (Marker.inMatchingOrder.find?
    (Lexer.opensWith · rest)).map (fun marker =>
      (.relation marker, Text.byteSize marker.symbol.toList))

/- A number takes its bytes and those of two parentheses. -/
def step? (rest : List Char) :
    Option (Option (TokenKind × Nat)) :=
  match Text.stripPrefix? ['('] rest with
  | none => some none
  | some after => do
      let digits := after.takeWhile Text.isDigit
      let number := Text.decimalValue digits
      let closing ←
        Text.dropBytes? (Text.byteSize digits) after
      match Text.stripPrefix? [')'] closing with
      | none => some none
      | some beyond =>
          if !digits.isEmpty && Text.atBreak beyond
              && number < Lexer.stepBound then
            some
              (some (.step number, Text.byteSize digits + 2))
          else
            some none

/- The number of digits of a list item is one of bytes, too. -/
def bullet? (rest : List Char) :
    Option (Option (TokenKind × Nat)) :=
  let digits := (rest.takeWhile Text.isDigit).length
  if Text.startsWith ['*', ' '] rest then
    some (some (.bullet, 1))
  else if 0 < digits then do
    let after ← Text.dropBytes? digits rest
    if Text.startsWith ['.', ' '] after then
      some (some (.bullet, digits + 1))
    else
      some none
  else
    some none

/- What is found first, or else what is found next. -/
def orElse? {α : Type} (first next : Option (Option α)) :
    Option (Option α) := do
  match ← first with
  | some found => some (some found)
  | none => next

/- The token that opens a line, and its bytes. -/
def opening? (indent : Nat) (rest : List Char) :
    Option (Option (TokenKind × Nat)) :=
  orElse? (if indent = 0 then heading? rest else some none)
    (orElse? (some (inference? rest))
      (orElse? (some (relation? rest))
        (orElse? (step? rest) (bullet? rest))))

------------------------------------------------------------
-- Inline Tokens
------------------------------------------------------------

/-
  The head of an element up to a closing character.  Of one
  that may start a link, a parenthesis may not follow.
-/
def titled?
    (closing : Char)
    (cause : SyntaxFault.Cause)
    (definition reference : String → TokenKind)
    (mayBeLink : Bool)
    (rest : List Char) : Option Lexer.Item :=
  match Text.findCharBytes? closing rest with
  | none => some (.broken cause)
  | some last => do
      let inner ← Text.slice? 1 last rest
      let title := Text.trim inner
      if title.isEmpty then
        some .plain
      else do
        let after ← Text.dropBytes? (last + 1) rest
        if mayBeLink && Text.startsWith ['('] after then
          some .plain
        else if Text.startsWith [':'] after then
          some
            (.token (definition (String.ofList title))
              (last + 2))
        else
          some
            (.token (reference (String.ofList title))
              (last + 1))

/- The head of an element, and its bytes. -/
def head? (rest : List Char) : Option Lexer.Item :=
  match rest with
  | '[' :: _ =>
      titled? ']' .unclosedStatementTitle
        .statementDefinition .statementReference true rest
  | '<' :: _ =>
      titled? '>' .unclosedArgumentTitle
        .argumentDefinition .argumentReference false rest
  | _ => some .plain

/- The tag that starts with a number sign, and its bytes. -/
def tag? (rest : List Char) : Option Lexer.Item := do
  let body ← Text.dropBytes? 1 rest
  match Text.stripPrefix? ['('] body with
  | some inner =>
      match Text.findCharBytes? ')' inner with
      | none => some (.broken .unclosedTag)
      | some last => do
          let part ← Text.slice? 0 last inner
          let name := Text.trim part
          if name.isEmpty then
            some .plain
          else
            some (.token (.tag (String.ofList name)) (last + 3))
  | none =>
      let name := body.takeWhile Lexer.isTagChar
      if name.isEmpty then
        some .plain
      else
        some
          (.token (.tag (String.ofList name))
            (1 + Text.byteSize name))

/- A mention up to a closing character, and its bytes. -/
def mentioned?
    (closing : Char)
    (kind : String → TokenKind)
    (rest : List Char) : Option Lexer.Item :=
  match Text.findCharBytes? closing rest with
  | none => some .plain
  | some last => do
      let inner ← Text.slice? 2 last rest
      let title := Text.trim inner
      if title.isEmpty then
        some .plain
      else
        some (.token (kind (String.ofList title)) (last + 1))

/- The mention that starts with an at sign, and its bytes. -/
def mention? (rest : List Char) : Option Lexer.Item :=
  if Text.startsWith ['@', '['] rest then
    mentioned? ']' .statementMention rest
  else if Text.startsWith ['@', '<'] rest then
    mentioned? '>' .argumentMention rest
  else
    some .plain

/-
  The data at the start of `rest`, after some bytes with an
  excess of opening braces.  There may be none that is closed.
-/
def dataFrom? (rest : List Char) :
    (depth bytes : Nat) → List Char → Option Lexer.Item
| _, _, [] => some .plain
| depth, bytes, '\x7b' :: cs =>
    dataFrom? rest (depth + 1) (bytes + 1) cs
| 0, _, '\x7d' :: _ => none
| 1, bytes, '\x7d' :: _ => do
    let after ← Text.dropBytes? (bytes + 1) rest
    if Text.allBlank after then do
      let block ← Text.slice? 0 (bytes + 1) rest
      some
        (.token (.data (String.ofList block))
          (Text.byteSize rest))
    else
      some .plain
| depth + 2, bytes, '\x7d' :: cs =>
    dataFrom? rest (depth + 1) (bytes + 1) cs
| depth, bytes, c :: cs =>
    dataFrom? rest depth (bytes + c.utf8Size) cs

/- What starts with the first character, and its bytes. -/
def item? (afterBlank : Bool) (c : Char) (rest : List Char) :
    Option Lexer.Item :=
  match c with
  | '#' => if afterBlank then tag? rest else some .plain
  | '@' => mention? rest
  | '\x7b' => dataFrom? rest 0 0 rest
  | _ => some .plain

------------------------------------------------------------
-- Characters and Bytes
------------------------------------------------------------

/- A token that takes as many bytes as characters before. -/
def measured (rest : List Char) : Lexer.Item → Lexer.Item
| .token kind length =>
    .token kind (Text.byteSize (rest.take length))
| item => item

/- An opening that takes as many bytes as characters before. -/
def measuredOpening
    (rest : List Char)
    (found : TokenKind × Nat) : TokenKind × Nat :=
  (found.1, Text.byteSize (rest.take found.2))

variable {cs rest : List Char}

/- The first characters that satisfy `p` have one byte each. -/
theorem byteSize_takeWhile
    {p : Char → Bool}
    (hNarrow : ∀ c, p c = true → c.utf8Size = 1)
    (cs : List Char) :
    Text.byteSize (cs.takeWhile p) =
      (cs.takeWhile p).length :=
  Text.byteSize_of_narrow
    (fun c hc => hNarrow c (List.mem_takeWhile_imp hc))

/- The first characters that satisfy `p` are a beginning. -/
theorem take_takeWhile (p : Char → Bool) (cs : List Char) :
    cs.take (cs.takeWhile p).length = cs.takeWhile p := by
  have hBeginning := List.takeWhile_prefix p (l := cs)
  exact (List.prefix_iff_eq_take.mp hBeginning).symm

------------------------------------------------------------
-- Line Openings in Bytes
------------------------------------------------------------

/- A heading is the same in bytes. -/
theorem heading?_eq (rest : List Char) :
    heading? rest =
      some ((Lexer.heading? rest).map (measuredOpening rest)) := by
  have hNarrow : ∀ c : Char, (c == '#') = true →
      c.utf8Size = 1 :=
    fun c hSign => eq_of_beq hSign ▸ rfl
  have hTake := take_takeWhile (· == '#') rest
  have hSize := byteSize_takeWhile hNarrow rest
  have hDrop :=
    Text.dropBytes?_take (rest.takeWhile (· == '#')).length rest
  have hStarts : Text.startsWith ['#'] rest =
      decide (0 < (rest.takeWhile (· == '#')).length) := by
    cases rest with
    | nil => rfl
    | cons c rest =>
        by_cases hSign : c = '#'
        · subst hSign
          simp [Text.startsWith, Text.stripPrefix?]
        · have hOther : ¬ '#' = c := Ne.symm hSign
          simp [Text.startsWith, Text.stripPrefix?, hSign,
            hOther]
  rw [hTake, hSize] at hDrop
  unfold heading? Lexer.heading?
  simp only [hStarts, hDrop, Option.bind_eq_bind,
    Option.bind_some, decide_eq_true_eq]
  by_cases hSome : 0 < (rest.takeWhile (· == '#')).length
  · simp only [hSome, if_true, decide_true, Bool.true_and]
    split
    · simp [measuredOpening, hTake, hSize]
    · rfl
  · simp [hSome]

/- An inference is the same in bytes. -/
theorem inference?_eq (rest : List Char) :
    inference? rest =
      (Lexer.inference? rest).map (measuredOpening rest) := by
  unfold inference? Lexer.inference?
  simp only
  split <;> simp [measuredOpening]

/- A relation is the same in bytes. -/
theorem relation?_eq (rest : List Char) :
    relation? rest =
      (Lexer.relation? rest).map (measuredOpening rest) := by
  unfold relation? Lexer.relation?
  cases hFound : Marker.inMatchingOrder.find?
      (Lexer.opensWith · rest) with
  | none => rfl
  | some marker =>
      have hOpens : Lexer.opensWith marker rest = true := by
        simpa using List.find?_some hFound
      have hStarts : marker.symbol.toList <+: rest := by
        unfold Lexer.opensWith at hOpens
        split at hOpens
        · next after hStrip =>
            exact
              ⟨after,
                (Text.eq_append_of_stripPrefix? hStrip).symm⟩
        · cases hOpens
      have hTake := List.prefix_iff_eq_take.mp hStarts
      simp only [Option.map_some, measuredOpening]
      rw [← String.length_toList, ← hTake]

/- The number of a statement is the same in bytes. -/
theorem step?_eq (rest : List Char) :
    step? rest =
      some ((Lexer.step? rest).map (measuredOpening rest)) := by
  cases rest with
  | nil => rfl
  | cons c cs =>
      by_cases hOpen : c = '('
      · subst hOpen
        have hStrip :
            Text.stripPrefix? ['('] ('(' :: cs) = some cs := rfl
        have hDrop :=
          Text.dropBytes?_take (cs.takeWhile Text.isDigit).length
            cs
        rw [take_takeWhile] at hDrop
        unfold step? Lexer.step?
        simp only [hStrip, hDrop, Option.bind_eq_bind,
          Option.bind_some]
        generalize hDigits : cs.takeWhile Text.isDigit = digits
        cases hAfter : cs.drop digits.length with
        | nil => rfl
        | cons d after =>
            by_cases hClose : d = ')'
            · subst hClose
              have hText := List.take_append_drop digits.length cs
              rw [hAfter, ← hDigits, take_takeWhile, hDigits]
                at hText
              have hTake : ('(' :: cs).take (digits.length + 2) =
                  '(' :: (digits ++ [')']) := by
                rw [← hText, List.take_succ_cons,
                  List.take_length_add_append]
                rfl
              have hSize :
                  Text.byteSize ('(' :: (digits ++ [')'])) =
                    Text.byteSize digits + 2 := by
                have hOpen : '('.utf8Size = 1 := rfl
                have hClose : ')'.utf8Size = 1 := rfl
                simp only [Text.byteSize_cons,
                  Text.byteSize_append, Text.byteSize_nil,
                  hOpen, hClose]
                omega
              have hStripped :
                  Text.stripPrefix? [')'] (')' :: after) =
                    some after := rfl
              simp only [hStripped]
              by_cases hFits :
                  Text.decimalValue digits < Lexer.stepBound
              · cases digits.isEmpty <;>
                  cases Text.atBreak after <;>
                    simp [hFits, Nat.not_le.mpr hFits,
                      measuredOpening, hTake, hSize]
              · simp [hFits, Nat.not_lt.mp hFits]
            · have hOther : ¬ ')' = d := Ne.symm hClose
              simp only [Text.stripPrefix?, if_neg hOther]
              split
              · next hSame =>
                  exact absurd (List.cons.inj hSame).1 hClose
              · rfl
      · have hOther : ¬ '(' = c := Ne.symm hOpen
        have hNone : Lexer.step? (c :: cs) = none := by
          unfold Lexer.step?
          split
          · next hSame =>
              exact absurd (List.cons.inj hSame).1 hOpen
          · rfl
        rw [hNone, step?, Text.stripPrefix?, if_neg hOther]
        rfl

/- A list item is the same in bytes. -/
theorem bullet?_eq (rest : List Char) :
    bullet? rest =
      some ((Lexer.bullet? rest).map (measuredOpening rest)) := by
  have hTake := take_takeWhile Text.isDigit rest
  have hSize :=
    byteSize_takeWhile (fun _ => Text.isDigit_utf8Size) rest
  have hDrop :=
    Text.dropBytes?_take (rest.takeWhile Text.isDigit).length rest
  rw [hTake, hSize] at hDrop
  unfold bullet? Lexer.bullet?
  simp only [hDrop, Option.bind_eq_bind, Option.bind_some]
  by_cases hStar : Text.startsWith ['*', ' '] rest = true
  · rcases Text.startsWith_iff.mp hStar with ⟨after, rfl⟩
    rw [if_pos hStar, if_pos hStar]
    rfl
  · rw [if_neg hStar, if_neg hStar]
    cases hDigits : rest.takeWhile Text.isDigit with
    | nil => rfl
    | cons d digits =>
        rw [hDigits] at hTake hSize
        rw [if_pos (by simp)]
        by_cases hPoint :
            Text.startsWith ['.', ' ']
              (rest.drop (d :: digits).length) = true
        · rcases Text.startsWith_iff.mp hPoint with
            ⟨after, hAfter⟩
          have hText :=
            List.take_append_drop (d :: digits).length rest
          rw [hTake, ← hAfter] at hText
          have hPart : rest.take ((d :: digits).length + 1) =
              d :: digits ++ ['.'] := by
            rw [← hText, List.take_length_add_append]
            rfl
          have hPointSize : '.'.utf8Size = 1 := rfl
          have hBytes : Text.byteSize (d :: digits ++ ['.']) =
              (d :: digits).length + 1 := by
            rw [Text.byteSize_append, hSize, Text.byteSize_cons,
              hPointSize, Text.byteSize_nil]
          rw [if_pos hPoint, if_pos (by rw [hPoint]; rfl)]
          simp only [Option.map_some, measuredOpening, hPart,
            hBytes]
        · rw [Bool.not_eq_true] at hPoint
          rw [hPoint]
          rfl

/- What is found first is found in bytes, too. -/
theorem orElse?_some {α : Type} (first next : Option α) :
    orElse? (some first) (some next) = some (first <|> next) := by
  cases first <;> rfl

/- What opens a line is the same in bytes. -/
theorem opening?_eq (indent : Nat) (rest : List Char) :
    opening? indent rest =
      some
        ((Lexer.opening? indent rest).map
          (measuredOpening rest)) := by
  have hHeading :
      (if indent = 0 then heading? rest else some none) =
        some
          ((if indent = 0 then Lexer.heading? rest
            else none).map (measuredOpening rest)) := by
    split
    · exact heading?_eq rest
    · rfl
  have hMap : ∀ first next : Option (TokenKind × Nat),
      (first <|> next).map (measuredOpening rest) =
        (first.map (measuredOpening rest) <|>
          next.map (measuredOpening rest)) := by
    intro first next
    cases first <;> rfl
  unfold opening? Lexer.opening?
  rw [hHeading, inference?_eq, relation?_eq, step?_eq,
    bullet?_eq, orElse?_some, orElse?_some, orElse?_some,
    orElse?_some]
  simp only [hMap]

------------------------------------------------------------
-- Inline Tokens in Bytes
------------------------------------------------------------

/-
  A token around a part, of which what encloses the part has as
  many bytes as characters.
-/
theorem measured_enclosed
    {lead closing : List Char}
    (hLead : ∀ c ∈ lead, c.utf8Size = 1)
    (hClosing : ∀ c ∈ closing, c.utf8Size = 1)
    (inner after : List Char)
    (kind : TokenKind) :
    measured (lead ++ inner ++ closing ++ after)
        (.token kind
          (inner.length + (lead.length + closing.length))) =
      .token kind
        (Text.byteSize inner
          + (lead.length + closing.length)) := by
  have hLength :
      inner.length + (lead.length + closing.length) =
        (lead ++ inner ++ closing).length := by
    simp only [List.length_append]
    omega
  rw [measured, hLength, List.take_left, Text.byteSize_append,
    Text.byteSize_append, Text.byteSize_of_narrow hLead,
    Text.byteSize_of_narrow hClosing]
  congr 1
  omega

/- A title ends at the first closing character, if any. -/
theorem title?_cases (closing : Char) (cs : List Char) :
    (closing ∉ cs ∧ Lexer.title? closing cs = none) ∨
      ∃ inner after, cs = inner ++ closing :: after ∧
        closing ∉ inner ∧
          Lexer.title? closing cs =
            some (Text.trim inner, after) := by
  unfold Lexer.title?
  cases hFound : Text.findChar? closing cs with
  | none => exact Or.inl ⟨Text.findChar?_eq_none_iff.mp hFound, rfl⟩
  | some n =>
      right
      rcases Text.findChar?_eq_some_iff.mp hFound with
        ⟨inner, after, rfl, rfl, hNone⟩
      refine ⟨inner, after, rfl, hNone, ?_⟩
      have hSplit : inner ++ closing :: after =
          (inner ++ [closing]) ++ after := by simp
      have hLength : inner.length + 1 =
          (inner ++ [closing]).length := by simp
      simp only [List.take_left]
      rw [hSplit, hLength, List.drop_left]

/- A head that is not closed is broken. -/
theorem titled?_open
    {opening closing : Char}
    {cs : List Char}
    (hOther : closing ≠ opening)
    (hNone : closing ∉ cs)
    (cause : SyntaxFault.Cause)
    (definition reference : String → TokenKind)
    (mayBeLink : Bool) :
    titled? closing cause definition reference mayBeLink
        (opening :: cs) =
      some (.broken cause) := by
  have hAbsent : closing ∉ opening :: cs := by
    simp [hOther, hNone]
  rw [titled?, Text.findCharBytes?_eq_none hAbsent]

/- A head that is closed, by the bytes of its title. -/
theorem titled?_closed
    {opening closing : Char}
    (hOther : closing ≠ opening)
    (hOpening : opening.utf8Size = 1)
    (hClosing : closing.utf8Size = 1)
    {inner : List Char}
    (hNone : closing ∉ inner)
    (after : List Char)
    (cause : SyntaxFault.Cause)
    (definition reference : String → TokenKind)
    (mayBeLink : Bool) :
    titled? closing cause definition reference mayBeLink
        (opening :: (inner ++ closing :: after)) =
      some
        (if (Text.trim inner).isEmpty then .plain
        else if mayBeLink && Text.startsWith ['('] after then
          .plain
        else if Text.startsWith [':'] after then
          .token (definition (String.ofList (Text.trim inner)))
            (Text.byteSize inner + 3)
        else
          .token (reference (String.ofList (Text.trim inner)))
            (Text.byteSize inner + 2)) := by
  have hAbsent : closing ∉ opening :: inner := by
    simp [hOther, hNone]
  have hFound := Text.findCharBytes?_append hAbsent after
  rw [Text.byteSize_cons, hOpening, List.cons_append] at hFound
  have hInner :
      Text.slice? 1 (1 + Text.byteSize inner)
          (opening :: (inner ++ closing :: after)) =
        some inner :=
    Text.slice?_eq_some_iff.mpr
      ⟨[opening], closing :: after, by simp,
        by simp [hOpening], rfl⟩
  have hAfter :
      Text.dropBytes? (1 + Text.byteSize inner + 1)
          (opening :: (inner ++ closing :: after)) =
        some after :=
    Text.dropBytes?_eq_some_iff.mpr
      ⟨opening :: (inner ++ [closing]), by simp,
        by simp [hOpening, hClosing]; omega⟩
  have hThree : 1 + Text.byteSize inner + 2 =
      Text.byteSize inner + 3 := by omega
  have hTwo : 1 + Text.byteSize inner + 1 =
      Text.byteSize inner + 2 := by omega
  simp only [titled?, hFound, hInner, hAfter, hThree,
    Option.bind_eq_bind, Option.bind_some]
  rw [← hTwo]
  split
  · rfl
  · split
    · rfl
    · split <;> rfl

/- What the title of a head, in characters, is in bytes. -/
theorem measured_titled
    {opening closing : Char}
    (hOpening : opening.utf8Size = 1)
    (hClosing : closing.utf8Size = 1)
    (inner after : List Char)
    (isPlain : Bool)
    (definition reference : TokenKind) :
    measured (opening :: (inner ++ closing :: after))
        (if isPlain then .plain
        else if Text.startsWith [':'] after then
          .token definition (inner.length + 3)
        else
          .token reference (inner.length + 2)) =
      if isPlain then .plain
      else if Text.startsWith [':'] after then
        .token definition (Text.byteSize inner + 3)
      else
        .token reference (Text.byteSize inner + 2) := by
  have hLead : ∀ c ∈ [opening], c.utf8Size = 1 := by
    simpa using hOpening
  split
  · rfl
  · split
    · next hColon =>
        rcases Text.startsWith_iff.mp hColon with ⟨more, rfl⟩
        have hEnd : ∀ c ∈ [closing, ':'], c.utf8Size = 1 :=
          List.forall_mem_cons.mpr
            ⟨hClosing, List.forall_mem_singleton.mpr rfl⟩
        have hText :
            opening :: (inner ++ closing :: ([':'] ++ more)) =
              [opening] ++ inner ++ [closing, ':'] ++ more := by
          simp
        rw [hText]
        exact measured_enclosed hLead hEnd inner more _
    · have hEnd : ∀ c ∈ [closing], c.utf8Size = 1 := by
        simpa using hClosing
      have hText :
          opening :: (inner ++ closing :: after) =
            [opening] ++ inner ++ [closing] ++ after := by
        simp
      rw [hText]
      exact measured_enclosed hLead hEnd inner after _

/- The characters of a title and its closing character. -/
theorem length_titled
    (closing : Char)
    (inner after : List Char) :
    (inner ++ closing :: after).length - after.length =
      inner.length + 1 := by
  simp only [List.length_append, List.length_cons]
  omega

/- A text that starts with no such character. -/
theorem startsWith_eq_false
    {c : Char}
    {cs : List Char}
    (hNone : ∀ more, cs ≠ c :: more) :
    Text.startsWith [c] cs = false := by
  rw [← Bool.not_eq_true, Text.startsWith_iff]
  rintro ⟨more, hMore⟩
  exact hNone more hMore.symm

/- The head of a statement that is closed. -/
theorem head_statement
    {inner after title : List Char}
    (hTitle :
      Lexer.title? ']' (inner ++ ']' :: after) =
        some (title, after)) :
    Lexer.head ('[' :: (inner ++ ']' :: after)) =
      if title.isEmpty || Text.startsWith ['('] after then
        .plain
      else if Text.startsWith [':'] after then
        .token (.statementDefinition (String.ofList title))
          (inner.length + 3)
      else
        .token (.statementReference (String.ofList title))
          (inner.length + 2) := by
  unfold Lexer.head
  simp only [hTitle]
  split
  · next hNone => cases hNone
  · next hEmpty =>
      cases hEmpty
      rfl
  · next hLink =>
      cases hLink
      rw [if_pos]
      simp [Text.startsWith, Text.stripPrefix?]
  · next name more hSome hColon =>
      cases hColon
      have hFilled : title.isEmpty = false := by
        simpa using hSome
      simp [hFilled, Text.startsWith, Text.stripPrefix?]
      omega
  · next name more hSome hNoLink hNoColon hHere =>
      cases hHere
      have hFilled : title.isEmpty = false := by
        simpa using hSome
      rw [hFilled, startsWith_eq_false hNoLink,
        startsWith_eq_false hNoColon, length_titled]
      rfl

/- The head of an argument that is closed. -/
theorem head_argument
    {inner after title : List Char}
    (hTitle :
      Lexer.title? '>' (inner ++ '>' :: after) =
        some (title, after)) :
    Lexer.head ('<' :: (inner ++ '>' :: after)) =
      if title.isEmpty then .plain
      else if Text.startsWith [':'] after then
        .token (.argumentDefinition (String.ofList title))
          (inner.length + 3)
      else
        .token (.argumentReference (String.ofList title))
          (inner.length + 2) := by
  unfold Lexer.head
  simp only [hTitle]
  split
  · next hNone => cases hNone
  · next hEmpty =>
      cases hEmpty
      rfl
  · next name more hSome hColon =>
      cases hColon
      have hFilled : title.isEmpty = false := by
        simpa using hSome
      simp [hFilled, Text.startsWith, Text.stripPrefix?]
      omega
  · next name more hSome hNoColon hHere =>
      cases hHere
      have hFilled : title.isEmpty = false := by
        simpa using hSome
      rw [hFilled, startsWith_eq_false hNoColon, length_titled]
      rfl

/- The head of an element is the same in bytes. -/
theorem head?_eq (rest : List Char) :
    head? rest = some (measured rest (Lexer.head rest)) := by
  unfold head?
  split
  · next cs =>
      rcases title?_cases ']' cs with
        ⟨hNone, hTitle⟩ | ⟨inner, after, rfl, hNone, hTitle⟩
      · rw [titled?_open (by decide) hNone, Lexer.head]
        simp only [hTitle, measured]
      · rw [titled?_closed (by decide) rfl rfl hNone,
          head_statement hTitle, measured_titled rfl rfl]
        cases (Text.trim inner).isEmpty <;> simp
  · next cs =>
      rcases title?_cases '>' cs with
        ⟨hNone, hTitle⟩ | ⟨inner, after, rfl, hNone, hTitle⟩
      · rw [titled?_open (by decide) hNone, Lexer.head]
        simp only [hTitle, measured]
      · rw [titled?_closed (by decide) rfl rfl hNone,
          head_argument hTitle, measured_titled rfl rfl]
        simp
  · next hNoStatement hNoArgument =>
      have hPlain : Lexer.head rest = .plain := by
        unfold Lexer.head
        split
        · next cs => exact absurd rfl (hNoStatement cs)
        · next cs => exact absurd rfl (hNoArgument cs)
        · rfl
      rw [hPlain]
      rfl

/- A tag in parentheses is the same in bytes. -/
theorem tag?_enclosed (inner : List Char) :
    tag? ('#' :: '(' :: inner) =
      some
        (measured ('#' :: '(' :: inner)
          (Lexer.tag ('(' :: inner))) := by
  have hBody : Text.dropBytes? 1 ('#' :: '(' :: inner) =
      some ('(' :: inner) :=
    Text.dropBytes?_append ['#'] ('(' :: inner)
  have hStrip :
      Text.stripPrefix? ['('] ('(' :: inner) = some inner := rfl
  unfold tag? Lexer.tag
  simp only [hBody, hStrip, Option.bind_eq_bind,
    Option.bind_some]
  rcases title?_cases ')' inner with
    ⟨hNone, hTitle⟩ | ⟨name, after, rfl, hNone, hTitle⟩
  · simp only [Text.findCharBytes?_eq_none hNone, hTitle,
      measured]
  · have hName : Text.slice? 0 (Text.byteSize name)
        (name ++ ')' :: after) = some name :=
      Text.slice?_eq_some_iff.mpr
        ⟨[], ')' :: after, by simp, rfl, by simp⟩
    simp only [Text.findCharBytes?_append hNone, hName, hTitle,
      Option.bind_some]
    cases hTrim : Text.trim name with
    | nil => rfl
    | cons d title =>
        have hText :
            '#' :: '(' :: (name ++ ')' :: after) =
              ['#', '('] ++ name ++ [')'] ++ after := by
          simp
        have hLead : ∀ c ∈ ['#', '('], c.utf8Size = 1 :=
          List.forall_mem_cons.mpr
            ⟨rfl, List.forall_mem_singleton.mpr rfl⟩
        have hEnd : ∀ c ∈ [')'], c.utf8Size = 1 :=
          List.forall_mem_singleton.mpr rfl
        have hBytes := measured_enclosed hLead hEnd name after
          (.tag (String.ofList (d :: title)))
        simp only [List.isEmpty_cons, Bool.false_eq_true,
          if_false, length_titled]
        rw [hText]
        exact congrArg some hBytes.symm

/- A tag is the same in bytes. -/
theorem tag?_eq (cs : List Char) :
    tag? ('#' :: cs) =
      some (measured ('#' :: cs) (Lexer.tag cs)) := by
  cases hStrip : Text.stripPrefix? ['('] cs with
  | some inner =>
      rw [Text.eq_append_of_stripPrefix? hStrip]
      exact tag?_enclosed inner
  | none =>
      have hBody : Text.dropBytes? 1 ('#' :: cs) = some cs :=
        Text.dropBytes?_append ['#'] cs
      have hSign : '#'.utf8Size = 1 := rfl
      have hTag : Lexer.tag cs =
          if (cs.takeWhile Lexer.isTagChar).isEmpty then .plain
          else
            .token
              (.tag
                (String.ofList (cs.takeWhile Lexer.isTagChar)))
              ((cs.takeWhile Lexer.isTagChar).length + 1) := by
        unfold Lexer.tag
        split
        · simp [Text.stripPrefix?] at hStrip
        · rfl
      rw [hTag]
      unfold tag?
      simp only [hBody, hStrip, Option.bind_eq_bind,
        Option.bind_some]
      split
      · rfl
      · rw [measured, List.take_succ_cons, take_takeWhile,
          Text.byteSize_cons, hSign]

/- A mention up to a closing character is the same in bytes. -/
theorem mentioned?_eq
    {opening closing : Char}
    (hAt : closing ≠ '@')
    (hOther : closing ≠ opening)
    (hOpening : opening.utf8Size = 1)
    (hClosing : closing.utf8Size = 1)
    (kind : String → TokenKind)
    (cs : List Char) :
    mentioned? closing kind ('@' :: opening :: cs) =
      some
        (measured ('@' :: opening :: cs)
          (match Lexer.title? closing cs with
          | some (c :: name, after) =>
              .token (kind (String.ofList (c :: name)))
                (cs.length - after.length + 2)
          | _ => .plain)) := by
  have hAtSize : '@'.utf8Size = 1 := rfl
  unfold mentioned?
  rcases title?_cases closing cs with
    ⟨hNone, hTitle⟩ | ⟨name, after, rfl, hNone, hTitle⟩
  · have hAbsent : closing ∉ '@' :: opening :: cs := by
      simp [hAt, hOther, hNone]
    simp only [Text.findCharBytes?_eq_none hAbsent, hTitle,
      measured]
  · have hAbsent : closing ∉ '@' :: opening :: name := by
      simp [hAt, hOther, hNone]
    have hFound := Text.findCharBytes?_append hAbsent after
    have hLead :
        Text.byteSize ('@' :: opening :: name) =
          2 + Text.byteSize name := by
      simp [hAtSize, hOpening]
      omega
    rw [hLead, List.cons_append, List.cons_append] at hFound
    have hName :
        Text.slice? 2 (2 + Text.byteSize name)
            ('@' :: opening :: (name ++ closing :: after)) =
          some name :=
      Text.slice?_eq_some_iff.mpr
        ⟨['@', opening], closing :: after, by simp,
          by simp [hAtSize, hOpening], rfl⟩
    simp only [hFound, hName, hTitle, Option.bind_eq_bind,
      Option.bind_some]
    cases hTrim : Text.trim name with
    | nil => rfl
    | cons d title =>
        have hText :
            '@' :: opening :: (name ++ closing :: after) =
              ['@', opening] ++ name ++ [closing] ++ after := by
          simp
        have hLead : ∀ c ∈ ['@', opening], c.utf8Size = 1 :=
          List.forall_mem_cons.mpr ⟨rfl, by simpa using hOpening⟩
        have hEnd : ∀ c ∈ [closing], c.utf8Size = 1 := by
          simpa using hClosing
        have hBytes := measured_enclosed hLead hEnd name after
          (kind (String.ofList (d :: title)))
        have hThree : 2 + Text.byteSize name + 1 =
            Text.byteSize name + 3 := by omega
        simp only [List.isEmpty_cons, Bool.false_eq_true,
          if_false, length_titled, hThree]
        rw [hText]
        exact congrArg some hBytes.symm

/- A mention is the same in bytes. -/
theorem mention?_eq (cs : List Char) :
    mention? ('@' :: cs) =
      some (measured ('@' :: cs) (Lexer.mention cs)) := by
  have hStarts : ∀ opening,
      Text.startsWith ['@', opening] ('@' :: cs) =
        Text.startsWith [opening] cs := by
    intro opening
    simp [Text.startsWith, Text.stripPrefix?]
  unfold mention?
  rw [hStarts, hStarts]
  by_cases hSquare : Text.startsWith ['['] cs = true
  · rcases Text.startsWith_iff.mp hSquare with ⟨inner, rfl⟩
    rw [if_pos hSquare]
    exact
      mentioned?_eq (by decide) (by decide) rfl rfl
        .statementMention inner
  · rw [if_neg hSquare]
    by_cases hAngle : Text.startsWith ['<'] cs = true
    · rcases Text.startsWith_iff.mp hAngle with ⟨inner, rfl⟩
      rw [if_pos hAngle]
      exact
        mentioned?_eq (by decide) (by decide) rfl rfl
          .argumentMention inner
    · rw [if_neg hAngle]
      unfold Lexer.mention
      split
      · simp [Text.startsWith, Text.stripPrefix?] at hSquare
      · simp [Text.startsWith, Text.stripPrefix?] at hAngle
      · rfl

/-
  Data in braces of which some are open is the same in bytes.
  Each closing brace has one that it closes.
-/
theorem dataFrom?_eq
    (before cs : List Char)
    (depth : Nat) :
    dataFrom? (before ++ cs) (depth + 1) (Text.byteSize before)
        cs =
      some
        (measured (before ++ cs)
          (match Lexer.closingBrace? (depth + 1) cs with
          | some n =>
              if Text.allBlank (cs.drop n) then
                .token
                  (.data (String.ofList (before ++ cs.take n)))
                  (before ++ cs).length
              else
                .plain
          | none => .plain)) := by
  induction cs generalizing before depth with
  | nil => rfl
  | cons c cs ih =>
      have hMore : ∀ depth,
          dataFrom? (before ++ c :: cs) (depth + 1)
              (Text.byteSize (before ++ [c])) cs =
            some
              (measured (before ++ c :: cs)
                (match (Lexer.closingBrace? (depth + 1) cs).map
                    (· + 1) with
                | some n =>
                    if Text.allBlank ((c :: cs).drop n) then
                      .token
                        (.data
                          (String.ofList
                            (before ++ (c :: cs).take n)))
                        (before ++ c :: cs).length
                    else
                      .plain
                | none => .plain)) := by
        intro depth
        have hLater := ih (before ++ [c]) depth
        rw [List.append_assoc, List.singleton_append] at hLater
        rw [hLater]
        cases Lexer.closingBrace? (depth + 1) cs with
        | none => rfl
        | some n => simp
      have hSize : Text.byteSize (before ++ [c]) =
          Text.byteSize before + c.utf8Size := by simp
      rw [hSize] at hMore
      by_cases hOpen : c = '\x7b'
      · subst hOpen
        exact hMore (depth + 1)
      · by_cases hClose : c = '\x7d'
        · subst hClose
          cases depth with
          | succ depth => exact hMore depth
          | zero =>
              have hText : before ++ '\x7d' :: cs =
                  (before ++ ['\x7d']) ++ cs := by simp
              have hBytes :
                  Text.byteSize (before ++ ['\x7d']) =
                    Text.byteSize before + 1 := hSize
              have hDrop := Text.dropBytes?_append
                (before ++ ['\x7d']) cs
              have hSlice : Text.slice? 0
                  (Text.byteSize (before ++ ['\x7d']))
                  ((before ++ ['\x7d']) ++ cs) =
                    some (before ++ ['\x7d']) :=
                Text.slice?_eq_some_iff.mpr
                  ⟨[], cs, rfl, rfl, Nat.zero_add _⟩
              rw [← hText, hBytes] at hDrop hSlice
              rw [dataFrom?, Lexer.closingBrace?, hDrop]
              simp only [Option.bind_eq_bind, Option.bind_some,
                hSlice, Nat.le_refl, if_true, List.drop_succ_cons,
                List.drop_zero, List.take_succ_cons,
                List.take_zero]
              split
              · rw [measured, List.take_length]
              · rfl
        · have hStep := hMore depth
          rw [dataFrom?, Lexer.closingBrace?]
          · exact hStep
          all_goals simp [hOpen, hClose]

/- Data is the same in bytes. -/
theorem data?_eq (cs : List Char) :
    dataFrom? ('\x7b' :: cs) 0 0 ('\x7b' :: cs) =
      some
        (measured ('\x7b' :: cs)
          (Lexer.data ('\x7b' :: cs))) := by
  have hData := dataFrom?_eq ['\x7b'] cs 0
  refine hData.trans ?_
  unfold Lexer.data
  rw [Lexer.closingBrace?]
  cases Lexer.closingBrace? 1 cs <;> rfl

/- What stands in a line is the same in bytes. -/
theorem item?_eq
    (afterBlank : Bool)
    (c : Char)
    (cs : List Char) :
    item? afterBlank c (c :: cs) =
      some (measured (c :: cs) (Lexer.item afterBlank c cs)) := by
  unfold item?
  split
  · rw [Lexer.item]
    split
    · exact tag?_eq cs
    · rfl
  · exact mention?_eq cs
  · exact data?_eq cs
  · next hNoTag hNoMention hNoData =>
      unfold Lexer.item
      split
      · exact absurd rfl hNoTag
      · exact absurd rfl hNoMention
      · exact absurd rfl hNoData
      · rfl

end ByteLexer

end Dialectic
