import Dialectic.Proofs.Document.ByteItems
import Dialectic.Proofs.Document.TokenStream

/-
  Splitting a line into tokens with all places in it given by
  numbers of bytes.  Each part of the line may not be there,
  and the rounds may not suffice.  In fact neither happens, and
  the tokens and faults are those of the lexer.

  Key definitions include:
    * `ByteLexer.Scanner`
    * `ByteLexer.inlineFrom?`
    * `ByteLexer.body?`
    * `ByteLexer.line?`

  Main theorems:
    * `ByteLexer.inlineFrom?_eq`
    * `ByteLexer.body?_eq`
    * `ByteLexer.line?_eq`
-/

namespace Dialectic

namespace ByteLexer

------------------------------------------------------------
-- Scanners
------------------------------------------------------------

/-
  A place in a line: the number of its bytes before it, and
  the column that it has, with the place of the line.
-/
structure Scanner where
  text : List Char
  index : Nat
  line : Nat
  column : Nat
  lineOffset : Nat
deriving DecidableEq, Repr

namespace Scanner

/- The start of a line. -/
def start (source : SourceLine) : Scanner :=
  ⟨source.text, 0, source.number, 1, source.offset⟩

/- The place in the whole text. -/
def position (s : Scanner) : Position :=
  ⟨s.line, s.column, s.lineOffset + s.index⟩

/- The rest of the line. -/
def rest? (s : Scanner) : Option (List Char) :=
  Text.dropBytes? s.index s.text

/- The place after some more bytes. -/
def bump? (s : Scanner) (bytes : Nat) : Option Scanner := do
  let passed ← Text.slice? s.index (s.index + bytes) s.text
  some
    { s with
      index := s.index + bytes
      column := s.column + passed.length }

end Scanner

/- Tokens, faults, and the place after them. -/
abbrev Scanned := List Token × List SyntaxFault × Scanner

/- What is scanned after a token. -/
def Scanned.after (token : Token) : Scanned → Scanned
| (tokens, faults, last) => (token :: tokens, faults, last)

/- What is scanned after a fault. -/
def Scanned.afterFault (fault : SyntaxFault) :
    Scanned → Scanned
| (tokens, faults, last) => (tokens, fault :: faults, last)

------------------------------------------------------------
-- Lines
------------------------------------------------------------

/-
  The tokens of the rest of a line.  Each round takes some
  bytes, so `fuel` is enough if it is larger than their
  number.
-/
def inlineFrom? :
    (fuel : Nat) →
    (textStart : Position) →
    (text : List Char) →
    (afterBlank : Bool) →
    Scanner →
    Option Scanned
| 0, _, _, _, _ => none
| fuel + 1, textStart, text, afterBlank, s => do
    let rest ← s.rest?
    match rest with
    | [] =>
        some (Lexer.textToken textStart text.reverse, [], s)
    | c :: _ =>
        let first :=
          if text.isEmpty then s.position else textStart
        let found ← item? afterBlank c rest
        match found with
        | .token kind bytes => do
            let next ← s.bump? bytes
            let (tokens, faults, last) ←
              inlineFrom? fuel textStart [] false next
            some
              ( Lexer.textToken textStart text.reverse
                  ++ ⟨kind, s.position⟩ :: tokens,
                faults, last )
        | .broken cause => do
            let next ← s.bump? c.utf8Size
            let scanned ←
              inlineFrom? fuel first (c :: text)
                (Text.isBlank c) next
            some (scanned.afterFault ⟨cause, s.position⟩)
        | .plain => do
            let next ← s.bump? c.utf8Size
            inlineFrom? fuel first (c :: text) (Text.isBlank c)
              next

/- The inline tokens from a place on. -/
def inline? (s : Scanner) : Option Scanned :=
  inlineFrom? (Text.byteSize s.text + 1) s.position [] true s

/- The head of an element, where one may stand. -/
def headIf? (allowed : Bool) (rest : List Char) :
    Option Lexer.Item :=
  if allowed then head? rest else some .plain

/- The tokens of the content of a line. -/
def content? (headAllowed : Bool) (s : Scanner) :
    Option Scanned := do
  let blanks ← s.rest?
  let s ←
    s.bump? (Text.byteSize (blanks.takeWhile Text.isBlank))
  let rest ← s.rest?
  let found ← headIf? headAllowed rest
  match found with
  | .token kind bytes => do
      let next ← s.bump? bytes
      let scanned ← inline? next
      some (scanned.after ⟨kind, s.position⟩)
  | .broken cause => do
      let scanned ← inline? s
      some (scanned.afterFault ⟨cause, s.position⟩)
  | .plain => inline? s

/- The tokens of a line after its indentation. -/
def body? (indent : Nat) (s : Scanner) : Option Scanned := do
  let rest ← s.rest?
  let found ← opening? indent rest
  match found with
  | some (.inference rule, bytes) => do
      let next ← s.bump? bytes
      some ([⟨.inference rule, s.position⟩], [], next)
  | some (kind, bytes) => do
      let next ← s.bump? bytes
      let headAllowed :=
        match kind with
        | .heading _ => false
        | _ => true
      let scanned ← content? headAllowed next
      some (scanned.after ⟨kind, s.position⟩)
  | none => content? true s

/- The place after an indentation of some characters. -/
def Scanner.indented? (s : Scanner) (indent length : Nat) :
    Option Scanner :=
  if 0 < indent then s.bump? length else some s

/- The tokens of a line, and its faults. -/
def line? (source : SourceLine) :
    Option (List Token × List SyntaxFault) :=
  let s := Scanner.start source
  if source.isBlank then
    some ([⟨.blankLine, s.position⟩], [])
  else do
    let lead := source.text.takeWhile Lexer.isIndentation
    let indent := Lexer.width lead
    let next ← s.indented? indent lead.length
    let (tokens, faults, last) ← body? indent next
    let content := tokens ++ [⟨.lineEnd, last.position⟩]
    if 0 < indent then
      some (⟨.indentation indent, s.position⟩ :: content, faults)
    else
      some (content, faults)

------------------------------------------------------------
-- Lines in Bytes
------------------------------------------------------------

/- The place in a line after its first characters. -/
def Scanner.behind
    (source : SourceLine)
    (before : List Char) : Scanner :=
  ⟨source.text, Text.byteSize before, source.number,
    1 + before.length, source.offset⟩

variable {source : SourceLine}
variable {before part rest : List Char}

/- The rest of a line behind its first characters. -/
theorem Scanner.rest?_behind
    (hText : source.text = before ++ rest) :
    (behind source before).rest? = some rest := by
  rw [rest?, behind]
  simp only [hText]
  exact Text.dropBytes?_append before rest

/- Some characters further behind. -/
theorem Scanner.bump?_behind
    (hText : source.text = before ++ part ++ rest) :
    (behind source before).bump? (Text.byteSize part) =
      some (behind source (before ++ part)) := by
  have hSlice :
      Text.slice? (Text.byteSize before)
          (Text.byteSize before + Text.byteSize part)
          source.text =
        some part :=
    Text.slice?_eq_some_iff.mpr ⟨before, rest, hText, rfl, rfl⟩
  simp only [bump?, behind, hSlice, Option.bind_eq_bind,
    Option.bind_some, Text.byteSize_append, List.length_append]
  rw [Nat.add_assoc]

/- The place that a scanner has. -/
theorem Scanner.position_behind
    (hFeed : '\n' ∉ source.text)
    (hText : source.text = before ++ rest) :
    (behind source before).position =
      source.start.advanceBy before := by
  have hBefore : '\n' ∉ before := fun hMem =>
    hFeed (hText ▸ List.mem_append_left rest hMem)
  rw [Position.advanceBy_eq _ hBefore]
  rfl

/- Where text would start makes no difference without text. -/
theorem inlineFrom_start
    (textStart other : Position)
    (afterBlank : Bool)
    (position : Position)
    (cs : List Char) :
    Lexer.inlineFrom textStart [] afterBlank 0 position cs =
      Lexer.inlineFrom other [] afterBlank 0 position cs := by
  cases cs <;> rfl

/- The rest of a line has the same tokens in bytes. -/
theorem inlineFrom?_eq
    (hFeed : '\n' ∉ source.text)
    {fuel : Nat}
    (hText : source.text = before ++ rest)
    (hFuel : rest.length < fuel)
    (textStart : Position)
    (text : List Char)
    (afterBlank : Bool) :
    inlineFrom? fuel textStart text afterBlank
        (.behind source before) =
      let found :=
        Lexer.inlineFrom textStart text afterBlank 0
          (source.start.advanceBy before) rest
      some (found.1, found.2, .behind source source.text) := by
  induction fuel generalizing before rest textStart text
      afterBlank with
  | zero => exact absurd hFuel (Nat.not_lt_zero _)
  | succ fuel ih =>
      unfold inlineFrom?
      rw [Scanner.rest?_behind hText]
      cases rest with
      | nil =>
          rw [List.append_nil] at hText
          rw [← hText]
          rfl
      | cons c cs =>
          have hNext : source.text = (before ++ [c]) ++ cs := by
            simp [hText]
          have hBump : (Scanner.behind source before).bump?
              c.utf8Size =
                some (.behind source (before ++ [c])) := by
            have hChar := Scanner.bump?_behind hNext
            rwa [Text.byteSize_cons, Text.byteSize_nil] at hChar
          have hPlace : source.start.advanceBy (before ++ [c]) =
              (source.start.advanceBy before).advance c :=
            Position.advanceBy_append _ _ _
          simp only [Option.bind_eq_bind, Option.bind_some,
            item?_eq]
          rw [Scanner.position_behind hFeed hText]
          unfold Lexer.inlineFrom
          simp only
          rw [List.length_cons] at hFuel
          cases hItem : Lexer.item afterBlank c cs with
          | plain =>
              simp only [measured, hBump, Option.bind_some]
              rw [ih hNext (by omega), hPlace]
          | broken cause =>
              simp only [measured, hBump, Option.bind_some]
              rw [ih hNext (by omega), hPlace]
              rfl
          | token kind length =>
              have hPos := (Lexer.item_ends hItem).1
              obtain ⟨m, rfl⟩ : ∃ m, length = m + 1 :=
                ⟨length - 1, by omega⟩
              have hBehind : source.text =
                  before ++ (c :: cs).take (m + 1)
                    ++ (c :: cs).drop (m + 1) := by
                rw [List.append_assoc, List.take_append_drop,
                  hText]
              have hShort :
                  ((c :: cs).drop (m + 1)).length < fuel := by
                simp only [List.drop_succ_cons, List.length_drop]
                omega
              have hLater := Lexer.inlineFrom_skip
                ((source.start.advanceBy before).advance c) [] m
                ((source.start.advanceBy before).advance c) cs
              rw [inlineFrom_start _ textStart false] at hLater
              simp only [measured, Scanner.bump?_behind hBehind,
                Option.bind_some]
              rw [ih hBehind hShort, Nat.add_sub_cancel, hLater,
                Position.advanceBy_append]
              rfl

/- The inline tokens of a line are the same in bytes. -/
theorem inline?_eq
    (hFeed : '\n' ∉ source.text)
    (hText : source.text = before ++ rest) :
    inline? (.behind source before) =
      let found :=
        Lexer.inlineTokens (source.start.advanceBy before) rest
      some (found.1, found.2, .behind source source.text) := by
  have hFuel : rest.length < Text.byteSize source.text + 1 := by
    have hLess := Text.length_le_byteSize rest
    rw [hText, Text.byteSize_append]
    omega
  unfold inline?
  rw [Scanner.position_behind hFeed hText]
  exact inlineFrom?_eq hFeed hText hFuel _ [] true

/- The content of a line has the same tokens in bytes. -/
theorem content?_eq
    (hFeed : '\n' ∉ source.text)
    (hText : source.text = before ++ rest)
    (headAllowed : Bool) :
    content? headAllowed (.behind source before) =
      let found :=
        Lexer.content headAllowed
          (source.start.advanceBy before) rest
      some (found.1, found.2, .behind source source.text) := by
  have hBody : source.text =
      before ++ rest.takeWhile Text.isBlank
        ++ rest.dropWhile Text.isBlank := by
    rw [List.append_assoc, List.takeWhile_append_dropWhile,
      hText]
  have hFound :
      headIf? headAllowed (rest.dropWhile Text.isBlank) =
        some
          (measured (rest.dropWhile Text.isBlank)
            (if headAllowed then
              Lexer.head (rest.dropWhile Text.isBlank)
            else .plain)) := by
    unfold headIf?
    split
    · exact head?_eq _
    · rfl
  unfold content? Lexer.content
  simp only [Scanner.rest?_behind hText,
    Scanner.bump?_behind hBody, Scanner.rest?_behind hBody,
    Scanner.position_behind hFeed hBody,
    Option.bind_eq_bind, Option.bind_some, hFound,
    ← Position.advanceBy_append]
  generalize
    (if headAllowed then
      Lexer.head (rest.dropWhile Text.isBlank)
    else .plain) = item
  cases item with
  | plain =>
      simp only [measured]
      exact inline?_eq hFeed hBody
  | broken cause =>
      simp only [measured, inline?_eq hFeed hBody,
        Option.bind_some]
      rfl
  | token kind length =>
      have hBehind : source.text =
          before ++ rest.takeWhile Text.isBlank
            ++ (rest.dropWhile Text.isBlank).take length
            ++ (rest.dropWhile Text.isBlank).drop length := by
        rw [List.append_assoc, List.take_append_drop]
        exact hBody
      simp only [measured, Scanner.bump?_behind hBehind,
        inline?_eq hFeed hBehind, Option.bind_some]
      rfl

/- A line has the same tokens after its indentation. -/
theorem body?_eq
    (hFeed : '\n' ∉ source.text)
    (hText : source.text = before ++ rest)
    (indent : Nat) :
    body? indent (.behind source before) =
      let found :=
        Lexer.body indent (source.start.advanceBy before) rest
      some (found.1, found.2, .behind source source.text) := by
  unfold body? Lexer.body
  simp only [Scanner.rest?_behind hText, opening?_eq,
    Scanner.position_behind hFeed hText, Option.bind_eq_bind,
    Option.bind_some]
  cases hOpening : Lexer.opening? indent rest with
  | none => exact content?_eq hFeed hText true
  | some found =>
      rcases found with ⟨kind, length⟩
      have hBehind : source.text =
          before ++ rest.take length ++ rest.drop length := by
        rw [List.append_assoc, List.take_append_drop, hText]
      have hBump := Scanner.bump?_behind hBehind
      have hContent := content?_eq hFeed hBehind
      rw [Position.advanceBy_append] at hContent
      simp only [Option.map_some, measuredOpening]
      cases kind with
      | inference rule =>
          have hAll : length = rest.length := by
            rcases Lexer.opening?_cases hOpening with
              ⟨_, hKind, _⟩ | ⟨_, _, hAll⟩ | ⟨_, hKind⟩ |
                ⟨_, hKind⟩ | hKind
            case inr.inl => exact hAll
            all_goals cases hKind
          rw [hAll, List.take_length] at hBump
          rw [hAll, List.take_length]
          simp only [hBump, Option.bind_some]
          rw [hText]
      | heading level =>
          simp only [hBump, hContent, Option.bind_some]
          rfl
      | _ =>
          simp only [hBump, hContent, Option.bind_some]
          rfl

/- An indentation is passed, if there is one. -/
theorem Scanner.indented?_start
    (source : SourceLine) :
    (start source).indented?
        (Lexer.width
          (source.text.takeWhile Lexer.isIndentation))
        (source.text.takeWhile Lexer.isIndentation).length =
      some
        (behind source
          (source.text.takeWhile Lexer.isIndentation)) := by
  have hNarrow : ∀ c : Char, Lexer.isIndentation c = true →
      c.utf8Size = 1 := by
    intro c hBlank
    simp only [Lexer.isIndentation, Bool.or_eq_true,
      beq_iff_eq] at hBlank
    rcases hBlank with rfl | rfl <;> rfl
  have hText :
      [] ++ source.text.takeWhile Lexer.isIndentation
          ++ source.text.dropWhile Lexer.isIndentation =
        source.text :=
    List.takeWhile_append_dropWhile
  have hBump := bump?_behind hText.symm
  rw [byteSize_takeWhile hNarrow] at hBump
  unfold indented?
  split
  · exact hBump
  · next hNone =>
      have hNil : source.text.takeWhile Lexer.isIndentation =
          [] :=
        (Lexer.width_eq_zero_iff _).mp
          (Nat.eq_zero_of_not_pos hNone)
      rw [hNil]
      rfl

/- A line has the same tokens and faults in bytes. -/
theorem line?_eq
    (hFeed : '\n' ∉ source.text) :
    line? source =
      some
        ((Lexer.line source).1.stream,
          (Lexer.line source).2) := by
  have hText : source.text =
      source.text.takeWhile Lexer.isIndentation
        ++ source.text.dropWhile Lexer.isIndentation :=
    List.takeWhile_append_dropWhile.symm
  have hStop :=
    Scanner.position_behind hFeed
      (List.append_nil source.text).symm
  unfold line? Lexer.line
  split
  · rfl
  · simp only [Scanner.indented?_start, body?_eq hFeed hText,
      hStop, Option.bind_eq_bind, Option.bind_some,
      Line.stream, FilledLine.stream]
    cases Lexer.width
        (source.text.takeWhile Lexer.isIndentation) with
    | zero => rfl
    | succ n => rfl

end ByteLexer

end Dialectic
