import Dialectic.Export.Dot

/-
  How the DOT language is read, line by line: words, texts in
  quotation marks and signs make up statements.  What is
  written in quotation marks ends at the first mark that is
  not escaped, and is read as what it was written for.

  Key definitions include:
    * `Dot.unquote?`
    * `Dot.tokens?`
    * `Dot.Reads`
    * `Dot.Item`
    * `Dot.read?`

  Main theorems:
    * `Dot.unquote?_quote`
    * `Dot.Reads.append`
    * `Dot.Reads.quoted`
    * `Dot.Reads.word`
-/

namespace Dialectic

namespace Dot

------------------------------------------------------------
-- Texts
------------------------------------------------------------

/- The character that one behind a backslash stands for. -/
def unescaped (c : Char) : Char :=
  if c = 'n' then '\n' else c

/-
  Read a text up to the first quotation mark that no backslash
  stands before.  Also gives what stands behind that mark.
-/
def textFrom? (read : List Char) :
    List Char → Option (String × List Char)
| [] => none
| '"' :: cs => some (String.ofList read, cs)
| ['\\'] => none
| '\\' :: c :: cs => textFrom? (read ++ [unescaped c]) cs
| c :: cs => textFrom? (read ++ [c]) cs

/- Read a text in quotation marks. -/
def unquote? : List Char → Option (String × List Char)
| '"' :: cs => textFrom? [] cs
| _ => none

/-
  A character stays as it is, if that has no meaning in a text,
  or stands behind a backslash, perhaps as another one.
-/
theorem quoteChar_cases (c : Char) :
    (quoteChar c = [c] ∧ c ≠ '"' ∧ c ≠ '\\' ∧ c ≠ '\n') ∨
      ∃ d, quoteChar c = ['\\', d] ∧ unescaped d = c ∧
        d ≠ '\n' := by
  unfold quoteChar
  split
  · exact Or.inr ⟨'"', rfl, rfl, by decide⟩
  · exact Or.inr ⟨'\\', rfl, rfl, by decide⟩
  · exact Or.inr ⟨'n', rfl, rfl, by decide⟩
  · next hQuote hEscape hFeed =>
      exact Or.inl ⟨rfl, hQuote, hEscape, hFeed⟩

/- What is written for some characters is read as these. -/
theorem textFrom?_quoteChar (read cs rest : List Char) :
    textFrom? read (cs.flatMap quoteChar ++ '"' :: rest) =
      some (String.ofList (read ++ cs), rest) := by
  induction cs generalizing read with
  | nil => simp [textFrom?]
  | cons c cs ih =>
      rw [List.flatMap_cons, List.append_assoc]
      rcases quoteChar_cases c with
        ⟨hPlain, hQuote, hEscape, _⟩ | ⟨d, hEscaped, hMeant, _⟩
      · rw [hPlain, List.singleton_append, textFrom?, ih]
        · simp
        · exact hQuote
        · rintro rfl
          exact absurd rfl hEscape
        · intro _ _ hSame
          exact absurd hSame hEscape
      · rw [hEscaped, List.cons_append, List.cons_append,
          List.nil_append, textFrom?, hMeant, ih]
        simp

/-
  A text in quotation marks ends at the first mark that is not
  escaped, and is read as the text it was written for.
-/
theorem unquote?_quote (s : String) (rest : List Char) :
    unquote? ((quote s).toList ++ rest) = some (s, rest) := by
  have hQuote :
      (quote s).toList ++ rest =
        '"' :: (s.toList.flatMap quoteChar ++ '"' :: rest) := by
    simp [quote]
  rw [hQuote, unquote?, textFrom?_quoteChar, List.nil_append,
    String.ofList_toList]

-- a backslash before a quotation mark, and what follows
example :
    unquote? ((quote "a\\\"\nb").toList ++ [']', ';']) =
      some ("a\\\"\nb", [']', ';']) := by
  decide

/- No text in quotation marks goes over several lines. -/
theorem feed_not_mem_quote (s : String) :
    '\n' ∉ (quote s).toList := by
  have hText : '\n' ∉ s.toList.flatMap quoteChar := by
    rw [List.mem_flatMap]
    rintro ⟨c, _, hFeed⟩
    rcases quoteChar_cases c with
      ⟨hPlain, _, _, hOther⟩ | ⟨d, hEscaped, _, hOther⟩
    · rw [hPlain, List.mem_singleton] at hFeed
      exact hOther hFeed.symm
    · simp [hEscaped] at hFeed
      exact hOther hFeed.symm
  simpa [quote] using hText

------------------------------------------------------------
-- Tokens
------------------------------------------------------------

/- A word, a text in quotation marks, or another sign. -/
inductive Token where
| word (s : String)
| text (s : String)
| sign (c : Char)
deriving DecidableEq, Repr

/- Where reading is: in a word, a text, or between tokens. -/
inductive Mode where
| between
| word (read : List Char)
| text (read : List Char)
| escape (read : List Char)
deriving DecidableEq, Repr

/- The tokens that have been read, and where reading is. -/
structure Scan where
  tokens : List Token
  mode : Mode
deriving DecidableEq, Repr

/- A character of a word. -/
def isWordChar (c : Char) : Bool :=
  c.isAlphanum || c == '_'

namespace Scan

/- Read a character between tokens. -/
def start (tokens : List Token) (c : Char) : Scan :=
  if isWordChar c then ⟨tokens, .word [c]⟩
  else if c = '"' then ⟨tokens, .text []⟩
  else if c = ' ' then ⟨tokens, .between⟩
  else ⟨tokens ++ [.sign c], .between⟩

/- Read a character. -/
def next (s : Scan) (c : Char) : Scan :=
  match s.mode with
  | .between => start s.tokens c
  | .word read =>
      if isWordChar c then ⟨s.tokens, .word (read ++ [c])⟩
      else start (s.tokens ++ [.word (String.ofList read)]) c
  | .text read =>
      if c = '"' then
        ⟨s.tokens ++ [.text (String.ofList read)], .between⟩
      else if c = '\\' then ⟨s.tokens, .escape read⟩
      else ⟨s.tokens, .text (read ++ [c])⟩
  | .escape read => ⟨s.tokens, .text (read ++ [unescaped c])⟩

/- What has been read, with tokens before it. -/
def behind (s : Scan) (before : List Token) : Scan :=
  ⟨before ++ s.tokens, s.mode⟩

/- Tokens that were read before do not matter. -/
theorem start_behind
    (before tokens : List Token)
    (c : Char) :
    start (before ++ tokens) c =
      (start tokens c).behind before := by
  by_cases hWord : isWordChar c = true
  · simp [start, hWord, behind]
  · by_cases hQuote : c = '"'
    · subst hQuote
      rfl
    · by_cases hBlank : c = ' '
      · subst hBlank
        rfl
      · simp [start, hWord, hQuote, hBlank, behind]

/- Tokens that were read before do not matter. -/
theorem next_behind
    (s : Scan)
    (before : List Token)
    (c : Char) :
    (s.behind before).next c = (s.next c).behind before := by
  rcases s with ⟨tokens, mode⟩
  cases mode with
  | between => exact start_behind before tokens c
  | word read =>
      by_cases hWord : isWordChar c = true
      · simp [next, hWord, behind]
      · simp [next, hWord, behind, start_behind]
  | text read =>
      by_cases hQuote : c = '"'
      · simp [next, hQuote, behind]
      · by_cases hEscape : c = '\\' <;>
          simp [next, hQuote, hEscape, behind]
  | escape read => rfl

/- Tokens that were read before do not matter. -/
theorem foldl_behind
    (s : Scan)
    (before : List Token)
    (cs : List Char) :
    cs.foldl next (s.behind before) =
      (cs.foldl next s).behind before := by
  induction cs generalizing s with
  | nil => rfl
  | cons c cs ih =>
      rw [List.foldl_cons, next_behind, ih, List.foldl_cons]

/- After a text that has been read, reading goes on. -/
theorem foldl_text
    {tokens : List Token}
    {read cs rest : List Char}
    {s : String}
    (hText : textFrom? read cs = some (s, rest)) :
    cs.foldl next ⟨tokens, .text read⟩ =
      rest.foldl next ⟨tokens ++ [.text s], .between⟩ := by
  fun_induction textFrom? read cs with
  | case1 => cases hText
  | case2 read cs =>
      cases hText
      rfl
  | case3 => cases hText
  | case4 read c cs ih => exact ih hText
  | case5 read c cs hQuote hLast hEscape ih =>
      have hPlain : c ≠ '\\' := by
        rintro rfl
        cases cs with
        | nil => cases hText
        | cons d cs => exact hEscape d cs rfl rfl
      rw [← ih hText, List.foldl_cons]
      congr 1
      simp only [next, if_neg hPlain]
      exact if_neg hQuote

end Scan

/- The tokens of a line, if all texts in it end. -/
def tokens? (line : List Char) : Option (List Token) :=
  let s := line.foldl Scan.next ⟨[], .between⟩
  match s.mode with
  | .between => some s.tokens
  | .word read => some (s.tokens ++ [.word (String.ofList read)])
  | .text _ => none
  | .escape _ => none

------------------------------------------------------------
-- Pieces of Lines
------------------------------------------------------------

/-
  A piece of a line is read as some tokens, and reading is
  between tokens before and after it.
-/
structure Reads (cs : List Char) (ts : List Token) : Prop where
  oneLine : '\n' ∉ cs
  scan : cs.foldl Scan.next ⟨[], .between⟩ = ⟨ts, .between⟩

namespace Reads

variable {cs ds : List Char}
variable {ts us : List Token}

/- A piece is read in the same way behind other tokens. -/
theorem foldl (hReads : Reads cs ts) (before : List Token) :
    cs.foldl Scan.next ⟨before, .between⟩ =
      ⟨before ++ ts, .between⟩ := by
  have hBehind :=
    Scan.foldl_behind ⟨[], .between⟩ before cs
  rw [hReads.scan] at hBehind
  simpa [Scan.behind] using hBehind

/- Nothing is read as no tokens. -/
theorem nil : Reads [] [] :=
  ⟨List.not_mem_nil, rfl⟩

/- Pieces are read one after the other. -/
theorem append (hReads : Reads cs ts) (hNext : Reads ds us) :
    Reads (cs ++ ds) (ts ++ us) := by
  constructor
  · rw [List.mem_append, not_or]
    exact ⟨hReads.oneLine, hNext.oneLine⟩
  · rw [List.foldl_append, hReads.scan, hNext.foldl]

/- A text in quotation marks is read as this text. -/
theorem quoted (s : String) :
    Reads (quote s).toList [.text s] := by
  have hText := unquote?_quote s []
  refine ⟨feed_not_mem_quote s, ?_⟩
  have hQuote : (quote s).toList =
      '"' :: (s.toList.flatMap quoteChar ++ ['"']) := by
    simp [quote]
  rw [List.append_nil, hQuote, unquote?] at hText
  rw [hQuote, List.foldl_cons]
  exact Scan.foldl_text hText

/- Blanks are skipped. -/
theorem blanks (k : Nat) : Reads (List.replicate k ' ') [] := by
  induction k with
  | zero => exact nil
  | succ k ih =>
      have hBlank : Reads [' '] [] := ⟨by decide, by decide⟩
      exact hBlank.append ih

end Reads

/- A name of letters and digits, and not the empty one. -/
def IsWord (s : String) : Prop :=
  s.toList ≠ [] ∧ ∀ c ∈ s.toList, isWordChar c = true

-- The bound on `c` is decided over the characters of `s` only,
-- not over all characters there are.
instance (s : String) : Decidable (IsWord s) :=
  decidable_of_iff
    (s.toList.isEmpty = false ∧ s.toList.all isWordChar = true)
    (by simp [IsWord])

/- The characters of a word stay in it. -/
theorem foldl_word
    (tokens : List Token)
    (read : List Char)
    {cs : List Char}
    (hWord : ∀ c ∈ cs, isWordChar c = true) :
    cs.foldl Scan.next ⟨tokens, .word read⟩ =
      ⟨tokens, .word (read ++ cs)⟩ := by
  induction cs generalizing read with
  | nil => simp
  | cons c cs ih =>
      have hFirst : Scan.next ⟨tokens, .word read⟩ c =
          ⟨tokens, .word (read ++ [c])⟩ :=
        if_pos (hWord c List.mem_cons_self)
      rw [List.foldl_cons, hFirst,
        ih _ (fun d hd => hWord d (List.mem_cons_of_mem c hd)),
        List.append_assoc, List.singleton_append]

/- A word ends where another character follows. -/
theorem Reads.word
    {s : String}
    (hWord : IsWord s)
    {c : Char}
    (hOther : isWordChar c = false)
    {cs : List Char}
    {ts : List Token}
    (hReads : Reads (c :: cs) ts) :
    Reads (s.toList ++ c :: cs) (.word s :: ts) := by
  rcases hWord with ⟨hSome, hChars⟩
  constructor
  · rw [List.mem_append, not_or]
    refine ⟨fun hFeed => ?_, hReads.oneLine⟩
    exact absurd (hChars _ hFeed) (by decide)
  · cases hList : s.toList with
    | nil => exact absurd hList hSome
    | cons d ds =>
        rw [hList, List.forall_mem_cons] at hChars
        have hFirst : Scan.next ⟨[], .between⟩ d =
            ⟨[], .word [d]⟩ := if_pos hChars.1
        have hEnd : Scan.next ⟨[], .word (d :: ds)⟩ c =
            Scan.next ⟨[.word s], .between⟩ c := by
          rw [← String.ofList_toList (s := s), hList]
          simp [Scan.next, hOther]
        rw [List.cons_append, List.foldl_cons,
          List.foldl_append, hFirst, foldl_word _ _ hChars.2,
          List.singleton_append, List.foldl_cons, hEnd,
          ← List.foldl_cons]
        exact hReads.foldl [.word s]

------------------------------------------------------------
-- Statements
------------------------------------------------------------

/-
  What a line says: it opens the graph or a cluster in it,
  closes the last of these, sets a property, or declares a
  node or an edge with its properties.
-/
inductive Item where
| graph (name : String)
| cluster (name : String)
| close
| setting (name value : String)
| node (id : String) (properties : List (String × String))
| edge
    (source target : String)
    (properties : List (String × String))
| blank
deriving DecidableEq, Repr

/- The value that a word or a text gives. -/
def value? : Token → Option String
| .word s => some s
| .text s => some s
| .sign _ => none

/- The properties in brackets at the end of a statement. -/
def properties? : List Token → Option (List (String × String))
| [.word name, .sign '=', value, .sign ']', .sign ';'] =>
    (value? value).map (fun v => [(name, v)])
| .word name :: .sign '=' :: value :: .sign ',' :: rest =>
    (value? value).bind (fun v =>
      (properties? rest).map (fun ps => (name, v) :: ps))
| _ => none

namespace Item

/- What the tokens of a line say. -/
def ofTokens? : List Token → Option Item
| [] => some .blank
| [.sign '\x7d'] => some .close
| [.word "digraph", .text name, .sign '\x7b'] =>
    some (.graph name)
| [.word "subgraph", .word name, .sign '\x7b'] =>
    some (.cluster name)
| [.word name, .sign '=', value, .sign ';'] =>
    (value? value).map (.setting name)
| .word id :: .sign '[' :: rest =>
    (properties? rest).map (.node id)
| .word source :: .sign '-' :: .sign '>' :: .word target
    :: .sign '[' :: rest =>
    (properties? rest).map (.edge source target)
| _ => none

/- What a line says. -/
def ofLine? (line : List Char) : Option Item :=
  (tokens? line).bind ofTokens?

end Item

/- The lines of a text, each of which ends with a line feed. -/
def linesOf : List Char → List (List Char)
| [] => []
| '\n' :: cs => [] :: linesOf cs
| c :: cs =>
    match linesOf cs with
    | [] => [[c]]
    | line :: rest => (c :: line) :: rest

/- What the lines of a text say, each for itself. -/
def read? (text : String) : Option (List Item) :=
  (linesOf text.toList).mapM Item.ofLine?

end Dot

end Dialectic
