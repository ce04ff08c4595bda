import Dialectic.Proofs.Document.Blanking
import Dialectic.Proofs.Document.Joining
import Dialectic.Proofs.Document.PaddedLines
import Dialectic.Proofs.Document.Stacking
import Dialectic.Proofs.Document.Tokens

/-
  The shape of the tokens of a document: those of each line
  after the front matter, in order, between the token of the
  front matter and that of the end.

  Key definitions include:
    * `Lexer.Fronted`
    * `Lexer.Content`
    * `Lexer.LineTokens`

  Main theorems:
    * `Lexer.frontOf_fronted`
    * `Lexer.line_tokens`
    * `Lexer.lex_tokens`
    * `Lexer.lex_pairwise`
-/

namespace Dialectic

namespace TokenKind

------------------------------------------------------------
-- Kinds of Tokens
------------------------------------------------------------

/- The head of an element: a definition or a reference. -/
def isHead : TokenKind → Bool
| statementDefinition _ => true
| statementReference _ => true
| argumentDefinition _ => true
| argumentReference _ => true
| _ => false

/- A token of the content of an element. -/
def isInline : TokenKind → Bool
| statementMention _ => true
| argumentMention _ => true
| tag _ => true
| data _ => true
| text _ => true
| _ => false

end TokenKind

namespace Lexer

/- What is found as the head of an element is one. -/
theorem head_isHead
    {cs : List Char}
    {kind : TokenKind}
    {length : Nat}
    (hToken : head cs = .token kind length) :
    kind.isHead = true := by
  unfold head at hToken
  split at hToken
  · split at hToken
    all_goals cases hToken
    all_goals rfl
  · split at hToken
    all_goals cases hToken
    all_goals rfl
  · cases hToken

/- What is found inside a line is a tag, a mention or data. -/
theorem item_isInline
    {afterBlank : Bool}
    {c : Char}
    {cs : List Char}
    {kind : TokenKind}
    {length : Nat}
    (hToken : item afterBlank c cs = .token kind length) :
    kind.isInline = true := by
  have hTag : ∀ cs, tag cs = .token kind length →
      kind.isInline = true := by
    intro cs hToken
    unfold tag at hToken
    split at hToken
    · split at hToken
      all_goals cases hToken
      rfl
    · simp only at hToken
      split at hToken <;> cases hToken
      rfl
  have hMention : ∀ cs, mention cs = .token kind length →
      kind.isInline = true := by
    intro cs hToken
    unfold mention at hToken
    split at hToken
    · split at hToken
      all_goals cases hToken
      rfl
    · split at hToken
      all_goals cases hToken
      rfl
    · cases hToken
  have hData : ∀ cs, data cs = .token kind length →
      kind.isInline = true := by
    intro cs hToken
    unfold data at hToken
    split at hToken
    · split at hToken <;> cases hToken
      rfl
    · cases hToken
  unfold item at hToken
  split at hToken
  · split at hToken
    · exact hTag cs hToken
    · cases hToken
  · exact hMention cs hToken
  · exact hData _ hToken
  · cases hToken

/- What is found as the opening of a line is one. -/
theorem opening?_opensLine
    {indent : Nat}
    {cs : List Char}
    {kind : TokenKind}
    {length : Nat}
    (hFound : opening? indent cs = some (kind, length)) :
    kind.opensLine = true := by
  rcases opening?_cases hFound with
    ⟨_, rfl, _⟩ | ⟨_, rfl, _⟩ | ⟨_, rfl⟩ | ⟨_, rfl⟩ | rfl
  all_goals rfl

------------------------------------------------------------
-- The Content of a Line
------------------------------------------------------------

/-
  The tokens of the content of a line: what opens the line, if
  something does, the head of an element, if there is one, and
  inline tokens.
-/
structure Content
    (opening heads inlines : List Token) : Prop where
  opening : opening.length ≤ 1 ∧
    ∀ token ∈ opening, token.kind.opensLine = true
  heads : heads.length ≤ 1 ∧
    ∀ token ∈ heads, token.kind.isHead = true
  inlines : ∀ token ∈ inlines, token.kind.isInline = true

/- Inline tokens, alone. -/
theorem Content.of_inlines
    {inlines : List Token}
    (hInlines :
      ∀ token ∈ inlines, token.kind.isInline = true) :
    Content [] [] inlines :=
  ⟨⟨Nat.zero_le 1, fun _ hNone => (by cases hNone)⟩,
    ⟨Nat.zero_le 1, fun _ hNone => (by cases hNone)⟩, hInlines⟩

/- The head of an element, before inline tokens. -/
theorem Content.head
    {inlines : List Token}
    (hContent : Content [] [] inlines)
    {token : Token}
    (hHead : token.kind.isHead = true) :
    Content [] [token] inlines :=
  ⟨hContent.opening,
    ⟨Nat.le_refl 1, List.forall_mem_singleton.mpr hHead⟩,
    hContent.inlines⟩

/- What opens a line, before the rest of its content. -/
theorem Content.opens
    {heads inlines : List Token}
    (hContent : Content [] heads inlines)
    {token : Token}
    (hOpens : token.kind.opensLine = true) :
    Content [token] heads inlines :=
  ⟨⟨Nat.le_refl 1, List.forall_mem_singleton.mpr hOpens⟩,
    hContent.heads, hContent.inlines⟩

/- Text that has been read is not lost. -/
theorem inlineFrom_ne_nil
    (textStart : Position)
    {text : List Char}
    (hText : text ≠ [])
    (afterBlank : Bool)
    (skip : Nat)
    (position : Position)
    (cs : List Char) :
    (inlineFrom textStart text afterBlank skip position cs).1 ≠
      [] := by
  induction cs generalizing textStart text afterBlank skip
      position with
  | nil =>
      cases skip <;> simp [inlineFrom, textToken, hText]
  | cons c cs ih =>
      cases skip with
      | succ skip => exact ih _ hText _ _ _
      | zero =>
          unfold inlineFrom
          simp only
          cases item afterBlank c cs with
          | plain => exact ih _ (List.cons_ne_nil c text) _ _ _
          | broken cause =>
              exact ih _ (List.cons_ne_nil c text) _ _ _
          | token kind length => simp

/- Each text has some inline token, unless it is empty. -/
theorem inlineTokens_ne_nil
    (position : Position)
    {cs : List Char}
    (hSome : cs ≠ []) :
    (inlineTokens position cs).1 ≠ [] := by
  cases cs with
  | nil => exact absurd rfl hSome
  | cons c cs =>
      unfold inlineTokens inlineFrom
      simp only
      cases item true c cs with
      | plain =>
          exact
            inlineFrom_ne_nil _ (List.cons_ne_nil c []) _ _ _ _
      | broken cause =>
          exact
            inlineFrom_ne_nil _ (List.cons_ne_nil c []) _ _ _ _
      | token kind length => simp

/- The tokens of the content of a line after its opening. -/
theorem content_content
    (headAllowed : Bool)
    (position : Position)
    (cs : List Char) :
    ∃ heads inlines,
      (content headAllowed position cs).1 = heads ++ inlines ∧
        Content [] heads inlines ∧
        ((∃ c ∈ cs, Text.isBlank c = false) →
          heads ++ inlines ≠ []) := by
  have hInlines : ∀ (p : Position) (cs : List Char),
      Content [] [] (inlineTokens p cs).1 :=
    fun p cs =>
      .of_inlines
        (inlineFrom_forall (fun _ => rfl) item_isInline p [] true
          0 p cs)
  have hRest : (∃ c ∈ cs, Text.isBlank c = false) →
      cs.dropWhile Text.isBlank ≠ [] := by
    rintro ⟨c, hc, hMark⟩ hNone
    have hBlank := List.dropWhile_eq_nil_iff.mp hNone c hc
    rw [hMark] at hBlank
    cases hBlank
  unfold content
  simp only
  split
  · next kind length hItem =>
      split at hItem
      · exact
          ⟨[_], _, rfl, (hInlines _ _).head (head_isHead hItem),
            fun _ => List.cons_ne_nil _ _⟩
      · cases hItem
  · exact
      ⟨[], _, rfl, hInlines _ _,
        fun hSome => inlineTokens_ne_nil _ (hRest hSome)⟩
  · exact
      ⟨[], _, rfl, hInlines _ _,
        fun hSome => inlineTokens_ne_nil _ (hRest hSome)⟩

/- The tokens of a line after its indentation. -/
theorem body_content
    (indent : Nat)
    (position : Position)
    {cs : List Char}
    (hSome : ∃ c ∈ cs, Text.isBlank c = false) :
    ∃ opening heads inlines,
      (body indent position cs).1 =
          opening ++ heads ++ inlines ∧
        Content opening heads inlines ∧
        opening ++ heads ++ inlines ≠ [] := by
  unfold body
  split
  · next hFound =>
      exact
        ⟨[_], [], [], rfl,
          Content.opens
            (.of_inlines fun _ hNone => (by cases hNone))
            (opening?_opensLine hFound),
          List.cons_ne_nil _ _⟩
  · next length _ hFound =>
      rcases content_content _ (position.advanceBy _) _ with
        ⟨heads, inlines, hTokens, hContent, _⟩
      exact
        ⟨[_], heads, inlines, congrArg (_ :: ·) hTokens,
          hContent.opens (opening?_opensLine hFound),
          List.cons_ne_nil _ _⟩
  · rcases content_content true position cs with
      ⟨heads, inlines, hTokens, hContent, hMore⟩
    exact ⟨[], heads, inlines, hTokens, hContent, hMore hSome⟩

------------------------------------------------------------
-- Lines of Tokens
------------------------------------------------------------

/- The token of the indentation of a line, if it has one. -/
def indentationOf (source : SourceLine) : List Token :=
  let lead := source.text.takeWhile isIndentation
  if lead = [] then []
  else [⟨.indentation (width lead), source.start⟩]

/- An indentation is one token at the start of its line. -/
theorem indentationOf_cases (source : SourceLine) :
    indentationOf source = [] ∨
      ∃ kind, indentationOf source = [⟨kind, source.start⟩] := by
  by_cases hNone : source.text.takeWhile isIndentation = []
  · exact .inl (if_pos hNone)
  · exact .inr ⟨_, if_neg hNone⟩

/-
  The tokens of a line, all of which are on it.  One with blank
  characters only is a gap.  Any other one has its indentation
  and its content, and its end is that of its text.
-/
inductive LineTokens (source : SourceLine) :
    List Token → Prop where
| gap
    (hBlank : ∀ c ∈ source.text, Text.isBlank c = true) :
    LineTokens source [⟨.blankLine, source.start⟩]
| filled
    {opening heads inlines : List Token}
    {stop : Position}
    (hSome : ∃ c ∈ source.text, Text.isBlank c = false)
    (hContent : Content opening heads inlines)
    (hTokens : opening ++ heads ++ inlines ≠ [])
    (hLine : ∀ token ∈ opening ++ heads ++ inlines,
      token.position.line = source.number)
    (hStop : stop.line = source.number ∧
      stop.offset =
        source.offset + Text.byteSize source.text) :
    LineTokens source
      (indentationOf source ++ (opening ++ heads ++ inlines)
        ++ [⟨.lineEnd, stop⟩])

/- An indentation is at least as wide as it is long. -/
theorem length_le_width (lead : List Char) :
    lead.length ≤ width lead := by
  have hFrom : ∀ (cs : List Char) (n : Nat),
      n + cs.length ≤
        cs.foldl
          (fun n c => if c = '\t' then n + tabWidth else n + 1)
          n := by
    intro cs
    induction cs with
    | nil => exact fun n => Nat.le_refl n
    | cons c cs ih =>
        intro n
        have hTab : 1 ≤ tabWidth := by decide
        rw [List.foldl_cons, List.length_cons]
        refine Nat.le_trans ?_ (ih _)
        split <;> omega
  simpa [width] using hFrom lead 0

/- Only no indentation has no width. -/
theorem width_eq_zero_iff (lead : List Char) :
    width lead = 0 ↔ lead = [] := by
  constructor
  · intro hNone
    have hLength := length_le_width lead
    exact List.eq_nil_of_length_eq_zero (by omega)
  · rintro rfl
    rfl

/- What is not blank in a line is after its indentation. -/
theorem not_blank_after_indentation
    {cs : List Char}
    (hSome : ∃ c ∈ cs, Text.isBlank c = false) :
    ∃ c ∈ cs.dropWhile isIndentation,
      Text.isBlank c = false := by
  rcases hSome with ⟨c, hc, hMark⟩
  have hText : cs.takeWhile isIndentation
      ++ cs.dropWhile isIndentation = cs :=
    List.takeWhile_append_dropWhile
  rw [← hText, List.mem_append] at hc
  rcases hc with hLead | hRest
  · have hIndents := List.mem_takeWhile_imp hLead
    simp only [isIndentation, Bool.or_eq_true, beq_iff_eq]
      at hIndents
    rcases hIndents with rfl | rfl <;> cases hMark
  · exact ⟨c, hRest, hMark⟩

/- A line with content has its indentation first. -/
theorem filled_stream
    (source : SourceLine)
    (tokens : List Token)
    (stop : Position) :
    (Line.filled
      ⟨source.start,
        width (source.text.takeWhile isIndentation), tokens,
        stop⟩).stream =
      indentationOf source ++ tokens ++ [⟨.lineEnd, stop⟩] := by
  simp only [Line.stream, FilledLine.stream, indentationOf,
    width_eq_zero_iff]
  split <;> rfl

/- The tokens of a line are as its text says. -/
theorem line_tokens
    {source : SourceLine}
    (hFeed : '\n' ∉ source.text) :
    LineTokens source (line source).1.stream := by
  have hPlaces := (line_cuts source).tokens
  unfold line at hPlaces ⊢
  split
  · next hBlank =>
      exact .gap (List.all_eq_true.mp hBlank)
  · next hBlank =>
      rw [if_neg hBlank] at hPlaces
      have hSome : ∃ c ∈ source.text, Text.isBlank c = false := by
        simpa [SourceLine.isBlank, Text.allBlank] using hBlank
      rcases body_content
          (width (source.text.takeWhile isIndentation))
          (source.start.advanceBy
            (source.text.takeWhile isIndentation))
          (not_blank_after_indentation hSome) with
        ⟨opening, heads, inlines, hTokens, hContent, hMore⟩
      simp only [hTokens, filled_stream] at hPlaces ⊢
      refine .filled hSome hContent hMore ?_ ⟨?_, ?_⟩
      · intro token hToken
        refine ((hPlaces token ?_).on_line hFeed).1
        exact
          List.mem_append_left _
            (List.mem_append_right _ hToken)
      · exact Position.advanceBy_line source.start hFeed
      · exact Position.advanceBy_offset source.start source.text

------------------------------------------------------------
-- Front Matter
------------------------------------------------------------

/- The token of the front matter. -/
def FrontMatter.token (found : FrontMatter) : Token :=
  ⟨.frontMatter found.content, found.position⟩

/- The front matter between some fences. -/
def FrontMatter.between
    (opening : SourceLine)
    (inner : List SourceLine) : FrontMatter :=
  ⟨String.ofList (joinLines (inner.map SourceLine.text)),
    opening.start⟩

/-
  The front matter of some lines, the lines after it, and its
  faults.  It opens with a fence as the first line that is not
  blank, and closes with the next fence.  Without that it takes
  all lines.
-/
inductive Fronted :
    List SourceLine →
    Option FrontMatter × List SourceLine × List SyntaxFault →
    Prop where
| none
    {lines : List SourceLine}
    (hNone : ∀ blanks first below,
      lines = blanks ++ first :: below →
        (∀ line ∈ blanks, line.isBlank = true) →
          first.isBlank = false → first.isFence = false) :
    Fronted lines (.none, lines, [])
| closed
    {blanks inner rest : List SourceLine}
    {opening closing : SourceLine}
    (hBlanks : ∀ line ∈ blanks, line.isBlank = true)
    (hFirst : opening.isBlank = false)
    (hOpening : opening.isFence = true)
    (hInner : ∀ line ∈ inner, line.isFence = false)
    (hClosing : closing.isFence = true) :
    Fronted (blanks ++ opening :: inner ++ closing :: rest)
      (some (.between opening inner), rest, [])
| unclosed
    {blanks inner : List SourceLine}
    {opening : SourceLine}
    (hBlanks : ∀ line ∈ blanks, line.isBlank = true)
    (hFirst : opening.isBlank = false)
    (hOpening : opening.isFence = true)
    (hInner : ∀ line ∈ inner, line.isFence = false) :
    Fronted (blanks ++ opening :: inner)
      (some (.between opening inner), [],
        [⟨.unterminatedFrontMatter, opening.start⟩])

/- Lines up to the first one that is of some kind. -/
theorem split_at_first
    (p : SourceLine → Bool)
    (lines : List SourceLine) :
    (∀ line ∈ lines.takeWhile p, p line = true) ∧
      lines = lines.takeWhile p ++ lines.dropWhile p ∧
        ∀ first ∈ (lines.dropWhile p).head?, p first = false := by
  refine
    ⟨fun line hLine => List.mem_takeWhile_imp hLine,
      List.takeWhile_append_dropWhile.symm, ?_⟩
  intro first hFirst
  have hHead := List.head?_dropWhile_not p lines
  rw [Option.mem_def.mp hFirst] at hHead
  simpa using hHead

/- The front matter of some lines is as their fences say. -/
theorem frontOf_fronted (lines : List SourceLine) :
    Fronted lines (frontOf lines) := by
  cases hFront : frontMatter? lines with
  | none =>
      rw [frontOf_none hFront]
      refine .none ?_
      rintro blanks first below rfl hBefore hMark
      rw [frontMatter?_eq_none_iff,
        List.dropWhile_append_of_pos hBefore,
        List.dropWhile_cons_of_neg (by simp [hMark])] at hFront
      exact hFront first rfl
  | some front =>
      rw [frontOf, hFront]
      unfold frontMatter? at hFront
      rcases split_at_first SourceLine.isBlank lines with
        ⟨hBlanks, hLines, hFirst⟩
      generalize lines.takeWhile SourceLine.isBlank = blanks
        at hBlanks hLines
      cases hRest : lines.dropWhile SourceLine.isBlank with
      | nil =>
          rw [hRest] at hFront
          cases hFront
      | cons opening below =>
          rw [hRest] at hLines hFirst hFront
          simp only at hFront
          split at hFront
          · next hOpening =>
              rcases split_at_first (fun l => !l.isFence) below
                with
                ⟨hInner, hBelow, hClosing⟩
              simp only [Bool.not_eq_true', Bool.not_eq_false']
                at hInner hClosing
              generalize below.takeWhile (fun l => !l.isFence) =
                inner at hInner hBelow hFront
              cases hEnd :
                  below.dropWhile (fun l => !l.isFence) with
              | nil =>
                  rw [hEnd] at hBelow hFront
                  cases hFront
                  rw [hLines, hBelow, List.append_nil]
                  exact
                    .unclosed hBlanks (hFirst opening rfl)
                      hOpening hInner
              | cons closing after =>
                  rw [hEnd] at hBelow hClosing hFront
                  cases hFront
                  rw [hLines, hBelow, ← List.cons_append,
                    ← List.append_assoc]
                  exact
                    .closed hBlanks (hFirst opening rfl) hOpening
                      hInner (hClosing closing rfl)
          · cases hFront

/- The lines after the front matter are last, below its token. -/
theorem Fronted.below
    {lines rest : List SourceLine}
    {front : Option FrontMatter}
    {faults : List SyntaxFault}
    (hFronted : Fronted lines (front, rest, faults)) :
    ∃ skipped, lines = skipped ++ rest ∧
      ∀ token ∈ (front.map FrontMatter.token).toList,
        ∃ opening ∈ skipped, token.position = opening.start := by
  cases hFronted with
  | none hNone =>
      exact ⟨[], rfl, fun _ hToken => (by cases hToken)⟩
  | @closed blanks inner _ opening closing =>
      refine
        ⟨blanks ++ opening :: inner ++ [closing], by simp, ?_⟩
      intro token hToken
      rw [List.mem_singleton.mp hToken]
      exact ⟨opening, by simp, rfl⟩
  | @unclosed blanks inner opening =>
      refine ⟨blanks ++ opening :: inner, by simp, ?_⟩
      intro token hToken
      rw [List.mem_singleton.mp hToken]
      exact ⟨opening, by simp, rfl⟩

------------------------------------------------------------
-- The Tokens of a Document
------------------------------------------------------------

/- A token comes no later than another one, by its bytes. -/
def Token.Before (s t : Token) : Prop :=
  s.position.offset ≤ t.position.offset

/- The tokens of a line lie between its ends. -/
theorem line_bounds
    {source : SourceLine}
    (hFeed : '\n' ∉ source.text) :
    ∀ token ∈ (line source).1.stream,
      source.offset ≤ token.position.offset ∧
        token.position.offset ≤
          source.offset + Text.byteSize source.text :=
  fun token hToken =>
    (((line_cuts source).tokens token hToken).on_line hFeed).2

/- The tokens of a line are in order. -/
theorem line_pairwise
    {source : SourceLine}
    (hFeed : '\n' ∉ source.text) :
    (line source).1.stream.Pairwise Token.Before := by
  have hBounds := line_bounds hFeed
  unfold line at hBounds ⊢
  split at hBounds
  · next hBlank =>
      rw [if_pos hBlank]
      exact List.pairwise_singleton _ _
  · next hBlank =>
      rw [if_neg hBlank]
      have hBody := body_sorted
        (width (source.text.takeWhile isIndentation))
        (source.start.advanceBy
          (source.text.takeWhile isIndentation))
        (source.text.dropWhile isIndentation)
      have hStop : source.stop.offset =
          source.offset + Text.byteSize source.text :=
        Position.advanceBy_offset source.start source.text
      simp only [filled_stream] at hBounds ⊢
      -- the indentation comes first, and the end last
      refine List.pairwise_append.mpr
        ⟨List.pairwise_append.mpr ⟨?_, ?_, ?_⟩,
          List.pairwise_singleton _ _, ?_⟩
      · rcases indentationOf_cases source with hNone | ⟨_, hOne⟩
        · rw [hNone]
          exact List.Pairwise.nil
        · rw [hOne]
          exact List.pairwise_singleton _ _
      · exact hBody.order.imp And.right
      · intro first hFirst token hToken
        have hStart : first.position = source.start := by
          rcases indentationOf_cases source with
            hNone | ⟨_, hOne⟩
          · rw [hNone] at hFirst
            cases hFirst
          · rw [hOne] at hFirst
            rw [List.mem_singleton.mp hFirst]
        rw [Token.Before, hStart]
        exact
          (hBounds token
            (List.mem_append_left _
              (List.mem_append_right _ hToken))).1
      · intro token hToken last hLast
        rw [List.mem_singleton.mp hLast, Token.Before, hStop]
        exact (hBounds token (List.mem_append_left _ hToken)).2

/- The tokens of some lines. -/
def streams (sources : List SourceLine) : List (List Token) :=
  sources.map (fun source => (line source).1.stream)

/- Each of them is a token of a line, and lies in it. -/
theorem mem_streams
    {sources : List SourceLine}
    (hFeed : ∀ source ∈ sources, '\n' ∉ source.text)
    {token : Token}
    (hToken : token ∈ (streams sources).flatten) :
    ∃ source ∈ sources,
      source.offset ≤ token.position.offset ∧
        token.position.offset ≤
          source.offset + Text.byteSize source.text := by
  rcases List.mem_flatten.mp hToken with
    ⟨tokens, hTokens, hToken⟩
  rcases List.mem_map.mp hTokens with ⟨source, hSource, rfl⟩
  exact
    ⟨source, hSource,
      line_bounds (hFeed source hSource) token hToken⟩

/- The tokens of lines that follow each other are in order. -/
theorem streams_pairwise
    {sources : List SourceLine}
    (hSources : sources.Pairwise SourceLine.Above)
    (hFeed : ∀ source ∈ sources, '\n' ∉ source.text) :
    (streams sources).flatten.Pairwise Token.Before := by
  refine List.pairwise_flatten.mpr ⟨?_, ?_⟩
  · intro tokens hTokens
    rcases List.mem_map.mp hTokens with ⟨source, hSource, rfl⟩
    exact line_pairwise (hFeed source hSource)
  · rw [streams, List.pairwise_map]
    refine hSources.imp_of_mem ?_
    intro above below hAbove hBelow hOrder s hs t ht
    have hLast := (line_bounds (hFeed above hAbove) s hs).2
    have hFirst := (line_bounds (hFeed below hBelow) t ht).1
    have hApart := hOrder.2
    rw [Token.Before]
    omega

/- So are the tokens after that of the front matter. -/
theorem Fronted.pairwise
    {lines rest : List SourceLine}
    {front : Option FrontMatter}
    {faults : List SyntaxFault}
    (hFronted : Fronted lines (front, rest, faults))
    (hLines : lines.Pairwise SourceLine.Above)
    (hFeed : ∀ source ∈ lines, '\n' ∉ source.text) :
    ((front.map FrontMatter.token).toList
        ++ (streams rest).flatten).Pairwise Token.Before ∧
      ∀ token ∈ (front.map FrontMatter.token).toList
          ++ (streams rest).flatten,
        ∃ source ∈ lines,
          token.position.offset ≤
            source.offset + Text.byteSize source.text := by
  rcases hFronted.below with ⟨skipped, rfl, hFirst⟩
  rcases List.pairwise_append.mp hLines with
    ⟨_, hBelow, hAbove⟩
  have hRest : ∀ source ∈ rest, '\n' ∉ source.text :=
    fun source hSource =>
      hFeed source (List.mem_append_right _ hSource)
  constructor
  · refine List.pairwise_append.mpr
      ⟨?_, streams_pairwise hBelow hRest, ?_⟩
    · cases front with
      | none => exact List.Pairwise.nil
      | some found => exact List.pairwise_singleton _ _
    · intro s hs t ht
      rcases hFirst s hs with ⟨opening, hSkipped, hPlace⟩
      rcases mem_streams hRest ht with
        ⟨source, hSource, hStart, _⟩
      have hApart := (hAbove opening hSkipped source hSource).2
      rw [Token.Before, hPlace]
      change opening.offset ≤ _
      omega
  · intro token hToken
    rcases List.mem_append.mp hToken with hHere | hLater
    · rcases hFirst token hHere with ⟨opening, hSkipped, hPlace⟩
      rw [hPlace]
      exact
        ⟨opening, List.mem_append_left _ hSkipped,
          Nat.le_add_right _ _⟩
    · rcases mem_streams hRest hLater with
        ⟨source, hSource, _, hStop⟩
      exact ⟨source, List.mem_append_right _ hSource, hStop⟩

/- Blanking its comments leaves a text as many bytes. -/
theorem byteSize_blank (cs : List Char) :
    Text.byteSize (Comment.blank cs).1 = Text.byteSize cs := by
  rw [Comment.blank_eq, Comment.byteSize_flatMap_shown,
    Comment.marks_fst]

/- A line of a text ends no later than the text. -/
theorem stop_le
    {text : List Char}
    {source : SourceLine}
    (hSource : source ∈ SourceLine.ofText text) :
    source.offset + Text.byteSize source.text ≤
      Text.byteSize text := by
  rcases SourceLine.ofText_standsIn text source hSource with
    ⟨before, after, hText, hStart, _⟩
  have hOffset : source.offset = (Position.ofEnd before).offset :=
    congrArg Position.offset hStart
  rw [hOffset, Position.ofEnd_offset, hText,
    Text.byteSize_append, Text.byteSize_append]
  exact Nat.le_add_right _ _

/- The tokens of a text, line by line. -/
theorem lex_tokens
    {input : String}
    {front : Option FrontMatter}
    {rest : List SourceLine}
    {faults : List SyntaxFault}
    (hFront :
      frontOf (SourceLine.ofText (Comment.blank input.toList).1) =
        (front, rest, faults)) :
    (lex input).tokens =
      (front.map FrontMatter.token).toList
        ++ (streams rest).flatten
        ++ [⟨.documentEnd, Position.ofEnd input.toList⟩] := by
  rw [lex_eq, hFront]
  simp only [Lexed.tokens, linesOf, streams, List.flatMap_def,
    List.map_map]
  cases front <;> rfl

/- The tokens of a document are in order. -/
theorem lex_pairwise (input : String) :
    (lex input).tokens.Pairwise Token.Before := by
  have hFronted := frontOf_fronted
    (SourceLine.ofText (Comment.blank input.toList).1)
  rcases hFront : frontOf
      (SourceLine.ofText (Comment.blank input.toList).1) with
    ⟨front, rest, faults⟩
  rw [hFront] at hFronted
  rcases hFronted.pairwise (SourceLine.ofText_pairwise _)
      (SourceLine.ofText_noFeed _) with
    ⟨hOrder, hBounds⟩
  rw [lex_tokens hFront]
  refine List.pairwise_append.mpr
    ⟨hOrder, List.pairwise_singleton _ _, ?_⟩
  intro token hToken last hLast
  rcases hBounds token hToken with ⟨source, hSource, hStop⟩
  rw [List.mem_singleton.mp hLast, Token.Before,
    Position.ofEnd_offset, ← byteSize_blank]
  exact hStop.trans (stop_le hSource)

end Lexer

end Dialectic
