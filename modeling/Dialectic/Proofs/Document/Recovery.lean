import Dialectic.Notation.Yaml.Reader
import Dialectic.Proofs.Document.Joining
import Dialectic.Proofs.Document.Reading
import Dialectic.Proofs.Document.Simulation
import Dialectic.Proofs.Text.Squeezing

/-
  Whatever is wrong at the end of a text, what follows it from
  a heading on is read as it is alone.

  Key definitions include:
    * `Parser.titleOf`
    * `SourceLine.headingTitle?`
    * `Document.opensWithHeading`

  Main theorems:
    * `Lexer.lex_heading`
    * `Parser.assemble_heading`
    * `Parser.pieces_shift`
    * `Parser.blocks_join`
    * `Document.read_eq`
    * `Document.read_join`
-/

namespace Dialectic

------------------------------------------------------------
-- Headings
------------------------------------------------------------

/- The title of a heading with some tokens after its signs. -/
def Parser.titleOf (tokens : List Token) : String :=
  (tokens.foldl
    (fun content token => content.addToken token.kind)
    Inline.empty).squeezed

/- The title of the heading that a line is, if it is one. -/
def SourceLine.headingTitle? (source : SourceLine) :
    Option String :=
  (Lexer.heading? source.text).map
    (fun opening =>
      Parser.titleOf
        (Lexer.content false
          (source.start.advanceBy
            (source.text.take opening.2))
          (source.text.drop opening.2)).1)

/- The first line of a text is a heading with a title. -/
def Document.opensWithHeading (input : String) : Bool :=
  let sources :=
    SourceLine.ofText (Comment.blank input.toList).1
  (sources.head?.bind SourceLine.headingTitle?).any
    (fun title => !title.isEmpty)

namespace Lexer

/- A heading starts with a number sign. -/
theorem heading?_some
    {cs : List Char}
    {kind : TokenKind}
    {length : Nat}
    (hFound : heading? cs = some (kind, length)) :
    kind = .heading length ∧ ∃ after, cs = '#' :: after := by
  unfold heading? at hFound
  simp only at hFound
  split at hFound <;> cases hFound
  next hLevel =>
    refine ⟨rfl, ?_⟩
    rcases cs with _ | ⟨c, cs⟩
    · simp at hLevel
    · by_cases hSign : c = '#'
      · exact ⟨cs, by rw [hSign]⟩
      · simp [hSign] at hLevel

/- A line that is a heading is neither blank nor a fence. -/
theorem heading_apart
    {source : SourceLine}
    {after : List Char}
    (hText : source.text = '#' :: after) :
    source.isBlank = false ∧ source.isFence = false := by
  constructor
  · rw [SourceLine.isBlank, hText]
    rfl
  · have hPrefix := Text.trimEnd_prefix ('#' :: after)
    have hTrim : Text.trim ('#' :: after) =
        Text.trimEnd ('#' :: after) :=
      rfl
    rw [SourceLine.isFence, hText, hTrim]
    apply beq_eq_false_iff_ne.mpr
    intro hSigns
    rw [hSigns, List.cons_prefix_cons] at hPrefix
    exact absurd hPrefix.1 (by decide)

/- The tokens of a line that is a heading. -/
theorem line_heading
    {source : SourceLine}
    {kind : TokenKind}
    {length : Nat}
    (hFound : heading? source.text = some (kind, length)) :
    ∃ line, (Lexer.line source).1 = .filled line ∧
      line.indent = 0 ∧
      line.tokens =
        ⟨.heading length, source.start⟩
          :: (content false
            (source.start.advanceBy (source.text.take length))
            (source.text.drop length)).1 := by
  rcases heading?_some hFound with ⟨rfl, after, hText⟩
  have hLead : source.text.takeWhile isIndentation = [] := by
    rw [hText]
    rfl
  have hRest :
      source.text.dropWhile isIndentation = source.text := by
    rw [hText]
    rfl
  have hOpening :
      opening? 0 source.text =
        some (.heading length, length) := by
    simp [opening?, hFound]
  unfold Lexer.line
  rw [if_neg (by simp [(heading_apart hText).1]), hLead, hRest]
  refine ⟨_, rfl, rfl, ?_⟩
  have hBody :
      body 0 source.start source.text =
        (⟨.heading length, source.start⟩
            :: (content false
              (source.start.advanceBy
                (source.text.take length))
              (source.text.drop length)).1,
          (content false
            (source.start.advanceBy (source.text.take length))
            (source.text.drop length)).2) := by
    simp only [body, hOpening]
  exact congrArg Prod.fst hBody

/-
  A text that opens with a heading has no front matter, and a
  line with a title after the signs comes first.
-/
theorem lex_heading
    {input : String}
    (hHeading : Document.opensWithHeading input = true) :
    (∃ source sources,
        SourceLine.ofText (Comment.blank input.toList).1 =
            source :: sources ∧
          source.isBlank = false ∧ source.isFence = false) ∧
      (lex input).frontMatter = none ∧
      ∃ line rest level p tokens,
        (lex input).lines = .filled line :: rest ∧
          line.tokens = ⟨.heading level, p⟩ :: tokens ∧
          (Parser.titleOf tokens).isEmpty = false := by
  unfold Document.opensWithHeading at hHeading
  cases hLines :
      SourceLine.ofText (Comment.blank input.toList).1 with
  | nil => simp [hLines] at hHeading
  | cons source sources =>
      cases hFound : heading? source.text with
      | none =>
          simp [hLines, SourceLine.headingTitle?, hFound]
            at hHeading
      | some opening =>
          rcases opening with ⟨kind, length⟩
          rcases heading?_some hFound with ⟨_, after, hText⟩
          rcases heading_apart hText with ⟨hBlank, hFence⟩
          rcases line_heading hFound with
            ⟨line, hLine, _, hTokens⟩
          have hNone : frontMatter? (source :: sources) = none :=
            @frontMatter?_below [] sources
              (fun _ hGap => (by cases hGap)) source hBlank
              hFence
          have hLex : lex input = _ := lex_eq input
          rw [hLines, frontOf_none hNone] at hLex
          refine ⟨⟨source, sources, rfl, hBlank, hFence⟩, ?_⟩
          rw [hLex]
          refine ⟨rfl, line, (linesOf sources).1, _, _, _, ?_,
            hTokens, ?_⟩
          · simp [linesOf, hLine]
          · simpa [hLines, SourceLine.headingTitle?, hFound]
              using hHeading

end Lexer

namespace Parser

/- The text that a token adds does not depend on the rest. -/
theorem addToken_text
    {content content' : Inline}
    (hText : content.text = content'.text)
    (kind : TokenKind) :
    (content.addToken kind).text =
      (content'.addToken kind).text := by
  cases kind <;>
    simp [Inline.addToken, Inline.addText, Inline.addTag,
      Inline.addMention, hText]

/- Data does not matter for the text that is read. -/
theorem inlineAfter_text
    [YamlReader]
    (policy : FaultPolicy)
    {content content' : Inline}
    (hText : content.text = content'.text)
    (tokens : List Token) :
    Returns (inlineAfter policy content tokens)
      (fun found =>
        found.text =
          (tokens.foldl
            (fun content token => content.addToken token.kind)
            content').text) := by
  induction tokens generalizing content content' with
  | nil => exact returns_pure hText
  | cons token tokens ih =>
      rcases token with ⟨kind, p⟩
      cases kind with
      | data text =>
          refine
            returns_bind (returns_any _) (fun fields _ => ?_)
          cases fields with
          | none => exact ih hText
          | some fields => exact ih hText
      | _ => exact ih (addToken_text hText _)

/- A heading with a title is read. -/
theorem heading_returns
    [YamlReader]
    (policy : FaultPolicy)
    (level : Nat)
    {tokens : List Token}
    (hTitle : (titleOf tokens).isEmpty = false)
    (line : FilledLine) :
    Returns (heading policy level tokens line)
      (fun found => ∃ h, found = some h) := by
  refine
    returns_bind (inlineAfter_text policy rfl tokens)
      (fun content hText => ?_)
  have hSame : content.squeezed = titleOf tokens := by
    rw [titleOf, Inline.squeezed, Inline.squeezed, hText]
  simp only [hSame, hTitle]
  exact returns_pure ⟨_, rfl⟩

/- The first piece of lines that open with a heading. -/
theorem pieces_heading
    [YamlReader]
    (policy : FaultPolicy)
    (fuel : Nat)
    {line : FilledLine}
    {level : Nat}
    {p : Position}
    {tokens : List Token}
    (hTokens : line.tokens = ⟨.heading level, p⟩ :: tokens)
    (hTitle : (titleOf tokens).isEmpty = false)
    (rest : List Line) :
    Returns (pieces policy (fuel + 1) (.filled line :: rest))
      (fun found =>
        ∃ h more, found = .block (.heading h) :: more) := by
  have hPiece :
      Returns (piece policy fuel line rest)
        (fun read =>
          ∃ h, read.1 = some (.block (.heading h))) := by
    unfold piece
    simp only [hTokens]
    refine
      returns_bind (heading_returns policy level hTitle line)
        (fun found hFound => ?_)
    rcases hFound with ⟨h, rfl⟩
    exact returns_pure ⟨h, rfl⟩
  refine returns_bind hPiece (fun read hRead => ?_)
  rcases hRead with ⟨h, hSome⟩
  refine returns_bind (returns_any _) (fun more _ => ?_)
  exact returns_pure ⟨h, more, by rw [hSome]; rfl⟩

------------------------------------------------------------
-- Blocks
------------------------------------------------------------

/- A piece is put to the last block or after it. -/
theorem grow_append
    (first : Block)
    (blocks earlier : List Block)
    (piece : Piece) :
    ∃ next more,
      grow (first :: blocks) piece = next :: more ∧
        grow (first :: blocks ++ earlier) piece =
          next :: more ++ earlier := by
  cases piece with
  | block found => exact ⟨found, first :: blocks, rfl, rfl⟩
  | reconstruction r =>
      rcases first with h | ⟨e | e, related, found?, span⟩
      · exact ⟨_, _, rfl, rfl⟩
      · exact ⟨_, _, rfl, rfl⟩
      · cases found? <;> exact ⟨_, _, rfl, rfl⟩

/- What follows a heading does not matter for what is before. -/
theorem assemble_heading
    (first : List Piece)
    (h : Heading)
    (more : List Piece) :
    assemble (first ++ .block (.heading h) :: more) =
      assemble first
        ++ assemble (.block (.heading h) :: more) := by
  have hFold : ∀ (found : List Piece) (last : Block) blocks
      earlier,
      found.foldl grow (last :: blocks ++ earlier) =
        found.foldl grow (last :: blocks) ++ earlier := by
    intro found
    induction found with
    | nil => exact fun _ _ _ => rfl
    | cons piece found ih =>
        intro last blocks earlier
        rcases grow_append last blocks earlier piece with
          ⟨next, more, hAlone, hAfter⟩
        rw [List.foldl_cons, List.foldl_cons, hAlone, hAfter,
          ih]
  have hLast :=
    hFold more (.heading h) [] (first.foldl grow [])
  simp only [assemble_eq, List.foldl_append, List.foldl_cons]
  rw [← List.reverse_append]
  exact congrArg List.reverse hLast

/- A piece that moves down is put to blocks that do. -/
theorem grow_shift
    (d : Shift)
    (blocks : List Block)
    (piece : Piece) :
    grow (blocks.map (Block.shift d)) (piece.shift d) =
      (grow blocks piece).map (Block.shift d) := by
  cases piece with
  | block found => rfl
  | reconstruction r =>
      rcases blocks with
        _ | ⟨h | ⟨e | e, related, found?, span⟩, blocks⟩
      · rfl
      · rfl
      · rfl
      · cases found? with
        | some other => rfl
        | none =>
            have hSpan :=
              Span.merge_shift (d := d) span r.span
            simp only [List.map_cons, Block.shift,
              ElementBlock.shift, Entry.shift, Piece.shift,
              Option.map_none, grow, attach, Option.map_some]
            rw [← hSpan]
            rfl

/- Pieces that move down are put together as before. -/
theorem assemble_shift (d : Shift) (found : List Piece) :
    assemble (found.map (Piece.shift d)) =
      (assemble found).map (Block.shift d) :=
  assemble_map (grow_shift d) found

------------------------------------------------------------
-- Lines
------------------------------------------------------------

/- No piece is read from gaps. -/
theorem pieces_gaps
    [YamlReader]
    {gaps lines : List Line}
    (hGaps : ∀ gap ∈ gaps, ∃ position, gap = .gap position)
    {found : List Piece}
    {faults : List SyntaxFault}
    (hLines : ∀ fuel, lines.length ≤ fuel →
      Lists (pieces .recover fuel lines) found faults) :
    ∀ fuel, (gaps ++ lines).length ≤ fuel →
      Lists (pieces .recover fuel (gaps ++ lines)) found
        faults := by
  induction gaps with
  | nil => exact hLines
  | cons gap gaps ih =>
      rcases List.forall_mem_cons.mp hGaps with
        ⟨⟨position, rfl⟩, hMore⟩
      intro fuel hFuel
      cases fuel with
      | zero => cases hFuel
      | succ fuel =>
          exact ih hMore fuel (Nat.le_of_succ_le_succ hFuel)

/- Gaps before a heading set it apart. -/
theorem apart_heading
    {gaps : List Line}
    (hSome : gaps ≠ [])
    (hGaps : ∀ gap ∈ gaps, ∃ position, gap = .gap position)
    {line : FilledLine}
    {level : Nat}
    {p : Position}
    {tokens : List Token}
    (hTokens : line.tokens = ⟨.heading level, p⟩ :: tokens)
    (rest : List Line) :
    Apart (gaps ++ .filled line :: rest) := by
  constructor
  · intro first hFirst
    rw [List.head?_append_of_ne_nil _ hSome] at hFirst
    exact hGaps first (List.mem_of_mem_head? hFirst)
  · clear hSome
    induction gaps with
    | nil =>
        simp [resumes, inReconstruction, FilledLine.headKind?,
          hTokens]
    | cons gap gaps ih =>
        rcases List.forall_mem_cons.mp hGaps with
          ⟨⟨position, rfl⟩, hMore⟩
        exact ih hMore

/-
  The pieces of lines that move down, read alone.
-/
theorem pieces_shift
    [YamlReader]
    (d : Shift)
    (lines : List Line) :
    ∃ found faults,
      Lists (pieces .recover lines.length lines) found faults ∧
        ∀ fuel, lines.length ≤ fuel →
          Lists
            (pieces .recover fuel (lines.map (Line.shift d)))
            (found.map (Piece.shift d))
            (faults.map (SyntaxFault.shift d)) := by
  have hNothing : ∀ fuel, ([] : List Line).length ≤ fuel →
      Lists (pieces .recover fuel []) [] [] := by
    intro fuel _
    cases fuel <;> exact lists_pure []
  have hAlong : ∀ fuel, lines.length ≤ fuel →
      ∃ found faults,
        Lists (pieces .recover lines.length lines) found
            faults ∧
          Lists
            (pieces .recover fuel (lines.map (Line.shift d)))
            (found.map (Piece.shift d))
            (faults.map (SyntaxFault.shift d)) := by
    intro fuel hFuel
    have hFollows :=
      pieces_follow (d := d) apart_nil hNothing
        (Nat.le_refl lines.length) hFuel
    simpa only [List.append_nil] using hFollows
  rcases hAlong lines.length (Nat.le_refl _) with
    ⟨found, faults, hRead, _⟩
  refine ⟨found, faults, hRead, fun fuel hFuel => ?_⟩
  rcases hAlong fuel hFuel with ⟨other, more, hSame, hMoved⟩
  rcases hSame.unique hRead with ⟨rfl, rfl⟩
  exact hMoved

/-
  The pieces of some lines, and of gaps and what starts with a
  heading after them: the former are as they are alone, and the
  latter as well, moved down.
-/
theorem pieces_join
    [YamlReader]
    (d : Shift)
    (lines : List Line)
    {gaps : List Line}
    (hSome : gaps ≠ [])
    (hGaps : ∀ gap ∈ gaps, ∃ position, gap = .gap position)
    {line : FilledLine}
    {level : Nat}
    {p : Position}
    {tokens : List Token}
    (hTokens : line.tokens = ⟨.heading level, p⟩ :: tokens)
    (rest : List Line) :
    let second := .filled line :: rest
    let whole := lines ++ (gaps ++ second.map (Line.shift d))
    ∃ above early below later,
      Lists (pieces .recover lines.length lines) above early ∧
        Lists (pieces .recover second.length second) below
            later ∧
          Lists (pieces .recover whole.length whole)
            (above ++ below.map (Piece.shift d))
            (early ++ later.map (SyntaxFault.shift d)) := by
  intro second whole
  rcases pieces_shift d second with
    ⟨below, later, hBelow, hMoved⟩
  have hApart : Apart (gaps ++ second.map (Line.shift d)) :=
    apart_heading hSome hGaps
      (congrArg (List.map (Token.shift d)) hTokens) _
  have hTail :=
    pieces_gaps hGaps (fun fuel hFuel =>
      hMoved fuel (by rwa [List.length_map] at hFuel))
  -- the lines above do not move
  rcases pieces_follow (d := .zero) hApart hTail
      (Nat.le_refl lines.length) (Nat.le_refl _) with
    ⟨above, early, hAbove, hWhole⟩
  rw [List.map_id'' Line.shift_zero,
    List.map_id'' Piece.shift_zero,
    List.map_id'' SyntaxFault.shift_zero,
    ← List.length_append] at hWhole
  exact ⟨above, early, below, later, hAbove, hBelow, hWhole⟩

/- So are the blocks, if the heading has a title. -/
theorem blocks_join
    [YamlReader]
    (d : Shift)
    (lines : List Line)
    {gaps : List Line}
    (hSome : gaps ≠ [])
    (hGaps : ∀ gap ∈ gaps, ∃ position, gap = .gap position)
    {line : FilledLine}
    {level : Nat}
    {p : Position}
    {tokens : List Token}
    (hTokens : line.tokens = ⟨.heading level, p⟩ :: tokens)
    (hTitle : (titleOf tokens).isEmpty = false)
    (rest : List Line) :
    let second := .filled line :: rest
    let whole := lines ++ (gaps ++ second.map (Line.shift d))
    ∃ above early below later,
      Lists (blocks .recover lines) above early ∧
        Lists (blocks .recover second) below later ∧
          Lists (blocks .recover whole)
            (above ++ below.map (Block.shift d))
            (early ++ later.map (SyntaxFault.shift d)) := by
  intro second whole
  rcases pieces_join d lines hSome hGaps hTokens rest with
    ⟨above, early, below, later, hAbove, hBelow, hWhole⟩
  have hOpens : ∃ h more,
      below = Piece.block (.heading h) :: more :=
    pieces_heading .recover rest.length hTokens hTitle rest
      _ _ _ (hBelow [])
  rcases hOpens with ⟨h, more, rfl⟩
  refine
    ⟨assemble above, early, _, later, hAbove.map assemble,
      hBelow.map assemble, ?_⟩
  have hApart :
      assemble
          (above
            ++ (Piece.block (.heading h) :: more).map
              (Piece.shift d)) =
        assemble above
          ++ (assemble (.block (.heading h) :: more)).map
            (Block.shift d) := by
    rw [← assemble_shift]
    exact assemble_heading above (h.shift d) _
  rw [← hApart]
  exact hWhole.map assemble

/- Front matter is read, whatever is wrong with it. -/
theorem frontMatter_lists
    [YamlReader]
    (found? : Option Lexer.FrontMatter) :
    ∃ front faults,
      Lists (frontMatter .recover found?) front faults := by
  cases found? with
  | none => exact ⟨none, [], lists_pure none⟩
  | some found =>
      rcases readData_follows (d := .zero) .frontMatter
          found.content found.position with
        ⟨front, faults, _, hRead, _⟩
      exact ⟨front, faults, hRead⟩

end Parser

------------------------------------------------------------
-- Documents
------------------------------------------------------------

namespace Document

/- What is read, from what its parts are read into. -/
theorem read_eq
    [YamlReader]
    {input : String}
    {front : Option Record}
    {found : List Block}
    {early late : List SyntaxFault}
    (hFront :
      Parser.Lists
        (Parser.frontMatter .recover
          (Lexer.lex input).frontMatter)
        front early)
    (hBlocks :
      Parser.Lists
        (Parser.blocks .recover (Lexer.lex input).lines)
        found late) :
    read input =
      ⟨⟨front, found⟩,
        (Lexer.lex input).faults ++ (early ++ late)⟩ := by
  have hDocument :
      Parser.Lists
        (Parser.document .recover (Lexer.lex input))
        ⟨front, found⟩ (early ++ late) :=
    hFront.bind (hBlocks.map _)
  have hParse :
      parse .recover input =
        .ok ⟨⟨front, found⟩,
          (Lexer.lex input).faults ++ (early ++ late)⟩ := by
    simp only [parse, hDocument (Lexer.lex input).faults]
  rw [read, hParse]

/-
  Below a text whose comments and front matter are closed, what
  starts with a heading is read as it is alone, and moved down.
  What is above is read as it is alone, too.
-/
theorem read_join
    [YamlReader]
    {first second : String}
    (hClosed : Lexer.Closed first)
    (hHeading : opensWithHeading second = true) :
    let d : Shift :=
      ⟨first.toList.count '\n' + 2,
        Text.byteSize first.toList + 2⟩
    let whole := read (first ++ "\n\n" ++ second)
    whole.document.blocks =
        (read first).document.blocks
          ++ (read second).document.blocks.map
            (Block.shift d) ∧
      whole.faults.Perm
        ((read first).faults
          ++ (read second).faults.map
            (SyntaxFault.shift d)) := by
  intro d whole
  have hShift :
      Shift.below (first.toList ++ ['\n', '\n']) = d := by
    rw [Shift.below, List.count_append, Text.byteSize_append]
    rfl
  rcases Lexer.lex_heading hHeading with
    ⟨⟨source, sources, hSources, hBlank, hFence⟩, hBare, line,
      rest, level, p, tokens, hSecond, hTokens, hTitle⟩
  rcases Lexer.lex_join hClosed hShift hSources hBlank
      hFence with
    ⟨gaps, hSome, hGaps, hFront, hLines, hLexed⟩
  rcases Parser.blocks_join d (Lexer.lex first).lines hSome
      hGaps hTokens hTitle rest with
    ⟨above, early, below, later, hAbove, hBelow, hBoth⟩
  rw [← hSecond] at hBelow hBoth
  rw [← hLines] at hBoth
  -- only the first text may have front matter
  rcases Parser.frontMatter_lists
      (Lexer.lex first).frontMatter with
    ⟨front, met, hFirst⟩
  have hFrontWhole := hFirst
  rw [← hFront] at hFrontWhole
  have hFrontSecond :
      Parser.Lists
        (Parser.frontMatter .recover
          (Lexer.lex second).frontMatter)
        none [] := by
    rw [hBare]
    exact Parser.lists_pure none
  have hRead : whole = _ := read_eq hFrontWhole hBoth
  rw [hRead, read_eq hFirst hAbove,
    read_eq hFrontSecond hBelow]
  refine ⟨rfl, ?_⟩
  simp only [List.nil_append, List.map_append]
  refine (hLexed.append_right _).trans ?_
  simp only [List.append_assoc]
  refine .append_left _ ?_
  exact
    (List.perm_append_comm_assoc _ met _).trans
      ((List.perm_append_comm_assoc _ early _).append_left met)

section

open scoped Yaml

/-
  A structure that is not finished and a title that is not
  closed end before the heading that follows.
-/
theorem read_join_unfinished :
    let first := "<A>: a\n\n(1) b\n  + [C"
    let second := "# D\n\n(1) e\n----"
    Lexer.Closed first ∧
      opensWithHeading second = true ∧
      (read first).faults.map SyntaxFault.cause =
        [.unclosedStatementTitle, .endWithoutConclusion] ∧
      (read (first ++ "\n\n" ++ second)).document.blocks =
        (read first).document.blocks
          ++ (read second).document.blocks.map
            (Block.shift ⟨5, 22⟩) := by
  intro first second
  have hClosed : Lexer.Closed first := by
    unfold Lexer.Closed
    decide +kernel
  have hHeading : opensWithHeading second = true := by
    decide +kernel
  have hShift :
      (⟨first.toList.count '\n' + 2,
          Text.byteSize first.toList + 2⟩ : Shift) =
        ⟨5, 22⟩ := by
    decide +kernel
  refine ⟨hClosed, hHeading, by decide +kernel, ?_⟩
  rw [← hShift]
  exact (read_join hClosed hHeading).1

end

end Document

end Dialectic
