import Dialectic.Notation.Yaml.Reader
import Dialectic.Proofs.Document.Mirroring
import Dialectic.Proofs.Document.Policy
import Dialectic.Proofs.Document.Returns

/-
  The line endings of a document do not matter: with a carriage
  return before each line feed it reads as the same document,
  spans aside, and has the same faults.

  Key definitions include:
    * `Document.withReturns`
    * `Document.outcome`
    * `Lexer.Lexed.dataTexts`

  Main theorems:
    * `Lexer.lex_returns`
    * `Document.parse_withReturns`
-/

namespace Dialectic

/- Put a carriage return before each line feed of a text. -/
def Document.withReturns (input : String) : String :=
  String.ofList (Text.withReturns input.toList)

------------------------------------------------------------
-- Tokens
------------------------------------------------------------

namespace Lexer

open Document (withReturns)

/- The text of a token of data. -/
def dataText? (token : Token) : Option String :=
  match token.kind with
  | .data content => some content
  | _ => none

/- The texts of all data of a document. -/
def Lexed.dataTexts (lexed : Lexed) : List String :=
  lexed.tokens.filterMap dataText?

/- Lines that are alike have tokens that are. -/
theorem stream_alike
    {line line' : Line}
    (hAlike : line.Alike line') :
    List.Forall₂ Token.Alike line.stream line'.stream := by
  have hToken : ∀ (kind : TokenKind) (p q : Position),
      Token.Alike ⟨kind, p⟩ ⟨kind, q⟩ :=
    fun kind _ _ => .same kind
  cases hAlike with
  | gap p q => exact .cons (hToken .blankLine p q) .nil
  | @filled line line' hContent =>
      have hContents :=
        List.rel_append hContent.tokens
          (.cons (hToken .lineEnd line.stop line'.stop) .nil)
      unfold Line.stream FilledLine.stream
      simp only [← hContent.indent]
      split
      · exact hContents
      · exact .cons (hToken _ _ _) hContents

/- Tokens that are alike hold the same data, if any. -/
theorem dataText?_alike
    {token token' : Token}
    (hAlike : token.Alike token') :
    dataText? token = dataText? token' := by
  rcases token with ⟨kind, p⟩
  rcases token' with ⟨kind', q⟩
  change kind.Alike kind' at hAlike
  cases hAlike <;> rfl

/- Lines that are alike hold the same data. -/
theorem dataTexts_alike
    {lexed lexed' : Lexed}
    (hFront : lexed.frontMatter = none)
    (hFront' : lexed'.frontMatter = none)
    (hLines :
      List.Forall₂ Line.Alike lexed.lines lexed'.lines) :
    lexed.dataTexts = lexed'.dataTexts := by
  have hTokens :
      List.Forall₂ Token.Alike lexed.tokens lexed'.tokens := by
    have hEnd :
        Token.Alike ⟨.documentEnd, lexed.stop⟩
          ⟨.documentEnd, lexed'.stop⟩ :=
      .same .documentEnd
    unfold Lexed.tokens
    rw [hFront, hFront']
    exact
      List.rel_append
        (List.rel_append .nil
          (List.rel_flatMap hLines (fun _ _ => stream_alike)))
        (.cons hEnd .nil)
  unfold Lexed.dataTexts
  generalize lexed.tokens = tokens at hTokens ⊢
  generalize lexed'.tokens = tokens' at hTokens ⊢
  induction hTokens with
  | nil => rfl
  | cons hFirst _ ih =>
      rw [List.filterMap_cons, List.filterMap_cons,
        dataText?_alike hFirst, ih]

/-
  The lines of a text with returns are alike, and the faults
  found have the same causes.
-/
theorem lex_returns
    {input : String}
    (hPlain : '\r' ∉ input.toList)
    (hFront : (lex input).frontMatter = none) :
    (lex (withReturns input)).frontMatter = none ∧
      List.Forall₂ Line.Alike (lex input).lines
        (lex (withReturns input)).lines ∧
      (lex input).faults.map SyntaxFault.cause =
        (lex (withReturns input)).faults.map
          SyntaxFault.cause := by
  rcases Comment.blank_returns hPlain with ⟨hEnded, hComments⟩
  have hSources := SourceLine.ofText_alike hEnded
  rcases linesOf_alike hSources with ⟨hLines, hFaults⟩
  have hNone :
      frontMatter?
          (SourceLine.ofText (Comment.blank input.toList).1) =
        none := by
    unfold lex at hFront
    cases hFound :
        frontMatter?
          (SourceLine.ofText
            (Comment.blank input.toList).1) with
    | none => rfl
    | some found =>
        simp only [hFound] at hFront
        cases hFront
  have hNone' := frontMatter?_alike hSources hNone
  simp only [lex, withReturns, String.toList_ofList, hNone,
    hNone', List.map_append, hComments, hFaults]
  exact ⟨trivial, hLines, trivial⟩

end Lexer

------------------------------------------------------------
-- Documents
------------------------------------------------------------

namespace Document

/-
  What comes of reading a document, without any places: the
  document and the messages of its faults, or the message of
  the fault that has ended the reading.
-/
def outcome :
    Except SyntaxFault Parsed →
      Except String (Document × List String)
| .ok parsed =>
    .ok
      ( parsed.document.erase,
        parsed.faults.map SyntaxFault.message )
| .error fault => .error fault.message

/- Faults of the same causes have the same messages. -/
theorem messages_eq
    {faults faults' : List SyntaxFault}
    (hCauses :
      faults.map SyntaxFault.cause =
        faults'.map SyntaxFault.cause) :
    faults.map SyntaxFault.message =
      faults'.map SyntaxFault.message := by
  have hMessages :=
    congrArg (List.map SyntaxFault.Cause.message) hCauses
  rwa [List.map_map, List.map_map] at hMessages

/-
  Reading that goes on after the lines are known has the same
  outcome if both readers go the same way.
-/
theorem outcome_eq
    {result result' :
      Except SyntaxFault (Document × List SyntaxFault)} :
    Parser.SameOutcome
        (fun found found' => found.erase = found'.erase)
        result result' →
      outcome
          (match result with
          | .ok (document, faults) => .ok ⟨document, faults⟩
          | .error fault => .error fault) =
        outcome
          (match result' with
          | .ok (document, faults) => .ok ⟨document, faults⟩
          | .error fault => .error fault) := by
  intro hSame
  cases hSame with
  | read hRead hFaults =>
      exact
        congrArg Except.ok
          (Prod.ext hRead (messages_eq hFaults))
  | ended hCause =>
      exact
        congrArg (Except.error ∘ SyntaxFault.Cause.message)
          hCause

/- Under either policy the outcome is the same. -/
theorem outcome_withReturns
    [YamlReader]
    {input : String}
    (hPlain : '\r' ∉ input.toList)
    (hFront : (Lexer.lex input).frontMatter = none)
    (policy : FaultPolicy) :
    outcome (parse policy (withReturns input)) =
      outcome (parse policy input) := by
  rcases Lexer.lex_returns hPlain hFront with
    ⟨hFront', hLines, hCauses⟩
  have hSame :
      Parser.SameOutcome
        (fun found found' => found.erase = found'.erase)
        (Parser.document policy (Lexer.lex input)
          (Lexer.lex input).faults)
        (Parser.document policy (Lexer.lex (withReturns input))
          (Lexer.lex (withReturns input)).faults) :=
    Parser.document_mirrors hFront hFront' hLines _ _ hCauses
  symm
  simp only [parse]
  generalize (Lexer.lex input).faults = faults
    at hCauses hSame ⊢
  generalize (Lexer.lex (withReturns input)).faults = faults'
    at hCauses hSame ⊢
  generalize Parser.document policy (Lexer.lex input) =
    reader at hSame ⊢
  generalize
    Parser.document policy (Lexer.lex (withReturns input)) =
      reader' at hSame ⊢
  cases policy with
  | recover => exact outcome_eq hSame
  | failFast =>
      cases faults with
      | nil =>
          cases List.map_eq_nil_iff.mp hCauses.symm
          exact outcome_eq hSame
      | cons fault faults =>
          -- both readings end before the lines are read
          rcases List.map_eq_cons_iff.mp hCauses.symm with
            ⟨fault', faults', rfl, hCause, -⟩
          exact
            congrArg (Except.error ∘ SyntaxFault.Cause.message)
              hCause.symm

/-
  Line endings do not matter.  A text without carriage returns
  and front matter, and the same text with one before each line
  feed, are read as documents that only differ in their spans,
  with faults of the same messages in the same order; and
  either policy has the same outcome.  The data of both are the
  same texts, so that the reasons why some are unreadable,
  which messages elide, are the same as well.
-/
theorem parse_withReturns
    [YamlReader]
    {input : String}
    (hPlain : '\r' ∉ input.toList)
    (hFront : (Lexer.lex input).frontMatter = none) :
    (read (withReturns input)).document.erase =
        (read input).document.erase ∧
      (read (withReturns input)).faults.map
          SyntaxFault.message =
        (read input).faults.map SyntaxFault.message ∧
      (∀ policy,
        outcome (parse policy (withReturns input)) =
          outcome (parse policy input)) ∧
      (Lexer.lex (withReturns input)).dataTexts =
        (Lexer.lex input).dataTexts := by
  have hOutcome := outcome_withReturns hPlain hFront
  have hRead := hOutcome .recover
  rcases parse_policies input with ⟨parsed, hParse, -⟩
  rcases parse_policies (withReturns input) with
    ⟨parsed', hParse', -⟩
  rw [hParse, hParse'] at hRead
  rcases Prod.mk.inj (Except.ok.inj hRead) with
    ⟨hDocuments, hMessages⟩
  rcases Lexer.lex_returns hPlain hFront with
    ⟨hFront', hLines, -⟩
  have hData :=
    (Lexer.dataTexts_alike hFront hFront' hLines).symm
  rw [show read input = parsed by rw [read, hParse],
    show read (withReturns input) = parsed' by
      rw [read, hParse']]
  exact ⟨hDocuments, hMessages, hOutcome, hData⟩

section

open scoped Yaml

/-
  The returns inside a comment leave a text with more blanks at
  its end, of which the statement that is read knows nothing.
-/
theorem parse_withReturns_comment :
    let input :=
      "[A]: a /* b\nc */ \x7bk: 1\x7d\n  - <B> #(t\n"
    '\r' ∉ input.toList ∧
      (Lexer.lex input).frontMatter = none ∧
      (Lexer.lex (withReturns input)).tokens.map Token.kind ≠
        (Lexer.lex input).tokens.map Token.kind ∧
      (read (withReturns input)).document.erase =
        (read input).document.erase ∧
      (read (withReturns input)).faults.map
          SyntaxFault.message =
        ["unclosed tag: missing `)`"] ∧
      (∀ policy,
        outcome (parse policy (withReturns input)) =
          outcome (parse policy input)) ∧
      (Lexer.lex (withReturns input)).dataTexts =
        ["\x7bk: 1\x7d"] := by
  intro input
  have hPlain : '\r' ∉ input.toList := by
    decide +kernel
  have hFront : (Lexer.lex input).frontMatter = none := by
    decide +kernel
  rcases parse_withReturns hPlain hFront with
    ⟨hDocument, hMessages, hOutcome, hData⟩
  refine
    ⟨hPlain, hFront, by decide +kernel, hDocument, ?_,
      hOutcome, ?_⟩
  · rw [hMessages]
    decide +kernel
  · rw [hData]
    decide +kernel

end

end Document

end Dialectic
