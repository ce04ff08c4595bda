import Dialectic.Document.Parser

/-
  The two policies about faults agree: reading that ends with
  the first fault ends with the first of those that recovering
  reading lists, and without faults both read the same.

  Key definitions include:
    * `Parser.Agrees`

  Main theorems:
    * `Parser.agrees_bind`
    * `Parser.agrees_relations`
    * `Parser.agrees_document`
    * `Document.parse_policies`
    * `Document.failFast_gives_first_fault`
-/

namespace Dialectic

namespace Parser

------------------------------------------------------------
-- Agreement
------------------------------------------------------------

/-
  Some reading agrees under both policies.  Recovering, it
  adds the faults it finds to the list; failing, it ends with
  the first of them, or else does the same.
-/
def Agrees {α : Type} (m : FaultPolicy → Parsing α) : Prop :=
  ∀ faults, ∃ a found,
    m .recover faults = .ok (a, faults ++ found) ∧
      m .failFast faults =
        match found with
        | [] => .ok (a, faults)
        | fault :: _ => .error fault

/- Reading that meets no fault agrees. -/
theorem agrees_pure {α : Type} (a : α) :
    Agrees (fun _ => pure a) := by
  intro faults
  exact ⟨a, [], by rw [List.append_nil]; rfl, rfl⟩

/- A fault that is met is the only one. -/
theorem agrees_report (fault : SyntaxFault) :
    Agrees (report · fault) := by
  intro faults
  exact ⟨(), [fault], rfl, rfl⟩

/-
  Reading in two parts agrees if both parts do: a fault of the
  first part comes before those of the second one.
-/
theorem agrees_bind
    {α β : Type}
    {m : FaultPolicy → Parsing α}
    {f : FaultPolicy → α → Parsing β}
    (hFirst : Agrees m)
    (hSecond : ∀ a, Agrees (f · a)) :
    Agrees (fun policy => m policy >>= f policy) := by
  intro faults
  rcases hFirst faults with ⟨a, found, hRecover, hFail⟩
  rcases hSecond a (faults ++ found) with
    ⟨b, more, hRecoverRest, hFailRest⟩
  refine ⟨b, found ++ more, ?_, ?_⟩
  · calc
      (m .recover >>= f .recover) faults =
          f .recover a (faults ++ found) := by
        simp [bind, StateT.bind, hRecover, Except.bind]
      _ = .ok (b, faults ++ found ++ more) := hRecoverRest
      _ = .ok (b, faults ++ (found ++ more)) := by
        rw [List.append_assoc]
  · cases found with
    | nil =>
        calc
          (m .failFast >>= f .failFast) faults =
              f .failFast a faults := by
            simp [bind, StateT.bind, hFail, Except.bind]
          _ = _ := by simpa using hFailRest
    | cons fault found =>
        simp [bind, StateT.bind, hFail, Except.bind]

------------------------------------------------------------
-- Inline Content
------------------------------------------------------------

variable [YamlReader]

/- Reading data agrees. -/
theorem agrees_readData
    (place : DataPlace)
    (content : String)
    (position : Position) :
    Agrees (readData · place content position) := by
  unfold readData
  cases place.read content position with
  | ok fields => exact agrees_pure (some fields)
  | error fault =>
      exact agrees_bind (agrees_report fault)
        (fun _ => agrees_pure none)

/- Reading the content of tokens agrees. -/
theorem agrees_inlineAfter
    (content : Inline)
    (tokens : List Token) :
    Agrees (inlineAfter · content tokens) := by
  induction tokens generalizing content with
  | nil => exact agrees_pure content
  | cons token tokens ih =>
      rcases token with ⟨kind, position⟩
      cases kind with
      | data text =>
          apply agrees_bind (agrees_readData _ text position)
          intro fields
          cases fields with
          | none => exact ih content
          | some fields => exact ih (content.addData fields)
      | _ => exact ih _

/- Reading the element of some tokens agrees. -/
theorem agrees_entry (tokens : List Token) (span : Span) :
    Agrees (entry · tokens span) := by
  cases tokens with
  | nil => exact agrees_pure none
  | cons token tokens =>
      rcases token with ⟨kind, position⟩
      cases kind <;>
        exact agrees_bind (agrees_inlineAfter _ _)
          (fun _ => agrees_pure _)

------------------------------------------------------------
-- Relations and Structures
------------------------------------------------------------

/- Reading the relations below a line agrees. -/
theorem agrees_relations
    (fuel parent : Nat)
    (lines : List Line) :
    Agrees (relations · fuel parent lines) := by
  induction fuel generalizing parent lines with
  | zero => exact agrees_pure ([], lines)
  | succ fuel ih =>
      cases lines with
      | nil => exact agrees_pure ([], [])
      | cons first rest =>
          cases first with
          | gap position =>
              exact agrees_pure ([], .gap position :: rest)
          | filled line =>
              simp only [relations]
              by_cases hShallow : line.indent ≤ parent
              · simp only [hShallow, if_true]
                exact agrees_pure _
              · simp only [hShallow, if_false]
                split
                · apply agrees_bind (agrees_entry _ _)
                  intro found
                  cases found with
                  | none =>
                      exact agrees_bind (agrees_report _)
                        (fun _ => ih _ _)
                  | some target =>
                      apply agrees_bind (ih _ _)
                      intro children
                      apply agrees_bind (ih _ _)
                      intro siblings
                      exact agrees_pure _
                · exact agrees_bind (agrees_report _)
                    (fun _ => ih _ _)

/- Reading the lines of a structure agrees. -/
theorem agrees_reconstructionItems
    (fuel : Nat)
    (lines : List Line) :
    Agrees (reconstructionItems · fuel lines) := by
  induction fuel generalizing lines with
  | zero => exact agrees_pure (some [], lines)
  | succ fuel ih =>
      cases lines with
      | nil => exact agrees_pure (some [], [])
      | cons first rest =>
          cases first with
          | gap position =>
              simp only [reconstructionItems]
              split
              · exact ih rest
              · exact agrees_pure _
          | filled line =>
              simp only [reconstructionItems]
              split
              · split
                · apply agrees_bind (agrees_entry _ _)
                  intro found
                  rcases found with _ | statement | argument
                  · exact agrees_bind (agrees_report _)
                      (fun _ => agrees_pure _)
                  · apply agrees_bind (agrees_relations _ _ _)
                    intro related
                    apply agrees_bind (ih _)
                    intro items
                    exact agrees_pure _
                  · exact agrees_bind (agrees_report _)
                      (fun _ => agrees_pure _)
                · apply agrees_bind (ih _)
                  intro items
                  exact agrees_pure _
                · exact agrees_pure _
              · exact agrees_pure _

/- Reading a premise-conclusion structure agrees. -/
theorem agrees_reconstruction
    (fuel : Nat)
    (start : Position)
    (lines : List Line) :
    Agrees (reconstruction · fuel start lines) := by
  apply agrees_bind (agrees_reconstructionItems fuel lines)
  intro read
  rcases read with ⟨_ | items, rest⟩
  · exact agrees_pure (none, rest)
  · dsimp only
    cases orderFault? items with
    | some cause =>
        exact agrees_bind (agrees_report _)
          (fun _ => agrees_pure _)
    | none => exact agrees_pure _

------------------------------------------------------------
-- Blocks
------------------------------------------------------------

/- Reading a heading agrees. -/
theorem agrees_heading
    (level : Nat)
    (tokens : List Token)
    (line : FilledLine) :
    Agrees (heading · level tokens line) := by
  apply agrees_bind (agrees_inlineAfter _ tokens)
  intro content
  dsimp only
  split
  · exact agrees_bind (agrees_report _)
      (fun _ => agrees_pure _)
  · exact agrees_pure _

/- Reading an element at the top level agrees. -/
theorem agrees_elementBlock
    (fuel : Nat)
    (line : FilledLine)
    (lines : List Line) :
    Agrees (elementBlock · fuel line lines) := by
  apply agrees_bind (agrees_entry _ _)
  intro found
  cases found with
  | none =>
      exact agrees_bind (agrees_report _)
        (fun _ => agrees_pure _)
  | some element =>
      apply agrees_bind (agrees_relations _ _ _)
      intro related
      exact agrees_pure _

/- Reading what a line starts agrees. -/
theorem agrees_piece
    (fuel : Nat)
    (line : FilledLine)
    (lines : List Line) :
    Agrees (piece · fuel line lines) := by
  have hElement :
      Agrees (fun policy => do
        let read ← elementBlock policy fuel line lines
        pure
          (read.1.map (fun b => Piece.block (.element b)),
            read.2)) :=
    agrees_bind (agrees_elementBlock fuel line lines)
      (fun _ => agrees_pure _)
  unfold piece
  dsimp only
  split
  · exact agrees_bind (agrees_heading _ _ line)
      (fun _ => agrees_pure _)
  · split
    · exact agrees_bind (agrees_reconstruction _ _ _)
        (fun _ => agrees_pure _)
    · exact hElement
  · exact agrees_bind (agrees_report _)
      (fun _ => agrees_pure _)
  · exact agrees_bind (agrees_report _)
      (fun _ => agrees_pure _)
  · exact hElement

/- Reading the pieces of a document agrees. -/
theorem agrees_pieces (fuel : Nat) (lines : List Line) :
    Agrees (pieces · fuel lines) := by
  induction fuel generalizing lines with
  | zero => exact agrees_pure []
  | succ fuel ih =>
      cases lines with
      | nil => exact agrees_pure []
      | cons first rest =>
          cases first with
          | gap position => exact ih rest
          | filled line =>
              apply agrees_bind (agrees_piece fuel line rest)
              intro read
              apply agrees_bind (ih _)
              intro more
              exact agrees_pure _

------------------------------------------------------------
-- Documents
------------------------------------------------------------

/- Reading front matter agrees. -/
theorem agrees_frontMatter
    (found : Option Lexer.FrontMatter) :
    Agrees (frontMatter · found) := by
  cases found with
  | none => exact agrees_pure none
  | some found => exact agrees_readData _ _ _

/- Reading a document agrees. -/
theorem agrees_document (lexed : Lexer.Lexed) :
    Agrees (document · lexed) := by
  apply agrees_bind (agrees_frontMatter _)
  intro front
  apply agrees_bind
  · exact agrees_bind (agrees_pieces _ _)
      (fun _ => agrees_pure _)
  · intro found
    exact agrees_pure _

end Parser

namespace Document

variable [YamlReader]

/-
  Recovering reading always gives a document, and failing
  reading gives the first fault or the same document.
-/
theorem parse_policies (input : String) :
    ∃ parsed : Parsed,
      parse .recover input = .ok parsed ∧
        parse .failFast input =
          match parsed.faults with
          | [] => .ok parsed
          | fault :: _ => .error fault := by
  rcases Parser.agrees_document (Lexer.lex input)
      (Lexer.lex input).faults with
    ⟨document, found, hRecover, hFail⟩
  refine
    ⟨⟨document, (Lexer.lex input).faults ++ found⟩, ?_, ?_⟩
  · simp [parse, hRecover]
  · cases hLexed : (Lexer.lex input).faults with
    | cons fault faults => simp [parse, hLexed]
    | nil =>
        rw [hLexed] at hFail
        cases found <;> simp [parse, hLexed, hFail]

/-
  Recovering reading never ends with a fault.  Failing reading
  does so exactly if recovering reading lists some fault, and
  then with the first of them; else both give the same
  document without faults.
-/
theorem failFast_gives_first_fault (input : String) :
    ∃ parsed : Parsed,
      parse .recover input = .ok parsed ∧
        ((∃ fault, parse .failFast input = .error fault) ↔
          parsed.faults ≠ []) ∧
        (∀ fault, parse .failFast input = .error fault →
          parsed.faults.head? = some fault) ∧
        (parsed.faults = [] →
          parse .failFast input =
            .ok ⟨parsed.document, []⟩) := by
  rcases parse_policies input with ⟨parsed, hRecover, hFail⟩
  rcases parsed with ⟨document, faults⟩
  refine ⟨⟨document, faults⟩, hRecover, ?_⟩
  cases faults with
  | nil => simp [hFail]
  | cons first rest => simp [hFail]

end Document

end Dialectic
