import Dialectic.Document.Data
import Dialectic.Document.Lexer
import Dialectic.Document.Tree

/-
  This file defines how a document is read.  Faults are met
  under one of two policies: under `recover` they are listed
  and the lines that they spoil are skipped, under `failFast`
  the first one ends the reading.

  Key definitions include:
    * `FaultPolicy`
    * `Parser.Parsing`
    * `Parser.report`
    * `Parser.entry`
    * `Parser.relations`
    * `Parser.reconstruction`
    * `Parser.blocks`
    * `Document.parse`
    * `Document.read`
-/

namespace Dialectic

------------------------------------------------------------
-- Faults
------------------------------------------------------------

/- What to do about a fault. -/
inductive FaultPolicy where
| recover
| failFast
deriving DecidableEq, Repr

namespace Parser

/-
  Reading that lists the faults found so far, or ends with a
  fault.
-/
abbrev Parsing (α : Type) : Type :=
  StateT (List SyntaxFault) (Except SyntaxFault) α

/- Meet a fault. -/
def report
    (policy : FaultPolicy)
    (fault : SyntaxFault) : Parsing Unit :=
  match policy with
  | .recover => fun faults => .ok ((), faults ++ [fault])
  | .failFast => fun _ => .error fault

variable [YamlReader]

/- Read data, or go on without it. -/
def readData
    (policy : FaultPolicy)
    (place : DataPlace)
    (content : String)
    (position : Position) : Parsing (Option Record) :=
  match place.read content position with
  | .ok fields => pure (some fields)
  | .error fault => do
      report policy fault
      pure none

------------------------------------------------------------
-- Inline Content
------------------------------------------------------------

/- The content of an element after its head. -/
structure Inline where
  text : List Char
  tags : List String
  mentions : List Mention
  data : Option Record
deriving DecidableEq, Repr, Inhabited

namespace Inline

/- No content. -/
def empty : Inline :=
  ⟨[], [], [], none⟩

/- The text with one space for each run of blanks. -/
def squeezed (inline : Inline) : String :=
  String.ofList (Text.squeeze inline.text)

/- Add some text. -/
def addText (inline : Inline) (text : String) : Inline :=
  { inline with text := inline.text ++ text.toList }

/-
  Add a tag, which is listed once.  Its text has parentheses
  if there is a blank in it.
-/
def addTag (inline : Inline) (tag : String) : Inline :=
  let text :=
    if tag.toList.any Text.isBlank then "#(" ++ tag ++ ")"
    else "#" ++ tag
  { inline.addText text with
    tags :=
      if inline.tags.contains tag then inline.tags
      else inline.tags ++ [tag] }

/- Add a mention with its text. -/
def addMention
    (inline : Inline)
    (mention : Mention)
    (text : String) : Inline :=
  { inline.addText text with
    mentions := inline.mentions ++ [mention] }

/- Add the fields of a data block; a later one wins. -/
def addData (inline : Inline) (fields : Record) : Inline :=
  { inline with
    data :=
      match inline.data with
      | some earlier => some (Record.extend earlier fields)
      | none => some fields }

/-
  Add a token that is no data.  Heads of elements that do not
  stand first are plain text.
-/
def addToken (inline : Inline) : TokenKind → Inline
| .text content => inline.addText content
| .tag name => inline.addTag name
| .statementMention title =>
    inline.addMention (.statement title)
      ("@[" ++ title ++ "]")
| .argumentMention title =>
    inline.addMention (.argument title)
      ("@<" ++ title ++ ">")
| .statementDefinition title =>
    inline.addText ("[" ++ title ++ "]:")
| .statementReference title =>
    inline.addText ("[" ++ title ++ "]")
| .argumentDefinition title =>
    inline.addText ("<" ++ title ++ ">:")
| .argumentReference title =>
    inline.addText ("<" ++ title ++ ">")
| _ => inline

end Inline

/- The content of some tokens after the content before them. -/
def inlineAfter
    (policy : FaultPolicy) :
    Inline → List Token → Parsing Inline
| inline, [] => pure inline
| inline, ⟨.data content, position⟩ :: tokens => do
    match ← readData policy .block content position with
    | some fields =>
        inlineAfter policy (inline.addData fields) tokens
    | none => inlineAfter policy inline tokens
| inline, ⟨kind, _⟩ :: tokens =>
    inlineAfter policy (inline.addToken kind) tokens

/- The content of some tokens. -/
def inline
    (policy : FaultPolicy)
    (tokens : List Token) : Parsing Inline :=
  inlineAfter policy Inline.empty tokens

------------------------------------------------------------
-- Elements
------------------------------------------------------------

/- The statement with the given title and content. -/
def titledStatement
    (title : String)
    (isDefinition : Bool)
    (content : Inline)
    (span : Span) : StatementEntry :=
  let text := content.squeezed
  { title := some title
    text := if text.isEmpty then none else some text
    isReference := !isDefinition && text.isEmpty
    tags := content.tags
    mentions := content.mentions
    data := content.data
    span := span }

/- The argument with the given title and content. -/
def titledArgument
    (title : String)
    (isDefinition : Bool)
    (content : Inline)
    (span : Span) : ArgumentEntry :=
  let text := content.squeezed
  { title := some title
    description := if text.isEmpty then none else some text
    isReference := !isDefinition && text.isEmpty
    tags := content.tags
    mentions := content.mentions
    data := content.data
    span := span }

/-
  The statement without title that has the given content, if
  there is some text or a tag.
-/
def untitledStatement?
    (content : Inline)
    (span : Span) : Option StatementEntry :=
  let text := content.squeezed
  if text.isEmpty && content.tags.isEmpty then
    none
  else
    some
      { title := none
        text := some text
        isReference := false
        tags := content.tags
        mentions := content.mentions
        data := content.data
        span := span }

/- The element that some tokens stand for. -/
def entry
    (policy : FaultPolicy)
    (tokens : List Token)
    (span : Span) : Parsing (Option Entry) :=
  match tokens with
  | [] => pure none
  | ⟨.statementDefinition title, _⟩ :: rest => do
      let content ← inline policy rest
      pure (some (.statement
        (titledStatement title true content span)))
  | ⟨.statementReference title, _⟩ :: rest => do
      let content ← inline policy rest
      pure (some (.statement
        (titledStatement title false content span)))
  | ⟨.argumentDefinition title, _⟩ :: rest => do
      let content ← inline policy rest
      pure (some (.argument
        (titledArgument title true content span)))
  | ⟨.argumentReference title, _⟩ :: rest => do
      let content ← inline policy rest
      pure (some (.argument
        (titledArgument title false content span)))
  | _ => do
      let content ← inline policy tokens
      pure ((untitledStatement? content span).map .statement)

------------------------------------------------------------
-- Lines
------------------------------------------------------------

/-
  The line with content that comes next and is indented more
  than `indent`.
-/
def isDeeper (indent : Nat) : Line → Bool
| .gap _ => false
| .filled line => decide (indent < line.indent)

/- Skip the lines that are indented more than `indent`. -/
def skipDeeper (indent : Nat) (lines : List Line) :
    List Line :=
  lines.dropWhile (isDeeper indent)

/-
  A line that goes on with the element above it.  It opens
  neither a line of its own nor a definition, and it is
  indented more than `above`, if that is given.
-/
def continues (above : Option Nat) : Line → Bool
| .gap _ => false
| .filled line =>
    let deepEnough :=
      match above with
      | some indent => decide (indent < line.indent)
      | none => true
    let ownLine :=
      match line.headKind? with
      | some kind => kind.opensLine || kind.opensDefinition
      | none => false
    deepEnough && !ownLine

/- The tokens that a line adds to the element above it. -/
def continuationTokens : Line → List Token
| .gap _ => []
| .filled line =>
    ⟨.text " ", line.contentStart⟩ :: line.tokens

/- The span of a line with content. -/
def spanOf : Line → List Span
| .gap _ => []
| .filled line => [line.span]

/- An element on one line and those that go on with it. -/
structure Extent where
  tokens : List Token
  span : Span
  rest : List Line

/-
  The tokens of an element that starts with some tokens of a
  line and goes on with the lines after it.
-/
def extent
    (above : Option Nat)
    (tokens : List Token)
    (span : Span)
    (lines : List Line) : Extent :=
  let more := lines.takeWhile (continues above)
  { tokens := tokens ++ more.flatMap continuationTokens
    span := span.mergeAll (more.flatMap spanOf)
    rest := lines.dropWhile (continues above) }

------------------------------------------------------------
-- Relations
------------------------------------------------------------

/-
  The relations below a line that is indented by `parent`, and
  the lines after them.  Each step takes a line, so `fuel` is
  enough if it is the number of lines.
-/
def relations (policy : FaultPolicy) :
    (fuel : Nat) →
    (parent : Nat) →
    List Line →
    Parsing (List RelationEntry × List Line)
| fuel + 1, parent, .filled line :: rest =>
    if line.indent ≤ parent then
      pure ([], .filled line :: rest)
    else
      match line.tokens with
      | ⟨.relation marker, _⟩ :: tokens => do
          let body :=
            extent (some line.indent) tokens line.span rest
          match ← entry policy body.tokens body.span with
          | none =>
              report policy
                ⟨.relationWithoutTarget marker,
                  line.contentStart⟩
              relations policy fuel parent
                (skipDeeper line.indent body.rest)
          | some target =>
              let (children, rest) ←
                relations policy fuel line.indent body.rest
              let (siblings, rest) ←
                relations policy fuel parent rest
              let span := RelationEntry.cover body.span children
              pure
                (⟨marker, target, children, span⟩ :: siblings,
                  rest)
      | _ => do
          report policy
            ⟨.unexpectedIndentation, line.contentStart⟩
          relations policy fuel parent
            (skipDeeper line.indent rest)
| _, _, lines => pure ([], lines)

------------------------------------------------------------
-- Premise-Conclusion Structures
------------------------------------------------------------

/- A line of a premise-conclusion structure. -/
def inReconstruction : Line → Bool
| .gap _ => false
| .filled line =>
    match line.headKind? with
    | some (.step _) => true
    | some (.inference _) => true
    | _ => false

/- A premise-conclusion structure goes on after some gaps. -/
def resumes (lines : List Line) : Bool :=
  match lines with
  | [] => false
  | .gap _ :: rest => resumes rest
  | .filled line :: _ =>
      line.indent == 0 && inReconstruction (.filled line)

/-
  Skip what is left of a premise-conclusion structure up to
  the next gap.
-/
def skipReconstruction (lines : List Line) : List Line :=
  lines.dropWhile
    (fun line => isDeeper 0 line || inReconstruction line)

/-
  The lines of a premise-conclusion structure, unless one of
  its statements is at fault, and the lines after it.
-/
def reconstructionItems (policy : FaultPolicy) :
    (fuel : Nat) →
    List Line →
    Parsing (Option (List ReconstructionItem) × List Line)
| fuel + 1, .gap position :: rest =>
    if resumes rest then
      reconstructionItems policy fuel rest
    else
      pure (some [], .gap position :: rest)
| fuel + 1, .filled line :: rest =>
    if line.indent = 0 then
      match line.tokens with
      | ⟨.step number, _⟩ :: tokens => do
          let body := extent none tokens line.span rest
          match ← entry policy body.tokens body.span with
          | none =>
              report policy
                ⟨.emptyStep number, line.contentStart⟩
              pure (none, skipReconstruction body.rest)
          | some (.argument _) =>
              report policy
                ⟨.argumentAsStep, line.contentStart⟩
              pure (none, skipReconstruction body.rest)
          | some (.statement statement) =>
              let (related, rest) ←
                relations policy fuel 0 body.rest
              let (items, rest) ←
                reconstructionItems policy fuel rest
              let item :=
                .statement ⟨number, statement, related⟩
              pure (items.map (item :: ·), rest)
      | ⟨.inference rule, _⟩ :: _ => do
          let (items, rest) ←
            reconstructionItems policy fuel rest
          let item := .inference ⟨rule, line.span⟩
          pure (items.map (item :: ·), rest)
      | _ => pure (some [], .filled line :: rest)
    else
      pure (some [], .filled line :: rest)
| _, lines => pure (some [], lines)

/- Two inferences follow each other. -/
def hasAdjacentInferences :
    List ReconstructionItem → Bool
| a :: b :: items =>
    (a.isInference && b.isInference)
      || hasAdjacentInferences (b :: items)
| _ => false

/-
  What is wrong with the order of the lines of a
  premise-conclusion structure.  It starts with a premise, and
  it ends with an inference and the main conclusion.
-/
def orderFault? (items : List ReconstructionItem) :
    Option SyntaxFault.Cause :=
  match items with
  | .statement _ :: _ =>
      if hasAdjacentInferences items then
        some .consecutiveInferences
      else
        match items.reverse with
        | .statement _ :: .inference _ :: _ :: _ => none
        | _ => some .endWithoutConclusion
  | _ => some .startWithoutPremise

/-
  The premise-conclusion structure that starts at `start`, if
  it is in order, and the lines after it.
-/
def reconstruction
    (policy : FaultPolicy)
    (fuel : Nat)
    (start : Position)
    (lines : List Line) :
    Parsing (Option Reconstruction × List Line) := do
  match ← reconstructionItems policy fuel lines with
  | (none, rest) => pure (none, rest)
  | (some items, rest) =>
      match orderFault? items with
      | some cause =>
          report policy ⟨cause, start⟩
          pure (none, rest)
      | none =>
          let span :=
            Span.mergeAll ⟨start, start⟩
              (items.flatMap ReconstructionItem.spans)
          pure (some ⟨items, span⟩, rest)

------------------------------------------------------------
-- Blocks
------------------------------------------------------------

/- The heading that a line stands for. -/
def heading
    (policy : FaultPolicy)
    (level : Nat)
    (tokens : List Token)
    (line : FilledLine) : Parsing (Option Heading) := do
  let content ← inline policy tokens
  let title := content.squeezed
  if title.isEmpty then
    report policy ⟨.headingWithoutTitle, line.contentStart⟩
    pure none
  else
    pure (some
      ⟨level, title, content.tags, content.data, line.span⟩)

/- A token is the bullet of a list item. -/
def isBullet (token : Token) : Bool :=
  token.kind == .bullet

/- The element at the top level that starts with a line. -/
def elementBlock
    (policy : FaultPolicy)
    (fuel : Nat)
    (line : FilledLine)
    (lines : List Line) :
    Parsing (Option ElementBlock × List Line) := do
  let body :=
    extent none (line.tokens.dropWhile isBullet) line.span lines
  match ← entry policy body.tokens body.span with
  | none =>
      report policy ⟨.missingElement, line.contentStart⟩
      pure (none, skipDeeper line.indent body.rest)
  | some element =>
      let (related, rest) ←
        relations policy fuel line.indent body.rest
      let span := RelationEntry.cover body.span related
      pure (some ⟨element, related, none, span⟩, rest)

/-
  What is read at the top level.  A premise-conclusion
  structure belongs to the argument before it, if there is
  one.
-/
inductive Piece where
| block (block : Block)
| reconstruction (reconstruction : Reconstruction)

/-
  The pieces of a document that a line starts, and the lines
  after them.
-/
def piece
    (policy : FaultPolicy)
    (fuel : Nat)
    (line : FilledLine)
    (lines : List Line) :
    Parsing (Option Piece × List Line) :=
  let skipped := skipDeeper 0 lines
  let element : Parsing (Option Piece × List Line) := do
    let (found, rest) ← elementBlock policy fuel line lines
    pure (found.map (fun b => .block (.element b)), rest)
  match line.tokens with
  | ⟨.heading level, _⟩ :: tokens => do
      let found ← heading policy level tokens line
      pure (found.map (fun h => .block (.heading h)), lines)
  | ⟨.step _, _⟩ :: _ =>
      if line.indent = 0 then do
        let (found, rest) ←
          reconstruction policy (fuel + 1) line.contentStart
            (.filled line :: lines)
        pure (found.map .reconstruction, rest)
      else
        element
  | ⟨.inference _, _⟩ :: _ => do
      report policy
        ⟨.inferenceWithoutPremises, line.contentStart⟩
      pure (none, skipped)
  | ⟨.relation marker, _⟩ :: _ => do
      report policy
        ⟨.relationWithoutParent marker, line.contentStart⟩
      pure (none, skipped)
  | _ => element

/- The pieces of a document. -/
def pieces (policy : FaultPolicy) :
    (fuel : Nat) → List Line → Parsing (List Piece)
| fuel + 1, .gap _ :: rest => pieces policy fuel rest
| fuel + 1, .filled line :: rest => do
    let (found, rest) ← piece policy fuel line rest
    let more ← pieces policy fuel rest
    pure (found.toList ++ more)
| _, _ => pure []

/-
  Add a premise-conclusion structure to the blocks before it,
  which are given last one first.  It belongs to the last
  block if that is an argument that has none yet, else to an
  argument without title.
-/
def attach
    (reconstruction : Reconstruction) :
    List Block → List Block
| .element ⟨.argument entry, related, none, span⟩ :: blocks =>
    .element
      ⟨.argument entry, related, some reconstruction,
        span.merge reconstruction.span⟩ :: blocks
| blocks =>
    .element
      ⟨.argument (.untitled reconstruction.span), [],
        some reconstruction, reconstruction.span⟩ :: blocks

/- Put the pieces of a document together. -/
def assemble (pieces : List Piece) : List Block :=
  (pieces.foldl
    (fun blocks piece =>
      match piece with
      | .block block => block :: blocks
      | .reconstruction found => attach found blocks)
    []).reverse

/- The blocks of a document. -/
def blocks
    (policy : FaultPolicy)
    (lines : List Line) : Parsing (List Block) := do
  let found ← pieces policy lines.length lines
  pure (assemble found)

/- The front matter of a document. -/
def frontMatter
    (policy : FaultPolicy) :
    Option Lexer.FrontMatter → Parsing (Option Record)
| none => pure none
| some found =>
    readData policy .frontMatter found.content found.position

/- The document that tokens stand for. -/
def document
    (policy : FaultPolicy)
    (lexed : Lexer.Lexed) : Parsing Document := do
  let front ← frontMatter policy lexed.frontMatter
  let found ← blocks policy lexed.lines
  pure ⟨front, found⟩

end Parser

------------------------------------------------------------
-- Documents
------------------------------------------------------------

/- A document and the faults found while reading it. -/
structure Parsed where
  document : Document
  faults : List SyntaxFault
deriving Repr, Inhabited

namespace Document

variable [YamlReader]

/-
  Read a document.  Under `recover` this never ends with a
  fault.
-/
def parse
    (policy : FaultPolicy)
    (input : String) : Except SyntaxFault Parsed :=
  let lexed := Lexer.lex input
  match policy, lexed.faults with
  | .failFast, fault :: _ => .error fault
  | _, faults =>
      match Parser.document policy lexed faults with
      | .ok (document, faults) => .ok ⟨document, faults⟩
      | .error fault => .error fault

/- Read a document and list its faults. -/
def read (input : String) : Parsed :=
  match parse .recover input with
  | .ok parsed => parsed
  | .error _ => default

end Document

end Dialectic
