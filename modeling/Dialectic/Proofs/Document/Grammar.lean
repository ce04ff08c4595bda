import Dialectic.Proofs.Document.Recovery

/-
  How the lines of a document are read, faults included: one
  rule for each thing that the reader can do with the line that
  comes next.  What it reads, what it reports and which lines it
  leaves are given by these rules, so that the properties of
  documents that are read can be proved by induction on them.

  Key definitions include:
    * `Parser.ReadsRelations`
    * `Parser.ReadsItems`
    * `Parser.ReadsPiece`
    * `Parser.ReadsPieces`

  Main theorems:
    * `Parser.relations_reads`
    * `Parser.reconstructionItems_reads`
    * `Parser.piece_reads`
    * `Parser.pieces_reads`
    * `Document.read_pieces`
-/

namespace Dialectic

variable [YamlReader]

namespace Parser

------------------------------------------------------------
-- Elements
------------------------------------------------------------

/- The content of tokens is read, whatever is wrong with it. -/
theorem inline_lists (tokens : List Token) :
    ∃ content found,
      Lists (inline .recover tokens) content found := by
  rcases inlineAfter_follows (d := .zero) Inline.empty
      tokens with
    ⟨content, found, _, hRead, _⟩
  exact ⟨content, found, hRead⟩

/- So is the element that they stand for. -/
theorem entry_lists (tokens : List Token) (span : Span) :
    ∃ target found,
      Lists (entry .recover tokens span) target found := by
  rcases entry_follows (d := .zero) tokens span with
    ⟨target, found, _, hRead, _⟩
  exact ⟨target, found, hRead⟩

/- A fault that is met before is listed before. -/
omit [YamlReader] in
theorem Lists.reported
    {α : Type}
    {m : Parsing α}
    {a : α}
    {found : List SyntaxFault}
    (hRead : Lists m a found)
    (fault : SyntaxFault) :
    Lists
      (do
        report .recover fault
        m)
      a (fault :: found) :=
  (lists_report fault).bind hRead

/- Something may be given at the end. -/
omit [YamlReader] in
theorem Lists.gives
    {α β : Type}
    {m : Parsing α}
    {f : α → Parsing β}
    {a : α}
    {b : β}
    {found : List SyntaxFault}
    (hRead : Lists m a found)
    (hGives : f a = pure b) :
    Lists (m >>= f) b found := by
  have hBoth := hRead.bind (hGives ▸ lists_pure b)
  rwa [List.append_nil] at hBoth

/-
  A line starts an element if it is neither a heading nor an
  inference nor a relation, nor a numbered statement without
  indentation.
-/
def opensElement (line : FilledLine) : Prop :=
  match line.headKind? with
  | some (.heading _) => False
  | some (.inference _) => False
  | some (.relation _) => False
  | some (.step _) => line.indent ≠ 0
  | _ => True

------------------------------------------------------------
-- Relations
------------------------------------------------------------

/-
  The relations below a line that is indented by `parent` are
  read from some lines, which leaves other ones:

    * `stop`: the next line, if any, is not deeper;
    * `branch`: a relation line, those below its target and
      those after it;
    * `lacking`: a relation line without a target, which is
      skipped with the lines that are deeper;
    * `unexpected`: a line that is no relation, which is
      skipped like that, too.
-/
inductive ReadsRelations :
    (parent : Nat) →
    (lines : List Line) →
    (trees : List RelationEntry) →
    (rest : List Line) →
    (found : List SyntaxFault) →
    Prop
| stop
    {parent : Nat}
    {lines : List Line}
    (hStops : ∀ line ∈ lines.head?,
      isDeeper parent line = false) :
    ReadsRelations parent lines [] lines []
| branch
    {parent : Nat}
    {line : FilledLine}
    {rest middle last : List Line}
    {marker : Marker}
    {p : Position}
    {tokens : List Token}
    {body : Extent}
    {target : Entry}
    {children siblings : List RelationEntry}
    {own below after : List SyntaxFault}
    (hDeep : parent < line.indent)
    (hTokens : line.tokens = ⟨.relation marker, p⟩ :: tokens)
    (hBody :
      extent (some line.indent) tokens line.span rest = body)
    (hTarget :
      Lists (entry .recover body.tokens body.span)
        (some target) own)
    (hChildren :
      ReadsRelations line.indent body.rest children middle
        below)
    (hSiblings :
      ReadsRelations parent middle siblings last after) :
    ReadsRelations parent (.filled line :: rest)
      (⟨marker, target, children,
          RelationEntry.cover body.span children⟩ :: siblings)
      last (own ++ (below ++ after))
| lacking
    {parent : Nat}
    {line : FilledLine}
    {rest last : List Line}
    {marker : Marker}
    {p : Position}
    {tokens : List Token}
    {body : Extent}
    {trees : List RelationEntry}
    {own after : List SyntaxFault}
    (hDeep : parent < line.indent)
    (hTokens : line.tokens = ⟨.relation marker, p⟩ :: tokens)
    (hBody :
      extent (some line.indent) tokens line.span rest = body)
    (hTarget :
      Lists (entry .recover body.tokens body.span) none own)
    (hAfter :
      ReadsRelations parent (skipDeeper line.indent body.rest)
        trees last after) :
    ReadsRelations parent (.filled line :: rest) trees last
      (own
        ++ ⟨.relationWithoutTarget marker, line.contentStart⟩
          :: after)
| unexpected
    {parent : Nat}
    {line : FilledLine}
    {rest last : List Line}
    {trees : List RelationEntry}
    {after : List SyntaxFault}
    (hDeep : parent < line.indent)
    (hOther : ∀ marker,
      line.headKind? ≠ some (.relation marker))
    (hAfter :
      ReadsRelations parent (skipDeeper line.indent rest) trees
        last after) :
    ReadsRelations parent (.filled line :: rest) trees last
      (⟨.unexpectedIndentation, line.contentStart⟩ :: after)

variable {parent : Nat} {lines rest last : List Line}
variable {trees : List RelationEntry}
variable {found : List SyntaxFault}

/- The lines that an element leaves are the last ones. -/
omit [YamlReader] in
theorem extent_suffix
    (above : Option Nat)
    (tokens : List Token)
    (span : Span)
    (lines : List Line) :
    (extent above tokens span lines).rest <:+ lines :=
  List.dropWhile_suffix _

/- So are those that relations leave. -/
theorem ReadsRelations.suffix
    (hReads : ReadsRelations parent lines trees rest found) :
    rest <:+ lines := by
  induction hReads with
  | stop => exact List.suffix_refl _
  | branch _ _ hBody _ _ _ ihChildren ihSiblings =>
      subst hBody
      exact
        (ihSiblings.trans
          (ihChildren.trans
            (extent_suffix _ _ _ _))).trans
              (List.suffix_cons _ _)
  | lacking _ _ hBody _ _ ih =>
      subst hBody
      exact
        (ih.trans
          ((List.dropWhile_suffix _).trans
            (extent_suffix _ _ _ _))).trans
              (List.suffix_cons _ _)
  | unexpected _ _ _ ih =>
      exact
        (ih.trans (List.dropWhile_suffix _)).trans
          (List.suffix_cons _ _)

/- Relations are read by these rules. -/
theorem relations_reads
    {fuel : Nat}
    (hFuel : lines.length ≤ fuel)
    (parent : Nat) :
    ∃ trees rest found,
      Lists (relations .recover fuel parent lines)
          (trees, rest) found ∧
        ReadsRelations parent lines trees rest found := by
  -- the induction is on the fuel that the lines above leave
  induction fuel generalizing parent lines with
  | zero =>
      rw [List.eq_nil_of_length_eq_zero (Nat.le_zero.mp hFuel)]
      exact ⟨[], [], [], lists_pure _, .stop (by simp)⟩
  | succ fuel ih =>
      rcases lines with _ | ⟨position | line, rest⟩
      · exact ⟨[], [], [], lists_pure _, .stop (by simp)⟩
      · refine ⟨[], _, [], lists_pure _, .stop ?_⟩
        simp [isDeeper]
      have hRest : rest.length ≤ fuel :=
        Nat.le_of_succ_le_succ hFuel
      by_cases hShallow : line.indent ≤ parent
      · refine ⟨[], .filled line :: rest, [], ?_, .stop ?_⟩
        · simp only [relations, hShallow, if_true]
          exact lists_pure _
        · simpa [isDeeper] using hShallow
      have hDeep : parent < line.indent :=
        Nat.lt_of_not_le hShallow
      by_cases hMarker :
          ∃ marker, line.headKind? = some (.relation marker)
      · rcases hMarker with ⟨marker, hKind⟩
        rcases FilledLine.tokens_of_headKind? hKind with
          ⟨p, tokens, hTokens⟩
        have hLeft :=
          extent_length (some line.indent) tokens line.span rest
        generalize hBody :
          extent (some line.indent) tokens line.span rest =
            body at hLeft
        rcases entry_lists body.tokens body.span with
          ⟨target, own, hTarget⟩
        simp only [relations, hShallow, if_false, hTokens,
          hBody]
        cases target with
        | none =>
            have hSkipped :=
              Nat.le_trans
                (skipDeeper_length line.indent body.rest) hLeft
            rcases ih (Nat.le_trans hSkipped hRest) parent with
              ⟨trees, last, after, hRead, hAfter⟩
            exact
              ⟨trees, last, _,
                hTarget.bind (hRead.reported _),
                .lacking hDeep hTokens hBody hTarget hAfter⟩
        | some target =>
            rcases ih (Nat.le_trans hLeft hRest)
                line.indent with
              ⟨children, middle, below, hBelow, hChildren⟩
            have hMiddle :=
              Nat.le_trans hChildren.suffix.length_le hLeft
            rcases ih (Nat.le_trans hMiddle hRest) parent with
              ⟨siblings, last, after, hAfter, hSiblings⟩
            exact
              ⟨_, last, _,
                hTarget.bind (hBelow.bind (hAfter.map _)),
                .branch hDeep hTokens hBody hTarget hChildren
                  hSiblings⟩
      · have hOther := not_exists.mp hMarker
        have hSkipped := skipDeeper_length line.indent rest
        rcases ih (Nat.le_trans hSkipped hRest) parent with
          ⟨trees, last, after, hRead, hAfter⟩
        rw [relations_unexpected _ _ hShallow hOther]
        exact
          ⟨trees, last, _, hRead.reported _,
            .unexpected hDeep hOther hAfter⟩

------------------------------------------------------------
-- Premise-Conclusion Structures
------------------------------------------------------------

/-
  The items of a premise-conclusion structure are read from
  some lines, which leaves other ones; there are none if one of
  the statements is at fault:

    * `stop`: the structure does not go on;
    * `gap`: it goes on after a gap;
    * `statement`: a numbered statement, the relations below it
      and the items after it;
    * `refused`: a number without a statement, after which the
      rest of the structure is skipped;
    * `inference`: an inference and the items after it.
-/
inductive ReadsItems :
    (lines : List Line) →
    (items : Option (List ReconstructionItem)) →
    (rest : List Line) →
    (found : List SyntaxFault) →
    Prop
| stop
    {lines : List Line}
    (hStops : resumes lines = false) :
    ReadsItems lines (some []) lines []
| gap
    {p : Position}
    {rest last : List Line}
    {items : Option (List ReconstructionItem)}
    {after : List SyntaxFault}
    (hResumes : resumes rest = true)
    (hAfter : ReadsItems rest items last after) :
    ReadsItems (.gap p :: rest) items last after
| statement
    {line : FilledLine}
    {rest middle last : List Line}
    {number : Nat}
    {p : Position}
    {tokens : List Token}
    {body : Extent}
    {statement : StatementEntry}
    {related : List RelationEntry}
    {items : Option (List ReconstructionItem)}
    {own below after : List SyntaxFault}
    (hIndent : line.indent = 0)
    (hTokens : line.tokens = ⟨.step number, p⟩ :: tokens)
    (hBody : extent none tokens line.span rest = body)
    (hStatement :
      Lists (entry .recover body.tokens body.span)
        (some (.statement statement)) own)
    (hRelated :
      ReadsRelations 0 body.rest related middle below)
    (hAfter : ReadsItems middle items last after) :
    ReadsItems (.filled line :: rest)
      (items.map (.statement ⟨number, statement, related⟩ :: ·))
      last (own ++ (below ++ after))
| refused
    {line : FilledLine}
    {rest : List Line}
    {number : Nat}
    {p : Position}
    {tokens : List Token}
    {body : Extent}
    {refused : Option Entry}
    {own : List SyntaxFault}
    {cause : SyntaxFault.Cause}
    (hIndent : line.indent = 0)
    (hTokens : line.tokens = ⟨.step number, p⟩ :: tokens)
    (hBody : extent none tokens line.span rest = body)
    (hRefused :
      Lists (entry .recover body.tokens body.span) refused own)
    (hCause :
      refused = none ∧ cause = .emptyStep number ∨
        ∃ argument, refused = some (.argument argument) ∧
          cause = .argumentAsStep) :
    ReadsItems (.filled line :: rest) none
      (skipReconstruction body.rest)
      (own ++ [⟨cause, line.contentStart⟩])
| inference
    {line : FilledLine}
    {rest last : List Line}
    {rule : Option String}
    {p : Position}
    {tokens : List Token}
    {items : Option (List ReconstructionItem)}
    {after : List SyntaxFault}
    (hIndent : line.indent = 0)
    (hTokens : line.tokens = ⟨.inference rule, p⟩ :: tokens)
    (hAfter : ReadsItems rest items last after) :
    ReadsItems (.filled line :: rest)
      (items.map (.inference ⟨rule, line.span⟩ :: ·)) last after

variable {items : Option (List ReconstructionItem)}

/- The lines that a structure leaves are the last ones. -/
theorem ReadsItems.suffix
    (hReads : ReadsItems lines items rest found) :
    rest <:+ lines := by
  induction hReads with
  | stop => exact List.suffix_refl _
  | gap _ _ ih => exact ih.trans (List.suffix_cons _ _)
  | statement _ _ hBody _ hRelated _ ih =>
      subst hBody
      exact
        (ih.trans
          (hRelated.suffix.trans
            (extent_suffix _ _ _ _))).trans
              (List.suffix_cons _ _)
  | refused _ _ hBody _ _ =>
      subst hBody
      exact
        ((List.dropWhile_suffix _).trans
          (extent_suffix _ _ _ _)).trans (List.suffix_cons _ _)
  | inference _ _ _ ih => exact ih.trans (List.suffix_cons _ _)

/- The items of a structure are read by these rules. -/
theorem reconstructionItems_reads
    {fuel : Nat}
    (hFuel : lines.length ≤ fuel) :
    ∃ items rest found,
      Lists (reconstructionItems .recover fuel lines)
          (items, rest) found ∧
        ReadsItems lines items rest found := by
  have hStopped : ∀ fuel (lines : List Line),
      resumes lines = false →
        ∃ items rest found,
          Lists (reconstructionItems .recover fuel lines)
              (items, rest) found ∧
            ReadsItems lines items rest found := by
    intro fuel lines hStops
    rw [reconstructionItems_stops _ _ hStops]
    exact ⟨some [], lines, [], lists_pure _, .stop hStops⟩
  induction fuel generalizing lines with
  | zero =>
      rw [List.eq_nil_of_length_eq_zero (Nat.le_zero.mp hFuel)]
      exact hStopped 0 [] rfl
  | succ fuel ih =>
      cases hResumes : resumes lines with
      | false => exact hStopped (fuel + 1) lines hResumes
      | true =>
          rcases lines with _ | ⟨position | line, rest⟩
          · cases hResumes
          · have hLater : resumes rest = true := hResumes
            rcases ih (Nat.le_of_succ_le_succ hFuel) with
              ⟨items, last, after, hRead, hAfter⟩
            simp only [reconstructionItems, hLater, if_true]
            exact
              ⟨items, last, after, hRead, .gap hLater hAfter⟩
          have hRest : rest.length ≤ fuel :=
            Nat.le_of_succ_le_succ hFuel
          rcases tokens_of_resumes hResumes with
            ⟨hIndent, ⟨number, p, tokens, hTokens⟩ |
              ⟨rule, p, tokens, hTokens⟩⟩
          · have hLeft :=
              extent_length none tokens line.span rest
            generalize hBody :
              extent none tokens line.span rest = body at hLeft
            rcases entry_lists body.tokens body.span with
              ⟨target, own, hTarget⟩
            simp only [reconstructionItems, hIndent, if_true,
              hTokens, hBody]
            rcases target with _ | statement | argument
            · exact
                ⟨none, _, _,
                  hTarget.bind ((lists_pure _).reported _),
                  .refused hIndent hTokens hBody hTarget
                    (.inl ⟨rfl, rfl⟩)⟩
            · rcases relations_reads
                  (Nat.le_trans hLeft hRest) 0 with
                ⟨related, middle, below, hBelow, hRelated⟩
              have hMiddle :=
                Nat.le_trans hRelated.suffix.length_le hLeft
              rcases ih (Nat.le_trans hMiddle hRest) with
                ⟨items, last, after, hRead, hAfter⟩
              exact
                ⟨_, last, _,
                  hTarget.bind (hBelow.bind (hRead.map _)),
                  .statement hIndent hTokens hBody hTarget
                    hRelated hAfter⟩
            · exact
                ⟨none, _, _,
                  hTarget.bind ((lists_pure _).reported _),
                  .refused hIndent hTokens hBody hTarget
                    (.inr ⟨argument, rfl, rfl⟩)⟩
          · rcases ih hRest with
              ⟨items, last, after, hRead, hAfter⟩
            simp only [reconstructionItems, hIndent, if_true,
              hTokens]
            exact
              ⟨_, last, after, hRead.map _,
                .inference hIndent hTokens hAfter⟩

------------------------------------------------------------
-- Pieces
------------------------------------------------------------

/-
  The piece that a line starts, if any, is read from it and the
  lines after it:

    * `heading` and `untitled`: a heading line, with a title or
      without one;
    * `ordered`, `disordered` and `broken`: the lines of a
      premise-conclusion structure, which are in order or not,
      or one of which is at fault;
    * `stray`: an inference without premises, or a relation
      without a parent;
    * `element` and `missing`: an element line that has an
      element or none.
-/
inductive ReadsPiece (line : FilledLine) (lines : List Line) :
    (piece : Option Piece) →
    (rest : List Line) →
    (found : List SyntaxFault) →
    Prop
| heading
    {level : Nat}
    {p : Position}
    {tokens : List Token}
    {content : Inline}
    {own : List SyntaxFault}
    (hTokens : line.tokens = ⟨.heading level, p⟩ :: tokens)
    (hContent : Lists (inline .recover tokens) content own)
    (hTitle : content.squeezed.isEmpty = false) :
    ReadsPiece line lines
      (some (.block (.heading
        ⟨level, content.squeezed, content.tags, content.data,
          line.span⟩)))
      lines own
| untitled
    {level : Nat}
    {p : Position}
    {tokens : List Token}
    {content : Inline}
    {own : List SyntaxFault}
    (hTokens : line.tokens = ⟨.heading level, p⟩ :: tokens)
    (hContent : Lists (inline .recover tokens) content own)
    (hTitle : content.squeezed.isEmpty = true) :
    ReadsPiece line lines none lines
      (own ++ [⟨.headingWithoutTitle, line.contentStart⟩])
| ordered
    {number : Nat}
    {items : List ReconstructionItem}
    {rest : List Line}
    {found : List SyntaxFault}
    (hIndent : line.indent = 0)
    (hKind : line.headKind? = some (.step number))
    (hItems :
      ReadsItems (.filled line :: lines) (some items) rest found)
    (hOrder : orderFault? items = none) :
    ReadsPiece line lines
      (some (.reconstruction
        ⟨items,
          Span.mergeAll ⟨line.contentStart, line.contentStart⟩
            (items.flatMap ReconstructionItem.spans)⟩))
      rest found
| disordered
    {number : Nat}
    {items : List ReconstructionItem}
    {rest : List Line}
    {found : List SyntaxFault}
    {cause : SyntaxFault.Cause}
    (hIndent : line.indent = 0)
    (hKind : line.headKind? = some (.step number))
    (hItems :
      ReadsItems (.filled line :: lines) (some items) rest found)
    (hOrder : orderFault? items = some cause) :
    ReadsPiece line lines none rest
      (found ++ [⟨cause, line.contentStart⟩])
| broken
    {number : Nat}
    {rest : List Line}
    {found : List SyntaxFault}
    (hIndent : line.indent = 0)
    (hKind : line.headKind? = some (.step number))
    (hItems :
      ReadsItems (.filled line :: lines) none rest found) :
    ReadsPiece line lines none rest found
| stray
    {cause : SyntaxFault.Cause}
    (hCause :
      (∃ rule, line.headKind? = some (.inference rule) ∧
          cause = .inferenceWithoutPremises) ∨
        ∃ marker, line.headKind? = some (.relation marker) ∧
          cause = .relationWithoutParent marker) :
    ReadsPiece line lines none (skipDeeper 0 lines)
      [⟨cause, line.contentStart⟩]
| element
    {body : Extent}
    {element : Entry}
    {related : List RelationEntry}
    {rest : List Line}
    {own below : List SyntaxFault}
    (hOpens : opensElement line)
    (hBody :
      extent none (line.tokens.dropWhile isBullet) line.span
          lines =
        body)
    (hElement :
      Lists (entry .recover body.tokens body.span)
        (some element) own)
    (hRelated :
      ReadsRelations line.indent body.rest related rest below) :
    ReadsPiece line lines
      (some (.block (.element
        ⟨element, related, none,
          RelationEntry.cover body.span related⟩)))
      rest (own ++ below)
| missing
    {body : Extent}
    {own : List SyntaxFault}
    (hOpens : opensElement line)
    (hBody :
      extent none (line.tokens.dropWhile isBullet) line.span
          lines =
        body)
    (hElement :
      Lists (entry .recover body.tokens body.span) none own) :
    ReadsPiece line lines none (skipDeeper line.indent body.rest)
      (own ++ [⟨.missingElement, line.contentStart⟩])

variable {line : FilledLine} {piece? : Option Piece}

/- The lines that a piece leaves are the last ones. -/
theorem ReadsPiece.suffix
    (hReads : ReadsPiece line lines piece? rest found) :
    rest <:+ lines := by
  have hItems : ∀ {items : Option (List ReconstructionItem)}
      {rest found} {number : Nat},
      line.indent = 0 →
        line.headKind? = some (.step number) →
          ReadsItems (.filled line :: lines) items rest found →
            rest <:+ lines := by
    intro items rest found number hIndent hKind hItems
    cases hItems with
    | stop hStops =>
        simp [resumes, inReconstruction, hIndent, hKind]
          at hStops
    | statement _ _ hBody _ hRelated hAfter =>
        subst hBody
        exact
          hAfter.suffix.trans
            (hRelated.suffix.trans (extent_suffix _ _ _ _))
    | refused _ _ hBody _ _ =>
        subst hBody
        exact
          (List.dropWhile_suffix _).trans
            (extent_suffix _ _ _ _)
    | inference _ _ hAfter => exact hAfter.suffix
  cases hReads with
  | heading => exact List.suffix_refl _
  | untitled => exact List.suffix_refl _
  | ordered hIndent hKind hRead =>
      exact hItems hIndent hKind hRead
  | disordered hIndent hKind hRead =>
      exact hItems hIndent hKind hRead
  | broken hIndent hKind hRead =>
      exact hItems hIndent hKind hRead
  | stray => exact List.dropWhile_suffix _
  | element _ hBody _ hRelated =>
      subst hBody
      exact hRelated.suffix.trans (extent_suffix _ _ _ _)
  | missing _ hBody _ =>
      subst hBody
      exact
        (List.dropWhile_suffix _).trans (extent_suffix _ _ _ _)

/- An element line is read by these rules. -/
theorem elementBlock_reads
    {fuel : Nat}
    (hFuel : lines.length ≤ fuel)
    (hOpens : opensElement line) :
    ∃ block? rest found,
      Lists (elementBlock .recover fuel line lines)
          (block?, rest) found ∧
        ReadsPiece line lines
          (block?.map (fun b => .block (.element b))) rest
          found := by
  have hLeft :=
    extent_length none (line.tokens.dropWhile isBullet)
      line.span lines
  unfold elementBlock
  generalize hBody :
    extent none (line.tokens.dropWhile isBullet) line.span
      lines = body at hLeft
  rcases entry_lists body.tokens body.span with
    ⟨target, own, hTarget⟩
  cases target with
  | none =>
      exact
        ⟨none, _, _,
          hTarget.bind ((lists_pure _).reported _),
          .missing hOpens hBody hTarget⟩
  | some element =>
      rcases relations_reads (Nat.le_trans hLeft hFuel)
          line.indent with
        ⟨related, rest, below, hBelow, hRelated⟩
      exact
        ⟨some _, rest, _, hTarget.bind (hBelow.map _),
          .element hOpens hBody hTarget hRelated⟩

/- A structure at the top level is read by these rules. -/
theorem reconstruction_reads
    {fuel : Nat}
    (hFuel : lines.length ≤ fuel)
    (hIndent : line.indent = 0)
    {number : Nat}
    (hKind : line.headKind? = some (.step number)) :
    ∃ r? rest found,
      Lists
          (reconstruction .recover (fuel + 1)
            line.contentStart (.filled line :: lines))
          (r?, rest) found ∧
        ReadsPiece line lines (r?.map .reconstruction) rest
          found := by
  have hFirst : (Line.filled line :: lines).length ≤ fuel + 1 :=
    Nat.succ_le_succ hFuel
  rcases reconstructionItems_reads hFirst with
    ⟨items, rest, found, hRead, hItems⟩
  unfold reconstruction
  cases items with
  | none =>
      exact
        ⟨none, rest, found, hRead.gives rfl,
          .broken hIndent hKind hItems⟩
  | some items =>
      cases hOrder : orderFault? items with
      | none =>
          exact
            ⟨some _, rest, found,
              hRead.gives (by simp only [hOrder]),
              .ordered hIndent hKind hItems hOrder⟩
      | some cause =>
          refine
            ⟨none, rest, _, .bind hRead ?_,
              .disordered hIndent hKind hItems hOrder⟩
          simp only [hOrder]
          exact (lists_pure _).reported _

/- A heading line is read by these rules. -/
theorem heading_reads
    (lines : List Line)
    {level : Nat}
    {p : Position}
    {tokens : List Token}
    (hTokens : line.tokens = ⟨.heading level, p⟩ :: tokens) :
    ∃ heading? found,
      Lists (heading .recover level tokens line) heading?
          found ∧
        ReadsPiece line lines
          (heading?.map (fun h => .block (.heading h))) lines
          found := by
  rcases inline_lists tokens with ⟨content, own, hContent⟩
  unfold heading
  cases hTitle : content.squeezed.isEmpty with
  | true =>
      refine
        ⟨none, _, .bind hContent ?_,
          .untitled hTokens hContent hTitle⟩
      simp only [hTitle, if_true]
      exact (lists_pure _).reported _
  | false =>
      exact
        ⟨some _, own, hContent.gives (by simp [hTitle]),
          .heading hTokens hContent hTitle⟩

/- What a line starts is read by these rules. -/
theorem piece_reads
    {fuel : Nat}
    (hFuel : lines.length ≤ fuel)
    (line : FilledLine) :
    ∃ piece? rest found,
      Lists (piece .recover fuel line lines) (piece?, rest)
          found ∧
        ReadsPiece line lines piece? rest found := by
  have hElement : opensElement line →
      ∃ piece? rest found,
        Lists
            (do
              let read ← elementBlock .recover fuel line lines
              pure
                (read.1.map
                  (fun b => Piece.block (.element b)),
                  read.2))
            (piece?, rest) found ∧
          ReadsPiece line lines piece? rest found := by
    intro hOpens
    rcases elementBlock_reads hFuel hOpens with
      ⟨block?, rest, found, hRead, hReads⟩
    exact ⟨_, rest, found, hRead.map _, hReads⟩
  unfold piece
  rcases hTokens : line.tokens with _ | ⟨⟨kind, p⟩, tokens⟩
  · exact
      hElement
        (by simp [opensElement, FilledLine.headKind?, hTokens])
  have hKind : line.headKind? = some kind := by
    rw [FilledLine.headKind?, hTokens]
    rfl
  cases kind with
  | heading level =>
      rcases heading_reads lines hTokens with
        ⟨heading?, found, hRead, hReads⟩
      exact ⟨_, lines, found, hRead.map _, hReads⟩
  | step number =>
      by_cases hIndent : line.indent = 0
      · simp only [hIndent, if_true]
        rcases reconstruction_reads hFuel hIndent hKind with
          ⟨r?, rest, found, hRead, hReads⟩
        exact ⟨_, rest, found, hRead.map _, hReads⟩
      · simp only [hIndent, if_false]
        exact hElement (by simpa [opensElement, hKind])
  | inference rule =>
      exact
        ⟨none, _, _, (lists_pure _).reported _,
          .stray (.inl ⟨rule, hKind, rfl⟩)⟩
  | relation marker =>
      exact
        ⟨none, _, _, (lists_pure _).reported _,
          .stray (.inr ⟨marker, hKind, rfl⟩)⟩
  | _ => exact hElement (by simp [opensElement, hKind])

------------------------------------------------------------
-- Documents
------------------------------------------------------------

/-
  The pieces of a document are read from its lines: a gap is
  passed over, and a line with content starts a piece, or it is
  skipped with the lines that belong to it.
-/
inductive ReadsPieces :
    (lines : List Line) →
    (pieces : List Piece) →
    (found : List SyntaxFault) →
    Prop
| nil : ReadsPieces [] [] []
| gap
    {p : Position}
    {rest : List Line}
    {pieces : List Piece}
    {found : List SyntaxFault}
    (hAfter : ReadsPieces rest pieces found) :
    ReadsPieces (.gap p :: rest) pieces found
| filled
    {line : FilledLine}
    {rest middle : List Line}
    {piece? : Option Piece}
    {pieces : List Piece}
    {own after : List SyntaxFault}
    (hPiece : ReadsPiece line rest piece? middle own)
    (hAfter : ReadsPieces middle pieces after) :
    ReadsPieces (.filled line :: rest)
      (piece?.toList ++ pieces) (own ++ after)

/- The pieces of a document are read by these rules. -/
theorem pieces_reads
    {fuel : Nat}
    (hFuel : lines.length ≤ fuel) :
    ∃ read found,
      Lists (pieces .recover fuel lines) read found ∧
        ReadsPieces lines read found := by
  induction fuel generalizing lines with
  | zero =>
      rw [List.eq_nil_of_length_eq_zero (Nat.le_zero.mp hFuel)]
      exact ⟨[], [], lists_pure _, .nil⟩
  | succ fuel ih =>
      rcases lines with _ | ⟨position | line, rest⟩
      · exact ⟨[], [], lists_pure _, .nil⟩
      · rcases ih (Nat.le_of_succ_le_succ hFuel) with
          ⟨read, found, hRead, hReads⟩
        exact ⟨read, found, hRead, .gap hReads⟩
      · have hRest : rest.length ≤ fuel :=
          Nat.le_of_succ_le_succ hFuel
        rcases piece_reads hRest line with
          ⟨piece?, middle, own, hPiece, hFirst⟩
        rcases ih
            (Nat.le_trans hFirst.suffix.length_le hRest) with
          ⟨read, after, hRead, hReads⟩
        exact
          ⟨_, _, hPiece.bind (hRead.map _),
            .filled hFirst hReads⟩

end Parser

namespace Document

/-
  A document that is read is put together from pieces that are
  read by these rules.  Its faults are those of the tokens, the
  front matter and the pieces.
-/
theorem read_pieces (input : String) :
    ∃ front early pieces found,
      Parser.Lists
          (Parser.frontMatter .recover
            (Lexer.lex input).frontMatter)
          front early ∧
        Parser.ReadsPieces (Lexer.lex input).lines pieces
          found ∧
        read input =
          ⟨⟨front, Parser.assemble pieces⟩,
            (Lexer.lex input).faults ++ (early ++ found)⟩ := by
  rcases Parser.frontMatter_lists
      (Lexer.lex input).frontMatter with
    ⟨front, early, hFront⟩
  rcases Parser.pieces_reads
      (Nat.le_refl (Lexer.lex input).lines.length) with
    ⟨pieces, found, hRead, hReads⟩
  exact
    ⟨front, early, pieces, found, hFront, hReads,
      read_eq hFront (hRead.map _)⟩

end Document

end Dialectic
