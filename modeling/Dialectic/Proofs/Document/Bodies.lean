import Dialectic.Proofs.Document.Coverage

/-
  The tokens that the elements of a document are read from.  An
  element stands on a line, behind what opens the line, and goes
  on with the lines after it.  Only an argument that a structure
  has been made up for does not stand anywhere.

  Key definitions include:
    * `Parser.contentOf`
    * `Parser.Body`
    * `Parser.Body.StandsFor`
    * `Parser.HasBody`

  Main theorems:
    * `Parser.ReadsRelations.bodies`
    * `Parser.ReadsItems.bodies`
    * `Parser.ReadsPieces.bodies`
    * `Document.read_bodies`
-/

namespace Dialectic

variable [YamlReader]

namespace Parser

------------------------------------------------------------
-- Bodies
------------------------------------------------------------

/- The tokens of an element behind its title, if it has one. -/
def contentOf : List Token → List Token
| ⟨.statementDefinition _, _⟩ :: tokens => tokens
| ⟨.statementReference _, _⟩ :: tokens => tokens
| ⟨.argumentDefinition _, _⟩ :: tokens => tokens
| ⟨.argumentReference _, _⟩ :: tokens => tokens
| tokens => tokens

/-
  Where an element stands: a line and those after it, and the
  tokens of the line in two parts, what opens the line and what
  the element starts with.
-/
structure Body where
  line : FilledLine
  rest : List Line
  opening : List Token
  first : List Token

namespace Body

/-
  The indentation that the lines of an element have to be deeper
  than to go on with it.
-/
def above (body : Body) : Option Nat :=
  match body.opening with
  | ⟨.relation _, _⟩ :: _ => some body.line.indent
  | _ => none

/- The tokens of an element and the lines that it takes. -/
def extent (body : Body) : Extent :=
  Parser.extent body.above body.first body.line.span body.rest

/- The tokens of the content of an element. -/
def content (body : Body) : List Token :=
  contentOf body.extent.tokens

/- An element is read from a body among some lines. -/
structure StandsFor
    (body : Body)
    (lines : List Line)
    (target : Entry) : Prop where
  there : .filled body.line :: body.rest <:+ lines
  tokens : body.line.tokens = body.opening ++ body.first
  opens : ∀ token ∈ body.opening, token.kind.opensLine = true
  read : ∃ found,
    Lists
      (entry .recover body.extent.tokens body.extent.span)
      (some target) found

end Body

/- An element has a body among the given lines. -/
def HasBody (lines : List Line) (target : Entry) : Prop :=
  ∃ body : Body, body.StandsFor lines target

variable {parent : Nat} {line : FilledLine}
variable {lines rest more : List Line}
variable {trees : List RelationEntry} {target : Entry}
variable {found : List SyntaxFault}

/- There may be other lines before. -/
theorem HasBody.mono
    (hThere : HasBody lines target)
    (hSuffix : lines <:+ more) :
    HasBody more target := by
  rcases hThere with ⟨body, hBody, hTokens, hOpens, hRead⟩
  exact ⟨body, hBody.trans hSuffix, hTokens, hOpens, hRead⟩

/- An element alone on a line has the tokens of the line. -/
theorem Body.StandsFor.content_eq
    {body : Body}
    (hStands : body.StandsFor lines target)
    (hAlone : lines = [.filled line])
    (hHead : ∀ token ∈ line.tokens.head?,
      token.kind.opensLine = false) :
    body.content = contentOf line.tokens := by
  rcases hStands with ⟨hThere, hTokens, hOpens, _⟩
  have hLines : .filled body.line :: body.rest = lines :=
    hThere.eq_of_length_le (by simp [hAlone])
  rw [hAlone] at hLines
  rcases List.cons.inj hLines with ⟨hLine, hRest⟩
  cases hLine
  have hOpening : body.opening = [] := by
    cases hFirst : body.opening with
    | nil => rfl
    | cons token opening =>
        have hOpen := hOpens token (by simp [hFirst])
        rw [hHead token (by simp [hTokens, hFirst])] at hOpen
        cases hOpen
  rw [hOpening, List.nil_append] at hTokens
  simp [content, extent, Parser.extent, hRest, hTokens]

------------------------------------------------------------
-- Relations and Structures
------------------------------------------------------------

/- The targets of relations have bodies on their lines. -/
theorem ReadsRelations.bodies
    (hReads : ReadsRelations parent lines trees rest found) :
    ∀ e ∈ RelationEntry.entriesOf trees, HasBody lines e := by
  induction hReads with
  | stop => simp [RelationEntry.entriesOf]
  | @branch parent line rest middle last marker p tokens body
      target children siblings own below after hDeep hTokens
      hBody hTarget hChildren hSiblings ihChildren ihSiblings =>
      subst hBody
      have hLater :=
        (extent_suffix (some line.indent) tokens line.span
          rest).trans (List.suffix_cons (.filled line) rest)
      have hHere : HasBody (.filled line :: rest) target :=
        ⟨⟨line, rest, [⟨.relation marker, p⟩], tokens⟩,
          List.suffix_refl _, hTokens,
          by simp [TokenKind.opensLine], own, hTarget⟩
      intro e he
      rw [RelationEntry.entriesOf, RelationEntry.entries] at he
      rcases List.mem_append.mp he with hFirst | hOther
      · rcases List.mem_cons.mp hFirst with rfl | hBelow
        · exact hHere
        · exact (ihChildren e hBelow).mono hLater
      · exact
          (ihSiblings e hOther).mono
            (hChildren.suffix.trans hLater)
  | @lacking parent line rest last marker p tokens body trees
      own after hDeep hTokens hBody hTarget hAfter ih =>
      subst hBody
      intro e he
      exact
        (ih e he).mono
          (((List.dropWhile_suffix _).trans
            (extent_suffix _ _ _ _)).trans
              (List.suffix_cons _ _))
  | unexpected _ _ _ ih =>
      intro e he
      exact
        (ih e he).mono
          ((List.dropWhile_suffix _).trans
            (List.suffix_cons _ _))

/- So do the statements of a structure. -/
theorem ReadsItems.bodies
    {items? : Option (List ReconstructionItem)}
    (hReads : ReadsItems lines items? rest found) :
    ∀ items, items? = some items →
      ∀ step, .statement step ∈ items →
        ∀ e ∈ step.entries, HasBody lines e := by
  induction hReads with
  | stop =>
      rintro items ⟨⟩ step hStep
      cases hStep
  | gap _ _ ih =>
      intro items hItems step hStep e he
      exact
        (ih items hItems step hStep e he).mono
          (List.suffix_cons _ _)
  | @statement line rest middle last number p tokens body
      statement related items own below after hIndent hTokens
      hBody hStatement hRelated hAfter ih =>
      subst hBody
      have hLater :=
        (extent_suffix none tokens line.span rest).trans
          (List.suffix_cons (.filled line) rest)
      have hHere :
          HasBody (.filled line :: rest) (.statement statement) :=
        ⟨⟨line, rest, [⟨.step number, p⟩], tokens⟩,
          List.suffix_refl _, hTokens,
          by simp [TokenKind.opensLine], own, hStatement⟩
      intro items' hItems step hStep e he
      rcases Option.map_eq_some_iff.mp hItems with
        ⟨others, hOthers, rfl⟩
      rcases List.mem_cons.mp hStep with hSame | hOther
      · cases hSame
        rcases List.mem_cons.mp he with rfl | hBelow
        · exact hHere
        · exact (hRelated.bodies e hBelow).mono hLater
      · exact
          (ih others hOthers step hOther e he).mono
            (hRelated.suffix.trans hLater)
  | refused => exact fun _ hNone => by cases hNone
  | inference _ _ _ ih =>
      intro items hItems step hStep e he
      rcases Option.map_eq_some_iff.mp hItems with
        ⟨others, hOthers, rfl⟩
      have hOther : .statement step ∈ others := by
        simpa using hStep
      exact
        (ih others hOthers step hOther e he).mono
          (List.suffix_cons _ _)

------------------------------------------------------------
-- Pieces
------------------------------------------------------------

/- The occurrences in a piece. -/
def Piece.entries : Piece → List Entry
| .block b => b.entries
| .reconstruction r =>
    r.statements.flatMap NumberedEntry.entries

/- An element has its body behind the bullets of its line. -/
theorem hasBody_bulleted
    (line : FilledLine)
    (lines : List Line)
    (hRead :
      let body :=
        extent none (line.tokens.dropWhile isBullet) line.span
          lines
      Lists (entry .recover body.tokens body.span) (some target)
        found) :
    HasBody (.filled line :: lines) target := by
  have hBullets : ∀ token ∈ line.tokens.takeWhile isBullet,
      token.kind = .bullet := by
    intro token hToken
    simpa [isBullet] using List.mem_takeWhile_imp hToken
  let body : Body :=
    ⟨line, lines, line.tokens.takeWhile isBullet,
      line.tokens.dropWhile isBullet⟩
  have hAbove : body.above = none := by
    unfold Body.above
    split
    · next hOpening =>
        have hKind := hBullets _ (hOpening ▸ List.mem_cons_self)
        cases hKind
    · rfl
  refine
    ⟨body, List.suffix_refl _,
      List.takeWhile_append_dropWhile.symm, ?_, found, ?_⟩
  · intro token hToken
    rw [hBullets token hToken]
    rfl
  · rw [Body.extent, hAbove]
    exact hRead

/- What is read from a line and those after it has bodies. -/
theorem ReadsPiece.bodies
    {piece? : Option Piece}
    (hReads : ReadsPiece line lines piece? rest found) :
    ∀ piece ∈ piece?, ∀ e ∈ piece.entries,
      HasBody (.filled line :: lines) e := by
  cases hReads with
  | heading =>
      rintro _ ⟨⟩ e he
      cases he
  | ordered _ _ hItems _ =>
      rintro _ ⟨⟩ e he
      rw [Piece.entries] at he
      rcases List.mem_flatMap.mp he with ⟨step, hStep, hHere⟩
      exact
        hItems.bodies _ rfl step (mem_statements.mp hStep) e
          hHere
  | @element body element related rest own below hOpens hBody
      hElement hRelated =>
      subst hBody
      rintro _ ⟨⟩ e he
      have hEntries :
          e = element ∨ e ∈ RelationEntry.entriesOf related := by
        simpa [Piece.entries, Block.entries,
          ElementBlock.entries, ElementBlock.steps] using he
      rcases hEntries with rfl | hBelow
      · exact hasBody_bulleted line lines hElement
      · exact
          (hRelated.bodies e hBelow).mono
            ((extent_suffix _ _ _ _).trans
              (List.suffix_cons _ _))
  | untitled => exact fun _ hNone => by cases hNone
  | disordered => exact fun _ hNone => by cases hNone
  | broken => exact fun _ hNone => by cases hNone
  | stray => exact fun _ hNone => by cases hNone
  | missing => exact fun _ hNone => by cases hNone

/- So does what is read from all lines. -/
theorem ReadsPieces.bodies
    {pieces : List Piece}
    (hReads : ReadsPieces lines pieces found) :
    ∀ piece ∈ pieces, ∀ e ∈ piece.entries, HasBody lines e := by
  induction hReads with
  | nil => exact fun _ hNone => by cases hNone
  | gap _ ih =>
      intro piece hPiece e he
      exact
        (ih piece hPiece e he).mono (List.suffix_cons _ _)
  | filled hPiece _ ih =>
      intro piece hThere e he
      rcases List.mem_append.mp hThere with hFirst | hLater
      · exact
          hPiece.bodies piece (Option.mem_toList.mp hFirst) e he
      · exact
          (ih piece hLater e he).mono
            (hPiece.suffix.trans (List.suffix_cons _ _))

/-
  When pieces are put together, arguments without a title are
  all that is added.
-/
omit [YamlReader] in
theorem mem_entries_assemble
    {pieces : List Piece}
    {e : Entry}
    (hEntry : e ∈ (assemble pieces).flatMap Block.entries) :
    (∃ piece ∈ pieces, e ∈ piece.entries) ∨
      ∃ span, e = .argument (.untitled span) := by
  rw [assemble_eq, List.mem_flatMap] at hEntry
  rcases hEntry with ⟨block, hBlock, hHere⟩
  revert block e
  -- what a structure is attached to is there or is made up
  have hAll : ∀ block ∈ pieces.foldl grow [],
      ∀ e ∈ block.entries,
        (∃ piece ∈ pieces, e ∈ piece.entries) ∨
          ∃ span, e = .argument (.untitled span) := by
    refine
      List.foldlRecOn pieces grow
        (motive := fun blocks => ∀ block ∈ blocks,
          ∀ e ∈ Block.entries block,
            (∃ piece ∈ pieces, e ∈ piece.entries) ∨
              ∃ span, e = .argument (.untitled span))
        (fun _ hNone => by cases hNone)
        (fun blocks hBlocks piece hPiece => ?_)
    cases piece with
    | block first =>
        exact
          List.forall_mem_cons.mpr
            ⟨fun e he => .inl ⟨_, hPiece, he⟩, hBlocks⟩
    | reconstruction r =>
        have hSteps : ∀ e ∈
            r.statements.flatMap NumberedEntry.entries,
              ∃ piece ∈ pieces, e ∈ piece.entries :=
          fun e he => ⟨_, hPiece, he⟩
        rw [grow]
        unfold attach
        split
        · next entry related span blocks =>
            rcases List.forall_mem_cons.mp hBlocks with
              ⟨hLast, hOthers⟩
            refine List.forall_mem_cons.mpr ⟨?_, hOthers⟩
            intro e he
            simp only [Block.entries, ElementBlock.entries,
              ElementBlock.steps, List.mem_cons,
              List.mem_append] at he hLast
            rcases he with hFirst | hStep | hBelow
            · exact hLast e (.inl hFirst)
            · exact .inl (hSteps e hStep)
            · exact hLast e (.inr (.inr hBelow))
        · refine List.forall_mem_cons.mpr ⟨?_, hBlocks⟩
          intro e he
          simp only [Block.entries, ElementBlock.entries,
            ElementBlock.steps, List.mem_cons, List.mem_append]
            at he
          rcases he with rfl | hStep | hBelow
          · exact .inr ⟨_, rfl⟩
          · exact .inl (hSteps e hStep)
          · cases hBelow
  intro e block hBlock he
  exact hAll block (List.mem_reverse.mp hBlock) e he

end Parser

/-
  The elements of a document have bodies on its lines, but for
  arguments without a title that structures belong to.
-/
theorem Document.read_bodies (input : String) :
    ∀ e ∈ (read input).document.blocks.flatMap Block.entries,
      Parser.HasBody (Lexer.lex input).lines e ∨
        ∃ span, e = .argument (.untitled span) := by
  rcases read_pieces input with
    ⟨front, early, pieces, found, _, hReads, hRead⟩
  intro e he
  rw [hRead] at he
  rcases Parser.mem_entries_assemble he with
    ⟨piece, hPiece, hHere⟩ | hOwn
  · exact .inl (hReads.bodies piece hPiece e hHere)
  · exact .inr hOwn

end Dialectic
