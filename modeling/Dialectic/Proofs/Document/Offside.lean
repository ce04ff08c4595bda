import Dialectic.Notation.Yaml.Reader
import Dialectic.Proofs.Document.Coverage

/-
  How relation lines are nested: the parent of a relation line
  is the nearest line before it with a smaller indentation.
  `Parser.offside` says this of the lines alone, without any
  tree, and it agrees with the trees that are read.

  Key definitions include:
    * `RelationEntry.rows`
    * `Parser.branches`
    * `Parser.offside`
    * `Document.owners`

  Main theorems:
    * `Parser.ReadsRelations.rest_eq`
    * `Parser.ReadsRelations.offside`
    * `Document.read_offside`
-/

namespace Dialectic

------------------------------------------------------------
-- Flat Relations
------------------------------------------------------------

/-
  A relation without those below it: where its parent starts,
  its marker and its target.
-/
structure Row where
  parent : Option Position
  marker : Marker
  target : Option Entry
deriving DecidableEq, Repr

namespace RelationEntry

mutual

/- A relation line and those below it, in order. -/
def rows (parent : Position) : RelationEntry → List Row
| ⟨marker, target, children, _⟩ =>
    ⟨some parent, marker, some target⟩
      :: rowsOf target.span.start children

/- Some relation lines and those below them, in order. -/
def rowsOf (parent : Position) :
    List RelationEntry → List Row
| [] => []
| tree :: trees => tree.rows parent ++ rowsOf parent trees

end

end RelationEntry

namespace Parser

------------------------------------------------------------
-- Offside Rule
------------------------------------------------------------

/- A line that others may be below, and where it starts. -/
structure Margin where
  indent : Nat
  start : Position
deriving DecidableEq, Repr

/-
  A relation line: its indentation, its marker, and what comes
  after it with the lines that go on with it.
-/
structure Branch where
  indent : Nat
  marker : Marker
  body : Extent

namespace Branch

/- Other lines may be below a relation line. -/
def margin (b : Branch) : Margin :=
  ⟨b.indent, b.body.span.start⟩

/- The element that a relation line leads to. -/
def target? [YamlReader] (b : Branch) : Option Entry :=
  match entry .recover b.body.tokens b.body.span [] with
  | .ok (target, _) => target
  | .error _ => none

end Branch

/-
  The relation lines among the lines that come next and are
  indented more than `parent`.
-/
def branches (parent : Nat) : List Line → List Branch
| [] => []
| .gap _ :: _ => []
| .filled line :: rest =>
    if line.indent ≤ parent then
      []
    else
      match line.tokens with
      | ⟨.relation marker, _⟩ :: tokens =>
          ⟨line.indent, marker,
              extent (some line.indent) tokens line.span rest⟩
            :: branches parent rest
      | _ => branches parent rest

/-
  Where the nearest of some lines starts that is indented less;
  the last line comes first.
-/
def nearest? (earlier : List Margin) (indent : Nat) :
    Option Position :=
  (earlier.find? (fun m => decide (m.indent < indent))).map
    Margin.start

/-
  Relation lines as they stand in the text, each one below the
  nearest line before it that is indented less.
-/
def offside [YamlReader] : List Margin → List Branch → List Row
| _, [] => []
| earlier, b :: bs =>
    ⟨nearest? earlier b.indent, b.marker, b.target?⟩
      :: offside (b.margin :: earlier) bs

variable {earlier mids base : List Margin}
variable {bs cs : List Branch}
variable {parent indent : Nat}
variable {p : Position}

/- Lines that are not indented less are passed over. -/
theorem nearest?_base
    (hMids : ∀ m ∈ mids, indent ≤ m.indent)
    (hDeep : parent < indent) :
    nearest? (mids ++ ⟨parent, p⟩ :: base) indent = some p := by
  have hNone :
      mids.find? (fun m => decide (m.indent < indent)) =
        none := by
    rw [List.find?_eq_none]
    intro m hm
    simpa using hMids m hm
  simp [nearest?, List.find?_append, hNone, hDeep]

/- Relation lines are placed one part after the other. -/
theorem offside_append [YamlReader] :
    offside earlier (bs ++ cs) =
      offside earlier bs
        ++ offside ((bs.map Branch.margin).reverse ++ earlier)
          cs := by
  induction bs generalizing earlier with
  | nil => rfl
  | cons b bs ih =>
      simp [offside, ih, List.append_assoc]

------------------------------------------------------------
-- Lines of a Region
------------------------------------------------------------

variable {lines rest : List Line}

/- A line that is indented more is deeper. -/
theorem isDeeper_filled
    {line : FilledLine}
    (hDeep : parent < line.indent) :
    isDeeper parent (.filled line) = true :=
  decide_eq_true hDeep

/- Deeper lines are less deep, too. -/
theorem isDeeper_mono
    (hLe : parent ≤ indent)
    {line : Line}
    (hDeep : isDeeper indent line = true) :
    isDeeper parent line = true := by
  cases line with
  | gap _ => cases hDeep
  | filled line =>
      simp only [isDeeper, decide_eq_true_eq] at *
      omega

/- A line that goes on with a line is deeper than that line. -/
theorem isDeeper_of_continues
    (hLe : parent ≤ indent)
    {line : Line}
    (hContinues : continues (some indent) line = true) :
    isDeeper parent line = true := by
  cases line with
  | gap _ => cases hContinues
  | filled line =>
      simp only [continues, isDeeper, Bool.and_eq_true,
        decide_eq_true_eq] at *
      omega

/- What is dropped before does not matter if it is dropped. -/
theorem dropWhile_dropWhile
    {f g : Line → Bool}
    (hImp : ∀ line, g line = true → f line = true) :
    (lines.dropWhile g).dropWhile f = lines.dropWhile f := by
  induction lines with
  | nil => rfl
  | cons line lines ih =>
      cases hHere : g line with
      | false => rw [List.dropWhile_cons_of_neg (by simp [hHere])]
      | true =>
          rw [List.dropWhile_cons_of_pos hHere, ih,
            List.dropWhile_cons_of_pos (hImp line hHere)]

/- The lines that a relation line is followed by are taken. -/
theorem takeWhile_dropWhile_subset
    {f g : Line → Bool}
    (hImp : ∀ line, g line = true → f line = true) :
    (lines.dropWhile g).takeWhile f ⊆ lines.takeWhile f := by
  induction lines with
  | nil => exact List.Subset.refl _
  | cons line lines ih =>
      cases hHere : g line with
      | false =>
          rw [List.dropWhile_cons_of_neg (by simp [hHere])]
          exact List.Subset.refl _
      | true =>
          rw [List.dropWhile_cons_of_pos hHere,
            List.takeWhile_cons_of_pos (hImp line hHere)]
          exact List.subset_cons_of_subset _ ih

/- Lines that are deeper are among those that are less deep. -/
theorem takeWhile_subset
    {f g : Line → Bool}
    (hImp : ∀ line, g line = true → f line = true) :
    lines.takeWhile g ⊆ lines.takeWhile f := by
  induction lines with
  | nil => exact List.Subset.refl _
  | cons line lines ih =>
      cases hHere : g line with
      | false =>
          rw [List.takeWhile_cons_of_neg (by simp [hHere])]
          exact List.nil_subset _
      | true =>
          rw [List.takeWhile_cons_of_pos hHere,
            List.takeWhile_cons_of_pos (hImp line hHere)]
          exact List.cons_subset_cons _ ih

/- Lines that go on with a line are no relation lines. -/
theorem branches_continued
    (hLe : parent ≤ indent) :
    branches parent
        (lines.dropWhile (continues (some indent))) =
      branches parent lines := by
  induction lines with
  | nil => rfl
  | cons line lines ih =>
      cases hHere : continues (some indent) line with
      | false => rw [List.dropWhile_cons_of_neg (by simp [hHere])]
      | true =>
          rw [List.dropWhile_cons_of_pos hHere, ih]
          have hDeep := isDeeper_of_continues hLe hHere
          cases line with
          | gap _ => cases hHere
          | filled line =>
              have hDeep : ¬ line.indent ≤ parent := by
                simpa [isDeeper] using hDeep
              simp only [branches, hDeep, if_false]
              split
              · next hTokens =>
                  simp [continues, FilledLine.headKind?,
                    hTokens, TokenKind.opensLine] at hHere
              · rfl

/- The relation lines of a deeper part come first. -/
theorem branches_split
    (hLe : parent ≤ indent) :
    branches parent lines =
      branches indent lines
        ++ branches parent
          (lines.dropWhile (isDeeper indent)) := by
  induction lines with
  | nil => rfl
  | cons line lines ih =>
      cases line with
      | gap _ => rfl
      | filled line =>
          by_cases hShallow : line.indent ≤ indent
          · rw [List.dropWhile_cons_of_neg
              (by simpa [isDeeper] using hShallow)]
            simp [branches, hShallow]
          · have hDeep : ¬ line.indent ≤ parent := by omega
            rw [List.dropWhile_cons_of_pos
              (by simpa [isDeeper] using hShallow)]
            simp only [branches, hShallow, hDeep, if_false]
            split
            · rw [ih, List.cons_append]
            · exact ih

/- All of them are deeper. -/
theorem branches_deeper :
    ∀ b ∈ branches parent lines, parent < b.indent := by
  induction lines with
  | nil => exact fun _ hNone => by cases hNone
  | cons line lines ih =>
      cases line with
      | gap _ => exact fun _ hNone => by cases hNone
      | filled line =>
          by_cases hShallow : line.indent ≤ parent
          · simp [branches, hShallow]
          · simp only [branches, hShallow, if_false]
            split
            · exact
                List.forall_mem_cons.mpr
                  ⟨Nat.lt_of_not_le hShallow, ih⟩
            · exact ih

------------------------------------------------------------
-- Relations That Are Read
------------------------------------------------------------

variable {trees : List RelationEntry}
variable {found : List SyntaxFault}

/- Relations are read up to the first line that is not deeper. -/
theorem ReadsRelations.rest_eq
    [YamlReader]
    (hReads : ReadsRelations parent lines trees rest found) :
    rest = lines.dropWhile (isDeeper parent) := by
  -- the lines that are passed over are all deeper
  have hHead : ∀ {parent : Nat} {line : FilledLine}
      {rest : List Line},
      parent < line.indent →
        (Line.filled line :: rest).dropWhile (isDeeper parent) =
          rest.dropWhile (isDeeper parent) :=
    fun hDeep =>
      List.dropWhile_cons_of_pos (isDeeper_filled hDeep)
  have hSkip : ∀ {parent indent : Nat} {lines : List Line},
      parent < indent →
        (skipDeeper indent lines).dropWhile (isDeeper parent) =
          lines.dropWhile (isDeeper parent) :=
    fun hDeep =>
      dropWhile_dropWhile
        (fun _ => isDeeper_mono (Nat.le_of_lt hDeep))
  have hExtent : ∀ {parent indent : Nat} {tokens : List Token}
      {span : Span} {lines : List Line},
      parent < indent →
        (extent (some indent) tokens span lines).rest.dropWhile
            (isDeeper parent) =
          lines.dropWhile (isDeeper parent) :=
    fun hDeep =>
      dropWhile_dropWhile
        (fun _ => isDeeper_of_continues (Nat.le_of_lt hDeep))
  induction hReads with
  | @stop parent lines hStops =>
      cases lines with
      | nil => rfl
      | cons line lines =>
          rw [List.dropWhile_cons_of_neg]
          simpa using hStops line rfl
  | branch hDeep _ hBody _ _ _ ihChildren ihSiblings =>
      subst hBody
      rw [hHead hDeep, ihSiblings, ihChildren]
      exact (hSkip hDeep).trans (hExtent hDeep)
  | lacking hDeep _ hBody _ _ ih =>
      subst hBody
      rw [hHead hDeep, ih, hSkip hDeep, hExtent hDeep]
  | unexpected hDeep _ _ ih =>
      rw [hHead hDeep, ih, hSkip hDeep]

/-
  Among the lines that come next, none that is indented more
  than `parent` is reported.
-/
def Clean
    (parent : Nat)
    (lines : List Line)
    (found : List SyntaxFault) : Prop :=
  ∀ fault ∈ found, ∀ line,
    .filled line ∈ lines.takeWhile (isDeeper parent) →
      fault.position ≠ line.contentStart

/- None of some of these lines is reported. -/
theorem Clean.mono
    {fewer : List Line}
    {part : List SyntaxFault}
    (hClean : Clean parent lines found)
    (hLines :
      fewer.takeWhile (isDeeper indent) ⊆
        lines.takeWhile (isDeeper parent))
    (hFaults : part ⊆ found) :
    Clean indent fewer part :=
  fun fault hFault line hLine =>
    hClean fault (hFaults hFault) line (hLines hLine)

/- So the first of them is not reported if it is deeper. -/
theorem Clean.head
    {line : FilledLine}
    {cause : SyntaxFault.Cause}
    {own after : List SyntaxFault}
    (hClean :
      Clean parent (.filled line :: rest)
        (own ++ ⟨cause, line.contentStart⟩ :: after)) :
    line.indent ≤ parent := by
  by_contra hDeep
  refine
    hClean ⟨cause, line.contentStart⟩ (by simp) line ?_ rfl
  rw [List.takeWhile_cons_of_pos
    (isDeeper_filled (Nat.lt_of_not_le hDeep))]
  exact List.mem_cons_self

variable {line : FilledLine} {tokens : List Token}
variable {body : Extent} {part : List SyntaxFault}

/- Neither are those below it and its continuation. -/
theorem Clean.below
    (hClean : Clean parent (.filled line :: rest) found)
    (hDeep : parent < line.indent)
    (hBody :
      extent (some line.indent) tokens line.span rest = body)
    (hFaults : part ⊆ found) :
    Clean line.indent body.rest part := by
  have hLe := Nat.le_of_lt hDeep
  subst hBody
  refine hClean.mono ?_ hFaults
  rw [List.takeWhile_cons_of_pos (isDeeper_filled hDeep)]
  refine List.subset_cons_of_subset _ ?_
  exact
    List.Subset.trans
      (takeWhile_subset (fun _ => isDeeper_mono hLe))
      (takeWhile_dropWhile_subset
        (fun _ => isDeeper_of_continues hLe))

/- Nor are those after them. -/
theorem Clean.beyond
    (hClean : Clean parent (.filled line :: rest) found)
    (hDeep : parent < line.indent)
    (hBody :
      extent (some line.indent) tokens line.span rest = body)
    (hFaults : part ⊆ found) :
    Clean parent (body.rest.dropWhile (isDeeper line.indent))
      part := by
  have hLe := Nat.le_of_lt hDeep
  subst hBody
  refine hClean.mono ?_ hFaults
  rw [List.takeWhile_cons_of_pos (isDeeper_filled hDeep)]
  refine List.subset_cons_of_subset _ ?_
  exact
    List.Subset.trans
      (takeWhile_dropWhile_subset
        (fun _ => isDeeper_mono hLe))
      (takeWhile_dropWhile_subset
        (fun _ => isDeeper_of_continues hLe))

/- A line after those that are deeper is not deeper. -/
theorem indent_le_of_head?
    {next : FilledLine}
    (hNext :
      (lines.dropWhile (isDeeper indent)).head? =
        some (.filled next)) :
    next.indent ≤ indent := by
  have hShallow :=
    List.head?_dropWhile_not (isDeeper indent) lines
  rw [hNext] at hShallow
  simpa [isDeeper] using hShallow

/-
  Relations that are read without a line that is at fault obey
  the offside rule.  The lines in `mids` come after the parent,
  and they are not above any of those that are read.
-/
theorem ReadsRelations.offside
    [YamlReader]
    (hReads : ReadsRelations parent lines trees rest found)
    (hClean : Clean parent lines found)
    (hMids : ∀ m ∈ mids, ∀ line,
      lines.head? = some (.filled line) →
        line.indent ≤ m.indent) :
    RelationEntry.rowsOf p trees =
      Parser.offside (mids ++ ⟨parent, p⟩ :: base)
        (branches parent lines) := by
  induction hReads generalizing p mids base with
  | @stop parent lines hStops =>
      have hNone : branches parent lines = [] := by
        rcases lines with _ | ⟨position | line, rest⟩
        · rfl
        · rfl
        · have hShallow := hStops _ rfl
          simp only [isDeeper, decide_eq_false_iff_not,
            Nat.not_lt] at hShallow
          simp [branches, hShallow]
      rw [hNone]
      rfl
  | @branch parent line rest middle last marker q tokens body
      target children siblings own below after hDeep hTokens
      hBody hTarget hChildren hSiblings ihChildren
      ihSiblings =>
      have hMiddle := hChildren.rest_eq
      have hHere : ∀ m ∈ mids, line.indent ≤ m.indent :=
        fun m hm => hMids m hm line rfl
      -- the branches of the region: the line, those below it
      -- and those after it
      have hBranches :
          branches parent (.filled line :: rest) =
            ⟨line.indent, marker, body⟩
              :: (branches line.indent body.rest
                ++ branches parent middle) := by
        rw [hMiddle, ← branches_split (Nat.le_of_lt hDeep)]
        simp only [branches, Nat.not_le_of_lt hDeep, if_false,
          hTokens, hBody]
        rw [← hBody, extent,
          branches_continued (Nat.le_of_lt hDeep)]
      have hTargets :
          Branch.target? ⟨line.indent, marker, body⟩ =
            some target := by
        rw [Branch.target?, hTarget []]
      have hBelow :
          RelationEntry.rowsOf body.span.start children =
            Parser.offside
              ([] ++ ⟨line.indent, body.span.start⟩
                :: (mids ++ ⟨parent, p⟩ :: base))
              (branches line.indent body.rest) :=
        ihChildren (hClean.below hDeep hBody (by simp))
          (fun _ hNone => by cases hNone)
      have hAfter :
          RelationEntry.rowsOf p siblings =
            Parser.offside
              ((((branches line.indent body.rest).map
                Branch.margin).reverse
                ++ ⟨line.indent, body.span.start⟩ :: mids)
                ++ ⟨parent, p⟩ :: base)
              (branches parent middle) := by
        refine
          ihSiblings
            (hMiddle ▸ hClean.beyond hDeep hBody (by simp)) ?_
        -- the line and those below it are not above the next one
        intro m hm next hNext
        have hNext : next.indent ≤ line.indent :=
          indent_le_of_head? (hMiddle ▸ hNext)
        refine Nat.le_trans hNext ?_
        rcases List.mem_append.mp hm with hm | hm
        · rcases List.mem_map.mp (List.mem_reverse.mp hm) with
            ⟨b, hb, rfl⟩
          exact Nat.le_of_lt (branches_deeper b hb)
        · rcases List.mem_cons.mp hm with rfl | hm
          · exact Nat.le_refl _
          · exact hHere m hm
      rw [hBranches, Parser.offside, offside_append,
        nearest?_base hHere hDeep, hTargets,
        RelationEntry.rowsOf, RelationEntry.rows,
        entry_covers hTarget, hBelow, hAfter]
      simp [Branch.margin, List.append_assoc]
  | lacking hDeep _ _ _ _ _ =>
      exact absurd hClean.head (Nat.not_le_of_lt hDeep)
  | @unexpected parent line rest _ _ after hDeep _ _ _ =>
      have hFirst :
          Clean parent (.filled line :: rest)
            ([] ++ ⟨_, line.contentStart⟩ :: after) :=
        hClean
      exact absurd hFirst.head (Nat.not_le_of_lt hDeep)

end Parser

------------------------------------------------------------
-- Lines with Relations
------------------------------------------------------------

/-
  An element line or a numbered statement: the part of the text
  that it covers and the relations below it.
-/
structure Owner where
  span : Span
  relations : List RelationEntry

/- The relation lines below an owner, in order. -/
def Owner.rows (owner : Owner) : List Row :=
  RelationEntry.rowsOf owner.span.start owner.relations

/- A numbered statement has relations below it. -/
def NumberedEntry.owner (step : NumberedEntry) : Owner :=
  ⟨step.statement.span, step.relations⟩

/-
  The element line of a block and its numbered statements.  An
  argument without title stands on no line of its own.
-/
def Block.owners : Block → List Owner
| .heading _ => []
| .element block =>
    let untitled :=
      block.element.isArgument && block.element.title.isNone
    (if untitled then []
      else [⟨block.element.span, block.relations⟩])
      ++ block.steps.map NumberedEntry.owner

/- The element lines and numbered statements of a document. -/
def Document.owners (d : Document) : List Owner :=
  d.blocks.flatMap Block.owners

namespace Parser

/- The element lines and numbered statements of a piece. -/
def Piece.owners : Piece → List Owner
| .block found => found.owners
| .reconstruction r =>
    r.statements.map NumberedEntry.owner

/-
  An owner stands on a line and those that go on with it, and
  the relations below it are read from the lines after them.
-/
def Stands
    [YamlReader]
    (lines : List Line)
    (found : List SyntaxFault)
    (owner : Owner) : Prop :=
  ∃ before line rest last below,
    lines = before ++ .filled line :: rest ∧
      owner.span = (extent none line.tokens line.span rest).span ∧
        ReadsRelations line.indent
            (extent none line.tokens line.span rest).rest
            owner.relations last below ∧
          below ⊆ found

variable {lines rest : List Line}
variable {found more : List SyntaxFault}
variable {owner : Owner}

/- An owner stands on lines that are the last of some lines. -/
theorem Stands.of_suffix
    [YamlReader]
    (hStands : Stands rest found owner)
    (hRest : rest <:+ lines)
    (hMore : found ⊆ more) :
    Stands lines more owner := by
  rcases hStands with
    ⟨before, line, after, last, below, rfl, hSpan, hReads,
      hBelow⟩
  rcases hRest with ⟨used, rfl⟩
  exact
    ⟨used ++ before, line, after, last, below,
      (List.append_assoc _ _ _).symm, hSpan, hReads,
      List.Subset.trans hBelow hMore⟩

/- The numbered statements of a structure stand on its lines. -/
theorem ReadsItems.stands
    [YamlReader]
    {items? : Option (List ReconstructionItem)}
    (hReads : ReadsItems lines items? rest found) :
    ∀ items, items? = some items →
      ∀ step, .statement step ∈ items →
        Stands lines found step.owner := by
  induction hReads with
  | stop =>
      rintro items ⟨⟩ step hNone
      cases hNone
  | gap _ _ ih =>
      intro items hItems step hStep
      exact
        (ih items hItems step hStep).of_suffix
          (List.suffix_cons _ _) (List.Subset.refl _)
  | @statement line rest middle last number p tokens body
      statement related items own below after hIndent hTokens
      hBody hStatement hRelated hAfter ih =>
      intro all hAll step hStep
      subst hBody
      rcases Option.map_eq_some_iff.mp hAll with
        ⟨others, hOthers, rfl⟩
      rcases List.mem_cons.mp hStep with hSame | hLater
      · cases hSame
        refine
          ⟨[], line, rest, middle, below, rfl,
            entry_covers hStatement, ?_, by simp⟩
        rw [hIndent]
        exact hRelated
      · exact
          (ih others hOthers step hLater).of_suffix
            ((hRelated.suffix.trans
              (extent_suffix _ _ _ _)).trans
                (List.suffix_cons _ _))
            (by simp)
  | refused =>
      intro items hNone
      cases hNone
  | inference _ _ _ ih =>
      intro all hAll step hStep
      rcases Option.map_eq_some_iff.mp hAll with
        ⟨others, hOthers, rfl⟩
      rcases List.mem_cons.mp hStep with hSame | hLater
      · cases hSame
      · exact
          (ih others hOthers step hLater).of_suffix
            (List.suffix_cons _ _) (List.Subset.refl _)

/- The owners of a piece stand on its lines. -/
theorem ReadsPiece.stands
    [YamlReader]
    {line : FilledLine}
    {piece? : Option Piece}
    (hReads : ReadsPiece line lines piece? rest found) :
    ∀ piece ∈ piece?, ∀ owner ∈ piece.owners,
      Stands (.filled line :: lines) found owner := by
  cases hReads with
  | heading =>
      rintro piece ⟨⟩ owner hNone
      cases hNone
  | ordered _ _ hItems _ =>
      rintro piece ⟨⟩ owner hOwner
      rcases List.mem_map.mp hOwner with ⟨step, hStep, rfl⟩
      exact
        hItems.stands _ rfl step (mem_statements.mp hStep)
  | @element body element related _ own below hOpens hBody
      hElement hRelated =>
      subst hBody
      rintro piece ⟨⟩ owner hOwner
      have hOnly : owner = ⟨element.span, related⟩ := by
        simp only [Piece.owners, Block.owners,
          ElementBlock.steps, List.map_nil] at hOwner
        split at hOwner
        · cases hOwner
        · exact List.mem_singleton.mp hOwner
      subst hOnly
      exact
        ⟨[], line, lines, rest, below, rfl,
          entry_covers hElement, hRelated, by simp⟩
  | untitled => exact fun _ hNone => by cases hNone
  | disordered => exact fun _ hNone => by cases hNone
  | broken => exact fun _ hNone => by cases hNone
  | stray => exact fun _ hNone => by cases hNone
  | missing => exact fun _ hNone => by cases hNone

/- The owners of all pieces stand on their lines. -/
theorem ReadsPieces.stand
    [YamlReader]
    {pieces : List Piece}
    (hReads : ReadsPieces lines pieces found) :
    ∀ owner ∈ pieces.flatMap Piece.owners,
      Stands lines found owner := by
  induction hReads with
  | nil => exact fun _ hNone => by cases hNone
  | gap _ ih =>
      intro owner hOwner
      exact
        (ih owner hOwner).of_suffix (List.suffix_cons _ _)
          (List.Subset.refl _)
  | filled hPiece _ ih =>
      intro owner hOwner
      rw [List.flatMap_append] at hOwner
      rcases List.mem_append.mp hOwner with hHere | hLater
      · rcases List.mem_flatMap.mp hHere with
          ⟨piece, hMem, hOwn⟩
        exact
          (hPiece.stands piece (Option.mem_toList.mp hMem) owner
            hOwn).of_suffix (List.suffix_refl _) (by simp)
      · exact
          (ih owner hLater).of_suffix
            (hPiece.suffix.trans (List.suffix_cons _ _))
            (by simp)

/- A structure brings its numbered statements to a block. -/
theorem attach_owners
    (r : Reconstruction)
    (blocks : List Block) :
    ∀ owner ∈ (attach r blocks).flatMap Block.owners,
      owner ∈ blocks.flatMap Block.owners ∨
        owner ∈ r.statements.map NumberedEntry.owner := by
  intro owner hOwner
  unfold attach at hOwner
  split at hOwner
  · simp only [List.flatMap_cons, Block.owners,
      ElementBlock.steps, List.map_nil, List.append_nil,
      List.mem_append] at *
    rcases hOwner with (hOwn | hStep) | hEarlier
    · exact .inl (.inl hOwn)
    · exact .inr hStep
    · exact .inl (.inr hEarlier)
  · rw [List.flatMap_cons] at hOwner
    exact (List.mem_append.mp hOwner).symm

/- A block has no owners but those of its pieces. -/
theorem assemble_owners (pieces : List Piece) :
    (assemble pieces).flatMap Block.owners ⊆
      pieces.flatMap Piece.owners := by
  have hFold : ∀ (pieces : List Piece) (blocks : List Block),
      ∀ owner ∈ (pieces.foldl grow blocks).flatMap Block.owners,
        owner ∈ blocks.flatMap Block.owners ∨
          owner ∈ pieces.flatMap Piece.owners := by
    intro pieces
    induction pieces with
    | nil => exact fun _ _ hOwner => .inl hOwner
    | cons piece pieces ih =>
        intro blocks owner hOwner
        rw [List.flatMap_cons, List.mem_append]
        rcases ih _ owner hOwner with hHere | hLater
        · cases piece with
          | block found =>
              rw [grow, List.flatMap_cons] at hHere
              rcases List.mem_append.mp hHere with hOwn | hOld
              · exact .inr (.inl hOwn)
              · exact .inl hOld
          | reconstruction r =>
              rcases attach_owners r blocks owner hHere with
                hOld | hOwn
              · exact .inl hOld
              · exact .inr (.inl hOwn)
        · exact .inr (.inr hLater)
  intro owner hOwner
  rw [assemble_eq] at hOwner
  rcases List.mem_flatMap.mp hOwner with
    ⟨block, hBlock, hOwn⟩
  rcases hFold pieces [] owner
      (List.mem_flatMap.mpr
        ⟨block, List.mem_reverse.mp hBlock, hOwn⟩) with
    hNone | hSome
  · cases hNone
  · exact hSome

end Parser

namespace Document

/-
  Each owner of a document stands on one of its lines.  If no
  line of the region below it is reported, the relations in it
  obey the offside rule.
-/
theorem read_offside
    [YamlReader]
    (input : String)
    {owner : Owner}
    (hOwner : owner ∈ (read input).document.owners) :
    ∃ before line rest,
      (Lexer.lex input).lines = before ++ .filled line :: rest ∧
        let body := Parser.extent none line.tokens line.span rest
        owner.span = body.span ∧
          (Parser.Clean line.indent body.rest
              (read input).faults →
            owner.rows =
              Parser.offside [⟨line.indent, owner.span.start⟩]
                (Parser.branches line.indent body.rest)) := by
  rcases read_pieces input with
    ⟨front, early, pieces, found, _, hReads, hRead⟩
  rw [hRead] at hOwner ⊢
  rcases hReads.stand owner
      (Parser.assemble_owners pieces hOwner) with
    ⟨before, line, rest, last, below, hLines, hSpan, hRelated,
      hBelow⟩
  refine
    ⟨before, line, rest, hLines, hSpan, fun hClean => ?_⟩
  have hMids : ∀ m ∈ ([] : List Parser.Margin), ∀ next,
      (Parser.extent none line.tokens line.span
          rest).rest.head? = some (.filled next) →
        next.indent ≤ m.indent :=
    fun _ hNone => by cases hNone
  refine hRelated.offside ?_ hMids
  refine hClean.mono (List.Subset.refl _) ?_
  intro fault hFault
  simp [hBelow hFault]

section

open scoped Yaml

/- Lines that are indented less each time, below one another. -/
theorem read_offside_dedented :
    let input :=
      "<A>: a\n  b\n  + [B]\n      - [C]: c\n       d\n" ++
        "    + <D>\n  - [E]"
    (read input).faults = [] ∧
      ∃ owner ∈ (read input).document.owners,
        owner.rows.map (fun row => row.parent.map Position.line) =
          [some 1, some 3, some 3, some 1] ∧
        ∃ before line rest,
          (Lexer.lex input).lines =
              before ++ .filled line :: rest ∧
            owner.rows =
              Parser.offside [⟨line.indent, owner.span.start⟩]
                (Parser.branches line.indent
                  (Parser.extent none line.tokens line.span
                    rest).rest) := by
  intro input
  have hFaults : (read input).faults = [] := by decide +kernel
  have hFirst :
      (read input).document.owners.head?.map
          (fun owner => owner.rows.map
            (fun row => row.parent.map Position.line)) =
        some [some 1, some 3, some 3, some 1] := by
    decide +kernel
  rcases Option.map_eq_some_iff.mp hFirst with
    ⟨owner, hHead, hParents⟩
  have hOwner := List.mem_of_mem_head? hHead
  refine ⟨hFaults, owner, hOwner, hParents, ?_⟩
  rcases read_offside input hOwner with
    ⟨before, line, rest, hLines, _, hRows⟩
  refine ⟨before, line, rest, hLines, hRows ?_⟩
  rw [hFaults]
  exact fun _ hNone => by cases hNone

end

end Document

end Dialectic
