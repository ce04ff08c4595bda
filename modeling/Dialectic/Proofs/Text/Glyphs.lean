import Dialectic.Proofs.Text.Squeezing

/-
  Texts in which some places stand for tags.  How a tag is
  written is left open: it has a mark, and texts with the same
  tags can be written with one mark or another.

  Key definitions include:
    * `Text.Glyph`
    * `Text.written`
    * `Text.squeezed`

  Main theorems:
    * `Text.words_squeezed`
    * `Text.squeeze_written`
    * `Text.infix_squeeze`
-/

namespace Dialectic.Text

------------------------------------------------------------
-- Glyphs
------------------------------------------------------------

/- A character, or a tag. -/
inductive Glyph where
| char (c : Char)
| tag (name : String)
deriving DecidableEq, Repr

namespace Glyph

/- A blank character. -/
def isBlank : Glyph → Bool
| char c => Text.isBlank c
| tag _ => false

/- How a glyph is written if each tag has a mark. -/
def written (mark : String → List Char) : Glyph → List Char
| char c => [c]
| tag name => mark name

end Glyph

/- How some glyphs are written. -/
def written
    (mark : String → List Char)
    (gs : List Glyph) : List Char :=
  gs.flatMap (Glyph.written mark)

variable {mark : String → List Char}

@[simp] theorem written_nil : written mark [] = [] :=
  rfl

@[simp] theorem written_cons (g : Glyph) (gs : List Glyph) :
    written mark (g :: gs) = g.written mark ++ written mark gs :=
  rfl

@[simp] theorem written_append (gs hs : List Glyph) :
    written mark (gs ++ hs) =
      written mark gs ++ written mark hs :=
  List.flatMap_append

@[simp] theorem written_char (c : Char) :
    Glyph.written mark (.char c) = [c] :=
  rfl

@[simp] theorem written_tag (name : String) :
    Glyph.written mark (.tag name) = mark name :=
  rfl

/- Characters are written as they are. -/
@[simp] theorem written_chars (cs : List Char) :
    written mark (cs.map .char) = cs := by
  induction cs with
  | nil => rfl
  | cons c cs ih => simp [ih]

------------------------------------------------------------
-- Squeezing
------------------------------------------------------------

/- The space that a run of blanks is written as, if one is due. -/
def space : (due : Bool) → List Glyph
| true => [.char ' ']
| false => []

/-
  Write one space for every run of blanks and none at the end.
  A space may be due before the next glyph.
-/
def squeezedAfter : (due : Bool) → List Glyph → List Glyph
| _, [] => []
| due, g :: gs =>
    if g.isBlank then squeezedAfter true gs
    else space due ++ g :: squeezedAfter false gs

/- Squeeze the blanks among some glyphs. -/
def squeezed (gs : List Glyph) : List Glyph :=
  squeezedAfter false (gs.dropWhile Glyph.isBlank)

/- A glyph that is blank is a character. -/
theorem Glyph.exists_char
    {g : Glyph}
    (hBlank : g.isBlank = true) :
    ∃ c, g = char c ∧ Text.isBlank c = true := by
  cases g with
  | char c => exact ⟨c, rfl, hBlank⟩
  | tag name => cases hBlank

/- The words stay when blanks are squeezed. -/
theorem words_squeezedAfter
    (due : Bool)
    (before : List Char)
    (gs : List Glyph) :
    words (before ++ written mark (squeezedAfter due gs)) =
      words (before ++ written mark (space due ++ gs)) := by
  have hSpace : isBlank ' ' = true := rfl
  induction gs generalizing due before with
  | nil =>
      cases due with
      | false => rfl
      | true =>
          have hEnd := words_append_blank hSpace before []
          simpa [squeezedAfter, space, words, wordsAfter]
            using hEnd.symm
  | cons g gs ih =>
      rw [squeezedAfter]
      split
      · next hBlank =>
          rcases Glyph.exists_char hBlank with ⟨c, rfl, hChar⟩
          rw [ih]
          cases due <;>
            simp [space, words_append_blank hSpace,
              words_append_blank hChar, words_cons_blank hChar]
      · have hRest :=
          ih false
            (before ++ written mark (space due)
              ++ g.written mark)
        simpa [space] using hRest

/- So do those of squeezed glyphs, whatever the marks are. -/
theorem words_squeezed (gs : List Glyph) :
    words (written mark (squeezed gs)) =
      words (written mark gs) := by
  have hLead :
      words (written mark (gs.dropWhile Glyph.isBlank)) =
        words (written mark gs) := by
    induction gs with
    | nil => rfl
    | cons g gs ih =>
        rw [List.dropWhile_cons]
        split
        · next hBlank =>
            rcases Glyph.exists_char hBlank with
              ⟨c, rfl, hChar⟩
            rw [ih]
            exact (words_cons_blank hChar _).symm
        · rfl
  exact
    (words_squeezedAfter false []
      (gs.dropWhile Glyph.isBlank)).trans hLead

/- Squeezing leaves the tags. -/
theorem tag_mem_squeezed {name : String} {gs : List Glyph} :
    .tag name ∈ squeezed gs ↔ .tag name ∈ gs := by
  have hAfter : ∀ due (gs : List Glyph),
      .tag name ∈ squeezedAfter due gs ↔ .tag name ∈ gs := by
    intro due gs
    induction gs generalizing due with
    | nil => rfl
    | cons g gs ih =>
        rw [squeezedAfter]
        split
        · next hBlank =>
            rcases Glyph.exists_char hBlank with ⟨c, rfl, _⟩
            simp [ih]
        · cases due <;> simp [space, ih]
  rw [squeezed, hAfter]
  induction gs with
  | nil => rfl
  | cons g gs ih =>
      rw [List.dropWhile_cons]
      split
      · next hBlank =>
          rcases Glyph.exists_char hBlank with ⟨c, rfl, _⟩
          simpa using ih
      · rfl

/- A glyph that is no blank is written without outer blanks. -/
theorem Glyph.written_isNormalised
    {g : Glyph}
    (hSolid : g.isBlank = false)
    (hMark : ∀ name, g = tag name → IsNormalised (mark name)) :
    IsNormalised (g.written mark) := by
  cases g with
  | char c =>
      have hWord : IsWord [c] :=
        ⟨List.cons_ne_nil c [], by
          simpa [Glyph.isBlank] using hSolid⟩
      exact hWord.isNormalised
  | tag name => exact hMark name rfl

/- Squeezed glyphs go on with a text that is normalised. -/
theorem squeezedAfter_isNormalised
    {before : List Char}
    {gs : List Glyph}
    (hBefore : IsNormalised before)
    (hMarks : ∀ name, .tag name ∈ gs →
      IsNormalised (mark name))
    (due : Bool) :
    IsNormalised
      (before ++ written mark (squeezedAfter due gs)) := by
  induction gs generalizing due before with
  | nil => simpa [squeezedAfter] using hBefore
  | cons g gs ih =>
      have hLater : ∀ name, .tag name ∈ gs →
          IsNormalised (mark name) :=
        fun name hName =>
          hMarks name (List.mem_cons_of_mem g hName)
      rw [squeezedAfter]
      split
      · exact ih hBefore hLater true
      · next hSolid =>
          have hHere : IsNormalised (g.written mark) :=
            g.written_isNormalised (by simpa using hSolid)
              (fun name hTag =>
                hMarks name (hTag ▸ List.mem_cons_self))
          cases due with
          | false =>
              have hRest :=
                ih (hBefore.append hHere) hLater false
              simpa [space] using hRest
          | true =>
              have hRest := ih (hBefore.join hHere) hLater false
              simpa [space] using hRest

/-
  What is written is squeezed by squeezing the glyphs, if no
  mark would be squeezed.
-/
theorem squeeze_written
    {gs : List Glyph}
    (hMarks : ∀ name, .tag name ∈ gs →
      IsNormalised (mark name)) :
    squeeze (written mark gs) = written mark (squeezed gs) := by
  have hSame :
      squeeze (written mark (squeezed gs)) =
        squeeze (written mark gs) :=
    congrArg joinWords (words_squeezed gs)
  rw [← hSame, squeezed]
  cases hFirst : gs.dropWhile Glyph.isBlank with
  | nil => rfl
  | cons g rest =>
      have hSolid : g.isBlank = false := by
        simpa [hFirst] using
          List.head?_dropWhile_not Glyph.isBlank gs
      have hThere : ∀ h ∈ g :: rest, h ∈ gs := by
        rw [← hFirst]
        exact fun h hh =>
          (List.dropWhile_suffix _).subset hh
      have hHere : IsNormalised (g.written mark) :=
        g.written_isNormalised hSolid
          (fun name hTag =>
            hMarks name (hThere _ (hTag ▸ List.mem_cons_self)))
      have hAll :=
        squeezedAfter_isNormalised hHere
          (fun name hName =>
            hMarks name
              (hThere _ (List.mem_cons_of_mem g hName)))
          false
      rw [squeezedAfter, hSolid]
      exact hAll.squeeze_eq

/- What would not be squeezed is still there in a squeezed text. -/
theorem infix_squeeze
    {part cs : List Char}
    (hPart : IsNormalised part)
    (hThere : part <:+: cs) :
    part <:+: squeeze cs := by
  rcases hThere with ⟨before, after, rfl⟩
  -- the part is the mark of the only tag
  have hText :
      before ++ part ++ after =
        written (fun _ => part)
          (before.map .char ++ .tag "" :: after.map .char) := by
    simp
  rw [hText, squeeze_written (fun _ _ => hPart)]
  have hTag :
      Glyph.tag "" ∈
        squeezed (before.map .char ++ .tag "" :: after.map .char) :=
    tag_mem_squeezed.mpr (by simp)
  rcases List.append_of_mem hTag with ⟨left, right, hSplit⟩
  rw [hSplit]
  exact
    ⟨written (fun _ => part) left,
      written (fun _ => part) right, by simp⟩

end Dialectic.Text
