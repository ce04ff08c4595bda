import Dialectic.Proofs.Text.Finding
import Dialectic.Proofs.Text.Glyphs
import Mathlib.Data.List.Chain
import Mathlib.Data.List.Infix

/-
  Tags in a text.  A tag is written with a number sign and, if
  there is a blank in its name, with parentheses.  Where the
  tags can be told from the rest of the text, they are found in
  it where they are written, and nowhere else.

  Key definitions include:
    * `tagText`
    * `Glyph.IsApart`
    * `IsAlone`
    * `Legible`

  Main theorems:
    * `replace_written`
    * `hashed_mem_words`
-/

namespace Dialectic

open Text

------------------------------------------------------------
-- Tags
------------------------------------------------------------

/- A tag whose name has a blank in it. -/
def isLong (name : String) : Bool :=
  name.toList.any isBlank

/- A tag in parentheses. -/
def enclosed (name : String) : List Char :=
  '#' :: '(' :: (name.toList ++ [')'])

/- A tag without parentheses. -/
def hashed (name : String) : List Char :=
  '#' :: name.toList

/- How a tag is written. -/
def tagText (name : String) : List Char :=
  if isLong name then enclosed name else hashed name

/- How a tag is written that is left out. -/
def blankText (_ : String) : List Char :=
  [' ']

/- No number sign stands behind a blank. -/
def SignsInside (cs : List Char) : Prop :=
  cs.IsChain (fun a b => b = '#' → isBlank a = false)

/-
  The name of a tag is normalised, and none of it is taken for
  the start or the end of a tag.
-/
structure IsPlain (name : String) : Prop where
  normalised : IsNormalised name.toList
  number : SignsInside name.toList
  opening : '(' ∉ name.toList
  closing : ')' ∉ name.toList

/- A tag without a blank in its name. -/
def Text.Glyph.isShort : Glyph → Bool
| char _ => false
| tag name => !isLong name

/- The name of a tag. -/
def Text.Glyph.name? : Glyph → Option String
| char _ => none
| tag name => some name

/- Blanks stand between a tag without parentheses and others. -/
def Text.Glyph.IsApart (g h : Glyph) : Prop :=
  (g.isShort = true → h.isBlank = true) ∧
    (h.isShort = true → g.isBlank = true)

/-
  A text has none of the places that are taken for a tag: it
  does not have the tag in parentheses, nor as a word without
  them.
-/
structure IsAlone (name : String) (cs : List Char) : Prop where
  enclosed : ¬ enclosed name <:+: squeeze cs
  hashed : isLong name = false → hashed name ∉ words cs

/-
  The tags can be told from the rest of a text: they have plain
  names, those without parentheses stand apart, and the rest
  has nothing that is taken for one of them.
-/
structure Legible (gs : List Glyph) : Prop where
  plain : ∀ name, .tag name ∈ gs → IsPlain name
  apart : gs.IsChain Glyph.IsApart
  alone : ∀ name, .tag name ∈ gs →
    IsAlone name (written blankText gs)

variable {name other : String} {gs : List Glyph}

instance (cs : List Char) : Decidable (SignsInside cs) :=
  inferInstanceAs (Decidable (List.IsChain _ cs))

instance (name : String) : Decidable (IsPlain name) :=
  decidable_of_iff
    (IsNormalised name.toList ∧ SignsInside name.toList ∧
      '(' ∉ name.toList ∧ ')' ∉ name.toList)
    ⟨fun ⟨hNormalised, hNumber, hOpening, hClosing⟩ =>
        ⟨hNormalised, hNumber, hOpening, hClosing⟩,
      fun ⟨hNormalised, hNumber, hOpening, hClosing⟩ =>
        ⟨hNormalised, hNumber, hOpening, hClosing⟩⟩

instance : DecidableRel Glyph.IsApart :=
  fun g h =>
    inferInstanceAs
      (Decidable
        ((g.isShort = true → h.isBlank = true) ∧
          (h.isShort = true → g.isBlank = true)))

instance (name : String) (cs : List Char) :
    Decidable (IsAlone name cs) :=
  decidable_of_iff
    (¬ Dialectic.enclosed name <:+: squeeze cs ∧
      (isLong name = false → Dialectic.hashed name ∉ words cs))
    ⟨fun ⟨hEnclosed, hHashed⟩ => ⟨hEnclosed, hHashed⟩,
      fun ⟨hEnclosed, hHashed⟩ => ⟨hEnclosed, hHashed⟩⟩

instance (gs : List Glyph) : Decidable (Legible gs) :=
  decidable_of_iff
    ((∀ g ∈ gs, ∀ name ∈ g.name?, IsPlain name ∧
        IsAlone name (written blankText gs)) ∧
      gs.IsChain Glyph.IsApart)
    ⟨fun ⟨hTags, hApart⟩ =>
        ⟨fun name hTag => (hTags _ hTag name rfl).1, hApart,
          fun name hTag => (hTags _ hTag name rfl).2⟩,
      fun ⟨hPlain, hApart, hAlone⟩ => by
        refine ⟨fun g hg name hName => ?_, hApart⟩
        cases g with
        | char c => cases hName
        | tag other =>
            cases hName
            exact ⟨hPlain name hg, hAlone name hg⟩⟩

/- A name without blanks is a word. -/
theorem IsPlain.isWord
    (hPlain : IsPlain name)
    (hShort : isLong name = false) :
    IsWord name.toList :=
  ⟨hPlain.normalised.nonempty, by simpa [isLong] using hShort⟩

/- So is the tag. -/
theorem IsPlain.hashed_isWord
    (hPlain : IsPlain name)
    (hShort : isLong name = false) :
    IsWord (hashed name) :=
  ⟨List.cons_ne_nil _ _,
    List.forall_mem_cons.mpr
      ⟨rfl, (hPlain.isWord hShort).2⟩⟩

/- Parentheses around a name without outer blanks are fine. -/
theorem IsPlain.enclosed_isNormalised (hPlain : IsPlain name) :
    IsNormalised (enclosed name) := by
  have hOpening : IsWord ['#', '('] :=
    ⟨List.cons_ne_nil _ _,
      List.forall_mem_cons.mpr
        ⟨rfl, List.forall_mem_singleton.mpr rfl⟩⟩
  have hClosing : IsWord [')'] :=
    ⟨List.cons_ne_nil _ _, List.forall_mem_singleton.mpr rfl⟩
  exact
    hOpening.isNormalised.append
      (hPlain.normalised.append hClosing.isNormalised)

/- A tag is written without superfluous blanks. -/
theorem IsPlain.tagText_isNormalised (hPlain : IsPlain name) :
    IsNormalised (tagText name) := by
  unfold tagText
  split
  · exact hPlain.enclosed_isNormalised
  · next hShort =>
      exact
        (hPlain.hashed_isWord (by simpa using hShort)).isNormalised

/- What a tag is written with starts with a number sign. -/
theorem tagText_eq (name : String) :
    ∃ rest, tagText name = '#' :: rest := by
  unfold tagText
  split <;> exact ⟨_, rfl⟩

/- A tag has no number sign behind a blank. -/
theorem IsPlain.tagText_signs (hPlain : IsPlain name) :
    SignsInside (tagText name) := by
  have hSolid : ∀ {c : Char} {cs : List Char},
      isBlank c = false → SignsInside cs →
        SignsInside (c :: cs) :=
    fun hc hcs => List.isChain_cons.mpr ⟨fun _ _ _ => hc, hcs⟩
  have hClosed : SignsInside (name.toList ++ [')']) := by
    refine
      List.isChain_append.mpr
        ⟨hPlain.number, .singleton _, fun _ _ d hd hSign => ?_⟩
    subst hSign
    cases hd
  unfold tagText
  split
  · exact hSolid rfl (hSolid rfl hClosed)
  · exact hSolid rfl hPlain.number

/- Names end where their characters do. -/
theorem append_inj_of_stops
    {p : Char → Bool}
    {a b after rest : List Char}
    (hFirst : ∀ c ∈ a, p c = true)
    (hSecond : ∀ c ∈ b, p c = true)
    (hAfter : ∀ c ∈ after.head?, p c = false)
    (hRest : ∀ c ∈ rest.head?, p c = false)
    (hSame : a ++ after = b ++ rest) :
    a = b := by
  have hStops : ∀ cs : List Char,
      (∀ c ∈ cs.head?, p c = false) → cs.takeWhile p = [] := by
    intro cs hHead
    cases cs with
    | nil => rfl
    | cons c cs =>
        exact List.takeWhile_cons_of_neg (by simp [hHead c rfl])
  have hTaken := congrArg (List.takeWhile p) hSame
  rwa [List.takeWhile_append_of_pos hFirst,
    List.takeWhile_append_of_pos hSecond, hStops _ hAfter,
    hStops _ hRest, List.append_nil, List.append_nil] at hTaken

/- Breaks stand around a tag without parentheses. -/
theorem breaks_of_apart
    {before after : List Glyph}
    (hApart :
      (before ++ .tag name :: after).IsChain Glyph.IsApart)
    (hShort : isLong name = false)
    (mark : String → List Char) :
    atBreak (written mark before).reverse = true ∧
      atBreak (written mark after) = true := by
  have hTag : Glyph.isShort (.tag name) = true := by
    simp [Glyph.isShort, hShort]
  rcases List.isChain_append.mp hApart with
    ⟨_, hChain, hJoined⟩
  rcases List.isChain_cons.mp hChain with ⟨hNext, _⟩
  constructor
  · rcases List.eq_nil_or_concat before with
      rfl | ⟨start, g, rfl⟩
    · rfl
    · have hBlank : g.isBlank = true :=
        (hJoined g (by simp) _ rfl).2 hTag
      rcases Glyph.exists_char hBlank with ⟨c, rfl, hChar⟩
      simpa [atBreak] using hChar
  · cases after with
    | nil => rfl
    | cons g after =>
        have hBlank : g.isBlank = true := (hNext g rfl).1 hTag
        rcases Glyph.exists_char hBlank with ⟨c, rfl, hChar⟩
        exact hChar

------------------------------------------------------------
-- Tags in Parentheses
------------------------------------------------------------

/- Only a tag with a blank is written in parentheses. -/
theorem tagText_eq_enclosed (hOther : IsPlain other) :
    tagText other = enclosed name ↔
      isLong name = true ∧ other = name := by
  constructor
  · intro hSame
    unfold tagText at hSame
    split at hSame
    · next hLong =>
        simp only [enclosed, List.cons.injEq, true_and,
          List.append_cancel_right_eq, String.toList_inj]
          at hSame
        exact ⟨hSame ▸ hLong, hSame⟩
    · simp only [hashed, enclosed, List.cons.injEq, true_and]
        at hSame
      exact absurd (by simp [hSame]) hOther.opening
  · rintro ⟨hLong, rfl⟩
    exact if_pos hLong

/- A tag in parentheses is not the start of another tag. -/
theorem not_enclosed_prefix
    (hPlain : IsPlain name)
    (hOther : IsPlain other)
    (hNot : tagText other ≠ enclosed name)
    (after : List Char) :
    ¬ enclosed name <+: tagText other ++ after := by
  rintro ⟨rest, hSame⟩
  unfold tagText at hSame hNot
  split at hSame
  · next hLong =>
      rw [if_pos hLong] at hNot
      simp only [enclosed, List.cons_append, List.append_assoc,
        List.cons.injEq, true_and, List.nil_append] at hSame
      have hName : name.toList = other.toList := by
        refine
          append_inj_of_stops (p := (· != ')')) ?_ ?_ ?_ ?_ hSame
        · intro c hc
          simpa using
            fun hEnd : c = ')' => hPlain.closing (hEnd ▸ hc)
        · intro c hc
          simpa using
            fun hEnd : c = ')' => hOther.closing (hEnd ▸ hc)
        · simp
        · simp
      exact hNot (by rw [enclosed, enclosed, hName])
  · cases hLetters : other.toList with
    | nil => exact hOther.normalised.nonempty hLetters
    | cons c letters =>
        simp only [enclosed, hashed, hLetters, List.cons_append,
          List.cons.injEq, true_and] at hSame
        apply hOther.opening
        rw [hLetters, hSame.1]
        exact List.mem_cons_self

/- What does not start with a number sign starts no tag. -/
theorem char_split
    {c : Char}
    {cs : List Char}
    (hOther : c ≠ '#')
    (hText : written tagText gs = c :: cs) :
    ∃ rest, gs = .char c :: rest ∧ written tagText rest = cs := by
  cases gs with
  | nil => cases hText
  | cons g gs =>
      cases g with
      | char d =>
          rcases List.cons.inj hText with ⟨rfl, hRest⟩
          exact ⟨gs, rfl, hRest⟩
      | tag name =>
          rcases tagText_eq name with ⟨letters, hLetters⟩
          rw [written_cons, written_tag, hLetters] at hText
          exact absurd (List.cons.inj hText).1.symm hOther

/-
  Letters behind a character are no part of a tag, if they have
  neither a parenthesis nor a number sign behind a blank.
-/
theorem letters_split
    {d : Char}
    {letters after : List Char}
    (hApart : (.char d :: gs).IsChain Glyph.IsApart)
    (hOpening : '(' ∉ letters)
    (hNumber : SignsInside (d :: letters))
    (hAfter : after.head? ≠ some '(')
    (hText : written tagText gs = letters ++ after) :
    ∃ rest, gs = letters.map .char ++ rest ∧
      written tagText rest = after := by
  induction letters generalizing d gs with
  | nil => exact ⟨gs, rfl, hText⟩
  | cons p letters ih =>
      rcases List.isChain_cons.mp hNumber with ⟨hSign, hMore⟩
      have hOthers : '(' ∉ letters :=
        fun hp => hOpening (List.mem_cons_of_mem p hp)
      cases gs with
      | nil => cases hText
      | cons g gs =>
          rcases List.isChain_cons_cons.mp hApart with
            ⟨hHere, hRest⟩
          cases g with
          | char c =>
              rw [written_cons, written_char,
                List.singleton_append, List.cons_append]
                at hText
              rcases List.cons.inj hText with ⟨rfl, hLater⟩
              rcases ih hRest hOthers hMore hLater with
                ⟨rest, rfl, hSame⟩
              exact ⟨rest, rfl, hSame⟩
          | tag name =>
              -- the tag would start with the letter
              exfalso
              rw [written_cons, written_tag, tagText] at hText
              split at hText
              · simp only [enclosed, List.cons_append,
                  List.cons.injEq] at hText
                cases letters with
                | nil =>
                    exact hAfter (by rw [← List.nil_append after,
                      ← hText.2, List.head?_cons])
                | cons q letters =>
                    rcases List.cons.inj hText.2 with ⟨rfl, _⟩
                    exact hOthers List.mem_cons_self
              · next hShort =>
                  rcases List.cons.inj hText with ⟨hFirst, _⟩
                  have hBlank : isBlank d = true :=
                    hHere.2 (by simp [Glyph.isShort, hShort])
                  rw [hSign p rfl hFirst.symm] at hBlank
                  cases hBlank

/- A tag in parentheses that starts at a character is no tag. -/
theorem enclosed_prefix_blank
    {c : Char}
    (hName : IsPlain name)
    (hApart : (.char c :: gs).IsChain Glyph.IsApart)
    (hStarts : enclosed name <+: c :: written tagText gs) :
    enclosed name <+: written blankText (.char c :: gs) := by
  rcases hStarts with ⟨after, hSame⟩
  simp only [enclosed, List.cons_append, List.append_assoc,
    List.nil_append, List.cons.injEq] at hSame
  rcases hSame with ⟨rfl, hMore⟩
  have hNumber : SignsInside ('(' :: name.toList) :=
    List.isChain_cons.mpr ⟨fun _ _ _ => rfl, hName.number⟩
  rcases char_split (by decide) hMore.symm with
    ⟨inner, rfl, hInner⟩
  rcases letters_split hApart.tail hName.opening hNumber
      (by simp) hInner with
    ⟨outer, rfl, hOuter⟩
  rcases char_split (by decide) hOuter with ⟨rest, rfl, _⟩
  exact
    ⟨written blankText rest, by simp [enclosed]⟩

/- No tag in parentheses starts behind the start of a tag. -/
theorem not_enclosed_inside
    {letters left right after : List Char}
    (hOther : IsPlain other)
    (hText : tagText other = '#' :: letters)
    (hAfter : isLong other = false → atBreak after = true)
    (hSplit : letters = left ++ right)
    (hSome : right ≠ []) :
    ¬ enclosed name <+: right ++ after := by
  rintro ⟨rest, hStarts⟩
  cases right with
  | nil => exact hSome rfl
  | cons c right =>
      rw [enclosed, List.cons_append, List.cons_append,
        List.cons_append] at hStarts
      rcases List.cons.inj hStarts with ⟨rfl, hMore⟩
      rw [tagText] at hText
      cases right with
      | nil =>
          split at hText
          · have hLast :=
              congrArg List.getLast? (List.cons.inj hText).2
            rw [hSplit, ← List.cons_append,
              List.getLast?_concat, List.getLast?_concat]
              at hLast
            cases hLast
          · next hShort =>
              have hBreak := hAfter (by simpa using hShort)
              rw [List.nil_append] at hMore
              rw [← hMore] at hBreak
              cases hBreak
      | cons d right =>
          rcases List.cons.inj hMore with ⟨rfl, _⟩
          have hLetter : '(' ∈ other.toList := by
            split at hText
            · have hLetters := (List.cons.inj hText).2
              rw [hSplit] at hLetters
              cases left with
              | nil => cases hLetters
              | cons b left =>
                  have hInside :=
                    congrArg ('(' ∈ ·) (List.cons.inj hLetters).2
                  simpa using hInside
            · have hLetters := (List.cons.inj hText).2
              rw [hLetters, hSplit]
              simp
          exact hOther.opening hLetter

/- So it starts nowhere in another tag. -/
theorem not_enclosed_within
    {left right after : List Char}
    (hName : IsPlain name)
    (hOther : IsPlain other)
    (hNot : tagText other ≠ enclosed name)
    (hAfter : isLong other = false → atBreak after = true)
    (hSplit : tagText other = left ++ right)
    (hSome : right ≠ []) :
    ¬ enclosed name <+: right ++ after := by
  cases left with
  | nil =>
      rw [← List.nil_append right, ← hSplit]
      exact not_enclosed_prefix hName hOther hNot after
  | cons c left =>
      rcases tagText_eq other with ⟨letters, hText⟩
      rw [hText] at hSplit
      exact
        not_enclosed_inside hOther hText hAfter
          (List.cons.inj hSplit).2 hSome

/-
  Replacing a tag in parentheses replaces it where a tag is
  written like that, and nothing else.
-/
theorem replace_written
    (hName : IsPlain name)
    (hPlain : ∀ name, .tag name ∈ gs → IsPlain name)
    (hApart : gs.IsChain Glyph.IsApart)
    (hAlone : ¬ enclosed name <:+: written blankText gs) :
    replace (enclosed name) [' '] (written tagText gs) =
      written
        (fun other =>
          if tagText other = enclosed name then [' ']
          else tagText other)
        gs := by
  induction gs with
  | nil => rfl
  | cons g gs ih =>
      have hRest :=
        ih
          (fun other hOther =>
            hPlain other (List.mem_cons_of_mem g hOther))
          hApart.tail
          (fun hLater =>
            hAlone (hLater.trans (List.suffix_append _ _).isInfix))
      cases g with
      | char c =>
          have hNot :
              ¬ enclosed name <+: c :: written tagText gs :=
            fun hStarts =>
              hAlone
                (enclosed_prefix_blank hName hApart
                  hStarts).isInfix
          rw [written_cons, written_cons, written_char,
            written_char, List.singleton_append,
            replace_cons hNot, hRest, List.singleton_append]
      | tag other =>
          have hOther := hPlain other List.mem_cons_self
          rw [written_cons, written_cons, written_tag,
            written_tag]
          split
          · next hSame =>
              have hSome : enclosed name ≠ [] :=
                List.cons_ne_nil _ _
              rw [hSame, replace_append hSome, hRest]
          · next hNot =>
              have hChain :
                  ([] ++ Glyph.tag other :: gs).IsChain
                    Glyph.IsApart :=
                hApart
              have hAfter : isLong other = false →
                  atBreak (written tagText gs) = true :=
                fun hShort =>
                  (breaks_of_apart hChain hShort tagText).2
              have hWithin : ∀ left right,
                  tagText other = left ++ right → right ≠ [] →
                    ¬ enclosed name <+:
                      right ++ written tagText gs :=
                fun _ _ =>
                  not_enclosed_within hName hOther hNot hAfter
              rw [replace_apart hWithin, hRest]

------------------------------------------------------------
-- Tags without Parentheses
------------------------------------------------------------

/- There is a break in front of a tag that is left out, too. -/
theorem atBreak_written_blank
    (hBreak : atBreak (written tagText gs) = true) :
    atBreak (written blankText gs) = true := by
  cases gs with
  | nil => rfl
  | cons g gs =>
      cases g with
      | char c => exact hBreak
      | tag name => rfl

/- So there is behind it. -/
theorem atBreak_reverse_written_blank
    (hBreak :
      atBreak (written tagText gs).reverse = true) :
    atBreak (written blankText gs).reverse = true := by
  rcases List.eq_nil_or_concat gs with rfl | ⟨start, g, rfl⟩
  · rfl
  · cases g with
    | char c =>
        have hBlank : isBlank c = true := by
          simpa [atBreak] using hBreak
        simpa [atBreak] using hBlank
    | tag name => simp [blankText, atBreak, isBlank]

/- With a break in front of it, a number sign starts its glyph. -/
theorem eq_nil_of_number
    {g : Glyph}
    {before after : List Char}
    (hPlain : ∀ name, g = .tag name → IsPlain name)
    (hBreak : atBreak before.reverse = true)
    (hText : g.written tagText = before ++ '#' :: after) :
    before = [] := by
  rcases List.eq_nil_or_concat before with
    hNone | ⟨start, b, rfl⟩
  · exact hNone
  exfalso
  have hBlank : isBlank b = true := by
    simpa [atBreak] using hBreak
  cases g with
  | char c =>
      have hLength := congrArg List.length hText
      simp [Glyph.written] at hLength
      omega
  | tag name =>
      have hSigns := (hPlain name rfl).tagText_signs
      rw [written_tag] at hText
      rw [hText] at hSigns
      have hSolid : isBlank b = false :=
        (List.isChain_append.mp hSigns).2.2 b (by simp) '#' rfl
          rfl
      rw [hBlank] at hSolid
      cases hSolid

/-
  A number sign behind a break is written for itself, or a tag
  starts with it.
-/
theorem number_split
    {before after : List Char}
    (hPlain : ∀ name, .tag name ∈ gs → IsPlain name)
    (hBreak : atBreak before.reverse = true)
    (hText : written tagText gs = before ++ '#' :: after) :
    ∃ left g right,
      gs = left ++ g :: right ∧
        written tagText left = before ∧
        g.written tagText ++ written tagText right =
          '#' :: after := by
  induction gs generalizing before with
  | nil => simp at hText
  | cons g gs ih =>
      by_cases hFirst : before = []
      · subst hFirst
        exact ⟨[], g, gs, rfl, rfl, hText⟩
      have hLater : ∀ rest, before = g.written tagText ++ rest →
          ∃ left h right,
            g :: gs = left ++ h :: right ∧
              written tagText left = before ∧
              h.written tagText ++ written tagText right =
                '#' :: after := by
        rintro rest rfl
        have hRest : atBreak rest.reverse = true := by
          rw [List.reverse_append] at hBreak
          cases hReverse : rest.reverse with
          | nil => rfl
          | cons b start =>
              rw [hReverse] at hBreak
              exact hBreak
        rw [written_cons, List.append_assoc] at hText
        rcases ih
            (fun name hName =>
              hPlain name (List.mem_cons_of_mem g hName))
            hRest (List.append_cancel_left hText) with
          ⟨left, h, right, rfl, rfl, hSame⟩
        exact ⟨g :: left, h, right, rfl, rfl, hSame⟩
      rcases List.append_eq_append_iff.mp
          ((written_cons g gs).symm.trans hText) with
        ⟨rest, hBefore, _⟩ | ⟨rest, hHere, hRest⟩
      · exact hLater rest hBefore
      · cases rest with
        | nil =>
            exact hLater [] (by simpa using hHere.symm)
        | cons d rest =>
            have hSign : d = '#' := by
              simpa using (congrArg List.head? hRest).symm
            subst hSign
            exact
              absurd
                (eq_nil_of_number
                  (fun name hTag =>
                    hPlain name (hTag ▸ List.mem_cons_self))
                  hBreak hHere)
                hFirst

/-
  What is written for a tag only starts like another one without
  parentheses, with a break behind it, if it is the same.
-/
theorem eq_of_hashed_append
    {after rest : List Char}
    (hName : IsPlain name)
    (hShort : isLong name = false)
    (hOther : IsPlain other)
    (hAfter : atBreak after = true)
    (hRest : isLong other = false → atBreak rest = true)
    (hSame : tagText other ++ rest = '#' :: (name.toList ++ after)) :
    other = name := by
  have hStops : ∀ cs : List Char, atBreak cs = true →
      ∀ c ∈ cs.head?, (!isBlank c) = false := by
    intro cs hBreak c hc
    cases cs with
    | nil => cases hc
    | cons d cs =>
        cases hc
        simpa [atBreak] using hBreak
  rw [tagText] at hSame
  split at hSame
  · -- the name would start with the parenthesis
    simp only [enclosed, List.cons_append,
      List.cons.injEq, true_and] at hSame
    cases hLetters : name.toList with
    | nil => exact absurd hLetters hName.normalised.nonempty
    | cons c letters =>
        rw [hLetters] at hSame
        refine absurd ?_ hName.opening
        rw [hLetters, (List.cons.inj hSame).1]
        exact List.mem_cons_self
  · next hNotLong =>
      have hOtherShort : isLong other = false := by
        simpa using hNotLong
      rw [hashed, List.cons_append, List.cons.injEq] at hSame
      have hLetters : other.toList = name.toList := by
        refine
          append_inj_of_stops (p := fun c => !isBlank c)
            ?_ ?_ ?_ ?_ hSame.2
        · simpa using (hOther.isWord hOtherShort).2
        · simpa using (hName.isWord hShort).2
        · exact hStops rest (hRest hOtherShort)
        · exact hStops after hAfter
      exact String.toList_inj.mp hLetters

/-
  A word that reads as a tag without parentheses is one, or it
  is a word of the rest.
-/
theorem hashed_mem_words
    (hName : IsPlain name)
    (hShort : isLong name = false)
    (hPlain : ∀ name, .tag name ∈ gs → IsPlain name)
    (hApart : gs.IsChain Glyph.IsApart)
    (hNone : .tag name ∉ gs)
    (hWord : hashed name ∈ words (written tagText gs)) :
    hashed name ∈ words (written blankText gs) := by
  rcases mem_words_iff.mp hWord with
    ⟨hIsWord, before, after, hText, hBefore, hAfter⟩
  rw [hashed, List.append_assoc, List.cons_append] at hText
  rcases number_split hPlain hBefore hText with
    ⟨left, g, right, rfl, rfl, hSame⟩
  refine mem_words_iff.mpr ⟨hIsWord, ?_⟩
  cases g with
  | char c =>
      rw [written_char, List.singleton_append] at hSame
      rcases List.cons.inj hSame with ⟨rfl, hMore⟩
      have hNumber : SignsInside ('#' :: name.toList) :=
        List.isChain_cons.mpr
          ⟨fun _ _ _ => rfl, hName.number⟩
      have hEnd : after.head? ≠ some '(' := by
        intro hOpening
        cases after with
        | nil => cases hOpening
        | cons c after =>
            cases hOpening
            cases hAfter
      rcases letters_split
          (hApart.suffix (List.suffix_append left _))
          hName.opening hNumber hEnd hMore with
        ⟨rest, rfl, rfl⟩
      exact
        ⟨written blankText left, written blankText rest,
          by simp [hashed],
          atBreak_reverse_written_blank hBefore,
          atBreak_written_blank hAfter⟩
  | tag other =>
      have hEnd : isLong other = false →
          atBreak (written tagText right) = true :=
        fun hOther => (breaks_of_apart hApart hOther tagText).2
      have hOther : other = name :=
        eq_of_hashed_append hName hShort (hPlain other (by simp))
          hAfter hEnd hSame
      rw [hOther] at hNone
      exact absurd (by simp) hNone

end Dialectic
