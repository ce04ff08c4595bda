import Dialectic.Text.Blank
import Mathlib.Data.List.Chain

/-
  What is left of a text that is trimmed or squeezed, unless
  nothing is left.

  Key definitions include:
    * `Text.IsTrimmed`
    * `Text.IsNormalised`

  Main theorems:
    * `Text.trim_isTrimmed`
    * `Text.squeeze_isNormalised`
    * `Text.squeeze_ne_nil`
    * `Text.IsNormalised.squeeze_eq`
    * `Text.words_append_blank`
    * `Text.mem_words_iff`
-/

namespace Dialectic.Text

------------------------------------------------------------
-- Trimming
------------------------------------------------------------

/- A text that neither starts nor ends with a blank. -/
structure IsTrimmed (cs : List Char) : Prop where
  nonempty : cs ≠ []
  first : ∀ c ∈ cs.head?, isBlank c = false
  last : ∀ c ∈ cs.getLast?, isBlank c = false

/- After the blanks before a text comes none. -/
theorem head_trimStart (cs : List Char) :
    ∀ c ∈ (trimStart cs).head?, isBlank c = false := by
  intro c hHead
  have hFirst := List.head?_dropWhile_not isBlank cs
  rw [← trimStart, hHead] at hFirst
  exact hFirst

/- A text without the blanks after it starts as it does. -/
theorem trimEnd_prefix (cs : List Char) :
    trimEnd cs <+: cs := by
  have hSuffix := List.dropWhile_suffix (l := cs.reverse) isBlank
  simpa [trimEnd, dropEndWhile] using
    List.reverse_prefix.mpr hSuffix

/- A trimmed text starts and ends with no blank. -/
theorem trim_isTrimmed
    {cs : List Char}
    (hSome : trim cs ≠ []) :
    IsTrimmed (trim cs) := by
  refine ⟨hSome, ?_, ?_⟩
  · intro c hHead
    apply head_trimStart cs c
    rcases trimEnd_prefix (trimStart cs) with ⟨after, hText⟩
    rw [← hText, List.head?_append]
    rw [trim] at hHead
    simp [Option.mem_def.mp hHead]
  · intro c hLast
    rw [trim, trimEnd, dropEndWhile, List.getLast?_reverse]
      at hLast
    exact head_trimStart (trimStart cs).reverse c hLast

------------------------------------------------------------
-- Squeezing
------------------------------------------------------------

/-
  A trimmed text whose blanks are single spaces.
-/
structure IsNormalised (cs : List Char) : Prop
    extends IsTrimmed cs where
  single :
    cs.IsChain (fun a b => isBlank a = true → isBlank b = false)
  spaces : ∀ c ∈ cs, isBlank c = true → c = ' '

/- The checks run over the text, never over all characters. -/
instance (cs : List Char) : Decidable (IsNormalised cs) :=
  decidable_of_iff
    ((cs ≠ [] ∧ cs.head?.all (fun c => !isBlank c) = true ∧
        cs.getLast?.all (fun c => !isBlank c) = true) ∧
      cs.IsChain
          (fun a b => isBlank a = true → isBlank b = false) ∧
        cs.all (fun c => !isBlank c || c == ' ') = true) <| by
    simp only [Option.all_eq_true, Bool.not_eq_true',
      List.all_eq_true, Bool.or_eq_true, beq_iff_eq]
    constructor
    · rintro ⟨⟨hSome, hFirst, hLast⟩, hSingle, hSpaces⟩
      refine ⟨⟨hSome, hFirst, hLast⟩, hSingle, fun c hChar => ?_⟩
      intro hBlank
      exact (hSpaces c hChar).resolve_left (by simp [hBlank])
    · rintro ⟨⟨hSome, hFirst, hLast⟩, hSingle, hSpaces⟩
      refine ⟨⟨hSome, hFirst, hLast⟩, hSingle, fun c hChar => ?_⟩
      cases hBlank : isBlank c with
      | false => exact Or.inl rfl
      | true => exact Or.inr (hSpaces c hChar hBlank)

/- A text with characters, none of which is blank. -/
def IsWord (cs : List Char) : Prop :=
  cs ≠ [] ∧ ∀ c ∈ cs, isBlank c = false

/- The words of a text are words. -/
theorem isWord_of_mem_words
    {cs w : List Char}
    (hWord : w ∈ words cs) :
    IsWord w := by
  have hAfter : ∀ word, (∀ c ∈ word, isBlank c = false) →
      w ∈ wordsAfter word cs → IsWord w := by
    clear hWord
    intro word hSolid hWord
    -- the word that is not finished has no blank so far
    induction cs generalizing word with
    | nil =>
        unfold wordsAfter at hWord
        split at hWord
        · cases hWord
        · next hSome =>
            rw [List.mem_singleton.mp hWord]
            exact ⟨by simpa using hSome, by simpa using hSolid⟩
    | cons c cs ih =>
        unfold wordsAfter at hWord
        split at hWord
        · split at hWord
          · exact ih [] (by simp) hWord
          · next hSome =>
              rcases List.mem_cons.mp hWord with rfl | hLater
              · exact
                  ⟨by simpa using hSome, by simpa using hSolid⟩
              · exact ih [] (by simp) hLater
        · next hBlank =>
            refine ih (c :: word) ?_ hWord
            exact
              List.forall_mem_cons.mpr
                ⟨by simpa using hBlank, hSolid⟩
  exact hAfter [] (by simp) hWord

/- A word is normalised. -/
theorem IsWord.isNormalised
    {w : List Char}
    (hWord : IsWord w) :
    IsNormalised w where
  nonempty := hWord.1
  first := fun c hHead => hWord.2 c (List.mem_of_mem_head? hHead)
  last := fun c hLast => hWord.2 c (List.mem_of_getLast? hLast)
  single := by
    apply List.Pairwise.isChain
    rw [List.pairwise_iff_forall_sublist]
    intro a b hHere _
    exact hWord.2 b (hHere.subset (by simp))
  spaces := by
    intro c hc hBlank
    rw [hWord.2 c hc] at hBlank
    cases hBlank

/- Normalised texts may stand one behind the other. -/
theorem IsNormalised.append
    {a b : List Char}
    (hFirst : IsNormalised a)
    (hSecond : IsNormalised b) :
    IsNormalised (a ++ b) where
  nonempty := by simp [hFirst.nonempty]
  first := by
    rw [List.head?_append_of_ne_nil _ hFirst.nonempty]
    exact hFirst.first
  last := by
    rw [List.getLast?_append_of_ne_nil _ hSecond.nonempty]
    exact hSecond.last
  single := by
    refine List.isChain_append.mpr
      ⟨hFirst.single, hSecond.single, ?_⟩
    intro c hLast _ _ hBlank
    rw [hFirst.last c hLast] at hBlank
    cases hBlank
  spaces := by
    intro c hc
    rcases List.mem_append.mp hc with hHere | hLater
    · exact hFirst.spaces c hHere
    · exact hSecond.spaces c hLater

/- A space may stand between normalised texts. -/
theorem IsNormalised.join
    {a b : List Char}
    (hFirst : IsNormalised a)
    (hSecond : IsNormalised b) :
    IsNormalised (a ++ ' ' :: b) where
  nonempty := by simp
  first := by
    rw [List.head?_append_of_ne_nil _ hFirst.nonempty]
    exact hFirst.first
  last := by
    rw [List.getLast?_append_of_ne_nil _ (by simp),
      List.getLast?_cons_of_ne_nil hSecond.nonempty]
    exact hSecond.last
  single := by
    refine List.isChain_append.mpr
      ⟨hFirst.single, ?_, ?_⟩
    · exact List.isChain_cons.mpr
        ⟨fun c hHead _ => hSecond.first c hHead,
          hSecond.single⟩
    · intro c hLast _ _ hBlank
      rw [hFirst.last c hLast] at hBlank
      cases hBlank
  spaces := by
    intro c hc hBlank
    rcases List.mem_append.mp hc with hHere | hHere
    · exact hFirst.spaces c hHere hBlank
    · rcases List.mem_cons.mp hHere with rfl | hLater
      · rfl
      · exact hSecond.spaces c hLater hBlank

/- Words with spaces between them are normalised. -/
theorem joinWords_isNormalised
    {ws : List (List Char)}
    (hSome : ws ≠ [])
    (hWords : ∀ w ∈ ws, IsWord w) :
    IsNormalised (joinWords ws) := by
  induction ws with
  | nil => exact absurd rfl hSome
  | cons w ws ih =>
      have hWord : IsWord w := hWords w List.mem_cons_self
      cases ws with
      | nil => exact hWord.isNormalised
      | cons v vs =>
          have hRest : IsNormalised (joinWords (v :: vs)) :=
            ih (by simp)
              (fun u hu => hWords u (List.mem_cons_of_mem w hu))
          exact hWord.isNormalised.join hRest

/- A squeezed text is normalised. -/
theorem squeeze_isNormalised
    {cs : List Char}
    (hSome : squeeze cs ≠ []) :
    IsNormalised (squeeze cs) := by
  apply joinWords_isNormalised
  · intro hNone
    rw [squeeze, hNone] at hSome
    exact hSome rfl
  · exact fun w => isWord_of_mem_words

/- Squeezing leaves something of a text that is not blank. -/
theorem squeeze_ne_nil
    {c : Char}
    {cs : List Char}
    (hMember : c ∈ cs)
    (hSolid : isBlank c = false) :
    squeeze cs ≠ [] := by
  have hAfter : ∀ word, word ≠ [] ∨ c ∈ cs →
      wordsAfter word cs ≠ [] := by
    clear hMember
    intro word hSome
    induction cs generalizing word with
    | nil =>
        rcases hSome with hWord | hNone
        · simp [wordsAfter, hWord]
        · cases hNone
    | cons d cs ih =>
        unfold wordsAfter
        split
        · next hBlank =>
            split
            · next hWord =>
                refine ih [] (.inr ?_)
                rcases hSome with hOther | hMember
                · exact absurd (by simpa using hWord) hOther
                · rcases List.mem_cons.mp hMember with rfl | hMore
                  · rw [hSolid] at hBlank
                    cases hBlank
                  · exact hMore
            · simp
        · exact ih (d :: word) (.inl (by simp))
  have hWords : words cs ≠ [] := hAfter [] (.inr hMember)
  exact
    (joinWords_isNormalised hWords
      (fun w => isWord_of_mem_words)).nonempty

/-
  Joining the words of a text whose blanks are single spaces
  gives it back, with the word that is not finished before it.
-/
theorem joinWords_wordsAfter
    {word cs : List Char}
    (hFirst : word = [] →
      ∀ c ∈ cs.head?, isBlank c = false)
    (hLast : ∀ c ∈ cs.getLast?, isBlank c = false)
    (hSingle :
      cs.IsChain (fun a b => isBlank a = true → isBlank b = false))
    (hSpaces : ∀ c ∈ cs, isBlank c = true → c = ' ') :
    joinWords (wordsAfter word cs) = word.reverse ++ cs := by
  induction cs generalizing word with
  | nil => cases word <;> simp [wordsAfter, joinWords]
  | cons c cs ih =>
      have hEnd : ∀ d ∈ cs.getLast?, isBlank d = false := by
        intro d hd
        refine hLast d ?_
        rw [List.getLast?_cons, Option.mem_def.mp hd]
        rfl
      rcases List.isChain_cons.mp hSingle with ⟨hNext, hMore⟩
      rcases List.forall_mem_cons.mp hSpaces with
        ⟨hSpace, hOthers⟩
      cases hBlank : isBlank c with
      | false =>
          have hWord : c :: word ≠ [] := List.cons_ne_nil c word
          rw [wordsAfter, hBlank]
          simpa using
            ih (fun hNone => absurd hNone hWord) hEnd hMore
              hOthers
      | true =>
          have hRest : joinWords (wordsAfter [] cs) = cs :=
            ih (fun _ d hd => hNext d hd hBlank) hEnd hMore
              hOthers
          have hWord : word ≠ [] := by
            intro hNone
            have hSolid := hFirst hNone c rfl
            rw [hBlank] at hSolid
            cases hSolid
          cases hWords : wordsAfter [] cs with
          | nil =>
              -- a text with blanks alone would end with one
              rw [hWords] at hRest
              have hNone : cs = [] := hRest.symm
              have hSolid := hLast c (by rw [hNone]; rfl)
              rw [hBlank] at hSolid
              cases hSolid
          | cons v vs =>
              have hJoined :
                  joinWords (word.reverse :: v :: vs) =
                    word.reverse ++ ' ' :: joinWords (v :: vs) :=
                rfl
              rw [wordsAfter, hBlank, if_pos rfl,
                if_neg (by simpa using hWord), hWords, hJoined,
                ← hWords, hRest, hSpace hBlank]

/- A normalised text stays as it is when it is squeezed. -/
theorem IsNormalised.squeeze_eq
    {cs : List Char}
    (hText : IsNormalised cs) :
    squeeze cs = cs :=
  joinWords_wordsAfter (fun _ => hText.first) hText.last
    hText.single hText.spaces

------------------------------------------------------------
-- Words
------------------------------------------------------------

/- Words end at a blank. -/
theorem words_append_blank
    {b : Char}
    (hBlank : isBlank b = true)
    (before after : List Char) :
    words (before ++ b :: after) =
      words before ++ words after := by
  have hAfter : ∀ word,
      wordsAfter word (before ++ b :: after) =
        wordsAfter word before ++ words after := by
    induction before with
    | nil =>
        intro word
        cases word <;> simp [wordsAfter, words, hBlank]
    | cons c before ih =>
        intro word
        rw [List.cons_append, wordsAfter, wordsAfter]
        split
        · split
          · exact ih []
          · rw [ih [], List.cons_append]
        · exact ih (c :: word)
  exact hAfter []

/- A blank before a text is in none of its words. -/
theorem words_cons_blank
    {b : Char}
    (hBlank : isBlank b = true)
    (cs : List Char) :
    words (b :: cs) = words cs :=
  words_append_blank hBlank [] cs

/- A word consists of itself. -/
theorem IsWord.words_eq
    {w : List Char}
    (hWord : IsWord w) :
    words w = [w] := by
  have hAfter : ∀ word, (∀ c ∈ w, isBlank c = false) →
      word ++ w ≠ [] →
        wordsAfter word w = [word.reverse ++ w] := by
    clear hWord
    induction w with
    | nil =>
        intro word _ hSome
        have hWord : word ≠ [] := by simpa using hSome
        simp [wordsAfter, hWord]
    | cons c w ih =>
        intro word hSolid _
        rcases List.forall_mem_cons.mp hSolid with
          ⟨hFirst, hMore⟩
        rw [wordsAfter, hFirst]
        simpa using ih (c :: word) hMore (by simp)
  exact hAfter [] hWord.2 hWord.1

/- So does one that breaks set off. -/
theorem words_append_word
    {before w after : List Char}
    (hBefore : atBreak before.reverse = true)
    (hWord : IsWord w)
    (hAfter : atBreak after = true) :
    words (before ++ w ++ after) =
      words before ++ w :: words after := by
  have hEnd : words (w ++ after) = w :: words after := by
    cases after with
    | nil =>
        rw [List.append_nil, hWord.words_eq]
        rfl
    | cons b after =>
        rw [words_append_blank hAfter, hWord.words_eq,
          words_cons_blank hAfter, List.singleton_append]
  rcases List.eq_nil_or_concat before with rfl | ⟨start, b, rfl⟩
  · exact hEnd
  · have hBlank : isBlank b = true := by
      simpa [atBreak] using hBefore
    have hStart : words (start ++ [b]) = words start := by
      rw [words_append_blank hBlank]
      exact List.append_nil _
    rw [List.concat_eq_append] at *
    rw [hStart, List.append_assoc, List.append_assoc,
      List.singleton_append, words_append_blank hBlank, hEnd]

/- The words of a text are what breaks set off. -/
theorem mem_words_iff {cs w : List Char} :
    w ∈ words cs ↔
      IsWord w ∧
        ∃ before after, cs = before ++ w ++ after ∧
          atBreak before.reverse = true ∧
          atBreak after = true := by
  have hBreak : ∀ {b : Char} (cs ds : List Char),
      isBlank b = true → atBreak cs = true →
        atBreak (cs ++ b :: ds) = true := by
    intro b cs ds hBlank hEnd
    cases cs with
    | nil => exact hBlank
    | cons c cs => exact hEnd
  constructor
  · intro hWord
    refine ⟨isWord_of_mem_words hWord, ?_⟩
    -- the induction is on the parts around a blank
    induction hLength : cs.length using Nat.strongRecOn
      generalizing cs with
    | ind n ih =>
        by_cases hSolid : ∀ c ∈ cs, isBlank c = false
        · by_cases hNone : cs = []
          · rw [hNone] at hWord
            cases hWord
          · rw [IsWord.words_eq ⟨hNone, hSolid⟩] at hWord
            rw [List.mem_singleton.mp hWord]
            exact ⟨[], [], by simp, rfl, rfl⟩
        · have hSome : ∃ b ∈ cs, isBlank b = true := by
            simpa using hSolid
          rcases hSome with ⟨b, hb, hBlank⟩
          rcases List.append_of_mem hb with ⟨start, rest, rfl⟩
          rw [List.length_append, List.length_cons] at hLength
          rw [words_append_blank hBlank] at hWord
          rcases List.mem_append.mp hWord with hHere | hLater
          · rcases ih start.length (by omega) hHere rfl with
              ⟨before, after, rfl, hBefore, hAfter⟩
            exact
              ⟨before, after ++ b :: rest, by simp, hBefore,
                hBreak after rest hBlank hAfter⟩
          · rcases ih rest.length (by omega) hLater rfl with
              ⟨before, after, rfl, hBefore, hAfter⟩
            refine
              ⟨start ++ b :: before, after, by simp, ?_,
                hAfter⟩
            rw [List.reverse_append, List.reverse_cons,
              List.append_assoc]
            exact hBreak _ _ hBlank hBefore
  · rintro ⟨hWord, before, after, rfl, hBefore, hAfter⟩
    rw [words_append_word hBefore hWord hAfter]
    exact List.mem_append_right _ List.mem_cons_self

end Dialectic.Text
