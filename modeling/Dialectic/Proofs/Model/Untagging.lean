import Dialectic.Model.Builder
import Dialectic.Proofs.Model.Tagging

/-
  What removing tags from a text leaves.  Where the tags can be
  told from the rest of the text, all of them are removed, and
  nothing else is.

  Main theorems:
    * `filter_words_written`
    * `removeTag_written`
    * `removeTags_written`
-/

namespace Dialectic

open Text

variable {name other : String} {gs : List Glyph}

------------------------------------------------------------
-- Tags Left Out
------------------------------------------------------------

/- A glyph, or a space for the given tag. -/
def Text.Glyph.without (name : String) : Glyph → Glyph
| char c => char c
| tag other => if other = name then char ' ' else tag other

/- What is left out is left out by blanks anyway. -/
theorem written_blank_without (name : String) (gs : List Glyph) :
    written blankText (gs.map (Glyph.without name)) =
      written blankText gs := by
  induction gs with
  | nil => rfl
  | cons g gs ih =>
      rw [List.map_cons, written_cons, written_cons, ih]
      cases g with
      | char c => rfl
      | tag other =>
          rw [Glyph.without]
          split <;> rfl

/- The other tags are left. -/
theorem tag_mem_without :
    .tag other ∈ gs.map (Glyph.without name) ↔
      .tag other ∈ gs ∧ other ≠ name := by
  rw [List.mem_map]
  constructor
  · rintro ⟨g, hg, hSame⟩
    cases g with
    | char c => cases hSame
    | tag this =>
        rw [Glyph.without] at hSame
        split at hSame
        · cases hSame
        · next hNot =>
            cases hSame
            exact ⟨hg, hNot⟩
  · rintro ⟨hOther, hNot⟩
    exact ⟨.tag other, hOther, if_neg hNot⟩

/- They stand apart as before. -/
theorem apart_without
    (name : String)
    (hApart : gs.IsChain Glyph.IsApart) :
    (gs.map (Glyph.without name)).IsChain Glyph.IsApart := by
  have hBlank : ∀ g : Glyph, g.isBlank = true →
      (g.without name).isBlank = true := by
    intro g hg
    rcases Glyph.exists_char hg with ⟨c, rfl, _⟩
    exact hg
  have hShort : ∀ g : Glyph, (g.without name).isShort = true →
      g.isShort = true := by
    intro g hg
    cases g with
    | char c => exact hg
    | tag other =>
        rw [Glyph.without] at hg
        split at hg
        · cases hg
        · exact hg
  rw [List.isChain_map]
  exact
    hApart.imp
      (fun g h hBoth =>
        ⟨fun hg => hBlank h (hBoth.1 (hShort g hg)),
          fun hh => hBlank g (hBoth.2 (hShort h hh))⟩)

/- No word of a text without the tag reads as the tag. -/
theorem filter_words_absent
    (hName : IsPlain name)
    (hShort : isLong name = false)
    (hPlain : ∀ name, .tag name ∈ gs → IsPlain name)
    (hApart : gs.IsChain Glyph.IsApart)
    (hAlone : hashed name ∉ words (written blankText gs))
    (hNone : .tag name ∉ gs) :
    (words (written tagText gs)).filter (· != hashed name) =
      words
        (written tagText (gs.map (Glyph.without name))) := by
  have hSame : ∀ g ∈ gs, g.without name = g := by
    intro g hg
    cases g with
    | char c => rfl
    | tag other =>
        refine if_neg (fun hOther : other = name => hNone ?_)
        rwa [hOther] at hg
  rw [List.map_congr_left hSame, List.map_id'',
    List.filter_eq_self]
  · intro w hw
    have hNot : w ≠ hashed name := by
      rintro rfl
      exact
        hAlone
          (hashed_mem_words hName hShort hPlain hApart hNone hw)
    simpa using hNot
  · exact fun _ => rfl

/-
  Leaving out the words that read as a tag without parentheses
  leaves out the tag, and nothing else.
-/
theorem filter_words_written
    (hName : IsPlain name)
    (hShort : isLong name = false)
    (hPlain : ∀ name, .tag name ∈ gs → IsPlain name)
    (hApart : gs.IsChain Glyph.IsApart)
    (hAlone : hashed name ∉ words (written blankText gs)) :
    (words (written tagText gs)).filter (· != hashed name) =
      words
        (written tagText (gs.map (Glyph.without name))) := by
  have hSpace : isBlank ' ' = true := rfl
  -- the induction is on what follows the tag
  induction hLength : gs.length using Nat.strongRecOn
    generalizing gs with
  | ind n ih =>
      by_cases hNone : .tag name ∉ gs
      · exact
          filter_words_absent hName hShort hPlain hApart hAlone
            hNone
      rcases List.eq_append_cons_of_mem (not_not.mp hNone) with
        ⟨before, after, rfl, hFirst⟩
      rcases breaks_of_apart hApart hShort tagText with
        ⟨hBefore, hAfter⟩
      rcases List.isChain_append.mp hApart with
        ⟨hStart, hChain, _⟩
      have hRest : after.IsChain Glyph.IsApart := hChain.tail
      rw [written_append, written_cons, written_tag, blankText,
        List.singleton_append, words_append_blank hSpace,
        List.mem_append, not_or] at hAlone
      have hLess : after.length < n := by
        rw [← hLength]
        simp
        omega
      have hLeft :=
        filter_words_absent hName hShort
          (fun other hOther => hPlain other (by simp [hOther]))
          hStart hAlone.1 hFirst
      have hRight :=
        ih after.length hLess
          (fun other hOther => hPlain other (by simp [hOther]))
          hRest hAlone.2 rfl
      have hText : tagText name = hashed name := by
        simp [tagText, hShort]
      have hTag : Glyph.without name (.tag name) = .char ' ' :=
        if_pos rfl
      rw [written_append, written_cons, written_tag, hText,
        ← List.append_assoc,
        words_append_word hBefore (hName.hashed_isWord hShort)
          hAfter,
        List.filter_append, List.filter_cons, List.map_append,
        List.map_cons, hTag, written_append, written_cons,
        written_char, List.singleton_append,
        words_append_blank hSpace, hLeft, hRight]
      simp

------------------------------------------------------------
-- Removing Tags
------------------------------------------------------------

/- Squeezed tags stand apart as before. -/
theorem apart_squeezed
    (hApart : gs.IsChain Glyph.IsApart) :
    (squeezed gs).IsChain Glyph.IsApart := by
  have hSpace : ∀ g : Glyph,
      Glyph.IsApart g (.char ' ') ∧ Glyph.IsApart (.char ' ') g :=
    fun g =>
      ⟨⟨fun _ => rfl, fun hNone => (by cases hNone)⟩,
        ⟨fun hNone => (by cases hNone), fun _ => rfl⟩⟩
  have hAfter : ∀ gs : List Glyph,
      (∀ g, (g :: gs).IsChain Glyph.IsApart →
        (g :: squeezedAfter false gs).IsChain
          Glyph.IsApart) ∧
        (∀ g, gs.IsChain Glyph.IsApart →
          (g :: squeezedAfter true gs).IsChain
            Glyph.IsApart) := by
    intro gs
    induction gs with
    | nil =>
        exact ⟨fun g _ => .singleton g, fun g _ => .singleton g⟩
    | cons h gs ih =>
        rcases ih with ⟨ihNext, ihGap⟩
        constructor
        · intro g hChain
          rcases List.isChain_cons_cons.mp hChain with
            ⟨hHere, hRest⟩
          rw [squeezedAfter]
          split
          · exact ihGap g hRest.tail
          · exact .cons_cons hHere (ihNext h hRest)
        · intro g hChain
          rw [squeezedAfter]
          split
          · exact ihGap g hChain.tail
          · exact
              .cons_cons (hSpace g).1
                (.cons_cons (hSpace h).2 (ihNext h hChain))
  have hRest :
      (gs.dropWhile Glyph.isBlank).IsChain Glyph.IsApart :=
    hApart.suffix (List.dropWhile_suffix _)
  unfold squeezed
  cases hFirst : gs.dropWhile Glyph.isBlank with
  | nil => exact .nil
  | cons g rest =>
      rw [hFirst] at hRest
      have hSolid : g.isBlank = false := by
        simpa [hFirst] using
          List.head?_dropWhile_not Glyph.isBlank gs
      rw [squeezedAfter, hSolid]
      exact (hAfter rest).1 g hRest

/- A tag that is alone in a text is so if the words stay. -/
theorem IsAlone.of_words
    {cs ds : List Char}
    (hAlone : IsAlone name cs)
    (hWords : words ds = words cs) :
    IsAlone name ds := by
  refine ⟨?_, ?_⟩
  · rw [squeeze, hWords]
    exact hAlone.enclosed
  · rw [hWords]
    exact hAlone.hashed

/- Replacing a tag in parentheses leaves out a tag with a blank. -/
theorem replace_written_without
    (hName : IsPlain name)
    (hPlain : ∀ name, .tag name ∈ gs → IsPlain name)
    (hApart : gs.IsChain Glyph.IsApart)
    (hAlone : ¬ enclosed name <:+: written blankText gs) :
    replace (enclosed name) [' '] (written tagText gs) =
      written tagText
        (if isLong name then gs.map (Glyph.without name)
          else gs) := by
  rw [replace_written hName hPlain hApart hAlone]
  have hGlyph : ∀ g ∈ gs,
      g.written
          (fun other =>
            if tagText other = enclosed name then [' ']
            else tagText other) =
        (if isLong name then g.without name else g).written
          tagText := by
    intro g hg
    cases g with
    | char c => split <;> rfl
    | tag other =>
        have hOther := hPlain other hg
        rw [written_tag]
        simp only [tagText_eq_enclosed hOther, Glyph.without]
        by_cases hLong : isLong name = true <;>
          by_cases hSame : other = name <;>
            simp [hLong, hSame]
  split
  · next hLong =>
      simp only [hLong, if_true] at hGlyph
      rw [written, written, List.flatMap_map]
      exact List.flatMap_congr hGlyph
  · next hShort =>
      simp only [hShort, Bool.false_eq_true, if_false] at hGlyph
      exact List.flatMap_congr hGlyph

/-
  Removing a tag from what is written leaves it out, and leaves
  the words of the rest.
-/
theorem removeTag_written
    (hName : IsPlain name)
    (hPlain : ∀ name, .tag name ∈ gs → IsPlain name)
    (hApart : gs.IsChain Glyph.IsApart)
    (hAlone : IsAlone name (written blankText gs)) :
    ∃ hs,
      removeTag (written tagText gs) name = written tagText hs ∧
        (∀ other, .tag other ∈ hs ↔
          .tag other ∈ gs ∧ other ≠ name) ∧
        hs.IsChain Glyph.IsApart ∧
        words (written blankText hs) =
          words (written blankText gs) := by
  have hEnclosed :
      ("#(" ++ name ++ ")").toList = enclosed name := by
    simp [enclosed]
  have hHashed : ("#" ++ name).toList = hashed name := by
    simp [hashed]
  have hAbsent : ¬ enclosed name <:+: written blankText gs :=
    fun hThere =>
      hAlone.enclosed
        (infix_squeeze hName.enclosed_isNormalised hThere)
  have hApartLeft := apart_without name hApart
  have hBlankLeft := written_blank_without name gs
  unfold removeTag
  simp only [hEnclosed, hHashed,
    replace_written_without hName hPlain hApart hAbsent]
  cases hLong : isLong name with
  | true =>
      refine
        ⟨gs.map (Glyph.without name), ?_,
          fun _ => tag_mem_without, hApartLeft,
          congrArg words hBlankLeft⟩
      exact if_pos hLong
  | false =>
      refine
        ⟨squeezed (gs.map (Glyph.without name)), ?_, ?_,
          apart_squeezed hApartLeft, ?_⟩
      · have hMarks : ∀ other,
            .tag other ∈ gs.map (Glyph.without name) →
              IsNormalised (tagText other) :=
          fun other hOther =>
            (hPlain other
              (tag_mem_without.mp hOther).1).tagText_isNormalised
        have hShort : ¬ name.toList.any isBlank = true :=
          Bool.not_eq_true _ ▸ hLong
        rw [if_neg hShort, if_neg (by simp),
          filter_words_written hName hLong hPlain hApart
            (hAlone.hashed hLong),
          ← squeeze_written hMarks, squeeze]
      · intro other
        rw [tag_mem_squeezed, tag_mem_without]
      · rw [words_squeezed, hBlankLeft]

/- Removing all tags leaves the words of the rest. -/
theorem foldl_removeTag_written
    {names : List String}
    (hNames : ∀ name ∈ names, IsPlain name ∧
      IsAlone name (written blankText gs))
    (hTags : ∀ name, .tag name ∈ gs → name ∈ names)
    (hApart : gs.IsChain Glyph.IsApart) :
    words (names.foldl removeTag (written tagText gs)) =
      words (written blankText gs) := by
  induction names generalizing gs with
  | nil =>
      -- there is no tag any more
      have hGlyph : ∀ g ∈ gs,
          g.written tagText = g.written blankText := by
        intro g hg
        cases g with
        | char c => rfl
        | tag name => exact absurd (hTags name hg) (by simp)
      rw [List.foldl_nil, written, written,
        List.flatMap_congr hGlyph]
  | cons name names ih =>
      rcases List.forall_mem_cons.mp hNames with
        ⟨⟨hName, hAlone⟩, hOthers⟩
      have hPlain : ∀ name, .tag name ∈ gs → IsPlain name :=
        fun other hOther => (hNames other (hTags other hOther)).1
      rcases removeTag_written hName hPlain hApart hAlone with
        ⟨hs, hText, hLeft, hApartLeft, hWords⟩
      rw [List.foldl_cons, hText, ← hWords]
      refine
        ih
          (fun other hOther =>
            ⟨(hOthers other hOther).1,
              (hOthers other hOther).2.of_words hWords⟩)
          (fun other hOther => ?_) hApartLeft
      rcases (hLeft other).mp hOther with ⟨hThere, hNot⟩
      exact
        (List.mem_cons.mp (hTags other hThere)).resolve_left hNot

/-
  Where the tags can be told from the rest, removing them all
  from a squeezed text leaves the text that is squeezed without
  them.
-/
theorem removeTags_written
    {names : List String}
    (hLegible : Legible gs)
    (hNames : ∀ name, name ∈ names ↔ .tag name ∈ gs) :
    removeTags (String.ofList (squeeze (written tagText gs)))
        names =
      String.ofList (squeeze (written blankText gs)) := by
  have hMarks : ∀ name, .tag name ∈ gs →
      IsNormalised (tagText name) :=
    fun name hName =>
      (hLegible.plain name hName).tagText_isNormalised
  have hWords :
      words (written blankText (squeezed gs)) =
        words (written blankText gs) :=
    words_squeezed gs
  have hRemoved :
      words
          (names.foldl removeTag
            (written tagText (squeezed gs))) =
        words (written blankText (squeezed gs)) :=
    foldl_removeTag_written
      (fun name hName =>
        have hTag := (hNames name).mp hName
        ⟨hLegible.plain name hTag,
          (hLegible.alone name hTag).of_words hWords⟩)
      (fun name hTag =>
        (hNames name).mpr (tag_mem_squeezed.mp hTag))
      (apart_squeezed hLegible.apart)
  rw [removeTags, String.toList_ofList, squeeze_written hMarks,
    squeeze, hRemoved, hWords, squeeze]

/- A tag without parentheses stays if a mark stands behind it. -/
example :
    removeTags "a claim #pro." ["pro"] = "a claim #pro." := by
  decide +kernel

end Dialectic
