import Dialectic.Proofs.Text.Padding

/-
  Where a text occurs in another one, that searching finds the
  first place, and what replacing its occurrences leaves as it
  is.

  Key definitions include:
    * `Text.FirstAt`

  Main theorems:
    * `Text.FirstAt.unique`
    * `Text.find?_eq_none_iff`
    * `Text.find?_eq_some_iff`
    * `Text.findChar?_eq_some_iff`
    * `Text.replace_append`
    * `Text.replace_apart`
-/

namespace Dialectic.Text

------------------------------------------------------------
-- First Occurrences
------------------------------------------------------------

/-
  A text occurs behind some characters, and does not occur any
  earlier: an earlier occurrence would end before its last
  character.
-/
def FirstAt (needle before : List Char) : Prop :=
  ¬ needle <:+: before ++ needle.dropLast

variable {needle before before' after after' cs : List Char}

/- A text up to the last character of an occurrence. -/
theorem append_dropLast_lead (needle before after : List Char) :
    before ++ needle.dropLast <+: before ++ needle ++ after := by
  have hLead := List.dropLast_prefix needle
  rw [List.append_assoc]
  exact
    (List.prefix_append_right_inj before).mpr
      (hLead.trans (List.prefix_append needle after))

/- An earlier occurrence leads into the text up to a later one. -/
theorem infix_of_lt
    (hSame :
      before ++ needle ++ after = before' ++ needle ++ after')
    (hLess : before.length < before'.length) :
    needle <:+: before' ++ needle.dropLast := by
  have hShort := append_dropLast_lead needle before' after'
  have hLong : before ++ needle <+: before' ++ needle ++ after' :=
    hSame ▸ List.prefix_append _ _
  have hLead : before ++ needle <+: before' ++ needle.dropLast := by
    refine List.prefix_of_prefix_length_le hLong hShort ?_
    simp only [List.length_append, List.length_dropLast]
    omega
  exact
    (List.suffix_append before needle).isInfix.trans
      hLead.isInfix

/- There is only one first occurrence. -/
theorem FirstAt.unique
    (hFirst : FirstAt needle before)
    (hFirst' : FirstAt needle before')
    (hSame :
      before ++ needle ++ after = before' ++ needle ++ after') :
    before = before' := by
  have hLength : before.length = before'.length := by
    rcases Nat.lt_trichotomy before.length before'.length with
      hLess | hEq | hMore
    · exact absurd (infix_of_lt hSame hLess) hFirst'
    · exact hEq
    · exact absurd (infix_of_lt hSame.symm hMore) hFirst
  rw [List.append_assoc, List.append_assoc] at hSame
  exact (List.append_inj hSame hLength).1

------------------------------------------------------------
-- Searching
------------------------------------------------------------

/- What is not found does not occur. -/
theorem find?_eq_none_iff (hSome : needle ≠ []) :
    find? needle cs = none ↔ ¬ needle <:+: cs := by
  induction cs with
  | nil => simp [find?, hSome]
  | cons c cs ih =>
      rw [find?, List.infix_cons_iff, not_or, ← ih,
        ← startsWith_iff]
      split
      · next hStarts => simp [hStarts]
      · next hOther => simp [hOther]

/- What is found occurs there first. -/
theorem firstAt_of_find?
    (hSome : needle ≠ [])
    {n : Nat}
    (hFound : find? needle cs = some n) :
    ∃ before after,
      cs = before ++ needle ++ after ∧ before.length = n ∧
        FirstAt needle before := by
  induction cs generalizing n with
  | nil => simp [find?, hSome] at hFound
  | cons c cs ih =>
      rw [find?] at hFound
      split at hFound
      · next hStarts =>
          cases hFound
          rcases startsWith_iff.mp hStarts with ⟨after, hText⟩
          refine ⟨[], after, hText.symm, rfl, ?_⟩
          intro hInfix
          have hLength := hInfix.length_le
          have hPos := List.length_pos_iff.mpr hSome
          simp only [List.nil_append, List.length_dropLast]
            at hLength
          omega
      · next hOther =>
          rcases Option.map_eq_some_iff.mp hFound with
            ⟨m, hLater, rfl⟩
          rcases ih hLater with
            ⟨before, after, rfl, rfl, hFirst⟩
          refine ⟨c :: before, after, rfl, rfl, ?_⟩
          intro hInfix
          rcases List.infix_cons_iff.mp hInfix with
            hHere | hLater
          · exact
              hOther
                (startsWith_iff.mpr
                  (hHere.trans
                    (append_dropLast_lead needle (c :: before)
                      after)))
          · exact hFirst hLater

/- Searching finds the first occurrence. -/
theorem find?_eq_some_iff
    (hSome : needle ≠ [])
    {n : Nat} :
    find? needle cs = some n ↔
      ∃ before after,
        cs = before ++ needle ++ after ∧ before.length = n ∧
          FirstAt needle before := by
  refine ⟨firstAt_of_find? hSome, ?_⟩
  rintro ⟨before, after, rfl, rfl, hFirst⟩
  cases hFound : find? needle (before ++ needle ++ after) with
  | none =>
      exact
        absurd ⟨before, after, rfl⟩
          ((find?_eq_none_iff hSome).mp hFound)
  | some m =>
      rcases firstAt_of_find? hSome hFound with
        ⟨before', after', hSame, rfl, hFirst'⟩
      rw [hFirst.unique hFirst' hSame]

/- A character is found if and only if it occurs. -/
theorem findChar?_eq_none_iff {c : Char} :
    findChar? c cs = none ↔ c ∉ cs := by
  unfold findChar?
  rw [List.findIdx?_eq_none_iff]
  constructor
  · intro hOther hMem
    simpa using hOther c hMem
  · intro hNone d hd
    exact beq_eq_false_iff_ne.mpr (fun hSame => hNone (hSame ▸ hd))

/- The first occurrence of a character has none before it. -/
theorem findChar?_eq_some_iff
    {c : Char}
    {n : Nat} :
    findChar? c cs = some n ↔
      ∃ before after,
        cs = before ++ c :: after ∧ before.length = n ∧
          c ∉ before := by
  unfold findChar?
  induction cs generalizing n with
  | nil => simp
  | cons d cs ih =>
      rw [List.findIdx?_cons]
      by_cases hHere : d = c
      · subst hHere
        rw [if_pos (beq_self_eq_true d), Option.some.injEq]
        constructor
        · rintro rfl
          exact ⟨[], cs, rfl, rfl, List.not_mem_nil⟩
        · rintro ⟨before, after, hText, rfl, hNone⟩
          cases before with
          | nil => rfl
          | cons e before =>
              rw [List.cons_append, List.cons.injEq] at hText
              exact absurd (by simp [hText.1]) hNone
      · rw [if_neg (by simpa using hHere),
          Option.map_eq_some_iff]
        constructor
        · rintro ⟨m, hFound, rfl⟩
          rcases ih.mp hFound with
            ⟨before, after, rfl, rfl, hNone⟩
          refine ⟨d :: before, after, rfl, rfl, ?_⟩
          simp [hNone, Ne.symm hHere]
        · rintro ⟨before, after, hText, rfl, hNone⟩
          cases before with
          | nil =>
              rw [List.nil_append, List.cons.injEq] at hText
              exact absurd hText.1 hHere
          | cons e before =>
              rw [List.cons_append, List.cons.injEq] at hText
              refine
                ⟨before.length,
                  ih.mpr ⟨before, after, hText.2, rfl, ?_⟩,
                  rfl⟩
              exact fun hMem =>
                hNone (List.mem_cons_of_mem e hMem)

------------------------------------------------------------
-- Replacing
------------------------------------------------------------

/- What belongs to the last occurrence is skipped. -/
theorem replaceAfter_append
    (needle fresh before after : List Char) :
    replaceAfter needle fresh before.length (before ++ after) =
      replace needle fresh after := by
  induction before with
  | nil => rfl
  | cons c before ih => exact ih

/- An occurrence at the start is replaced. -/
theorem replace_append
    (hSome : needle ≠ [])
    (fresh after : List Char) :
    replace needle fresh (needle ++ after) =
      fresh ++ replace needle fresh after := by
  cases needle with
  | nil => exact absurd rfl hSome
  | cons p needle =>
      have hStarts :
          startsWith (p :: needle) (p :: (needle ++ after)) =
            true :=
        startsWith_iff.mpr (List.prefix_append _ _)
      rw [replace, List.cons_append, replaceAfter, hStarts,
        if_pos rfl]
      exact
        congrArg (fresh ++ ·)
          (replaceAfter_append (p :: needle) fresh needle after)

/- A character stays if no occurrence starts there. -/
theorem replace_cons
    {c : Char}
    {cs : List Char}
    (hOther : ¬ needle <+: c :: cs)
    (fresh : List Char) :
    replace needle fresh (c :: cs) =
      c :: replace needle fresh cs := by
  have hStarts : ¬ startsWith needle (c :: cs) = true :=
    fun hStarts => hOther (startsWith_iff.mp hStarts)
  rw [replace, replaceAfter, if_neg hStarts]
  rfl

/- So do characters with none of which an occurrence starts. -/
theorem replace_apart
    {before after : List Char}
    (hOther : ∀ left right, before = left ++ right →
      right ≠ [] → ¬ needle <+: right ++ after)
    (fresh : List Char) :
    replace needle fresh (before ++ after) =
      before ++ replace needle fresh after := by
  induction before with
  | nil => rfl
  | cons c before ih =>
      have hFirst : ¬ needle <+: c :: (before ++ after) :=
        hOther [] (c :: before) rfl (List.cons_ne_nil c before)
      rw [List.cons_append, replace_cons hFirst,
        ih
          (fun left right hSplit =>
            hOther (c :: left) right (by rw [hSplit]; rfl)),
        List.cons_append]

end Dialectic.Text
