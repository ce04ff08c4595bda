import Dialectic.Proofs.Text.Squeezing
import Dialectic.Text.Search
import Mathlib.Data.List.Basic

/-
  Texts that differ only in how many spaces are at their end:
  one, or two.  What does not look at that end does not tell
  them apart, and neither does what trims or squeezes it away.

  Key definitions include:
    * `Text.SqueezedAlike`
    * `Text.Padded`

  Main theorems:
    * `Text.SqueezedAlike.append`
    * `Text.eq_append_of_stripPrefix?`
    * `Text.Padded.takeWhile`, `Text.Padded.dropWhile`
    * `Text.Padded.stripPrefix?`
    * `Text.Padded.findChar?`
    * `Text.Padded.trimEnd`
-/

namespace Dialectic.Text

------------------------------------------------------------
-- Squeezed Texts
------------------------------------------------------------

/- Texts that squeezing makes equal wherever they stand. -/
def SqueezedAlike (a b : List Char) : Prop :=
  ∀ before after,
    squeeze (before ++ a ++ after) =
      squeeze (before ++ b ++ after)

namespace SqueezedAlike

variable {a b c d : List Char}

/- A text is alike itself. -/
theorem refl (a : List Char) : SqueezedAlike a a :=
  fun _ _ => rfl

/- Texts that are alike are so the other way round. -/
theorem symm (hAlike : SqueezedAlike a b) :
    SqueezedAlike b a :=
  fun before after => (hAlike before after).symm

/- Texts that are alike are so one after the other. -/
theorem append
    (hFirst : SqueezedAlike a b)
    (hSecond : SqueezedAlike c d) :
    SqueezedAlike (a ++ c) (b ++ d) := by
  intro before after
  calc
    squeeze (before ++ (a ++ c) ++ after) =
        squeeze (before ++ a ++ (c ++ after)) := by
      simp only [List.append_assoc]
    _ = squeeze (before ++ b ++ (c ++ after)) :=
      hFirst before (c ++ after)
    _ = squeeze ((before ++ b) ++ c ++ after) := by
      simp only [List.append_assoc]
    _ = squeeze ((before ++ b) ++ d ++ after) :=
      hSecond (before ++ b) after
    _ = squeeze (before ++ (b ++ d) ++ after) := by
      simp only [List.append_assoc]

/- Texts that are alike are equal when they are squeezed. -/
theorem squeeze_eq (hAlike : SqueezedAlike a b) :
    squeeze a = squeeze b := by
  simpa using hAlike [] []

end SqueezedAlike

/- A second space between words does not matter. -/
theorem squeezedAlike_spaces :
    SqueezedAlike [' '] [' ', ' '] := by
  intro before after
  have hBlank : isBlank ' ' = true := rfl
  simp only [squeeze, List.append_assoc, List.cons_append,
    List.nil_append, words_append_blank hBlank,
    words_cons_blank hBlank]

------------------------------------------------------------
-- Leads
------------------------------------------------------------

/- A text starts with what is there up to what follows. -/
theorem startsWith_iff {lead cs : List Char} :
    startsWith lead cs = true ↔ lead <+: cs := by
  unfold startsWith
  induction lead generalizing cs with
  | nil => simp [stripPrefix?]
  | cons p lead ih =>
      cases cs with
      | nil => simp [stripPrefix?]
      | cons c cs =>
          rw [stripPrefix?, List.cons_prefix_cons]
          split
          · next hSame => simp [hSame, ih]
          · next hOther => simp [hOther]

/- A text consists of what it starts with and what follows. -/
theorem eq_append_of_stripPrefix?
    {lead cs after : List Char}
    (hAfter : stripPrefix? lead cs = some after) :
    cs = lead ++ after := by
  induction lead generalizing cs with
  | nil => exact Option.some.inj hAfter
  | cons p lead ih =>
      cases cs with
      | nil => cases hAfter
      | cons c cs =>
          simp only [stripPrefix?] at hAfter
          split at hAfter
          · next hSame => rw [hSame, ih hAfter, List.cons_append]
          · cases hAfter

------------------------------------------------------------
-- Padded Texts
------------------------------------------------------------

/- The same text, or one with a second space at its end. -/
inductive Padded : List Char → List Char → Prop where
| nil : Padded [] []
| space : Padded [' '] [' ', ' ']
| cons
    (c : Char)
    {cs cs' : List Char}
    (hRest : Padded cs cs') :
    Padded (c :: cs) (c :: cs')

namespace Padded

variable {cs cs' : List Char}

/- A text may be the same. -/
theorem refl (cs : List Char) : Padded cs cs := by
  induction cs with
  | nil => exact .nil
  | cons c cs ih => exact .cons c ih

/- The same text may stand before. -/
theorem append
    (before : List Char)
    (hPadded : Padded cs cs') :
    Padded (before ++ cs) (before ++ cs') := by
  induction before with
  | nil => exact hPadded
  | cons c before ih => exact .cons c ih

/- The texts are the same up to the spaces at their ends. -/
theorem cases_end (hPadded : Padded cs cs') :
    cs' = cs ∨
      ∃ before, cs = before ++ [' '] ∧
        cs' = before ++ [' ', ' '] := by
  induction hPadded with
  | nil => exact .inl rfl
  | space => exact .inr ⟨[], rfl, rfl⟩
  | cons c _ ih =>
      rcases ih with rfl | ⟨before, rfl, rfl⟩
      · exact .inl rfl
      · exact .inr ⟨c :: before, rfl, rfl⟩

/- Both texts start alike. -/
theorem head? (hPadded : Padded cs cs') :
    cs'.head? = cs.head? := by
  cases hPadded <;> rfl

/- Both texts are at a break, or none is. -/
theorem atBreak (hPadded : Padded cs cs') :
    Text.atBreak cs' = Text.atBreak cs := by
  cases hPadded <;> rfl

/- Both texts are blank, or none is. -/
theorem allBlank (hPadded : Padded cs cs') :
    Text.allBlank cs' = Text.allBlank cs := by
  rcases hPadded.cases_end with rfl | ⟨before, rfl, rfl⟩
  · rfl
  · simp [Text.allBlank]

/- A second space at the end is trimmed away. -/
theorem trimEnd (hPadded : Padded cs cs') :
    Text.trimEnd cs' = Text.trimEnd cs := by
  have hBlank : isBlank ' ' = true := rfl
  rcases hPadded.cases_end with rfl | ⟨before, rfl, rfl⟩
  · rfl
  · simp [Text.trimEnd, dropEndWhile, hBlank]

------------------------------------------------------------
-- Taking and Dropping
------------------------------------------------------------

/- The same is taken if it ends before the spaces. -/
theorem takeWhile
    (hPadded : Padded cs cs')
    {p : Char → Bool}
    (hEnds : p ' ' = false ∨ ∃ c ∈ cs, p c = false) :
    cs'.takeWhile p = cs.takeWhile p := by
  induction hPadded with
  | nil => rfl
  | space =>
      have hSpace : p ' ' = false := by simpa using hEnds
      simp [hSpace]
  | cons c hRest ih =>
      rw [List.takeWhile_cons, List.takeWhile_cons]
      cases hTaken : p c with
      | false => rfl
      | true =>
          have hLater : p ' ' = false ∨ ∃ d ∈ _, p d = false :=
            hEnds.imp_right
              (fun ⟨d, hd, hNot⟩ =>
                ⟨d, (List.mem_cons.mp hd).resolve_left
                  (fun hSame => by simp [hSame, hTaken] at hNot),
                  hNot⟩)
          simp only [if_true, ih hLater]

/- What is left is padded alike. -/
theorem dropWhile
    (hPadded : Padded cs cs')
    (p : Char → Bool) :
    Padded (cs.dropWhile p) (cs'.dropWhile p) := by
  induction hPadded with
  | nil => exact .nil
  | space =>
      cases hDropped : p ' ' with
      | false => simpa [hDropped] using Padded.space
      | true => simpa [hDropped] using Padded.nil
  | cons c hRest ih =>
      rw [List.dropWhile_cons, List.dropWhile_cons]
      split
      · exact ih
      · exact .cons c hRest

/- What is left behind characters that are taken is, too. -/
theorem drop_takeWhile
    (hPadded : Padded cs cs')
    (p : Char → Bool) :
    Padded (cs.drop (cs.takeWhile p).length)
      (cs'.drop (cs'.takeWhile p).length) := by
  have hDrop : ∀ cs : List Char,
      cs.drop (cs.takeWhile p).length = cs.dropWhile p := by
    intro cs
    have hParts :=
      congrArg (List.drop (cs.takeWhile p).length)
        (List.takeWhile_append_dropWhile (p := p) (l := cs))
    rw [List.drop_left] at hParts
    exact hParts.symm
  rw [hDrop, hDrop]
  exact hPadded.dropWhile p

/- What is left behind one character is, unless it is all. -/
theorem tail
    (hPadded : Padded cs cs')
    (hMore : cs ≠ [' ']) :
    Padded cs.tail cs'.tail := by
  cases hPadded with
  | nil => exact .nil
  | space => exact absurd rfl hMore
  | cons c hRest => exact hRest

------------------------------------------------------------
-- Searching
------------------------------------------------------------

/- Both texts start with a text without spaces, or none. -/
theorem stripPrefix?
    {lead : List Char}
    (hLead : ' ' ∉ lead)
    (hPadded : Padded cs cs') :
    Option.Rel Padded (Text.stripPrefix? lead cs)
      (Text.stripPrefix? lead cs') := by
  induction hPadded generalizing lead with
  | nil => cases lead <;> simp [Text.stripPrefix?, Padded.nil]
  | space =>
      cases lead with
      | nil => exact .some .space
      | cons p lead =>
          have hOther : p ≠ ' ' :=
            fun hSame => hLead (by simp [hSame])
          simp [Text.stripPrefix?, hOther]
  | cons c hRest ih =>
      cases lead with
      | nil => exact .some (.cons c hRest)
      | cons p lead =>
          simp only [Text.stripPrefix?]
          split
          · exact
              ih (fun hMore => hLead (List.mem_cons_of_mem p hMore))
          · exact .none

/-
  Both texts start with a text whose only space is its last
  character, or none does.
-/
theorem startsWith
    {lead : List Char}
    (hLead : ' ' ∉ lead.dropLast)
    (hPadded : Padded cs cs') :
    Text.startsWith lead cs' = Text.startsWith lead cs := by
  unfold Text.startsWith
  induction hPadded generalizing lead with
  | nil => rfl
  | space =>
      rcases lead with _ | ⟨p, _ | ⟨q, lead⟩⟩
      · rfl
      · simp only [Text.stripPrefix?]
        split <;> rfl
      · have hOther : p ≠ ' ' :=
          fun hSame => hLead (by simp [hSame])
        simp only [Text.stripPrefix?, hOther, if_false]
  | cons c hRest ih =>
      rcases lead with _ | ⟨p, lead⟩
      · rfl
      · have hMore : ' ' ∉ lead.dropLast := by
          intro hMore
          apply hLead
          cases lead with
          | nil => cases hMore
          | cons q lead => exact List.mem_cons_of_mem p hMore
        simp only [Text.stripPrefix?]
        split
        · exact ih hMore
        · rfl

/-
  A character that is no space is found at the same place in
  both texts.  The same stands before it, and what follows it
  is padded alike.
-/
theorem findChar?
    {c : Char}
    (hChar : c ≠ ' ')
    (hPadded : Padded cs cs') :
    Text.findChar? c cs' = Text.findChar? c cs ∧
      ∀ n, Text.findChar? c cs = some n →
        cs'.take n = cs.take n ∧
          Padded (cs.drop (n + 1)) (cs'.drop (n + 1)) := by
  unfold Text.findChar?
  induction hPadded with
  | nil => simp
  | space => simp [List.findIdx?_cons, hChar.symm]
  | cons d hRest ih =>
      rcases ih with ⟨hSame, hFound⟩
      rw [List.findIdx?_cons, List.findIdx?_cons, hSame]
      cases hHere : d == c with
      | true =>
          refine ⟨rfl, fun n hn => ?_⟩
          simp only [if_true, Option.some.injEq] at hn
          subst hn
          exact ⟨rfl, hRest⟩
      | false =>
          refine ⟨rfl, fun n hn => ?_⟩
          simp only [Bool.false_eq_true, if_false,
            Option.map_eq_some_iff] at hn
          rcases hn with ⟨m, hm, rfl⟩
          rcases hFound m hm with ⟨hTake, hDrop⟩
          exact ⟨congrArg (d :: ·) hTake, hDrop⟩

end Padded

end Dialectic.Text
