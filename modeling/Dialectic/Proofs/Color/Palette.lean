import Dialectic.Color.Assignment
import Mathlib.Data.List.Nodup

/-
  Which color each tag has: one of its own, or the next one of
  the scheme, whose colors are used in turn.  So the color of a
  tag depends on the tags before it, and not on later ones.

  Key definitions include:
    * `ColorSettings.schemeColor?`
    * `ColorSettings.uncolored`
    * `ColorSettings.colorAfter?`
    * `ColorSettings.DifferOnlyAt`

  Main theorems:
    * `ColorSettings.tagEntriesFrom_append`
    * `ColorSettings.lookup_tagEntries`
    * `ColorSettings.tagEntries_colors`
-/

namespace Dialectic

------------------------------------------------------------
-- Entries
------------------------------------------------------------

namespace ColorEntry

/- The color of a key is that of the first entry for it. -/
theorem lookup_append
    (entries more : List ColorEntry)
    (key : String) :
    lookup (entries ++ more) key =
      (lookup entries key).or (lookup more key) := by
  unfold lookup
  rw [List.find?_append, Option.map_or]

/- A key without an entry has no color. -/
theorem lookup_eq_none
    {entries : List ColorEntry}
    {key : String}
    (hNone : key ∉ entries.map ColorEntry.key) :
    lookup entries key = none := by
  unfold lookup
  rw [Option.map_eq_none_iff, List.find?_eq_none]
  intro e he hKey
  exact hNone (List.mem_map.mpr ⟨e, he, by simpa using hKey⟩)

end ColorEntry

namespace ColorSettings

variable {settings changed : ColorSettings}

------------------------------------------------------------
-- Colors
------------------------------------------------------------

/-
  The color of the scheme for the next tag, if there is one.
-/
def schemeColor? (settings : ColorSettings) (next : Nat) :
    Option String :=
  settings.colorScheme[next % settings.colorScheme.length]?

/- The number of tags without a color of their own. -/
def uncolored
    (settings : ColorSettings)
    (tags : List String) : Nat :=
  tags.countP (fun tag => (settings.tagColors.lookup tag).isNone)

/-
  The color of a tag when a number of colors of the scheme
  were used.
-/
def colorAfter?
    (settings : ColorSettings)
    (next : Nat)
    (tag : String) : Option String :=
  (settings.tagColors.lookup tag).or (settings.schemeColor? next)

/- A tag has a color of its own, or there is a scheme. -/
def colors (settings : ColorSettings) (tag : String) : Bool :=
  (settings.tagColors.lookup tag).isSome ||
    !settings.colorScheme.isEmpty

/-
  Settings have the same scheme, and give the same colors to
  all tags but one.
-/
structure DifferOnlyAt
    (settings changed : ColorSettings)
    (tag : String) : Prop where
  colorScheme : changed.colorScheme = settings.colorScheme
  tagColors : ∀ other, other ≠ tag →
    changed.tagColors.lookup other =
      settings.tagColors.lookup other

/- A scheme gives a color to each tag, unless it is empty. -/
theorem schemeColor?_eq_some
    (hScheme : 0 < settings.colorScheme.length)
    (next : Nat) :
    settings.schemeColor? next =
      some (settings.colorScheme.get
        ⟨next % settings.colorScheme.length,
          Nat.mod_lt _ hScheme⟩) := by
  simp [schemeColor?, Nat.mod_lt _ hScheme]

/- Without a scheme no tag gets a color from it. -/
theorem schemeColor?_eq_none_iff {next : Nat} :
    settings.schemeColor? next = none ↔
      settings.colorScheme = [] := by
  constructor
  · intro hNone
    by_contra hScheme
    rw [schemeColor?_eq_some
      (List.length_pos_iff.mpr hScheme)] at hNone
    cases hNone
  · intro hEmpty
    simp [schemeColor?, hEmpty]

/- Tags have a color just if one is found for them. -/
theorem isSome_colorAfter?
    (next : Nat)
    (tag : String) :
    (settings.colorAfter? next tag).isSome =
      settings.colors tag := by
  unfold colorAfter? colors
  rw [Option.isSome_or]
  congr 1
  cases hNext : settings.schemeColor? next with
  | none => simp [schemeColor?_eq_none_iff.mp hNext]
  | some color =>
      have hScheme : settings.colorScheme ≠ [] := by
        intro hEmpty
        rw [schemeColor?_eq_none_iff.mpr hEmpty] at hNext
        cases hNext
      simp [hScheme]

------------------------------------------------------------
-- One Tag after Another
------------------------------------------------------------

/- Without a scheme it does not matter what was used of it. -/
theorem tagEntriesFrom_of_empty
    (hEmpty : settings.colorScheme = [])
    (next other : Nat)
    (tags : List String) :
    tagEntriesFrom settings next tags =
      tagEntriesFrom settings other tags := by
  induction tags with
  | nil => rfl
  | cons tag tags ih =>
      simp only [tagEntriesFrom, hEmpty, List.getElem?_nil]
      cases settings.tagColors.lookup tag with
      | none => exact ih
      | some color => exact congrArg (_ :: ·) ih

/-
  The first tag has its color, and the scheme goes on if that
  is not a color of its own.
-/
theorem tagEntriesFrom_cons
    (next : Nat)
    (tag : String)
    (tags : List String) :
    tagEntriesFrom settings next (tag :: tags) =
      ((settings.colorAfter? next tag).map
          (ColorEntry.mk tag)).toList
        ++ tagEntriesFrom settings
          (next + settings.uncolored [tag]) tags := by
  cases hOwn : settings.tagColors.lookup tag with
  | some color =>
      simp [tagEntriesFrom, colorAfter?, uncolored, hOwn]
  | none =>
      cases hNext : settings.schemeColor? next with
      | some color =>
          have hHere := hNext
          unfold schemeColor? at hHere
          simp [tagEntriesFrom, colorAfter?, uncolored, hOwn,
            hHere, hNext]
      | none =>
          have hHere := hNext
          unfold schemeColor? at hHere
          simp only [tagEntriesFrom, hOwn, hHere, colorAfter?,
            hNext, Option.or_none, Option.map_none,
            Option.toList_none, List.nil_append]
          exact
            tagEntriesFrom_of_empty
              (schemeColor?_eq_none_iff.mp hNext) _ _ _

/-
  Later tags get their colors after those for earlier ones,
  and go on in the scheme where these ended.
-/
theorem tagEntriesFrom_append
    (next : Nat)
    (earlier later : List String) :
    tagEntriesFrom settings next (earlier ++ later) =
      tagEntriesFrom settings next earlier
        ++ tagEntriesFrom settings
          (next + settings.uncolored earlier) later := by
  induction earlier generalizing next with
  | nil => simp [tagEntriesFrom, uncolored]
  | cons tag earlier ih =>
      have hCount :
          settings.uncolored (tag :: earlier) =
            settings.uncolored [tag]
              + settings.uncolored earlier := by
        rw [← List.singleton_append, uncolored,
          List.countP_append]
        rfl
      rw [List.cons_append, tagEntriesFrom_cons,
        tagEntriesFrom_cons, ih, hCount, List.append_assoc,
        Nat.add_assoc]

/- The tags that get colors, in their order. -/
theorem map_key_tagEntriesFrom
    (next : Nat)
    (tags : List String) :
    (tagEntriesFrom settings next tags).map ColorEntry.key =
      tags.filter settings.colors := by
  induction tags generalizing next with
  | nil => rfl
  | cons tag tags ih =>
      have hColored := settings.isSome_colorAfter? next tag
      rw [tagEntriesFrom_cons, List.map_append, ih,
        List.filter_cons, ← hColored]
      cases settings.colorAfter? next tag <;> simp

/-
  The color of a tag where it comes first: the scheme was used
  for all tags before it that have no color of their own.
-/
theorem lookup_tagEntries
    {earlier : List String}
    {tag : String}
    (hFirst : tag ∉ earlier)
    (later : List String) :
    ColorEntry.lookup
        (settings.tagEntries (earlier ++ tag :: later)) tag =
      settings.colorAfter? (settings.uncolored earlier) tag := by
  have hEarlier :
      ColorEntry.lookup (tagEntriesFrom settings 0 earlier) tag =
        none := by
    apply ColorEntry.lookup_eq_none
    rw [map_key_tagEntriesFrom]
    exact fun hMem => hFirst (List.mem_of_mem_filter hMem)
  rw [tagEntries, tagEntriesFrom_append, ColorEntry.lookup_append,
    hEarlier, Option.none_or, Nat.zero_add, tagEntriesFrom_cons,
    ColorEntry.lookup_append]
  cases hColor :
      settings.colorAfter? (settings.uncolored earlier) tag with
  | some color => simp [ColorEntry.lookup]
  | none =>
      -- then the tag never gets a color, wherever it comes again
      have hNone : settings.colors tag = false := by
        rw [← settings.isSome_colorAfter?
          (settings.uncolored earlier) tag, hColor]
        rfl
      have hLater (next : Nat) :
          ColorEntry.lookup (tagEntriesFrom settings next later)
            tag = none := by
        apply ColorEntry.lookup_eq_none
        rw [map_key_tagEntriesFrom]
        simp [hNone]
      rw [hLater]
      rfl

------------------------------------------------------------
-- Stability
------------------------------------------------------------

/- A color for one tag does not matter for tags before it. -/
theorem DifferOnlyAt.colorAfter?_uncolored
    {tag : String}
    (hDiffer : settings.DifferOnlyAt changed tag)
    {earlier : List String}
    {other : String}
    (hOther : other ≠ tag)
    (hEarlier : tag ∉ earlier) :
    changed.colorAfter? (changed.uncolored earlier) other =
      settings.colorAfter? (settings.uncolored earlier)
        other := by
  have hCount :
      changed.uncolored earlier = settings.uncolored earlier := by
    apply List.countP_congr
    intro t ht
    rw [hDiffer.tagColors t (fun hSame => hEarlier (hSame ▸ ht))]
  rw [colorAfter?, colorAfter?, schemeColor?, schemeColor?,
    hDiffer.tagColors other hOther, hDiffer.colorScheme, hCount]

/-
  Distinct tags get colors in their order, each one that has a
  color of its own, and all if there is a scheme.  A tag has its
  own color, or the one of the scheme whose turn it is after the
  earlier tags without own colors.  A color for one tag leaves
  the colors of the tags before it as they are, and so do more
  tags after all others.
-/
theorem tagEntries_colors
    (settings : ColorSettings)
    {tags : List String}
    (hUnique : tags.Nodup) :
    (settings.tagEntries tags).map ColorEntry.key =
        tags.filter (fun tag =>
          (settings.tagColors.lookup tag).isSome ||
            !settings.colorScheme.isEmpty) ∧
      (∀ earlier tag later, tags = earlier ++ tag :: later →
        (∀ color, settings.tagColors.lookup tag = some color →
          ColorEntry.lookup (settings.tagEntries tags) tag =
            some color) ∧
          (settings.tagColors.lookup tag = none →
            ∀ hScheme : 0 < settings.colorScheme.length,
              ColorEntry.lookup (settings.tagEntries tags) tag =
                some (settings.colorScheme.get
                  ⟨settings.uncolored earlier
                      % settings.colorScheme.length,
                    Nat.mod_lt _ hScheme⟩)) ∧
          ∀ changed : ColorSettings,
            settings.DifferOnlyAt changed tag →
              ∀ other ∈ earlier,
                ColorEntry.lookup (changed.tagEntries tags)
                    other =
                  ColorEntry.lookup (settings.tagEntries tags)
                    other) ∧
      ∀ more, ∀ tag ∈ tags,
        ColorEntry.lookup (settings.tagEntries (tags ++ more))
            tag =
          ColorEntry.lookup (settings.tagEntries tags) tag := by
  have hFirst : ∀ {earlier tag later},
      tags = earlier ++ tag :: later → tag ∉ earlier := by
    rintro earlier tag later rfl hMem
    exact
      (List.nodup_append.mp hUnique).2.2 tag hMem tag
        List.mem_cons_self rfl
  refine ⟨map_key_tagEntriesFrom 0 tags, ?_, ?_⟩
  · intro earlier tag later hSplit
    have hHere :
        ColorEntry.lookup (settings.tagEntries tags) tag =
          settings.colorAfter? (settings.uncolored earlier)
            tag := by
      rw [hSplit, lookup_tagEntries (hFirst hSplit)]
    refine ⟨?_, ?_, ?_⟩
    · intro color hOwn
      rw [hHere, colorAfter?, hOwn, Option.some_or]
    · intro hOwn hScheme
      rw [hHere, colorAfter?, hOwn, Option.none_or,
        schemeColor?_eq_some hScheme]
    · intro changed hDiffer other hOther
      have hNotLater := hFirst hSplit
      rcases List.append_of_mem hOther with
        ⟨before, after, rfl⟩
      rw [List.append_assoc, List.cons_append] at hSplit
      have hNew := hFirst hSplit
      rw [hSplit, lookup_tagEntries hNew, lookup_tagEntries hNew]
      apply hDiffer.colorAfter?_uncolored
      · exact fun hSame => hNotLater (hSame ▸ hOther)
      · exact fun hMem =>
          hNotLater (List.mem_append_left _ hMem)
  · intro more tag hMem
    rcases List.append_of_mem hMem with ⟨earlier, later, hSplit⟩
    have hNew := hFirst hSplit
    rw [hSplit, List.append_assoc, List.cons_append,
      lookup_tagEntries hNew, lookup_tagEntries hNew]

/- Settings with a scheme of two colors. -/
def twoColors (own : List (String × String)) : ColorSettings :=
  { standard with
    colorScheme := ["#1", "#2"]
    tagColors := own }

/-
  The second tag of four gets a color of its own: that of the
  first one stays, and the scheme goes on with the third.
-/
theorem tagEntries_colors_twoColors :
    ["a", "b", "c", "d"].Nodup ∧
      (twoColors []).DifferOnlyAt (twoColors [("b", "red")])
        "b" ∧
      ColorEntry.lookup
          ((twoColors [("b", "red")]).tagEntries
            ["a", "b", "c", "d"]) "a" =
        ColorEntry.lookup
          ((twoColors []).tagEntries ["a", "b", "c", "d"])
          "a" ∧
      ColorEntry.lookup
          ((twoColors [("b", "red")]).tagEntries
            ["a", "b", "c", "d"]) "b" = some "red" ∧
      ColorEntry.lookup
          ((twoColors [("b", "red")]).tagEntries
            ["a", "b", "c", "d"]) "d" = some "#1" := by
  have hUnique : ["a", "b", "c", "d"].Nodup := by decide
  have hDiffer :
      (twoColors []).DifferOnlyAt (twoColors [("b", "red")])
        "b" := by
    refine ⟨rfl, fun other hOther => ?_⟩
    simp [twoColors, beq_false_of_ne hOther]
  have hPlain := tagEntries_colors (twoColors []) hUnique
  have hOwn :=
    tagEntries_colors (twoColors [("b", "red")]) hUnique
  refine ⟨hUnique, hDiffer, ?_, ?_, ?_⟩
  · exact
      (hPlain.2.1 ["a"] "b" ["c", "d"] rfl).2.2 _ hDiffer "a"
        List.mem_cons_self
  · exact (hOwn.2.1 ["a"] "b" ["c", "d"] rfl).1 "red" rfl
  · exact
      (hOwn.2.1 ["a", "b", "c"] "d" [] rfl).2.1 rfl
        (by decide)

end ColorSettings

end Dialectic
