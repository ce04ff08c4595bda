import Dialectic.Proofs.Data.Layer
import Dialectic.Proofs.Pipeline.Overlay

/-
  Front matter that is laid over a request again changes none
  of the configured spaces.

  Key definitions include:
    * `Request.Settled`

  Main theorems:
    * `Request.configured?_overlay`
    * `Request.settled_overlay`
    * `Request.resolve_congr`
-/

namespace Dialectic

namespace Request

/-
  A request is settled if laying front matter over it fails or
  leaves the configured spaces as they are.
-/
def Settled
    (r : Request)
    (frontMatter : Option Record) : Prop :=
  ∀ fields next,
    frontMatter = some fields →
      overlay fields r = (.ok (), next) →
        ∀ space ∉ fieldNames,
          next.configured? space = r.configured? space

------------------------------------------------------------
-- Configured Spaces
------------------------------------------------------------

/- The fields of a request are in order. -/
theorem fields_inOrder (r : Request) : r.fields.InOrder :=
  Record.inOrder_extend
    (Record.inOrder_extend List.Pairwise.nil _) _

/- The value of a space whose configuration is in order. -/
theorem get?_fields
    {r : Request}
    (hOrder : r.raw.InOrder)
    {space : String}
    (hSpace : space ∉ fieldNames) :
    Record.get? r.fields space = r.configured? space := by
  unfold fields configured?
  cases hFound : Record.get? r.raw space with
  | some value => exact Record.get?_extend_self _ hOrder hFound
  | none =>
      rw [Record.get?_extend_of_not_mem _
        ((Record.get?_eq_none_iff _ _).mp hFound)]
      apply Record.get?_extend_of_not_mem
      intro field hField hSame
      apply hSpace
      rw [← hSame]
      have hName := List.mem_map_of_mem (f := Prod.fst) hField
      simpa [fieldNames, Selection.Filters.toFields,
        Selection.Filters.fieldNames] using hName

/- A space that front matter has come to be laid over. -/
theorem configured?_overlay
    {r next : Request}
    {frontMatter : Record}
    (hOverlay : overlay frontMatter r = (.ok (), next)) :
    next.raw = r.raw ∧ (changes frontMatter).isEmpty ∨
      next.raw.InOrder ∧
        ∀ space ∉ fieldNames,
          next.configured? space =
            Record.get? (r.layered frontMatter) space := by
  rcases overlay_ok hOverlay with
    ⟨hEmpty, rfl⟩ | ⟨read, hRead, rfl⟩
  · exact Or.inl ⟨rfl, hEmpty⟩
  · rcases ofValue?_some hRead with
      ⟨given, hGiven, _, _, hRaw⟩
    cases hGiven
    right
    simp only [configured?, hRaw]
    constructor
    · apply Record.inOrder_filter
      exact Value.inOrder_layFieldsOver _ _ r.fields_inOrder
    · intro space hSpace
      apply Record.get?_filter _
        (fun name => !fieldNames.contains name)
      simpa using hSpace

------------------------------------------------------------
-- Settling
------------------------------------------------------------

/- Without front matter every request is settled. -/
theorem settled_none (r : Request) : r.Settled none :=
  fun _ _ hFields => nomatch hFields

/- A request that front matter cannot change is settled. -/
theorem settled_of_error
    {r next : Request}
    {frontMatter : Record}
    {failure : Failure}
    (hOverlay : overlay frontMatter r = (.error failure, next)) :
    r.Settled (some frontMatter) := by
  intro fields next hFields hNext
  cases hFields
  rw [hOverlay] at hNext
  cases hNext

/- A request over which front matter was laid is settled. -/
theorem settled_overlay
    {r next : Request}
    {frontMatter : Record}
    (hOrder : (Value.record frontMatter).InOrder)
    (hOverlay : overlay frontMatter r = (.ok (), next)) :
    next.Settled (some frontMatter) := by
  intro fields last hFields hLast space hSpace
  cases hFields
  rcases configured?_overlay hLast with
    ⟨hSame, _⟩ | ⟨_, hAgain⟩
  · simp only [configured?, hSame]
  rcases configured?_overlay hOverlay with
    ⟨_, hEmpty⟩ | ⟨hRaw, hOnce⟩
  · have hIdle : overlay frontMatter next = (.ok (), next) := by
      rw [overlay_apply, if_pos hEmpty]
    rw [hIdle] at hLast
    cases hLast
    rfl
  cases hOrder with
  | record _ hKeys hValues =>
      have hChanges : (changes frontMatter).InOrder :=
        Record.inOrder_filter hKeys _
      have hBelow := get?_fields hRaw hSpace
      rw [hAgain space hSpace]
      unfold layered
      cases hTop :
        Record.get? (changes frontMatter) space with
      | none =>
          rw [Value.get?_layFieldsOver_of_none _ _ _ hTop]
          exact hBelow
      | some value =>
          have hField := Record.mem_of_get? hTop
          have hValue : value.InOrder :=
            hValues _ (List.mem_filter.mp hField).1
          have hFirst := hOnce space hSpace
          unfold layered at hFirst
          rw [Value.get?_layFieldsOver_of_mem hChanges _ _
            hField] at hFirst ⊢
          rw [hBelow, hFirst, Option.getD_some,
            Value.layOver_layOver hValue]

/- What was prepared does not matter for being settled. -/
theorem Settled.of_raw
    {r : Request}
    {frontMatter : Option Record}
    (hSettled : r.Settled frontMatter)
    (isCancelled : Bool)
    (prepared : PreparedSettings) :
    Request.Settled
      { r with isCancelled := isCancelled, prepared := prepared }
      frontMatter := by
  intro fields next hFields hNext space hSpace
  have hSame :
      overlay fields
          { r with
            isCancelled := isCancelled
            prepared := prepared } =
        ( (overlay fields r).1,
          { (overlay fields r).2 with
            isCancelled := isCancelled
            prepared := prepared } ) := by
    rw [overlay_apply, overlay_apply]
    split
    · rfl
    · simp only [layered, Request.fields]
      split <;> rfl
  rw [hSame] at hNext
  rcases hOverlay : overlay fields r with ⟨result, last⟩
  rw [hOverlay] at hNext
  cases hNext
  exact hSettled fields last hFields hOverlay space hSpace

/- Equal configurations are read as equal settings. -/
theorem resolve_congr
    {σ : Type}
    {r next : Request}
    {space : SettingsSpace σ}
    (hSame :
      next.configured? space.name = r.configured? space.name)
    (defaults : σ) :
    next.resolve space defaults = r.resolve space defaults := by
  unfold resolve
  rw [hSame]

end Request

end Dialectic
