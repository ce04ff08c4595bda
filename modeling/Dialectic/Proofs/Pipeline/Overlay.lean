import Dialectic.Pipeline.Plugin
import Dialectic.Proofs.Data.Record
import Mathlib.Data.Option.Basic

/-
  What reading a request, laying front matter over it and
  preparing settings keep.

  Key definitions include:
    * `Request.IsSeparate`
    * `Request.throwing`

  Main theorems:
    * `Request.isSeparate_of_ofValue?`
    * `Request.isSeparate_of_ofToml?`
    * `Request.overlay_apply`
    * `Request.overlay_ok`, `Request.overlay_error`
    * `Request.overlay_keeps`
    * `Request.overlay_throwing`
    * `Request.prepareWith_apply`
-/

namespace Dialectic

namespace Request

------------------------------------------------------------
-- Separate Requests
------------------------------------------------------------

/-
  The configured spaces are apart from the fields: none of
  them has the name of a field.
-/
def IsSeparate (r : Request) : Prop :=
  ∀ name ∈ fieldNames, Record.get? r.raw name = none

/- The request whose run ends with the first failure. -/
def throwing (r : Request) : Request :=
  { r with throwExceptions := true }

/- Messages are kept from the same level on. -/
@[simp]
theorem throwing_logLevel (r : Request) :
    r.throwing.logLevel = r.logLevel :=
  rfl

/- Failures end the run. -/
@[simp]
theorem throwing_throwExceptions (r : Request) :
    r.throwing.throwExceptions = true :=
  rfl

/- The settings of a space are the same. -/
@[simp]
theorem throwing_settings
    {σ : Type}
    (r : Request)
    (space : SettingsSpace σ) :
    r.throwing.settings space = r.settings space :=
  rfl

/- What is read from the fields of a record. -/
theorem ofValue?_some
    {value : Value}
    {r : Request}
    (hRead : ofValue? value = some r) :
    ∃ given,
      value = .record given ∧
        Decode.optional given "input" Decode.text =
          some r.input ∧
        Decode.withDefault given "throwExceptions" false
          Decode.flag = some r.throwExceptions ∧
        r.raw =
          given.filter
            (fun f => !fieldNames.contains f.1) := by
  cases value with
  | record given =>
      refine ⟨given, rfl, ?_⟩
      simp only [ofValue?, Decode.record, bind, pure,
        Option.bind_eq_some_iff, Option.some.injEq] at hRead
      rcases hRead with
        ⟨_, rfl, input, hInput, _, _, _, _, _, _, throws,
          hThrows, _, _, _, _, hRequest⟩
      subst hRequest
      exact ⟨hInput, hThrows, rfl⟩
  | _ => simp [ofValue?, Decode.record] at hRead

/- A request that is read from a value is separate. -/
theorem isSeparate_of_ofValue?
    {value : Value}
    {r : Request}
    (hRead : ofValue? value = some r) :
    r.IsSeparate := by
  rcases ofValue?_some hRead with ⟨given, _, _, _, hRaw⟩
  intro name hName
  rw [hRaw, Record.get?_eq_none_iff]
  intro field hField hSame
  have hOther := (List.mem_filter.mp hField).2
  rw [hSame] at hOther
  simp [hName] at hOther

/- A request that is read from TOML is separate. -/
theorem isSeparate_of_ofToml?
    [TomlReader]
    {text : String}
    {r : Request}
    (hRead : ofToml? text = some r) :
    r.IsSeparate := by
  have hValue : ∃ value, ofValue? value = some r := by
    simp only [ofToml?, bind, Option.bind_eq_some_iff]
      at hRead
    rcases hRead with ⟨given, _, _, _, hRead⟩
    cases hLevel : Record.get? given "logLevel" with
    | none => exact ⟨_, by simpa [hLevel] using hRead⟩
    | some level =>
        simp only [hLevel, Option.bind_eq_some_iff] at hRead
        rcases hRead with ⟨name, _, hRead⟩
        exact ⟨_, hRead⟩
  rcases hValue with ⟨value, hValue⟩
  exact isSeparate_of_ofValue? hValue

/- Configuring a space keeps a request separate. -/
theorem isSeparate_configure
    {r : Request}
    {space : String}
    (value : Value)
    (hSeparate : r.IsSeparate)
    (hSpace : space ∉ fieldNames) :
    (r.configure space value).IsSeparate := by
  intro name hName
  have hOther : space ≠ name := fun h => hSpace (h ▸ hName)
  calc
    Record.get? (r.configure space value).raw name =
        Record.get? r.raw name :=
      Record.get?_insert_ne r.raw value hOther
    _ = none := hSeparate name hName

------------------------------------------------------------
-- Fields
------------------------------------------------------------

/- The fields of the value of a request. -/
def fields (r : Request) : Record :=
  Record.extend
    (Record.ofList
      ([ ("input", .ofOption .text r.input),
        ("process",
          .ofOption ProcessChoice.toValue r.process),
        ("processes", processesValue r.processes),
        ("logLevel", .text r.logLevel.name) ]
        ++ ("throwExceptions", .flag r.throwExceptions)
          :: ("logExceptions", .flag r.logExceptions)
          :: r.filters.toFields))
    r.raw

/- The value of a request is a record of its fields. -/
theorem toValue_eq (r : Request) :
    r.toValue = .record r.fields :=
  rfl

/- The configured spaces have no name of a field. -/
theorem IsSeparate.not_mem
    {r : Request}
    (hSeparate : r.IsSeparate)
    {name : String}
    (hName : name ∈ fieldNames) :
    ∀ field ∈ r.raw, field.1 ≠ name :=
  (Record.get?_eq_none_iff r.raw name).mp
    (hSeparate name hName)

/- The value of the input of a separate request. -/
theorem get?_fields_input
    {r : Request}
    (hSeparate : r.IsSeparate) :
    Record.get? r.fields "input" =
      some (.ofOption .text r.input) := by
  unfold fields
  rw [Record.get?_extend_of_not_mem _
    (hSeparate.not_mem (by decide))]
  refine @Record.get?_ofList_value [] _ "input" _ ?_
  simp [Selection.Filters.toFields]

/- The flag of a separate request for ending with failures. -/
theorem get?_fields_throwExceptions
    {r : Request}
    (hSeparate : r.IsSeparate) :
    Record.get? r.fields "throwExceptions" =
      some (.flag r.throwExceptions) := by
  unfold fields
  rw [Record.get?_extend_of_not_mem _
    (hSeparate.not_mem (by decide))]
  apply Record.get?_ofList_value
  simp [Selection.Filters.toFields]

/- The fields of a request that ends with a failure. -/
theorem fields_throwing
    {r : Request}
    (hSeparate : r.IsSeparate) :
    r.throwing.fields =
      Record.assign r.fields "throwExceptions"
        (.flag true) := by
  unfold fields
  rw [Record.assign_extend _ _
    (hSeparate.not_mem (by decide)),
    Record.assign_ofList]
  · rfl
  · simp
  · simp [Selection.Filters.toFields]

/- Reading filters does not depend on fields of others. -/
theorem filters_assign
    (given : Record)
    {key : String}
    (value : Value)
    (hKey : key ∉ Selection.Filters.fieldNames) :
    Selection.Filters.ofFields? (Record.assign given key value) =
      Selection.Filters.ofFields? given := by
  have hKeep : ∀ {name},
      name ∈ Selection.Filters.fieldNames →
        Record.get? (Record.assign given key value) name =
          Record.get? given name := by
    intro name hName
    apply Record.get?_assign_ne
    intro hSame
    exact hKey (hSame ▸ hName)
  simp only [Selection.Filters.ofFields?, Decode.optional,
    Decode.withDefault]
  repeat rw [hKeep (by decide)]

/- Reading a record whose flag for failures is set. -/
theorem ofValue?_assign
    {given : Record}
    {throws : Bool}
    (hThrows :
      Record.get? given "throwExceptions" =
        some (.flag throws)) :
    ofValue?
        (.record
          (Record.assign given "throwExceptions"
            (.flag true))) =
      (ofValue? (.record given)).map throwing := by
  have hSet :
      Record.get?
          (Record.assign given "throwExceptions" (.flag true))
          "throwExceptions" = some (.flag true) :=
    Record.get?_assign_self given _ (by simp [hThrows])
  have hKeep : ∀ {name}, "throwExceptions" ≠ name →
      Record.get?
          (Record.assign given "throwExceptions" (.flag true))
          name = Record.get? given name :=
    fun hOther => Record.get?_assign_ne given _ hOther
  have hRaw :=
    Record.filter_assign given (.flag true)
      (fun name => !fieldNames.contains name)
      (show (!fieldNames.contains "throwExceptions") = false
        by decide)
  simp only [ofValue?, Decode.record, Decode.optional,
    Decode.withDefault, bind, pure, Option.bind_some]
  rw [hSet, hThrows, hRaw, filters_assign given _ (by decide)]
  repeat rw [hKeep (by decide)]
  simp only [Option.map_bind, Function.comp_def, Decode.flag,
    Option.bind_some, Option.map_some, throwing]

------------------------------------------------------------
-- Front Matter
------------------------------------------------------------

/- No change has a key that front matter does not have. -/
theorem get?_changes_of_none
    {frontMatter : Record}
    {key : String}
    (hAbsent : Record.get? frontMatter key = none) :
    Record.get? (changes frontMatter) key = none := by
  rw [Record.get?_eq_none_iff] at hAbsent ⊢
  intro field hField
  exact hAbsent field (List.mem_filter.mp hField).1

/- No change has the key of the input. -/
theorem get?_changes_input (frontMatter : Record) :
    Record.get? (changes frontMatter) "input" = none := by
  rw [Record.get?_eq_none_iff]
  intro field hField hSame
  have hOther := (List.mem_filter.mp hField).2
  rw [hSame] at hOther
  exact absurd hOther (by decide)

/- The fields of a request with front matter laid over it. -/
def layered (r : Request) (frontMatter : Record) : Record :=
  Value.layFieldsOver (changes frontMatter) r.fields r.fields

/- Laying front matter over a request, by its fields. -/
theorem overlay_apply (frontMatter : Record) (r : Request) :
    overlay frontMatter r =
      if (changes frontMatter).isEmpty then (.ok (), r)
      else
        match ofValue? (.record (r.layered frontMatter)) with
        | some next =>
            ( .ok (),
              { next with
                isCancelled := r.isCancelled
                prepared := r.prepared } )
        | none => (.error .unreadableRequest, r) := by
  have hLayer :
      (Value.record (changes frontMatter)).layOver r.toValue =
        .record (r.layered frontMatter) := by
    rw [toValue_eq, Value.layOver]
    rfl
  unfold overlay
  split
  · rfl
  · change
      replaceByRead
        ((Value.record (changes frontMatter)).layOver
          r.toValue) r = _
    rw [hLayer, replaceByRead]
    cases ofValue? (.record (r.layered frontMatter)) <;> rfl

/-
  Front matter that is laid over a request changes nothing, or
  the request is one that can be read.
-/
theorem overlay_ok
    {r next : Request}
    {frontMatter : Record}
    (hOverlay : overlay frontMatter r = (.ok (), next)) :
    (changes frontMatter).isEmpty ∧ next = r ∨
      ∃ read,
        ofValue? (.record (r.layered frontMatter)) = some read ∧
          next =
            { read with
              isCancelled := r.isCancelled
              prepared := r.prepared } := by
  rw [overlay_apply] at hOverlay
  split at hOverlay
  · next hEmpty =>
      cases hOverlay
      exact Or.inl ⟨hEmpty, rfl⟩
  · split at hOverlay
    · next read hRead =>
        cases hOverlay
        exact Or.inr ⟨read, hRead, rfl⟩
    · cases hOverlay

/-
  Front matter changes neither the input nor what was prepared,
  nor does it cancel the run.
-/
theorem overlay_keeps
    {r next : Request}
    {frontMatter : Record}
    (hSeparate : r.IsSeparate)
    (hOverlay : overlay frontMatter r = (.ok (), next)) :
    next.IsSeparate ∧
      next.input = r.input ∧
      next.isCancelled = r.isCancelled ∧
      next.prepared = r.prepared := by
  rcases overlay_ok hOverlay with ⟨_, rfl⟩ | ⟨read, hRead, rfl⟩
  · exact ⟨hSeparate, rfl, rfl, rfl⟩
  · have hRaw : read.IsSeparate := isSeparate_of_ofValue? hRead
    refine ⟨hRaw, ?_, rfl, rfl⟩
    rcases ofValue?_some hRead with
      ⟨given, hGiven, hInput, _, _⟩
    cases hGiven
    have hSame :
        Record.get? (r.layered frontMatter) "input" =
          some (.ofOption .text r.input) := by
      unfold layered
      rw [Value.get?_layFieldsOver_of_none _ _ _
        (get?_changes_input frontMatter)]
      exact get?_fields_input hSeparate
    cases hText : r.input <;>
      simpa [Decode.optional, hSame, hText, Value.ofOption,
        Decode.option, Decode.text, eq_comm] using hInput

/- Front matter that cannot be laid over a request leaves it. -/
theorem overlay_error
    {r next : Request}
    {frontMatter : Record}
    {failure : Failure}
    (hOverlay : overlay frontMatter r = (.error failure, next)) :
    next = r ∧ failure = .unreadableRequest := by
  rw [overlay_apply] at hOverlay
  split at hOverlay
  · cases hOverlay
  · split at hOverlay
    · cases hOverlay
    · cases hOverlay
      exact ⟨rfl, rfl⟩

/- The flag of a request for ending with failures stays. -/
theorem get?_layered_throwExceptions
    {r : Request}
    {frontMatter : Record}
    (hSeparate : r.IsSeparate)
    (hAbsent :
      Record.get? frontMatter "throwExceptions" = none) :
    Record.get? (r.layered frontMatter) "throwExceptions" =
      some (.flag r.throwExceptions) := by
  unfold layered
  rw [Value.get?_layFieldsOver_of_none _ _ _
    (get?_changes_of_none hAbsent)]
  exact get?_fields_throwExceptions hSeparate

/-
  Front matter that does not say whether failures end the run
  leaves it as it was.
-/
theorem overlay_keeps_throwExceptions
    {r next : Request}
    {frontMatter : Record}
    (hSeparate : r.IsSeparate)
    (hAbsent :
      Record.get? frontMatter "throwExceptions" = none)
    (hOverlay : overlay frontMatter r = (.ok (), next)) :
    next.throwExceptions = r.throwExceptions := by
  rcases overlay_ok hOverlay with ⟨_, rfl⟩ | ⟨read, hRead, rfl⟩
  · rfl
  · rcases ofValue?_some hRead with
      ⟨given, hGiven, _, hThrows, _⟩
    cases hGiven
    simpa [Decode.withDefault, Decode.flag, eq_comm,
      get?_layered_throwExceptions hSeparate hAbsent]
      using hThrows

/-
  Laying front matter over a request whose failures end the
  run gives the same request, except that they still do.
-/
theorem overlay_throwing
    {r : Request}
    {frontMatter : Record}
    (hSeparate : r.IsSeparate)
    (hAbsent :
      Record.get? frontMatter "throwExceptions" = none) :
    overlay frontMatter r.throwing =
      ((overlay frontMatter r).1,
        (overlay frontMatter r).2.throwing) := by
  have hLayered :
      r.throwing.layered frontMatter =
        Record.assign (r.layered frontMatter)
          "throwExceptions" (.flag true) := by
    unfold layered
    rw [fields_throwing hSeparate,
      Value.layFieldsOver_assign _ _ _ _
        (get?_changes_of_none hAbsent)]
  rw [overlay_apply, overlay_apply, hLayered,
    ofValue?_assign
      (get?_layered_throwExceptions hSeparate hAbsent)]
  split
  · rfl
  · cases ofValue? (.record (r.layered frontMatter)) <;> rfl

------------------------------------------------------------
-- Preparing
------------------------------------------------------------

/- Settings are prepared if they can be read. -/
theorem prepareWith_apply
    {σ : Type}
    (space : SettingsSpace σ)
    (defaults : σ)
    (r : Request) :
    prepareWith space defaults r =
      match r.resolve space defaults with
      | .error failure => (.error failure, r)
      | .ok s =>
          ( .ok s,
            { r with prepared := space.fill r.prepared s } ) := by
  change
    (match r.resolve space defaults with
      | .error failure => throw failure
      | .ok s => do
          modify (fun r =>
            { r with prepared := space.fill r.prepared s })
          pure s : RequestEdit σ) r = _
  cases r.resolve space defaults <;> rfl

end Request

/- A plugin that prepares settings does so if it can read them. -/
theorem Plugin.prepareSpace_eq
    {σ : Type}
    (space : SettingsSpace σ)
    (r : Request)
    (response : Response) :
    prepareSpace space r response =
      match r.resolve space space.standard with
      | .error failure => ⟨r, some failure⟩
      | .ok s =>
          ⟨{ r with prepared := space.fill r.prepared s },
            none⟩ := by
  unfold prepareSpace PrepareOutcome.ofEdit Request.prepare
  rw [Request.prepareWith_apply]
  cases r.resolve space space.standard <;> rfl

/- A plugin that lays front matter over a request may fail. -/
theorem PrepareOutcome.ofEdit_overlay
    (frontMatter : Record)
    (r : Request) :
    (∃ failure,
        Request.overlay frontMatter r = (.error failure, r) ∧
          ofEdit (Request.overlay frontMatter) r =
            ⟨r, some failure⟩) ∨
      ∃ next,
        Request.overlay frontMatter r = (.ok (), next) ∧
          ofEdit (Request.overlay frontMatter) r =
            ⟨next, none⟩ := by
  unfold ofEdit
  rcases hOverlay : Request.overlay frontMatter r with
    ⟨failure | _, next⟩
  · rcases Request.overlay_error hOverlay with ⟨rfl, _⟩
    exact Or.inl ⟨failure, rfl, rfl⟩
  · exact Or.inr ⟨next, rfl, rfl⟩

end Dialectic
