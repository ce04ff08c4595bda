import Dialectic.Pipeline.Plugin
import Dialectic.Proofs.Pipeline.Layers
import Mathlib.Data.List.Nodup

/-
  What front matter does to a request, key by key: the value of
  a key that it has is read from both layers, all other values
  stay, and a request is left alone if one of its fields cannot
  be read.

  Key definitions include:
    * `Request.Field`, `Request.fieldTable`
    * `Request.at?`
    * `Request.reread?`
    * `Request.IsLoaded`

  Main theorems:
    * `Request.isSome_ofValue?_iff`
    * `Request.at?_of_ofValue?`
    * `Request.reread?_eq`
    * `Request.overlay_framed`
-/

namespace Dialectic

/- The value of a key of a list with different keys. -/
theorem Record.get?_ofList_of_mem
    {fields : List (String × Value)}
    (hKeys : (fields.map Prod.fst).Nodup)
    {key : String}
    {value : Value}
    (hField : (key, value) ∈ fields) :
    get? (ofList fields) key = some value := by
  rcases List.append_of_mem hField with ⟨before, after, rfl⟩
  rw [List.map_append, List.map_cons] at hKeys
  have hAfter := (List.nodup_append.mp hKeys).2.1.notMem
  apply get?_ofList_value value
  intro field hLater hSame
  exact hAfter (List.mem_map.mpr ⟨field, hLater, hSame⟩)

namespace Request

------------------------------------------------------------
-- Fields
------------------------------------------------------------

/-
  A field of requests: its value if it is missing, and the
  value that is written after a given one has been read.  What
  is written is read as what it was written for.
-/
structure Field where
  name : String
  standard : Value
  reread? : Value → Option Value
  reread?_standard : reread? standard = some standard
  reread?_reread? : ∀ given value,
    reread? given = some value → reread? value = some value

namespace Field

/- The field of a type whose values are read as written. -/
def ofType
    {α : Type}
    (name : String)
    (default : α)
    (read : Value → Option α)
    (write : α → Value)
    (read_write : ∀ a, read (write a) = some a) : Field where
  name := name
  standard := write default
  reread? := fun value => (read value).map write
  reread?_standard := by rw [read_write, Option.map_some]
  reread?_reread? := by
    intro given value hRead
    rcases Option.map_eq_some_iff.mp hRead with ⟨a, _, rfl⟩
    rw [read_write, Option.map_some]

/- The value that is written for a field of some fields. -/
def of? (f : Field) (given : Record) : Option Value :=
  match Record.get? given f.name with
  | some value => f.reread? value
  | none => some f.standard

/- A field with a default is read and written. -/
theorem of?_ofType
    {α : Type}
    (given : Record)
    (name : String)
    (default : α)
    (read : Value → Option α)
    (write : α → Value)
    (read_write : ∀ a, read (write a) = some a) :
    (ofType name default read write read_write).of? given =
      (Decode.withDefault given name default read).map write := by
  unfold of? Decode.withDefault
  cases hFound : Record.get? given name <;> simp [ofType, hFound]

end Field

/- An optional value is read as it is written. -/
theorem option_ofOption
    {α : Type}
    {read : Value → Option α}
    {write : α → Value}
    (hRead : ∀ a, read (write a) = some a)
    (hNull : ∀ a, write a ≠ .null)
    (a : Option α) :
    Decode.option read (Value.ofOption write a) = some a := by
  cases a with
  | none => rfl
  | some a =>
      have hWritten : Decode.option read (write a) =
          (read (write a)).map some := by
        cases hValue : write a with
        | null => exact absurd hValue (hNull a)
        | _ => rfl
      rw [Value.ofOption, hWritten, hRead, Option.map_some]

/- Items are read as they are written one by one. -/
theorem mapM_written
    {α β : Type}
    {read : β → Option α}
    {write : α → β}
    (hRead : ∀ a, read (write a) = some a)
    (as : List α) :
    (as.map write).mapM read = some as := by
  induction as with
  | nil => rfl
  | cons a as ih =>
      rw [List.map_cons, List.mapM_cons, hRead, ih]
      rfl

/- A text is read as it is written. -/
theorem text_text (s : String) :
    Decode.text (.text s) = some s :=
  rfl

/- A text is not null. -/
theorem text_ne_null (s : String) : Value.text s ≠ .null := by
  simp

/- Texts are read as they are written. -/
theorem texts_texts (ts : List String) :
    Decode.texts (.texts ts) = some ts :=
  mapM_written text_text ts

/- Texts are not null. -/
theorem texts_ne_null (ts : List String) :
    Value.texts ts ≠ .null := by
  simp [Value.texts]

/- Processes are read as they are written. -/
theorem processes_value
    (processes : List (String × List String)) :
    processesOfValue? (processesValue processes) =
      some processes := by
  apply mapM_written
  rintro ⟨name, stages⟩
  simp only [texts_texts]
  rfl

/- A choice of stages is read as it is written. -/
theorem processChoice_toValue (p : ProcessChoice) :
    ProcessChoice.ofValue? p.toValue = some p := by
  cases p with
  | stages names =>
      have hTexts := texts_texts names
      simp only [ProcessChoice.toValue, Value.texts,
        ProcessChoice.ofValue?] at hTexts ⊢
      rw [hTexts]
      rfl
  | named name => rfl

/- A choice of stages is not null. -/
theorem processChoice_ne_null (p : ProcessChoice) :
    p.toValue ≠ .null := by
  cases p <;> simp [ProcessChoice.toValue, Value.texts]

/- A level is read as it is written. -/
theorem logLevel_name (level : LogLevel) :
    Decode.name LogLevel.all LogLevel.name (.text level.name) =
      some level := by
  cases level <;> decide

/- A field that is a flag. -/
def Field.flag (name : String) (default : Bool) : Field :=
  .ofType name default Decode.flag .flag (fun _ => rfl)

/- A field that is a list of texts, without any by default. -/
def Field.texts (name : String) : Field :=
  .ofType name [] Decode.texts .texts texts_texts

/- A field that may be missing. -/
def Field.optional
    {α : Type}
    (name : String)
    (read : Value → Option α)
    (write : α → Value)
    (hRead : ∀ a, read (write a) = some a)
    (hNull : ∀ a, write a ≠ .null) : Field :=
  .ofType name none (Decode.option read) (.ofOption write)
    (option_ofOption hRead hNull)

/- A flag is read and written. -/
theorem Field.of?_flag
    (given : Record)
    (name : String)
    (default : Bool) :
    (Field.flag name default).of? given =
      (Decode.withDefault given name default Decode.flag).map
        .flag :=
  of?_ofType given name default Decode.flag .flag _

/- A list of texts is read and written. -/
theorem Field.of?_texts (given : Record) (name : String) :
    (Field.texts name).of? given =
      (Decode.withDefault given name [] Decode.texts).map
        .texts :=
  of?_ofType given name [] Decode.texts .texts _

/- A field that may be missing is read and written. -/
theorem Field.of?_optional
    {α : Type}
    (given : Record)
    (name : String)
    (read : Value → Option α)
    (write : α → Value)
    (hRead : ∀ a, read (write a) = some a)
    (hNull : ∀ a, write a ≠ .null) :
    (Field.optional name read write hRead hNull).of? given =
      (Decode.optional given name read).map
        (.ofOption write) :=
  of?_ofType given name none (Decode.option read)
    (.ofOption write) _

/- All fields, in the order in which they are written. -/
def fieldTable : List Field := [
  .optional "input" Decode.text .text text_text text_ne_null,
  .optional "process" ProcessChoice.ofValue?
    ProcessChoice.toValue processChoice_toValue
    processChoice_ne_null,
  .ofType "processes" [] processesOfValue? processesValue
    processes_value,
  .ofType "logLevel" .error
    (Decode.name LogLevel.all LogLevel.name)
    (fun level => .text level.name) logLevel_name,
  .flag "throwExceptions" false,
  .flag "logExceptions" true,
  .optional "selectedTags" Decode.texts .texts texts_texts
    texts_ne_null,
  .flag "selectElementsWithoutTag" true,
  .optional "selectedSections" Decode.texts .texts texts_texts
    texts_ne_null,
  .flag "selectElementsWithoutSection" true,
  .texts "includeStatements",
  .texts "excludeStatements",
  .texts "excludeArguments",
  .flag "ignoreIsInMap" false
]

/- The fields of a request that are no spaces. -/
def ownFields (r : Request) : List (String × Value) :=
  [ ("input", .ofOption .text r.input),
    ("process", .ofOption ProcessChoice.toValue r.process),
    ("processes", processesValue r.processes),
    ("logLevel", .text r.logLevel.name),
    ("throwExceptions", .flag r.throwExceptions),
    ("logExceptions", .flag r.logExceptions) ]
    ++ r.filters.toFields

/- What is read from each field of a record. -/
theorem ofValue?_eq_some_iff {given : Record} {r : Request} :
    ofValue? (.record given) = some r ↔
      Decode.optional given "input" Decode.text =
          some r.input ∧
        Decode.optional given "process"
            ProcessChoice.ofValue? = some r.process ∧
        Decode.withDefault given "processes" []
            processesOfValue? = some r.processes ∧
        Decode.withDefault given "logLevel" .error
            (Decode.name LogLevel.all LogLevel.name) =
          some r.logLevel ∧
        Decode.withDefault given "throwExceptions" false
            Decode.flag = some r.throwExceptions ∧
        Decode.withDefault given "logExceptions" true
            Decode.flag = some r.logExceptions ∧
        Selection.Filters.ofFields? given = some r.filters ∧
        r.raw =
            given.filter (fun f => !fieldNames.contains f.1) ∧
        r.isCancelled = false ∧
        r.prepared = .empty := by
  simp only [ofValue?, Decode.record, Option.bind_eq_bind,
    Option.pure_def, Option.bind_some, Option.bind_eq_some_iff,
    Option.some.injEq]
  constructor
  · rintro
      ⟨_, hInput, _, hProcess, _, hProcesses, _, hLevel, _,
        hThrows, _, hLogs, _, hFilters, rfl⟩
    exact
      ⟨hInput, hProcess, hProcesses, hLevel, hThrows, hLogs,
        hFilters, rfl, rfl, rfl⟩
  · rintro
      ⟨hInput, hProcess, hProcesses, hLevel, hThrows, hLogs,
        hFilters, hRaw, hRuns, hEmpty⟩
    refine
      ⟨_, hInput, _, hProcess, _, hProcesses, _, hLevel, _,
        hThrows, _, hLogs, _, hFilters, ?_⟩
    rw [← hRaw, ← hRuns, ← hEmpty]

/-
  What is written for the fields of a request that has been
  read is what is read from those given.
-/
theorem map_fieldTable
    {given : Record}
    {r : Request}
    (hRead : ofValue? (.record given) = some r) :
    fieldTable.map (fun f => (f.name, f.of? given)) =
      r.ownFields.map (fun own => (own.1, some own.2)) := by
  rcases ofValue?_eq_some_iff.mp hRead with
    ⟨hInput, hProcess, hProcesses, hLevel, hThrows, hLogs,
      hFilters, _⟩
  simp only [Selection.Filters.ofFields?, Option.bind_eq_bind,
    Option.pure_def, Option.bind_eq_some_iff,
    Option.some.injEq] at hFilters
  rcases hFilters with
    ⟨_, hTags, _, hNoTag, _, hSections, _, hNoSection, _,
      hIncluding, _, hExcluding, _, hWithout, _, hIgnoring,
      hFilters⟩
  unfold fieldTable ownFields
  rw [← hFilters]
  simp only [Selection.Filters.toFields, List.cons_append,
    List.nil_append, List.map_cons, List.map_nil,
    Field.of?_optional, Field.of?_flag, Field.of?_texts,
    Field.of?_ofType, hInput, hProcess, hProcesses, hLevel,
    hThrows, hLogs, hTags, hNoTag, hSections, hNoSection,
    hIncluding, hExcluding, hWithout, hIgnoring,
    Option.map_some]
  rfl

/- A request can be read if each of its fields can be read. -/
theorem isSome_ofValue?_iff (given : Record) :
    (ofValue? (.record given)).isSome ↔
      ∀ f ∈ fieldTable, (f.of? given).isSome := by
  constructor
  · intro hSome f hField
    rcases Option.isSome_iff_exists.mp hSome with ⟨r, hRead⟩
    have hMem : (f.name, f.of? given) ∈
        r.ownFields.map (fun own => (own.1, some own.2)) := by
      rw [← map_fieldTable hRead]
      exact List.mem_map_of_mem hField
    rcases List.mem_map.mp hMem with ⟨own, _, hOwn⟩
    rw [← (Prod.mk.inj hOwn).2]
    rfl
  · intro hFields
    simp only [fieldTable, List.forall_mem_cons,
      Field.of?_optional, Field.of?_flag, Field.of?_texts,
      Field.of?_ofType, Option.isSome_map] at hFields
    simp only [Option.isSome_iff_exists] at hFields
    rcases hFields with
      ⟨⟨_, hInput⟩, ⟨_, hProcess⟩, ⟨_, hProcesses⟩, ⟨_, hLevel⟩,
        ⟨_, hThrows⟩, ⟨_, hLogs⟩, ⟨_, hTags⟩, ⟨_, hNoTag⟩,
        ⟨_, hSections⟩, ⟨_, hNoSection⟩, ⟨_, hIncluding⟩,
        ⟨_, hExcluding⟩, ⟨_, hWithout⟩, ⟨_, hIgnoring⟩, _⟩
    simp only [ofValue?, Selection.Filters.ofFields?,
      Decode.record, Option.bind_eq_bind, Option.pure_def,
      Option.bind_some, hInput, hProcess, hProcesses, hLevel,
      hThrows, hLogs, hTags, hNoTag, hSections, hNoSection,
      hIncluding, hExcluding, hWithout, hIgnoring,
      Option.isSome_some]

------------------------------------------------------------
-- Keys
------------------------------------------------------------

/- The names of the fields of the table. -/
theorem map_name_fieldTable :
    fieldTable.map Field.name = fieldNames :=
  rfl

/- The names of the fields of a request. -/
theorem map_fst_ownFields (r : Request) :
    r.ownFields.map Prod.fst = fieldNames :=
  rfl

/- No two fields have the same name. -/
theorem nodup_fieldNames : fieldNames.Nodup := by
  decide

/- The field of a name. -/
def field? (key : String) : Option Field :=
  fieldTable.find? (fun f => f.name == key)

/- A field is found under its name. -/
theorem field?_eq_some
    {key : String}
    {f : Field}
    (hFound : field? key = some f) :
    f ∈ fieldTable ∧ f.name = key := by
  refine ⟨List.mem_of_find?_eq_some hFound, ?_⟩
  simpa using List.find?_some hFound

/- No space of settings is a field. -/
theorem field?_eq_none_iff {key : String} :
    field? key = none ↔ key ∉ fieldNames := by
  rw [← map_name_fieldTable]
  simp [field?, List.find?_eq_none]

/- Each field is found. -/
theorem field?_of_mem
    {f : Field}
    (hField : f ∈ fieldTable) :
    field? f.name = some f := by
  cases hFound : field? f.name with
  | none =>
      refine absurd ?_ (field?_eq_none_iff.mp hFound)
      rw [← map_name_fieldTable]
      exact List.mem_map_of_mem hField
  | some g =>
      rcases field?_eq_some hFound with ⟨hOther, hSame⟩
      rw [List.inj_on_of_nodup_map
        (map_name_fieldTable ▸ nodup_fieldNames) hOther hField
        hSame]

/- The value of a key in the value of a request. -/
def at? (r : Request) (key : String) : Option Value :=
  (Decode.record r.toValue).bind (Record.get? · key)

/- A field has in the value of a request what was read. -/
theorem at?_of_mem
    {given : Record}
    {r : Request}
    (hRead : ofValue? (.record given) = some r)
    {f : Field}
    (hField : f ∈ fieldTable) :
    r.at? f.name = f.of? given := by
  have hMem : (f.name, f.of? given) ∈
      r.ownFields.map (fun own => (own.1, some own.2)) := by
    rw [← map_fieldTable hRead]
    exact List.mem_map_of_mem hField
  rcases List.mem_map.mp hMem with ⟨⟨name, value⟩, hOwn, hSame⟩
  rw [Prod.mk.injEq] at hSame
  rcases hSame with ⟨rfl, hValue⟩
  have hName : f.name ∈ fieldNames := by
    rw [← map_name_fieldTable]
    exact List.mem_map_of_mem hField
  calc
    r.at? f.name = Record.get? (.ofList r.ownFields) f.name :=
      Record.get?_extend_of_not_mem _
        ((isSeparate_of_ofValue? hRead).not_mem hName)
    _ = some value :=
      Record.get?_ofList_of_mem
        (r.map_fst_ownFields ▸ nodup_fieldNames) hOwn
    _ = f.of? given := hValue

/-
  The value of a key in the value of a request that was read:
  what is written for a field, or the settings of a space.
-/
theorem at?_of_ofValue?
    {given : Record}
    {r : Request}
    (hOrder : given.InOrder)
    (hRead : ofValue? (.record given) = some r)
    (key : String) :
    r.at? key =
      match field? key with
      | some f => f.of? given
      | none => Record.get? given key := by
  cases hFound : field? key with
  | some f =>
      rcases field?_eq_some hFound with ⟨hField, rfl⟩
      exact at?_of_mem hRead hField
  | none =>
      have hSpace := field?_eq_none_iff.mp hFound
      have hRaw : r.raw.InOrder := by
        rw [(ofValue?_eq_some_iff.mp hRead).2.2.2.2.2.2.2.1]
        exact Record.inOrder_filter hOrder _
      calc
        r.at? key = r.configured? key := get?_fields hRaw hSpace
        _ = Record.get? given key :=
          configured?_of_ofValue? hRead hSpace

------------------------------------------------------------
-- Reading Again
------------------------------------------------------------

/-
  The value of a key after a request with this value alone has
  been read.
-/
def reread? (key : String) (value : Value) : Option Value :=
  (ofValue? (.record [(key, value)])).bind (·.at? key)

/- A field is read, and the settings of a space are kept. -/
theorem reread?_eq (key : String) (value : Value) :
    reread? key value =
      match field? key with
      | some f => f.reread? value
      | none => some value := by
  have hAlone : ∀ f : Field,
      f.of? [(key, value)] =
        if key = f.name then f.reread? value
        else some f.standard := by
    intro f
    by_cases hSame : key = f.name <;>
      simp [Field.of?, Record.get?, hSame]
  unfold reread?
  cases hRead : ofValue? (.record [(key, value)]) with
  | some r =>
      rw [Option.bind_some,
        at?_of_ofValue? (List.pairwise_singleton _ _) hRead]
      cases hFound : field? key with
      | some f =>
          have hName := (field?_eq_some hFound).2
          simp only [hAlone, hName, if_true]
      | none => simp [Record.get?]
  | none =>
      -- only the field of the key can be unreadable
      have hSome := isSome_ofValue?_iff [(key, value)]
      simp only [hRead, Option.isSome_none, Bool.false_eq_true,
        false_iff, not_forall, exists_prop] at hSome
      rcases hSome with ⟨f, hField, hNone⟩
      rw [hAlone] at hNone
      split at hNone
      · next hName =>
          rw [hName, field?_of_mem hField]
          exact (Option.not_isSome_iff_eq_none.mp hNone).symm
      · simp at hNone

/- What is written for a field is read again. -/
theorem Field.reread?_of?
    {f : Field}
    {given : Record}
    {value : Value}
    (hWritten : f.of? given = some value) :
    f.reread? value = some value := by
  unfold of? at hWritten
  split at hWritten
  · exact f.reread?_reread? _ _ hWritten
  · cases hWritten
    exact f.reread?_standard

/- The request was read, apart from what was prepared. -/
def IsLoaded (r : Request) : Prop :=
  ∃ given : Record,
    given.InOrder ∧
      ofValue? (.record given) =
        some { r with isCancelled := false, prepared := .empty }

/- What is written for a request is read again. -/
theorem IsLoaded.reread?_at?
    {r : Request}
    (hLoaded : r.IsLoaded)
    {f : Field}
    (hField : f ∈ fieldTable) :
    ∃ value,
      r.at? f.name = some value ∧
        f.reread? value = some value := by
  rcases hLoaded with ⟨given, hOrder, hRead⟩
  have hHere : r.at? f.name = f.of? given :=
    at?_of_mem hRead hField
  have hSome : (f.of? given).isSome := by
    apply (isSome_ofValue?_iff given).mp _ f hField
    rw [hRead]
    rfl
  rcases Option.isSome_iff_exists.mp hSome with ⟨value, hValue⟩
  exact ⟨value, hHere.trans hValue, Field.reread?_of? hValue⟩

------------------------------------------------------------
-- Front Matter
------------------------------------------------------------

/-
  The value that front matter lays over the one of a key, if
  it has a key that it may change.
-/
def laid? (r : Request) (frontMatter : Record) (key : String) :
    Option Value :=
  (Record.get? (changes frontMatter) key).map (fun value =>
    value.layOver ((r.at? key).getD .null))

/- What is laid over a key is that of the front matter. -/
theorem laid?_eq_some_iff
    (r : Request)
    (frontMatter : Record)
    {key : String}
    {laid : Value} :
    r.laid? frontMatter key = some laid ↔
      key ∉ protectedKeys ∧
        ∃ value,
          Record.get? frontMatter key = some value ∧
            value.layOver ((r.at? key).getD .null) = laid := by
  unfold laid?
  rw [Option.map_eq_some_iff]
  by_cases hProtected : key ∈ protectedKeys
  · have hNone :
        Record.get? (changes frontMatter) key = none := by
      rw [Record.get?_eq_none_iff]
      rintro field hField rfl
      have hOther := (List.mem_filter.mp hField).2
      simp [hProtected] at hOther
    simp [hNone, hProtected]
  · have hSame :
        Record.get? (changes frontMatter) key =
          Record.get? frontMatter key :=
      Record.get?_filter frontMatter
        (fun name => !protectedKeys.contains name)
        (by simpa using hProtected)
    simp [hSame, hProtected]

/- The fields of a request with front matter laid over it. -/
theorem get?_layered
    (r : Request)
    {frontMatter : Record}
    (hFront : frontMatter.InOrder)
    (key : String) :
    Record.get? (r.layered frontMatter) key =
      (r.laid? frontMatter key).or (r.at? key) := by
  have hChanges : (changes frontMatter).InOrder :=
    Record.inOrder_filter hFront _
  unfold layered laid?
  rw [Value.get?_layFieldsOver hChanges]
  cases Record.get? (changes frontMatter) key <;> rfl

/-
  A loaded request with front matter laid over it can be read
  if each value can be that is laid over one of its own.
-/
theorem IsLoaded.isSome_layered_iff
    {r : Request}
    (hLoaded : r.IsLoaded)
    {frontMatter : Record}
    (hFront : frontMatter.InOrder) :
    (ofValue? (.record (r.layered frontMatter))).isSome ↔
      ∀ key laid,
        r.laid? frontMatter key = some laid →
          (reread? key laid).isSome := by
  rw [isSome_ofValue?_iff]
  constructor
  · intro hFields key laid hLaid
    rw [reread?_eq]
    cases hFound : field? key with
    | none => rfl
    | some f =>
        rcases field?_eq_some hFound with ⟨hField, rfl⟩
        have hSome := hFields f hField
        rwa [Field.of?, get?_layered r hFront, hLaid,
          Option.some_or] at hSome
  · intro hLaid f hField
    rw [Field.of?, get?_layered r hFront]
    cases hHere : r.laid? frontMatter f.name with
    | some laid =>
        have hSome := hLaid f.name laid hHere
        rwa [reread?_eq, field?_of_mem hField] at hSome
    | none =>
        rcases hLoaded.reread?_at? hField with
          ⟨value, hValue, hAgain⟩
        rw [Option.none_or, hValue]
        exact Option.isSome_of_eq_some hAgain

/-
  The keys of a request that was read after front matter was
  laid over a loaded one.
-/
theorem IsLoaded.at?_layered
    {r next : Request}
    (hLoaded : r.IsLoaded)
    {frontMatter : Record}
    (hFront : frontMatter.InOrder)
    (hRead :
      ofValue? (.record (r.layered frontMatter)) = some next)
    (key : String) :
    next.at? key =
      match r.laid? frontMatter key with
      | some laid => reread? key laid
      | none => r.at? key := by
  have hOrder : (r.layered frontMatter).InOrder :=
    Value.inOrder_layFieldsOver _ _ r.fields_inOrder
  rw [at?_of_ofValue? hOrder hRead]
  cases hFound : field? key with
  | none =>
      simp only [get?_layered r hFront, reread?_eq, hFound]
      cases r.laid? frontMatter key <;> rfl
  | some f =>
      rcases field?_eq_some hFound with ⟨hField, rfl⟩
      simp only [Field.of?, get?_layered r hFront, reread?_eq,
        hFound]
      cases r.laid? frontMatter f.name with
      | some laid => rfl
      | none =>
          rcases hLoaded.reread?_at? hField with
            ⟨value, hValue, hAgain⟩
          simp only [Option.none_or, hValue, hAgain]

/-
  Front matter is laid over a loaded request, or else one of
  the values that are laid cannot be read.
-/
theorem IsLoaded.overlay_cases
    {r : Request}
    (hLoaded : r.IsLoaded)
    {frontMatter : Record}
    (hFront : frontMatter.InOrder) :
    (overlay frontMatter r = (.error .unreadableRequest, r) ∧
        ∃ key laid,
          r.laid? frontMatter key = some laid ∧
            reread? key laid = none) ∨
      ∃ next,
        overlay frontMatter r = (.ok (), next) ∧
          next.IsLoaded ∧
          next.isCancelled = r.isCancelled ∧
          next.prepared = r.prepared ∧
          ∀ key,
            match r.laid? frontMatter key with
            | some laid =>
                (reread? key laid).isSome ∧
                  next.at? key = reread? key laid
            | none => next.at? key = r.at? key := by
  have hReadable := hLoaded.isSome_layered_iff hFront
  rw [overlay_apply]
  split
  · next hEmpty =>
      -- nothing is laid over the request
      refine Or.inr ⟨r, rfl, hLoaded, rfl, rfl, fun key => ?_⟩
      have hNone : r.laid? frontMatter key = none := by
        rw [laid?, List.isEmpty_iff.mp hEmpty]
        rfl
      rw [hNone]
  · cases hRead :
      ofValue? (.record (r.layered frontMatter)) with
    | none =>
        refine Or.inl ⟨rfl, ?_⟩
        simpa only [hRead, Option.isSome_none,
          Bool.false_eq_true, false_iff, not_forall,
          exists_prop, Option.not_isSome_iff_eq_none]
          using hReadable
    | some next =>
        have hOrder : (r.layered frontMatter).InOrder :=
          Value.inOrder_layFieldsOver _ _ r.fields_inOrder
        rcases ofValue?_eq_some_iff.mp hRead with
          ⟨_, _, _, _, _, _, _, _, hRuns, hEmpty⟩
        refine Or.inr
          ⟨_, rfl, ⟨_, hOrder, ?_⟩, rfl, rfl, fun key => ?_⟩
        · rw [hRead, ← hRuns, ← hEmpty]
        · have hAt : ({ next with
              isCancelled := r.isCancelled
              prepared := r.prepared } : Request).at? key = _ :=
            hLoaded.at?_layered hFront hRead key
          cases hLaid : r.laid? frontMatter key with
          | none => rwa [hLaid] at hAt
          | some laid =>
              rw [hLaid] at hAt
              exact
                ⟨hReadable.mp (by rw [hRead]; rfl) key laid hLaid,
                  hAt⟩

/-
  Laying front matter over a loaded request fails if one of
  the values that are laid cannot be read for its key; then the
  request stays as it is, with what was prepared.  Else it is a
  loaded request again, as prepared and as cancelled as before.
  Its value has the same keys, apart from those in the front
  matter that are not protected: the value of such a key is the
  one of the front matter, laid over the one before and read.
-/
theorem overlay_framed
    {r : Request}
    {frontMatter : Record}
    (hLoaded : r.IsLoaded)
    (hFront : frontMatter.InOrder) :
    let result := (overlay frontMatter r).1
    let next := (overlay frontMatter r).2
    let laid := fun (key : String) (value : Value) =>
      value.layOver ((r.at? key).getD .null)
    (result = .error .unreadableRequest ↔
        ∃ key value,
          key ∉ protectedKeys ∧
            Record.get? frontMatter key = some value ∧
            reread? key (laid key value) = none) ∧
      (∀ failure,
        result = .error failure →
          failure = .unreadableRequest ∧ next = r) ∧
      (result = .ok () →
        next.IsLoaded ∧
          next.isCancelled = r.isCancelled ∧
          next.prepared = r.prepared ∧
          ∀ key,
            (key ∈ protectedKeys ∨
                Record.get? frontMatter key = none →
              next.at? key = r.at? key) ∧
            ∀ value,
              key ∉ protectedKeys →
                Record.get? frontMatter key = some value →
                  next.at? key =
                    reread? key (laid key value)) := by
  have hLays : ∀ {key value},
      key ∉ protectedKeys →
        Record.get? frontMatter key = some value →
          r.laid? frontMatter key =
            some (value.layOver ((r.at? key).getD .null)) :=
    fun hKey hValue =>
      (r.laid?_eq_some_iff frontMatter).mpr
        ⟨hKey, _, hValue, rfl⟩
  rcases hLoaded.overlay_cases hFront with
    ⟨hFails, key, _, hLaid, hNone⟩ |
      ⟨next, hNext, hAgain, hCancelled, hPrepared, hKeys⟩
  · rcases (r.laid?_eq_some_iff frontMatter).mp hLaid with
      ⟨hKey, value, hValue, rfl⟩
    rw [hFails]
    refine ⟨?_, ?_, nofun⟩
    · exact iff_of_true rfl ⟨key, value, hKey, hValue, hNone⟩
    · intro failure hFailure
      cases hFailure
      exact ⟨rfl, rfl⟩
  · rw [hNext]
    refine
      ⟨iff_of_false nofun ?_, nofun, fun _ =>
        ⟨hAgain, hCancelled, hPrepared, fun key => ⟨?_, ?_⟩⟩⟩
    · rintro ⟨key, value, hKey, hValue, hNone⟩
      have hSome := hKeys key
      rw [hLays hKey hValue] at hSome
      exact absurd hNone (Option.isSome_iff_ne_none.mp hSome.1)
    · intro hKept
      have hNone : r.laid? frontMatter key = none := by
        rw [Option.eq_none_iff_forall_ne_some]
        intro laid hLaid
        rcases (r.laid?_eq_some_iff frontMatter).mp hLaid with
          ⟨hKey, value, hValue, _⟩
        rcases hKept with hProtected | hAbsent
        · exact hKey hProtected
        · rw [hAbsent] at hValue
          cases hValue
      have hSame := hKeys key
      rwa [hNone] at hSame
    · intro value hKey hValue
      have hChanged := hKeys key
      rw [hLays hKey hValue] at hChanged
      exact hChanged.2

/-
  Front matter changes the selected tags of a request, adds to
  the configuration of a space and leaves the input as it is;
  a flag that is a text leaves everything as it is.
-/
theorem overlay_framed_tags :
    let own : Record :=
      [("groupDepth", .ofNat 1)]
    let r : Request :=
      { empty with
        input := some "[A]: a"
        raw := [("group", .record own)]
        isCancelled := true
        prepared := { PreparedSettings.empty with
          color := some .standard } }
    let front : Record :=
      [ ("group", .record [("addAll", .flag true)]),
        ("input", .text "[B]: b"),
        ("logLevel", .null),
        ("selectedTags", .texts ["pro"]) ]
    let wrong : Record := [("throwExceptions", .text "yes")]
    r.IsLoaded ∧ front.InOrder ∧ Record.InOrder wrong ∧
      (∃ next : Request,
        overlay front r = (.ok (), next) ∧
          next.prepared = r.prepared ∧
          next.isCancelled = true ∧
          next.at? "input" = some (.text "[A]: a") ∧
          next.at? "logLevel" = some (.text "error") ∧
          next.at? "selectedTags" = some (.texts ["pro"]) ∧
          next.at? "group" =
            some
              (.record
                [ ("addAll", .flag true),
                  ("groupDepth", .ofNat 1) ])) ∧
      overlay wrong r = (.error .unreadableRequest, r) := by
  intro own r front wrong
  have hLoaded : r.IsLoaded := by
    refine ⟨[("group", .record own), ("input", .text "[A]: a")],
      ?_, ofValue?_eq_some_iff.mpr ?_⟩
    · unfold Record.InOrder
      decide +kernel
    · refine ⟨?_, ?_, ?_, ?_, ?_, ?_, ?_, ?_, rfl, rfl⟩ <;>
        decide +kernel
  have hFront : front.InOrder := by
    unfold Record.InOrder
    decide +kernel
  have hWrong : Record.InOrder wrong :=
    List.pairwise_singleton _ _
  have hFine : (overlay front r).1.toBool = true := by
    decide +kernel
  have hWrongGiven :
      Record.get? wrong "throwExceptions" =
        some (.text "yes") := by
    decide +kernel
  have hLevel : Record.get? front "logLevel" = some .null := by
    decide +kernel
  have hTags :
      Record.get? front "selectedTags" =
        some (.texts ["pro"]) := by
    decide +kernel
  have hGroup :
      Record.get? front "group" =
        some (.record [("addAll", .flag true)]) := by
    decide +kernel
  rcases overlay_framed hLoaded hWrong with ⟨hFails, hSame, _⟩
  have hFailed := hFails.mpr
    ⟨"throwExceptions", .text "yes", by decide, hWrongGiven,
      by decide +kernel⟩
  have hUnchanged : overlay wrong r = (.error .unreadableRequest, r) :=
    Prod.ext hFailed (hSame _ hFailed).2
  have hFramed := overlay_framed hLoaded hFront
  rcases hNext : overlay front r with ⟨failure | _, next⟩
  · rw [hNext] at hFine
    cases hFine
  · rw [hNext] at hFramed
    rcases hFramed.2.2 rfl with
      ⟨_, hCancelled, hPrepared, hKeys⟩
    refine ⟨hLoaded, hFront, hWrong,
      ⟨next, rfl, hPrepared, hCancelled, ?_, ?_, ?_, ?_⟩,
      hUnchanged⟩
    · exact ((hKeys "input").1 (Or.inl (by decide))).trans
        (by decide +kernel)
    · exact ((hKeys "logLevel").2 _ (by decide) hLevel).trans
        (by decide +kernel)
    · exact ((hKeys "selectedTags").2 _ (by decide)
        hTags).trans (by decide +kernel)
    · exact ((hKeys "group").2 _ (by decide) hGroup).trans
        (by decide +kernel)

end Request

end Dialectic
