import Dialectic.Proofs.Document.FrontMatter
import Dialectic.Proofs.Map.Build
import Dialectic.Proofs.Map.Grouping
import Dialectic.Proofs.Map.Soundness
import Dialectic.Proofs.Model.Building
import Dialectic.Proofs.Notation.KeyOrder
import Dialectic.Proofs.Pipeline.Invariants
import Dialectic.Proofs.Pipeline.Settling
import Dialectic.Proofs.Plugins.Standard

/-
  The map of a run is sound, whatever stages it goes through.

  Key definitions include:
    * `Running.Orderly`
    * `Running.Applied`
    * `Running.Mapping`

  Main theorems:
    * `Application.leads_buildModel`
    * `Application.leads_buildMap`
    * `Application.run_map_isSound`
-/

namespace Dialectic

section AnyReader

variable [YamlReader]

namespace Running

------------------------------------------------------------
-- Orderly Runs
------------------------------------------------------------

/- The front matter of a text. -/
def frontMatterOf (input : String) : Option Record :=
  (Document.read input).document.frontMatter

/- The settings for building maps can be read. -/
def MapReadable (r : Request) : Prop :=
  ∃ settings,
    r.resolve SettingsSpace.map SettingsSpace.map.standard =
      .ok settings

/-
  What holds before and after each stage.  As soon as there is
  a model, front matter does not change settings any more; so
  whoever has built a map can do it again.
-/
structure Orderly
    (input : String)
    (r : Request)
    (response : Response) : Prop where
  text : r.input.getD "" = input
  separate : r.IsSeparate
  ast : ∀ document, response.ast = some document →
    document = (Document.read input).document
  frontMatter :
    response.frontMatter =
      response.ast.bind Document.frontMatter
  ordered : ∀ m, response.model = some m →
    SectionsOrdered m.sections
  settled : response.model ≠ none →
    r.Settled (frontMatterOf input)
  model : response.map ≠ none → response.model ≠ none
  readable : response.map ≠ none → MapReadable r
  arranged : ∀ map, response.map = some map →
    map.Arranged ∧ (map.edges.map MapEdge.pair).Nodup

/- Front matter has been applied, if there is a document. -/
structure Applied
    (input : String)
    (r : Request)
    (response : Response) : Prop where
  orderly : Orderly input r response
  settled : response.ast ≠ none →
    r.Settled (frontMatterOf input)

variable {input : String}
variable {r : Request}
variable {response next : Response}

/- Producing nothing but a selection or colors is orderly. -/
theorem Orderly.of_same
    (hOrderly : Orderly input r response)
    (hAst : next.ast = response.ast)
    (hFrontMatter : next.frontMatter = response.frontMatter)
    (hModel : next.model = response.model)
    (hMap : next.map = response.map) :
    Orderly input r next := by
  refine
    ⟨hOrderly.text, hOrderly.separate, ?_, ?_, ?_, ?_, ?_, ?_,
      ?_⟩
  · rw [hAst]
    exact hOrderly.ast
  · rw [hFrontMatter, hAst]
    exact hOrderly.frontMatter
  · rw [hModel]
    exact hOrderly.ordered
  · rw [hModel]
    exact hOrderly.settled
  · rw [hMap, hModel]
    exact hOrderly.model
  · rw [hMap]
    exact hOrderly.readable
  · rw [hMap]
    exact hOrderly.arranged

/- A model with ordered sections is orderly. -/
theorem Orderly.withModel
    (hOrderly : Orderly input r response)
    (hSettled : r.Settled (frontMatterOf input))
    {m : Model}
    (hOrdered : SectionsOrdered m.sections) :
    Orderly input r { response with model := some m } where
  text := hOrderly.text
  separate := hOrderly.separate
  ast := hOrderly.ast
  frontMatter := hOrderly.frontMatter
  ordered := by
    intro k hModel
    cases hModel
    exact hOrdered
  settled := fun _ => hSettled
  model := by simp
  readable := hOrderly.readable
  arranged := hOrderly.arranged

/- An arranged map whose settings can be read is orderly. -/
theorem Orderly.withMap
    (hOrderly : Orderly input r response)
    (hModel : response.model ≠ none)
    (hReadable : MapReadable r)
    {map : ArgumentMap}
    (hMap : map.Arranged)
    (hPairs : (map.edges.map MapEdge.pair).Nodup) :
    Orderly input r { response with map := some map } where
  text := hOrderly.text
  separate := hOrderly.separate
  ast := hOrderly.ast
  frontMatter := hOrderly.frontMatter
  ordered := hOrderly.ordered
  settled := hOrderly.settled
  model := fun _ => hModel
  readable := fun _ => hReadable
  arranged := by
    intro other hOther
    cases hOther
    exact ⟨hMap, hPairs⟩

/- Cancelling and preparing settings is orderly. -/
theorem Orderly.of_raw
    (hOrderly : Orderly input r response)
    (isCancelled : Bool)
    (prepared : PreparedSettings) :
    Orderly input
      { r with isCancelled := isCancelled, prepared := prepared }
      response where
  text := hOrderly.text
  separate := hOrderly.separate
  ast := hOrderly.ast
  frontMatter := hOrderly.frontMatter
  ordered := hOrderly.ordered
  settled := fun hModel =>
    (hOrderly.settled hModel).of_raw isCancelled prepared
  model := hOrderly.model
  readable := hOrderly.readable
  arranged := hOrderly.arranged

/- Being orderly is stable. -/
theorem orderly_stable : Stable (Orderly input) where
  report := fun _ _ _ hOrderly =>
    hOrderly.of_same rfl rfl rfl rfl
  cancel := fun r _ isCancelled hOrderly =>
    hOrderly.of_raw isCancelled r.prepared

/- Having applied front matter is stable. -/
theorem applied_stable : Stable (Applied input) where
  report := fun _ _ _ hApplied =>
    ⟨hApplied.orderly.of_same rfl rfl rfl rfl,
      hApplied.settled⟩
  cancel := fun r _ isCancelled hApplied =>
    ⟨hApplied.orderly.of_raw isCancelled r.prepared,
      fun hAst =>
        (hApplied.settled hAst).of_raw isCancelled r.prepared⟩

end Running

open Running

------------------------------------------------------------
-- Preparing
------------------------------------------------------------

namespace Plugin

variable {input : String}

/- What prepares settings changes only what is prepared. -/
omit [YamlReader] in
theorem prepareSpace_request
    {σ : Type}
    (space : SettingsSpace σ)
    (r : Request)
    (response : Response) :
    ∃ prepared,
      (prepareSpace space r response).request =
        { r with prepared := prepared } := by
  rw [prepareSpace_eq]
  cases r.resolve space space.standard with
  | ok settings => exact ⟨_, rfl⟩
  | error failure => exact ⟨r.prepared, rfl⟩

/- Preparing settings fails if they cannot be read. -/
omit [YamlReader] in
theorem prepareSpace_failure
    {σ : Type}
    (space : SettingsSpace σ)
    (r : Request)
    (response : Response) :
    (prepareSpace space r response).failure.isNone = true ↔
      ∃ settings,
        r.resolve space space.standard = .ok settings := by
  rw [prepareSpace_eq]
  cases r.resolve space space.standard <;> simp

/- Settings that can be read are those of a plugin. -/
omit [YamlReader] in
theorem settings_of_readable
    {σ : Type}
    {space : SettingsSpace σ}
    {r : Request}
    (hReadable : ∃ settings,
      r.resolve space space.standard = .ok settings) :
    ∃ settings, r.settings space = .ok settings := by
  unfold Request.settings
  cases space.slot r.prepared with
  | none => exact hReadable
  | some settings => exact ⟨settings, rfl⟩

/- Preparing settings is orderly. -/
theorem prepareSpace_orderly
    {σ : Type}
    (space : SettingsSpace σ)
    {r : Request}
    {response : Response}
    (hOrderly : Orderly input r response) :
    Orderly input (prepareSpace space r response).request
      response := by
  rcases prepareSpace_request space r response with
    ⟨prepared, hRequest⟩
  rw [hRequest]
  exact hOrderly.of_raw r.isCancelled prepared

/- Preparing settings leaves front matter applied. -/
theorem prepareSpace_applied
    {σ : Type}
    (space : SettingsSpace σ)
    {r : Request}
    {response : Response}
    (hApplied : Applied input r response) :
    Applied input (prepareSpace space r response).request
      response := by
  refine
    ⟨prepareSpace_orderly space hApplied.orderly, ?_⟩
  intro hAst
  rcases prepareSpace_request space r response with
    ⟨prepared, hRequest⟩
  rw [hRequest]
  exact (hApplied.settled hAst).of_raw r.isCancelled prepared

/-
  Front matter that is laid over the request settles it.  If
  it was laid over it before, maps can still be built.
-/
theorem prepareData_applied
    [LawfulYamlReader]
    {r : Request}
    {response : Response}
    (hOrderly : Orderly input r response) :
    Applied input (prepareData r response).request response := by
  unfold prepareData
  cases hAst : response.ast with
  | none =>
      have hNone : response.frontMatter = none := by
        rw [hOrderly.frontMatter, hAst]
        rfl
      rw [hNone]
      exact ⟨hOrderly, fun hSome => absurd hAst hSome⟩
  | some document =>
      have hFrontMatter :
          response.frontMatter = frontMatterOf input := by
        rw [hOrderly.frontMatter, hAst,
          hOrderly.ast document hAst]
        rfl
      rw [hFrontMatter]
      cases hFields : frontMatterOf input with
      | none =>
          refine ⟨hOrderly, fun _ => ?_⟩
          rw [hFields]
          exact r.settled_none
      | some fields =>
          rcases PrepareOutcome.ofEdit_overlay fields r with
            ⟨failure, hOverlay, hOutcome⟩ |
              ⟨next, hOverlay, hOutcome⟩
          · simp only [hOutcome]
            refine ⟨hOrderly, fun _ => ?_⟩
            rw [hFields]
            exact Request.settled_of_error hOverlay
          · simp only [hOutcome]
            have hSettled :
                next.Settled (frontMatterOf input) := by
              rw [hFields]
              exact
                Request.settled_overlay
                  (Document.frontMatter_inOrder hFields)
                  hOverlay
            rcases Request.overlay_keeps hOrderly.separate
                hOverlay with
              ⟨hSeparate, hInput, _, _⟩
            refine ⟨?_, fun _ => hSettled⟩
            refine
              ⟨?_, hSeparate, hOrderly.ast,
                hOrderly.frontMatter, hOrderly.ordered,
                fun _ => hSettled, hOrderly.model, ?_,
                hOrderly.arranged⟩
            · exact
                (congrArg (·.getD "") hInput).trans
                  hOrderly.text
            · intro hMap
              have hOnce :=
                hOrderly.settled (hOrderly.model hMap)
              rcases hOrderly.readable hMap with
                ⟨settings, hRead⟩
              refine ⟨settings, ?_⟩
              rw [← hRead]
              apply Request.resolve_congr
              exact
                hOnce fields next hFields hOverlay _
                  (by decide)

------------------------------------------------------------
-- Reading
------------------------------------------------------------

/- The plugin that reads documents is orderly. -/
theorem parser_keeps : parser.Keeps (Orderly input) := by
  refine ⟨fun _ _ hOrderly => hOrderly, ?_⟩
  intro r response logger hOrderly
  rcases Document.parse_policies input with
    ⟨parsed, hRecover, hFail⟩
  have hRead : Document.read input = parsed := by
    simp [Document.read, hRecover]
  have hDone :
      Orderly input r (withDocument response parsed) := by
    refine
      ⟨hOrderly.text, hOrderly.separate, ?_, rfl,
        hOrderly.ordered, hOrderly.settled, hOrderly.model,
        hOrderly.readable, hOrderly.arranged⟩
    intro document hAst
    cases hAst
    rw [hRead]
  simp only [parser, runParser, hOrderly.text]
  cases r.throwExceptions with
  | false =>
      simp only [hRecover, Bool.false_eq_true, if_false]
      exact hDone
  | true =>
      simp only [hFail, if_true]
      cases parsed.faults with
      | nil => exact hDone
      | cons fault faults => exact hOrderly

------------------------------------------------------------
-- Models
------------------------------------------------------------

/- A model of ordered sections leaves front matter applied. -/
theorem applied_withModel
    {r : Request}
    {response : Response}
    (hApplied : Applied input r response)
    (hSettled : r.Settled (frontMatterOf input))
    {m : Model}
    (hOrdered : SectionsOrdered m.sections) :
    Applied input r { response with model := some m } :=
  ⟨hApplied.orderly.withModel hSettled hOrdered,
    hApplied.settled⟩

/- The plugin that builds models is orderly. -/
theorem model_keeps : model.Keeps (Applied input) := by
  refine ⟨fun _ _ hApplied => prepareSpace_applied _ hApplied, ?_⟩
  intro r response logger hApplied
  simp only [model, runModel]
  split
  · exact hApplied
  · split
    · exact hApplied
    · next document hAst =>
        have hBuilt := fun withoutTags =>
          applied_withModel hApplied
            (hApplied.settled (by simp [hAst]))
            (Model.build_ordered withoutTags document)
        split
        · split
          · exact hBuilt _
          · exact hBuilt _
        · exact applied_stable.report _ _ _ (hBuilt _)

/- The plugin that splits arguments is orderly. -/
theorem explodeArguments_keeps :
    explodeArguments.Keeps (Applied input) := by
  refine ⟨fun _ _ hApplied => prepareSpace_applied _ hApplied, ?_⟩
  intro r response logger hApplied
  simp only [explodeArguments, runExplode]
  split
  · exact hApplied
  · split
    · split
      · exact hApplied
      · next m hModel =>
          apply applied_withModel hApplied
          · exact hApplied.orderly.settled (by simp [hModel])
          · rw [Model.explode_sections]
            exact hApplied.orderly.ordered m hModel
    · exact hApplied

/- The plugin that replaces sections is orderly. -/
theorem regroup_keeps : regroup.Keeps (Applied input) := by
  refine ⟨fun _ _ hApplied => prepareSpace_applied _ hApplied, ?_⟩
  intro r response logger hApplied
  simp only [regroup, runRegroup]
  split
  · exact hApplied
  · split
    · exact hApplied
    · split
      · exact hApplied
      · next m hModel =>
          apply applied_withModel hApplied
          · exact hApplied.orderly.settled (by simp [hModel])
          · exact Model.regroup_ordered m _

/- The plugin that derives relations is orderly. -/
theorem derive_keeps : derive.Keeps (Applied input) := by
  refine ⟨fun _ _ hApplied => hApplied, ?_⟩
  intro r response logger hApplied
  simp only [derive, runDerive]
  split
  · exact hApplied
  · split
    · exact hApplied
    · next m hModel =>
        apply applied_withModel hApplied
        · exact hApplied.orderly.settled (by simp [hModel])
        · rw [Model.derive_sections]
          exact hApplied.orderly.ordered m hModel

/- The plugin that applies front matter keeps it applied. -/
theorem data_keeps [LawfulYamlReader] :
    data.Keeps (Applied input) :=
  ⟨fun _ _ hApplied => prepareData_applied hApplied.orderly,
    fun _ _ _ hApplied => hApplied⟩

end Plugin

------------------------------------------------------------
-- Building Models
------------------------------------------------------------

namespace Application

/- The plugins that build models, in their order. -/
theorem standard_plugins_buildModel :
    standard.plugins .buildModel =
      [Plugin.data, Plugin.model, Plugin.explodeArguments,
        Plugin.regroup, Plugin.derive] := by
  rw [plugins, standard_registry]
  rfl

/- Building models is orderly. -/
theorem leads_buildModel
    [LawfulYamlReader]
    (input : String)
    (mode : RunMode) :
    Leads (Orderly input) (Orderly input)
      (Running.stage mode .buildModel
        (standard.plugins .buildModel)) := by
  rw [standard_plugins_buildModel]
  have hKeeps : ∀ p ∈ [Plugin.data, Plugin.model,
      Plugin.explodeArguments, Plugin.regroup, Plugin.derive],
      p.Keeps (Applied input) := by
    simp only [List.forall_mem_cons]
    exact
      ⟨Plugin.data_keeps, Plugin.model_keeps,
        Plugin.explodeArguments_keeps, Plugin.regroup_keeps,
        Plugin.derive_keeps, by simp⟩
  intro s a u hStart hRun
  rcases stage_ok hRun with
    ⟨entered, ready, t, level, hSame, hPrepare, hRest⟩
  rw [← hSame.1, ← hSame.2] at hStart
  have hPrepared : Leads (Orderly input) (Applied input)
      (prepareAll [Plugin.data, Plugin.model,
        Plugin.explodeArguments, Plugin.regroup,
        Plugin.derive]) := by
    refine
      leads_bind
        (leads_prepareOne applied_stable rfl
          (fun _ _ => Plugin.prepareData_applied))
        (fun _ =>
          leads_bind
            (leads_prepareAll applied_stable
              (fun p hp => hKeeps p (by simp [hp])))
            (fun _ => leads_pure _))
  have hDone :=
    leads_runAll applied_stable mode level
      (fun p hp => hKeeps p (prepareAll_subset hPrepare p hp))
      t a u (hPrepared entered ready t hStart hPrepare) hRest
  exact hDone.orderly

end Application

------------------------------------------------------------
-- Selections
------------------------------------------------------------

namespace Running

/-
  While maps are built: `builds` tells whether the plugin that
  does so is ready.
-/
structure Mapping
    (input : String)
    (builds : Bool)
    (r : Request)
    (response : Response) : Prop where
  orderly : Orderly input r response
  readable : builds = true ↔ MapReadable r

/- Elements have been selected, if there is a model. -/
structure Selected
    (input : String)
    (builds : Bool)
    (r : Request)
    (response : Response) : Prop where
  mapping : Mapping input builds r response
  selection : response.model ≠ none → response.selection ≠ none

/- The map, if there is one, has just been built. -/
structure Drawn
    (input : String)
    (r : Request)
    (response : Response) : Prop where
  orderly : Orderly input r response
  plain : ∀ map, response.map = some map → map.Plain

/- Building maps is stable. -/
theorem mapping_stable {input : String} (builds : Bool) :
    Stable (Mapping input builds) where
  report := fun _ _ _ hMapping =>
    ⟨hMapping.orderly.of_same rfl rfl rfl rfl,
      hMapping.readable⟩
  cancel := fun r _ isCancelled hMapping =>
    ⟨hMapping.orderly.of_raw isCancelled r.prepared,
      hMapping.readable⟩

/- Having selected elements is stable. -/
theorem selected_stable {input : String} (builds : Bool) :
    Stable (Selected input builds) where
  report := fun _ _ _ hSelected =>
    ⟨(mapping_stable builds).report _ _ _ hSelected.mapping,
      hSelected.selection⟩
  cancel := fun _ _ _ hSelected =>
    ⟨(mapping_stable builds).cancel _ _ _ hSelected.mapping,
      hSelected.selection⟩

/- Having just built a map is stable. -/
theorem drawn_stable {input : String} :
    Stable (Drawn input) where
  report := fun _ _ _ hDrawn =>
    ⟨orderly_stable.report _ _ _ hDrawn.orderly,
      hDrawn.plain⟩
  cancel := fun _ _ _ hDrawn =>
    ⟨orderly_stable.cancel _ _ _ hDrawn.orderly,
      hDrawn.plain⟩

end Running

namespace Plugin

variable {input : String}
variable {builds : Bool}
variable {mode : RunMode}
variable {level : LogLevel}

/- Preparing settings leaves it open whether maps are built. -/
theorem prepareSpace_mapping
    {σ : Type}
    (space : SettingsSpace σ)
    {r : Request}
    {response : Response}
    (hMapping : Mapping input builds r response) :
    Mapping input builds
      (prepareSpace space r response).request response := by
  refine ⟨prepareSpace_orderly space hMapping.orderly, ?_⟩
  rcases prepareSpace_request space r response with
    ⟨prepared, hRequest⟩
  rw [hRequest]
  exact hMapping.readable

/- Elements are selected if there is a model. -/
theorem leads_preselection :
    Leads (Mapping input builds) (Selected input builds)
      (runOne mode level preselection) := by
  apply leads_runOne (selected_stable builds)
  intro s hMapping
  have hWithout :
      s.response.model = none →
        Selected input builds s.request s.response :=
    fun hNone => ⟨hMapping, fun hSome => absurd hNone hSome⟩
  apply outcome_response mode level rfl
  · intro field hField hMissing
    simp only [preselection, List.mem_singleton] at hField
    rw [hField] at hMissing
    exact hWithout (by simpa [Response.has] using hMissing)
  · simp only [preselection, runPreselection]
    cases hModel : s.response.model with
    | none => exact hWithout hModel
    | some m =>
        exact
          ⟨⟨hMapping.orderly.of_same rfl rfl hModel.symm rfl,
            hMapping.readable⟩, fun _ => Option.some_ne_none _⟩

/- Narrowing a selection down keeps one. -/
theorem runNarrowing_selected
    {σ : Type}
    (name : String)
    (space : SettingsSpace σ)
    {narrow :
      Model → Selection → σ → Selection.Filters →
        Model × Selection}
    (hSections : ∀ m s settings filters,
      (narrow m s settings filters).1.sections = m.sections)
    {r : Request}
    {response : Response}
    (logger : Logger)
    (hSelected : Selected input builds r response) :
    Selected input builds r
      (runNarrowing name space narrow r response
        logger).response := by
  unfold runNarrowing
  cases r.settings space with
  | error failure => exact hSelected
  | ok settings =>
      cases hSelection : response.selection with
      | none => exact hSelected
      | some s =>
          cases hModel : response.model with
          | none =>
              refine ⟨⟨?_, hSelected.mapping.readable⟩, ?_⟩
              · exact
                  hSelected.mapping.orderly.of_same rfl rfl
                    hModel.symm rfl
              · exact fun hSome => absurd rfl hSome
          | some m =>
              refine
                ⟨⟨?_, hSelected.mapping.readable⟩,
                  fun _ => Option.some_ne_none _⟩
              have hOrderly := hSelected.mapping.orderly
              refine
                (hOrderly.withModel
                  (m := (narrow m s settings r.filters).1)
                  (hOrderly.settled (by simp [hModel]))
                  ?_).of_same rfl rfl rfl rfl
              rw [hSections]
              exact hOrderly.ordered m hModel

/- The plugin that chooses classes keeps a selection. -/
theorem statementSelection_selected :
    Leads (Selected input builds) (Selected input builds)
      (runOne mode level statementSelection) := by
  apply leads_runOne (selected_stable builds)
  intro s hSelected
  exact
    outcome_response mode level rfl (fun _ _ _ => hSelected)
      (runNarrowing_selected _ _ (fun _ _ _ _ => rfl) _
        hSelected)

/- The plugin that chooses arguments keeps a selection. -/
theorem argumentSelection_selected :
    Leads (Selected input builds) (Selected input builds)
      (runOne mode level argumentSelection) := by
  apply leads_runOne (selected_stable builds)
  intro s hSelected
  exact
    outcome_response mode level rfl (fun _ _ _ => hSelected)
      (runNarrowing_selected _ _ (fun _ _ _ _ => rfl) _
        hSelected)

------------------------------------------------------------
-- Maps
------------------------------------------------------------

/- Without a map, none has to be built anew. -/
theorem drawn_of_none
    {r : Request}
    {response : Response}
    (hOrderly : Orderly input r response)
    (hNone : response.map = none) :
    Drawn input r response :=
  ⟨hOrderly, fun map hMap => by rw [hNone] at hMap; cases hMap⟩

/- The plugin that builds maps builds one if it is ready. -/
theorem leads_map (hBuilds : builds = true) :
    Leads (Selected input builds) (Drawn input)
      (runOne mode level map) := by
  apply leads_runOne drawn_stable
  intro s hSelected
  have hOrderly := hSelected.mapping.orderly
  have hReadable := hSelected.mapping.readable.mp hBuilds
  have hWithout :
      s.response.model = none →
        Drawn input s.request s.response := by
    intro hNone
    apply drawn_of_none hOrderly
    by_contra hMap
    exact hOrderly.model hMap hNone
  apply outcome_response mode level rfl
  · intro field hField hMissing
    apply hWithout
    simp only [map, List.mem_cons, List.not_mem_nil,
      or_false] at hField
    rcases hField with hField | hField
    · rw [hField] at hMissing
      simpa [Response.has] using hMissing
    · rw [hField] at hMissing
      by_contra hModel
      exact
        hSelected.selection hModel
          (by simpa [Response.has] using hMissing)
  · rcases settings_of_readable hReadable with
      ⟨settings, hSettings⟩
    simp only [map, runMap, hSettings]
    cases hModel : s.response.model with
    | none => exact hWithout hModel
    | some m =>
        have hSome : s.response.model ≠ none := by simp [hModel]
        cases hSelection : s.response.selection with
        | none =>
            exact absurd hSelection (hSelected.selection hSome)
        | some selection =>
            have hPlain :=
              ArgumentMap.build_plain m selection settings
            refine ⟨?_, ?_⟩
            · exact
                (hOrderly.withMap hSome hReadable
                  hPlain.arranged hPlain.pairs).of_same rfl rfl
                  hModel.symm rfl
            · intro built hBuilt
              cases hBuilt
              exact hPlain

/- The plugin that makes groups gets a map without groups. -/
theorem leads_group :
    Leads (Drawn input) (Orderly input)
      (runOne mode level group) := by
  apply leads_runOne orderly_stable
  intro s hDrawn
  apply outcome_response mode level rfl
    (fun _ _ _ => hDrawn.orderly)
  simp only [group, runGroup_eq]
  cases s.request.settings SettingsSpace.group with
  | error failure => exact hDrawn.orderly
  | ok settings =>
      cases hMap : s.response.map with
      | none => exact hDrawn.orderly
      | some drawn =>
          cases hModel : s.response.model with
          | none => exact hDrawn.orderly
          | some m =>
              have hPlain := hDrawn.plain drawn hMap
              have hOrdered :=
                hDrawn.orderly.ordered m hModel
              exact
                (hDrawn.orderly.withMap (by simp [hModel])
                  (hDrawn.orderly.readable (by simp [hMap]))
                  (hPlain.buildGroups_arranged hOrdered
                    settings)
                  hPlain.pairs).of_same rfl rfl hModel.symm rfl

/- Replacing closed groups is orderly. -/
theorem closedGroup_keeps :
    closedGroup.Keeps (Orderly input) := by
  refine ⟨fun _ _ hOrderly => hOrderly, ?_⟩
  intro r response logger hOrderly
  simp only [closedGroup, runClosedGroup]
  cases hMap : response.map with
  | none => exact hOrderly
  | some drawn =>
      have hArranged := hOrderly.arranged drawn hMap
      have hCollapsed := hArranged.1.collapse hArranged.2
      exact
        hOrderly.withMap (hOrderly.model (by simp [hMap]))
          (hOrderly.readable (by simp [hMap])) hCollapsed.1
          hCollapsed.2

------------------------------------------------------------
-- Output
------------------------------------------------------------

/- Coloring is orderly. -/
theorem color_keeps : color.Keeps (Orderly input) := by
  refine ⟨fun _ _ hOrderly => prepareSpace_orderly _ hOrderly, ?_⟩
  intro r response logger hOrderly
  simp only [color, runColor]
  split
  · exact hOrderly
  · next settings _ =>
      cases hModel : response.model with
      | none => exact hOrderly
      | some m =>
          have hSome : response.model ≠ none := by simp [hModel]
          have hColored :=
            hOrderly.withModel (m := (m.colorize settings).1)
              (hOrderly.settled hSome)
              (hOrderly.ordered m hModel)
          cases hMap : response.map with
          | none =>
              exact hColored.of_same rfl rfl rfl hMap.symm
          | some drawn =>
              have hArranged := hOrderly.arranged drawn hMap
              have hRecolored :=
                hArranged.1.colorize hArranged.2 settings
                  (m.colorize settings).2
              exact
                (hColored.withMap (by simp)
                  (hOrderly.readable (by simp [hMap]))
                  hRecolored.1 hRecolored.2).of_same rfl rfl rfl
                  rfl

/- Writing maps is orderly. -/
theorem dotExport_keeps : dotExport.Keeps (Orderly input) := by
  refine ⟨fun _ _ hOrderly => prepareSpace_orderly _ hOrderly, ?_⟩
  intro r response logger hOrderly
  simp only [dotExport, runDotExport]
  split
  · exact hOrderly
  · split
    · exact hOrderly
    · exact hOrderly.of_same rfl rfl rfl rfl

/- Writing models is orderly. -/
theorem jsonExport_keeps : jsonExport.Keeps (Orderly input) := by
  refine ⟨fun _ _ hOrderly => prepareSpace_orderly _ hOrderly, ?_⟩
  intro r response logger hOrderly
  simp only [jsonExport, runJsonExport]
  split
  · exact hOrderly
  · split
    · exact hOrderly
    · exact hOrderly.of_same rfl rfl rfl rfl

end Plugin

------------------------------------------------------------
-- Runs
------------------------------------------------------------

namespace Application

/- The plugins that build maps, in their order. -/
theorem standard_plugins_buildMap :
    standard.plugins .buildMap =
      [Plugin.preselection, Plugin.statementSelection,
        Plugin.argumentSelection, Plugin.map, Plugin.group] := by
  rw [plugins, standard_registry]
  rfl

/-
  Building maps is orderly.  If the settings for maps cannot
  be read, there was no map before and there is none after it;
  else groups are made in a map that has just been built.
-/
theorem leads_buildMap (input : String) (mode : RunMode) :
    Leads (Orderly input) (Orderly input)
      (Running.stage mode .buildMap
        (standard.plugins .buildMap)) := by
  rw [standard_plugins_buildMap]
  intro s a u hStart hRun
  rcases stage_ok hRun with
    ⟨entered, ready, t, level, hSame, hPrepare, hRest⟩
  rw [← hSame.1, ← hSame.2] at hStart
  rcases prepareAll_cons_ok hPrepare with
    ⟨first, s1, ready1, hFirst, hPrepare, hReady⟩
  rcases prepareAll_cons_ok hPrepare with
    ⟨narrows, s2, ready2, hSecond, hPrepare, hReady1⟩
  rcases prepareAll_cons_ok hPrepare with
    ⟨chooses, s3, ready3, hThird, hPrepare, hReady2⟩
  rcases prepareAll_cons_ok hPrepare with
    ⟨builds, s4, ready4, hFourth, hPrepare, hReady3⟩
  rcases prepareAll_cons_ok hPrepare with
    ⟨groups, s5, ready5, hFifth, hPrepare, hReady4⟩
  rcases pure_ok hPrepare with ⟨hReady5, hLast⟩
  rcases pure_ok hFirst with ⟨hFirst, hStill⟩
  -- Preparing settings does not change which of them can be
  -- read, so it is known from here on whether maps are built.
  have hMapping : Mapping input builds s3.request s3.response := by
    constructor
    · refine
        leads_prepareOne orderly_stable rfl
          (fun _ _ => Plugin.prepareSpace_orderly _) s2 chooses
          s3 ?_ hThird
      refine
        leads_prepareOne orderly_stable rfl
          (fun _ _ => Plugin.prepareSpace_orderly _) s1 narrows
          s2 ?_ hSecond
      rw [hStill]
      exact hStart
    · rw [prepareOne_ready rfl hFourth]
      exact
        Plugin.prepareSpace_failure SettingsSpace.map s3.request
          s3.response
  have hPrepared : Mapping input builds t.request t.response := by
    rw [hLast]
    refine
      leads_prepareOne (mapping_stable builds) rfl
        (fun _ _ => Plugin.prepareSpace_mapping _) s4 groups s5
        ?_ hFifth
    exact
      leads_prepareOne (mapping_stable builds) rfl
        (fun _ _ => Plugin.prepareSpace_mapping _) s3 builds s4
        hMapping hFourth
  have hGroup : Leads (Drawn input) (Orderly input)
      (runAll mode level ready4) := by
    rw [hReady4, hReady5]
    exact
      leads_runAll_cons (fun _ => Plugin.leads_group)
        (fun _ _ _ hDrawn => hDrawn.orderly)
        (leads_runAll_nil mode level)
  have hMap : Leads (Selected input builds) (Orderly input)
      (runAll mode level ready3) := by
    rw [hReady3]
    refine
      leads_runAll_cons Plugin.leads_map ?_ hGroup
    intro hNot r response hSelected
    have hOrderly := hSelected.mapping.orderly
    apply Plugin.drawn_of_none hOrderly
    by_contra hSome
    have hBuilds :=
      hSelected.mapping.readable.mpr (hOrderly.readable hSome)
    rw [hNot] at hBuilds
    cases hBuilds
  have hChoose : Leads (Selected input builds) (Orderly input)
      (runAll mode level ready2) := by
    rw [hReady2]
    exact
      leads_runAll_cons
        (fun _ => Plugin.argumentSelection_selected)
        (fun _ _ _ hSelected => hSelected) hMap
  have hNarrow : Leads (Selected input builds) (Orderly input)
      (runAll mode level ready1) := by
    rw [hReady1]
    exact
      leads_runAll_cons
        (fun _ => Plugin.statementSelection_selected)
        (fun _ _ _ hSelected => hSelected) hChoose
  have hSelect : Leads (Mapping input builds) (Orderly input)
      (runAll mode level ready) := by
    rw [hReady, hFirst]
    exact
      leads_runAll_cons (fun _ => Plugin.leads_preselection)
        (fun hSkipped => absurd hSkipped (by decide)) hNarrow
  exact hSelect t a u hPrepared hRest

/- Each stage is orderly. -/
theorem standard_leads
    [LawfulYamlReader]
    (input : String)
    (mode : RunMode)
    (s : Stage) :
    Leads (Orderly input) (Orderly input)
      (Running.stage mode s (standard.plugins s)) := by
  by_cases hModel : s = .buildModel
  · rw [hModel]
    exact leads_buildModel input mode
  by_cases hMap : s = .buildMap
  · rw [hMap]
    exact leads_buildMap input mode
  apply leads_stage orderly_stable
  intro p hp
  have hBuiltIn := standard_plugins hp
  simp only [Plugin.builtIn, List.mem_cons, Prod.mk.injEq,
    hModel, hMap, and_false, false_or, List.not_mem_nil,
    or_false] at hBuiltIn
  rcases hBuiltIn with h | h | h | h | h
  · exact h.1 ▸ Plugin.parser_keeps
  · exact h.1 ▸ Plugin.closedGroup_keeps
  · exact h.1 ▸ Plugin.color_keeps
  · exact h.1 ▸ Plugin.dotExport_keeps
  · exact h.1 ▸ Plugin.jsonExport_keeps

/-
  If a run through any built-in stages gives a response with a
  map, this map is sound.
-/
theorem run_map_isSound
    [LawfulYamlReader]
    (mode : RunMode)
    (r : Request)
    (hSeparate : r.IsSeparate)
    {response : Response}
    {map : ArgumentMap}
    (hRun : (standard.run mode r).result = .ok response)
    (hMap : response.map = some map) :
    map.IsSound := by
  have hStart :
      Orderly (r.input.getD "") r Response.empty := by
    refine ⟨rfl, hSeparate, ?_, rfl, ?_, ?_, ?_, ?_, ?_⟩ <;>
      simp [Response.empty]
  rcases run_invariant (standard_leads (r.input.getD "") mode)
      hStart hRun with
    ⟨last, hOrderly⟩
  rcases hOrderly.arranged map hMap with ⟨hArranged, hPairs⟩
  exact hArranged.isSound hPairs

end Application

end AnyReader

------------------------------------------------------------
-- Runs With the Standard Reader
------------------------------------------------------------

namespace Application

open scoped Yaml

/- A run that gives a response with a map. -/
theorem run_map_of_some
    {α : Type}
    {mode : RunMode}
    {r : Request}
    {f : ArgumentMap → α}
    {a : α}
    (hSome :
      ((standard.run mode r).result.toOption.bind
        Response.map).map f = some a) :
    ∃ response map,
      (standard.run mode r).result = .ok response ∧
        response.map = some map ∧ f map = a := by
  rcases Option.map_eq_some_iff.mp hSome with ⟨map, hFound, hA⟩
  rcases Option.bind_eq_some_iff.mp hFound with
    ⟨response, hResponse, hMap⟩
  refine ⟨response, map, ?_, hMap, hA⟩
  cases hResult : (standard.run mode r).result with
  | error failure => simp [hResult, Except.toOption] at hResponse
  | ok given =>
      simp only [hResult, Except.toOption, Option.some.injEq]
        at hResponse
      rw [hResponse]

/-
  A section is collapsed, and the map is then built and
  collapsed anew.
-/
theorem run_map_isSound_collapsed :
    let r : Request :=
      Request.configure
        { Request.empty with
          input := some
            "[A]: a\n\n# Pro \x7bisClosed: true\x7d\n\n[B]: b\n  - [A]"
          process := some
            (.stages
              ["parse-input", "build-model", "build-map",
                "transform-closed-groups", "build-map",
                "transform-closed-groups"]) }
        "map" (.record [("includeReciprocal", .flag true)])
    r.IsSeparate ∧
      ∃ response map,
        (standard.run .blocking r).result = .ok response ∧
          response.map = some map ∧
            map.nodes.map MapNode.id = ["n0", "g0"] ∧
              map.IsSound := by
  intro r
  have hSeparate : r.IsSeparate :=
    Request.isSeparate_configure _ (fun _ _ => rfl) (by decide)
  have hIds :
      ((standard.run .blocking r).result.toOption.bind
          Response.map).map (fun map => map.nodes.map MapNode.id) =
        some ["n0", "g0"] := by decide +kernel
  rcases run_map_of_some hIds with
    ⟨response, map, hRun, hMap, hNodes⟩
  exact
    ⟨hSeparate, response, map, hRun, hMap, hNodes,
      run_map_isSound .blocking r hSeparate hRun hMap⟩

/-
  A configured space has the name of the field for the input,
  so that front matter puts another text in its place.  The
  front matter of this text makes the settings for maps
  unreadable: the second round keeps the map of the first one
  and groups it once more.
-/
theorem run_map_unsound_shadowed :
    let r : Request :=
      Request.configure
        { Request.empty with
          input := some "===\nfoo: 1\n===\n\n# Pro\n\n[A]: a"
          process := some
            (.stages
              ["parse-input", "build-model", "build-map",
                "parse-input", "build-model", "build-map"]) }
        "input"
        (.text
          "===\nmap: \x7bincludeDerived: 0\x7d\n===\n\n# Pro\n\n[A]: a")
    ∃ response map,
      (standard.run .blocking r).result = .ok response ∧
        response.map = some map ∧
          map.groups.map MapGroup.nodes = [["n0"], ["n0"]] ∧
            map.validate ≠ [] ∧ ¬ map.IsSound := by
  intro r
  have hShown :
      ((standard.run .blocking r).result.toOption.bind
          Response.map).map
            (fun map =>
              (map.groups.map MapGroup.nodes,
                map.validate.isEmpty)) =
        some ([["n0"], ["n0"]], false) := by decide +kernel
  rcases run_map_of_some hShown with
    ⟨response, map, hRun, hMap, hSame⟩
  rcases Prod.mk.inj hSame with ⟨hNodes, hFaults⟩
  have hInvalid : map.validate ≠ [] :=
    List.isEmpty_eq_false_iff.mp hFaults
  exact
    ⟨response, map, hRun, hMap, hNodes, hInvalid,
      fun hSound => hInvalid hSound.valid⟩

end Application

end Dialectic
