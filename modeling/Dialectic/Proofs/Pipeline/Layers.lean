import Dialectic.Proofs.Pipeline.Settling

/-
  Front matter, the settings of a request and the standard
  ones are three layers, which may be laid in either grouping.

  Main theorems:
    * `Request.configured?_of_ofValue?`
    * `Request.configured?_layers`
    * `Request.resolve_layers`
-/

namespace Dialectic

namespace Request

------------------------------------------------------------
-- Configured Spaces
------------------------------------------------------------

/- A space is configured as the value of a request has it. -/
theorem configured?_of_ofValue?
    {given : Record}
    {r : Request}
    (hRead : ofValue? (.record given) = some r)
    {space : String}
    (hSpace : space ∉ fieldNames) :
    r.configured? space = Record.get? given space := by
  rcases ofValue?_some hRead with ⟨_, hGiven, _, _, hRaw⟩
  cases hGiven
  unfold configured?
  rw [hRaw]
  apply Record.get?_filter given
    (fun name => !fieldNames.contains name)
  simpa using hSpace

/- Front matter may change every space. -/
theorem get?_changes
    (frontMatter : Record)
    {space : String}
    (hSpace : space ∉ fieldNames) :
    Record.get? (changes frontMatter) space =
      Record.get? frontMatter space := by
  apply Record.get?_filter frontMatter
    (fun name => !protectedKeys.contains name)
  have hOther : space ∉ protectedKeys := by
    intro hMem
    exact hSpace (List.mem_append_left _ (by
      simp only [protectedKeys, List.mem_cons,
        List.not_mem_nil, or_false] at hMem ⊢
      rcases hMem with rfl | rfl | rfl <;> simp))
  simpa using hOther

/-
  A space is configured by front matter that is laid over the
  configuration of the request.
-/
theorem configured?_layers
    {given frontMatter : Record}
    {r next : Request}
    (hGiven : given.InOrder)
    (hFront : frontMatter.InOrder)
    (hRead : ofValue? (.record given) = some r)
    (hOverlay : overlay frontMatter r = (.ok (), next))
    {space : String}
    (hSpace : space ∉ fieldNames) :
    (next.configured? space).getD .null =
      Value.layOver
        ((Record.get? frontMatter space).getD .null)
        ((Record.get? given space).getD .null) := by
  have hOwn := configured?_of_ofValue? hRead hSpace
  have hTop := get?_changes frontMatter hSpace
  rcases configured?_overlay hOverlay with
    ⟨hSame, hEmpty⟩ | ⟨_, hLaid⟩
  · -- nothing is laid over the request
    rw [List.isEmpty_iff.mp hEmpty] at hTop
    have hNext : next.configured? space = r.configured? space :=
      by simp only [configured?, hSame]
    rw [← hTop, hNext, hOwn]
    simp [Record.get?, Value.layOver]
  · have hChanges : (changes frontMatter).InOrder :=
      Record.inOrder_filter hFront _
    have hRaw : r.raw.InOrder := by
      rcases ofValue?_some hRead with ⟨_, hFields, _, _, hRaw⟩
      cases hFields
      rw [hRaw]
      exact Record.inOrder_filter hGiven _
    rw [hLaid space hSpace, layered,
      Value.getD_layFieldsOver hChanges, hTop,
      get?_fields hRaw hSpace, hOwn]

------------------------------------------------------------
-- Layers
------------------------------------------------------------

/-
  Laying values over others is associative and idempotent, and
  null changes nothing.  So the settings of a space, after
  front matter was laid over a request, are read from the front
  matter over the request over the defaults, in either
  grouping.
-/
theorem resolve_layers :
    (∀ top middle bottom : Value,
      middle.InOrder →
        top.layOver (middle.layOver bottom) =
          (top.layOver middle).layOver bottom) ∧
    (∀ value : Value,
      Value.null.layOver value = value ∧
        value.layOver .null = value) ∧
    (∀ value default : Value,
      value.InOrder →
        value.layOver (value.layOver default) =
          value.layOver default) ∧
    ∀ (given frontMatter : Record) (r next : Request),
      (Value.record given).InOrder →
      (Value.record frontMatter).InOrder →
      ofValue? (.record given) = some r →
      overlay frontMatter r = (.ok (), next) →
        ∀ {σ : Type} (space : SettingsSpace σ) (defaults : σ),
          space.name ∉ fieldNames →
            let front :=
              (Record.get? frontMatter space.name).getD .null
            let own :=
              (Record.get? given space.name).getD .null
            let standard := space.toValue defaults
            next.resolve space defaults =
                (match
                    space.ofValue?
                      (front.layOver (own.layOver standard)) with
                | some s => .ok s
                | none =>
                    .error (.unreadableSettings space.name)) ∧
              front.layOver (own.layOver standard) =
                (front.layOver own).layOver standard := by
  refine
    ⟨fun top _ bottom hMiddle =>
        top.layOver_assoc bottom hMiddle,
      fun value =>
        ⟨by simp [Value.layOver], value.layOver_null⟩,
      fun _ default hOrder =>
        Value.layOver_layOver hOrder default,
      ?_⟩
  intro given frontMatter r next hGiven hFront hRead hOverlay σ
    space defaults hSpace front own standard
  cases hGiven with
  | record _ hKeys hValues =>
      cases hFront with
      | record _ hFrontKeys _ =>
          have hOwn : own.InOrder :=
            Value.inOrder_getD hValues space.name
          have hGrouping := front.layOver_assoc standard hOwn
          have hConfigured :
              (next.configured? space.name).getD .null =
                front.layOver own :=
            configured?_layers hKeys hFrontKeys hRead hOverlay
              hSpace
          refine ⟨?_, hGrouping⟩
          have hValue :
              ((next.configured? space.name).getD .null).layOver
                  standard =
                front.layOver (own.layOver standard) := by
            rw [hConfigured, hGrouping]
          rw [← hValue]
          rfl

/-
  The colors of tags come from all three layers; a null in
  front matter leaves the color of the layer below.
-/
theorem resolve_layers_colors :
    let own : Value :=
      .record
        [ ("proColor", .text "olive"),
          ("tagColors", .record [("a", .text "red")]) ]
    let front : Value :=
      .record
        [ ("proColor", .null),
          ("tagColors", .record [("b", .text "blue")]) ]
    let standard := SettingsSpace.color.toValue .standard
    own.InOrder ∧
      front.layOver (own.layOver standard) =
        (front.layOver own).layOver standard ∧
      own.layOver (own.layOver standard) =
        own.layOver standard ∧
      SettingsSpace.color.name ∉ fieldNames ∧
      (Value.record [("color", own)]).InOrder ∧
      (Value.record [("color", front)]).InOrder ∧
      ∃ r next,
        ofValue? (.record [("color", own)]) = some r ∧
          overlay [("color", front)] r = (.ok (), next) ∧
          next.resolve .color .standard =
            (match
                SettingsSpace.color.ofValue?
                  (front.layOver (own.layOver standard)) with
              | some s => .ok s
              | none => .error (.unreadableSettings "color")) ∧
          (next.resolve .color .standard).toOption.map
              (fun s => (s.tagColors, s.proColor)) =
            some ([("a", "red"), ("b", "blue")], "olive") := by
  intro own front standard
  have hPair : ∀ {key other : String} {v w : Value},
      key < other → v.InOrder → w.InOrder →
        (Value.record [(key, v), (other, w)]).InOrder := by
    intro key other v w hLess hv hw
    refine .record _ ?_ ?_
    · simpa [Record.InOrder] using hLess
    · simpa using ⟨hv, hw⟩
  have hOne : ∀ {key : String} {v : Value}, v.InOrder →
      (Value.record [(key, v)]).InOrder := by
    intro key v hv
    exact .record _ (List.pairwise_singleton _ _) (by simpa)
  have hOwn : own.InOrder :=
    hPair (by decide) (.text _) (hOne (.text _))
  have hFront : front.InOrder :=
    hPair (by decide) .null (hOne (.text _))
  have hSpace : SettingsSpace.color.name ∉ fieldNames := by
    decide
  have hColors :
      ((ofValue? (.record [("color", own)])).map (fun r =>
        let done := overlay [("color", front)] r
        (done.1.toBool,
          (done.2.resolve .color .standard).toOption.map
            (fun s => (s.tagColors, s.proColor))))) =
        some (true, some ([("a", "red"), ("b", "blue")], "olive")) := by
    decide +kernel
  rcases Option.map_eq_some_iff.mp hColors with
    ⟨r, hRead, hRest⟩
  rcases hOverlay : overlay [("color", front)] r with
    ⟨_ | _, next⟩
  · simp [hOverlay, Except.toBool] at hRest
  have hResolved :
      (next.resolve .color .standard).toOption.map
          (fun s => (s.tagColors, s.proColor)) =
        some ([("a", "red"), ("b", "blue")], "olive") := by
    simpa [hOverlay, Except.toBool] using hRest
  rcases resolve_layers with ⟨hGroup, _, hTwice, hLayers⟩
  have hSettings :=
    hLayers _ _ r next (hOne hOwn) (hOne hFront) hRead hOverlay
      .color .standard hSpace
  exact
    ⟨hOwn, hGroup front own standard hOwn,
      hTwice own standard hOwn, hSpace, hOne hOwn,
      hOne hFront, r, next, hRead, hOverlay, hSettings.1,
      hResolved⟩

end Request

end Dialectic
