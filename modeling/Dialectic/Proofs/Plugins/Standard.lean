import Dialectic.Plugins.Standard

/-
  The plugins of the application with all built-in ones.

  Main theorems:
    * `Application.mem_plugins_add`
    * `Application.standard_plugins`
    * `Application.standard_registry`
    * `Application.standard_processes`
    * `Plugin.runGroup_eq`
-/

namespace Dialectic

namespace Application

/- The plugins of a stage in a list that one was added to. -/
theorem mem_lookup_register
    {p q : Plugin}
    {s t : Stage}
    {registry : List (Stage × List Plugin)}
    (hMem :
      p ∈ ((register q t registry).lookup s).getD []) :
    (p, s) = (q, t) ∨ p ∈ (registry.lookup s).getD [] := by
  induction registry with
  | nil =>
      by_cases hStage : s = t
      · left
        simpa [register, List.lookup_cons, hStage] using hMem
      · have hNot : (s == t) = false := by simp [hStage]
        simp [register, List.lookup_cons, hNot] at hMem
  | cons entry registry ih =>
      rcases entry with ⟨u, plugins⟩
      by_cases hFirst : u = t
      · subst hFirst
        by_cases hStage : s = u
        · have hEither : p ∈ plugins ∨ p = q := by
            simpa [register, List.lookup_cons, hStage] using hMem
          rcases hEither with hOld | hNew
          · right
            simpa [List.lookup_cons, hStage] using hOld
          · left
            rw [hNew, hStage]
        · right
          have hNot : (s == u) = false := by simp [hStage]
          simpa [register, List.lookup_cons, hNot] using hMem
      · by_cases hStage : s = u
        · right
          simpa [register, List.lookup_cons, hFirst, hStage]
            using hMem
        · have hNot : (s == u) = false := by simp [hStage]
          simp only [register, hFirst, if_false, List.lookup_cons,
            hNot] at hMem
          simpa [List.lookup_cons, hNot] using ih hMem

/- The plugins of a stage when one has been added. -/
theorem mem_plugins_add
    {app : Application}
    {p q : Plugin}
    {s t : Stage}
    (hMem : p ∈ (app.add q t).plugins s) :
    (p, s) = (q, t) ∨ p ∈ app.plugins s :=
  mem_lookup_register hMem

/- The plugins of a stage when some have been added. -/
theorem mem_plugins_addAll
    {entries : List (Plugin × Stage)}
    {app : Application}
    {p : Plugin}
    {s : Stage}
    (hMem :
      p ∈ (entries.foldl
        (fun app entry => app.add entry.1 entry.2)
        app).plugins s) :
    (p, s) ∈ entries ∨ p ∈ app.plugins s := by
  induction entries generalizing app with
  | nil => exact Or.inr hMem
  | cons entry entries ih =>
      rcases ih hMem with hLater | hApp
      · exact Or.inl (List.mem_cons_of_mem _ hLater)
      · rcases mem_plugins_add hApp with hFirst | hApp
        · left
          rw [hFirst]
          exact List.mem_cons_self
        · exact Or.inr hApp

/- The plugins of a stage are built in for it. -/
theorem standard_plugins
    [YamlReader]
    {s : Stage}
    {p : Plugin}
    (hMem : p ∈ standard.plugins s) :
    (p, s) ∈ Plugin.builtIn := by
  rcases mem_plugins_addAll hMem with hBuiltIn | hEmpty
  · exact hBuiltIn
  · simp [plugins, empty] at hEmpty

/- The built-in plugins, by stage. -/
theorem standard_registry [YamlReader] :
    standard.registry =
      [ (.parseInput, [Plugin.parser]),
        (.buildModel,
          [Plugin.data, Plugin.model, Plugin.explodeArguments,
            Plugin.regroup, Plugin.derive]),
        (.buildMap,
          [Plugin.preselection, Plugin.statementSelection,
            Plugin.argumentSelection, Plugin.map, Plugin.group]),
        (.transformClosedGroups, [Plugin.closedGroup]),
        (.colorize, [Plugin.color]),
        (.exportDot, [Plugin.dotExport]),
        (.exportJson, [Plugin.jsonExport]) ] := by
  simp [standard, Plugin.builtIn, add, register, empty]

/- Adding plugins leaves the processes as they were. -/
theorem standard_processes [YamlReader] :
    standard.processes = standardProcesses := by
  simp [standard, Plugin.builtIn, add]

end Application

/-
  The map is put back in each case, so that the plugin that
  makes groups changes the response only if it succeeds.
-/
theorem Plugin.runGroup_eq
    (r : Request)
    (response : Response)
    (logger : Logger) :
    runGroup r response logger =
      match r.settings SettingsSpace.group, response.map,
          response.model with
      | .error failure, _, _ => .failed response failure
      | .ok _, none, _ =>
          .failed response (missing "group" .map)
      | .ok _, some _, none =>
          .failed response (missing "group" .model)
      | .ok settings, some map, some m =>
          .done
            { response with
              map := some (map.buildGroups m settings) }
            [] := by
  unfold runGroup
  cases r.settings SettingsSpace.group with
  | error failure => rfl
  | ok settings =>
      rcases response with ⟨_, _, _, model, _, map⟩
      cases map <;> cases model <;> rfl

end Dialectic
