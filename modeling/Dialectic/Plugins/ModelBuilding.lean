import Dialectic.Model.Builder
import Dialectic.Model.Explode
import Dialectic.Model.Regroup
import Dialectic.Pipeline.Plugin

/-
  This file defines the plugins that build and complete the
  model of a document.

  Key definitions include:
    * `Plugin.model`
    * `Plugin.explodeArguments`
    * `Plugin.regroup`
    * `Plugin.derive`
-/

namespace Dialectic

namespace Plugin

------------------------------------------------------------
-- Building
------------------------------------------------------------

/-
  Build the model of the document.  If failures end the run,
  so does the first fault.
-/
def runModel
    (r : Request)
    (response : Response)
    (logger : Logger) : RunOutcome :=
  match r.settings SettingsSpace.model with
  | .error failure => .failed response failure
  | .ok settings =>
      match response.ast with
      | none => .failed response (missing "model" .ast)
      | some document =>
          let (built, faults) :=
            Model.build settings.removeTagsFromText document
          let response := { response with model := some built }
          if r.throwExceptions then
            match faults with
            | fault :: _ =>
                .failed response (.ofModelFault fault)
            | [] => .done response []
          else
            .done
              (response.report
                (faults.map Failure.ofModelFault))
              (faults.flatMap
                (fun fault => logger.log .error fault.message))

/- Builds the model of a document. -/
def model : Plugin where
  name := "model"
  isAsync := false
  capabilities := .both
  requires := [.ast]
  prepare := prepareSpace SettingsSpace.model
  run := runModel

------------------------------------------------------------
-- Completing
------------------------------------------------------------

/- Split arguments, if that is switched on. -/
def runExplode
    (r : Request)
    (response : Response)
    (logger : Logger) : RunOutcome :=
  match r.settings SettingsSpace.model with
  | .error failure => .failed response failure
  | .ok settings =>
      if settings.explodeArguments then
        match response.model with
        | none =>
            .failed response
              (missing "explode-arguments" .model)
        | some m =>
            let (m, count) := m.explode
            .done { response with model := some m }
              (logger.log .verbose
                ("exploded " ++ toString count ++ " arguments"))
      else
        .done response []

/- Splits arguments with several inferences. -/
def explodeArguments : Plugin where
  name := "explode-arguments"
  isAsync := false
  capabilities := .both
  requires := [.model]
  prepare := prepareSpace SettingsSpace.model
  run := runExplode

/- The message about a listed element that does not exist. -/
def unknownElementText (element : Element) : String :=
  "regroup: no statement or argument titled `"
    ++ element.display ++ "`"

/- Replace the sections of the model, if that is configured. -/
def runRegroup
    (r : Request)
    (response : Response)
    (logger : Logger) : RunOutcome :=
  match r.settings SettingsSpace.group with
  | .error failure => .failed response failure
  | .ok settings =>
      match settings.regroup with
      | none => .done response []
      | some plans =>
          match response.model with
          | none => .failed response (missing "regroup" .model)
          | some m =>
              let (m, unknown) := m.regroup plans
              .done { response with model := some m }
                (unknown.flatMap (fun e =>
                  logger.log .warning (unknownElementText e)))

/- Replaces the sections of a document by configured ones. -/
def regroup : Plugin where
  name := "regroup"
  isAsync := false
  capabilities := .both
  requires := [.model]
  prepare := prepareSpace SettingsSpace.group
  run := runRegroup

/- Derive relations. -/
def runDerive
    (r : Request)
    (response : Response)
    (logger : Logger) : RunOutcome :=
  match r.settings SettingsSpace.model with
  | .error failure => .failed response failure
  | .ok settings =>
      match response.model with
      | none => .failed response (missing "derive" .model)
      | some m =>
          let (m, counts) :=
            m.derive settings.relationConflictPolicy
          .done { response with model := some m }
            (logger.log .verbose
              ("derived " ++ toString counts.total
                ++ " relations"))

/- Derives relations from declared ones. -/
def derive : Plugin where
  name := "derive"
  isAsync := false
  capabilities := .runOnly
  requires := [.model]
  prepare := prepareNothing
  run := runDerive

end Plugin

end Dialectic
