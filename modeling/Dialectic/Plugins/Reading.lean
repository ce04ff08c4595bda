import Dialectic.Pipeline.Plugin

/-
  This file defines the plugins that read a document and apply
  its front matter.

  Key definitions include:
    * `Plugin.parser`
    * `Plugin.data`
-/

namespace Dialectic

namespace Plugin

variable [YamlReader]

/- The response with a document and its faults. -/
def withDocument (response : Response) (parsed : Parsed) :
    Response :=
  { response.report
      (parsed.faults.map Failure.ofSyntaxFault) with
    frontMatter := parsed.document.frontMatter
    parserFaults := parsed.faults
    ast := some parsed.document }

/-
  Read the input.  If failures end the run, so does the first
  fault.
-/
def runParser
    (r : Request)
    (response : Response)
    (logger : Logger) : RunOutcome :=
  let policy :=
    if r.throwExceptions then FaultPolicy.failFast
    else .recover
  match Document.parse policy (r.input.getD "") with
  | .error fault =>
      .failed response (.ofSyntaxFault fault)
  | .ok parsed =>
      .done (withDocument response parsed)
        (parsed.faults.flatMap
          (fun fault => logger.log .warning fault.display))

/- Reads the input of a request. -/
def parser : Plugin where
  name := "parser"
  isAsync := false
  capabilities := .runOnly
  requires := []
  prepare := prepareNothing
  run := runParser

/- Lay the front matter of the document over the request. -/
def prepareData (r : Request) (response : Response) :
    PrepareOutcome :=
  match response.frontMatter with
  | some fields => .ofEdit (Request.overlay fields) r
  | none => ⟨r, none⟩

/- Applies the front matter of a document. -/
def data : Plugin where
  name := "data"
  isAsync := false
  capabilities := .prepareOnly
  requires := []
  prepare := prepareData
  run := fun _ response _ => .done response []

end Plugin

end Dialectic
