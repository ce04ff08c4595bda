import Dialectic.Color.Basic
import Dialectic.Document.Parser
import Dialectic.Map.Basic
import Dialectic.Model.Basic
import Dialectic.Pipeline.Failure
import Dialectic.Selection.Basic

/-
  This file defines what a run produces.

  Key definitions include:
    * `Response`
    * `ResponseField`
    * `ResponseField.display`
    * `Response.has`
-/

namespace Dialectic

------------------------------------------------------------
-- Responses
------------------------------------------------------------

/-
  What the stages of a run have produced.  `outputs` holds the
  results of plugins that have no field of their own.
-/
structure Response where
  ast : Option Document
  frontMatter : Option Record
  parserFaults : List SyntaxFault
  model : Option Model
  selection : Option Selection
  map : Option ArgumentMap
  colors : Option Coloring
  dot : Option String
  json : Option String
  exceptions : List Failure
  outputs : Record
deriving Repr

namespace Response

/- Nothing has been produced. -/
def empty : Response :=
  { ast := none
    frontMatter := none
    parserFaults := []
    model := none
    selection := none
    map := none
    colors := none
    dot := none
    json := none
    exceptions := []
    outputs := [] }

instance : Inhabited Response :=
  ⟨empty⟩

/- List failures. -/
def report (r : Response) (failures : List Failure) :
    Response :=
  { r with exceptions := r.exceptions ++ failures }

end Response

------------------------------------------------------------
-- Fields
------------------------------------------------------------

/- A field of a response that a plugin may require. -/
inductive ResponseField where
| ast
| model
| selection
| map
| colors
| dot
| json
| output (key : String)
deriving DecidableEq, Repr

namespace ResponseField

/- The fields that are no outputs. -/
def plain : List ResponseField :=
  [ast, model, selection, map, colors, dot, json]

/- The text of a field. -/
def display : ResponseField → String
| ast => "ast"
| model => "model"
| selection => "selection"
| map => "map"
| colors => "colors"
| dot => "dot"
| json => "json"
| output key => "outputs." ++ key

end ResponseField

/- A field of a response has been produced. -/
def Response.has (r : Response) : ResponseField → Bool
| .ast => r.ast.isSome
| .model => r.model.isSome
| .selection => r.selection.isSome
| .map => r.map.isSome
| .colors => r.colors.isSome
| .dot => r.dot.isSome
| .json => r.json.isSome
| .output key => Record.has r.outputs key

end Dialectic
