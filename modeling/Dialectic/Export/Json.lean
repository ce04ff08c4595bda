import Dialectic.Map.Encoding
import Dialectic.Notation.Json.Printer

/-
  This file defines how models are written as JSON texts.

  Key definitions include:
    * `JsonSettings`
    * `JsonExport.root`
    * `Model.toJson`
-/

namespace Dialectic

/-
  How a model is written: on many lines or on one, with its
  map or without, and with or without the lists of relations
  that its elements hold.
-/
structure JsonSettings where
  pretty : Bool
  exportMap : Bool
  removeEmbeddedRelations : Bool
deriving DecidableEq, Repr

namespace JsonExport

/- The value of an element, without its relations if wished. -/
def elementValue (settings : JsonSettings) : Value → Value
| .record fields =>
    if settings.removeEmbeddedRelations then
      .record (Record.erase fields "relations")
    else
      .record fields
| value => value

/- The list of the values of some elements. -/
def elementValues
    {α : Type}
    (settings : JsonSettings)
    (toValue : α → Value)
    (elements : List α) : Value :=
  .list
    (elements.map (fun e => elementValue settings (toValue e)))

/- The value of a model and, if given, its map. -/
def root
    (settings : JsonSettings)
    (m : Model)
    (map : Option ArgumentMap) : Value :=
  let mapField :=
    match map with
    | some map => [("map", map.toValue)]
    | none => []
  Record.value
    ([ ("statements",
        elementValues settings EquivalenceClass.toValue
          m.classes),
      ("occurrences",
        elementValues settings Statement.toValue m.statements),
      ("arguments",
        elementValues settings Argument.toValue m.arguments),
      ("relations", .list (m.relations.map Relation.toValue)),
      ("sections", .list (m.sections.map Section.toValue)),
      ("tags", .texts m.tags) ]
      ++ mapField)

end JsonExport

/- Write a model and, if given, its map. -/
def Model.toJson
    (m : Model)
    (map : Option ArgumentMap)
    (settings : JsonSettings) : String :=
  let value := JsonExport.root settings m map
  if settings.pretty then Json.pretty value
  else Json.compact value

end Dialectic
