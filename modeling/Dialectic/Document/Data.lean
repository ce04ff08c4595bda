import Dialectic.Document.Fault
import Dialectic.Notation.Reader
import Dialectic.Text.Blank

/-
  This file defines how the data of a document is read.

  Key definitions include:
    * `DataPlace.read`
-/

namespace Dialectic

namespace DataPlace

/-
  Read data found at `position`.  It is a mapping; a blank
  text and null stand for the empty one.
-/
def read
    [YamlReader]
    (place : DataPlace)
    (content : String)
    (position : Position) : Except SyntaxFault Record :=
  if Text.allBlank content.toList then
    .ok []
  else
    match YamlReader.read? content with
    | none => .error ⟨.unreadableData place, position⟩
    | some (.record fields) => .ok fields
    | some .null => .ok []
    | some value =>
        .error ⟨.foreignData place value.kindName, position⟩

end DataPlace

end Dialectic
