import Dialectic.Document.Fault
import Dialectic.Document.Token
import Dialectic.Document.Tree
import Dialectic.Source.Encoding

/-
  This file defines the values that stand for tokens, faults
  and documents.

  Key definitions include:
    * `Token.toValue`
    * `SyntaxFault.toValue`
    * `Mention.toValue`
    * `Document.toValue`
-/

namespace Dialectic

------------------------------------------------------------
-- Tokens and Faults
------------------------------------------------------------

/- The value of a kind of tokens. -/
def TokenKind.toValue : TokenKind → Value
| frontMatter content =>
    Record.value [("FrontMatter", .text content)]
| indentation width => Record.value [("Indent", .ofNat width)]
| blankLine => .text "Emptyline"
| lineEnd => .text "Newline"
| heading level =>
    Record.value [("HeadingStart", .ofNat level)]
| relation marker =>
    Record.value [("RelationMarker", .text marker.name)]
| step number => Record.value [("PcsNumber", .ofNat number)]
| inference rule =>
    Record.value [("Inference", .ofOption .text rule)]
| bullet => .text "ListItem"
| statementDefinition title =>
    Record.value [("StatementDefinition", .text title)]
| statementReference title =>
    Record.value [("StatementReference", .text title)]
| statementMention title =>
    Record.value [("StatementMention", .text title)]
| argumentDefinition title =>
    Record.value [("ArgumentDefinition", .text title)]
| argumentReference title =>
    Record.value [("ArgumentReference", .text title)]
| argumentMention title =>
    Record.value [("ArgumentMention", .text title)]
| tag name => Record.value [("Tag", .text name)]
| data content => Record.value [("Data", .text content)]
| text content => Record.value [("Text", .text content)]
| documentEnd => .text "Eof"

/- The value of a token. -/
def Token.toValue (token : Token) : Value :=
  Record.value [
    ("kind", token.kind.toValue),
    ("position", token.position.toValue)
  ]

/- The value of a fault. -/
def SyntaxFault.toValue (fault : SyntaxFault) : Value :=
  Record.value [
    ("message", .text fault.message),
    ("position", fault.position.toValue)
  ]

------------------------------------------------------------
-- Elements
------------------------------------------------------------

namespace Mention

/- The value of a mention. -/
def toValue : Mention → Value
| statement title =>
    Record.value [("Statement", .text title)]
| argument title => Record.value [("Argument", .text title)]

/- The mention that a value stands for. -/
def ofValue? : Value → Option Mention
| .record [("Statement", .text title)] =>
    some (.statement title)
| .record [("Argument", .text title)] =>
    some (.argument title)
| _ => none

end Mention

/- The value of data, or null. -/
def dataValue (data : Option Record) : Value :=
  .ofOption .record data

/- The value of an occurrence of a statement. -/
def StatementEntry.toValue (entry : StatementEntry) : Value :=
  Record.value [
    ("title", .ofOption .text entry.title),
    ("text", .ofOption .text entry.text),
    ("is_reference", .flag entry.isReference),
    ("tags", .texts entry.tags),
    ("mentions", .list (entry.mentions.map Mention.toValue)),
    ("data", dataValue entry.data),
    ("span", entry.span.toValue)
  ]

/- The value of an occurrence of an argument. -/
def ArgumentEntry.toValue (entry : ArgumentEntry) : Value :=
  Record.value [
    ("title", .ofOption .text entry.title),
    ("description", .ofOption .text entry.description),
    ("is_reference", .flag entry.isReference),
    ("tags", .texts entry.tags),
    ("mentions", .list (entry.mentions.map Mention.toValue)),
    ("data", dataValue entry.data),
    ("span", entry.span.toValue)
  ]

/- The value of an occurrence of an element. -/
def Entry.toValue : Entry → Value
| statement entry =>
    Record.value [("Statement", entry.toValue)]
| argument entry =>
    Record.value [("Argument", entry.toValue)]

mutual

/- The value of a relation line. -/
def RelationEntry.toValue : RelationEntry → Value
| ⟨marker, target, children, span⟩ =>
    Record.value [
      ("marker", .text marker.name),
      ("target", target.toValue),
      ("children", .list (RelationEntry.toValues children)),
      ("span", span.toValue)
    ]

/- The values of some relation lines. -/
def RelationEntry.toValues : List RelationEntry → List Value
| [] => []
| relation :: rest =>
    RelationEntry.toValue relation
      :: RelationEntry.toValues rest

end

------------------------------------------------------------
-- Premise-Conclusion Structures
------------------------------------------------------------

/-
  The value of a line of a premise-conclusion structure.
-/
def ReconstructionItem.toValue : ReconstructionItem → Value
| statement entry =>
    Record.value [("Statement", Record.value [
      ("number", .ofNat entry.number),
      ("statement", entry.statement.toValue),
      ("relations",
        .list (RelationEntry.toValues entry.relations))
    ])]
| inference entry =>
    Record.value [("Inference", Record.value [
      ("text", .ofOption .text entry.rule),
      ("span", entry.span.toValue)
    ])]

/- The value of a premise-conclusion structure. -/
def Reconstruction.toValue (r : Reconstruction) : Value :=
  Record.value [
    ("items", .list (r.items.map ReconstructionItem.toValue)),
    ("span", r.span.toValue)
  ]

------------------------------------------------------------
-- Documents
------------------------------------------------------------

/- The value of a block. -/
def Block.toValue : Block → Value
| heading opening =>
    Record.value [("Heading", Record.value [
      ("level", .ofNat opening.level),
      ("title", .text opening.title),
      ("tags", .texts opening.tags),
      ("data", dataValue opening.data),
      ("span", opening.span.toValue)
    ])]
| element block =>
    Record.value [("Element", Record.value [
      ("element", block.element.toValue),
      ("relations",
        .list (RelationEntry.toValues block.relations)),
      ("pcs",
        .ofOption Reconstruction.toValue block.reconstruction),
      ("span", block.span.toValue)
    ])]

/- The value of a document. -/
def Document.toValue (document : Document) : Value :=
  Record.value [
    ("front_matter", dataValue document.frontMatter),
    ("blocks", .list (document.blocks.map Block.toValue))
  ]

end Dialectic
