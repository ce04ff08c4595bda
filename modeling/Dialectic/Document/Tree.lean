import Dialectic.Data.Value
import Dialectic.Source.Position
import Dialectic.Document.Marker

/-
  This file defines the tree that a document is read into.

  Key definitions include:
    * `StatementEntry`
    * `ArgumentEntry`
    * `Entry`
    * `RelationEntry`
    * `Reconstruction`
    * `Block`
    * `Document`
-/

namespace Dialectic

------------------------------------------------------------
-- Elements
------------------------------------------------------------

/- A title that the text of an element mentions. -/
inductive Mention where
| statement (title : String)
| argument (title : String)
deriving DecidableEq, Repr

/-
  An occurrence of a statement.  One without title stands for
  itself alone, and a reference has a title but no text.
-/
structure StatementEntry where
  title : Option String
  text : Option String
  isReference : Bool
  tags : List String
  mentions : List Mention
  data : Option Record
  span : Span
deriving DecidableEq, Repr

/-
  An occurrence of an argument.  One without title stands for
  a premise-conclusion structure that follows no argument.
-/
structure ArgumentEntry where
  title : Option String
  description : Option String
  isReference : Bool
  tags : List String
  mentions : List Mention
  data : Option Record
  span : Span
deriving DecidableEq, Repr

/- The argument without title at the given place. -/
def ArgumentEntry.untitled (span : Span) : ArgumentEntry :=
  ⟨none, none, false, [], [], none, span⟩

/- An occurrence of an element. -/
inductive Entry where
| statement (entry : StatementEntry)
| argument (entry : ArgumentEntry)
deriving DecidableEq, Repr

namespace Entry

/- The part of the source text that an element covers. -/
def span : Entry → Span
| statement entry => entry.span
| argument entry => entry.span

/- The title of an element. -/
def title : Entry → Option String
| statement entry => entry.title
| argument entry => entry.title

/- An element is an argument. -/
def isArgument : Entry → Bool
| statement _ => false
| argument _ => true

/- An element is a reference. -/
def isReference : Entry → Bool
| statement entry => entry.isReference
| argument entry => entry.isReference

end Entry

------------------------------------------------------------
-- Relations
------------------------------------------------------------

/- A relation line, with those below its target. -/
structure RelationEntry where
  marker : Marker
  target : Entry
  children : List RelationEntry
  span : Span
deriving Repr

namespace RelationEntry

/- The smallest span that covers a span and some relations. -/
def cover (span : Span) (relations : List RelationEntry) :
    Span :=
  span.mergeAll (relations.map RelationEntry.span)

end RelationEntry

------------------------------------------------------------
-- Premise-Conclusion Structures
------------------------------------------------------------

/- A numbered statement of a premise-conclusion structure. -/
structure NumberedEntry where
  number : Nat
  statement : StatementEntry
  relations : List RelationEntry
deriving Repr

/- The line between premises and the conclusion from them. -/
structure InferenceEntry where
  rule : Option String
  span : Span
deriving DecidableEq, Repr

/- A line of a premise-conclusion structure. -/
inductive ReconstructionItem where
| statement (entry : NumberedEntry)
| inference (entry : InferenceEntry)
deriving Repr

namespace ReconstructionItem

/- A line is an inference. -/
def isInference : ReconstructionItem → Bool
| statement _ => false
| inference _ => true

/- The spans of a line and its relations. -/
def spans : ReconstructionItem → List Span
| statement entry =>
    entry.statement.span
      :: entry.relations.map RelationEntry.span
| inference entry => [entry.span]

end ReconstructionItem

/- A premise-conclusion structure. -/
structure Reconstruction where
  items : List ReconstructionItem
  span : Span
deriving Repr

namespace Reconstruction

/- The numbered statements. -/
def statements (r : Reconstruction) : List NumberedEntry :=
  r.items.filterMap
    (fun item =>
      match item with
      | .statement entry => some entry
      | .inference _ => none)

end Reconstruction

------------------------------------------------------------
-- Documents
------------------------------------------------------------

/- A heading, which opens a section. -/
structure Heading where
  level : Nat
  title : String
  tags : List String
  data : Option Record
  span : Span
deriving DecidableEq, Repr

/-
  An element at the top level, with the relations below it
  and, for an argument, its premise-conclusion structure.
-/
structure ElementBlock where
  element : Entry
  relations : List RelationEntry
  reconstruction : Option Reconstruction
  span : Span
deriving Repr

/- A block is a heading or an element at the top level. -/
inductive Block where
| heading (heading : Heading)
| element (block : ElementBlock)
deriving Repr

/- A document: its front matter and its blocks. -/
structure Document where
  frontMatter : Option Record
  blocks : List Block
deriving Repr, Inhabited

namespace Document

/- A document without front matter and blocks. -/
def isEmpty (document : Document) : Bool :=
  document.frontMatter.isNone && document.blocks.isEmpty

/- The headings of a document. -/
def headings (document : Document) : List Heading :=
  document.blocks.filterMap
    (fun block =>
      match block with
      | .heading heading => some heading
      | .element _ => none)

/- The elements at the top level of a document. -/
def elements (document : Document) : List ElementBlock :=
  document.blocks.filterMap
    (fun block =>
      match block with
      | .heading _ => none
      | .element block => some block)

end Document

end Dialectic
