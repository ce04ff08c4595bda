import Dialectic.Color.Assignment
import Dialectic.Color.Basic
import Dialectic.Data.Binary64
import Dialectic.Data.Decoding
import Dialectic.Data.DisjointSets
import Dialectic.Data.Layer
import Dialectic.Data.Sequence
import Dialectic.Data.TitleIndex
import Dialectic.Data.Value
import Dialectic.Document.Comment
import Dialectic.Document.Data
import Dialectic.Document.Encoding
import Dialectic.Document.Fault
import Dialectic.Document.Lexer
import Dialectic.Document.Marker
import Dialectic.Document.Parser
import Dialectic.Document.Token
import Dialectic.Document.Tree
import Dialectic.Export.Dot
import Dialectic.Export.Json
import Dialectic.Map.Basic
import Dialectic.Map.Builder
import Dialectic.Map.Collapse
import Dialectic.Map.Encoding
import Dialectic.Map.Grouping
import Dialectic.Map.Validity
import Dialectic.Model.Basic
import Dialectic.Model.Builder
import Dialectic.Model.Derive
import Dialectic.Model.Element
import Dialectic.Model.Encoding
import Dialectic.Model.Explode
import Dialectic.Model.Fault
import Dialectic.Model.Regroup
import Dialectic.Model.Relation
import Dialectic.Model.Settings
import Dialectic.Model.Statement
import Dialectic.Notation.Json.Printer
import Dialectic.Notation.Json.Reader
import Dialectic.Notation.Reader
import Dialectic.Notation.Toml.Reader
import Dialectic.Notation.Toml.Scalar
import Dialectic.Notation.Toml.Table
import Dialectic.Notation.Yaml.Cursor
import Dialectic.Notation.Yaml.Node
import Dialectic.Notation.Yaml.Reader
import Dialectic.Notation.Yaml.Scalar
import Dialectic.Notation.Yaml.Tag
import Dialectic.Notation.Yaml.Token
import Dialectic.Pipeline.Application
import Dialectic.Pipeline.Failure
import Dialectic.Pipeline.Log
import Dialectic.Pipeline.Plugin
import Dialectic.Pipeline.Request
import Dialectic.Pipeline.Response
import Dialectic.Pipeline.Run
import Dialectic.Pipeline.Script
import Dialectic.Pipeline.Stage
import Dialectic.Plugins.MapBuilding
import Dialectic.Plugins.ModelBuilding
import Dialectic.Plugins.Output
import Dialectic.Plugins.Reading
import Dialectic.Plugins.Standard
import Dialectic.Proofs.Color.Palette
import Dialectic.Proofs.Data.DisjointSets
import Dialectic.Proofs.Data.Following
import Dialectic.Proofs.Data.Layer
import Dialectic.Proofs.Data.Numbering
import Dialectic.Proofs.Data.Record
import Dialectic.Proofs.Data.Sequence
import Dialectic.Proofs.Data.Sorting
import Dialectic.Proofs.Data.TitleIndex
import Dialectic.Proofs.Document.Appearances
import Dialectic.Proofs.Document.Attachment
import Dialectic.Proofs.Document.Blanking
import Dialectic.Proofs.Document.Bodies
import Dialectic.Proofs.Document.ByteItems
import Dialectic.Proofs.Document.ByteLexer
import Dialectic.Proofs.Document.ByteLines
import Dialectic.Proofs.Document.Comments
import Dialectic.Proofs.Document.Coverage
import Dialectic.Proofs.Document.Enclosing
import Dialectic.Proofs.Document.Entries
import Dialectic.Proofs.Document.Erasure
import Dialectic.Proofs.Document.FrontMatter
import Dialectic.Proofs.Document.Grammar
import Dialectic.Proofs.Document.Joining
import Dialectic.Proofs.Document.LineEndings
import Dialectic.Proofs.Document.LineOrder
import Dialectic.Proofs.Document.Mirroring
import Dialectic.Proofs.Document.Offside
import Dialectic.Proofs.Document.PaddedLines
import Dialectic.Proofs.Document.Policy
import Dialectic.Proofs.Document.Positions
import Dialectic.Proofs.Document.Reading
import Dialectic.Proofs.Document.Recovery
import Dialectic.Proofs.Document.Returns
import Dialectic.Proofs.Document.Shift
import Dialectic.Proofs.Document.Simulation
import Dialectic.Proofs.Document.SourceLines
import Dialectic.Proofs.Document.SourceOrder
import Dialectic.Proofs.Document.Stacking
import Dialectic.Proofs.Document.Tiling
import Dialectic.Proofs.Document.Titles
import Dialectic.Proofs.Document.TokenStream
import Dialectic.Proofs.Document.Tokens
import Dialectic.Proofs.Document.WellFormed
import Dialectic.Proofs.Export.Clusters
import Dialectic.Proofs.Export.Faithful
import Dialectic.Proofs.Export.Lines
import Dialectic.Proofs.Export.Reading
import Dialectic.Proofs.Map.Absorption
import Dialectic.Proofs.Map.Arrangement
import Dialectic.Proofs.Map.Build
import Dialectic.Proofs.Map.Chains
import Dialectic.Proofs.Map.Collapse
import Dialectic.Proofs.Map.Contents
import Dialectic.Proofs.Map.Contraction
import Dialectic.Proofs.Map.Depiction
import Dialectic.Proofs.Map.DocumentOrder
import Dialectic.Proofs.Map.Edges
import Dialectic.Proofs.Map.Editing
import Dialectic.Proofs.Map.Enclosure
import Dialectic.Proofs.Map.Grouping
import Dialectic.Proofs.Map.Membership
import Dialectic.Proofs.Map.Preorder
import Dialectic.Proofs.Map.Quotient
import Dialectic.Proofs.Map.Representation
import Dialectic.Proofs.Map.Soundness
import Dialectic.Proofs.Map.Tidy
import Dialectic.Proofs.Map.Traversal
import Dialectic.Proofs.Map.Validity
import Dialectic.Proofs.Model.Aggregation
import Dialectic.Proofs.Model.Appearance
import Dialectic.Proofs.Model.Building
import Dialectic.Proofs.Model.Coherence
import Dialectic.Proofs.Model.Completeness
import Dialectic.Proofs.Model.Components
import Dialectic.Proofs.Model.Conservation
import Dialectic.Proofs.Model.Declarations
import Dialectic.Proofs.Model.Derivation
import Dialectic.Proofs.Model.Division
import Dialectic.Proofs.Model.Elements
import Dialectic.Proofs.Model.Equivalence
import Dialectic.Proofs.Model.Explosion
import Dialectic.Proofs.Model.Growth
import Dialectic.Proofs.Model.Headings
import Dialectic.Proofs.Model.History
import Dialectic.Proofs.Model.Inferences
import Dialectic.Proofs.Model.Integrity
import Dialectic.Proofs.Model.Invariance
import Dialectic.Proofs.Model.Links
import Dialectic.Proofs.Model.Marks
import Dialectic.Proofs.Model.Occurrences
import Dialectic.Proofs.Model.Outline
import Dialectic.Proofs.Model.Placement
import Dialectic.Proofs.Model.Recording
import Dialectic.Proofs.Model.Representatives
import Dialectic.Proofs.Model.Roles
import Dialectic.Proofs.Model.Sections
import Dialectic.Proofs.Model.Steps
import Dialectic.Proofs.Model.Tagging
import Dialectic.Proofs.Model.Titling
import Dialectic.Proofs.Model.Untagging
import Dialectic.Proofs.Model.Wording
import Dialectic.Proofs.Notation.KeyOrder
import Dialectic.Proofs.Pipeline.Accounts
import Dialectic.Proofs.Pipeline.Framing
import Dialectic.Proofs.Pipeline.Invariants
import Dialectic.Proofs.Pipeline.Layers
import Dialectic.Proofs.Pipeline.Overlay
import Dialectic.Proofs.Pipeline.Policy
import Dialectic.Proofs.Pipeline.Running
import Dialectic.Proofs.Pipeline.Settling
import Dialectic.Proofs.Pipeline.Watching
import Dialectic.Proofs.Plugins.Failing
import Dialectic.Proofs.Plugins.Policy
import Dialectic.Proofs.Plugins.Soundness
import Dialectic.Proofs.Plugins.Standard
import Dialectic.Proofs.Selection.Connection
import Dialectic.Proofs.Selection.Priority
import Dialectic.Proofs.Source.Range
import Dialectic.Proofs.Source.Shift
import Dialectic.Proofs.Source.Walking
import Dialectic.Proofs.Text.Finding
import Dialectic.Proofs.Text.Glyphs
import Dialectic.Proofs.Text.Padding
import Dialectic.Proofs.Text.Slicing
import Dialectic.Proofs.Text.Squeezing
import Dialectic.Selection.Basic
import Dialectic.Selection.Choice
import Dialectic.Settings.Encoding
import Dialectic.Settings.Space
import Dialectic.Source.Encoding
import Dialectic.Source.Position
import Dialectic.Text.Alphanumeric
import Dialectic.Text.Blank
import Dialectic.Text.Search
