import Storefront.Asset.Catalog
import Storefront.Asset.Directive
import Storefront.Asset.Processing
import Storefront.Asset.Url
import Storefront.Asset.Url.Template
import Storefront.Asset.Url.Value
import Storefront.Command
import Storefront.Command.Arguments
import Storefront.Condition
import Storefront.Condition.Error
import Storefront.Condition.Evaluation
import Storefront.Condition.Token
import Storefront.Config
import Storefront.Config.Reading
import Storefront.Console
import Storefront.Dict
import Storefront.Document
import Storefront.Document.Error
import Storefront.Document.Reading
import Storefront.Error
import Storefront.FileTree
import Storefront.FileTree.Path
import Storefront.FileTree.Reading
import Storefront.Host
import Storefront.Json.Comment
import Storefront.Json.Decode
import Storefront.Json.Encode
import Storefront.Json.Error
import Storefront.Main
import Storefront.Number
import Storefront.Number.Binary64
import Storefront.Number.Shortest
import Storefront.Outcome
import Storefront.Page
import Storefront.Page.Check
import Storefront.Page.Payload
import Storefront.Proofs.Asset.Apart
import Storefront.Proofs.Asset.Bundle
import Storefront.Proofs.Asset.Conditional
import Storefront.Proofs.Asset.Crossing
import Storefront.Proofs.Asset.Ending
import Storefront.Proofs.Asset.Extent
import Storefront.Proofs.Asset.Frame
import Storefront.Proofs.Asset.Held
import Storefront.Proofs.Asset.HeldTag
import Storefront.Proofs.Asset.Leaf
import Storefront.Proofs.Asset.Leftover
import Storefront.Proofs.Asset.Lookup
import Storefront.Proofs.Asset.Meaning
import Storefront.Proofs.Asset.Minified
import Storefront.Proofs.Asset.Naming
import Storefront.Proofs.Asset.Passes
import Storefront.Proofs.Asset.Recogniser
import Storefront.Proofs.Asset.Respelling
import Storefront.Proofs.Asset.Scan
import Storefront.Proofs.Asset.Slots
import Storefront.Proofs.Asset.Span
import Storefront.Proofs.Asset.Spelling
import Storefront.Proofs.Asset.Stepwise
import Storefront.Proofs.Asset.Template
import Storefront.Proofs.Asset.UrlTemplate
import Storefront.Proofs.Asset.WrittenTag
import Storefront.Proofs.Command.Composing
import Storefront.Proofs.Command.Failure
import Storefront.Proofs.Condition.Duality
import Storefront.Proofs.Condition.Grammar
import Storefront.Proofs.Condition.Joining
import Storefront.Proofs.Condition.Lexing
import Storefront.Proofs.Condition.Lookup
import Storefront.Proofs.Condition.Stepwise
import Storefront.Proofs.Condition.Strings
import Storefront.Proofs.Condition.Writing
import Storefront.Proofs.Config.Acceptance
import Storefront.Proofs.Config.UrlTemplate
import Storefront.Proofs.Document.Stub
import Storefront.Proofs.Document.Untyped
import Storefront.Proofs.FileTree.Listing
import Storefront.Proofs.FileTree.Resolution
import Storefront.Proofs.FileTree.Writing
import Storefront.Proofs.Json.Decoded
import Storefront.Proofs.Json.Encoding
import Storefront.Proofs.Json.LineFeed
import Storefront.Proofs.Json.Numeral
import Storefront.Proofs.Json.Quoting
import Storefront.Proofs.Json.RoundTrip
import Storefront.Proofs.Json.Segment
import Storefront.Proofs.Json.Uncommented
import Storefront.Proofs.Number.Comparison
import Storefront.Proofs.Number.Range
import Storefront.Proofs.Page.Composition
import Storefront.Proofs.Page.Conformance
import Storefront.Proofs.Page.Isolation
import Storefront.Proofs.Page.Recomposition
import Storefront.Proofs.Page.Settings
import Storefront.Proofs.Page.Shadowing
import Storefront.Proofs.Report.IssueCount
import Storefront.Proofs.Report.Markup
import Storefront.Proofs.Schema.Admission
import Storefront.Proofs.Schema.Block
import Storefront.Proofs.Schema.Cache
import Storefront.Proofs.Schema.Category
import Storefront.Proofs.Schema.Declaration
import Storefront.Proofs.Schema.Demand
import Storefront.Proofs.Schema.Origin
import Storefront.Proofs.Schema.Recovery
import Storefront.Proofs.Schema.Repetition
import Storefront.Proofs.Schema.Shape
import Storefront.Proofs.Schema.Untouched
import Storefront.Proofs.Schema.Wrapping
import Storefront.Proofs.Settings.Layers
import Storefront.Proofs.Settings.Nesting
import Storefront.Proofs.Settings.PrintedColor
import Storefront.Proofs.Text.Boundary
import Storefront.Proofs.Text.Occurrence
import Storefront.Proofs.Theme.Confinement
import Storefront.Proofs.Theme.Coverage
import Storefront.Proofs.Theme.Distinct
import Storefront.Proofs.Theme.History
import Storefront.Proofs.Theme.Session
import Storefront.Report
import Storefront.Schema.Cache
import Storefront.Schema.Color
import Storefront.Schema.Default
import Storefront.Schema.Error
import Storefront.Schema.Extraction
import Storefront.Schema.Issue
import Storefront.Schema.Marker
import Storefront.Schema.Reading
import Storefront.Schema.Section
import Storefront.Schema.Setting
import Storefront.Schema.Usability
import Storefront.Session
import Storefront.Settings.Path
import Storefront.Settings.Render
import Storefront.Settings.Store
import Storefront.Text.Blank
import Storefront.Text.Digit
import Storefront.Text.Dotted
import Storefront.Text.Lines
import Storefront.Text.Order
import Storefront.Text.Printable
import Storefront.Text.Quoted
import Storefront.Text.Range
import Storefront.Text.Search
import Storefront.Text.Word
import Storefront.Theme
import Storefront.Theme.Assets
import Storefront.Theme.Catalog
import Storefront.Value
import Storefront.Value.Order
import Storefront.Warning
import Storefront.Yaml.Cursor
import Storefront.Yaml.Data
import Storefront.Yaml.Document
import Storefront.Yaml.Error
import Storefront.Yaml.Node
import Storefront.Yaml.Scalar
import Storefront.Yaml.Token
import Storefront.Yaml.Token.Lexer
import Storefront.Yaml.Token.Scalar
