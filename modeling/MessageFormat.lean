import MessageFormat.Catalog.Basic
import MessageFormat.Catalog.Entry
import MessageFormat.Catalog.Format
import MessageFormat.Catalog.Report
import MessageFormat.Command.Arguments
import MessageFormat.Command.Run
import MessageFormat.Config
import MessageFormat.Decimal.Double
import MessageFormat.Decimal.Shortest
import MessageFormat.Element.Basic
import MessageFormat.Element.Node
import MessageFormat.Element.OfDraft
import MessageFormat.Element.OfJson
import MessageFormat.Element.Style
import MessageFormat.FileSystem
import MessageFormat.Json.Basic
import MessageFormat.Json.Draft.Basic
import MessageFormat.Json.Draft.Object
import MessageFormat.Json.Draft.Read
import MessageFormat.Json.Draft.Scan
import MessageFormat.Json.Error
import MessageFormat.Json.Layout
import MessageFormat.Json.Number
import MessageFormat.Json.Numeral
import MessageFormat.Json.Typed
import MessageFormat.Keyed
import MessageFormat.Main
import MessageFormat.Message.Basic
import MessageFormat.Message.Printer
import MessageFormat.Message.Quoting
import MessageFormat.Message.Style
import MessageFormat.Path
import MessageFormat.Proofs.Agree
import MessageFormat.Proofs.Catalog.Agreement
import MessageFormat.Proofs.Catalog.Extraction
import MessageFormat.Proofs.Catalog.FailFast
import MessageFormat.Proofs.Catalog.Order
import MessageFormat.Proofs.Catalog.Source
import MessageFormat.Proofs.Catalog.Written
import MessageFormat.Proofs.Command.Arguments
import MessageFormat.Proofs.Command.Effects
import MessageFormat.Proofs.Command.Repeat
import MessageFormat.Proofs.Element.Acceptance
import MessageFormat.Proofs.Element.Agreement
import MessageFormat.Proofs.Element.Edits
import MessageFormat.Proofs.Element.Encoding
import MessageFormat.Proofs.Element.FaultOrder
import MessageFormat.Proofs.Element.Fields
import MessageFormat.Proofs.Element.Legible
import MessageFormat.Proofs.Element.Members
import MessageFormat.Proofs.Element.Reading
import MessageFormat.Proofs.Element.Schema
import MessageFormat.Proofs.Element.Spelling
import MessageFormat.Proofs.Element.Styles
import MessageFormat.Proofs.FileSystem.Follows
import MessageFormat.Proofs.FileSystem.Growth
import MessageFormat.Proofs.FileSystem.Repeat
import MessageFormat.Proofs.Json.Assembly
import MessageFormat.Proofs.Json.Distinct
import MessageFormat.Proofs.Json.Inversion
import MessageFormat.Proofs.Json.RoundTrip
import MessageFormat.Proofs.Json.Scalar
import MessageFormat.Proofs.Json.Stable
import MessageFormat.Proofs.Message.Balance
import MessageFormat.Proofs.Message.Bare
import MessageFormat.Proofs.Message.Copies
import MessageFormat.Proofs.Message.Exposure
import MessageFormat.Proofs.Message.Imitation
import MessageFormat.Proofs.Message.Layout
import MessageFormat.Proofs.Message.Placement
import MessageFormat.Proofs.Message.Quoting
import MessageFormat.Proofs.Message.Reader
import MessageFormat.Proofs.Message.Recovering
import MessageFormat.Proofs.Message.Reread
import MessageFormat.Proofs.Message.Tags
import MessageFormat.Proofs.Message.Unambiguous
import MessageFormat.Proofs.Message.Unquoting
import MessageFormat.Proofs.Message.WellFormed
import MessageFormat.Proofs.Path.Components
import MessageFormat.Proofs.Text.Bytes
import MessageFormat.Text.Blank
import MessageFormat.Text.Hexadecimal
import MessageFormat.Text.Hidden
import MessageFormat.Text.Quoted
import MessageFormat.Toml.Document
import MessageFormat.Toml.Lexical
import MessageFormat.Toml.Scalar
import MessageFormat.Toml.Table
