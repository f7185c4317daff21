import TraitTrace.Calendar.Basic
import TraitTrace.Calendar.Printer
import TraitTrace.Chain.Basic
import TraitTrace.Chain.Build
import TraitTrace.Chain.Consistency
import TraitTrace.Classification
import TraitTrace.CommandLine.Arguments
import TraitTrace.CommandLine.Outcome
import TraitTrace.CommandLine.Terminal
import TraitTrace.Contract
import TraitTrace.Datum.Basic
import TraitTrace.Datum.Inspect
import TraitTrace.Decimal.Binary
import TraitTrace.Decimal.Double
import TraitTrace.Decimal.Lenient
import TraitTrace.Decimal.Numeral
import TraitTrace.Decimal.Shortest
import TraitTrace.Decimal.Whole
import TraitTrace.Diagnostic.Basic
import TraitTrace.Diagnostic.Decode
import TraitTrace.Diagnostic.Encode
import TraitTrace.Event
import TraitTrace.Fact.Basic
import TraitTrace.Fact.Fragment
import TraitTrace.Failure
import TraitTrace.Fault
import TraitTrace.FieldName
import TraitTrace.Graph.Basic
import TraitTrace.Graph.Build
import TraitTrace.Graph.Groups
import TraitTrace.Graph.Walk
import TraitTrace.Highlight.Basic
import TraitTrace.Highlight.Printer
import TraitTrace.Highlight.Style
import TraitTrace.Json.Parser
import TraitTrace.Json.Printer
import TraitTrace.Json.Value
import TraitTrace.Ledger
import TraitTrace.Log
import TraitTrace.Main
import TraitTrace.Message
import TraitTrace.Proofs.Chain.Growth
import TraitTrace.Proofs.Chain.Shape
import TraitTrace.Proofs.Graph.Adding
import TraitTrace.Proofs.Graph.Components
import TraitTrace.Proofs.Graph.Construction
import TraitTrace.Proofs.Graph.Coverage
import TraitTrace.Proofs.Graph.Drawing
import TraitTrace.Proofs.Graph.Groups
import TraitTrace.Proofs.Graph.Interning
import TraitTrace.Proofs.Graph.Labels
import TraitTrace.Proofs.Graph.Preorder
import TraitTrace.Proofs.Graph.Walk
import TraitTrace.Proofs.Ledger.Basic
import TraitTrace.Proofs.Ledger.Keys
import TraitTrace.Proofs.Ledger.Records
import TraitTrace.Proofs.Outcome
import TraitTrace.Proofs.Places
import TraitTrace.Proofs.Report.OfGroup
import TraitTrace.Proofs.Session.Accounting
import TraitTrace.Proofs.Session.Ingestion
import TraitTrace.Registry.Basic
import TraitTrace.Registry.Lessons
import TraitTrace.Registry.Naming
import TraitTrace.Registry.Role
import TraitTrace.Report.Basic
import TraitTrace.Report.OfGroup
import TraitTrace.Report.Tree
import TraitTrace.RootCause
import TraitTrace.Run
import TraitTrace.Session
import TraitTrace.Settings.Basic
import TraitTrace.Settings.Check
import TraitTrace.Settings.Environment
import TraitTrace.Settings.FilePath
import TraitTrace.Settings.Issue
import TraitTrace.Settings.Load
import TraitTrace.Table
import TraitTrace.Text.Alphanumeric
import TraitTrace.Text.Base64
import TraitTrace.Text.Blank
import TraitTrace.Text.Columns
import TraitTrace.Text.Digit
import TraitTrace.Text.Line
import TraitTrace.Text.Phrase
import TraitTrace.Text.Printable
import TraitTrace.Text.Quoted
import TraitTrace.Text.Ranges
import TraitTrace.Text.Tab
import TraitTrace.Text.Utf8
import TraitTrace.TypeExpr.Generic
import TraitTrace.TypeExpr.Literal
import TraitTrace.TypeExpr.LiteralValue
import TraitTrace.TypeExpr.Path
import TraitTrace.TypeExpr.Scan
import TraitTrace.Yaml.Block
import TraitTrace.Yaml.Cursor
import TraitTrace.Yaml.Document
import TraitTrace.Yaml.Flaw
import TraitTrace.Yaml.Meaning
import TraitTrace.Yaml.Name
import TraitTrace.Yaml.Plain
import TraitTrace.Yaml.Quoted
import TraitTrace.Yaml.Scalar
import TraitTrace.Yaml.Tag
import TraitTrace.Yaml.Timestamp
import TraitTrace.Yaml.Token
import TraitTrace.Yaml.Token.Lexer
import TraitTrace.Proofs.Graph.Correspondence
import TraitTrace.Proofs.Graph.Rearrangement
import TraitTrace.Proofs.Chain.Context
import TraitTrace.Proofs.Registry.Learning
import TraitTrace.Proofs.Ledger.Owners
import TraitTrace.Proofs.Session.Arrival
import TraitTrace.Proofs.Session.Commuting
import TraitTrace.Proofs.Ledger.Confluence
import TraitTrace.Proofs.TypeExpr.Arguments
import TraitTrace.Proofs.FieldName.Printed
import TraitTrace.Proofs.FieldName.Faults
import TraitTrace.Proofs.FieldName.Skipped
import TraitTrace.Proofs.Graph.Leaves
import TraitTrace.Proofs.Fact.Missing
import TraitTrace.Proofs.Chain.Reading
import TraitTrace.Proofs.Chain.Leaf
import TraitTrace.Proofs.Graph.Calls
import TraitTrace.Proofs.Session.Headline
import TraitTrace.Proofs.Session.Completion
import TraitTrace.Proofs.Chain.Origins
import TraitTrace.Proofs.Chain.Tags
import TraitTrace.Proofs.Chain.Assertions
import TraitTrace.Proofs.Graph.Identity
import TraitTrace.Proofs.Run.Echo
import TraitTrace.Proofs.Run.Reread
import TraitTrace.Proofs.Run.Formats
import TraitTrace.Proofs.Run.Completion
import TraitTrace.Proofs.Highlight
import TraitTrace.Proofs.Message
import TraitTrace.Proofs.Message.Refused
import TraitTrace.Proofs.Json.Bounds
import TraitTrace.Proofs.Json.Number
import TraitTrace.Proofs.Json.Quoted
import TraitTrace.Proofs.Json.RoundTrip
import TraitTrace.Proofs.Json.Printable
import TraitTrace.Proofs.Json.Refusals
import TraitTrace.Proofs.Json.Textual
import TraitTrace.Proofs.Decimal.Digits
import TraitTrace.Proofs.Decimal.Lenient
import TraitTrace.Proofs.Decimal.Shortest
import TraitTrace.Proofs.Diagnostic.Decoded
import TraitTrace.Proofs.Diagnostic.Misplaced
import TraitTrace.Proofs.Diagnostic.RoundTrip
import TraitTrace.Proofs.Report.Sources
import TraitTrace.Proofs.Report.Layout
import TraitTrace.Proofs.Ledger.Renumbering
import TraitTrace.Proofs.Graph.Renumbering
import TraitTrace.Proofs.Session.Renumbering
import TraitTrace.Proofs.Registry.History
import TraitTrace.Proofs.Ledger.Filing
import TraitTrace.Proofs.Graph.History
import TraitTrace.Proofs.TypeExpr.Tree
import TraitTrace.Proofs.TypeExpr.Stripped
import TraitTrace.Proofs.Text.Phrase
import TraitTrace.Proofs.TypeExpr.Spaced
import TraitTrace.Proofs.FieldName.Tagged
import TraitTrace.Proofs.Fact.Printed
import TraitTrace.Proofs.TypeExpr.Weight
import TraitTrace.Proofs.FieldName.Passes
import TraitTrace.Proofs.Chain.Nesting
import TraitTrace.Proofs.TypeExpr.Outline
import TraitTrace.Proofs.Table
import TraitTrace.Proofs.Overlay
import TraitTrace.Proofs.Settings.Files
import TraitTrace.Proofs.Diagnostic.Normal
import TraitTrace.Proofs.Graph.Outline
import TraitTrace.Proofs.Graph.Lines
import TraitTrace.Proofs.Graph.Carried
import TraitTrace.Proofs.Graph.Forest
import TraitTrace.Proofs.Graph.Ownership
import TraitTrace.Proofs.TypeExpr.Brackets
