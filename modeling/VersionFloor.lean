import VersionFloor.Catalog.Basic
import VersionFloor.Catalog.Draft
import VersionFloor.Catalog.Format
import VersionFloor.Catalog.Listing
import VersionFloor.Catalog.Load
import VersionFloor.Catalog.Markup
import VersionFloor.Catalog.Saved
import VersionFloor.Catalog.Symbol
import VersionFloor.Check.Discovery
import VersionFloor.Check.Error
import VersionFloor.Check.Plan
import VersionFloor.Check.Run
import VersionFloor.Command.Arguments
import VersionFloor.Command.Check
import VersionFloor.Command.Init
import VersionFloor.Command.Line
import VersionFloor.Command.Outcome
import VersionFloor.Command.Run
import VersionFloor.Config.Basic
import VersionFloor.Config.File
import VersionFloor.Config.Reader
import VersionFloor.Data.Json.Reader
import VersionFloor.Data.Json.Token
import VersionFloor.Data.Json.Writer
import VersionFloor.Data.Record
import VersionFloor.Data.Value
import VersionFloor.Data.Xml.Attribute
import VersionFloor.Data.Xml.Node
import VersionFloor.Data.Xml.Token
import VersionFloor.Data.Yaml.Cursor
import VersionFloor.Data.Yaml.Document
import VersionFloor.Data.Yaml.Node
import VersionFloor.Data.Yaml.Scalar
import VersionFloor.Data.Yaml.Scan
import VersionFloor.Data.Yaml.Token
import VersionFloor.Data.Yaml.Value
import VersionFloor.Decimal.Binary
import VersionFloor.Decimal.Shortest
import VersionFloor.File.Disk
import VersionFloor.File.Fault
import VersionFloor.File.Path
import VersionFloor.File.Tree
import VersionFloor.Glob.Basic
import VersionFloor.Glob.Match
import VersionFloor.Glob.Reading
import VersionFloor.Keyed
import VersionFloor.Report.Basic
import VersionFloor.Report.Printed
import VersionFloor.Report.Summary
import VersionFloor.Report.Tally
import VersionFloor.Source.Call
import VersionFloor.Source.Region
import VersionFloor.Source.Site
import VersionFloor.Text.Blank
import VersionFloor.Text.Case
import VersionFloor.Text.CaseTable
import VersionFloor.Text.Digits
import VersionFloor.Text.EscapeTable
import VersionFloor.Text.Quoted
import VersionFloor.Text.Ranges
import VersionFloor.Text.Split
import VersionFloor.Text.Utf8
import VersionFloor.Text.Word
import VersionFloor.Text.WordTable
import VersionFloor.Version
import VersionFloor.Main
import VersionFloor.Proofs.Keyed
import VersionFloor.Proofs.Version.Order
import VersionFloor.Proofs.Report.Same
import VersionFloor.Proofs.Report.Meaning
import VersionFloor.Proofs.Tally.Merge
import VersionFloor.Proofs.Tally.History
import VersionFloor.Proofs.Check.Scan
import VersionFloor.Proofs.Check.Parallel
import VersionFloor.Proofs.Tally.Meaning
import VersionFloor.Proofs.Check.Meaning
import VersionFloor.Proofs.Text.Classes
import VersionFloor.Proofs.Source.Rendering
import VersionFloor.Proofs.Source.Site
import VersionFloor.Proofs.Source.Scan
import VersionFloor.Proofs.Text.Split
import VersionFloor.Proofs.Source.Region
import VersionFloor.Proofs.Source.Calls
import VersionFloor.Proofs.Text.Utf8
import VersionFloor.Proofs.Source.Layout
import VersionFloor.Proofs.Source.Span
import VersionFloor.Proofs.Check.Description
import VersionFloor.Proofs.Command.Check
import VersionFloor.Proofs.Source.PlainCall
import VersionFloor.Proofs.File.Tree
import VersionFloor.Proofs.Check.Walk
import VersionFloor.Proofs.Check.Discovery
import VersionFloor.Proofs.Catalog.Index
import VersionFloor.Proofs.Catalog.Resolution
import VersionFloor.Proofs.Data.Json.Text
import VersionFloor.Proofs.Data.Json.Number
import VersionFloor.Proofs.Data.Json.Token
import VersionFloor.Proofs.Data.Json.Value
import VersionFloor.Proofs.Data.Json.Layout
import VersionFloor.Proofs.Catalog.Draft
import VersionFloor.Proofs.Catalog.Entries
import VersionFloor.Proofs.Catalog.Listing
import VersionFloor.Proofs.Catalog.Parse
import VersionFloor.Proofs.Catalog.Saved
import VersionFloor.Proofs.Catalog.Agreement
import VersionFloor.Proofs.Catalog.Markup
import VersionFloor.Proofs.Data.Xml.Text
import VersionFloor.Proofs.Data.Xml.Token
import VersionFloor.Proofs.Data.Xml.Node
import VersionFloor.Proofs.Tally.Board
import VersionFloor.Proofs.Tally.Gate
import VersionFloor.Proofs.Catalog.Bare
import VersionFloor.Proofs.Check.Unambiguous
import VersionFloor.Proofs.Catalog.Fields
import VersionFloor.Proofs.Catalog.Spelling
import VersionFloor.Proofs.File.Look
import VersionFloor.Proofs.File.Follow
import VersionFloor.Proofs.File.Path
import VersionFloor.Proofs.File.Disk
import VersionFloor.Proofs.Command.Init
import VersionFloor.Proofs.Text.Case
import VersionFloor.Proofs.Catalog.Owner
import VersionFloor.Proofs.Source.Occurrence
import VersionFloor.Proofs.Source.Declaration
import VersionFloor.Proofs.Decimal.Binary
import VersionFloor.Proofs.Decimal.Shortest
import VersionFloor.Proofs.Version.Numeral
import VersionFloor.Proofs.Data.Json.Decimal
import VersionFloor.Proofs.Data.Yaml.Decimal
import VersionFloor.Proofs.Catalog.Unquoted
import VersionFloor.Proofs.Version.Lawful
import VersionFloor.Proofs.Source.Seam
import VersionFloor.Proofs.Source.Colons
import VersionFloor.Proofs.Text.Lossy
import VersionFloor.Proofs.Text.Outline
import VersionFloor.Proofs.Source.Outline
import VersionFloor.Proofs.Check.Encoding
import VersionFloor.Proofs.Version.Written
import VersionFloor.Proofs.Tally.WellFormed
import VersionFloor.Proofs.Report.Summary
import VersionFloor.Proofs.File.Made
import VersionFloor.Proofs.Command.Failure
import VersionFloor.Proofs.Source.WellFormed
import VersionFloor.Proofs.Source.OpeningTag
import VersionFloor.Proofs.Check.Accounting
import VersionFloor.Proofs.Config.Extension
