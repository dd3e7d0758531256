import NotebookExtract.Association
import NotebookExtract.Artifact.Extract
import NotebookExtract.Artifact.Name
import NotebookExtract.Artifact.Render
import NotebookExtract.Cell.Basic
import NotebookExtract.Cell.Reduce
import NotebookExtract.Command.Arguments
import NotebookExtract.Command.Disk
import NotebookExtract.Command.Help
import NotebookExtract.Command.Host
import NotebookExtract.Command.Machine
import NotebookExtract.Command.Plan
import NotebookExtract.Command.Run
import NotebookExtract.Decimal.Binary64
import NotebookExtract.Decimal.Shortest
import NotebookExtract.Json.Fault
import NotebookExtract.Json.Numeral
import NotebookExtract.Json.Reader
import NotebookExtract.Json.Record
import NotebookExtract.Json.Skip
import NotebookExtract.Json.StringLiteral
import NotebookExtract.Json.Value
import NotebookExtract.Json.Wording
import NotebookExtract.Main
import NotebookExtract.Notebook.Basic
import NotebookExtract.Notebook.Load
import NotebookExtract.Notebook.Reader
import NotebookExtract.Scan.Comment
import NotebookExtract.Scan.Mode
import NotebookExtract.Scan.Strip
import NotebookExtract.Settings.Loader
import NotebookExtract.Settings.Path
import NotebookExtract.Settings.Tree
import NotebookExtract.Text.Blank
import NotebookExtract.Text.Digits
import NotebookExtract.Text.Invisible
import NotebookExtract.Text.Lines
import NotebookExtract.Text.Quoted
import NotebookExtract.Text.Search
import NotebookExtract.Text.Utf8
import NotebookExtract.Toml.Date
import NotebookExtract.Toml.Document
import NotebookExtract.Toml.Number
import NotebookExtract.Toml.Reader
import NotebookExtract.Toml.StringLiteral
import NotebookExtract.Toml.Table
import NotebookExtract.Proofs.Line
import NotebookExtract.Proofs.Strip
import NotebookExtract.Proofs.Source
import NotebookExtract.Proofs.Reduce
import NotebookExtract.Proofs.Script
import NotebookExtract.Proofs.StringValue
import NotebookExtract.Proofs.Blocks
import NotebookExtract.Proofs.Compose
import NotebookExtract.Proofs.Removed
import NotebookExtract.Proofs.Sections
import NotebookExtract.Proofs.Selection
import NotebookExtract.Proofs.Json.Grammar
import NotebookExtract.Proofs.Json.Numbers
import NotebookExtract.Proofs.Json.Strings
import NotebookExtract.Proofs.Json.Trees
import NotebookExtract.Proofs.Json.Values
import NotebookExtract.Proofs.Json.Skipping
import NotebookExtract.Proofs.Json.Accepted
import NotebookExtract.Proofs.Json.Records
import NotebookExtract.Proofs.Notebook.Reading
import NotebookExtract.Proofs.Notebook.Conforming
import NotebookExtract.Proofs.Notebook.Layout
import NotebookExtract.Proofs.Parts
import NotebookExtract.Proofs.Whitespace
import NotebookExtract.Proofs.Shown
import NotebookExtract.Proofs.Utf8
import NotebookExtract.Proofs.Command.Paths
import NotebookExtract.Proofs.Command.Stages
import NotebookExtract.Proofs.Command.Sinks
import NotebookExtract.Proofs.Command.Overwriting
import NotebookExtract.Proofs.Candidates
import NotebookExtract.Proofs.Fences
import NotebookExtract.Proofs.Naming
import NotebookExtract.Proofs.Settings.Merging
import NotebookExtract.Proofs.Toml.Distinct
import NotebookExtract.Proofs.Toml.Grammar
import NotebookExtract.Proofs.Toml.Tokens
import NotebookExtract.Proofs.Toml.Values
import NotebookExtract.Proofs.Toml.Documents
import NotebookExtract.Proofs.Settings.Precedence
