import BundleConf.Text.Blank
import BundleConf.Text.LineIndex
import BundleConf.Text.Offset
import BundleConf.Text.Width
import BundleConf.Path.Basic
import BundleConf.Source.Basic
import BundleConf.Source.Table
import BundleConf.App.Basic
import BundleConf.App.Contract
import BundleConf.App.Json
import BundleConf.App.Printer
import BundleConf.Token.Basic
import BundleConf.Token.Scan
import BundleConf.Token.Stream
import BundleConf.Diagnostic.Basic
import BundleConf.Files.Lookup
import BundleConf.Files.Tree
import BundleConf.Session.Basic
import BundleConf.Session.Progress
import BundleConf.Parse.Error
import BundleConf.Parse.State
import BundleConf.Parse.Parser
import BundleConf.Parse.Run
import BundleConf.Report.Excerpt
import BundleConf.Report.Render
import BundleConf.Toml.Reader
import BundleConf.Toml.Quoted
import BundleConf.Toml.Number
import BundleConf.Toml.Plain
import BundleConf.Toml.Document
import BundleConf.Settings.Manifest
import BundleConf.Settings.Basic
import BundleConf.Json.Block
import BundleConf.Command.Arguments
import BundleConf.Command.Run
import BundleConf.Main
import BundleConf.Proofs.Lexing.Unread
import BundleConf.Proofs.Lexing.Lexeme
import BundleConf.Proofs.Lexing.Tiling
import BundleConf.Proofs.Lexing.Printing
import BundleConf.Proofs.Lexing.Spacing
import BundleConf.Proofs.Session.Reading
import BundleConf.Proofs.Session.Steps
import BundleConf.Proofs.Session.Alignment
import BundleConf.Proofs.Parsing.Naming
import BundleConf.Proofs.Parsing.Machine
import BundleConf.Proofs.Parsing.Relocation
import BundleConf.Proofs.Parsing.Feeding
import BundleConf.Proofs.Parsing.Asking
import BundleConf.Proofs.Parsing.Text
import BundleConf.Proofs.Grammar.Tree
import BundleConf.Proofs.Grammar.Ledger
import BundleConf.Proofs.Grammar.Growth
import BundleConf.Proofs.Grammar.Effect
import BundleConf.Proofs.Grammar.Numbering
import BundleConf.Proofs.Grammar.Demand
import BundleConf.Proofs.Grammar.Canonical
import BundleConf.Proofs.Grammar.Entry
import BundleConf.Proofs.Parsing.Acceptance
import BundleConf.Proofs.Parsing.RoundTrip
import BundleConf.Proofs.Include.Trace
import BundleConf.Proofs.Include.Belonging
import BundleConf.Proofs.Include.Loading
import BundleConf.Proofs.Include.Termination
import BundleConf.Proofs.Include.Splicing
import BundleConf.Proofs.Include.Visiting
import BundleConf.Proofs.Parsing.Consistency
import BundleConf.Proofs.Include.Derivation
import BundleConf.Proofs.Include.Delivery
import BundleConf.Proofs.Parsing.Citing
import BundleConf.Proofs.Include.Pinpointing
import BundleConf.Proofs.Grammar.Viability
import BundleConf.Proofs.Parsing.Refusal
import BundleConf.Proofs.Include.Layout
import BundleConf.Proofs.Include.Nesting
import BundleConf.Proofs.Include.Reuse
import BundleConf.Proofs.Session.Retrying
import BundleConf.Proofs.Session.Drawing
import BundleConf.Proofs.Include.Generating
import BundleConf.Proofs.Session.Renumbering
import BundleConf.Proofs.Session.Calls
import BundleConf.Proofs.Include.Likeness
import BundleConf.Proofs.Lexing.Joining
import BundleConf.Proofs.Lexing.Failing
import BundleConf.Proofs.Source.Positions
import BundleConf.Proofs.Path.Resolution
import BundleConf.Proofs.Include.Containment
import BundleConf.Proofs.Session.Returning
import BundleConf.Proofs.Parsing.Clashing
import BundleConf.Proofs.App.Bundling
import BundleConf.Proofs.Lexing.Restarting
import BundleConf.Proofs.Settings.Discovery
import BundleConf.Proofs.Report.Heading
