import Conformance.Case.Basic
import Conformance.Case.Block
import Conformance.Case.Expectation
import Conformance.Case.ExpectationJson
import Conformance.Case.Metadata
import Conformance.Command.Arguments
import Conformance.Command.Session
import Conformance.Corpus.Basic
import Conformance.Corpus.Directory
import Conformance.Corpus.Index
import Conformance.Corpus.Stream
import Conformance.Corpus.Walk
import Conformance.Decimal.Double
import Conformance.Decimal.Numeral
import Conformance.Decimal.Shortest
import Conformance.Download.Address
import Conformance.Download.Reply
import Conformance.Error
import Conformance.Exclusion.Engine
import Conformance.Exclusion.Rules
import Conformance.Glob.Match
import Conformance.Glob.Pattern
import Conformance.Glob.Problem
import Conformance.Host.Basic
import Conformance.Host.Fault
import Conformance.Json
import Conformance.Main
import Conformance.Notice
import Conformance.Path
import Conformance.Revision.Basic
import Conformance.Revision.Cache
import Conformance.Revision.Opened
import Conformance.Revision.Sharing
import Conformance.Revision.Unpack
import Conformance.Run.Executor
import Conformance.Run.Outcome
import Conformance.Run.Pool
import Conformance.Run.Report
import Conformance.Run.Runner
import Conformance.Run.Summary
import Conformance.Settings
import Conformance.Text.Blank
import Conformance.Text.LetterCase
import Conformance.Text.LetterCase.Table
import Conformance.Text.Lines
import Conformance.Text.Printable
import Conformance.Text.Quoted
import Conformance.Text.Ranges
import Conformance.Text.Search
import Conformance.Text.Style
import Conformance.Toml.Document
import Conformance.Toml.Layout
import Conformance.Toml.Quoted
import Conformance.Toml.Reader
import Conformance.Toml.Scalar
import Conformance.Toml.Value
import Conformance.Yaml.Document
import Conformance.Yaml.Event
import Conformance.Yaml.Lexer
import Conformance.Yaml.Number
import Conformance.Yaml.Resolve
import Conformance.Yaml.Scalar
import Conformance.Yaml.Source
import Conformance.Yaml.Tag
import Conformance.Yaml.Token
import Conformance.Yaml.Value
import Conformance.Zip.Archive
import Conformance.Zip.Checksum
import Conformance.Zip.Enclosed
import Conformance.Zip.Inflate
import Conformance.Zip.Problem
import Conformance.Proofs.Run.Change
import Conformance.Proofs.Run.Account
import Conformance.Proofs.Run.Buckets
import Conformance.Proofs.Run.Complete
import Conformance.Proofs.Run.Final
import Conformance.Proofs.Path.Segments
import Conformance.Proofs.Text.LetterCase
import Conformance.Proofs.Exclusion.Entries
import Conformance.Proofs.Exclusion.Tables
import Conformance.Proofs.Exclusion.Scan
import Conformance.Proofs.Text.Order
import Conformance.Proofs.Path.Ordinary
import Conformance.Proofs.Host.Follow
import Conformance.Proofs.Host.Base
import Conformance.Proofs.Host.Change
import Conformance.Proofs.Host.Behind
import Conformance.Proofs.Corpus.Tables
import Conformance.Proofs.Corpus.Tree
import Conformance.Proofs.Corpus.DirectoryView
import Conformance.Proofs.Corpus.IndexView
import Conformance.Proofs.Corpus.Range
import Conformance.Proofs.Corpus.Agreement
import Conformance.Proofs.Case.Block
import Conformance.Proofs.Case.Reading
import Conformance.Proofs.Case.Acceptance
import Conformance.Proofs.Host.Home
import Conformance.Proofs.Host.Confined
import Conformance.Proofs.Revision.Stages
import Conformance.Proofs.Revision.Place
import Conformance.Proofs.Revision.Fetching
import Conformance.Proofs.Revision.Lock
import Conformance.Proofs.Revision.Transfer
import Conformance.Proofs.Revision.Unpacking
import Conformance.Proofs.Revision.Confinement
import Conformance.Proofs.Revision.Tree
import Conformance.Proofs.Revision.Extraction
import Conformance.Proofs.Revision.WholeTree
import Conformance.Proofs.Corpus.Items
import Conformance.Proofs.Corpus.Indexing
import Conformance.Proofs.Corpus.Content
import Conformance.Proofs.Run.Progress
import Conformance.Proofs.Host.Making
import Conformance.Proofs.Revision.Spelling
import Conformance.Proofs.Revision.Layout
import Conformance.Proofs.Revision.Placing
import Conformance.Proofs.Revision.Finishing
import Conformance.Proofs.Revision.Ensuring
import Conformance.Proofs.Revision.Opening
import Conformance.Proofs.Zip.Reading
import Conformance.Proofs.Path.Normalized
import Conformance.Proofs.Host.SameBelow
import Conformance.Proofs.Corpus.Enclosed
import Conformance.Proofs.Run.Limit
import Conformance.Proofs.Corpus.Loading
import Conformance.Proofs.Command.Listing
import Conformance.Proofs.Exclusion.Composition
import Conformance.Proofs.Exclusion.Display
import Conformance.Proofs.Host.Alike
import Conformance.Proofs.Revision.Beside
import Conformance.Proofs.Revision.Neighbours
import Conformance.Proofs.Revision.Independence
import Conformance.Proofs.Text.Trimmed
import Conformance.Proofs.Text.AsciiCase
import Conformance.Proofs.Glob.Nesting
import Conformance.Proofs.Exclusion.SameReading
import Conformance.Proofs.Exclusion.Unrecognized
import Conformance.Proofs.Exclusion.TestFolder
import Conformance.Proofs.Exclusion.Listed
import Conformance.Proofs.Exclusion.Recased
import Conformance.Proofs.Command.Unrecognized
import Conformance.Proofs.Case.Variants
import Conformance.Proofs.Case.Offsets
import Conformance.Proofs.Case.Surroundings
import Conformance.Proofs.Run.Crashes
import Conformance.Proofs.Run.Excluding
import Conformance.Proofs.Host.Descent
import Conformance.Proofs.Corpus.Refusal
import Conformance.Proofs.Corpus.Tidy
import Conformance.Proofs.Corpus.Single
import Conformance.Proofs.Revision.Ready
import Conformance.Proofs.Revision.Recovery
import Conformance.Proofs.Host.Adding
import Conformance.Proofs.Revision.Straying
import Conformance.Proofs.Path.Repeated
import Conformance.Proofs.Path.Form
import Conformance.Proofs.Run.Ahead
import Conformance.Proofs.Corpus.Laziness
import Conformance.Proofs.Command.Tally
