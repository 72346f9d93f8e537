import EmbeddedSql.Candidate.Basic
import EmbeddedSql.Candidate.Merge
import EmbeddedSql.Cli.Arguments
import EmbeddedSql.Cli.Markup
import EmbeddedSql.Cli.Occasion
import EmbeddedSql.Cli.Outcome
import EmbeddedSql.Cli.Reach
import EmbeddedSql.Cli.Run
import EmbeddedSql.Cli.Scan
import EmbeddedSql.Config
import EmbeddedSql.Digest.Md5
import EmbeddedSql.Files.Discovery
import EmbeddedSql.Files.Path
import EmbeddedSql.Files.Source
import EmbeddedSql.Files.Tree
import EmbeddedSql.Flow.Expression
import EmbeddedSql.Flow.Fragment
import EmbeddedSql.Flow.Loose
import EmbeddedSql.Flow.Placeholder
import EmbeddedSql.Flow.Run
import EmbeddedSql.Flow.State
import EmbeddedSql.Flow.Statement
import EmbeddedSql.Flow.Variable
import EmbeddedSql.Glob.Pattern
import EmbeddedSql.Journal.Basic
import EmbeddedSql.Json.Basic
import EmbeddedSql.Json.Parser
import EmbeddedSql.Json.Printer
import EmbeddedSql.Main
import EmbeddedSql.Number.Binary64
import EmbeddedSql.Number.Integer
import EmbeddedSql.Rules.Basic
import EmbeddedSql.Rules.Classify
import EmbeddedSql.Rules.File
import EmbeddedSql.Rules.Validation
import EmbeddedSql.Scan.Files
import EmbeddedSql.Scan.Result
import EmbeddedSql.Scan.Source
import EmbeddedSql.Scope.Basic
import EmbeddedSql.Scope.Brackets
import EmbeddedSql.Scope.Skip
import EmbeddedSql.Scope.Split
import EmbeddedSql.Store.Archive
import EmbeddedSql.Store.Basic
import EmbeddedSql.Store.Connection
import EmbeddedSql.Store.Database
import EmbeddedSql.Store.Migration
import EmbeddedSql.Store.MigrationScript
import EmbeddedSql.Store.Record
import EmbeddedSql.Store.Script
import EmbeddedSql.Store.Statement
import EmbeddedSql.Text.Alphanumeric
import EmbeddedSql.Text.Blank
import EmbeddedSql.Text.CodePoint
import EmbeddedSql.Text.Digit
import EmbeddedSql.Text.LetterCase
import EmbeddedSql.Text.LetterCase.Tables
import EmbeddedSql.Text.Lines
import EmbeddedSql.Text.Printable
import EmbeddedSql.Text.Quoted
import EmbeddedSql.Text.Ranges
import EmbeddedSql.Text.Split
import EmbeddedSql.Text.Utf8
import EmbeddedSql.Token.Basic
import EmbeddedSql.Token.Lexer
import EmbeddedSql.Token.Literal
import EmbeddedSql.Proofs.Flow.Failure
import EmbeddedSql.Proofs.Scope.Retouching
import EmbeddedSql.Proofs.Flow.Alongside
import EmbeddedSql.Proofs.Scan.Completion
import EmbeddedSql.Proofs.Scan.Isolation
import EmbeddedSql.Proofs.Flow.StraightLine.Program
import EmbeddedSql.Proofs.Flow.StraightLine.Places
import EmbeddedSql.Proofs.Flow.StraightLine.Values
import EmbeddedSql.Proofs.Flow.StraightLine.Tracking
import EmbeddedSql.Proofs.Flow.StraightLine.Statements
import EmbeddedSql.Proofs.Flow.StraightLine.Builders
import EmbeddedSql.Proofs.Flow.StraightLine.Refinement
import EmbeddedSql.Proofs.Candidate.Joined
import EmbeddedSql.Proofs.Json.ReadingBack
import EmbeddedSql.Proofs.Store.Cached
import EmbeddedSql.Proofs.Files.Alteration
import EmbeddedSql.Proofs.Cli.Recording
import EmbeddedSql.Proofs.Cli.StoreOnDisk
import EmbeddedSql.Proofs.Cli.Invocation
import EmbeddedSql.Proofs.Cli.Reuse
import EmbeddedSql.Proofs.Token.Cutting
import EmbeddedSql.Proofs.Candidate.Merging
import EmbeddedSql.Proofs.Candidate.Runs
import EmbeddedSql.Proofs.Candidate.Components
import EmbeddedSql.Proofs.Candidate.Statements
import EmbeddedSql.Proofs.Candidate.Repetition
import EmbeddedSql.Proofs.Flow.Lines
import EmbeddedSql.Proofs.Scan.WellFormed
import EmbeddedSql.Proofs.Flow.FirstLiteral
import EmbeddedSql.Proofs.Scope.Balance
import EmbeddedSql.Proofs.Flow.Coverage
import EmbeddedSql.Proofs.Flow.Literals
import EmbeddedSql.Proofs.Flow.Agreement
import EmbeddedSql.Proofs.Flow.Readings
import EmbeddedSql.Proofs.Flow.Updates
import EmbeddedSql.Proofs.Flow.Sources
import EmbeddedSql.Proofs.Flow.Moves
import EmbeddedSql.Proofs.Flow.Accumulations
import EmbeddedSql.Proofs.Flow.Reports
import EmbeddedSql.Proofs.Flow.Keeping
import EmbeddedSql.Proofs.Flow.Appends
import EmbeddedSql.Proofs.Token.Lookahead
import EmbeddedSql.Proofs.Token.Inert
import EmbeddedSql.Proofs.Scan.Comments
import EmbeddedSql.Proofs.Scan.Remembered
import EmbeddedSql.Proofs.Scan.Surrogates
import EmbeddedSql.Proofs.Store.ScanRoundTrip
import EmbeddedSql.Proofs.Store.Transaction
import EmbeddedSql.Proofs.Store.Operations
import EmbeddedSql.Proofs.Store.LastSaved
import EmbeddedSql.Proofs.Token.Locality
import EmbeddedSql.Proofs.Token.CarriageReturns
import EmbeddedSql.Proofs.Token.LineEnds
import EmbeddedSql.Proofs.Scope.Frames
import EmbeddedSql.Proofs.Flow.Progress
import EmbeddedSql.Proofs.Scope.Complete
import EmbeddedSql.Proofs.Scope.Beginning
import EmbeddedSql.Proofs.Flow.Beginning
import EmbeddedSql.Proofs.Store.Contention
import EmbeddedSql.Proofs.Store.MigratedOnce
import EmbeddedSql.Proofs.Scope.Across
import EmbeddedSql.Proofs.Scope.Skipped
import EmbeddedSql.Proofs.Scope.Surroundings
import EmbeddedSql.Proofs.Flow.Shape
import EmbeddedSql.Proofs.Flow.Passage
import EmbeddedSql.Proofs.Flow.Passing
import EmbeddedSql.Proofs.Flow.Logged
import EmbeddedSql.Proofs.Flow.ReadOnce
import EmbeddedSql.Proofs.Flow.OneCall
import EmbeddedSql.Proofs.Flow.Declared
import EmbeddedSql.Proofs.Text.UpperCase
import EmbeddedSql.Proofs.Json.Pages
import EmbeddedSql.Proofs.Json.Remainders
import EmbeddedSql.Proofs.Rules.Normal
import EmbeddedSql.Proofs.Rules.RoundTrip
import EmbeddedSql.Proofs.Rules.Refusal
import EmbeddedSql.Proofs.Store.Deposits
import EmbeddedSql.Proofs.Store.Counts
import EmbeddedSql.Proofs.Cli.RunCounts
import EmbeddedSql.Proofs.Token.Constructs
import EmbeddedSql.Proofs.Token.Shapes
import EmbeddedSql.Proofs.Token.Unclosed
import EmbeddedSql.Proofs.Token.WrittenLiterals
import EmbeddedSql.Proofs.Cli.RunClosing
import EmbeddedSql.Proofs.Scope.Bodies
import EmbeddedSql.Proofs.Token.EscapePairs
import EmbeddedSql.Proofs.Token.Margins
import EmbeddedSql.Proofs.Scope.Headers
import EmbeddedSql.Proofs.Flow.Written.Groups
import EmbeddedSql.Proofs.Flow.Written.Creations
import EmbeddedSql.Proofs.Flow.Written.Operands
import EmbeddedSql.Proofs.Flow.Written.Parentheses
import EmbeddedSql.Proofs.Flow.Written.Initializers
import EmbeddedSql.Proofs.Flow.Written.Untouched
import EmbeddedSql.Proofs.Flow.Written.Parameters
import EmbeddedSql.Proofs.Scope.Inserted
import EmbeddedSql.Proofs.Flow.Inserted
import EmbeddedSql.Proofs.Flow.Standing
import EmbeddedSql.Proofs.Flow.Written.Backwards
import EmbeddedSql.Proofs.Flow.Written.Qualifiers
import EmbeddedSql.Proofs.Rules.FirstWord
import EmbeddedSql.Proofs.Glob.Sets
import EmbeddedSql.Proofs.Glob.Matching
import EmbeddedSql.Proofs.Rules.FirstMatch
import EmbeddedSql.Proofs.Flow.Written.Receivers
import EmbeddedSql.Proofs.Flow.Translation
import EmbeddedSql.Proofs.Scan.Translation
import EmbeddedSql.Proofs.Store.Growth
import EmbeddedSql.Proofs.Store.Sessions
import EmbeddedSql.Proofs.Store.VersionByVersion
import EmbeddedSql.Proofs.Token.Numerals
import EmbeddedSql.Proofs.Token.RunningOn
import EmbeddedSql.Proofs.Scope.SourceText
import EmbeddedSql.Proofs.Number.Rounding
import EmbeddedSql.Proofs.Json.Numbers
import EmbeddedSql.Proofs.Json.Lines
import EmbeddedSql.Proofs.Files.Settling
import EmbeddedSql.Proofs.Store.Events
import EmbeddedSql.Proofs.Journal.Appending
import EmbeddedSql.Proofs.Journal.Work
import EmbeddedSql.Proofs.Journal.Sinks
import EmbeddedSql.Proofs.Journal.NothingLost
import EmbeddedSql.Proofs.Files.Below
import EmbeddedSql.Proofs.Files.Finding
import EmbeddedSql.Proofs.Cli.Visiting
import EmbeddedSql.Proofs.Scope.Partners
import EmbeddedSql.Proofs.Scope.BracketIndex
