import DocumentRules.Block.Basic
import DocumentRules.Block.Json
import DocumentRules.Block.Normalize
import DocumentRules.Block.Rule
import DocumentRules.BuiltIn.Rules
import DocumentRules.Calendar.Date
import DocumentRules.Calendar.Timestamp
import DocumentRules.Catalog.Basic
import DocumentRules.Catalog.Case
import DocumentRules.Catalog.Containment
import DocumentRules.Catalog.FieldReport
import DocumentRules.Catalog.Matcher
import DocumentRules.Catalog.Outcome
import DocumentRules.Catalog.OutcomeJson
import DocumentRules.Change.Diff
import DocumentRules.Change.Mutation
import DocumentRules.CommandLine.Arguments
import DocumentRules.CommandLine.Command
import DocumentRules.CommandLine.Perform
import DocumentRules.Coverage.Fact
import DocumentRules.Dependency.Digraph
import DocumentRules.Dependency.Graph
import DocumentRules.Dependency.Order
import DocumentRules.Digest.Sha256
import DocumentRules.Document.Access
import DocumentRules.Document.Fingerprint
import DocumentRules.Document.Json
import DocumentRules.Document.Path
import DocumentRules.Document.PathText
import DocumentRules.Document.Value
import DocumentRules.Json.Basic
import DocumentRules.Json.Reader
import DocumentRules.Json.Record
import DocumentRules.Json.Token
import DocumentRules.Json.Tree
import DocumentRules.Json.Writer
import DocumentRules.Main
import DocumentRules.Number.Binary64
import DocumentRules.Number.Numeral
import DocumentRules.Number.Shortest
import DocumentRules.Order.Entries
import DocumentRules.Order.OrderedSet
import DocumentRules.Order.Sorting
import DocumentRules.Order.Strict
import DocumentRules.Proofs.Block.DecimalMark
import DocumentRules.Proofs.Block.Dependence
import DocumentRules.Proofs.Block.Exchange
import DocumentRules.Proofs.Block.Footprint
import DocumentRules.Proofs.Block.Inferred
import DocumentRules.Proofs.Block.NumberText
import DocumentRules.Proofs.Block.Settled
import DocumentRules.Proofs.Block.Source
import DocumentRules.Proofs.BuiltIn.AccountNumber
import DocumentRules.Proofs.BuiltIn.WholeNumbers
import DocumentRules.Proofs.Calendar.ReadBack
import DocumentRules.Proofs.Catalog.Asserted
import DocumentRules.Proofs.Catalog.Closeness
import DocumentRules.Proofs.Catalog.Containment
import DocumentRules.Proofs.Catalog.Evaluation
import DocumentRules.Proofs.Catalog.FieldReport
import DocumentRules.Proofs.Catalog.Fragment
import DocumentRules.Proofs.Catalog.Keyed
import DocumentRules.Proofs.Catalog.Matching
import DocumentRules.Proofs.Catalog.Recorded
import DocumentRules.Proofs.Catalog.Verdict
import DocumentRules.Proofs.Catalog.Workers
import DocumentRules.Proofs.Change.Agreement
import DocumentRules.Proofs.Change.Exact
import DocumentRules.Proofs.Change.Listing
import DocumentRules.Proofs.Change.Recorded
import DocumentRules.Proofs.Change.Replay
import DocumentRules.Proofs.Change.Touched
import DocumentRules.Proofs.Coverage.Authority
import DocumentRules.Proofs.Coverage.Gaps
import DocumentRules.Proofs.Dependency.Circle
import DocumentRules.Proofs.Dependency.Emission
import DocumentRules.Proofs.Dependency.LeastOrder
import DocumentRules.Proofs.Dependency.Moves
import DocumentRules.Proofs.Dependency.Queries
import DocumentRules.Proofs.Dependency.Schedule
import DocumentRules.Proofs.Document.Fingerprint
import DocumentRules.Proofs.Document.Leaf
import DocumentRules.Proofs.Document.PathGrammar
import DocumentRules.Proofs.Document.PathText
import DocumentRules.Proofs.Document.Rebuilding
import DocumentRules.Proofs.Document.Recorded
import DocumentRules.Proofs.Document.Respelling
import DocumentRules.Proofs.Json.Record
import DocumentRules.Proofs.Number.Arithmetic
import DocumentRules.Proofs.Number.Digits
import DocumentRules.Proofs.Number.Exact
import DocumentRules.Proofs.Number.Hundredfold
import DocumentRules.Proofs.Number.Nearest
import DocumentRules.Proofs.Number.Numeral
import DocumentRules.Proofs.Number.Rounding
import DocumentRules.Proofs.Number.Shortest
import DocumentRules.Proofs.Number.TotalOrder
import DocumentRules.Proofs.Property.Inputs
import DocumentRules.Proofs.Property.Report
import DocumentRules.Proofs.Registry.Authority
import DocumentRules.Proofs.Registry.Index
import DocumentRules.Proofs.Registry.Overriding
import DocumentRules.Proofs.Registry.Permanence
import DocumentRules.Proofs.Registry.RegistrationOrder
import DocumentRules.Proofs.Run.Account
import DocumentRules.Proofs.Run.Frame
import DocumentRules.Proofs.Run.Independence
import DocumentRules.Proofs.Run.Overflow
import DocumentRules.Proofs.Run.Replay
import DocumentRules.Proofs.Run.Trace
import DocumentRules.Proofs.Run.Turns
import DocumentRules.Proofs.Run.Undeclared
import DocumentRules.Proofs.Suggestion.Candidates
import DocumentRules.Proofs.Suggestion.Evidence
import DocumentRules.Proofs.Suggestion.Grouping
import DocumentRules.Proofs.Suggestion.Ranking
import DocumentRules.Proofs.Suggestion.Reached
import DocumentRules.Proofs.Suggestion.Scoring
import DocumentRules.Property.Check
import DocumentRules.Random.ChaCha
import DocumentRules.Random.Generator
import DocumentRules.Regex.Bracket
import DocumentRules.Regex.CharSet
import DocumentRules.Regex.Escape
import DocumentRules.Regex.Machine
import DocumentRules.Regex.Parser
import DocumentRules.Regex.Pattern
import DocumentRules.Regex.Reader
import DocumentRules.Regex.Repetition
import DocumentRules.Registry.Basic
import DocumentRules.Registry.Draft
import DocumentRules.Rule.Basic
import DocumentRules.Rule.Body
import DocumentRules.Run.Basic
import DocumentRules.Run.Log
import DocumentRules.Run.Snapshot
import DocumentRules.Sample.FieldKind
import DocumentRules.Sample.Values
import DocumentRules.Session.Basic
import DocumentRules.Suggestion.Config
import DocumentRules.Suggestion.Engine
import DocumentRules.Suggestion.Json
import DocumentRules.Suggestion.Strategy
import DocumentRules.Text.Cased
import DocumentRules.Text.Classes
import DocumentRules.Text.LetterCase
import DocumentRules.Workspace.Basic
