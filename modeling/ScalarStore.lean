import ScalarStore.Alteration
import ScalarStore.Calendar
import ScalarStore.Collection
import ScalarStore.CommandLine.Options
import ScalarStore.CommandLine.Order
import ScalarStore.CommandLine.Outcome
import ScalarStore.CommandLine.Run
import ScalarStore.DataFile
import ScalarStore.DataType
import ScalarStore.Database
import ScalarStore.Document
import ScalarStore.Fault
import ScalarStore.Filter.Basic
import ScalarStore.Filter.Build
import ScalarStore.Filter.Grammar
import ScalarStore.Filter.Mention
import ScalarStore.Filter.Parse
import ScalarStore.Filter.Token
import ScalarStore.Json.Reader
import ScalarStore.Json.Writer
import ScalarStore.Like
import ScalarStore.Main
import ScalarStore.Numeric.Binary64
import ScalarStore.Numeric.Number
import ScalarStore.Numeric.Shortest
import ScalarStore.ParseCache
import ScalarStore.Predicate.Basic
import ScalarStore.Predicate.Bounds
import ScalarStore.Predicate.Compile
import ScalarStore.Proofs.Collection.Commutation
import ScalarStore.Proofs.Collection.Expiry
import ScalarStore.Proofs.Collection.Insertion
import ScalarStore.Proofs.Collection.Invariant
import ScalarStore.Proofs.Collection.Keys
import ScalarStore.Proofs.Collection.Loading
import ScalarStore.Proofs.Collection.Log
import ScalarStore.Proofs.Collection.Restorable
import ScalarStore.Proofs.Collection.Step
import ScalarStore.Proofs.CommandLine.Alter
import ScalarStore.Proofs.CommandLine.Check
import ScalarStore.Proofs.Database.Invariant
import ScalarStore.Proofs.Document.Alter
import ScalarStore.Proofs.Document.Dump
import ScalarStore.Proofs.Document.Load
import ScalarStore.Proofs.Document.RoundTrip
import ScalarStore.Proofs.Filter.Boundary
import ScalarStore.Proofs.Filter.Completeness
import ScalarStore.Proofs.Filter.Completion
import ScalarStore.Proofs.Filter.Composition
import ScalarStore.Proofs.Filter.Correctness
import ScalarStore.Proofs.Filter.Derivation
import ScalarStore.Proofs.Filter.FieldName
import ScalarStore.Proofs.Filter.Lexeme
import ScalarStore.Proofs.Filter.Meaning
import ScalarStore.Proofs.Filter.Mention
import ScalarStore.Proofs.Filter.Place
import ScalarStore.Proofs.Filter.Quoting
import ScalarStore.Proofs.Filter.Refusal
import ScalarStore.Proofs.Filter.Scan
import ScalarStore.Proofs.Filter.Shape
import ScalarStore.Proofs.Filter.Soundness
import ScalarStore.Proofs.Filter.Tokenization
import ScalarStore.Proofs.Like.Expression
import ScalarStore.Proofs.Like.Matching
import ScalarStore.Proofs.Like.Paths
import ScalarStore.Proofs.Numeric.Exact
import ScalarStore.Proofs.Numeric.Range
import ScalarStore.Proofs.Outcome
import ScalarStore.Proofs.ParseCache
import ScalarStore.Proofs.Predicate.Bounds
import ScalarStore.Proofs.Predicate.Equality
import ScalarStore.Proofs.Predicate.Fold
import ScalarStore.Proofs.Predicate.Leaf
import ScalarStore.Proofs.Predicate.Offence
import ScalarStore.Proofs.Predicate.Tree
import ScalarStore.Proofs.Predicate.Walk
import ScalarStore.Proofs.Property
import ScalarStore.Proofs.Query.Answer
import ScalarStore.Proofs.Query.Composition
import ScalarStore.Proofs.Query.Evaluation
import ScalarStore.Proofs.Query.Failure
import ScalarStore.Proofs.Query.Paging
import ScalarStore.Proofs.Query.Restriction
import ScalarStore.Proofs.Query.Selection
import ScalarStore.Proofs.Schema.Acceptance
import ScalarStore.Proofs.Schema.Document
import ScalarStore.Proofs.Schema.RoundTrip
import ScalarStore.Proofs.Schema.Row
import ScalarStore.Proofs.Schema.Validation
import ScalarStore.Proofs.Session.Address
import ScalarStore.Proofs.Session.Alias
import ScalarStore.Proofs.Session.CacheSize
import ScalarStore.Proofs.Session.Content
import ScalarStore.Proofs.Session.Drafting
import ScalarStore.Proofs.Session.Failure
import ScalarStore.Proofs.Session.InPlace
import ScalarStore.Proofs.Session.Invariant
import ScalarStore.Proofs.Session.Isolation
import ScalarStore.Proofs.Session.Linked
import ScalarStore.Proofs.Session.Naming
import ScalarStore.Proofs.Session.Readable
import ScalarStore.Proofs.Session.Standing
import ScalarStore.Proofs.Table
import ScalarStore.Proofs.Value.Same
import ScalarStore.Property
import ScalarStore.Query
import ScalarStore.Reading
import ScalarStore.Report
import ScalarStore.Schema.Basic
import ScalarStore.Schema.Document
import ScalarStore.Schema.Row
import ScalarStore.Session
import ScalarStore.Settings
import ScalarStore.Store
import ScalarStore.Table
import ScalarStore.Text.Blank
import ScalarStore.Text.Digit
import ScalarStore.Text.Integer
import ScalarStore.Text.Printable
import ScalarStore.Text.Quoted
import ScalarStore.Text.Upper
import ScalarStore.Value.Access
import ScalarStore.Value.Basic
import ScalarStore.Value.Order
import ScalarStore.Value.Text
import ScalarStore.Yaml.Line
import ScalarStore.Yaml.Node
import ScalarStore.Yaml.Node.Document
import ScalarStore.Yaml.Node.Reader
import ScalarStore.Yaml.Reader
import ScalarStore.Yaml.Refusal
import ScalarStore.Yaml.Scalar
import ScalarStore.Yaml.Token
import ScalarStore.Yaml.Token.Lexer
import ScalarStore.Yaml.Token.Scalar
import ScalarStore.Yaml.Token.Tag
import ScalarStore.Yaml.Tree
import ScalarStore.Yaml.Writer
