import Governance.BundleId
import Governance.Canonical
import Governance.CommandLine.Arguments
import Governance.CommandLine.Config
import Governance.CommandLine.Extras
import Governance.CommandLine.Input
import Governance.CommandLine.Run
import Governance.Condition.Basic
import Governance.Condition.Evaluate
import Governance.Condition.Wire
import Governance.Conflict.Basic
import Governance.Conflict.Classify
import Governance.Digest
import Governance.Effective.Basic
import Governance.Effective.Compute
import Governance.Effective.Leaves
import Governance.Effective.Merge
import Governance.Event
import Governance.Evidence.Basic
import Governance.Evidence.Compile
import Governance.Evidence.Integrity
import Governance.Failure
import Governance.Field.Directive
import Governance.Field.Registry
import Governance.Field.Wire
import Governance.FieldPath.Access
import Governance.FieldPath.Basic
import Governance.FieldPath.Text
import Governance.Identifier
import Governance.Json.Basic
import Governance.Json.Parser
import Governance.Json.Shape
import Governance.Json.Text
import Governance.Ledger
import Governance.Main
import Governance.Number.Binary64
import Governance.Number.Shortest
import Governance.Policy.Basic
import Governance.Proofs.Canonical.Arranged
import Governance.Proofs.Canonical.Equivalence
import Governance.Proofs.Canonical.Listing
import Governance.Proofs.Canonical.MemberOrder
import Governance.Proofs.Canonical.Parts
import Governance.Proofs.Canonical.Reading
import Governance.Proofs.Canonical.Settled
import Governance.Proofs.Canonical.Text
import Governance.Proofs.CommandLine.Effective
import Governance.Proofs.CommandLine.Previous
import Governance.Proofs.Condition.FailClosed
import Governance.Proofs.Condition.Fields
import Governance.Proofs.Condition.Record
import Governance.Proofs.Conflict.Polarity
import Governance.Proofs.Conflict.Preorder
import Governance.Proofs.Conflict.Settlement
import Governance.Proofs.Conflict.Strictness
import Governance.Proofs.Effective.Acceptance
import Governance.Proofs.Effective.Attribution
import Governance.Proofs.Effective.Change
import Governance.Proofs.Effective.Coherence
import Governance.Proofs.Effective.Declared
import Governance.Proofs.Effective.Descendant
import Governance.Proofs.Effective.Difference
import Governance.Proofs.Effective.Document
import Governance.Proofs.Effective.Dropped
import Governance.Proofs.Effective.Failure
import Governance.Proofs.Effective.Fields
import Governance.Proofs.Effective.Flaws
import Governance.Proofs.Effective.Frame
import Governance.Proofs.Effective.Hierarchy
import Governance.Proofs.Effective.Inherited
import Governance.Proofs.Effective.Leaves
import Governance.Proofs.Effective.Levels
import Governance.Proofs.Effective.Listing
import Governance.Proofs.Effective.Loosening
import Governance.Proofs.Effective.Merged
import Governance.Proofs.Effective.Order
import Governance.Proofs.Effective.Outcome
import Governance.Proofs.Effective.Parties
import Governance.Proofs.Effective.Reassembly
import Governance.Proofs.Effective.Rebuild
import Governance.Proofs.Effective.Record
import Governance.Proofs.Effective.Replacement
import Governance.Proofs.Effective.Severity
import Governance.Proofs.Effective.Step
import Governance.Proofs.Effective.Totals
import Governance.Proofs.Effective.Values
import Governance.Proofs.Effective.Version
import Governance.Proofs.Event.Document
import Governance.Proofs.Evidence.BundleId
import Governance.Proofs.Evidence.Disclosure
import Governance.Proofs.Evidence.Facts
import Governance.Proofs.Evidence.Header
import Governance.Proofs.Evidence.Outcome
import Governance.Proofs.Field.Orderly
import Governance.Proofs.Field.Registration
import Governance.Proofs.FieldPath.Access
import Governance.Proofs.FieldPath.Keys
import Governance.Proofs.FieldPath.PlainKeys
import Governance.Proofs.FieldPath.Reread
import Governance.Proofs.FieldPath.Text
import Governance.Proofs.Json.Distinct
import Governance.Proofs.Json.Equality
import Governance.Proofs.Json.Induction
import Governance.Proofs.Json.Layout
import Governance.Proofs.Json.Normal
import Governance.Proofs.Json.Places
import Governance.Proofs.Json.Quoted
import Governance.Proofs.Json.QuotedOrder
import Governance.Proofs.Json.Reading
import Governance.Proofs.Ledger
import Governance.Proofs.Rule.Authoring
import Governance.Proofs.Rule.Binding
import Governance.Proofs.Rule.Book
import Governance.Proofs.Rule.Content
import Governance.Proofs.Rule.Decision
import Governance.Proofs.Rule.Inheritance
import Governance.Proofs.Rule.Order
import Governance.Proofs.Scope.Building
import Governance.Proofs.Scope.Chain
import Governance.Proofs.Scope.Cycles
import Governance.Proofs.Scope.Descendants
import Governance.Proofs.Scope.Faults
import Governance.Proofs.Scope.LevelOrder
import Governance.Proofs.Scope.Tree
import Governance.Proofs.SortedMap.Extensions
import Governance.Proofs.SortedMap.Lookup
import Governance.Proofs.SortedMap.Ranked
import Governance.Proofs.Sorting
import Governance.Proofs.Text.Bytes
import Governance.Proofs.Text.Digest
import Governance.Proofs.Text.Split
import Governance.Proofs.Wire.Given
import Governance.Proofs.Wire.Record
import Governance.Proofs.Wire.RoundTrip
import Governance.Proofs.Wire.Unordered
import Governance.Rule.Basic
import Governance.Rule.Book
import Governance.Rule.Resolution
import Governance.Rule.Validation
import Governance.Scope.Basic
import Governance.Scope.Chain
import Governance.Scope.Tree
import Governance.Sha256
import Governance.SortedMap
import Governance.Text.Blank
import Governance.Text.Digits
import Governance.Text.Printable
import Governance.Text.Quoted
import Governance.Text.Split
import Governance.Timestamp
import Governance.ValidationError
import Governance.Version.Basic
import Governance.Version.Requirement
import Governance.Wire.Decode
import Governance.Wire.Named
import Governance.Yaml.Cursor
import Governance.Yaml.Node
import Governance.Yaml.Plain
import Governance.Yaml.Scalar
import Governance.Yaml.Token
import Governance.Yaml.Value
import Governance.Proofs.FieldPath.Scan
import Governance.Proofs.Text.DigestPairs
import Governance.Proofs.Version.Spelling
import Governance.Proofs.Version.Reading
import Governance.Proofs.Text.Blank
import Governance.Proofs.Version.Lenient
import Governance.Proofs.Version.Precedence
import Governance.Proofs.Version.Respelling
import Governance.Proofs.Version.Range
import Governance.Proofs.Version.Operators
import Governance.Proofs.Field.Registration
