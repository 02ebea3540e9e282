import Eligibility.Command.Arguments
import Eligibility.Command.Directory
import Eligibility.Command.Run
import Eligibility.Double
import Eligibility.Double.Shortest
import Eligibility.Drafting.Generator
import Eligibility.Drafting.Loop
import Eligibility.Json
import Eligibility.Json.Draft
import Eligibility.Json.Expect
import Eligibility.Json.Fault
import Eligibility.Json.Letter
import Eligibility.Json.Numeral
import Eligibility.Json.Render
import Eligibility.Main
import Eligibility.Model.Client
import Eligibility.Model.Prompt
import Eligibility.Proofs.Acceptance
import Eligibility.Proofs.Addresses
import Eligibility.Proofs.Alike
import Eligibility.Proofs.Arithmetic
import Eligibility.Proofs.Attempts
import Eligibility.Proofs.BareReply
import Eligibility.Proofs.Boundary
import Eligibility.Proofs.ByteOrder
import Eligibility.Proofs.Canonical
import Eligibility.Proofs.Carryover
import Eligibility.Proofs.Clashes
import Eligibility.Proofs.Clean
import Eligibility.Proofs.ConflictReport
import Eligibility.Proofs.ConflictText
import Eligibility.Proofs.Conformance
import Eligibility.Proofs.Cutting
import Eligibility.Proofs.Dialogue
import Eligibility.Proofs.DocumentText
import Eligibility.Proofs.Embedding
import Eligibility.Proofs.ExactValue
import Eligibility.Proofs.Extent
import Eligibility.Proofs.FencedBlock
import Eligibility.Proofs.Fences
import Eligibility.Proofs.FieldReading
import Eligibility.Proofs.Gathering
import Eligibility.Proofs.LintChecks
import Eligibility.Proofs.LintReport
import Eligibility.Proofs.Locality
import Eligibility.Proofs.MemberOrder
import Eligibility.Proofs.NodeDocument
import Eligibility.Proofs.NumberText
import Eligibility.Proofs.Numbers
import Eligibility.Proofs.NumeralText
import Eligibility.Proofs.Parentheses
import Eligibility.Proofs.Pinpoint
import Eligibility.Proofs.PlainForm
import Eligibility.Proofs.PlainNumber
import Eligibility.Proofs.Recognition
import Eligibility.Proofs.RoundTrip
import Eligibility.Proofs.Satisfiability
import Eligibility.Proofs.Schema
import Eligibility.Proofs.SchemaFields
import Eligibility.Proofs.SettledDocument
import Eligibility.Proofs.SourceText
import Eligibility.Proofs.StringLiterals
import Eligibility.Proofs.StringText
import Eligibility.Proofs.TopLevel
import Eligibility.Proofs.Unambiguity
import Eligibility.Proofs.Walk
import Eligibility.Review.Bounds
import Eligibility.Review.Failure
import Eligibility.Review.Identifier
import Eligibility.Review.Lint
import Eligibility.Review.Oracle
import Eligibility.Review.SourceLint
import Eligibility.Review.Validator
import Eligibility.Rule.Assembly
import Eligibility.Rule.Basic
import Eligibility.Rule.Document
import Eligibility.Rule.Equality
import Eligibility.Rule.Field
import Eligibility.Rule.Kind
import Eligibility.Rule.Narrow
import Eligibility.Rule.Parse
import Eligibility.Rule.Reader
import Eligibility.Rule.Source
import Eligibility.Rule.Walk
import Eligibility.Settings.Backend
import Eligibility.Settings.Config
import Eligibility.Settings.Document
import Eligibility.Settings.Environment
import Eligibility.Settings.Yaml
import Eligibility.Text.Blank
import Eligibility.Text.Fence
import Eligibility.Text.Hidden
import Eligibility.Text.Lowercase
import Eligibility.Text.Quoted
import Eligibility.Text.Search
import Eligibility.Text.Whole
