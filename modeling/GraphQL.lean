import GraphQL.Coercion.Basic
import GraphQL.Coercion.Error
import GraphQL.CommandLine.Arguments
import GraphQL.CommandLine.Run
import GraphQL.Configuration.Basic
import GraphQL.Configuration.Read
import GraphQL.Configuration.Yaml
import GraphQL.Demo.Basic
import GraphQL.Demo.Greetings
import GraphQL.Demo.NoteStore
import GraphQL.Demo.Notes
import GraphQL.Document.Basic
import GraphQL.Document.Parser
import GraphQL.Document.Token
import GraphQL.Duration.Basic
import GraphQL.Duration.Human
import GraphQL.Engine
import GraphQL.Execution.Collect
import GraphQL.Execution.Complete
import GraphQL.Execution.Error
import GraphQL.Execution.Plan
import GraphQL.Execution.Progress
import GraphQL.Execution.Run
import GraphQL.Json.Basic
import GraphQL.Json.Parser
import GraphQL.Json.Printer
import GraphQL.Literal
import GraphQL.Main
import GraphQL.Numeral.Decimal
import GraphQL.Numeral.Double
import GraphQL.Numeral.Shortest
import GraphQL.Operation.Basic
import GraphQL.Operation.Error
import GraphQL.Operation.Executable
import GraphQL.Path
import GraphQL.Proofs.Inputs.Readers
import GraphQL.Proofs.Inputs.Conformance
import GraphQL.Proofs.Jobs.Answers
import GraphQL.Proofs.Jobs.Entries
import GraphQL.Proofs.Jobs.Interference
import GraphQL.Proofs.Jobs.Mutations
import GraphQL.Proofs.Jobs.Outcomes
import GraphQL.Proofs.Jobs.Schedules
import GraphQL.Proofs.Jobs.Shift
import GraphQL.Proofs.Positions.Basic
import GraphQL.Proofs.Positions.CallPaths
import GraphQL.Proofs.Positions.Cancellation
import GraphQL.Proofs.Positions.Conformance
import GraphQL.Proofs.Positions.Containment
import GraphQL.Proofs.Positions.Divergence
import GraphQL.Proofs.Positions.ErrorAccounting
import GraphQL.Proofs.Positions.Executed
import GraphQL.Proofs.Positions.Marking
import GraphQL.Proofs.Positions.NullPropagation
import GraphQL.Proofs.Positions.Replacement
import GraphQL.Proofs.Selections.Collected
import GraphQL.Registry.Basic
import GraphQL.Registry.Resolver
import GraphQL.Request
import GraphQL.Response
import GraphQL.Schema.Basic
import GraphQL.Schema.Build
import GraphQL.Schema.Error
import GraphQL.Text.Blank
import GraphQL.Text.Classes
import GraphQL.Text.Escape
import GraphQL.Text.Quoted
import GraphQL.TypeRef
import GraphQL.Proofs.Checks
import GraphQL.Proofs.Documents.Spreads
import GraphQL.Proofs.Documents.Requests
import GraphQL.Proofs.Schemas.Acceptance
import GraphQL.Proofs.Documents.Expansion
import GraphQL.Proofs.Visits.Basic
import GraphQL.Proofs.Visits.Faults
import GraphQL.Proofs.Visits.Runs
import GraphQL.Proofs.Documents.TypeNames
import GraphQL.Proofs.Schemas.Closed
import GraphQL.Proofs.Visits.Termination
import GraphQL.Proofs.Inputs.References
import GraphQL.Proofs.Visits.Lookups
import GraphQL.Proofs.Documents.Inlining
import GraphQL.Proofs.Visits.Mirrored
import GraphQL.Proofs.Visits.Calls
import GraphQL.Proofs.Visits.Aborts
import GraphQL.Proofs.Inputs.Substitution
import GraphQL.Proofs.Inputs.Uses
import GraphQL.Proofs.Inputs.Required
import GraphQL.Proofs.Inputs.Omissions
import GraphQL.Proofs.Jobs.Effects
import GraphQL.Proofs.Notes.Store
import GraphQL.Proofs.Notes.Service
import GraphQL.Proofs.Notes.Requests
import GraphQL.Proofs.Inputs.Parts
import GraphQL.Proofs.Inputs.Constants
import GraphQL.Proofs.Inputs.Places
import GraphQL.Proofs.Inputs.Sources
import GraphQL.Proofs.Inputs.Scalars
import GraphQL.Proofs.Inputs.Nesting
import GraphQL.Proofs.Inputs.Limits
import GraphQL.Proofs.Inputs.Defaults
import GraphQL.Proofs.Inputs.Unfolding
import GraphQL.Proofs.Inputs.Agreement
import GraphQL.Proofs.Inputs.Numerals
import GraphQL.Proofs.Inputs.Forms
import GraphQL.Proofs.Inputs.Moves
import GraphQL.Proofs.Inputs.Acceptable
import GraphQL.Proofs.Inputs.Culprits
import GraphQL.Proofs.Inputs.Members
import GraphQL.Proofs.Documents.Merging
import GraphQL.Proofs.Jobs.Groupings
import GraphQL.Proofs.Positions.CallOrder
import GraphQL.Proofs.Jobs.Instant
import GraphQL.Proofs.Jobs.Endings
import GraphQL.Proofs.Jobs.Elapsed
import GraphQL.Proofs.Registries.Validation
import GraphQL.Proofs.Schemas.Agreeing
import GraphQL.Proofs.Schemas.Reordering
import GraphQL.Proofs.Registries.History
import GraphQL.Proofs.Inputs.Verbatim
import GraphQL.Proofs.Envelopes
import GraphQL.Proofs.Inputs.Doubles
import GraphQL.Proofs.Positions.Rereading
import GraphQL.Proofs.Jobs.Mapped
import GraphQL.Proofs.Positions.Renamed
import GraphQL.Proofs.Jobs.Renamed
import GraphQL.Proofs.Documents.Aliases
