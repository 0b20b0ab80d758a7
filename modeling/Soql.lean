import Soql.Compilation.Basic
import Soql.Compilation.Compile
import Soql.Compilation.Report
import Soql.Compilation.Timeline
import Soql.Context.Assembly
import Soql.Context.Basic
import Soql.Context.Cache
import Soql.Context.Prompt
import Soql.Context.Pruning
import Soql.Context.Request
import Soql.Context.Session
import Soql.Decimal.Binary
import Soql.Decimal.Fixed
import Soql.Decimal.Reading
import Soql.Decimal.Shortest
import Soql.Dialogue
import Soql.Draft
import Soql.Failure
import Soql.Grounding.Basic
import Soql.Grounding.Recognition
import Soql.Grounding.SearchTerm
import Soql.Grounding.Tiers
import Soql.Json.Basic
import Soql.Json.Parser
import Soql.Json.Printer
import Soql.Nearest
import Soql.Plan.Asking
import Soql.Plan.Basic
import Soql.Proofs.Query.Boundary
import Soql.Provider.Chat
import Soql.Provider.World
import Soql.Provider.Workers
import Soql.Query.Basic
import Soql.Query.Error
import Soql.Query.Loose
import Soql.Query.Parser
import Soql.Query.Reference
import Soql.Query.Render
import Soql.Query.Token
import Soql.Rehearsal
import Soql.Repair.Action
import Soql.Repair.Engine
import Soql.RunLog
import Soql.Schema.Basic
import Soql.Schema.Graph
import Soql.Schema.Reading
import Soql.Schema.Sample
import Soql.Schema.Search
import Soql.Scoring.Rank
import Soql.Scoring.Scalar
import Soql.Scoring.Terms
import Soql.Settings
import Soql.Table
import Soql.Text.Blank
import Soql.Text.Casing
import Soql.Text.Cut
import Soql.Text.Digit
import Soql.Text.Distance
import Soql.Text.Fence
import Soql.Text.Path
import Soql.Text.Pattern
import Soql.Text.Printable
import Soql.Text.Quoted
import Soql.Text.RecordId
import Soql.Text.Shown
import Soql.Text.Table
import Soql.Text.Word
import Soql.Usage
import Soql.Validation.Message
import Soql.Validation.PathWalk
import Soql.Validation.RawText
import Soql.Validation.Rules
import Soql.Vocabulary
import Soql.World
import Soql.Proofs.Query.Spelling
import Soql.Proofs.Query.Ends
import Soql.Proofs.Query.Reading
import Soql.Proofs.Query.Arguments
import Soql.Proofs.Query.Values
import Soql.Proofs.Query.Counts
import Soql.Proofs.Query.Legible
import Soql.Proofs.Query.Items
import Soql.Proofs.Query.Filters
import Soql.Proofs.Query.Clauses
import Soql.Proofs.Query.RoundTrip
import Soql.Proofs.Query.RetoldQuery
import Soql.Proofs.Repair.Run
import Soql.Proofs.Repair.Replay
import Soql.Proofs.Validation.Contract
import Soql.Proofs.Compilation.Asking
import Soql.Proofs.Compilation.Steps
import Soql.Proofs.Compilation.Drafting
import Soql.Proofs.Compilation.Delivery
import Soql.Proofs.Compilation.Parts
import Soql.Proofs.Compilation.Result
import Soql.Proofs.Compilation.Best
import Soql.Proofs.Context.CacheHistory
import Soql.Context.Desk
import Soql.Proofs.Context.Overtaken
import Soql.Proofs.Text.Lower
import Soql.Proofs.Validation.Resolves
import Soql.Proofs.Validation.PathErrors
import Soql.Proofs.Validation.Named
import Soql.Proofs.Query.Paths
import Soql.Proofs.Query.Plain
import Soql.Proofs.Query.Mentions
import Soql.Proofs.Query.ClauseTexts
import Soql.Proofs.Query.Neat
import Soql.Proofs.Query.Sturdy
import Soql.Proofs.Repair.Fits
import Soql.Proofs.Validation.Writable
import Soql.Proofs.Validation.Suits
import Soql.Proofs.Validation.Rereading
import Soql.Proofs.Repair.Stable
import Soql.Proofs.Validation.Limits
import Soql.Proofs.Validation.Ceiling
import Soql.Proofs.Context.Own
import Soql.Proofs.Compilation.Returns
import Soql.Proofs.Compilation.Stops
import Soql.Proofs.Context.Entries
import Soql.Proofs.Context.Foremost
import Soql.Proofs.Context.Request
import Soql.Proofs.Dialogue
import Soql.Proofs.Grounding.Candidates
import Soql.Proofs.Grounding.SearchTerm
import Soql.Proofs.Grounding.Unread
import Soql.Proofs.Projection
import Soql.Proofs.Query.Essence
import Soql.Proofs.Query.Formula
import Soql.Proofs.Query.Retelling
import Soql.Proofs.Query.RetoldParts
import Soql.Proofs.Query.Starts
import Soql.Proofs.Query.Truth
import Soql.Proofs.Repair.Checked
import Soql.Proofs.Repair.Trace
import Soql.Proofs.Schema.Search
import Soql.Proofs.Text.Pattern
import Soql.Proofs.Text.Rename
import Soql.Proofs.Text.Runs
import Soql.Proofs.Validation.Messages
import Soql.Proofs.Context.WellFormed
import Soql.Proofs.Schema.Catalog
import Soql.Proofs.Schema.Held
import Soql.Proofs.Decimal.Order
import Soql.Proofs.Grounding.Sources
import Soql.Proofs.Validation.Corrections
import Soql.Proofs.Repair.Relabel
import Soql.Proofs.Validation.Grouping
import Soql.Proofs.Validation.Spared
import Soql.Proofs.Validation.Joining
import Soql.Proofs.Repair.Renames
import Soql.Proofs.Repair.References
import Soql.Proofs.Grounding.Filters
import Soql.Proofs.Context.Recency
import Soql.Proofs.Schema.Growth
import Soql.Proofs.Context.Rounds
import Soql.Proofs.Context.Completion
import Soql.Proofs.Scoring.Ranking
import Soql.Proofs.Query.LooseNames
import Soql.Proofs.Validation.Salvaged
import Soql.Proofs.Plan.Confirmed
import Soql.Proofs.Provider.Calls
import Soql.Proofs.Provider.Fallback
import Soql.Proofs.Provider.Usage
import Soql.Proofs.Compilation.Moves
import Soql.Proofs.Compilation.Folders
import Soql.Proofs.Compilation.Runs
import Soql.Proofs.Compilation.Handed
import Soql.Proofs.Text.Fence
import Soql.Proofs.Nearest
import Soql.Proofs.Context.Pruning
import Soql.Proofs.Query.Splitting
