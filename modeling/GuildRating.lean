import GuildRating.Formula.Session
import GuildRating.Main
import GuildRating.Proofs.Grammar.Basic
import GuildRating.Proofs.Grammar.Reading
import GuildRating.Proofs.Grammar.Complete
import GuildRating.Proofs.Grammar.Sound
import GuildRating.Proofs.Grammar.Parse
import GuildRating.Proofs.Scan.Border
import GuildRating.Proofs.Scan.Words
import GuildRating.Proofs.Text.Words
import GuildRating.Proofs.Grammar.Places
import GuildRating.Proofs.Spelling
import GuildRating.Proofs.Cache.Lookups
import GuildRating.Proofs.Cache.Transparent
import GuildRating.Proofs.Double.Quotient
import GuildRating.Proofs.Decimal.Shortest
import GuildRating.Proofs.Scan.Literal
import GuildRating.Proofs.Scan.Alone
import GuildRating.Proofs.Rendering.Lexemes
import GuildRating.Proofs.Rendering.RoundTrip
import GuildRating.Proofs.Grammar.Room
import GuildRating.Proofs.Check.Faults
import GuildRating.Proofs.Limits
import GuildRating.Proofs.Batch.Roster
import GuildRating.Proofs.Cache.Contents
import GuildRating.Proofs.Check.Sound
import GuildRating.Proofs.Batch.Isolation
import GuildRating.Proofs.Rendering.Stored
import GuildRating.Proofs.Grammar.Complaints
import GuildRating.Proofs.Refusal
import GuildRating.Proofs.Config.Checked
import GuildRating.Proofs.Evaluation.Logged
import GuildRating.Proofs.Evaluation.Finite
import GuildRating.Proofs.Cache.History
import GuildRating.Proofs.Batch.Report
import GuildRating.Proofs.Scan.Longest
import GuildRating.Proofs.Scan.Places
import GuildRating.Proofs.Scan.Split
import GuildRating.Proofs.Grammar.Phrases
import GuildRating.Proofs.Grammar.Outcome
import GuildRating.Proofs.Grammar.Viable
import GuildRating.Proofs.Preview
import GuildRating.Proofs.Json.Slots
import GuildRating.Proofs.Json.Respelled
import GuildRating.Proofs.Json.Stored
import GuildRating.Proofs.Evaluation.Unneeded
import GuildRating.Proofs.Batch.Order
import GuildRating.Proofs.Double.Closed
import GuildRating.Proofs.Evaluation.Causes
import GuildRating.Proofs.Positions
import GuildRating.Proofs.Check.Alias
import GuildRating.Proofs.Evaluation.Named
import GuildRating.Proofs.Evaluation.Strict
import GuildRating.Proofs.Rating.Exact
import GuildRating.Proofs.Rating.Mean
import GuildRating.Proofs.Rating.Average
import GuildRating.Proofs.Batch.Compiled
import GuildRating.Proofs.Double.Order
import GuildRating.Proofs.Rating.Leader
import GuildRating.Proofs.Rating.Peak
import GuildRating.Proofs.Command.Arguments
import GuildRating.Proofs.Command.Formulas
import GuildRating.Proofs.Config.Active
import GuildRating.Proofs.Command.Settings
import GuildRating.Proofs.Command.Calculation
import GuildRating.Proofs.Double.Nearest
import GuildRating.Proofs.Double.Halves
import GuildRating.Proofs.Grammar.Cursor
import GuildRating.Proofs.Grammar.Bounds
import GuildRating.Proofs.Check.Walk
import GuildRating.Proofs.Grammar.Nodes
import GuildRating.Proofs.Extent
