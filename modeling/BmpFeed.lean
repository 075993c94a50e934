import BmpFeed.Backlog
import BmpFeed.Clock
import BmpFeed.CommandLine
import BmpFeed.Correction
import BmpFeed.Decimal.Binary64
import BmpFeed.Decimal.Shortest
import BmpFeed.Describe
import BmpFeed.Dispatch
import BmpFeed.Dispatch.Bench
import BmpFeed.Feed.Bus
import BmpFeed.Feed.Call
import BmpFeed.Feed.Fault
import BmpFeed.Feed.Kind
import BmpFeed.Feed.Pattern
import BmpFeed.Feed.Payload
import BmpFeed.Feed.Subscription
import BmpFeed.FirstSeen
import BmpFeed.Fleet.Basic
import BmpFeed.Fleet.Crew
import BmpFeed.Fleet.Load
import BmpFeed.Fleet.Policy
import BmpFeed.Fleet.Upkeep
import BmpFeed.Intake
import BmpFeed.Json.Number
import BmpFeed.Json.Printer
import BmpFeed.Json.Reader
import BmpFeed.Json.Value
import BmpFeed.Log.Filter
import BmpFeed.Log.Line
import BmpFeed.Log.Note
import BmpFeed.Main
import BmpFeed.Proofs.Backlog
import BmpFeed.Proofs.Clock
import BmpFeed.Proofs.Correction
import BmpFeed.Proofs.Dispatch.Complete
import BmpFeed.Proofs.Dispatch.Custody
import BmpFeed.Proofs.Dispatch.Deeds
import BmpFeed.Proofs.Dispatch.Fifo
import BmpFeed.Proofs.Dispatch.Passage
import BmpFeed.Proofs.Dispatch.Relay
import BmpFeed.Proofs.Dispatch.Run
import BmpFeed.Proofs.Feed.Attempts
import BmpFeed.Proofs.Feed.Combining
import BmpFeed.Proofs.Feed.Completion
import BmpFeed.Proofs.Feed.Delivery
import BmpFeed.Proofs.Feed.Payload
import BmpFeed.Proofs.Feed.Staging
import BmpFeed.Proofs.FirstSeen
import BmpFeed.Proofs.Fleet.Balance
import BmpFeed.Proofs.Fleet.Choice
import BmpFeed.Proofs.Fleet.Chores
import BmpFeed.Proofs.Fleet.Closing
import BmpFeed.Proofs.Fleet.Crews
import BmpFeed.Proofs.Fleet.Deliveries
import BmpFeed.Proofs.Fleet.Executions
import BmpFeed.Proofs.Fleet.Growth
import BmpFeed.Proofs.Fleet.Keys
import BmpFeed.Proofs.Fleet.Log
import BmpFeed.Proofs.Fleet.Posts
import BmpFeed.Proofs.Fleet.Pulses
import BmpFeed.Proofs.Fleet.Rebalance
import BmpFeed.Proofs.Fleet.Roster
import BmpFeed.Proofs.Fleet.Route
import BmpFeed.Proofs.Fleet.Routing
import BmpFeed.Proofs.Fleet.Run
import BmpFeed.Proofs.Fleet.Shrinking
import BmpFeed.Proofs.Fleet.Staff
import BmpFeed.Proofs.Fleet.Staffing
import BmpFeed.Proofs.Fleet.Sticky
import BmpFeed.Proofs.Fleet.Tally
import BmpFeed.Proofs.Intake.Calls
import BmpFeed.Proofs.Intake.Complete
import BmpFeed.Proofs.Intake.Course
import BmpFeed.Proofs.Intake.Deeds
import BmpFeed.Proofs.Intake.First
import BmpFeed.Proofs.Intake.FlowControl
import BmpFeed.Proofs.Intake.Gauge
import BmpFeed.Proofs.Intake.Inline
import BmpFeed.Proofs.Intake.Journal
import BmpFeed.Proofs.Intake.Latest
import BmpFeed.Proofs.Intake.Layout
import BmpFeed.Proofs.Intake.Leaving
import BmpFeed.Proofs.Intake.Next
import BmpFeed.Proofs.Intake.Reconnect
import BmpFeed.Proofs.Intake.Removal
import BmpFeed.Proofs.Intake.Run
import BmpFeed.Proofs.Intake.Sources
import BmpFeed.Proofs.Intake.Stance
import BmpFeed.Proofs.Intake.Step
import BmpFeed.Proofs.Intake.Tape
import BmpFeed.Proofs.Intake.Trace
import BmpFeed.Proofs.Intake.Watch
import BmpFeed.Proofs.Json.Number
import BmpFeed.Proofs.Json.Ordered
import BmpFeed.Proofs.Regex.Alternation
import BmpFeed.Proofs.Regex.Classes
import BmpFeed.Proofs.Regex.Groups
import BmpFeed.Proofs.Regex.Local
import BmpFeed.Proofs.Regex.Skip
import BmpFeed.Proofs.Routers
import BmpFeed.Proofs.Routers.History
import BmpFeed.Proofs.Site.Run
import BmpFeed.Proofs.Site.Supervision
import BmpFeed.Proofs.Sql.Identity
import BmpFeed.Proofs.Sql.Readback
import BmpFeed.Proofs.Sql.Reader
import BmpFeed.Proofs.Sql.Token
import BmpFeed.Proofs.Store.Retry
import BmpFeed.Proofs.Store.Sharing
import BmpFeed.Proofs.Writer.Batcher
import BmpFeed.Proofs.Writer.Compression
import BmpFeed.Proofs.Writer.Custody
import BmpFeed.Proofs.Writer.Diary
import BmpFeed.Proofs.Writer.Flushes
import BmpFeed.Proofs.Writer.Handover
import BmpFeed.Proofs.Writer.Idle
import BmpFeed.Proofs.Writer.Latest
import BmpFeed.Proofs.Writer.Leaving
import BmpFeed.Proofs.Writer.Ledger
import BmpFeed.Proofs.Writer.Origin
import BmpFeed.Proofs.Writer.Plan
import BmpFeed.Proofs.Writer.Run
import BmpFeed.Proofs.Writer.Step
import BmpFeed.Proofs.Writer.Windows
import BmpFeed.Regex.Basic
import BmpFeed.Regex.CharSet
import BmpFeed.Regex.Parser
import BmpFeed.Regex.Property
import BmpFeed.Regex.Size
import BmpFeed.Routers
import BmpFeed.Settings.Basic
import BmpFeed.Settings.Check
import BmpFeed.Settings.Decode
import BmpFeed.Settings.Error
import BmpFeed.Settings.Host
import BmpFeed.Settings.Number
import BmpFeed.Site
import BmpFeed.Sql.Literal
import BmpFeed.Sql.Mapping
import BmpFeed.Sql.Request
import BmpFeed.Stats
import BmpFeed.Store.Basic
import BmpFeed.Store.Bench
import BmpFeed.Store.Fault
import BmpFeed.Store.Query
import BmpFeed.Store.Session
import BmpFeed.Text.Blank
import BmpFeed.Text.Case
import BmpFeed.Text.Category
import BmpFeed.Text.Cut
import BmpFeed.Text.Folding
import BmpFeed.Text.Quoted
import BmpFeed.Toml.Document
import BmpFeed.Toml.Lexeme
import BmpFeed.Toml.Tree
import BmpFeed.Toml.Value
import BmpFeed.Writer.Basic
import BmpFeed.Writer.Batch
import BmpFeed.Writer.Bench
import BmpFeed.Writer.Policy
