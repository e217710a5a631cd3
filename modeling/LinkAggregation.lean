import LinkAggregation.Arena
import LinkAggregation.Assoc
import LinkAggregation.Binary64.Rounding
import LinkAggregation.Binary64.Shortest
import LinkAggregation.Bond
import LinkAggregation.Cable
import LinkAggregation.Choice
import LinkAggregation.CommandLine
import LinkAggregation.Config.LagSettings
import LinkAggregation.Config.MemberSettings
import LinkAggregation.Config.PortStatus
import LinkAggregation.Config.Reading
import LinkAggregation.Config.SystemIdentity
import LinkAggregation.ConfigDb
import LinkAggregation.Document.Basic
import LinkAggregation.Endpoint
import LinkAggregation.Engine.Basic
import LinkAggregation.Engine.Clock
import LinkAggregation.Engine.Configure
import LinkAggregation.Engine.Evaluate
import LinkAggregation.Engine.Pending
import LinkAggregation.Engine.Query
import LinkAggregation.Engine.Receive
import LinkAggregation.Engine.Request
import LinkAggregation.Error
import LinkAggregation.Fallback
import LinkAggregation.Flags
import LinkAggregation.Frame.Decode
import LinkAggregation.Frame.Encode
import LinkAggregation.Frame.Layout
import LinkAggregation.Identity
import LinkAggregation.Interface
import LinkAggregation.Json.Lexer
import LinkAggregation.Json.Number
import LinkAggregation.Json.Printer
import LinkAggregation.Json.Reader
import LinkAggregation.Json.Value
import LinkAggregation.Lag
import LinkAggregation.Mac
import LinkAggregation.Machine.Churn
import LinkAggregation.Machine.Mux
import LinkAggregation.Machine.Periodic
import LinkAggregation.Machine.Receive
import LinkAggregation.Machine.State
import LinkAggregation.Main
import LinkAggregation.Proofs.Arena
import LinkAggregation.Proofs.Config
import LinkAggregation.Proofs.Config.Attributes
import LinkAggregation.Proofs.Config.Names
import LinkAggregation.Proofs.Config.Validity
import LinkAggregation.Proofs.Engine.Accounts
import LinkAggregation.Proofs.Engine.Acquaintance
import LinkAggregation.Proofs.Engine.Action
import LinkAggregation.Proofs.Engine.Apart
import LinkAggregation.Proofs.Engine.Clock
import LinkAggregation.Proofs.Engine.Coherent
import LinkAggregation.Proofs.Engine.Configure
import LinkAggregation.Proofs.Engine.Course
import LinkAggregation.Proofs.Engine.Detections
import LinkAggregation.Proofs.Engine.Exact
import LinkAggregation.Proofs.Engine.Frame
import LinkAggregation.Proofs.Engine.Identified
import LinkAggregation.Proofs.Engine.Members
import LinkAggregation.Proofs.Engine.Membership
import LinkAggregation.Proofs.Engine.Memory
import LinkAggregation.Proofs.Engine.Messages
import LinkAggregation.Proofs.Engine.Move
import LinkAggregation.Proofs.Engine.Order
import LinkAggregation.Proofs.Engine.Outside
import LinkAggregation.Proofs.Engine.Pace
import LinkAggregation.Proofs.Engine.Placement
import LinkAggregation.Proofs.Engine.Progress
import LinkAggregation.Proofs.Engine.Queues
import LinkAggregation.Proofs.Engine.Receipts
import LinkAggregation.Proofs.Engine.Receive
import LinkAggregation.Proofs.Engine.Reconfigure
import LinkAggregation.Proofs.Engine.Repetition
import LinkAggregation.Proofs.Engine.Request
import LinkAggregation.Proofs.Engine.Reseat
import LinkAggregation.Proofs.Engine.Rounds
import LinkAggregation.Proofs.Engine.Seats
import LinkAggregation.Proofs.Engine.Separation
import LinkAggregation.Proofs.Engine.Setup
import LinkAggregation.Proofs.Engine.Silences
import LinkAggregation.Proofs.Engine.Speech
import LinkAggregation.Proofs.Engine.Stages
import LinkAggregation.Proofs.Engine.Sums
import LinkAggregation.Proofs.Engine.Waits
import LinkAggregation.Proofs.Evaluation.Fallback
import LinkAggregation.Proofs.Evaluation.Lag
import LinkAggregation.Proofs.Evaluation.Locality
import LinkAggregation.Proofs.Evaluation.Machines
import LinkAggregation.Proofs.Evaluation.Member
import LinkAggregation.Proofs.Frame.Codec
import LinkAggregation.Proofs.Frame.Format
import LinkAggregation.Proofs.Frame.RoundTrip
import LinkAggregation.Proofs.Protocol.Timing
import LinkAggregation.Proofs.Protocol.Truth
import LinkAggregation.Proofs.Protocol.Window
import LinkAggregation.Proofs.Queue.Calls
import LinkAggregation.Proofs.Queue.Disciplines
import LinkAggregation.Proofs.Queue.Groups
import LinkAggregation.Proofs.Queue.Merging
import LinkAggregation.Proofs.Reachable.Accounts
import LinkAggregation.Proofs.Reachable.Advertisement
import LinkAggregation.Proofs.Reachable.Arenas
import LinkAggregation.Proofs.Reachable.Backlog
import LinkAggregation.Proofs.Reachable.ClockRange
import LinkAggregation.Proofs.Reachable.Conversation
import LinkAggregation.Proofs.Reachable.Detection
import LinkAggregation.Proofs.Reachable.Exact
import LinkAggregation.Proofs.Reachable.Fallback
import LinkAggregation.Proofs.Reachable.Flags
import LinkAggregation.Proofs.Reachable.Grants
import LinkAggregation.Proofs.Reachable.Handshake
import LinkAggregation.Proofs.Reachable.Identity
import LinkAggregation.Proofs.Reachable.Isolation
import LinkAggregation.Proofs.Reachable.Pacing
import LinkAggregation.Proofs.Reachable.Patience
import LinkAggregation.Proofs.Reachable.Publication
import LinkAggregation.Proofs.Reachable.Refusals
import LinkAggregation.Proofs.Reachable.Removal
import LinkAggregation.Proofs.Reachable.Restraint
import LinkAggregation.Proofs.Reachable.Safety
import LinkAggregation.Proofs.Reachable.Silence
import LinkAggregation.Proofs.Reachable.Status
import LinkAggregation.Proofs.Reachable.Timers
import LinkAggregation.Proofs.Reachable.Transfer
import LinkAggregation.Proofs.Reachable.Waiting
import LinkAggregation.Proofs.Record
import LinkAggregation.Proofs.Selection.Ranking
import LinkAggregation.Proofs.Selection.Verdict
import LinkAggregation.Proofs.Text.Address
import LinkAggregation.Proofs.Text.ByteOrder
import LinkAggregation.Proofs.Text.Decimal
import LinkAggregation.Proofs.Text.Identifier
import LinkAggregation.Proofs.Timer.Asked
import LinkAggregation.Proofs.Timer.Deadlines
import LinkAggregation.Proofs.Timer.Expiry
import LinkAggregation.Queue.Basic
import LinkAggregation.Queue.Entry
import LinkAggregation.Record
import LinkAggregation.Report
import LinkAggregation.Selection.Decide
import LinkAggregation.Selection.Outcome
import LinkAggregation.Settings
import LinkAggregation.Startup
import LinkAggregation.Text.Blank
import LinkAggregation.Text.Numeral
import LinkAggregation.Text.Printable
import LinkAggregation.Text.Quoted
import LinkAggregation.Text.Split
import LinkAggregation.Timer.Clock
import LinkAggregation.Timer.Key
import LinkAggregation.Timer.Schedule
import LinkAggregation.Toml.Quoted
import LinkAggregation.Toml.Reader
import LinkAggregation.Toml.Scalar
import LinkAggregation.Toml.Tree
import LinkAggregation.ValueError
