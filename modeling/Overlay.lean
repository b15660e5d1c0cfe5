import Overlay.Broadcast
import Overlay.Cascade
import Overlay.Edit
import Overlay.Engine
import Overlay.Engine.Describe
import Overlay.Engine.Operation
import Overlay.Entries
import Overlay.Forest
import Overlay.Metrics
import Overlay.Numeral.Binary
import Overlay.Numeral.Shortest
import Overlay.Numeral.Whole
import Overlay.Poll.Backoff
import Overlay.Poll.File
import Overlay.Poll.KeyValue
import Overlay.Poll.OnDemand
import Overlay.Poll.Poller
import Overlay.Poll.Record
import Overlay.Poll.Schedule
import Overlay.Poll.Source
import Overlay.Property
import Overlay.Settings
import Overlay.Settings.Reader
import Overlay.Shard
import Overlay.Signal
import Overlay.Template
import Overlay.Template.Expand
import Overlay.Text.Blank
import Overlay.Text.Hidden
import Overlay.Text.Pieces
import Overlay.Text.Quoted
import Overlay.Toml
import Overlay.Toml.Document
import Overlay.Toml.Lexical
import Overlay.Toml.Scalar
import Overlay.Tree
import Overlay.Tree.Dump
import Overlay.Value
import Overlay.Value.Decode
import Overlay.Value.Decoders
import Overlay.Value.Describe
import Overlay.Value.Names
import Overlay.Proofs.Forest.Paths
import Overlay.Proofs.Engine.Run
import Overlay.Proofs.Engine.Since
import Overlay.Proofs.Engine.Calm
import Overlay.Proofs.Engine.Turns
import Overlay.Proofs.Engine.Transitions
import Overlay.Proofs.Engine.Deliveries
import Overlay.Proofs.Engine.Queues
import Overlay.Proofs.Engine.Listeners
import Overlay.Proofs.Engine.Hearing
import Overlay.Proofs.Engine.Order
import Overlay.Proofs.Engine.Shifts
import Overlay.Proofs.Engine.Lazy
import Overlay.Proofs.Engine.Passes
import Overlay.Proofs.Crew.Run
import Overlay.Proofs.Engine.Books
import Overlay.Proofs.Crew.Requests
import Overlay.Proofs.Crew.Alone
import Overlay.Proofs.Engine.Attention
import Overlay.Proofs.Crew.Notifier
import Overlay.Proofs.Crew.Attention
import Overlay.Proofs.Engine.Sound
import Overlay.Proofs.Engine.Versions
import Overlay.Proofs.Engine.Coherence
import Overlay.Proofs.Engine.Readings
import Overlay.Proofs.Cascade.Names
import Overlay.Proofs.Engine.Loads
import Overlay.Proofs.Template.Cycles
import Overlay.Proofs.Template.Policies
import Overlay.Proofs.Engine.Tellings
import Overlay.Proofs.Engine.Replay
import Overlay.Proofs.Poll.Shutdown
import Overlay.Proofs.Poll.Refusal
import Overlay.Proofs.Forest.Routes
import Overlay.Proofs.Tree.Answers
import Overlay.Proofs.Forest.Answers
import Overlay.Proofs.Forest.Ascents
import Overlay.Proofs.Engine.Rises
import Overlay.Proofs.Engine.Changes
import Overlay.Proofs.Engine.Lag
import Overlay.Proofs.Engine.Mirrors
import Overlay.Proofs.Engine.Mirroring
import Overlay.Proofs.Engine.Apart
import Overlay.Proofs.Engine.Independence
import Overlay.Proofs.Engine.Locking
import Overlay.Proofs.Engine.Sweeps
import Overlay.Proofs.Template.Inquiries
import Overlay.Proofs.Template.Concatenation
import Overlay.Proofs.Template.Escapes
import Overlay.Proofs.Engine.Announcements
import Overlay.Proofs.Engine.Reports
import Overlay.Proofs.Template.Passthrough
import Overlay.Proofs.Value.Equality
import Overlay.Proofs.Engine.Repeats
import Overlay.Proofs.Poll.Ticks
import Overlay.Proofs.Forest.Structure
import Overlay.Proofs.Engine.Structure
import Overlay.Proofs.Tree.Dumps
import Overlay.Proofs.Forest.Dumps
import Overlay.Proofs.Poll.Summary
import Overlay.Proofs.Poll.Records
import Overlay.Proofs.Poll.FirstSuccess
import Overlay.Proofs.Poll.Serving
import Overlay.Proofs.Poll.Delays
import Overlay.Proofs.Text.Pieces
import Overlay.Proofs.Poll.KeyValues
import Overlay.Proofs.Value.Items
import Overlay.Proofs.Value.Collections
import Overlay.Proofs.Value.Durations
import Overlay.Proofs.Template.Balance
import Overlay.Proofs.Template.Scans
import Overlay.Proofs.Template.Bodies
import Overlay.Proofs.Signal.Receivers
import Overlay.Proofs.Signal.Delivery
import Overlay.Proofs.Engine.Deeds
import Overlay.Proofs.Engine.Tallies
import Overlay.Proofs.Engine.Courses
