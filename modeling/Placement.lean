import Placement.Binary64
import Placement.Channel
import Placement.Client
import Placement.Cluster
import Placement.CommandLine
import Placement.CommandLine.Help
import Placement.CommandLine.Run
import Placement.Config
import Placement.Config.File
import Placement.Coordinator
import Placement.Decimal.Numeral
import Placement.Decimal.Shortest
import Placement.Deletion
import Placement.Dict
import Placement.Drill.Node
import Placement.Drill.Plan
import Placement.Drill.Registry
import Placement.FanOut
import Placement.Fault
import Placement.Frame
import Placement.Insertion
import Placement.Json
import Placement.Json.Document
import Placement.Json.Fields
import Placement.Json.Numeral
import Placement.Json.Token
import Placement.KeyHash
import Placement.Main
import Placement.Pool
import Placement.Proofs.Footprint
import Placement.Proofs.Program
import Placement.Proofs.Session
import Placement.Proofs.Views
import Placement.Record
import Placement.Registry
import Placement.Registry.Client
import Placement.Registry.Ledger
import Placement.Registry.Message
import Placement.Retrieval
import Placement.Scan
import Placement.Selection
import Placement.Settings
import Placement.Settings.Yaml
import Placement.Settings.Yaml.Block
import Placement.Settings.Yaml.Cursor
import Placement.Settings.Yaml.Document
import Placement.Settings.Yaml.Quoted
import Placement.Settings.Yaml.Scalar
import Placement.Settings.Yaml.Space
import Placement.Settings.Yaml.Tag
import Placement.Settings.Yaml.Token
import Placement.Store
import Placement.Store.Memory
import Placement.Store.Redis
import Placement.Store.Redis.Command
import Placement.Store.Redis.Keyspace
import Placement.Store.Redis.Nowhere
import Placement.Store.Redis.Reply
import Placement.Store.Redis.Server
import Placement.Stream
import Placement.Text.Blank
import Placement.Text.Lower
import Placement.Text.Utf8
import Placement.Update
import Placement.Word
import Placement.Proofs.Custody
import Placement.Proofs.Rollback
import Placement.Proofs.Healthy
import Placement.Proofs.Outcome
import Placement.Proofs.RoundTrip
import Placement.Proofs.FlatMap
import Placement.Proofs.Delivery
import Placement.Proofs.Framing
import Placement.Proofs.Turns
import Placement.Proofs.Capacity
import Placement.Proofs.Quoted
import Placement.Proofs.Confirmation
import Placement.Proofs.Isolation
import Placement.Proofs.Lexemes
import Placement.Proofs.Trees
import Placement.Proofs.Envelopes
import Placement.Proofs.Numbers
import Placement.Proofs.Scores
import Placement.Proofs.Indexing
import Placement.Proofs.Clearance
import Placement.Proofs.Separation
import Placement.Proofs.Refusal
import Placement.Proofs.Replies
import Placement.Proofs.Keyspaces
import Placement.Proofs.OwnKey
import Placement.Proofs.Release
import Placement.Proofs.Mirror
import Placement.Proofs.Balance
import Placement.Proofs.Watches
import Placement.Proofs.Provision
import Placement.Proofs.Validity
import Placement.Proofs.Calls
import Placement.Proofs.FirstOwner
import Placement.Proofs.Course
import Placement.Proofs.Sightings
import Placement.Proofs.Disclosure
import Placement.Proofs.Visits
import Placement.Proofs.Windows
import Placement.Proofs.Gathering
import Placement.Proofs.Overwriting
import Placement.Proofs.Reassembly
import Placement.Proofs.Spillage
import Placement.Proofs.Polling
import Placement.Proofs.Ranges
import Placement.Proofs.Holdings
import Placement.Proofs.NormalForms
import Placement.Proofs.Arguments
import Placement.Proofs.Spelling
import Placement.Proofs.Layout
import Placement.Proofs.Nesting
import Placement.Proofs.Presentation
import Placement.Proofs.Messages
