import Courier.CommandLine.Arguments
import Courier.CommandLine.Report
import Courier.CommandLine.Run
import Courier.Config.Basic
import Courier.Config.File
import Courier.Main
import Courier.Node.Calls
import Courier.Node.Lifecycle
import Courier.Node.System
import Courier.Path
import Courier.Simulation.World
import Courier.Store.Schema
import Courier.Store.Snapshot
import Courier.Toml.Document
import Courier.Toml.Quoted
import Courier.Wire.Link
import Courier.Wire.Message
import Courier.Wire.Row
import Courier.Proofs.Link.Destinations
import Courier.Proofs.Link.Table
import Courier.Proofs.Link.Resolve
import Courier.Proofs.Link.Rows
import Courier.Proofs.Trust.Actions
import Courier.Proofs.Trust.Ledger
import Courier.Proofs.Trust.Sends
import Courier.Proofs.Trust.Calls
import Courier.Proofs.Trust.Runs
import Courier.Proofs.Trust.InFlight
import Courier.Proofs.Trust.Established
import Courier.Proofs.Trust.Overflow
import Courier.Proofs.Trust.WayOut
import Courier.Proofs.Node.Keeps
import Courier.Proofs.Node.Events
import Courier.Proofs.Link.Unlink
import Courier.Proofs.Link.Changes
import Courier.Proofs.Polling.Table
import Courier.Proofs.Polling.Loops
import Courier.Proofs.Polling.Batches
import Courier.Proofs.Link.Agreement
import Courier.Proofs.Json.Literals
import Courier.Proofs.Json.Reading
import Courier.Proofs.Wire.Envelope
import Courier.Proofs.Polling.Queue
import Courier.Proofs.Routing.Launches
import Courier.Proofs.Routing.Aggregate
import Courier.Proofs.Routing.Sends
import Courier.Proofs.Store.Threads
import Courier.Proofs.Link.Authorization
import Courier.Proofs.Time.Timestamps
import Courier.Proofs.Polling.Acceptance
import Courier.Proofs.Store.Edits
import Courier.Proofs.Routing.Deliveries
import Courier.Proofs.Numeric.Rounding
import Courier.Proofs.Polling.Interval
import Courier.Proofs.Polling.Activity
import Courier.Proofs.Polling.Cadence
import Courier.Proofs.Polling.Isolation
import Courier.Proofs.Link.FailedResolve
import Courier.Proofs.Link.Severance
import Courier.Proofs.Store.Conversations
import Courier.Proofs.Store.Jobs
import Courier.Proofs.Store.Snapshot
import Courier.Proofs.Store.Uses
import Courier.Proofs.Wire.Link
import Courier.Proofs.Text.Order
import Courier.Proofs.Link.LinkedSets
import Courier.Proofs.Trust.Expiry
import Courier.Proofs.Link.Refreshes
import Courier.Proofs.Trust.Sweep
import Courier.Proofs.Toml.Quoting
import Courier.Proofs.Toml.Lines
import Courier.Proofs.Toml.Sections
import Courier.Proofs.Toml.Integers
import Courier.Proofs.Config.Sections
import Courier.Proofs.Config.Defaults
import Courier.Proofs.Config.RoundTrip
import Courier.Proofs.Link.Layout
import Courier.Proofs.Link.Queries
import Courier.Proofs.Wire.Message
import Courier.Proofs.Wire.Row
import Courier.Proofs.Wire.Texts
