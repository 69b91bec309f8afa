import JobOperator.Api.Message
import JobOperator.Api.Routes
import JobOperator.Api.Submission
import JobOperator.Container.Launcher
import JobOperator.Container.Podman
import JobOperator.Container.Quantity
import JobOperator.Container.State
import JobOperator.Controller.Loop
import JobOperator.Controller.Queue
import JobOperator.Decimal.Double
import JobOperator.Decimal.Literal
import JobOperator.Job.Basic
import JobOperator.Job.Codec
import JobOperator.Json.Basic
import JobOperator.Json.Lexer
import JobOperator.Json.Printer
import JobOperator.Json.Reader
import JobOperator.Json.Record
import JobOperator.Lifecycle.Limits
import JobOperator.Lifecycle.Pacing
import JobOperator.Lifecycle.Reconcile
import JobOperator.Lifecycle.Retention
import JobOperator.Lifecycle.Step
import JobOperator.Main
import JobOperator.Proofs.Api.Submission
import JobOperator.Proofs.Cluster.Abandoned
import JobOperator.Proofs.Cluster.Basic
import JobOperator.Proofs.Cluster.Clients
import JobOperator.Proofs.Cluster.History
import JobOperator.Proofs.Cluster.Provenance
import JobOperator.Proofs.Cluster.Records
import JobOperator.Proofs.Cluster.Removal
import JobOperator.Proofs.Cluster.Retries
import JobOperator.Proofs.Cluster.Rollback
import JobOperator.Proofs.Cluster.SoleWorker
import JobOperator.Proofs.Cluster.Step
import JobOperator.Proofs.Cluster.Wakeups
import JobOperator.Proofs.Container.CommandLine
import JobOperator.Proofs.Container.Host
import JobOperator.Proofs.Container.Quantity
import JobOperator.Proofs.Controller.Ledger
import JobOperator.Proofs.Controller.Loop
import JobOperator.Proofs.Controller.Queue
import JobOperator.Proofs.Controller.Safety
import JobOperator.Proofs.Decimal.Literal
import JobOperator.Proofs.Decimal.Rounding
import JobOperator.Proofs.Decimal.Shortest
import JobOperator.Proofs.Json.Codec
import JobOperator.Proofs.Json.Fields
import JobOperator.Proofs.Json.Record
import JobOperator.Proofs.Json.Survival
import JobOperator.Proofs.Json.Text
import JobOperator.Proofs.Launcher.Adoption
import JobOperator.Proofs.Launcher.Confinement
import JobOperator.Proofs.Launcher.Discipline
import JobOperator.Proofs.Launcher.Finished
import JobOperator.Proofs.Launcher.Settling
import JobOperator.Proofs.Launcher.Site
import JobOperator.Proofs.Launcher.Undisturbed
import JobOperator.Proofs.Lifecycle.Discipline
import JobOperator.Proofs.Lifecycle.Order
import JobOperator.Proofs.Lifecycle.Status
import JobOperator.Proofs.Lifecycle.Upkeep
import JobOperator.Proofs.Lifecycle.WriteAhead
import JobOperator.Proofs.Relational.Agreement
import JobOperator.Proofs.Relational.Commands
import JobOperator.Proofs.Relational.Database
import JobOperator.Proofs.Relational.Decoding
import JobOperator.Proofs.Relational.Document
import JobOperator.Proofs.Relational.Mirror
import JobOperator.Proofs.Relational.Reading
import JobOperator.Proofs.Relational.Row
import JobOperator.Proofs.Relational.Server
import JobOperator.Proofs.Relational.Sql
import JobOperator.Proofs.Store.Change
import JobOperator.Proofs.Store.Consistent
import JobOperator.Proofs.Store.Listing
import JobOperator.Proofs.Store.Served
import JobOperator.Proofs.Store.Twin
import JobOperator.Proofs.Table
import JobOperator.Proofs.Text.ByteOrder
import JobOperator.Proofs.Text.Decoding
import JobOperator.Proofs.Text.Digits
import JobOperator.Proofs.Time.Calendar
import JobOperator.Proofs.Time.Place
import JobOperator.Proofs.Time.Timestamp
import JobOperator.Proofs.Transcript
import JobOperator.Proofs.Visit.Account
import JobOperator.Proofs.Visit.Alike
import JobOperator.Proofs.Visit.Basic
import JobOperator.Proofs.Visit.Collection
import JobOperator.Proofs.Visit.Confluence
import JobOperator.Proofs.Visit.Convergence
import JobOperator.Proofs.Visit.Deadline
import JobOperator.Proofs.Visit.Independence
import JobOperator.Proofs.Visit.Outcome
import JobOperator.Proofs.Visit.Part
import JobOperator.Proofs.Visit.Tidy
import JobOperator.Proofs.Worker.Name
import JobOperator.Proofs.Worker.Sweep
import JobOperator.Rehearsal.Database
import JobOperator.Rehearsal.Fault
import JobOperator.Rehearsal.Host
import JobOperator.Rehearsal.Session
import JobOperator.Rehearsal.Timeline
import JobOperator.Rehearsal.World
import JobOperator.Relational.Row
import JobOperator.Relational.Stamp
import JobOperator.Relational.Statement
import JobOperator.Relational.Store
import JobOperator.Script
import JobOperator.Settings
import JobOperator.Startup
import JobOperator.Store.Call
import JobOperator.Store.Error
import JobOperator.Store.Memory
import JobOperator.Store.Operation
import JobOperator.Table
import JobOperator.Text.Blank
import JobOperator.Text.Digits
import JobOperator.Text.MediaType
import JobOperator.Text.Percent
import JobOperator.Text.Pieces
import JobOperator.Text.Start
import JobOperator.Text.Utf8
import JobOperator.Time.Calendar
import JobOperator.Time.Instant
import JobOperator.Time.Moment
import JobOperator.Time.Timestamp
import JobOperator.Uid
import JobOperator.Worker.Basic
import JobOperator.Worker.Codec
import JobOperator.Worker.Launch
