import Assay.Artifact
import Assay.Batch
import Assay.Command
import Assay.Comparison
import Assay.Config
import Assay.Config.Reader
import Assay.Dispatch
import Assay.Duration
import Assay.Event
import Assay.ExecuteLog
import Assay.Failure
import Assay.Files.Action
import Assay.Files.Basic
import Assay.Files.Fault
import Assay.Files.Lookup
import Assay.Files.Operations
import Assay.Host.Expansion
import Assay.Host.Installation
import Assay.Host.Launch
import Assay.Host.Script
import Assay.Host.Script.Reader
import Assay.Host.Script.Token
import Assay.Host.Session
import Assay.Host.Shell
import Assay.Json
import Assay.Main
import Assay.Outcome
import Assay.Path
import Assay.Pipeline
import Assay.Pool
import Assay.Process
import Assay.Program
import Assay.Record
import Assay.Rehearsal
import Assay.Roster
import Assay.Scoring
import Assay.Table
import Assay.Task
import Assay.Text.Raw
import Assay.Text.Split
import Assay.World
import Assay.Proofs.Task.Course
import Assay.Proofs.Pipeline.Passage
import Assay.Proofs.Pipeline.StageOrder
import Assay.Proofs.Batch.Trail
import Assay.Proofs.Pipeline.Asks
import Assay.Proofs.Record.RoundTrip
import Assay.Proofs.Files.Growth
import Assay.Proofs.ExecuteLog.Content
import Assay.Proofs.Table
import Assay.Proofs.Batch.Along
import Assay.Proofs.Dispatch.Reports
import Assay.Proofs.ExecuteLog.Agreement
import Assay.Proofs.ExecuteLog.Attach
import Assay.Proofs.Batch.Evaluation
import Assay.Proofs.ExecuteLog.Forgery
import Assay.Proofs.Files.Region
import Assay.Proofs.Files.Footprint
import Assay.Proofs.Task.Shadow
import Assay.Proofs.Batch.Permits
import Assay.Proofs.Dispatch.Once
import Assay.Proofs.Dispatch.Isolation
import Assay.Proofs.Dispatch.Single
import Assay.Proofs.Path.Steps
import Assay.Proofs.Files.Linkless
import Assay.Proofs.Dispatch.Home
import Assay.Proofs.Files.Descent
import Assay.Proofs.Files.Made
import Assay.Proofs.Files.Content
import Assay.Proofs.Files.Streams
import Assay.Proofs.Pipeline.Launch
import Assay.Proofs.Pipeline.Success
import Assay.Proofs.Batch.Holders
import Assay.Proofs.Batch.Pools
import Assay.Proofs.Task.Leads
import Assay.Proofs.Batch.Doings
import Assay.Proofs.Scoring.Run
import Assay.Proofs.Scoring.Turns
import Assay.Proofs.Scoring.Sinks
import Assay.Proofs.Scoring.Streams
import Assay.Proofs.Record.Grammar
import Assay.Proofs.ExecuteLog.Torn
import Assay.Proofs.Batch.OneByOne
import Assay.Proofs.Dispatch.Abort
import Assay.Proofs.Pipeline.Blame
import Assay.Proofs.Program.Preliminaries
import Assay.Proofs.Pipeline.Judge
import Assay.Proofs.Task.Quiet
import Assay.Proofs.Batch.Replay
import Assay.Proofs.Batch.Mirror
import Assay.Proofs.Dispatch.Cleaning
import Assay.Proofs.Files.Lasting
import Assay.Proofs.ExecuteLog.Session
import Assay.Proofs.ExecuteLog.Naming
import Assay.Proofs.Scoring.Script
import Assay.Proofs.Scoring.Refusal
import Assay.Proofs.Scoring.Sources
import Assay.Proofs.Files.Tree
import Assay.Proofs.Files.Resolution
import Assay.Proofs.Artifact
import Assay.Proofs.Files.Canonical
import Assay.Proofs.Text.Order
import Assay.Proofs.Roster.Complete
import Assay.Proofs.Pipeline.Product
import Assay.Proofs.Json
import Assay.Proofs.Config.Overlay
import Assay.Proofs.Config.Sections
import Assay.Proofs.Config.Partial
import Assay.Proofs.Program.PoolSize
