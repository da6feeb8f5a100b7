import Resumable.Batch.Basic
import Resumable.Batch.Screen
import Resumable.Command.Actions
import Resumable.Command.Flag
import Resumable.Command.Host
import Resumable.Command.Shell
import Resumable.Command.Tree
import Resumable.Decimal.Binary
import Resumable.Decimal.Number
import Resumable.Decimal.Shortest
import Resumable.Diagnostic.Bag
import Resumable.Diagnostic.Basic
import Resumable.Diagnostic.Code
import Resumable.Expr.Basic
import Resumable.Expr.Build
import Resumable.Expr.Dump
import Resumable.Expr.Facts
import Resumable.Expr.Op
import Resumable.Expr.Safe
import Resumable.Form.Basic
import Resumable.Form.Batches
import Resumable.Form.Cells
import Resumable.Form.Drive
import Resumable.Form.Inspect
import Resumable.Form.Lowering
import Resumable.Form.Machines
import Resumable.Form.Read
import Resumable.Form.Reports
import Resumable.Form.Samples
import Resumable.Form.Screens
import Resumable.Form.Tracing
import Resumable.Form.Write
import Resumable.Lower.Backend
import Resumable.Lower.Basic
import Resumable.Lower.Check
import Resumable.Lower.Emit
import Resumable.Lower.Jumps
import Resumable.Lower.Machine
import Resumable.Lower.Optimize
import Resumable.Lower.Rescope
import Resumable.Lower.Splitter
import Resumable.Lower.Visit
import Resumable.Main
import Resumable.Native
import Resumable.Proofs.Agree
import Resumable.Proofs.Assembling
import Resumable.Proofs.Build
import Resumable.Proofs.Calling
import Resumable.Proofs.Cells
import Resumable.Proofs.Collecting
import Resumable.Proofs.Completing
import Resumable.Proofs.Congruence
import Resumable.Proofs.Converting
import Resumable.Proofs.Covering
import Resumable.Proofs.Dispatch
import Resumable.Proofs.Draining
import Resumable.Proofs.Drives
import Resumable.Proofs.Emit
import Resumable.Proofs.Emitting
import Resumable.Proofs.Enclosing
import Resumable.Proofs.Ending
import Resumable.Proofs.Ensures
import Resumable.Proofs.Enumerating
import Resumable.Proofs.Exact
import Resumable.Proofs.Feeding
import Resumable.Proofs.Filtering
import Resumable.Proofs.Foreign
import Resumable.Proofs.Guarding
import Resumable.Proofs.Hidden
import Resumable.Proofs.Homing
import Resumable.Proofs.Host
import Resumable.Proofs.Hosting
import Resumable.Proofs.Iterating
import Resumable.Proofs.Jumpless
import Resumable.Proofs.Jumps
import Resumable.Proofs.KnownStates
import Resumable.Proofs.Latest
import Resumable.Proofs.Lowering
import Resumable.Proofs.Machine
import Resumable.Proofs.Marking
import Resumable.Proofs.Minding
import Resumable.Proofs.Moving
import Resumable.Proofs.Naming
import Resumable.Proofs.Natives
import Resumable.Proofs.Nesting
import Resumable.Proofs.Opening
import Resumable.Proofs.Optimizing
import Resumable.Proofs.Ordering
import Resumable.Proofs.Orderly
import Resumable.Proofs.Outside
import Resumable.Proofs.Passes
import Resumable.Proofs.Placing
import Resumable.Proofs.Playing
import Resumable.Proofs.Reach
import Resumable.Proofs.Refilling
import Resumable.Proofs.Rebuilding
import Resumable.Proofs.Recasting
import Resumable.Proofs.Regions
import Resumable.Proofs.Renaming
import Resumable.Proofs.Replacing
import Resumable.Proofs.Reports
import Resumable.Proofs.Rescope
import Resumable.Proofs.Rewriting
import Resumable.Proofs.Rounds
import Resumable.Proofs.Routing
import Resumable.Proofs.Running
import Resumable.Proofs.Scoping
import Resumable.Proofs.Search
import Resumable.Proofs.Slots
import Resumable.Proofs.Sources
import Resumable.Proofs.Splitter
import Resumable.Proofs.Splitting
import Resumable.Proofs.Standing
import Resumable.Proofs.Statements
import Resumable.Proofs.Stays
import Resumable.Proofs.Steps
import Resumable.Proofs.Stores
import Resumable.Proofs.Supplies
import Resumable.Proofs.Tree
import Resumable.Proofs.Trimming
import Resumable.Proofs.Turns
import Resumable.Proofs.Visit
import Resumable.Proofs.Walks
import Resumable.Proofs.Watch
import Resumable.Report.Cache
import Resumable.Report.Codec
import Resumable.Report.Digest
import Resumable.Report.Layout
import Resumable.Report.Pack
import Resumable.Report.Paint
import Resumable.Report.Record
import Resumable.Report.Table
import Resumable.Report.Timing
import Resumable.Run.Alike
import Resumable.Run.Calls
import Resumable.Run.Cell
import Resumable.Run.Convert
import Resumable.Run.Describe
import Resumable.Run.Eval
import Resumable.Run.Loop
import Resumable.Run.Method
import Resumable.Run.Native
import Resumable.Run.Operator
import Resumable.Run.Sequence
import Resumable.Run.Settle
import Resumable.Run.Show
import Resumable.Run.World
import Resumable.Sample.Async
import Resumable.Sample.Basic
import Resumable.Sample.Catalog
import Resumable.Sample.Iterator
import Resumable.Sample.Outcome
import Resumable.Session
import Resumable.Settings
import Resumable.Stack
import Resumable.Text.Blank
import Resumable.Text.Bytes
import Resumable.Text.Fold
import Resumable.Text.Json
import Resumable.Text.Layout
import Resumable.Text.Normal
import Resumable.Text.Printable
import Resumable.Text.Quoted
import Resumable.Text.Width
import Resumable.Toml.Basic
import Resumable.Toml.Read
import Resumable.Trace.Event
import Resumable.Trace.Lowering
import Resumable.Trace.Tracer
import Resumable.Ty.Basic
import Resumable.Ty.Capability
import Resumable.Ty.Kind
import Resumable.Ty.Method
import Resumable.Ty.Relation
import Resumable.Ty.Set
import Resumable.Ty.Text
import Resumable.Value
import Resumable.Version
import Resumable.Word
import Resumable.Proofs.Filing
import Resumable.Proofs.Arithmetic
import Resumable.Proofs.Broadest
import Resumable.Proofs.Crossing
import Resumable.Proofs.Operands
import Resumable.Proofs.Exploring
import Resumable.Proofs.Retaining
import Resumable.Proofs.Steering
import Resumable.Proofs.SteeringAssembly
import Resumable.Proofs.SteeringMachines
import Resumable.Proofs.SteeringRuns
import Resumable.Proofs.SteeringTrees
import Resumable.Proofs.Unreached
