import AccessTrace.Bytes
import AccessTrace.Code.Cache
import AccessTrace.Code.Cpu
import AccessTrace.Code.Encoding
import AccessTrace.Code.Listing
import AccessTrace.Command.Arguments
import AccessTrace.Command.Run
import AccessTrace.FastPath.Access
import AccessTrace.FastPath.Injector
import AccessTrace.FastPath.OverflowTest
import AccessTrace.Host.Basic
import AccessTrace.Host.FlushRoutine
import AccessTrace.Host.Program
import AccessTrace.Host.Run
import AccessTrace.Host.Workload
import AccessTrace.Log.Error
import AccessTrace.Log.FileStore
import AccessTrace.Log.Format
import AccessTrace.Log.Outputs
import AccessTrace.Log.Quota
import AccessTrace.Log.Reader
import AccessTrace.Log.Sink
import AccessTrace.Machine.Arithmetic
import AccessTrace.Machine.Error
import AccessTrace.Machine.Execute
import AccessTrace.Machine.Guest
import AccessTrace.Machine.Injected
import AccessTrace.Machine.Injected.Text
import AccessTrace.Machine.Instruction
import AccessTrace.Machine.Names
import AccessTrace.Machine.Operand
import AccessTrace.Machine.Register
import AccessTrace.Machine.Thread
import AccessTrace.Main
import AccessTrace.Memory.AddressSpace
import AccessTrace.Memory.Cells
import AccessTrace.Memory.CodeImage
import AccessTrace.Proofs.Code.Addresses
import AccessTrace.Proofs.Code.Cache
import AccessTrace.Proofs.Code.Encoding
import AccessTrace.Proofs.Code.Handles
import AccessTrace.Proofs.Code.Injected
import AccessTrace.Proofs.Code.Listing
import AccessTrace.Proofs.Code.ListingLog
import AccessTrace.Proofs.Code.Run
import AccessTrace.Proofs.Code.StepLimit
import AccessTrace.Proofs.FastPath.Blocks
import AccessTrace.Proofs.FastPath.Emission
import AccessTrace.Proofs.FastPath.Execution
import AccessTrace.Proofs.FastPath.Labels
import AccessTrace.Proofs.FastPath.Passage
import AccessTrace.Proofs.FastPath.SinglePath
import AccessTrace.Proofs.Host.Preparation
import AccessTrace.Proofs.Host.Schedule
import AccessTrace.Proofs.Host.Serving
import AccessTrace.Proofs.Host.SharedCode
import AccessTrace.Proofs.Host.SharedImages
import AccessTrace.Proofs.Host.StraightLine
import AccessTrace.Proofs.Host.Untraced
import AccessTrace.Proofs.Host.Workloads
import AccessTrace.Proofs.LittleEndian
import AccessTrace.Proofs.Log.Binary
import AccessTrace.Proofs.Log.Grammar
import AccessTrace.Proofs.Log.Interleaving
import AccessTrace.Proofs.Log.RoundTrip
import AccessTrace.Proofs.Log.Writers
import AccessTrace.Proofs.Machine.Arithmetic
import AccessTrace.Proofs.Machine.Confinement
import AccessTrace.Proofs.Machine.Faults
import AccessTrace.Proofs.Machine.Footprint
import AccessTrace.Proofs.Machine.Frames
import AccessTrace.Proofs.Machine.PlannedAccesses
import AccessTrace.Proofs.Machine.StackAccesses
import AccessTrace.Proofs.Machine.Steps
import AccessTrace.Proofs.Machine.Transparency
import AccessTrace.Proofs.Memory.Accounting
import AccessTrace.Proofs.Memory.ByteMap
import AccessTrace.Proofs.Memory.Bytes
import AccessTrace.Proofs.Memory.Cells
import AccessTrace.Proofs.Memory.Embedding
import AccessTrace.Proofs.Memory.InPlace
import AccessTrace.Proofs.Memory.Operations
import AccessTrace.Proofs.Memory.Permissions
import AccessTrace.Proofs.Memory.Reachable
import AccessTrace.Proofs.Memory.Regions
import AccessTrace.Proofs.Memory.Restoration
import AccessTrace.Proofs.Memory.Runs
import AccessTrace.Proofs.Record.Access
import AccessTrace.Proofs.Record.Buffer
import AccessTrace.Proofs.Record.Cursor
import AccessTrace.Proofs.Record.Fifo
import AccessTrace.Proofs.Record.Layout
import AccessTrace.Proofs.Record.Placement
import AccessTrace.Proofs.Record.Queue
import AccessTrace.Proofs.Record.Rollback
import AccessTrace.Proofs.Record.Slot
import AccessTrace.Proofs.Record.Trace
import AccessTrace.Proofs.Scratch.Actions
import AccessTrace.Proofs.Scratch.Emission
import AccessTrace.Proofs.Scratch.History
import AccessTrace.Proofs.Scratch.Requests
import AccessTrace.Proofs.Scratch.Reservations
import AccessTrace.Proofs.Scratch.Restoration
import AccessTrace.Proofs.Session.Accounts
import AccessTrace.Proofs.Session.Batches
import AccessTrace.Proofs.Session.BlockShape
import AccessTrace.Proofs.Session.Collection
import AccessTrace.Proofs.Session.Completeness
import AccessTrace.Proofs.Session.FailedStart
import AccessTrace.Proofs.Session.Failure
import AccessTrace.Proofs.Session.History
import AccessTrace.Proofs.Session.Lifecycle
import AccessTrace.Proofs.Session.Setup
import AccessTrace.Proofs.Session.Summary
import AccessTrace.Proofs.Session.Threads
import AccessTrace.Proofs.Session.TracedRun
import AccessTrace.Proofs.Session.Translation
import AccessTrace.Proofs.Session.Transparency
import AccessTrace.Proofs.Text.Digits
import AccessTrace.Proofs.Text.Numerals
import AccessTrace.Record.Buffer
import AccessTrace.Record.Layout
import AccessTrace.Scratch.Reservations
import AccessTrace.Scratch.Scope
import AccessTrace.Session.Error
import AccessTrace.Session.Summary
import AccessTrace.Session.Totals
import AccessTrace.Session.TraceState
import AccessTrace.Session.Tracer
import AccessTrace.Text.Blank
import AccessTrace.Text.Digits
