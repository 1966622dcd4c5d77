import P4Switch.Lib.Circular
import P4Switch.Lib.Fill
import P4Switch.Lib.GuardedRun
import P4Switch.Lib.MachineInt
import P4Switch.QosBuffer
import P4Switch.Ixgbe.Queue
import P4Switch.Ixgbe.Vtx
import P4Switch.Ixgbe.Burst
import P4Switch.Ixgbe.BurstSpec
import P4Switch.Ixgbe.Ring
import P4Switch.Ixgbe.Posting
import P4Switch.Ixgbe.Window
import P4Switch.Ixgbe.Original
import P4Switch.Ixgbe.Refines
import P4Switch.Ixgbe.Accounting
import P4Switch.Ixgbe.Passes
import P4Switch.Ixgbe.Handshake
import P4Switch.Ixgbe.Frees
import P4Switch.Ixgbe.Alignment
import P4Switch.Ixgbe.Ownership
import P4Switch.Lib.Decimal
import P4Switch.Counter.System
import P4Switch.Counter.NoLostUpdate
import P4Switch.Counter.FreeSpace
import P4Switch.Lib.Memory
import P4Switch.L3.Engine
import P4Switch.L3.Program
import P4Switch.L3.Tracks
import P4Switch.L3.Steps
import P4Switch.L3.Effects
import P4Switch.L3.Meaning
import P4Switch.L3.Forwarding
import P4Switch.L3.Isolation
import P4Switch.L3.Classifier
import P4Switch.Lib.SwapRemove
import P4Switch.Lib.Lines
import P4Switch.Lib.Quota
import P4Switch.App.Thread
import P4Switch.App.Paths
import P4Switch.App.Assignment
import P4Switch.App.Handover
import P4Switch.App.Cli
import P4Switch.App.Conn
import P4Switch.App.Framing
import P4Switch.App.FrontEnds
import P4Switch.App.Overlong
import P4Switch.Ixgbe.Admission
import P4Switch.Counter.Turns
import P4Switch.Ixgbe.InverseLinear
import P4Switch.Ixgbe.Segments
import P4Switch.Ixgbe.Reads
import P4Switch.Ixgbe.Handles
import P4Switch.Ixgbe.Release
import P4Switch.Lib.Numerals
import P4Switch.Cmd.Number
import P4Switch.Lib.NamedList
import P4Switch.Cmd.Objects
import P4Switch.Cmd.Names
import P4Switch.Cmd.Loader
import P4Switch.Cmd.Loading
import P4Switch.Cmd.Members
import P4Switch.Lib.EarlyExit
import P4Switch.Cmd.Session
import P4Switch.Cmd.Rules
import P4Switch.Cmd.ObjectCommands
import P4Switch.Cmd.PipelineCommands
import P4Switch.Cmd.Dispatch
import P4Switch.Cmd.Process
import P4Switch.Cmd.Tame
import P4Switch.Cmd.TokenReads
import P4Switch.Cmd.Rollback
import P4Switch.Cmd.Streams
import P4Switch.Lib.LinkedChain
import P4Switch.Lib.Words
import P4Switch.Lib.SlotArray
import P4Switch.Tables.ExactMatch
import P4Switch.Lib.Partition
import P4Switch.Lib.BucketChains
import P4Switch.Lib.BucketMap
import P4Switch.Lib.BucketRestore
import P4Switch.Tables.Stored
import P4Switch.Tables.Creation
import P4Switch.Tables.Invariant
import P4Switch.Tables.Layout
import P4Switch.Tables.Simulation
import P4Switch.Tables.Valid
import P4Switch.Tables.KeyMap
import P4Switch.Tables.Visits
import P4Switch.Control.Transactions
import P4Switch.Control.Lists
import P4Switch.Lib.Pointwise
import P4Switch.Control.Passes
import P4Switch.Control.OneTable
import P4Switch.Control.Slots
import P4Switch.Control.Refinement
import P4Switch.Control.Runs
import P4Switch.Control.DataPlane
import P4Switch.Control.Publication
import P4Switch.L3.HostTable
import P4Switch.L3.Switch
import P4Switch.L3.SwitchRuns
import P4Switch.L3.Committed
