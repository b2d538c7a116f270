import R3000.Bench.Action
import R3000.Bench.Device
import R3000.Bench.Script
import R3000.Block.Stub
import R3000.Cpu.Dump
import R3000.Cpu.Layout
import R3000.Machine.Dispatch
import R3000.Machine.Report
import R3000.Proofs.Cache.Map
import R3000.Proofs.Chains.Partition
import R3000.Proofs.Events.Dispatch
import R3000.Proofs.Links.Graph
import R3000.Proofs.Machine.Chaining
import R3000.Proofs.Machine.Delivery
import R3000.Proofs.Machine.Freshness
import R3000.Proofs.Machine.Precise
import R3000.Proofs.Machine.VideoTiming
import R3000.Proofs.Recovery
import R3000.Text.Hex
import R3000.Proofs.Machine.Slices
import R3000.Proofs.Machine.Advance
import R3000.Proofs.Machine.Progress
import R3000.Proofs.Machine.Barriers
import R3000.Proofs.Machine.HookPoints
import R3000.Proofs.Machine.Spins
import R3000.Proofs.Machine.Geometry
import R3000.Proofs.Machine.VideoEvents
import R3000.Proofs.Machine.Restart
import R3000.Proofs.Machine.Images
import R3000.Proofs.Machine.Outside
import R3000.Proofs.Holding
import R3000.Proofs.Tracing
import R3000.Proofs.Links.Removal
import R3000.Proofs.Answers
import R3000.Proofs.Chains.Ledger
import R3000.Proofs.Machine.Accounts
import R3000.Proofs.Integers.Meaning
import R3000.Proofs.Unaligned
import R3000.Proofs.Waiting.Frame
import R3000.Proofs.Waiting.Return
import R3000.Proofs.Links.Fates
import R3000.Proofs.Machine.Retagging
import R3000.Proofs.Machine.Frames
import R3000.Proofs.Memory.Accesses
import R3000.Proofs.Loading
import R3000.Proofs.Extent
import R3000.Proofs.Lanes
import R3000.Proofs.Shape
import R3000.Proofs.Events.Soonest
import R3000.Proofs.Turnover
import R3000.Proofs.Machine.Counters
import R3000.Proofs.Chains.Errors
import R3000.Proofs.Machine.Settled
