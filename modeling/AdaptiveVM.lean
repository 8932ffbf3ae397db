import AdaptiveVM.Assembler
import AdaptiveVM.Binding
import AdaptiveVM.Builtins
import AdaptiveVM.Code
import AdaptiveVM.CommandLine.Arguments
import AdaptiveVM.CommandLine.Session
import AdaptiveVM.Config
import AdaptiveVM.Config.File
import AdaptiveVM.Decimal.Positional
import AdaptiveVM.Decimal.Shortest
import AdaptiveVM.Error
import AdaptiveVM.Heap
import AdaptiveVM.Json
import AdaptiveVM.Listing
import AdaptiveVM.Machine.Adaptive
import AdaptiveVM.Machine.Basic
import AdaptiveVM.Machine.Call
import AdaptiveVM.Machine.Generic
import AdaptiveVM.Machine.Step
import AdaptiveVM.Main
import AdaptiveVM.Namespace
import AdaptiveVM.Opcode
import AdaptiveVM.Operation
import AdaptiveVM.Policy
import AdaptiveVM.Quickened.Layout
import AdaptiveVM.Quickened.Member
import AdaptiveVM.Quickened.Site
import AdaptiveVM.Quickened.Word
import AdaptiveVM.Random.ChaCha
import AdaptiveVM.Random.Operand
import AdaptiveVM.Report
import AdaptiveVM.Shape
import AdaptiveVM.Specialize
import AdaptiveVM.Stats
import AdaptiveVM.Text.Column
import AdaptiveVM.Text.Duration
import AdaptiveVM.Text.Glyphless
import AdaptiveVM.Text.Quoted
import AdaptiveVM.Token
import AdaptiveVM.Value
import AdaptiveVM.Workload
import AdaptiveVM.World
import AdaptiveVM.Proofs.Layout
import AdaptiveVM.Proofs.Ranges
import AdaptiveVM.Proofs.Site
import AdaptiveVM.Proofs.Erasure
import AdaptiveVM.Proofs.Versions
import AdaptiveVM.Proofs.Heap
import AdaptiveVM.Proofs.Execution
import AdaptiveVM.Proofs.Guards
import AdaptiveVM.Proofs.Soundness
import AdaptiveVM.Proofs.Process
import AdaptiveVM.Proofs.Reachable
import AdaptiveVM.Proofs.Equivalence
import AdaptiveVM.Proofs.Ledger
import AdaptiveVM.Proofs.Assembly
import AdaptiveVM.Proofs.Bindings
import AdaptiveVM.Proofs.Counters
import AdaptiveVM.Proofs.Safety
import AdaptiveVM.Proofs.Lockstep
import AdaptiveVM.Proofs.Equivariance
import AdaptiveVM.Proofs.Untouched
import AdaptiveVM.Proofs.Instances
import AdaptiveVM.Proofs.Lines
import AdaptiveVM.Proofs.Walks
import AdaptiveVM.Proofs.Loops
import AdaptiveVM.Proofs.Building
import AdaptiveVM.Proofs.Refusals
import AdaptiveVM.Proofs.Isolation
import AdaptiveVM.Proofs.Deoptimization
import AdaptiveVM.Proofs.FirstRun
import AdaptiveVM.Proofs.CallLog
import AdaptiveVM.Proofs.LoopWorkloads
import AdaptiveVM.Proofs.OperandStream
import AdaptiveVM.Proofs.SteadyCalls
import AdaptiveVM.Proofs.Recursion
import AdaptiveVM.Proofs.Budget
import AdaptiveVM.Proofs.Transcript
import AdaptiveVM.Proofs.Sightings
import AdaptiveVM.Proofs.WarmUps
import AdaptiveVM.Proofs.Accounts
import AdaptiveVM.Proofs.Looks
import AdaptiveVM.Proofs.StableSites
import AdaptiveVM.Proofs.Parameters
import AdaptiveVM.Proofs.Oscillation
import AdaptiveVM.Proofs.CallChains
import AdaptiveVM.Proofs.StaleWords
import AdaptiveVM.Proofs.Fields
import AdaptiveVM.Proofs.Capacity
import AdaptiveVM.Proofs.Depth
import AdaptiveVM.Proofs.Confinement
import AdaptiveVM.Proofs.Termination
