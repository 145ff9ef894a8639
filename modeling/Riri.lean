import Riri.Guarantees.AbortCause
import Riri.Guarantees.AtomicCounters
import Riri.Guarantees.AtomicDirection
import Riri.Guarantees.AtomicMasking
import Riri.Guarantees.BarrierLocations
import Riri.Guarantees.BarrierReports
import Riri.Guarantees.BlameOrder
import Riri.Guarantees.BlockNumbering
import Riri.Guarantees.CheckedArithmetic
import Riri.Guarantees.ClockSoundness
import Riri.Guarantees.Deduplication
import Riri.Guarantees.DeparturePhase
import Riri.Guarantees.DivergenceAgreement
import Riri.Guarantees.DivergenceReports
import Riri.Guarantees.EpochStamps
import Riri.Guarantees.ExactClocks
import Riri.Guarantees.GridExtents
import Riri.Guarantees.HardwareIndex
import Riri.Guarantees.HeldBorrows
import Riri.Guarantees.InterpreterMeaning
import Riri.Guarantees.InterpreterSafety
import Riri.Guarantees.NoFalseRaces
import Riri.Guarantees.PhaseDeterminism
import Riri.Guarantees.PhaseReports
import Riri.Guarantees.PoisonedBuffers
import Riri.Guarantees.RaceNeedsWrite
import Riri.Guarantees.ReleaseSequences
import Riri.Guarantees.RepeatedReads
import Riri.Guarantees.ReplayFidelity
import Riri.Guarantees.ScalarOperators
import Riri.Guarantees.ScheduleCoverage
import Riri.Guarantees.SchedulerProgress
import Riri.Guarantees.SearchOutcome
import Riri.Guarantees.SeedIndependence
import Riri.Guarantees.SharedBuffers
import Riri.Guarantees.ShrinkQuality
import Riri.Guarantees.ShrinkReplays
import Riri.Guarantees.ShrinkTermination
import Riri.Guarantees.ThreadedLaunch
import Riri.Guarantees.TurnHandoff
import Riri.Guarantees.UninitReads
import Riri.Guarantees.WarpExchange
import Riri.Guarantees.WarpOrders
import Riri.Guarantees.WarpVerdicts
import Riri.Guarantees.WaveCoverage
import Riri.Mir.Narrow
import Riri.Mir.Operators
import Riri.Mir.Semantics
import Riri.Mir.Values
import Riri.Run.Barriers
import Riri.Run.Cells
import Riri.Run.Clocks
import Riri.Run.Collectives
import Riri.Run.Conversations
import Riri.Run.Courses
import Riri.Run.Decisions
import Riri.Run.Departures
import Riri.Run.Driving
import Riri.Run.Epochs
import Riri.Run.Findings
import Riri.Run.Interleavings
import Riri.Run.Invariant
import Riri.Run.PhaseCourse
import Riri.Run.PhaseFindings
import Riri.Run.Phasing
import Riri.Run.Programs
import Riri.Run.Remaining
import Riri.Run.Sharing
import Riri.Run.Spinning
import Riri.Run.Standing
import Riri.Run.Steering
import Riri.Run.Steps
import Riri.Run.Timeline
import Riri.Run.Told
import Riri.Run.Waves
import Riri.Sched.Decisions
import Riri.Sched.Detector
import Riri.Sched.Effects
import Riri.Sched.Geometry
import Riri.Sched.Groups
import Riri.Sched.Replay
import Riri.Sched.Reports
import Riri.Sched.Turns
import Riri.Shadow.History
import Riri.Source.Admission
import Riri.Source.Atomics
import Riri.Source.Borrow
import Riri.Source.Diag
import Riri.Source.Explore
import Riri.Source.Interp
import Riri.Source.Kernel
import Riri.Source.Launch
import Riri.Source.Mem
import Riri.Source.Mir
import Riri.Source.Oxide
import Riri.Source.Poison
import Riri.Source.Sched
import Riri.Source.Shadow
import Riri.Source.Sharing
import Riri.Source.Sync
import Riri.Source.Threads
import Riri.Source.Turn
import Riri.Source.Warp
import Riri.Sync.Operations
import Riri.Theory.Effort
import Riri.Theory.Flowchart
import Riri.Theory.Interleavings
import Riri.Theory.Machine
import Riri.Theory.Meeting
import Riri.Theory.Monitor
import Riri.Theory.Phases
import Riri.Theory.TwosComplement
import Riri.Theory.VectorClock
import Riri.Warp.Answers
