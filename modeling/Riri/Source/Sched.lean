import Riri.Source.Diag

/-!
# Scheduler

Source: src/sched.rs. Vectors indexed by thread, block or warp are total functions of the
index. The mutex and the condition variables are not modeled here: an operation is the code
run under the lock up to the hand-off, and "waiting for the turn" is the machine of
src/launch.rs resuming exactly the thread that `current` names.

Every operation returns the new state and what it pushed to the reporter. The part before
the hand-off is a definition of its own because it never reads the source of choices.
-/
namespace Riri

/-- Simulated threads resident at once; `run_shared` refuses a larger wave. -/
def MAX_THREADS : Nat := 16384

/-- Upper bound on recorded scheduling decisions. -/
def MAX_TRACE : Nat := 1 <<< 20

inductive Status where
  | runnable | atBarrier | atWarp | finished
  deriving DecidableEq, Repr

/-- `PHASE_ARRIVE` and `PHASE_DEPART`. -/
inductive Phase where
  | arrive | depart
  deriving DecidableEq, Repr

/-- What a thread parked at a warp collective is waiting for. -/
structure WarpWait where
  phase : Phase
  mask : Mask
  loc : Location
  op : WarpOp
  deriving DecidableEq, Repr

structure SplitMix64 where
  state : UInt64
  deriving DecidableEq, Repr

def SplitMix64.next (rng : SplitMix64) : UInt64 × SplitMix64 :=
  let state := rng.state + 0x9E3779B97F4A7C15
  let z := state
  let z := (z ^^^ (z >>> 30)) * 0xBF58476D1CE4E5B9
  let z := (z ^^^ (z >>> 27)) * 0x94D049BB133111EB
  (z ^^^ (z >>> 31), ⟨state⟩)

/-- Where the scheduler's decisions come from. -/
inductive Choices where
  | random (rng : SplitMix64)
  | replay (plan : List UInt32) (cursor : Nat)
  deriving DecidableEq, Repr

/-- The thread chosen among `runnable`, whose first element is `first`. -/
def Choices.choose (previous : Option Nat) (runnable : List Nat) (first : Nat) :
    Choices → Nat × Choices
  | .random rng =>
      (runnable.getD (rng.next.1.toNat % runnable.length) first, .random rng.next.2)
  | .replay plan cursor =>
      let fallback := (previous.filter fun p => runnable.contains p).getD first
      let chosen := match plan[cursor]? with
        | some gid => if runnable.contains gid.toNat then gid.toNat else fallback
        | none => fallback
      (chosen, .replay plan (cursor + 1))

/-- The scheduler's fixed sizes, as `run_shared` admits them. -/
structure Geometry where
  blocks : Nat
  threadsPerBlock : Nat
  warpSize : Nat
  threads_pos : 0 < threadsPerBlock
  lanes_pos : 0 < warpSize
  lanes_le : warpSize ≤ 32
  fits : blocks * threadsPerBlock ≤ MAX_THREADS

namespace Geometry

def total (g : Geometry) : Nat := g.blocks * g.threadsPerBlock

def warpsPerBlock (g : Geometry) : Nat := (g.threadsPerBlock + g.warpSize - 1) / g.warpSize

def blockRange (g : Geometry) (block : Nat) : List Nat :=
  List.range' (block * g.threadsPerBlock) g.threadsPerBlock

/-- Splits a thread id into (block, warp within block, lane). -/
def locate (g : Geometry) (gid : Nat) : Nat × Nat × Nat :=
  let t := gid % g.threadsPerBlock
  (gid / g.threadsPerBlock, t / g.warpSize, t % g.warpSize)

def warpBase (g : Geometry) (block warp : Nat) : Nat :=
  block * g.threadsPerBlock + warp * g.warpSize

/-- The last warp of a block is short when the sizes do not divide. -/
def lanesIn (g : Geometry) (warp : Nat) : Nat :=
  min (g.threadsPerBlock - warp * g.warpSize) g.warpSize

def validMask (g : Geometry) (warp : Nat) : Mask :=
  let n := g.lanesIn warp
  if n ≥ 32 then BitVec.allOnes 32 else (1#32 <<< n) - 1#32

def warpGenIndex (g : Geometry) (block warp : Nat) : Nat := block * g.warpsPerBlock + warp

/-- Threads of this warp that `mask` names. -/
def members (g : Geometry) (block warp : Nat) (mask : Mask) : List Nat :=
  ((List.range (g.lanesIn warp)).filter fun l => mask.names l).map fun l =>
    g.warpBase block warp + l

end Geometry

namespace Scheduler

structure State where
  current : Option Nat
  status : Nat → Status
  barrierGen : Nat → Nat
  barrierLoc : Nat → Option Location
  warpWait : Nat → Option WarpWait
  warpGen : Nat → Nat
  choices : Choices
  trace : List UInt32
  traceComplete : Bool
  aborted : Bool

/-- What an operation leaves behind: the state and the diagnostics pushed, in order. -/
abbrev Outcome := State × List Diagnostic

variable (g : Geometry)

def runnable (s : State) : List Nat :=
  (List.range g.total).filter fun i => s.status i = .runnable

/-- Hands the turn to `chosen` and records the decision while there is room. -/
def commit (s : State) (chosen : Nat) (choices : Choices) : State :=
  if s.trace.length < MAX_TRACE then
    { s with
      current := some chosen
      choices := choices
      trace := s.trace ++ [UInt32.ofNat chosen] }
  else
    { s with current := some chosen, choices := choices, traceComplete := false }

def pickNext (s : State) : State :=
  match runnable g s with
  | [] => { s with current := none }
  | first :: rest =>
      let (chosen, choices) := s.choices.choose s.current (first :: rest) first
      commit s chosen choices

/-- The state `Scheduler::new` builds before its first decision. -/
def unstarted (choices : Choices) : State where
  current := none
  status := fun _ => .runnable
  barrierGen := fun _ => 0
  barrierLoc := fun _ => none
  warpWait := fun _ => none
  warpGen := fun _ => 0
  choices := choices
  trace := []
  traceComplete := true
  aborted := false

def new (choices : Choices) : State := pickNext g (unstarted choices)

/-- Lanes of this warp parked at the same collective as `wait`. -/
def arrivedMask (s : State) (block warp : Nat) (wait : WarpWait) : Mask :=
  let base := g.warpBase block warp
  ((List.range (g.lanesIn warp)).filter fun l =>
      s.status (base + l) = .atWarp ∧
        (s.warpWait (base + l)).any fun w => w.phase = wait.phase ∧ w.loc = wait.loc).foldl
    (fun acc l => acc ||| (1#32 <<< l)) 0#32

def epochs (s : State) (block warp : Nat) : Nat × Nat :=
  (s.barrierGen block, s.warpGen (g.warpGenIndex block warp))

/-- The report for one warp in which some lane is parked, if any is. -/
def stuckWarp (s : State) (block warp : Nat) : Option Diagnostic := do
  let base := g.warpBase block warp
  let first ← (List.range (g.lanesIn warp)).find? fun l => s.status (base + l) = .atWarp
  let wait ← s.warpWait (base + first)
  return .warpDivergence block warp wait.op wait.mask (arrivedMask g s block warp wait) wait.loc

def waitingAt (s : State) (block : Nat) : Nat :=
  (g.blockRange block).countP fun i => s.status i = .atBarrier

def exitedFrom (s : State) (block : Nat) : Nat :=
  (g.blockRange block).countP fun i => s.status i = .finished

/-- Constructed both by the deadlock detector and by `barrier_divergence`; the location
falls back on a line of Riri itself. -/
def barrierReport (s : State) (block : Nat) : Diagnostic :=
  .barrierDivergence block (waitingAt g s block) (exitedFrom g s block)
    ((s.barrierLoc block).getD ⟨"src/sched.rs", 371, 67⟩)

/-- Warps first: a barrier behind a stuck warp is a consequence, not the cause. -/
def stuckReports (s : State) : List Diagnostic :=
  let warps := (List.range g.blocks).flatMap fun block =>
    (List.range g.warpsPerBlock).filterMap fun warp => stuckWarp g s block warp
  if warps ≠ [] then warps
  else (List.range g.blocks).filterMap fun block =>
    if waitingAt g s block = 0 then none else some (barrierReport g s block)

def detectStuck (s : State) : Outcome := ({ s with aborted := true }, stuckReports g s)

def fail (s : State) (d : Diagnostic) : Outcome := ({ s with aborted := true }, [d])

/-- `hand_off_and_wait` up to the wait. -/
def handOff (s : State) : Outcome :=
  let s := pickNext g s
  if s.current = none then detectStuck g s else (s, [])

/-- An operation hands off unless it failed first. -/
def handOffUnlessFailed (r : Outcome) : Outcome :=
  if r.1.aborted then r
  else
    let handed := handOff g r.1
    (handed.1, r.2 ++ handed.2)

/-- A scheduling point. -/
def yieldNow (s : State) : Outcome := handOff g s

def barrierDivergence (s : State) (block : Nat) : Outcome := fail s (barrierReport g s block)

/-- Gives every listed thread one status. -/
def setAll {α : Type} (f : Nat → α) (threads : List Nat) (value : α) : Nat → α :=
  fun i => if i ∈ threads then value else f i

/-- `Scheduler::barrier` up to the hand-off. -/
def barrierEnter (me : Nat) (loc : Location) (s : State) : Outcome :=
  let block := me / g.threadsPerBlock
  let s := { s with
    status := Function.update s.status me .atBarrier
    barrierLoc := Function.update s.barrierLoc block (some ((s.barrierLoc block).getD loc)) }
  if (g.blockRange block).any fun i => s.status i = .finished then
    barrierDivergence g s block
  else if (g.blockRange block).all fun i => s.status i = .atBarrier then
    ({ s with
      status := setAll s.status (g.blockRange block) .runnable
      barrierGen := Function.update s.barrierGen block (s.barrierGen block + 1)
      barrierLoc := Function.update s.barrierLoc block none }, [])
  else (s, [])

def barrier (me : Nat) (loc : Location) (s : State) : Outcome :=
  handOffUnlessFailed g (barrierEnter g me loc s)

/-- The first parked lane that disagrees with `wait`, as the scan of the warp finds it:
same phase and place, another mask, and one of the two names the other. -/
def disagreeing (s : State) (me : Nat) (wait : WarpWait) : Option (Nat × WarpWait) :=
  let (block, warp, lane) := g.locate me
  (List.range (g.lanesIn warp)).findSome? fun l =>
    let p := g.warpBase block warp + l
    if p = me ∨ s.status p ≠ .atWarp then none
    else match s.warpWait p with
      | none => none
      | some other =>
          if other.phase ≠ wait.phase ∨ other.loc ≠ wait.loc ∨ other.mask = wait.mask then none
          else if wait.mask.names l ∨ other.mask.names lane then some (l, other)
          else none

/-- `Scheduler::warp_rendezvous` up to the hand-off. -/
def rendezvousEnter (me : Nat) (wait : WarpWait) (s : State) : Outcome :=
  let (block, warp, lane) := g.locate me
  let s := { s with
    status := Function.update s.status me .atWarp
    warpWait := Function.update s.warpWait me (some wait) }
  let members := g.members block warp wait.mask
  if members.any fun p => s.status p = .finished then
    fail s (.warpDivergence block warp wait.op wait.mask (arrivedMask g s block warp wait) wait.loc)
  else match disagreeing g s me wait with
    | some (l, other) =>
        fail s (.warpMaskMismatch block warp wait.op wait.loc lane wait.mask l other.mask)
    | none =>
        if members.all fun p => s.status p = .atWarp ∧ s.warpWait p = some wait then
          let index := g.warpGenIndex block warp
          ({ s with
            status := setAll s.status members .runnable
            warpWait := setAll s.warpWait members none
            warpGen :=
              if wait.phase = .depart ∧ wait.mask = g.validMask warp then
                Function.update s.warpGen index (s.warpGen index + 1)
              else s.warpGen }, [])
        else (s, [])

def warpRendezvous (me : Nat) (wait : WarpWait) (s : State) : Outcome :=
  handOffUnlessFailed g (rendezvousEnter g me wait s)

/-- The first warp-mate still waiting for this lane. -/
def waitingFor (s : State) (me : Nat) : Option WarpWait :=
  let (block, warp, lane) := g.locate me
  (List.range (g.lanesIn warp)).findSome? fun l =>
    let p := g.warpBase block warp + l
    if s.status p ≠ .atWarp then none
    else match s.warpWait p with
      | none => none
      | some wait => if wait.mask.names lane then some wait else none

/-- `Scheduler::finish` up to the choice of the next thread. -/
def finishEnter (me : Nat) (s : State) : Outcome :=
  let (block, warp, _) := g.locate me
  let s := { s with status := Function.update s.status me .finished }
  match waitingFor g s me with
  | some wait =>
      fail s (.warpDivergence block warp wait.op wait.mask (arrivedMask g s block warp wait)
        wait.loc)
  | none =>
      if (g.blockRange block).any fun i => s.status i = .atBarrier then
        barrierDivergence g s block
      else (s, [])

/-- The thread returned from the kernel. -/
def finish (me : Nat) (s : State) : Outcome :=
  let r := finishEnter g me s
  if r.1.aborted then r
  else
    let s := pickNext g r.1
    if s.current = none ∧ ∃ i < g.total, s.status i ≠ .finished then detectStuck g s else (s, [])

/-- Stops the launch after a trap-like error. -/
def abort (s : State) : State := { s with aborted := true }

end Scheduler

end Riri
