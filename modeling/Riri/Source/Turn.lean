import Riri.Source.Sched
import Riri.Theory.Monitor

/-!
# The turn

Source: the locking of src/sched.rs, and `run_thread` of src/launch.rs. One thread of the
operating system runs each simulated thread of a wave. It holds the lock of the scheduler's state
for the length of an operation and waits on a condition variable of its own, so each operation
is one atomic step that ends by notifying somebody, and a wait is looked at again after each
wakeup.
-/
namespace Riri.Turn

open Scheduler (State)
open Monitor (Effect)

variable (g : Geometry)

/-- What the wait loop returns: `Ok` or the signal of an abort. -/
inductive Answer where
  | turn | aborted
  deriving DecidableEq, Repr

/-- The loop of `wait_turn` and of `hand_off_and_wait`; `none` is another round. -/
def waitTurn (me : Nat) (s : State) : Option Answer :=
  if s.aborted then some .aborted else if s.current = some me then some .turn else none

/-- `Scheduler::wake`: everyone after an abort, else the thread that holds the turn. -/
def wake (s : State) : Finset (Fin g.total) :=
  if s.aborted then Finset.univ else Finset.univ.filter fun i => s.current = some i.val

/-- `fail`, whose caller returns the signal. -/
def failed (s : State) (again : Bool) : Effect State (Fin g.total) := ⟨s, wake g s, again⟩

/-- `Scheduler::hand_off_and_wait`. -/
def handOffAndWait (s : State) : Effect State (Fin g.total) :=
  let s := Scheduler.pickNext g s
  let s := if s.current = none then (Scheduler.detectStuck g s).1 else s
  ⟨s, wake g s, true⟩

def yieldNow (s : State) : Effect State (Fin g.total) := handOffAndWait g s

def barrier (me : Nat) (loc : Location) (s : State) : Effect State (Fin g.total) :=
  let r := Scheduler.barrierEnter g me loc s
  if r.1.aborted then failed g r.1 true else handOffAndWait g r.1

def warpRendezvous (me : Nat) (wait : WarpWait) (s : State) :
    Effect State (Fin g.total) :=
  let r := Scheduler.rendezvousEnter g me wait s
  if r.1.aborted then failed g r.1 true else handOffAndWait g r.1

def finish (me : Nat) (s : State) : Effect State (Fin g.total) :=
  let r := Scheduler.finishEnter g me s
  if r.1.aborted then failed g r.1 false
  else
    let s := Scheduler.pickNext g r.1
    let s := if s.current = none ∧ ∃ i < g.total, s.status i ≠ .finished then
      (Scheduler.detectStuck g s).1 else s
    ⟨s, wake g s, false⟩

/-- `Scheduler::abort`. A trap unwinds from it with the signal; a kernel panic has left. -/
def abort (s : State) (again : Bool) : Effect State (Fin g.total) :=
  let s := Scheduler.abort s
  ⟨s, wake g s, again⟩

/-- What a thread does once its wait has returned. -/
inductive Acts (i : Fin g.total) : Answer → State → Effect State (Fin g.total) → Prop where
  | yieldNow {s : State} : Acts i .turn s (yieldNow g s)
  | barrier {s : State} (loc : Location) : Acts i .turn s (barrier g i loc s)
  | warpRendezvous {s : State} (wait : WarpWait) :
      Acts i .turn s (warpRendezvous g i wait s)
  /-- `epochs`, and everything that does not call the scheduler. -/
  | epochs {s : State} : Acts i .turn s ⟨s, ∅, true⟩
  | trap {s : State} : Acts i .turn s (abort g s true)
  | panic {s : State} : Acts i .turn s (abort g s false)
  | finish {s : State} : Acts i .turn s (finish g i s)
  /-- The signal reaches `run_thread`. -/
  | unwound {s : State} : Acts i .aborted s ⟨s, ∅, false⟩
  /-- A kernel that caught the signal calls the scheduler again: nothing clears `aborted`, so the
  call wakes everyone and is refused. -/
  | caught {s s' : State} (aborted : s'.aborted = true) (again : Bool) :
      Acts i .aborted s ⟨s', wake g s', again⟩

/-- The threads of a wave, as a monitor. -/
def rules : Monitor.Rules State (Fin g.total) Answer where
  answer := fun i s => waitTurn i s
  acts := Acts g

/-- A state of the threads of a wave, from `Scheduler::new` on: the first thread is picked before
any of them exists. -/
abbrev Reachable (choices : Choices) (t : Monitor.State State (Fin g.total) Answer) : Prop :=
  Monitor.Reachable (rules g) (Scheduler.new g choices) t

end Riri.Turn
