import Riri.Source.Launch
import Riri.Source.Turn
import Riri.Theory.Effort

/-!
# The threads of a launch

Source: the scope of `run_shared` and `run_thread` of src/launch.rs, over the locking of
src/sched.rs. A wave is a scope that spawns one thread of the operating system for each of its
slots and ends once all of them have returned. A thread waits for its turn, runs kernel code until
the scheduler stops it or lets it wait again, and returns from the scheduler's `finish`, from a
panic, or from the signal of an abort. The scheduler's state is the only thing threads wait on; the
rest of the launch is touched by whoever runs.
-/
namespace Riri

/-- Whether a step calls an operation of the scheduler that ends by waking somebody. An access
that faults does if it traps. -/
def Label.signals {V : Type} : Label V → Bool
  | .finish _ | .panic _ | .trap _ | .yield _ | .arrive .. | .publish .. | .exchange .. => true
  | .fence .. | .access .. | .fault .. | .depart .. | .leave .. | .nextWave => false

/-- Whether the thread waits once more after a step. A panic unwinds to `run_thread`, which
aborts and returns; a trap raises the signal, which is an answer like any other. -/
def Label.stays {V : Type} : Label V → Bool
  | .finish _ | .panic _ => false
  | .fault _ _ _ outOfBounds => outOfBounds
  | .fence .. | .access .. | .depart .. | .leave .. | .trap _ | .yield _ | .arrive ..
  | .publish .. | .exchange .. | .nextWave => true

namespace Launch

open Monitor (Effect)
open Turn (Answer)

/-- The most threads a wave has. -/
def waveThreads {V : Type} (env : Env V) : Nat :=
  env.config.residentBlocks * env.config.threadsPerBlock

variable {V : Type} [BEq V] (env : Env V)

/-- Those `Scheduler::wake` notifies after a step that left `s`. -/
def notified (l : Label V) (s : Launch V) : Finset Nat :=
  if l.signals || s.sched.aborted then
    (Turn.wake (s.geometry env) s.sched).map Fin.valEmbedding
  else ∅

/-- What a thread does once its wait has returned: a step of the launch, or `run_thread` returns
from the signal. -/
inductive Acts (i : Nat) : Answer → Launch V → Effect (Launch V) Nat → Prop
  | turn {s : Launch V} :
      Acts i .turn s ⟨(s.resume env i).2, notified env (s.resume env i).1 (s.resume env i).2,
        (s.resume env i).1.stays⟩
  | unwound {s : Launch V} : Acts i .aborted s ⟨s, ∅, false⟩

/-- The threads of a wave, as a monitor. Slots outside the wave have no thread. -/
def rules : Monitor.Rules (Launch V) Nat Answer where
  answer := fun i s => if i < (s.geometry env).total then Turn.waitTurn i s.sched else none
  acts := Acts env

/-- The launch and where each thread of its wave is. -/
abbrev Threads (V : Type) := Monitor.State (Launch V) Nat Answer

/-- The scope of a wave: a thread for each slot, each about to wait for its first turn. -/
def spawn (s : Launch V) : Threads V where
  shared := s
  phase := fun i => if i < (s.geometry env).total then .looking else .gone

/-- A step of a thread, or of the loop of `run_shared` once the scope has joined its threads. -/
inductive Works : Threads V → Threads V → Prop
  | thread {t t' : Threads V} (work : Monitor.Work (rules env) t t') : Works t t'
  | join {t : Threads V} (gone : ∀ i, t.phase i = .gone) (live : t.shared.sched.aborted = false)
      (more : t.shared.firstBlock + env.config.waveBlocks t.shared.firstBlock < env.config.blocks) :
      Works t (spawn env (t.shared.nextWave env))

/-- What the threads of a launch can reach with this many steps and this many wakeups that
nobody asked for. -/
inductive Interleaves : Nat → Nat → Threads V → Prop
  | start : Interleaves 0 0 (spawn env (init env))
  | work {m k : Nat} {t t' : Threads V} (before : Interleaves m k t) (works : Works env t t') :
      Interleaves (m + 1) k t'
  | wake {m k : Nat} {t t' : Threads V} (before : Interleaves m k t) (wakes : Monitor.Wake t t') :
      Interleaves m (k + 1) t'

end Launch

end Riri
