import Riri.Sched.Replay
import Riri.Run.Decisions
import Riri.Run.Programs
import Riri.Run.Waves

/-!
# Replaying a recording reproduces the run

The launch that reads its decisions from a complete recording of another goes through the
states of that other launch in lock step: same labels, same accesses with the same values,
same diagnostics. Only the source of decisions differs, and its cursor always stands at the
number of decisions recorded.
-/
namespace Riri

open Scheduler (Extends Follows)

variable {V : Type}

/-- The same launch with its decisions read from `plan`. -/
def Env.replaying (env : Env V) (plan : List UInt32) : Env V :=
  { env with choicesOf := fun _ => .replay plan 0 }

namespace Launch

def retraced (plan : List UInt32) (s : Launch V) : Launch V :=
  { s with sched := s.sched.retraced plan }

variable [BEq V] {env : Env V} {plan : List UInt32}

/-! ### One step -/

/-- A step only adds to the recording. -/
theorem Resumed.extends {s s' : Launch V} {slot : Nat} {l : Label V}
    (resumed : Resumed env s slot l s') : Extends s.sched s'.sched := by
  cases resumed with
  | finish => exact Scheduler.finish_extends ..
  | arrive => exact Scheduler.barrier_extends ..
  | yieldAccess | yieldCollective => exact Scheduler.handOff_extends ..
  | publish | exchange => exact Scheduler.warpRendezvous_extends ..
  | panic | overflow | outOfBounds | refuse | mistyped => exact ⟨List.prefix_rfl, id⟩
  | fence | access | miss | depart | leave => exact .refl _

/-- The thread that holds the turn does the same. -/
theorem resume_retraced {s : Launch V} {slot : Nat}
    (follows : Follows plan (s.resume env slot).2.sched) :
    (s.retraced plan).resume (env.replaying plan) slot =
      ((s.resume env slot).1, (s.resume env slot).2.retraced plan) := by
  let recording := Scheduler.Alike.ofRecording (s.geometry env) plan
  have alike : StepsAlike recording (s.resume env slot)
      ((s.retraced plan).resume (env.replaying plan) slot) :=
    resume_choosing recording rfl ⟨follows.trace, follows.complete⟩
  obtain ⟨c, same, rfl⟩ := alike
  exact same

/-! ### A single wave -/

/-- Recordings grow along the run. -/
theorem extends_single (single : env.config.blocks ≤ env.config.residentBlocks) {n k : Nat}
    (le : n ≤ k) : Extends ((run env).state n).sched ((run env).state k).sched := by
  induction le with
  | refl => exact .refl _
  | @step k _ ih =>
    refine ih.trans ?_
    rcases (run env).step_cases k with ⟨l, -, moved⟩ | ⟨-, stays⟩
    · obtain ⟨slot, -, resumed⟩ := next_single single (firstBlock_single single k) moved
      exact resumed.extends
    · rw [stays]
      exact .refl _

/-- One step in lock step. -/
theorem step_retraced (single : env.config.blocks ≤ env.config.residentBlocks) {s : Launch V}
    (first : s.firstBlock = 0)
    (follows : ∀ l s', s.step env = some (l, s') → Follows plan s'.sched) :
    (s.retraced plan).step (env.replaying plan) =
      (s.step env).map fun next => (next.1, next.2.retraced plan) := by
  have aborted : (s.retraced plan).sched.aborted = s.sched.aborted := rfl
  have current : (s.retraced plan).sched.current = s.sched.current := rfl
  have ended : ¬ s.firstBlock + env.config.waveBlocks s.firstBlock < env.config.blocks := by
    rw [first, waveBlocks_single single]
    omega
  have over' : ¬ (s.retraced plan).firstBlock +
      (env.replaying plan).config.waveBlocks (s.retraced plan).firstBlock <
        (env.replaying plan).config.blocks := ended
  unfold step at follows ⊢
  rw [aborted, current]
  by_cases stopped : s.sched.aborted = true
  · simp only [if_pos stopped, Option.map_none]
  · simp only [if_neg stopped] at follows ⊢
    cases taken : s.sched.current with
    | none => simp only [if_neg ended, if_neg over', Option.map_none]
    | some slot =>
      rw [taken] at follows
      simp only [resume_retraced (follows _ _ rfl), Option.map_some]

section

variable (single : env.config.blocks ≤ env.config.residentBlocks) {N n : Nat}
  (halted : (run env).Halted N) (follows : Follows plan ((run env).state N).sched) (le : n ≤ N)
include single halted follows le

theorem next_retraced : (((run env).state n).retraced plan).step (env.replaying plan) =
    (((run env).state n).step env).map fun next => (next.1, next.2.retraced plan) := by
  refine step_retraced single (firstBlock_single single n) fun l s' moved => ?_
  have next : (run env).state (n + 1) = s' := (run env).state_succ_of_next moved
  -- A halted launch has no next step, so this one comes before the end.
  have lt : n < N := by
    refine lt_of_le_of_ne le fun same => ?_
    subst same
    rw [show ((run env).state n).step env = none from halted] at moved
    cases moved
  rw [← next]
  exact follows.of_extends (extends_single single lt)

/-- The two runs are in the same state at every time. -/
theorem state_retraced :
    (run (env.replaying plan)).state n = ((run env).state n).retraced plan := by
  induction n with
  | zero =>
    have begun : Follows plan (Scheduler.pickNext ((init env).geometry env)
        (Scheduler.unstarted (env.choicesOf 0))) :=
      follows.of_extends (extends_single single (Nat.zero_le N))
    have first := Scheduler.pickNext_retraced _ begun
    exact congrArg (fun sched => { init env with sched := sched }) first
  | succ n ih =>
    have before := ih (Nat.le_of_succ_le le)
    have next := next_retraced single halted follows (Nat.le_of_succ_le le)
    rw [← before] at next
    rcases (run env).step_cases n with ⟨l, -, moved⟩ | ⟨idle, stays⟩
    · rw [show ((run env).state n).step env = some (l, (run env).state (n + 1)) from moved] at next
      exact (run (env.replaying plan)).state_succ_of_next next
    · have stopped : ((run env).state n).step env = none := (run env).label_eq_none_iff.mp idle
      rw [stopped] at next
      rw [(run (env.replaying plan)).state_succ_of_halted next, before, stays]

theorem label_retraced : (run (env.replaying plan)).label n = (run env).label n := by
  have next := next_retraced single halted follows le
  rw [← state_retraced single halted follows le] at next
  change (((run (env.replaying plan)).state n).step (env.replaying plan)).map Prod.fst =
    (((run env).state n).step env).map Prod.fst
  rw [next, Option.map_map]
  rfl

end

/-- Replaying a recording reproduces the run. If a launch of one wave ended with a complete
trace, the launch that reads its decisions from that trace takes the same steps through the
same states, its own recording included, and ends with the same findings. -/
theorem replay_reproduces (env : Env V) (single : env.config.blocks ≤ env.config.residentBlocks)
    {N : Nat} (halted : (run env).Halted N)
    (complete : ((run env).state N).sched.traceComplete = true) :
    let trace := ((run env).state N).sched.trace
    let again := run (env.replaying trace)
    (∀ n ≤ N, again.label n = (run env).label n ∧
      again.state n = ((run env).state n).retraced trace) ∧
    again.Halted N ∧
    (again.state N).sched.trace = trace ∧ (again.state N).sched.traceComplete = true ∧
    (again.state N).sched.aborted = ((run env).state N).sched.aborted ∧
    (again.state N).raised = ((run env).state N).raised ∧
    Reporter.take (again.state N).raised = Reporter.take ((run env).state N).raised := by
  intro trace again
  have follows : Follows trace ((run env).state N).sched := ⟨List.prefix_rfl, complete⟩
  have states : ∀ n ≤ N, again.state n = ((run env).state n).retraced trace := fun n le =>
    state_retraced single halted follows le
  have labels : ∀ n ≤ N, again.label n = (run env).label n := fun n le =>
    label_retraced single halted follows le
  refine ⟨fun n le => ⟨labels n le, states n le⟩, ?_, ?_⟩
  · exact again.label_eq_none_iff.mp ((labels N le_rfl).trans ((run env).label_eq_none_iff.mpr halted))
  · rw [states N le_rfl]
    exact ⟨rfl, complete, rfl, rfl, rfl⟩

/-- Two threads write one element under a plan whose first entry names no thread and which
ends before the run does. -/
def stale : Env Nat :=
  trial .twoThreads
    (fun thread => [.mem ⟨.global 0, 0, ⟨"kernel.rs", thread + 1, 1⟩, .write thread⟩]) [9, 1]

theorem replay_reproduces_stale :
    ((run stale).state 6).sched.trace = [0, 1, 1, 0] ∧
      (run (stale.replaying [0, 1, 1, 0])).Halted 6 ∧
      ((run (stale.replaying [0, 1, 1, 0])).state 6).raised = ((run stale).state 6).raised := by
  have trace : ((run stale).state 6).sched.trace = [0, 1, 1, 0] := by
    set_option maxRecDepth 100000 in decide +kernel
  have halted : (run stale).Halted 6 := by
    rw [Machine.Halted, ← Option.isNone_iff_eq_none]
    set_option maxRecDepth 100000 in decide +kernel
  have replayed := replay_reproduces stale (by decide) halted
    (by set_option maxRecDepth 100000 in decide +kernel)
  simp only [trace] at replayed
  exact ⟨trace, replayed.2.1, replayed.2.2.2.2.2.1⟩

end Launch

end Riri
