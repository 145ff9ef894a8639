import Riri.Guarantees.SchedulerProgress
import Riri.Source.Turn

/-!
# Nobody sleeps with the turn

Each operation ends by waking exactly those its last state lets run, on every path through it, so
the threads of a wave are a disciplined monitor: no wakeup is lost, and waking more threads would
lead to no other state.
-/
namespace Riri.Turn

open Scheduler (State)
open Monitor (Effect)

variable {g : Geometry}

theorem waitTurn_eq_none {me : Nat} {s : State} :
    waitTurn me s = none ↔ s.aborted = false ∧ s.current ≠ some me := by
  unfold waitTurn
  cases s.aborted <;> by_cases mine : s.current = some me <;> simp [mine]

theorem waitTurn_eq_turn {me : Nat} {s : State} :
    waitTurn me s = some .turn ↔ s.aborted = false ∧ s.current = some me := by
  unfold waitTurn
  cases s.aborted <;> by_cases mine : s.current = some me <;> simp [mine]

theorem waitTurn_eq_aborted {me : Nat} {s : State} :
    waitTurn me s = some .aborted ↔ s.aborted = true := by
  unfold waitTurn
  cases s.aborted <;> by_cases mine : s.current = some me <;> simp [mine]

/-- `wake` reaches whoever the state lets go. -/
theorem mem_wake {i : Fin g.total} {s : State} : i ∈ wake g s ↔ waitTurn i s ≠ none := by
  rw [ne_eq, waitTurn_eq_none]
  unfold wake
  cases s.aborted <;> simp

/-! ### The operations -/

theorem handOffAndWait_eq (s : State) :
    handOffAndWait g s = ⟨(Scheduler.handOff g s).1, wake g (Scheduler.handOff g s).1, true⟩ := by
  unfold handOffAndWait Scheduler.handOff
  dsimp only
  by_cases nobody : (Scheduler.pickNext g s).current = none
  · simp only [nobody, if_true]
  · simp only [nobody, if_false]

theorem handOffUnlessFailed_eq (r : Scheduler.Outcome) :
    (if r.1.aborted then failed g r.1 true else handOffAndWait g r.1) =
      ⟨(Scheduler.handOffUnlessFailed g r).1, wake g (Scheduler.handOffUnlessFailed g r).1, true⟩ := by
  unfold Scheduler.handOffUnlessFailed
  cases aborted : r.1.aborted with
  | true => simp [failed]
  | false => simpa using handOffAndWait_eq r.1

theorem barrier_eq (me : Nat) (loc : Location) (s : State) :
    barrier g me loc s =
      ⟨(Scheduler.barrier g me loc s).1, wake g (Scheduler.barrier g me loc s).1, true⟩ :=
  handOffUnlessFailed_eq _

theorem warpRendezvous_eq (me : Nat) (wait : WarpWait) (s : State) :
    warpRendezvous g me wait s = ⟨(Scheduler.warpRendezvous g me wait s).1,
      wake g (Scheduler.warpRendezvous g me wait s).1, true⟩ :=
  handOffUnlessFailed_eq _

theorem finish_eq (me : Nat) (s : State) :
    finish g me s =
      ⟨(Scheduler.finish g me s).1, wake g (Scheduler.finish g me s).1, false⟩ := by
  unfold finish Scheduler.finish
  dsimp only
  split
  · rfl
  · split <;> rfl

/-- Every path of every operation wakes those its last state lets go, unless it changed
nothing. -/
theorem Acts.wakes {i : Fin g.total} {w : Answer} {s : State} {e : Effect State (Fin g.total)}
    (acts : Acts g i w s e) : e.notified = wake g e.shared ∨ e.shared = s := by
  cases acts with
  | yieldNow => exact .inl (by rw [Turn.yieldNow, handOffAndWait_eq])
  | barrier loc => exact .inl (by rw [barrier_eq])
  | warpRendezvous wait => exact .inl (by rw [warpRendezvous_eq])
  | finish => exact .inl (by rw [finish_eq])
  | trap | panic | caught => exact .inl rfl
  | epochs | unwound => exact .inr rfl

/-- Nothing takes an abort back. -/
theorem Acts.stays_aborted {i : Fin g.total} {s : State} {e : Effect State (Fin g.total)}
    (acts : Acts g i .aborted s e) (aborted : s.aborted = true) : e.shared.aborted = true := by
  cases acts with
  | unwound => exact aborted
  | caught aborted' => exact aborted'

theorem rules_disciplined : (rules g).Disciplined where
  signals := by
    intro i j w s e acts unanswered answered
    rcases Acts.wakes acts with woken | same
    · rw [woken]
      exact mem_wake.mpr answered
    · rw [same] at answered
      exact absurd unanswered answered
  keeps := by
    intro i j w v s e acts mine other theirs
    cases w with
    | turn =>
      obtain ⟨live, current⟩ := waitTurn_eq_turn.mp mine
      cases v with
      | turn =>
        obtain ⟨-, current'⟩ := waitTurn_eq_turn.mp theirs
        rw [current] at current'
        exact absurd (Fin.ext (Option.some.inj current')).symm other
      | aborted =>
        rw [waitTurn_eq_aborted.mp theirs] at live
        cases live
    | aborted =>
      have aborted := waitTurn_eq_aborted.mp mine
      have still := Acts.stays_aborted acts aborted
      obtain rfl : v = .aborted := by
        have refused : waitTurn j s = some .aborted := waitTurn_eq_aborted.mpr aborted
        exact Option.some.inj (theirs.symm.trans refused)
      exact waitTurn_eq_aborted.mpr still

/-! ### The scheduler underneath -/

/-- The step of the scheduler behind an operation that leaves the launch running. -/
theorem Acts.perform {i : Fin g.total} {s : State} {e : Effect State (Fin g.total)}
    (acts : Acts g i .turn s e) (live : e.shared.aborted = false) :
    (e.shared = s ∧ e.again = true) ∨
      ∃ a, e.shared = (Scheduler.perform g i s a).1 ∧ (e.again = false → a = .finish) := by
  cases acts with
  | yieldNow =>
    rw [Turn.yieldNow, handOffAndWait_eq] at live ⊢
    exact .inr ⟨.yield, rfl, fun again => (by cases again)⟩
  | barrier loc =>
    rw [barrier_eq]
    exact .inr ⟨.barrier loc, rfl, fun again => (by cases again)⟩
  | warpRendezvous wait =>
    rw [warpRendezvous_eq]
    exact .inr ⟨.rendezvous wait, rfl, fun again => (by cases again)⟩
  | finish =>
    rw [finish_eq]
    exact .inr ⟨.finish, rfl, fun _ => rfl⟩
  | epochs => exact .inl ⟨rfl, rfl⟩
  | trap | panic => cases live

/-- While the launch goes on the scheduler is in a state of the sequential machine. -/
theorem Reachable.scheduler {choices : Choices} {t : Monitor.State State (Fin g.total) Answer}
    (reachable : Reachable g choices t) (live : t.shared.aborted = false) :
    ∃ raised, Scheduler.Reachable g choices t.shared raised := by
  induction reachable with
  | start => exact ⟨[], .new⟩
  | step before moves ih =>
    cases moves with
    | look i looking => exact ih live
    | spurious i asleep => exact ih live
    | act i w past acts =>
      have answered := (before.sound rules_disciplined).past i w past
      cases w with
      | turn =>
        obtain ⟨was_live, current⟩ := waitTurn_eq_turn.mp answered
        obtain ⟨raised, earlier⟩ := ih was_live
        rcases Acts.perform acts live with ⟨same, -⟩ | ⟨a, performed, -⟩
        · exact ⟨raised, by rw [same]; exact earlier⟩
        · exact ⟨_, by rw [performed]; exact .act a earlier was_live current⟩
      | aborted =>
        have still := Acts.stays_aborted acts (waitTurn_eq_aborted.mp answered)
        rw [live] at still
        cases still

/-- Who has returned stays so, and only the caller of an operation returns in it. -/
theorem perform_finished {i me : Nat} {s : State} {a : Scheduler.Action}
    (running : s.aborted = false) (live : (Scheduler.perform g me s a).1.aborted = false)
    (ended : s.status i = .finished ∧ i ≠ me ∨ i = me ∧ a = .finish) :
    (Scheduler.perform g me s a).1.status i = .finished := by
  cases a with
  | yield =>
    obtain ⟨ended, -⟩ | ⟨-, impossible⟩ := ended
    · rw [Scheduler.perform, (Scheduler.yieldNow_live g live).1.status]
      exact ended
    · cases impossible
  | barrier loc =>
    obtain ⟨ended, other⟩ | ⟨-, impossible⟩ := ended
    · obtain ⟨-, ⟨everyone, turned⟩ | ⟨-, turned⟩⟩ := Scheduler.barrier_live g live
      · rw [Scheduler.perform, turned.status]
        have elsewhere : i ∉ g.blockRange (g.blockOf me) := by
          intro here
          have parked := everyone i (g.mem_blockRange.mp here) other
          rw [ended] at parked
          cases parked
        simp [Scheduler.barrierReleased, Scheduler.setAll, elsewhere, other, ended]
      · rw [Scheduler.perform, turned.status]
        simp [Scheduler.barrierParked, other, ended]
    · cases impossible
  | rendezvous wait =>
    obtain ⟨ended, other⟩ | ⟨-, impossible⟩ := ended
    · obtain ⟨-, -, ⟨everyone, turned⟩ | ⟨-, turned⟩⟩ := Scheduler.warpRendezvous_live g live
      · rw [Scheduler.perform, turned.status]
        have elsewhere : i ∉ g.members (g.blockOf me) (g.warpOf me) wait.mask := by
          intro here
          obtain ⟨block, warp, named⟩ := g.mem_members.mp here
          have parked := (everyone i ⟨⟨block, warp⟩, named, other⟩).1
          rw [ended] at parked
          cases parked
        simp [Scheduler.rendezvousReleased, Scheduler.setAll, elsewhere, other, ended]
      · rw [Scheduler.perform, turned.status]
        simp [Scheduler.rendezvousParked, other, ended]
    · cases impossible
  | finish =>
    have marked : (Scheduler.finishMarked me s).status i = .finished := by
      obtain ⟨ended, other⟩ | ⟨rfl, -⟩ := ended
      · simp [Scheduler.finishMarked, other, ended]
      · simp [Scheduler.finishMarked]
    obtain ⟨-, -, -, turned | ⟨ended, -⟩⟩ := Scheduler.finish_live g running live
    · rw [Scheduler.perform, turned.status]
      exact marked
    · rw [Scheduler.perform, ended]
      exact marked
  | report d =>
    obtain ⟨ended, -⟩ | ⟨-, impossible⟩ := ended
    · exact ended
    · cases impossible
  | trap d => cases live

/-- A thread runs kernel code between scheduling points. -/
def Executing (t : Monitor.State State (Fin g.total) Answer) (i : Fin g.total) : Prop :=
  ∃ w, t.phase i = .past w

/-- In every state the threads of a wave can reach, whoever waits without a notification does not
hold the turn and the launch goes on; and while it goes on at most one thread runs kernel code, the
one that holds the turn. Waking everyone at every operation would reach the same states. -/
theorem no_lost_turn (g : Geometry) (choices : Choices) :
    (∀ t, Reachable g choices t →
      (∀ i, t.phase i = .asleep → t.shared.current ≠ some i.val ∧ t.shared.aborted = false) ∧
      (t.shared.aborted = false → (∀ i, Executing t i → t.shared.current = some i.val) ∧
        ∀ i j, Executing t i → Executing t j → i = j)) ∧
    ∀ t, Monitor.Reachable (rules g).broadcast (Scheduler.new g choices) t ↔
      Reachable g choices t := by
  refine ⟨fun t reachable => ?_, fun t => Monitor.reachable_broadcast_iff rules_disciplined⟩
  have sound := reachable.sound rules_disciplined
  have holds : t.shared.aborted = false → ∀ i, Executing t i → t.shared.current = some i.val := by
    rintro live i ⟨w, past⟩
    have answered : waitTurn i t.shared = some w := sound.past i w past
    cases w with
    | turn => exact (waitTurn_eq_turn.mp answered).2
    | aborted =>
      rw [waitTurn_eq_aborted.mp answered] at live
      cases live
  refine ⟨fun i asleep => ?_, fun live => ⟨holds live, fun i j hi hj => ?_⟩⟩
  · have unanswered := waitTurn_eq_none.mp (sound.asleep i asleep)
    exact ⟨unanswered.2, unanswered.1⟩
  · have current := holds live i hi
    rw [holds live j hj] at current
    exact (Fin.ext (Option.some.inj current)).symm

/-- A thread that has left while the launch goes on has returned. -/
theorem Reachable.gone {choices : Choices} {t : Monitor.State State (Fin g.total) Answer}
    (reachable : Reachable g choices t) (live : t.shared.aborted = false) {i : Fin g.total}
    (gone : t.phase i = .gone) : t.shared.status i = .finished := by
  induction reachable with
  | start => cases gone
  | step before moves ih =>
    cases moves with
    | look j looking =>
      by_cases mine : i = j
      · subst mine
        simp only [Function.update_self, Monitor.Rules.settle] at gone
        split at gone <;> cases gone
      · exact ih live (by simpa [mine] using gone)
    | spurious j asleep =>
      by_cases mine : i = j
      · simp [mine] at gone
      · exact ih live (by simpa [mine] using gone)
    | @act e j w past acts =>
      have answered := (before.sound rules_disciplined).past j w past
      cases w with
      | turn =>
        have running := (waitTurn_eq_turn.mp answered).1
        by_cases mine : i = j
        · subst mine
          have leaves : e.again = false := by
            cases again : e.again with
            | false => rfl
            | true =>
              simp only [Function.update_self, again, if_true, Monitor.Rules.settle] at gone
              split at gone <;> cases gone
          rcases Acts.perform acts live with ⟨-, again⟩ | ⟨a, performed, finish⟩
          · rw [leaves] at again
            cases again
          · rw [performed] at live ⊢
            exact perform_finished running live (.inr ⟨rfl, finish leaves⟩)
        · have ended := ih running
            (Monitor.notify_eq (by simpa [mine] using gone) (by simp))
          rcases Acts.perform acts live with ⟨same, -⟩ | ⟨a, performed, -⟩
          · rw [same]
            exact ended
          · rw [performed] at live ⊢
            exact perform_finished running live (.inl ⟨ended, fun same => mine (Fin.ext same)⟩)
      | aborted =>
        have still := Acts.stays_aborted acts (waitTurn_eq_aborted.mp answered)
        rw [live] at still
        cases still

/-- The thread that holds the turn runs, or is about to look and find that it does. -/
theorem turn_taken (g : Geometry) (choices : Choices)
    {t : Monitor.State State (Fin g.total) Answer} (reachable : Reachable g choices t)
    (live : t.shared.aborted = false) {i : Fin g.total} (current : t.shared.current = some i.val) :
    t.phase i = .looking ∨ t.phase i = .past .turn := by
  have sound := reachable.sound rules_disciplined
  have mine : waitTurn i t.shared = some .turn := waitTurn_eq_turn.mpr ⟨live, current⟩
  cases phase : t.phase i with
  | looking => exact .inl rfl
  | asleep =>
    have unanswered : waitTurn i t.shared = none := sound.asleep i phase
    rw [mine] at unanswered
    cases unanswered
  | past w =>
    have answered : waitTurn i t.shared = some w := sound.past i w phase
    rw [Option.some.inj (answered.symm.trans mine)]
    exact .inr rfl
  | gone =>
    obtain ⟨raised, earlier⟩ := reachable.scheduler live
    have ended := reachable.gone live phase
    obtain ⟨stopped, -⟩ | ⟨-, nobody, -⟩ | ⟨-, j, -, holder, runnable⟩ :=
      (earlier.sound g).inProgress
    · rw [live] at stopped
      cases stopped
    · rw [current] at nobody
      cases nobody
    · rw [current] at holder
      rw [← Option.some.inj holder, ended] at runnable
      cases runnable

end Riri.Turn
