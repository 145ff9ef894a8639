import Riri.Source.Threads
import Riri.Guarantees.TurnHandoff
import Riri.Guarantees.WaveCoverage

/-!
# The threads follow the machine

However the operating system interleaves the threads of a launch, what they share is a state of
the sequential machine, and every state of the machine is reached. Between two of its steps the
threads can only look for the turn a bounded number of times, so they never hang while the machine
can move, and they have all returned once it cannot.
-/
namespace Riri.Launch

open Monitor (Sound effort)
open Turn (Answer waitTurn_eq_turn waitTurn_eq_none waitTurn_eq_aborted mem_wake)

variable {V : Type} [BEq V] {env : Env V}

/-! ### The monitor of one wave -/

theorem answer_eq_turn {i : Nat} {s : Launch V} :
    (rules env).answer i s = some .turn ↔
      i < (s.geometry env).total ∧ Live s ∧ s.sched.current = some i := by
  by_cases inside : i < (s.geometry env).total <;> simp [rules, inside, waitTurn_eq_turn, Live]

theorem answer_eq_aborted {i : Nat} {s : Launch V} :
    (rules env).answer i s = some .aborted ↔ i < (s.geometry env).total ∧ ¬ Live s := by
  by_cases inside : i < (s.geometry env).total <;> simp [rules, inside, waitTurn_eq_aborted, Live]

theorem answer_eq_none {i : Nat} {s : Launch V} :
    (rules env).answer i s = none ↔
      (i < (s.geometry env).total → Live s ∧ s.sched.current ≠ some i) := by
  by_cases inside : i < (s.geometry env).total <;> simp [rules, inside, waitTurn_eq_none, Live]

/-- A step that wakes nobody leaves the scheduler alone. -/
theorem Resumed.sched_of_silent {s s' : Launch V} {i : Nat} {l : Label V}
    (resumed : Resumed env s i l s') (silent : l.signals = false) (live : Live s') :
    s'.sched = s.sched := by
  cases resumed with
  | overflow | outOfBounds => cases live
  | finish | panic | arrive | yieldAccess | yieldCollective | refuse | publish | mistyped
  | exchange => cases silent
  | fence | access | miss | depart | leave => rfl

theorem resume_geometry (env : Env V) (s : Launch V) (i : Nat) :
    (s.resume env i).2.geometry env = s.geometry env := by
  have same := (resume_resumed env s i).wave.2
  simp only [geometry, same]

/-- Whoever a step gives an answer is notified of it. -/
theorem mem_notified {s : Launch V} {i j : Nat} (unanswered : (rules env).answer j s = none)
    (answered : (rules env).answer j (s.resume env i).2 ≠ none) :
    j ∈ notified env (s.resume env i).1 (s.resume env i).2 := by
  have same := resume_geometry env s i
  have inside : j < ((s.resume env i).2.geometry env).total := by
    by_contra outside
    exact answered (answer_eq_none.mpr fun inside => absurd inside outside)
  have lets_go : Turn.waitTurn j (s.resume env i).2.sched ≠ none := by
    intro waits
    exact answered (by simp [rules, waits])
  by_cases signals : ((s.resume env i).1.signals || (s.resume env i).2.sched.aborted) = true
  · rw [notified, if_pos signals, Finset.mem_map]
    exact ⟨⟨j, inside⟩, mem_wake.mpr lets_go, rfl⟩
  · -- Nothing changed that anybody waits for.
    simp only [Bool.or_eq_true, not_or, Bool.not_eq_true] at signals
    have sched := (resume_resumed env s i).sched_of_silent signals.1 signals.2
    rw [same] at inside
    have waits : Turn.waitTurn j s.sched = none := by simpa [rules, inside] using unanswered
    rw [sched] at lets_go
    exact absurd waits lets_go

theorem threads_disciplined : (rules env).Disciplined where
  signals := by
    intro i j w s e acts unanswered answered
    cases acts with
    | turn => exact mem_notified unanswered answered
    | unwound => exact absurd unanswered answered
  keeps := by
    intro i j w v s e acts mine other theirs
    cases acts with
    | turn =>
      obtain ⟨-, live, current⟩ := answer_eq_turn.mp mine
      cases v with
      | turn =>
        have current' := (answer_eq_turn.mp theirs).2.2
        rw [current] at current'
        exact absurd (Option.some.inj current').symm other
      | aborted => exact absurd live (answer_eq_aborted.mp theirs).2
    | unwound => exact theirs

/-! ### What a run keeps -/

/-- The threads have come as far as the machine after `n` steps, with `m` steps of their own and
`k` wakeups nobody asked for. -/
structure Follows (env : Env V) (n m k : Nat) (t : Threads V) : Prop where
  shared : t.shared = (run env).state n
  before : ∀ j < n, ¬ (run env).Halted j
  sound : Sound (rules env) t
  outside : ∀ i ∉ Finset.range (t.shared.geometry env).total, t.phase i = .gone
  returned : Live t.shared → ∀ i < (t.shared.geometry env).total,
    (t.phase i = .gone ↔ t.shared.sched.status i = .finished)
  spent : m + effort (Finset.range (t.shared.geometry env).total) t.phase ≤
    2 * waveThreads env + (2 * waveThreads env + 1) * n + 2 * k

omit [BEq V] in
theorem total_le (env : Env V) (s : Launch V) : (s.geometry env).total ≤ waveThreads env :=
  Nat.mul_le_mul_right _ (Nat.min_le_left ..)

omit [BEq V] in
theorem effort_wave_le (env : Env V) (s : Launch V) (phase : Nat → Monitor.Phase Answer) :
    effort (Finset.range (s.geometry env).total) phase ≤ 2 * waveThreads env := by
  have bounded := Monitor.effort_le (Finset.range (s.geometry env).total) phase
  have small := total_le env s
  rw [Finset.card_range] at bounded
  omega

/-- The scope of a wave that is about to start. -/
theorem follows_spawn {n m k : Nat} {s : Launch V} (shared : s = (run env).state n)
    (before : ∀ j < n, ¬ (run env).Halted j) (fresh : ∀ i, s.sched.status i = .runnable)
    (spent : m ≤ (2 * waveThreads env + 1) * n + 2 * k) : Follows env n m k (spawn env s) := by
  have awake : ∀ i, (spawn env s).phase i = .looking ∨ (spawn env s).phase i = .gone := by
    intro i
    by_cases inside : i < (s.geometry env).total <;> simp [spawn, inside]
  refine ⟨shared, before, ⟨?_, ?_⟩, ?_, ?_, ?_⟩
  · intro i asleep
    cases awake i with
    | inl looking => simp [looking] at asleep
    | inr gone => simp [gone] at asleep
  · intro i w past
    cases awake i with
    | inl looking => simp [looking] at past
    | inr gone => simp [gone] at past
  · intro i outside
    have away : ¬ i < (s.geometry env).total := fun inside => outside (Finset.mem_range.mpr inside)
    simp [spawn, away]
  · intro _ i inside
    have here : i < (s.geometry env).total := inside
    simp [spawn, here, fresh]
  · have bounded := effort_wave_le env s (spawn env s).phase
    simp only [spawn] at bounded ⊢
    omega

section

variable {n m k : Nat} {t : Threads V}

theorem Follows.mem_of_not_gone (follows : Follows env n m k t) {i : Nat}
    (here : t.phase i ≠ .gone) : i ∈ Finset.range (t.shared.geometry env).total :=
  Monitor.mem_of_not_gone follows.outside here

/-- A thread whose phase changes between two that are not `gone`. -/
theorem Follows.of_update (follows : Follows env n m k t) {i m' k' : Nat} {p : Monitor.Phase Answer}
    (here : t.phase i ≠ .gone) (stays : p ≠ .gone)
    (sound : Sound (rules env) ⟨t.shared, Function.update t.phase i p⟩)
    (spent : m' + effort (Finset.range (t.shared.geometry env).total) (Function.update t.phase i p) ≤
      2 * waveThreads env + (2 * waveThreads env + 1) * n + 2 * k') :
    Follows env n m' k' ⟨t.shared, Function.update t.phase i p⟩ := by
  have member := follows.mem_of_not_gone here
  refine ⟨follows.shared, follows.before, sound, ?_, ?_, spent⟩
  · intro j outside
    have other : j ≠ i := by
      intro same
      exact outside (same ▸ member)
    simpa [other] using follows.outside j outside
  · intro live j inside
    by_cases mine : j = i
    · subst mine
      have running := (follows.returned live j inside).not.mp here
      simpa [stays] using running
    · simpa [mine] using follows.returned live j inside

theorem Follows.look (follows : Follows env n m k t) {i : Nat} (looking : t.phase i = .looking) :
    Follows env n (m + 1) k
      ⟨t.shared, Function.update t.phase i ((rules env).settle i t.shared)⟩ := by
  have here : t.phase i ≠ .gone := by simp [looking]
  have member := follows.mem_of_not_gone here
  have cheaper : effort _ (Function.update t.phase i ((rules env).settle i t.shared)) < _ :=
    Monitor.look_effort member looking t.shared
  have spent := follows.spent
  refine follows.of_update here ?_ ?_ (by omega)
  · unfold Monitor.Rules.settle
    split <;> simp
  · exact Monitor.Step.sound threads_disciplined follows.sound (.look i looking)

theorem Follows.wake (follows : Follows env n m k t) {t' : Threads V} (wake : Monitor.Wake t t') :
    Follows env n m (k + 1) t' := by
  have sound := wake.step.sound threads_disciplined follows.sound
  cases wake with
  | spurious i asleep =>
    have here : t.phase i ≠ .gone := by simp [asleep]
    have member := follows.mem_of_not_gone here
    have dearer := Monitor.wake_effort member asleep
    have spent := follows.spent
    exact follows.of_update here (by simp) sound (by omega)

/-- `run_thread` returns from the signal of an abort. -/
theorem Follows.unwind (follows : Follows env n m k t) {i : Nat}
    (past : t.phase i = .past .aborted) :
    Follows env n (m + 1) k ⟨t.shared, Function.update t.phase i .gone⟩ := by
  have here : t.phase i ≠ .gone := by simp [past]
  have member := follows.mem_of_not_gone here
  have stopped : ¬ Live t.shared := (answer_eq_aborted.mp (follows.sound.past i _ past)).2
  have cheaper := Monitor.leave_effort member past
  have spent := follows.spent
  have acts : (rules env).acts i .aborted t.shared ⟨t.shared, ∅, false⟩ := .unwound
  have step := Monitor.Step.act i Answer.aborted past acts
  have sound := step.sound threads_disciplined follows.sound
  simp only [Monitor.notify_nobody, Bool.false_eq_true, if_false] at sound
  refine ⟨follows.shared, follows.before, sound, ?_, fun live => absurd live stopped, ?_⟩
  · intro j outside
    by_cases mine : j = i
    · simp [mine]
    · simpa [mine] using follows.outside j outside
  · dsimp only
    omega

/-- A thread that holds the turn takes the machine's next step. -/
theorem Follows.next (follows : Follows env n m k t) {i : Nat} (past : t.phase i = .past .turn) :
    Live t.shared ∧ t.shared.sched.current = some i ∧
      t.shared.step env = some (t.shared.resume env i) ∧
      (run env).state (n + 1) = (t.shared.resume env i).2 ∧ ¬ (run env).Halted n := by
  obtain ⟨-, live, current⟩ := answer_eq_turn.mp (follows.sound.past i _ past)
  have moved : t.shared.step env = some (t.shared.resume env i) := by
    simp [step, current, show t.shared.sched.aborted = false from live]
  have next : (run env).next ((run env).state n) = some (t.shared.resume env i) := by
    rw [← follows.shared]
    exact moved
  refine ⟨live, current, moved, (run env).state_succ_of_next next, ?_⟩
  intro halted
  rw [Machine.Halted, next] at halted
  cases halted

omit [BEq V] in
/-- Among the steps that leave the launch running, `finish` is the one after which a thread is
gone. -/
theorem Moves.stays_iff [BEq V] {s s' : Launch V} {i : Nat} {l : Label V} (move : Moves env s i l s') :
    l.stays = false ↔ l = .finish (s.ctx env i) := by
  cases move <;> simp [Label.stays]

theorem Follows.act (follows : Follows env n m k t) {i : Nat} (past : t.phase i = .past .turn)
    {e : Monitor.Effect (Launch V) Nat} (acts : Acts env i .turn t.shared e) :
    Follows env (n + 1) (m + 1) k ⟨e.shared, Function.update (Monitor.notify e.notified t.phase) i
      (if e.again then (rules env).settle i e.shared else .gone)⟩ := by
  obtain ⟨live, current, moved, next, unhalted⟩ := follows.next past
  have here : t.phase i ≠ .gone := by simp [past]
  have member := follows.mem_of_not_gone here
  have step : Monitor.Step (rules env) t _ := .act i .turn past acts
  have sound := step.sound threads_disciplined follows.sound
  cases acts with
  | turn =>
    have same := resume_geometry env t.shared i
    refine ⟨next.symm, ?_, sound, ?_, ?_, ?_⟩
    · intro j before
      rcases Nat.lt_succ_iff_lt_or_eq.mp before with earlier | rfl
      · exact follows.before j earlier
      · exact unhalted
    · intro j outside
      simp only [same] at outside
      have other : j ≠ i := by
        intro mine
        exact outside (mine ▸ member)
      simpa [other, Monitor.notify_gone] using follows.outside j outside
    · intro still j inside
      simp only [same] at inside
      have running := (wellFormed (n := n) (by rw [← follows.shared]; exact live)).running
        (by rw [← follows.shared]; exact current)
      rw [← follows.shared] at running
      have move := (resume_resumed env t.shared i).moves env live still
      have ended := move.finished_iff (i := j) running.2
      by_cases mine : j = i
      · subst mine
        rw [ended, running.2]
        simp only [Function.update_self, reduceCtorEq, false_or, true_and]
        rw [← move.stays_iff]
        cases (t.shared.resume env j).1.stays with
        | false => simp
        | true =>
          simp only [if_true, Bool.true_eq_false, iff_false]
          unfold Monitor.Rules.settle
          split <;> simp
      · rw [ended]
        simpa [mine, Monitor.notify_gone] using follows.returned live j inside
    · have bounded := effort_wave_le env (t.shared.resume env i).2
        (Function.update (Monitor.notify (notified env (t.shared.resume env i).1
          (t.shared.resume env i).2) t.phase) i
          (if (t.shared.resume env i).1.stays then (rules env).settle i (t.shared.resume env i).2
            else .gone))
      have spent := follows.spent
      have more : (2 * waveThreads env + 1) * (n + 1) =
        (2 * waveThreads env + 1) * n + (2 * waveThreads env + 1) := Nat.mul_succ ..
      dsimp only
      omega

/-- The loop of `run_shared` goes on to the next wave. -/
theorem Follows.loops (follows : Follows env n m k t) (gone : ∀ i, t.phase i = .gone)
    (live : Live t.shared)
    (more : t.shared.firstBlock + env.config.waveBlocks t.shared.firstBlock < env.config.blocks) :
    (run env).next t.shared = some (.nextWave, t.shared.nextWave env) := by
  have nobody : t.shared.sched.current = none := by
    have wf := wellFormed (n := n) (by rw [← follows.shared]; exact live)
    rw [← follows.shared] at wf
    rcases wf.turn with ⟨i, inside, -, running⟩ | ⟨nobody, -⟩
    · rw [(follows.returned live i inside).mp (gone i)] at running
      cases running
    · exact nobody
  show t.shared.step env = _
  simp [step, nobody, more, show t.shared.sched.aborted = false from live]

theorem Follows.join (follows : Follows env n m k t) (gone : ∀ i, t.phase i = .gone)
    (live : Live t.shared)
    (more : t.shared.firstBlock + env.config.waveBlocks t.shared.firstBlock < env.config.blocks) :
    Follows env (n + 1) (m + 1) k (spawn env (t.shared.nextWave env)) := by
  have next := follows.loops gone live more
  rw [follows.shared] at next
  rw [follows.shared]
  refine follows_spawn ((run env).state_succ_of_next next).symm ?_ (fun i => start_status ..) ?_
  · intro j before
    rcases Nat.lt_succ_iff_lt_or_eq.mp before with earlier | rfl
    · exact follows.before j earlier
    · intro halted
      rw [Machine.Halted, next] at halted
      cases halted
  · have spent := follows.spent
    have more : (2 * waveThreads env + 1) * (n + 1) =
      (2 * waveThreads env + 1) * n + (2 * waveThreads env + 1) := Nat.mul_succ ..
    omega

/-- A step of the threads leaves what they share alone or is the machine's next one. -/
theorem Follows.work (follows : Follows env n m k t) {t' : Threads V} (works : Works env t t') :
    t'.shared = t.shared ∧ Follows env n (m + 1) k t' ∨
      (∃ l, (run env).next t.shared = some (l, t'.shared)) ∧ Follows env (n + 1) (m + 1) k t' := by
  cases works with
  | thread work =>
    cases work with
    | look i looking => exact .inl ⟨rfl, follows.look looking⟩
    | act i w past acts =>
      cases w with
      | turn =>
        have moved := (follows.next past).2.2.1
        have acted := follows.act past acts
        cases acts with
        | turn => exact .inr ⟨⟨_, moved⟩, acted⟩
      | aborted =>
        cases acts with
        | unwound =>
          have left := follows.unwind past
          rw [← Monitor.notify_nobody t.phase] at left
          exact .inl ⟨rfl, left⟩
  | join gone live more =>
    exact .inr ⟨⟨_, follows.loops gone live more⟩, follows.join gone live more⟩

/-- Threads that cannot take a step have all returned, and the machine has stopped. -/
theorem Follows.stuck (follows : Follows env n m k t) (stuck : ∀ t', ¬ Works env t t') :
    (run env).Halted n ∧ ∀ i, t.phase i = .gone := by
  have idle : ∀ i, t.phase i = .asleep ∨ t.phase i = .gone := by
    intro i
    cases phase : t.phase i with
    | looking => exact absurd (.thread (.look i phase)) (stuck _)
    | asleep => exact .inl rfl
    | past w =>
      cases w with
      | turn => exact absurd (.thread (.act i _ phase .turn)) (stuck _)
      | aborted => exact absurd (.thread (.act i _ phase .unwound)) (stuck _)
    | gone => exact .inr rfl
  by_cases live : Live t.shared
  · have wf := wellFormed (n := n) (by rw [← follows.shared]; exact live)
    rw [← follows.shared] at wf
    rcases wf.turn with ⟨i, inside, current, running⟩ | ⟨nobody, ended⟩
    · -- Whoever holds the turn neither sleeps nor has returned.
      cases idle i with
      | inl asleep =>
        have unanswered := answer_eq_none.mp (follows.sound.asleep i asleep) inside
        exact absurd current unanswered.2
      | inr gone =>
        rw [(follows.returned live i inside).mp gone] at running
        cases running
    · have gone : ∀ i, t.phase i = .gone := by
        intro i
        by_cases inside : i < (t.shared.geometry env).total
        · exact (follows.returned live i inside).mpr (ended i inside)
        · exact follows.outside i fun member => inside (Finset.mem_range.mp member)
      refine ⟨?_, gone⟩
      by_contra moves
      have last : ¬ t.shared.firstBlock + env.config.waveBlocks t.shared.firstBlock <
          env.config.blocks := fun more => stuck _ (.join gone live more)
      apply moves
      rw [Machine.Halted, ← follows.shared]
      show t.shared.step env = none
      simp [step, nobody, last]
  · refine ⟨?_, ?_⟩
    · rw [Machine.Halted, ← follows.shared]
      show t.shared.step env = none
      have aborted : t.shared.sched.aborted = true := Bool.eq_true_of_not_eq_false live
      simp [step, aborted]
    · intro i
      cases idle i with
      | inl asleep =>
        by_cases inside : i < (t.shared.geometry env).total
        · exact absurd (answer_eq_none.mp (follows.sound.asleep i asleep) inside).1 live
        · exact follows.outside i fun member => inside (Finset.mem_range.mp member)
      | inr gone => exact gone

end

/-- An interleaving of which `n` steps have been the machine's, each its next one, and every other
step and every wakeup has left what is shared alone. -/
inductive Refines (env : Env V) : Nat → Nat → Nat → Threads V → Prop
  | start : Refines env 0 0 0 (spawn env (init env))
  | stutter {n m k : Nat} {t t' : Threads V} (before : Refines env n m k t)
      (works : Works env t t') (same : t'.shared = t.shared) : Refines env n (m + 1) k t'
  | next {n m k : Nat} {t t' : Threads V} {l : Label V} (before : Refines env n m k t)
      (works : Works env t t') (moved : (run env).next t.shared = some (l, t'.shared)) :
      Refines env (n + 1) (m + 1) k t'
  | wake {n m k : Nat} {t t' : Threads V} (before : Refines env n m k t)
      (wakes : Monitor.Wake t t') (same : t'.shared = t.shared) : Refines env n m (k + 1) t'

theorem Interleaves.follows {m k : Nat} {t : Threads V} (runs : Interleaves env m k t) :
    ∃ n, Refines env n m k t ∧ Follows env n m k t := by
  induction runs with
  | start =>
    refine ⟨0, .start, follows_spawn rfl (fun j before => absurd before (Nat.not_lt_zero j)) ?_
      (by omega)⟩
    exact fun i => start_status ..
  | work before works ih =>
    obtain ⟨n, refines, follows⟩ := ih
    cases follows.work works with
    | inl stutters => exact ⟨n, refines.stutter works stutters.1, stutters.2⟩
    | inr moves =>
      obtain ⟨⟨l, moved⟩, follows'⟩ := moves
      exact ⟨n + 1, refines.next works moved, follows'⟩
  | wake before wakes ih =>
    obtain ⟨n, refines, follows⟩ := ih
    exact ⟨n, refines.wake wakes wakes.shared, follows.wake wakes⟩

/-- While the machine can move the threads take it there by themselves. -/
theorem Follows.advances {n m k : Nat} {t : Threads V} (runs : Interleaves env m k t)
    (follows : Follows env n m k t) (moves : ¬ (run env).Halted n) :
    ∃ m' t', Interleaves env m' k t' ∧ Follows env (n + 1) m' k t' := by
  -- The steps that are left before the machine has to move.
  induction left : 2 * waveThreads env + (2 * waveThreads env + 1) * n + 2 * k - m
    using Nat.strong_induction_on generalizing m t with
  | _ left ih =>
    by_cases stuck : ∀ t', ¬ Works env t t'
    · exact absurd (follows.stuck stuck).1 moves
    · push Not at stuck
      obtain ⟨t', works⟩ := stuck
      cases follows.work works with
      | inl stutters =>
        have spent := stutters.2.spent
        exact ih _ (by omega) (runs.work works) stutters.2 rfl
      | inr moves => exact ⟨m + 1, t', runs.work works, moves.2⟩

theorem exists_follows {n : Nat} (before : ∀ j < n, ¬ (run env).Halted j) :
    ∃ m t, Interleaves env m 0 t ∧ Follows env n m 0 t := by
  induction n with
  | zero =>
    refine ⟨0, _, .start, follows_spawn rfl before ?_ (by omega)⟩
    exact fun i => start_status ..
  | succ n ih =>
    obtain ⟨m, t, runs, follows⟩ := ih fun j earlier => before j (Nat.lt_succ_of_lt earlier)
    exact follows.advances runs (before n (Nat.lt_succ_self n))

/-- Whatever the operating system does, what the threads share is where the machine is after as
many of its steps as they have taken for it, one after the other, and the steps they have taken
are bounded by those and the wakeups nobody asked for. Whoever is past its wait has the turn, or
is leaving a launch that aborted. Any next step leaves what is shared alone or is the machine's
next one, and when no thread can take a step all of them have returned and the machine has
stopped. And the threads can follow the machine to every state it reaches. -/
theorem threads_follow (env : Env V) :
    (∀ m k t, Interleaves env m k t →
      ∃ n, Refines env n m k t ∧ t.shared = (run env).state n ∧ (∀ j < n, ¬ (run env).Halted j) ∧
        m ≤ 2 * waveThreads env + (2 * waveThreads env + 1) * n + 2 * k ∧
        (∀ i w, t.phase i = .past w →
          w = .turn ∧ Live t.shared ∧ t.shared.sched.current = some i ∨
            w = .aborted ∧ ¬ Live t.shared) ∧
        (∀ t', Works env t t' → t'.shared = t.shared ∨
          ¬ (run env).Halted n ∧ t'.shared = (run env).state (n + 1)) ∧
        ((∀ t', ¬ Works env t t') → (run env).Halted n ∧ ∀ i, t.phase i = .gone)) ∧
    ∀ n, (∀ j < n, ¬ (run env).Halted j) →
      ∃ m t, Interleaves env m 0 t ∧ t.shared = (run env).state n := by
  constructor
  · intro m k t runs
    obtain ⟨n, refines, follows⟩ := runs.follows
    have spent := follows.spent
    refine ⟨n, refines, follows.shared, follows.before, by omega, ?_, ?_, follows.stuck⟩
    · intro i w past
      have answered := follows.sound.past i w past
      cases w with
      | turn => exact .inl ⟨rfl, (answer_eq_turn.mp answered).2⟩
      | aborted => exact .inr ⟨rfl, (answer_eq_aborted.mp answered).2⟩
    · intro t' works
      cases follows.work works with
      | inl stutters => exact .inl stutters.1
      | inr moves => exact .inr ⟨moves.2.before n (Nat.lt_succ_self n), moves.2.shared⟩
  · intro n before
    obtain ⟨m, t, runs, follows⟩ := exists_follows before
    exact ⟨m, t, runs, follows.shared⟩

end Riri.Launch
