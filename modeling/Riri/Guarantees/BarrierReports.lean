import Riri.Guarantees.AbortCause
import Riri.Guarantees.BlockNumbering
import Riri.Sched.Detector

/-!
# Barrier reports are no false alarms

An arrival finds that somebody of its block has returned, or an exit finds that somebody waits
at the barrier, before the two can stand side by side. So a block in which nobody can run has a
lane parked at a collective: whatever the deadlock detector finds it can blame a warp for, and
every barrier report counts threads that wait and threads that have returned.
-/
namespace Riri

namespace Scheduler

variable (g : Geometry)

/-- Whoever is parked at a barrier waits for a thread of its block, none of which has
returned. -/
structure BlocksWait (s : State) : Prop where
  unmixed : ∀ i j, g.blockOf i = g.blockOf j → s.status i = .atBarrier → s.status j ≠ .finished
  missing : ∀ i, s.status i = .atBarrier → ∃ j, g.blockOf j = g.blockOf i ∧ s.status j ≠ .atBarrier

/-- An operation of `me` hands the turn over and runs `detect_stuck`, in this state. -/
inductive Detects (me : Nat) (s : State) : State → Prop
  | yieldNow (idle : (pickNext g s).current = none) : Detects me s (pickNext g s)
  | barrier (loc : Location) (entered : (barrierEnter g me loc s).1.aborted = false)
      (idle : (pickNext g (barrierEnter g me loc s).1).current = none) :
      Detects me s (pickNext g (barrierEnter g me loc s).1)
  | warpRendezvous (wait : WarpWait) (entered : (rendezvousEnter g me wait s).1.aborted = false)
      (idle : (pickNext g (rendezvousEnter g me wait s).1).current = none) :
      Detects me s (pickNext g (rendezvousEnter g me wait s).1)
  | finish (entered : (finishEnter g me s).1.aborted = false)
      (idle : (pickNext g (finishEnter g me s).1).current = none)
      (left : ∃ i < g.total, (pickNext g (finishEnter g me s).1).status i ≠ .finished) :
      Detects me s (pickNext g (finishEnter g me s).1)

/-- A barrier report counts somebody who waits and somebody who has returned. -/
def Grounded : Diagnostic → Prop
  | .barrierDivergence _ waiting exited _ =>
      1 ≤ waiting ∧ 1 ≤ exited ∧ waiting + exited ≤ g.threadsPerBlock
  | _ => True

variable {g} {s s' : State} {me : Nat}

/-! ### Blocks that wait -/

theorem Rests.blocksWait (rests : Rests s' s) (h : BlocksWait g s) : BlocksWait g s' := by
  constructor
  · intro i j
    rw [rests.status]
    exact h.unmixed i j
  · intro i
    rw [rests.status]
    exact h.missing i

theorem unstarted_blocksWait (choices : Choices) : BlocksWait g (unstarted choices) := by
  constructor
  · intro i j _ parked
    cases parked
  · intro i parked
    cases parked

/-- Nobody returns and nobody comes to a barrier. -/
theorem BlocksWait.of_moved (h : BlocksWait g s)
    (moved : ∀ i, s'.status i = s.status i ∨ s'.status i = .runnable ∨ s'.status i = .atWarp) :
    BlocksWait g s' := by
  have before : ∀ i status, s'.status i = status → status ≠ .runnable → status ≠ .atWarp →
      s.status i = status := by
    intro i status here free warp
    rcases moved i with same | woken | parked
    · rw [← same, here]
    · exact absurd (here.symm.trans woken) free
    · exact absurd (here.symm.trans parked) warp
  constructor
  · intro i j block parked gone
    exact h.unmixed i j block (before i _ parked (by simp) (by simp))
      (before j _ gone (by simp) (by simp))
  · intro i parked
    obtain ⟨j, block, absent⟩ := h.missing i (before i _ parked (by simp) (by simp))
    exact ⟨j, block, fun here => absent (before j _ here (by simp) (by simp))⟩

theorem BlocksWait.rendezvousParked (h : BlocksWait g s) (wait : WarpWait) :
    BlocksWait g (rendezvousParked me wait s) := by
  refine h.of_moved fun i => ?_
  by_cases mine : i = me
  · rw [mine]
    exact .inr (.inr (Function.update_self ..))
  · exact .inl (Function.update_of_ne mine ..)

theorem BlocksWait.rendezvousReleased (h : BlocksWait g s) (wait : WarpWait) :
    BlocksWait g (rendezvousReleased g me wait s) := by
  have parked : BlocksWait g (Scheduler.rendezvousParked me wait s) := h.rendezvousParked wait
  refine parked.of_moved fun i => ?_
  simp only [Scheduler.rendezvousReleased, setAll, Scheduler.rendezvousParked]
  split
  · exact .inr (.inl rfl)
  · exact .inl rfl

theorem BlocksWait.barrierParked (h : BlocksWait g s) (loc : Location)
    (alive : ∀ i, g.blockOf i = g.blockOf me → i ≠ me → s.status i ≠ .finished)
    (waiting : ∃ i, g.blockOf i = g.blockOf me ∧ i ≠ me ∧ s.status i ≠ .atBarrier) :
    BlocksWait g (barrierParked g me loc s) := by
  have mine : (Scheduler.barrierParked g me loc s).status me = .atBarrier := Function.update_self ..
  have theirs : ∀ i, i ≠ me → (Scheduler.barrierParked g me loc s).status i = s.status i :=
    fun i away => Function.update_of_ne away ..
  constructor
  · intro i j block parked gone
    have other : j ≠ me := by
      rintro rfl
      cases gone.symm.trans mine
    rw [theirs j other] at gone
    by_cases own : i = me
    · rw [own] at block
      exact alive j block.symm other gone
    · rw [theirs i own] at parked
      exact h.unmixed i j block parked gone
  · intro i parked
    by_cases block : g.blockOf i = g.blockOf me
    · obtain ⟨j, near, away, absent⟩ := waiting
      exact ⟨j, near.trans block.symm, by rwa [theirs j away]⟩
    · have own : i ≠ me := fun same => block (by rw [same])
      rw [theirs i own] at parked
      obtain ⟨j, near, absent⟩ := h.missing i parked
      have away : j ≠ me := by
        rintro rfl
        exact block near.symm
      exact ⟨j, near, by rwa [theirs j away]⟩

theorem BlocksWait.barrierReleased (h : BlocksWait g s) : BlocksWait g (barrierReleased g me s) := by
  refine h.of_moved fun i => ?_
  by_cases block : g.blockOf i = g.blockOf me
  · right
    left
    simp [Scheduler.barrierReleased, setAll, g.mem_blockRange, block]
  · have away : i ≠ me := fun same => block (by rw [same])
    left
    simp [Scheduler.barrierReleased, setAll, g.mem_blockRange, block, away]

theorem BlocksWait.finishMarked (h : BlocksWait g s)
    (alone : ∀ i, g.blockOf i = g.blockOf me → i ≠ me → s.status i ≠ .atBarrier) :
    BlocksWait g (finishMarked me s) := by
  have mine : (Scheduler.finishMarked me s).status me = .finished := Function.update_self ..
  have theirs : ∀ i, i ≠ me → (Scheduler.finishMarked me s).status i = s.status i :=
    fun i away => Function.update_of_ne away ..
  have away : ∀ i, (Scheduler.finishMarked me s).status i = .atBarrier → i ≠ me := by
    rintro i parked rfl
    cases parked.symm.trans mine
  constructor
  · intro i j block parked gone
    have other := away i parked
    rw [theirs i other] at parked
    by_cases own : j = me
    · rw [own] at block
      exact alone i block other parked
    · rw [theirs j own] at gone
      exact h.unmixed i j block parked gone
  · intro i parked
    have other := away i parked
    rw [theirs i other] at parked
    obtain ⟨j, near, absent⟩ := h.missing i parked
    by_cases own : j = me
    · exact ⟨j, near, by rw [own, mine]; simp⟩
    · exact ⟨j, near, by rwa [theirs j own]⟩

/-- What a barrier leaves unless it fails. -/
theorem barrierEnter_blocksWait (h : BlocksWait g s) (loc : Location)
    (entered : (barrierEnter g me loc s).1.aborted = false) :
    BlocksWait g (barrierEnter g me loc s).1 := by
  rcases barrierEnter_cases g me loc s with
    ⟨i, -, -, -, enter⟩ | ⟨-, enter⟩ | ⟨alive, waiting, enter⟩
  · rw [enter] at entered
    cases entered
  · rw [enter]
    exact h.barrierReleased
  · rw [enter]
    exact h.barrierParked loc alive waiting

theorem rendezvousEnter_blocksWait (h : BlocksWait g s) (wait : WarpWait)
    (entered : (rendezvousEnter g me wait s).1.aborted = false) :
    BlocksWait g (rendezvousEnter g me wait s).1 := by
  rcases rendezvousEnter_cases g me wait s with
    ⟨p, -, -, enter⟩ | ⟨-, p, other, -, enter⟩ | ⟨-, -, enter⟩ | ⟨-, -, -, enter⟩
  · rw [enter] at entered
    cases entered
  · rw [enter] at entered
    cases entered
  · rw [enter]
    exact h.rendezvousReleased wait
  · rw [enter]
    exact h.rendezvousParked wait

theorem finishEnter_blocksWait (h : BlocksWait g s)
    (entered : (finishEnter g me s).1.aborted = false) :
    BlocksWait g (finishEnter g me s).1 ∧ (finishEnter g me s).1 = finishMarked me s := by
  rcases finishEnter_cases g me s with ⟨p, wait, -, enter⟩ | ⟨-, -, enter⟩ | ⟨-, alone, enter⟩
  · rw [enter] at entered
    cases entered
  · rw [enter] at entered
    cases entered
  · rw [enter]
    exact ⟨h.finishMarked alone, rfl⟩

/-! ### What the detector finds -/

/-- A wave that is stuck has a lane parked at a collective. -/
theorem exists_atWarp_of_idle (h : BlocksWait g s) (idle : runnable g s = []) {i : Nat}
    (inside : i < g.total) (left : s.status i ≠ .finished) :
    ∃ p < g.total, s.status p = .atWarp := by
  have nobody : ∀ p < g.total, s.status p ≠ .runnable := by
    intro p bound free
    have listed := (mem_runnable g).mpr ⟨bound, free⟩
    rw [idle] at listed
    cases listed
  cases status : s.status i with
  | runnable => exact absurd status (nobody i inside)
  | atWarp => exact ⟨i, inside, status⟩
  | finished => exact absurd status left
  | atBarrier =>
    -- Who is missing from the barrier has not returned and cannot run.
    obtain ⟨j, block, absent⟩ := h.missing i status
    have bound : j < g.total := g.lt_total_of_blockOf (by rw [block]; exact g.blockOf_lt inside)
    cases other : s.status j with
    | runnable => exact absurd other (nobody j bound)
    | atWarp => exact ⟨j, bound, other⟩
    | atBarrier => exact absurd other absent
    | finished => exact absurd other (h.unmixed i j block.symm status)

/-- With a lane parked at a collective the detector blames warps only. -/
theorem missesLane_of_stuckReports (waits : WaitsRecorded g s) {i : Nat} (inside : i < g.total)
    (parked : s.status i = .atWarp) :
    stuckReports g s ≠ [] ∧ ∀ d ∈ stuckReports g s, d.missesLane = true := by
  have some_warp : ((List.range g.blocks).flatMap fun block =>
      (List.range g.warpsPerBlock).filterMap fun warp => stuckWarp g s block warp) ≠ [] := by
    intro silent
    have in_block := List.flatMap_eq_nil_iff.mp silent _ (List.mem_range.mpr (g.blockOf_lt inside))
    have absent := List.filterMap_eq_nil_iff.mp in_block _ (List.mem_range.mpr (g.warpOf_lt i))
    exact stuckWarp_ne_none g waits inside parked absent
  have warps : stuckReports g s = (List.range g.blocks).flatMap fun block =>
      (List.range g.warpsPerBlock).filterMap fun warp => stuckWarp g s block warp := by
    unfold stuckReports
    dsimp only
    rw [if_pos some_warp]
  rw [warps]
  refine ⟨some_warp, fun d member => ?_⟩
  obtain ⟨block, -, in_block⟩ := List.mem_flatMap.mp member
  obtain ⟨warp, -, found⟩ := List.mem_filterMap.mp in_block
  simp only [stuckWarp, Option.bind_eq_bind, Option.pure_def, Option.bind_eq_some_iff] at found
  obtain ⟨first, -, wait, -, report⟩ := found
  cases report
  rfl

theorem pickNext_idle (idle : (pickNext g s).current = none) : runnable g s = [] := by
  by_contra somebody
  obtain ⟨i, -, -, current⟩ := (pickNext_turned g somebody).chosen
  cases current.symm.trans idle

theorem WaitsRecorded.of_rests (rests : Rests s' s) (h : WaitsRecorded g s) :
    WaitsRecorded g s' := by
  intro i inside parked
  rw [rests.status] at parked
  rw [rests.warpWait]
  exact h i inside parked

/-- A stuck hand-off has a lane parked at a recorded wait. -/
theorem parked_of_idle (h : BlocksWait g s) (waits : WaitsRecorded g s)
    (idle : (pickNext g s).current = none) {i : Nat} (inside : i < g.total)
    (left : s.status i ≠ .finished) :
    WaitsRecorded g (pickNext g s) ∧ ∃ p < g.total, (pickNext g s).status p = .atWarp := by
  have rests := pickNext_rests g s
  obtain ⟨p, bound, parked⟩ := exists_atWarp_of_idle h (pickNext_idle idle) inside left
  exact ⟨waits.of_rests rests, p, bound, by rw [rests.status, parked]⟩

theorem barrierEnter_waits (waits : WaitsRecorded g s) (loc : Location) :
    WaitsRecorded g (barrierEnter g me loc s).1 := by
  have keep : ∀ f : State, f.warpWait = s.warpWait →
      (∀ i, f.status i = .atWarp → s.status i = .atWarp) → WaitsRecorded g f := by
    intro f same back i inside parked
    rw [same]
    exact waits i inside (back i parked)
  have parked : WaitsRecorded g (barrierParked g me loc s) := by
    refine keep _ rfl fun i parked => ?_
    by_cases mine : i = me
    · simp [barrierParked, mine] at parked
    · simpa [barrierParked, mine] using parked
  rcases barrierEnter_cases g me loc s with ⟨i, -, -, -, enter⟩ | ⟨-, enter⟩ | ⟨-, -, enter⟩
  · rw [enter]
    exact parked
  · rw [enter]
    refine keep _ rfl fun i here => ?_
    simp only [barrierReleased, setAll] at here
    split at here
    · cases here
    · by_cases mine : i = me
      · simp [mine] at here
      · simpa [mine] using here
  · rw [enter]
    exact parked

theorem Detects.blames (detects : Detects g me s s') (h : BlocksWait g s)
    (waits : WaitsRecorded g s) (inside : me < g.total) (running : s.status me = .runnable) :
    WaitsRecorded g s' ∧ ∃ p < g.total, s'.status p = .atWarp := by
  cases detects with
  | yieldNow idle => exact parked_of_idle h waits idle inside (by simp [running])
  | barrier loc entered idle =>
    refine parked_of_idle (barrierEnter_blocksWait h loc entered) (barrierEnter_waits waits loc)
      idle inside ?_
    rcases barrierEnter_cases g me loc s with ⟨i, -, -, -, enter⟩ | ⟨-, enter⟩ | ⟨-, -, enter⟩
    · rw [enter] at entered
      cases entered
    · rw [enter]
      simp [barrierReleased, setAll, g.mem_blockRange]
    · rw [enter]
      simp [barrierParked]
  | warpRendezvous wait entered idle =>
    have both : WaitsRecorded g (rendezvousEnter g me wait s).1 ∧
        (rendezvousEnter g me wait s).1.status me ≠ .finished := by
      rcases rendezvousEnter_cases g me wait s with
        ⟨p, -, -, enter⟩ | ⟨-, p, other, -, enter⟩ | ⟨-, -, enter⟩ | ⟨-, -, -, enter⟩
      · rw [enter] at entered
        cases entered
      · rw [enter] at entered
        cases entered
      · rw [enter]
        refine ⟨rendezvousReleased_waits g waits, ?_⟩
        simp only [rendezvousReleased, setAll]
        split <;> simp
      · rw [enter]
        exact ⟨rendezvousParked_waits g waits, by simp [rendezvousParked]⟩
    exact parked_of_idle (rendezvousEnter_blocksWait h wait entered) both.1 idle inside both.2
  | finish entered idle left =>
    obtain ⟨blocks, marked⟩ := finishEnter_blocksWait h entered
    obtain ⟨i, bound, alive⟩ := left
    rw [(pickNext_rests g _).status] at alive
    refine parked_of_idle blocks ?_ idle bound alive
    rw [marked]
    intro p bound parked
    have away : p ≠ me := by
      rintro rfl
      simp [finishMarked] at parked
    rw [show (finishMarked me s).status p = s.status p from Function.update_of_ne away ..] at parked
    exact waits p bound parked

/-! ### What barrier reports count -/

/-- A thread waits or has returned, not both. -/
theorem waitingAt_add_exitedFrom (s : State) (block : Nat) :
    waitingAt g s block + exitedFrom g s block ≤ g.threadsPerBlock := by
  unfold waitingAt exitedFrom
  have bound : (g.blockRange block).length = g.threadsPerBlock := by simp [Geometry.blockRange]
  rw [← bound]
  induction g.blockRange block with
  | nil => exact Nat.le_refl 0
  | cons i rest ih =>
    rw [List.countP_cons, List.countP_cons, List.length_cons]
    cases s.status i <;> simp <;> omega

/-- A report of a block with somebody at the barrier and somebody who has returned. -/
theorem barrierReport_grounded {block i j : Nat} (here : g.blockOf i = block)
    (there : g.blockOf j = block) (parked : s.status i = .atBarrier)
    (gone : s.status j = .finished) : Grounded g (barrierReport g s block) := by
  refine ⟨?_, ?_, waitingAt_add_exitedFrom s block⟩
  · exact List.countP_pos_iff.mpr ⟨i, g.mem_blockRange.mpr here, by simp [parked]⟩
  · exact List.countP_pos_iff.mpr ⟨j, g.mem_blockRange.mpr there, by simp [gone]⟩

theorem grounded_of_missesLane {d : Diagnostic} (misses : d.missesLane = true) : Grounded g d := by
  cases d with
  | warpDivergence => trivial
  | _ => cases misses

/-- A hand-off that runs the detector reports warps only. -/
theorem handOff_grounded (blames : (pickNext g s).current = none →
      WaitsRecorded g (pickNext g s) ∧ ∃ p < g.total, (pickNext g s).status p = .atWarp)
    {d : Diagnostic} (member : d ∈ (handOff g s).2) : Grounded g d := by
  unfold handOff at member
  dsimp only at member
  split at member
  next idle =>
    obtain ⟨waits, p, bound, parked⟩ := blames idle
    exact grounded_of_missesLane ((missesLane_of_stuckReports waits bound parked).2 d member)
  · cases member

theorem handOffUnlessFailed_grounded {r : Outcome} (own : ∀ d ∈ r.2, Grounded g d)
    (blames : r.1.aborted = false → (pickNext g r.1).current = none →
      WaitsRecorded g (pickNext g r.1) ∧ ∃ p < g.total, (pickNext g r.1).status p = .atWarp)
    {d : Diagnostic} (member : d ∈ (handOffUnlessFailed g r).2) : Grounded g d := by
  unfold handOffUnlessFailed at member
  split at member
  · exact own d member
  next entered =>
    rcases List.mem_append.mp member with early | handed
    · exact own d early
    · exact handOff_grounded (blames (by simpa using entered)) handed

section

variable (h : BlocksWait g s) (waits : WaitsRecorded g s) (inside : me < g.total)
  (running : s.status me = .runnable)
include h waits inside running

theorem barrier_grounded (loc : Location) {d : Diagnostic} (member : d ∈ (barrier g me loc s).2) :
    Grounded g d := by
  refine handOffUnlessFailed_grounded (fun d own => ?_)
    (fun entered idle => (Detects.barrier loc entered idle).blames h waits inside running) member
  rcases barrierEnter_cases g me loc s with ⟨i, block, away, gone, enter⟩ | ⟨-, enter⟩ | ⟨-, -, enter⟩
  · rw [enter] at own
    rw [List.mem_singleton.mp own]
    exact barrierReport_grounded rfl block (Function.update_self ..)
      ((Function.update_of_ne away ..).trans gone)
  · rw [enter] at own
    cases own
  · rw [enter] at own
    cases own

theorem warpRendezvous_grounded (wait : WarpWait) {d : Diagnostic}
    (member : d ∈ (warpRendezvous g me wait s).2) : Grounded g d := by
  refine handOffUnlessFailed_grounded (fun d own => ?_)
    (fun entered idle => (Detects.warpRendezvous wait entered idle).blames h waits inside running)
    member
  rcases rendezvousEnter_cases g me wait s with
    ⟨p, -, -, enter⟩ | ⟨-, p, other, -, enter⟩ | ⟨-, -, enter⟩ | ⟨-, -, -, enter⟩
  · rw [enter] at own
    rw [List.mem_singleton.mp own]
    trivial
  · rw [enter] at own
    rw [List.mem_singleton.mp own]
    trivial
  · rw [enter] at own
    cases own
  · rw [enter] at own
    cases own

theorem finish_grounded {d : Diagnostic} (member : d ∈ (finish g me s).2) : Grounded g d := by
  unfold finish at member
  dsimp only at member
  split at member
  · rcases finishEnter_cases g me s with
      ⟨p, wait, -, enter⟩ | ⟨-, ⟨i, block, away, parked⟩, enter⟩ | ⟨-, -, enter⟩
    · rw [enter] at member
      rw [List.mem_singleton.mp member]
      trivial
    · rw [enter] at member
      rw [List.mem_singleton.mp member]
      exact barrierReport_grounded block rfl ((Function.update_of_ne away ..).trans parked)
        (Function.update_self ..)
    · rw [enter] at member
      cases member
  next entered =>
    split at member
    next stuck =>
      obtain ⟨recorded, p, bound, parked⟩ :=
        (Detects.finish (by simpa using entered) stuck.1 stuck.2).blames h waits inside running
      exact grounded_of_missesLane ((missesLane_of_stuckReports recorded bound parked).2 d member)
    · cases member

end

end Scheduler

namespace Launch

open Scheduler (BlocksWait Detects Grounded)

variable {V : Type} {env : Env V} {s s' : Launch V} {me : Nat}

theorem blocksWait_of_start {choices : Choices}
    (started : s.sched = Scheduler.new (s.geometry env) choices) :
    BlocksWait (s.geometry env) s.sched := by
  rw [started]
  exact (Scheduler.pickNext_rests _ _).blocksWait (Scheduler.unstarted_blocksWait choices)

/-- An operation that does not fail keeps blocks waiting. -/
theorem Operates.blocksWait {g : Geometry} {pc : Pc V} {sched : Scheduler.State}
    {r : Scheduler.Outcome} (operates : Operates g me pc sched r) (live : r.1.aborted = false)
    (h : BlocksWait g sched) : BlocksWait g r.1 := by
  cases operates with
  | none => exact h
  | abort => cases live
  | yield => exact (Scheduler.handOff_rests g sched).blocksWait h
  | barrier loc =>
    obtain ⟨entered, -⟩ := Scheduler.handOffUnlessFailed_live g live
    exact (Scheduler.handOffUnlessFailed_rests g _).blocksWait
      (Scheduler.barrierEnter_blocksWait h loc entered)
  | @rendezvous pc' wait joins =>
    obtain ⟨entered, -⟩ := Scheduler.handOffUnlessFailed_live g live
    exact (Scheduler.handOffUnlessFailed_rests g _).blocksWait
      (Scheduler.rendezvousEnter_blocksWait h wait entered)
  | finish =>
    have entered : (Scheduler.finishEnter g me sched).1.aborted = false := by
      by_contra failed
      simp only [Scheduler.finish, if_pos (show (Scheduler.finishEnter g me sched).1.aborted = true by
        simpa using failed)] at live
      exact failed live
    obtain ⟨blocks, marked⟩ := Scheduler.finishEnter_blocksWait h entered
    rw [marked] at blocks
    exact (Scheduler.finish_rests g me sched).blocksWait blocks

variable [BEq V]

theorem blocksWait_run {n : Nat} (live : Live ((run env).state n)) :
    BlocksWait (((run env).state n).geometry env) ((run env).state n).sched := by
  induction n with
  | zero => exact blocksWait_of_start rfl
  | succ n ih =>
    rcases (run env).step_cases n with ⟨l, -, moved⟩ | ⟨-, stays⟩
    · obtain ⟨earlier, ⟨-, -, -, next⟩ | ⟨slot, current, resumed⟩⟩ := step_cases env moved
      · rw [next]
        exact blocksWait_of_start rfl
      · obtain ⟨before, r, operates, sched, -⟩ := resumed.operates
        have same : ((run env).state (n + 1)).geometry env = ((run env).state n).geometry env := by
          simp only [geometry, resumed.wave.2]
        rw [same, sched]
        refine operates.blocksWait ?_ (ih earlier)
        rw [← sched]
        exact live
    · rw [stays] at live ⊢
      exact ih live

/-- What a step reports counts threads that wait and threads that have returned. -/
theorem grounded_of_raised {n : Nat} {d : Diagnostic} (raised : RaisedAt env n d) :
    Grounded (((run env).state n).geometry env) d := by
  obtain ⟨slot, l, live, current, resumed⟩ := resumed_of_raised raised
  obtain ⟨pushed, grown, member⟩ := raised
  obtain ⟨before, r, operates, -, same, plain⟩ := resumed.operates
  obtain rfl := List.append_cancel_left (grown.symm.trans same)
  have wf := wellFormed live
  obtain ⟨inside, running⟩ := wf.running current
  have blocks := blocksWait_run live
  have waits := wf.waitsRecorded
  rcases List.mem_append.mp member with other | own
  · have unnamed := plain d other
    cases d with
    | barrierDivergence => cases unnamed
    | _ => trivial
  · cases operates with
    | none | abort => cases own
    | yield =>
      exact Scheduler.handOff_grounded
        (fun idle => (Detects.yieldNow idle).blames blocks waits inside running) own
    | barrier loc => exact Scheduler.barrier_grounded blocks waits inside running loc own
    | rendezvous joins => exact Scheduler.warpRendezvous_grounded blocks waits inside running _ own
    | finish => exact Scheduler.finish_grounded blocks waits inside running own

/-- Barrier reports are no false alarms, and a launch that is stuck has a warp to blame. While a
launch runs no block has a thread at its barrier and one that has returned; every barrier
divergence counts both kinds, of one block; and whenever the deadlock detector runs, a lane is
parked at a recorded collective, so that it reports warps, at least one, and no barrier. -/
theorem barrier_reports_grounded (env : Env V) :
    (∀ n, Live ((run env).state n) → ∀ i j,
      (((run env).state n).geometry env).blockOf i = (((run env).state n).geometry env).blockOf j →
      ¬ (((run env).state n).sched.status i = .atBarrier ∧
        ((run env).state n).sched.status j = .finished)) ∧
    (∀ n block waiting exited loc,
      RaisedAt env n (.barrierDivergence block waiting exited loc) →
      1 ≤ waiting ∧ 1 ≤ exited ∧ waiting + exited ≤ env.config.threadsPerBlock) ∧
    ∀ n slot t, Live ((run env).state n) → ((run env).state n).sched.current = some slot →
      Detects (((run env).state n).geometry env) slot ((run env).state n).sched t →
      (∃ i < (((run env).state n).geometry env).total,
        t.status i = .atWarp ∧ ∃ wait, t.warpWait i = some wait) ∧
      Scheduler.stuckReports (((run env).state n).geometry env) t ≠ [] ∧
      ∀ d ∈ Scheduler.stuckReports (((run env).state n).geometry env) t, d.missesLane = true := by
  refine ⟨fun n live i j block both => ?_, fun n block waiting exited loc raised => ?_,
    fun n slot t live current detects => ?_⟩
  · exact (blocksWait_run live).unmixed i j block both.1 both.2
  · exact grounded_of_raised raised
  · have wf := wellFormed live
    obtain ⟨inside, running⟩ := wf.running current
    obtain ⟨recorded, i, bound, parked⟩ :=
      detects.blames (blocksWait_run live) wf.waitsRecorded inside running
    exact ⟨⟨i, bound, parked, recorded i bound parked⟩,
      Scheduler.missesLane_of_stuckReports recorded bound parked⟩

/-- Lane 0 waits in a shuffle for lane 1, which waits at the barrier. -/
def crosswise : Env Nat :=
  trial .twoThreads
    (fun thread => if thread = 0 then [.warp ⟨3#32, ⟨"kernel.rs", 3, 5⟩, .shfl 1 0⟩]
      else [.syncThreads ⟨"kernel.rs", 5, 5⟩]) [0, 0, 1]

theorem barrier_reports_grounded_crosswise :
    ∃ t, Detects (((run crosswise).state 2).geometry crosswise) 1 ((run crosswise).state 2).sched t ∧
      ∃ i < 2, t.status i = .atWarp := by
  have stuck : Detects (((run crosswise).state 2).geometry crosswise) 1
      ((run crosswise).state 2).sched _ :=
    .barrier ⟨"kernel.rs", 5, 5⟩ (by set_option maxRecDepth 100000 in decide +kernel)
      (by set_option maxRecDepth 100000 in decide +kernel)
  obtain ⟨⟨i, bound, parked, -⟩, -⟩ := (barrier_reports_grounded crosswise).2.2 2 1 _
    (by unfold Live; set_option maxRecDepth 100000 in decide +kernel)
    (by set_option maxRecDepth 100000 in decide +kernel) stuck
  exact ⟨_, stuck, i, bound, parked⟩

end Launch

end Riri
