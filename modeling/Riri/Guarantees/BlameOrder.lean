import Riri.Guarantees.DivergenceReports
import Riri.Sched.Detector
import Riri.Guarantees.SchedulerProgress

/-!
# The warp before the barrier

A barrier behind a stuck warp is a consequence, not the cause, and the deadlock detector
reports it only if no warp is stuck. Two operations report a barrier on their own, before
anybody is stuck: a thread that comes to the barrier of a block somebody has left, and a
thread that leaves a block somebody waits for. Neither looks for a lane that waits for one of
the threads at the barrier.
-/
namespace Riri

def Diagnostic.barrierBlock? : Diagnostic → Option Nat
  | .barrierDivergence block _ _ _ => some block
  | _ => none

namespace Scheduler

variable {g : Geometry} {s : State} {me : Nat}

/-- A lane of the block is parked at a collective whose mask names a lane parked at the block's
barrier. -/
def Behind (g : Geometry) (s : State) (block : Nat) : Prop :=
  ∃ i j wait, g.blockOf i = block ∧ s.status i = .atWarp ∧ s.warpWait i = some wait ∧
    g.SameWarp j i ∧ wait.mask.names (g.laneOf j) = true ∧ s.status j = .atBarrier

theorem stuckWarp_eq_none_of_mem {block waiting exited : Nat} {loc : Location}
    (member : .barrierDivergence block waiting exited loc ∈ stuckReports g s) :
    block < g.blocks ∧ ∀ b < g.blocks, ∀ w < g.warpsPerBlock, stuckWarp g s b w = none := by
  unfold stuckReports at member
  dsimp only at member
  split at member
  · obtain ⟨b, -, in_block⟩ := List.mem_flatMap.mp member
    obtain ⟨w, -, found⟩ := List.mem_filterMap.mp in_block
    simp only [stuckWarp, Option.bind_eq_bind, Option.pure_def, Option.bind_eq_some_iff] at found
    obtain ⟨_, -, _, -, warps⟩ := found
    cases warps
  next silent =>
    obtain ⟨b, inside, found⟩ := List.mem_filterMap.mp member
    split at found
    · cases found
    · cases found
      refine ⟨List.mem_range.mp inside, fun b inside w warp => ?_⟩
      rw [not_not] at silent
      exact List.filterMap_eq_nil_iff.mp (List.flatMap_eq_nil_iff.mp silent b
        (List.mem_range.mpr inside)) w (List.mem_range.mpr warp)

/-- The detector reports a barrier only when no lane at all is parked at a collective. -/
theorem not_behind_of_stuckReports (waits : WaitsRecorded g s) {block waiting exited : Nat}
    {loc : Location} (member : .barrierDivergence block waiting exited loc ∈ stuckReports g s) :
    ¬ Behind g s block := by
  rintro ⟨i, -, -, rfl, parked, -⟩
  obtain ⟨inside, silent⟩ := stuckWarp_eq_none_of_mem member
  exact stuckWarp_ne_none g waits (g.lt_total_of_blockOf inside) parked
    (silent _ inside _ (g.warpOf_lt i))

/-- The detector reports every warp with a parked lane. -/
theorem warpDivergence_mem_stuckReports (waits : WaitsRecorded g s) {i : Nat} (inside : i < g.total)
    (parked : s.status i = .atWarp) :
    ∃ op mask arrived loc,
      .warpDivergence (g.blockOf i) (g.warpOf i) op mask arrived loc ∈ stuckReports g s := by
  obtain ⟨d, found⟩ := Option.ne_none_iff_exists'.mp (stuckWarp_ne_none g waits inside parked)
  have listed : d ∈ (List.range g.blocks).flatMap fun block =>
      (List.range g.warpsPerBlock).filterMap fun warp => stuckWarp g s block warp :=
    List.mem_flatMap.mpr ⟨_, List.mem_range.mpr (g.blockOf_lt inside),
      List.mem_filterMap.mpr ⟨_, List.mem_range.mpr (g.warpOf_lt i), found⟩⟩
  have reported : d ∈ stuckReports g s := by
    unfold stuckReports
    dsimp only
    rw [if_pos (List.ne_nil_of_mem listed)]
    exact listed
  simp only [stuckWarp, Option.bind_eq_bind, Option.pure_def, Option.bind_eq_some_iff] at found
  obtain ⟨first, -, wait, -, made⟩ := found
  cases made
  exact ⟨_, _, _, _, reported⟩

variable (g me) in
theorem barrier_blames (loc : Location) (live : s.aborted = false) :
    Quiet g (barrier g me loc s) ∨
      ((∃ i, g.blockOf i = g.blockOf me ∧ i ≠ me ∧ s.status i = .finished) ∧
        barrier g me loc s = fail (barrierParked g me loc s)
          (barrierReport g (barrierParked g me loc s) (g.blockOf me))) := by
  unfold barrier
  rcases barrierEnter_cases g me loc s with
    ⟨i, block, away, finished, enter⟩ | ⟨-, enter⟩ | ⟨-, -, enter⟩
  · rw [enter, barrierDivergence, handOffUnlessFailed_fail]
    exact .inr ⟨⟨i, block, away, finished⟩, rfl⟩
  · rw [enter]
    exact .inl (handOffUnlessFailed_quiet live)
  · rw [enter]
    exact .inl (handOffUnlessFailed_quiet live)

variable (g me) in
theorem warpRendezvous_blames (wait : WarpWait) (live : s.aborted = false) :
    Quiet g (warpRendezvous g me wait s) ∨
      ∃ d, d.barrierBlock? = none ∧
        warpRendezvous g me wait s = fail (rendezvousParked me wait s) d := by
  unfold warpRendezvous
  rcases rendezvousEnter_cases g me wait s with
    ⟨p, -, -, enter⟩ | ⟨-, p, other, -, enter⟩ | ⟨-, -, enter⟩ | ⟨-, -, -, enter⟩
  · rw [enter, handOffUnlessFailed_fail]
    exact .inr ⟨_, rfl, rfl⟩
  · rw [enter, handOffUnlessFailed_fail]
    exact .inr ⟨_, rfl, rfl⟩
  · rw [enter]
    exact .inl (handOffUnlessFailed_quiet live)
  · rw [enter]
    exact .inl (handOffUnlessFailed_quiet live)

variable (g me) in
theorem finish_blames (live : s.aborted = false) :
    Quiet g (finish g me s) ∨
      (∃ d, d.barrierBlock? = none ∧ finish g me s = fail (finishMarked me s) d) ∨
      ((∀ p wait, ¬ WaitsFor g s me p wait) ∧
        (∃ i, g.blockOf i = g.blockOf me ∧ i ≠ me ∧ s.status i = .atBarrier) ∧
        finish g me s = fail (finishMarked me s)
          (barrierReport g (finishMarked me s) (g.blockOf me))) := by
  rcases finishEnter_cases g me s with
    ⟨p, wait, -, enter⟩ | ⟨unwanted, waiting, enter⟩ | ⟨-, -, enter⟩
  · unfold finish
    rw [enter]
    exact .inr (.inl ⟨_, rfl, if_pos rfl⟩)
  · unfold finish
    rw [enter]
    exact .inr (.inr ⟨unwanted, waiting, by simp [barrierDivergence, fail]⟩)
  · exact .inl (finish_of_unwanted live enter)

end Scheduler

namespace Launch

open Scheduler (Behind WaitsFor)

variable {V : Type} [BEq V]

/-- The step at `n` finds nobody to hand the turn to and stops the launch. -/
def Deadlocks (env : Env V) (n : Nat) : Prop :=
  Live ((run env).state n) ∧ ((run env).state (n + 1)).sched.aborted = true ∧
    ((run env).state (n + 1)).sched.current = none

/-- No barrier is reported in a block with a lane that waits for somebody at the barrier, and
where nobody can run the warp of such a lane is reported. -/
def BlamesWarp (env : Env V) : Prop :=
  (∀ n d block, RaisedAt env n d → d.barrierBlock? = some block →
    ¬ Behind (((run env).state (n + 1)).geometry env) ((run env).state (n + 1)).sched block) ∧
  ∀ n i, Deadlocks env n → i < (((run env).state (n + 1)).geometry env).total →
    ((run env).state (n + 1)).sched.status i = .atWarp → ∃ op mask arrived loc,
      RaisedAt env n (.warpDivergence ((((run env).state (n + 1)).geometry env).blockOf i)
        ((((run env).state (n + 1)).geometry env).warpOf i) op mask arrived loc)

/-- What the thread in `me` must not meet: at a barrier, that somebody has left the block, and at
its return, that somebody waits at the barrier and no lane for `me`, while a lane of the
block waits for one at the barrier. -/
structure Unhidden (env : Env V) (s : Launch V) (me : Nat) : Prop where
  arrival : ∀ loc, s.nextOp env me = .syncThreads loc →
    (∃ i, (s.geometry env).blockOf i = (s.geometry env).blockOf me ∧ i ≠ me ∧
      s.sched.status i = .finished) →
    ¬ Behind (s.geometry env) (Scheduler.barrierParked (s.geometry env) me loc s.sched)
      ((s.geometry env).blockOf me)
  exit : s.nextOp env me = .ret → (∀ p wait, ¬ WaitsFor (s.geometry env) s.sched me p wait) →
    (∃ i, (s.geometry env).blockOf i = (s.geometry env).blockOf me ∧ i ≠ me ∧
      s.sched.status i = .atBarrier) →
    ¬ Behind (s.geometry env) (Scheduler.finishMarked me s.sched) ((s.geometry env).blockOf me)

/-- What a step reports of barriers: nothing, what the detector finds, or one of the two early
reports. -/
inductive Blames (env : Env V) (s : Launch V) (me : Nat) (s' : Launch V) (ds : List Diagnostic) :
    Prop
  | plain (plain : ∀ d ∈ ds, d.barrierBlock? = none)
      (turn : s'.sched.aborted = true → s'.sched.current ≠ none)
  | detected (before : List Diagnostic) (plain : ∀ d ∈ before, d.barrierBlock? = none)
      (reports : ds = before ++ Scheduler.stuckReports (s.geometry env) s'.sched)
  | arrival (pc : (s.threads me).pc = .ready) (loc : Location)
      (op : s.nextOp env me = .syncThreads loc)
      (left : ∃ i, (s.geometry env).blockOf i = (s.geometry env).blockOf me ∧ i ≠ me ∧
        s.sched.status i = .finished)
      (outcome : (s'.sched, ds) = Scheduler.barrierDivergence (s.geometry env)
        (Scheduler.barrierParked (s.geometry env) me loc s.sched) ((s.geometry env).blockOf me))
  | exit (pc : (s.threads me).pc = .ready) (op : s.nextOp env me = .ret)
      (unwanted : ∀ p wait, ¬ WaitsFor (s.geometry env) s.sched me p wait)
      (waiting : ∃ i, (s.geometry env).blockOf i = (s.geometry env).blockOf me ∧ i ≠ me ∧
        s.sched.status i = .atBarrier)
      (outcome : (s'.sched, ds) = Scheduler.barrierDivergence (s.geometry env)
        (Scheduler.finishMarked me s.sched) ((s.geometry env).blockOf me))

variable {env : Env V}

omit [BEq V] in
/-- A scheduler operation that either hands off or fails with a report of its own. -/
theorem Blames.of_quiet {s s' t : Launch V} {me : Nat} {before : List Diagnostic}
    {r : Scheduler.Outcome} (quiet : Scheduler.Quiet (s.geometry env) r) (sched : s' = t.withSched r)
    (plain : ∀ d ∈ before, d.barrierBlock? = none) : Blames env s me s' (before ++ r.2) := by
  subst sched
  rcases quiet with ⟨live, silent⟩ | detected
  · refine .plain (fun d member => ?_) fun stopped => ?_
    · rw [silent, List.append_nil] at member
      exact plain d member
    · rw [show (t.withSched r).sched.aborted = false from live] at stopped
      cases stopped
  · exact .detected before plain (by rw [detected.reports]; rfl)

theorem Resumed.blames {s s' : Launch V} {me : Nat} {l : Label V}
    (resumed : Resumed env s me l s') (live : Live s) (current : s.sched.current = some me) :
    ∃ ds, s'.raised = s.raised ++ ds ∧ Blames env s me s' ds := by
  have nothing : ∀ d ∈ ([] : List Diagnostic), d.barrierBlock? = none := fun d none => by cases none
  have holds : s'.sched.current = some me → s'.sched.aborted = true → s'.sched.current ≠ none := by
    intro held _
    simp [held]
  cases resumed with
  | finish pc op =>
    refine ⟨_, rfl, ?_⟩
    rcases Scheduler.finish_blames (s.geometry env) me live with
      quiet | ⟨d, other, failed⟩ | ⟨unwanted, waiting, failed⟩
    · exact .of_quiet quiet rfl nothing
    · rw [failed] at holds ⊢
      exact .plain (by simpa [Scheduler.fail] using other) (holds current)
    · rw [failed]
      exact .exit pc op unwanted waiting rfl
  | arrive pc loc op =>
    refine ⟨_, rfl, ?_⟩
    rcases Scheduler.barrier_blames (s.geometry env) me loc live with
      quiet | ⟨left, failed⟩
    · exact .of_quiet quiet rfl nothing
    · rw [failed]
      exact .arrival pc loc op left rfl
  | yieldAccess | yieldCollective =>
    exact ⟨_, rfl, .of_quiet (Scheduler.handOff_quiet live) rfl nothing⟩
  | publish c =>
    refine ⟨_, rfl, ?_⟩
    rcases Scheduler.warpRendezvous_blames (s.geometry env) me (c.wait .arrive) live with
      quiet | ⟨d, other, failed⟩
    · exact .of_quiet quiet rfl nothing
    · rw [failed] at holds ⊢
      exact .plain (by simpa [Scheduler.fail] using other) (holds current)
  | exchange c pc answer problems =>
    refine ⟨laneReports (s.ctx env me) c problems ++ _, List.append_assoc .., ?_⟩
    have lanes : ∀ d ∈ laneReports (s.ctx env me) c problems, d.barrierBlock? = none := by
      intro d member
      obtain ⟨problem, -, rfl⟩ := List.mem_map.mp member
      rfl
    rcases Scheduler.warpRendezvous_blames (s.geometry env) me (c.wait .depart) live with
      quiet | ⟨d, other, failed⟩
    · exact .of_quiet quiet rfl lanes
    · rw [failed] at holds ⊢
      refine .plain (fun e member => ?_) (holds current)
      rcases List.mem_append.mp member with earlier | last
      · exact lanes e earlier
      · rwa [List.mem_singleton.mp last]
  | access m pc new resp =>
    refine ⟨_, rfl, .plain (fun d member => ?_) (holds current)⟩
    rcases List.mem_append.mp member with uninit | race
    · split at uninit
      · rw [List.mem_singleton.mp uninit]
        rfl
      · cases uninit
    · obtain ⟨first, -, rfl⟩ := List.mem_map.mp race
      rfl
  | panic | overflow | outOfBounds | refuse | mistyped =>
    exact ⟨[_], rfl, .plain (fun d member => by rw [List.mem_singleton.mp member]; rfl)
      (holds current)⟩
  | fence | miss | depart | leave =>
    exact ⟨[], (List.append_nil _).symm, .plain nothing (holds current)⟩

/-! ### Along a run -/

theorem waitsRecorded_of_shifts {n me : Nat} (live : Live ((run env).state n))
    (current : ((run env).state n).sched.current = some me)
    (shifts : Shifts env ((run env).state n) me ((run env).state (n + 1))) :
    Scheduler.WaitsRecorded (((run env).state n).geometry env) ((run env).state (n + 1)).sched := by
  have standing := shifts.standing (standing_run live) ((wellFormed live).running current).2
  intro i _ parked
  obtain ⟨wait, -, recorded⟩ := (standing.settled i).waits_of_atWarp parked
  exact ⟨wait, recorded⟩

/-- Where no early report is made on a lane's back, none blames the barrier for a warp. -/
theorem not_behind_of_unhidden {n block : Nat} {d : Diagnostic}
    (unhidden : ∀ n me, Live ((run env).state n) → ((run env).state n).sched.current = some me →
      (((run env).state n).threads me).pc = .ready → Unhidden env ((run env).state n) me)
    (raised : RaisedAt env n d) (about : d.barrierBlock? = some block) :
    ¬ Behind (((run env).state (n + 1)).geometry env) ((run env).state (n + 1)).sched block := by
  cases d with
  | barrierDivergence blamed waiting exited loc =>
    obtain rfl : blamed = block := Option.some.inj about
    obtain ⟨me, live, current, shifts, -⟩ := shifts_of_raised raised rfl
    have recorded := waitsRecorded_of_shifts live current shifts
    obtain ⟨_, l, _, here, resumed⟩ := resumed_of_raised raised
    obtain rfl := Option.some.inj (current.symm.trans here)
    obtain ⟨pushed, grown, member⟩ := raised
    obtain ⟨ds, raised, blames⟩ := resumed.blames live current
    obtain rfl := List.append_cancel_left (grown.symm.trans raised)
    rw [shifts.geometry]
    cases blames with
    | plain plain _ =>
      cases plain _ member
    | detected before plain reports =>
      rw [reports] at member
      rcases List.mem_append.mp member with earlier | found
      · cases plain _ earlier
      · exact Scheduler.not_behind_of_stuckReports recorded found
    | arrival pc loc' op left outcome =>
      obtain ⟨sched, rfl⟩ := Prod.mk.inj outcome
      have same := List.mem_singleton.mp member
      obtain rfl : blamed = _ := (Diagnostic.barrierDivergence.inj same).1
      rw [sched]
      exact (unhidden n me live current pc).arrival loc' op left
    | exit pc op unwanted waits outcome =>
      obtain ⟨sched, rfl⟩ := Prod.mk.inj outcome
      have same := List.mem_singleton.mp member
      obtain rfl : blamed = _ := (Diagnostic.barrierDivergence.inj same).1
      rw [sched]
      exact (unhidden n me live current pc).exit op unwanted waits
  | _ => cases about

/-- In a deadlock every warp with a parked lane is reported. -/
theorem warp_reported_of_deadlock {n i : Nat} (stuck : Deadlocks env n)
    (inside : i < (((run env).state (n + 1)).geometry env).total)
    (parked : ((run env).state (n + 1)).sched.status i = .atWarp) :
    ∃ op mask arrived loc,
      RaisedAt env n (.warpDivergence ((((run env).state (n + 1)).geometry env).blockOf i)
        ((((run env).state (n + 1)).geometry env).warpOf i) op mask arrived loc) := by
  obtain ⟨live, aborted, nobody⟩ := stuck
  rcases (run env).step_cases n with ⟨l, -, moved⟩ | ⟨-, stays⟩
  · obtain ⟨-, ⟨-, more, -, next⟩ | ⟨me, current, resumed⟩⟩ := step_cases env moved
    · have fresh := (nextWave_wellFormed more).1
      rw [next, show (((run env).state n).nextWave env).sched.aborted = false from fresh] at aborted
      cases aborted
    · have held : ((run env).state (n + 1)).sched.current ≠ some me := by simp [nobody]
      rcases resumed.shifts with shifts | stops
      · have recorded := waitsRecorded_of_shifts live current shifts
        rw [shifts.geometry] at inside ⊢
        obtain ⟨op, mask, arrived, loc, found⟩ :=
          Scheduler.warpDivergence_mem_stuckReports recorded inside parked
        obtain ⟨ds, raised, blames⟩ := resumed.blames live current
        refine ⟨op, mask, arrived, loc, ds, raised, ?_⟩
        cases blames with
        | plain _ turn => exact absurd nobody (turn aborted)
        | detected before _ reports =>
          rw [reports]
          exact List.mem_append_right before found
        | arrival _ _ _ _ outcome =>
          rw [(Prod.mk.inj outcome).1] at held
          exact absurd current held
        | exit _ _ _ _ outcome =>
          rw [(Prod.mk.inj outcome).1] at held
          exact absurd current held
      · rw [stops.current] at held
        exact absurd current held
  · rw [stays, live] at aborted
    cases aborted

/-- An arrival at the barrier of a block that somebody has left. -/
theorem raisedAt_of_arrival {n me : Nat} {loc : Location} (live : Live ((run env).state n))
    (current : ((run env).state n).sched.current = some me)
    (pc : (((run env).state n).threads me).pc = .ready)
    (op : ((run env).state n).nextOp env me = .syncThreads loc)
    (left : ∃ i, (((run env).state n).geometry env).blockOf i =
      (((run env).state n).geometry env).blockOf me ∧ i ≠ me ∧
        ((run env).state n).sched.status i = .finished) :
    let g := ((run env).state n).geometry env
    let parked := Scheduler.barrierParked g me loc ((run env).state n).sched
    RaisedAt env n (Scheduler.barrierReport g parked (g.blockOf me)) ∧
      ((run env).state (n + 1)).sched = { parked with aborted := true } ∧
      ((run env).state (n + 1)).geometry env = g := by
  intro g parked
  have enter : Scheduler.barrierEnter g me loc ((run env).state n).sched =
      Scheduler.barrierDivergence g parked (g.blockOf me) := by
    rcases Scheduler.barrierEnter_cases g me loc ((run env).state n).sched with
      ⟨i, -, -, -, enter⟩ | ⟨everyone, -⟩ | ⟨alive, -⟩
    · exact enter
    · obtain ⟨i, block, away, finished⟩ := left
      rw [everyone i block away] at finished
      cases finished
    · obtain ⟨i, block, away, finished⟩ := left
      exact absurd finished (alive i block away)
  have outcome : Scheduler.barrier g me loc ((run env).state n).sched =
      Scheduler.barrierDivergence g parked (g.blockOf me) := by
    rw [Scheduler.barrier, enter, Scheduler.barrierDivergence, Scheduler.handOffUnlessFailed_fail]
  have next := (run env).state_succ_of_next (step_of_ready env live current pc op)
  have after : (run env).state (n + 1) = (((run env).state n).barrierEntered env me).withSched
      (Scheduler.barrierDivergence g parked (g.blockOf me)) := by
    rw [next, ← outcome]
    rfl
  rw [after]
  exact ⟨⟨[_], by rw [after]; rfl, List.mem_singleton_self _⟩, rfl, rfl⟩

/-- A return from a block that somebody waits in. -/
theorem raisedAt_of_exit {n me : Nat} (live : Live ((run env).state n))
    (current : ((run env).state n).sched.current = some me)
    (pc : (((run env).state n).threads me).pc = .ready)
    (op : ((run env).state n).nextOp env me = .ret)
    (unwanted : ∀ p wait, ¬ WaitsFor (((run env).state n).geometry env) ((run env).state n).sched
      me p wait)
    (waiting : ∃ i, (((run env).state n).geometry env).blockOf i =
      (((run env).state n).geometry env).blockOf me ∧ i ≠ me ∧
        ((run env).state n).sched.status i = .atBarrier) :
    let g := ((run env).state n).geometry env
    let marked := Scheduler.finishMarked me ((run env).state n).sched
    RaisedAt env n (Scheduler.barrierReport g marked (g.blockOf me)) ∧
      ((run env).state (n + 1)).sched = { marked with aborted := true } ∧
      ((run env).state (n + 1)).geometry env = g := by
  intro g marked
  have outcome : Scheduler.finish g me ((run env).state n).sched =
      Scheduler.barrierDivergence g marked (g.blockOf me) := by
    unfold Scheduler.finish
    rcases Scheduler.finishEnter_cases g me ((run env).state n).sched with
      ⟨p, wait, waits, -⟩ | ⟨-, -, enter⟩ | ⟨-, alone, -⟩
    · exact absurd waits (unwanted p wait)
    · rw [enter]
      exact if_pos rfl
    · obtain ⟨i, block, away, parked⟩ := waiting
      exact absurd parked (alone i block away)
  have next := (run env).state_succ_of_next (step_of_ready env live current pc op)
  have after : (run env).state (n + 1) = ((run env).state n).withSched
      (Scheduler.barrierDivergence g marked (g.blockOf me)) := by
    rw [next, ← outcome]
    rfl
  rw [after]
  exact ⟨⟨[_], by rw [after]; rfl, List.mem_singleton_self _⟩, rfl, rfl⟩

/-- The warp is blamed and not the barrier behind it, in every state of a run, exactly if no
thread that comes to a barrier or leaves its block makes the early report while a lane of the
block waits for one at the barrier. -/
theorem blamesWarp_iff (env : Env V) :
    BlamesWarp env ↔ ∀ n me, Live ((run env).state n) →
      ((run env).state n).sched.current = some me →
      (((run env).state n).threads me).pc = .ready → Unhidden env ((run env).state n) me := by
  constructor
  · rintro ⟨never, -⟩ n me live current pc
    constructor
    · intro loc op left
      obtain ⟨raised, sched, same⟩ := raisedAt_of_arrival live current pc op left
      have free := never n _ _ raised rfl
      rw [sched, same] at free
      exact free
    · intro op unwanted waiting
      obtain ⟨raised, sched, same⟩ := raisedAt_of_exit live current pc op unwanted waiting
      have free := never n _ _ raised rfl
      rw [sched, same] at free
      exact free
  · intro unhidden
    exact ⟨fun n d block raised about => not_behind_of_unhidden unhidden raised about,
      fun n i stuck inside parked => warp_reported_of_deadlock stuck inside parked⟩

/-- Lane 0 waits for lane 1 at a shuffle, lane 1 comes to a barrier, lane 2 has returned. -/
def hidden : Env Nat :=
  trial .threeThreads
    (fun thread => if thread = 0 then [.warp ⟨0b011, ⟨"kernel.rs", 7, 5⟩, .shfl 1 0⟩]
      else if thread = 1 then [.syncThreads ⟨"kernel.rs", 9, 5⟩] else [])
    [2, 0, 0, 1]

/-- The barrier is reported, although lane 1 will never reach the shuffle. -/
theorem hidden_blamed : ¬ BlamesWarp hidden := by
  rintro ⟨never, -⟩
  have raised : RaisedAt hidden 3 (.barrierDivergence 0 1 1 ⟨"kernel.rs", 9, 5⟩) :=
    ⟨[_], by set_option maxRecDepth 100000 in decide +kernel, List.mem_singleton_self _⟩
  refine never 3 _ 0 raised rfl ⟨0, 1, ⟨.arrive, 0b011, ⟨"kernel.rs", 7, 5⟩, .shflSync⟩, ?_⟩
  refine ⟨rfl, ?_, ?_, ⟨rfl, rfl⟩, rfl, ?_⟩
  all_goals set_option maxRecDepth 100000 in decide +kernel

end Launch

end Riri
