import Riri.Guarantees.DivergenceReports
import Riri.Run.Courses
import Riri.Run.Decisions
import Riri.Run.Programs

/-!
# Which lanes a report misses

A divergence is reported as soon as one lane the mask names is known to have returned, and every
lane that has not come by then is reported as missing, whether or not it still would have come.
So the missing lanes depend on the schedule. They do not where every lane the mask names has
returned or waits by the time of the report, or nobody can run any more, and where the lanes of
a warp call no two masks unevenly at one operation and location.
-/
namespace Riri

/-- Some lane the mask names calls the collective more often than another one that returns. -/
def Config.Uneven (c : Config) (course : Course) (block warp : Nat) (mask : Mask) (loc : Location)
    (op : WarpOp) : Prop :=
  ∃ t u, (t < c.threadsPerBlock ∧ t / c.warpSize = warp ∧ mask.names (t % c.warpSize) = true) ∧
    (u < c.threadsPerBlock ∧ u / c.warpSize = warp ∧ mask.names (u % c.warpSize) = true) ∧
    ∃ k n, (∀ j < k, course block t j ≠ .exit) ∧ course block u n = .exit ∧
      Nat.count (fun j => course block u j = .collective mask loc op) n <
        Nat.count (fun j => course block t j = .collective mask loc op) k

/-- Every other lane the mask names has returned or waits for the collective as well. -/
def Scheduler.Accounted (g : Geometry) (s : Scheduler.State) (i : Nat) (wait : WarpWait) : Prop :=
  ∀ p, Scheduler.Mate g i wait.mask p →
    s.status p = .finished ∨ (s.status p = .atWarp ∧ s.warpWait p = some wait)

namespace Launch

open Scheduler (Mate MadeFor Founded Promising Accounted arrivedMask names_arrivedMask)

variable {V : Type}

/-- A state of a wave whose threads are where meetings along their courses have led them. -/
structure Charted (env : Env V) (course : Course) (s : Launch V) : Prop where
  standing : Standing env s
  along : Along env course s
  reached : (s.meeting env course).Reached (s.position env)

variable {env : Env V} {course : Course} {s t : Launch V} {i q : Nat} {wait : WarpWait}

/-! ### A lane that waits for one that has returned -/

theorem Charted.returned (charted : Charted env course s) (inside : q < (s.geometry env).total)
    (gone : s.sched.status q = .finished) :
    s.position env q = 2 * (s.position env q / 2) ∧
      env.config.courseAt course s.firstBlock q (s.position env q / 2) = .exit := by
  have here := charted.standing.stage_of_returned charted.along inside gone
  have milestone : env.config.courseAt course s.firstBlock q (s.position env q / 2) = .exit := by
    simp only [meeting, Config.meeting] at here
    split at here <;> revert here <;>
      cases env.config.courseAt course s.firstBlock q (s.position env q / 2) <;>
      simp [Milestone.first, Milestone.second]
  refine ⟨?_, milestone⟩
  by_contra odd
  have member := charted.reached.member (i := q) (k := 2 * (s.position env q / 2)) (by omega)
  rw [meeting, Config.seq_even, milestone] at member
  exact member

/-- It waits in the first half, and calls the collective more often than the one that returned. -/
theorem Charted.uneven (charted : Charted env course s) (inside : i < (s.geometry env).total)
    (parked : s.sched.status i = .atWarp) (waits : s.sched.warpWait i = some wait)
    (mate : Mate (s.geometry env) i wait.mask q) (gone : s.sched.status q = .finished) :
    wait.phase = .arrive ∧ env.config.Uneven course (s.firstBlock + (s.geometry env).blockOf i)
      ((s.geometry env).warpOf i) wait.mask wait.loc wait.op := by
  obtain ⟨phase, mask, loc, op⟩ := wait
  obtain ⟨⟨block, warp⟩, named, -⟩ := mate
  have q_inside : q < (s.geometry env).total := by
    refine (s.geometry env).lt_total_of_blockOf ?_
    rw [block]
    exact (s.geometry env).blockOf_lt inside
  have own := charted.standing.names_own parked waits
  have here := charted.standing.stage_of_parked charted.along inside parked waits
  obtain ⟨at_, side⟩ := Config.of_seq_half here
  obtain ⟨even, exit⟩ := charted.returned q_inside gone
  have balanced : ∀ phase', (s.meeting env course).times i (.half ((s.geometry env).blockOf i)
      ((s.geometry env).warpOf i) ⟨phase', mask, loc, op⟩) (s.position env i) =
      Nat.count (fun j => env.config.courseAt course s.firstBlock q j = .collective mask loc op)
        (s.position env q / 2) := by
    intro phase'
    have here : i ∈ (s.meeting env course).members (.half ((s.geometry env).blockOf i)
        ((s.geometry env).warpOf i) ⟨phase', mask, loc, op⟩) := ⟨inside, rfl, rfl, own⟩
    have there : q ∈ (s.meeting env course).members (.half ((s.geometry env).blockOf i)
        ((s.geometry env).warpOf i) ⟨phase', mask, loc, op⟩) := ⟨q_inside, block, warp, named⟩
    rw [charted.reached.balanced _ here there, even, ← block, ← warp,
      Nat.mul_div_cancel_left _ Nat.two_pos]
    exact Config.times_half phase' _
  have times : ∀ phase', (s.meeting env course).times i (.half ((s.geometry env).blockOf i)
      ((s.geometry env).warpOf i) ⟨phase', mask, loc, op⟩) (2 * (s.position env i / 2)) =
      Nat.count (fun j => env.config.courseAt course s.firstBlock i j = .collective mask loc op)
        (s.position env i / 2) := fun phase' => Config.times_half phase' _
  have same_course : env.config.courseAt course s.firstBlock q =
      course (s.firstBlock + (s.geometry env).blockOf i) (q % env.config.threadsPerBlock) := by
    rw [← block]
    rfl
  rcases side with ⟨rfl, at_first⟩ | ⟨rfl, at_second⟩
  · refine ⟨rfl, i % env.config.threadsPerBlock, q % env.config.threadsPerBlock,
      ⟨Nat.mod_lt _ env.config.threads_pos, rfl, own⟩,
      ⟨Nat.mod_lt _ env.config.threads_pos, warp, named⟩, s.position env i / 2 + 1,
      s.position env q / 2, fun j lt => ?_, ?_, ?_⟩
    · intro left
      rcases Nat.lt_succ_iff_lt_or_eq.mp lt with before | rfl
      · have member := charted.reached.member (i := i) (k := 2 * j) (by omega)
        rw [meeting, Config.seq_even, show env.config.courseAt course s.firstBlock i j = .exit
          from left] at member
        exact member
      · cases at_.symm.trans left
    · rwa [same_course] at exit
    · have level := balanced .arrive
      rw [at_first, same_course, times] at level
      have more : Nat.count (fun j => env.config.courseAt course s.firstBlock i j =
          .collective mask loc op) (s.position env i / 2 + 1) = _ := Nat.count_succ ..
      rw [if_pos at_] at more
      exact lt_of_lt_of_le (Nat.lt_succ_of_le level.ge) more.ge
  -- In the second half it would have been at the first half once more than at the second.
  · have first := balanced .arrive
    have second := balanced .depart
    rw [at_second, Meeting.times_succ] at first second
    have at_arrive : (s.meeting env course).seq i (2 * (s.position env i / 2)) =
        .half ((s.geometry env).blockOf i) ((s.geometry env).warpOf i)
          ⟨.arrive, mask, loc, op⟩ := by
      rw [meeting, Config.seq_even, at_]
      rfl
    rw [at_arrive, if_pos rfl, times] at first
    rw [at_arrive, if_neg (by simp), times] at second
    omega

/-! ### Who is missing -/

variable (course) in
theorem mem_of_mate (inside : i < (s.geometry env).total)
    (mate : Mate (s.geometry env) i wait.mask q) :
    q ∈ (s.meeting env course).members
      (.half ((s.geometry env).blockOf i) ((s.geometry env).warpOf i) wait) := by
  obtain ⟨⟨block, warp⟩, named, -⟩ := mate
  refine mem_half.mpr ⟨(s.geometry env).lt_total_of_blockOf ?_, block, warp, named⟩
  rw [block]
  exact (s.geometry env).blockOf_lt inside

theorem Charted.stopped (charted : Charted env course s) (inside : q < (s.geometry env).total)
    (gone : s.sched.status q = .finished) :
    (s.meeting env course).Stopped (s.position env) q := by
  unfold Meeting.Stopped
  rw [charted.standing.stage_of_returned charted.along inside gone]
  exact id

/-- A thread that waits is not stopped by its own course. -/
theorem Charted.finished_of_stopped (charted : Charted env course s)
    (inside : q < (s.geometry env).total) (idle : s.sched.status q ≠ .runnable)
    (stopped : (s.meeting env course).Stopped (s.position env) q) :
    s.sched.status q = .finished := by
  unfold Meeting.Stopped at stopped
  rcases charted.standing.stage_of_idle charted.along inside idle with
    ⟨gone, -⟩ | ⟨-, at_⟩ | ⟨wait, parked, waits, at_⟩
  · exact gone
  · rw [at_] at stopped
    exact absurd (mem_barrier.mpr ⟨inside, rfl⟩) stopped
  · rw [at_] at stopped
    exact absurd (mem_half.mpr ⟨inside, rfl, rfl, charted.standing.names_own parked waits⟩) stopped

/-- Where every lane is accounted for, the collective is missed. -/
theorem Charted.missed (charted : Charted env course s) (inside : i < (s.geometry env).total)
    (parked : s.sched.status i = .atWarp) (waits : s.sched.warpWait i = some wait)
    (mate : Mate (s.geometry env) i wait.mask q) (gone : s.sched.status q = .finished)
    (accounted : Accounted (s.geometry env) s.sched i wait) :
    (s.meeting env course).Missed
      (.half ((s.geometry env).blockOf i) ((s.geometry env).warpOf i) wait) (s.position env) := by
  have member := mem_of_mate course inside mate
  refine ⟨⟨q, member, charted.stopped (mem_half.mp member).1 gone⟩, fun p here => ?_⟩
  obtain ⟨exists_, block, warp, named⟩ := mem_half.mp here
  by_cases own : p = i
  · subst own
    exact .inl (charted.standing.stage_of_parked charted.along inside parked waits)
  · rcases accounted p ⟨⟨block, warp⟩, named, own⟩ with left | ⟨parked, waits⟩
    · exact .inr (charted.stopped exists_ left)
    · refine .inl ?_
      rw [charted.standing.stage_of_parked charted.along exists_ parked waits, block, warp]

/-- Where nobody can run and the collective is missed, every lane is accounted for. -/
theorem Charted.accounted (charted : Charted env course s) (inside : i < (s.geometry env).total)
    (idle : ∀ p < (s.geometry env).total, s.sched.status p ≠ .runnable)
    (missed : (s.meeting env course).Missed
      (.half ((s.geometry env).blockOf i) ((s.geometry env).warpOf i) wait) (s.position env)) :
    Accounted (s.geometry env) s.sched i wait := by
  intro p mate
  have member := mem_of_mate course inside mate
  have exists_ := (mem_half.mp member).1
  rcases missed.rest p member with at_ | stopped
  · exact .inr (charted.standing.parked_of_stage charted.along exists_ (idle p exists_) at_)
  · exact .inl (charted.finished_of_stopped exists_ (idle p exists_) stopped)

/-- Where every lane is accounted for, the lanes that have not arrived have returned. -/
theorem Charted.arrived_iff (charted : Charted env course s) (inside : i < (s.geometry env).total)
    (parked : s.sched.status i = .atWarp) (waits : s.sched.warpWait i = some wait)
    (accounted : Accounted (s.geometry env) s.sched i wait) {p : Nat}
    (member : p ∈ (s.meeting env course).members
      (.half ((s.geometry env).blockOf i) ((s.geometry env).warpOf i) wait)) :
    (arrivedMask (s.geometry env) s.sched ((s.geometry env).blockOf i)
        ((s.geometry env).warpOf i) wait).names ((s.geometry env).laneOf p) = true ↔
      ¬ (s.meeting env course).Stopped (s.position env) p := by
  obtain ⟨exists_, block, warp, named⟩ := mem_half.mp member
  rw [Scheduler.names_arrivedMask_laneOf ⟨block, warp⟩]
  have here : s.sched.status p = .finished ∨
      (s.sched.status p = .atWarp ∧ s.sched.warpWait p = some wait) := by
    by_cases own : p = i
    · subst own
      exact .inr ⟨parked, waits⟩
    · exact accounted p ⟨⟨block, warp⟩, named, own⟩
  rcases here with gone | ⟨parked, waits⟩
  · have stopped := charted.stopped exists_ gone
    simp [gone, stopped]
  · have free : ¬ (s.meeting env course).Stopped (s.position env) p := by
      unfold Meeting.Stopped
      rw [charted.standing.stage_of_parked charted.along exists_ parked waits, block, warp]
      exact not_not.mpr member
    exact iff_of_true ⟨parked, wait, waits, rfl, rfl⟩ free

/-! ### Two states of one wave -/

/-- Nobody can run, and nobody waits for a lane that has returned. -/
structure Ended (env : Env V) (s : Launch V) : Prop where
  idle : ∀ p < (s.geometry env).total, s.sched.status p ≠ .runnable
  promising : Promising (s.geometry env) s.sched

theorem Charted.of_wave (charted : Charted env course t) (wave : t.firstBlock = s.firstBlock) :
    (s.meeting env course).Reached (t.position env) := by
  have reached := charted.reached
  rwa [meeting, wave] at reached

theorem Charted.stuck (charted : Charted env course t) (wave : t.firstBlock = s.firstBlock)
    (idle : ∀ p < (t.geometry env).total, t.sched.status p ≠ .runnable) :
    (s.meeting env course).Stuck (t.position env) := by
  have stuck := charted.standing.stuck charted.along idle
  rwa [meeting, wave] at stuck

/-- No lane waits for a returned lane in a wave that ends without such a lane. -/
theorem Charted.not_ended (here : Charted env course s) (there : Charted env course t)
    (wave : t.firstBlock = s.firstBlock) (ended : Ended env t)
    (inside : i < (s.geometry env).total) (parked : s.sched.status i = .atWarp)
    (waits : s.sched.warpWait i = some wait) (mate : Mate (s.geometry env) i wait.mask q)
    (gone : s.sched.status q = .finished) : False := by
  have same : t.geometry env = s.geometry env := by simp only [Launch.geometry, wave]
  have meets : t.meeting env course = s.meeting env course := by simp only [meeting, wave]
  have q_inside := (mem_half.mp (mem_of_mate course inside mate)).1
  have own := here.standing.names_own parked waits
  have at_i := here.standing.stage_of_parked here.along inside parked waits
  have at_q := here.standing.stage_of_returned here.along q_inside gone
  have reached := there.of_wave wave
  have le := here.reached.le_of_stuck reached (there.stuck wave ended.idle)
  obtain ⟨same_i, same_q⟩ := reached.eq_of_waits here.reached (le i) (le q)
    (mem_half.mpr ⟨inside, rfl, rfl, own⟩) (mem_of_mate course inside mate) at_i
    (here.stopped q_inside gone)
  rw [← same_i, ← meets] at at_i
  rw [← same_q, ← meets] at at_q
  rw [← same] at inside q_inside mate
  obtain ⟨still, recorded⟩ :=
    there.standing.parked_of_stage there.along inside (ended.idle i inside) at_i
  exact ended.promising i wait q still recorded mate
    (there.standing.returned_of_stage there.along q_inside (ended.idle q q_inside) at_q)

/-- Where nobody can run any more everybody stands where they do in every such state. -/
theorem Charted.same_status (here : Charted env course s) (there : Charted env course t)
    (wave : t.firstBlock = s.firstBlock)
    (idle : ∀ p < (s.geometry env).total, s.sched.status p ≠ .runnable)
    (idle' : ∀ p < (t.geometry env).total, t.sched.status p ≠ .runnable) {p : Nat}
    (inside : p < (s.geometry env).total) :
    t.sched.status p = s.sched.status p ∧
      (s.sched.status p = .atWarp → t.sched.warpWait p = s.sched.warpWait p) := by
  have same : t.geometry env = s.geometry env := by simp only [Launch.geometry, wave]
  have meets : t.meeting env course = s.meeting env course := by simp only [meeting, wave]
  have level : s.position env = t.position env :=
    here.reached.eq_of_stuck (there.of_wave wave) (here.stuck rfl idle) (there.stuck wave idle')
  have inside' : p < (t.geometry env).total := same ▸ inside
  have stage := here.standing.stage_of_idle here.along inside (idle p inside)
  rw [level, ← meets] at stage
  rcases stage with ⟨left, at_⟩ | ⟨left, at_⟩ | ⟨wait, left, waits, at_⟩
  · have right := there.standing.returned_of_stage there.along inside' (idle' p inside') at_
    exact ⟨right.trans left.symm, fun parked => by rw [left] at parked; cases parked⟩
  · have right := there.standing.waiting_of_stage there.along inside' (idle' p inside') at_
    exact ⟨right.trans left.symm, fun parked => by rw [left] at parked; cases parked⟩
  · obtain ⟨right, waits'⟩ :=
      there.standing.parked_of_stage there.along inside' (idle' p inside') at_
    exact ⟨right.trans left.symm, fun _ => waits'.trans waits.symm⟩

theorem idle_of_runnable (empty : Scheduler.runnable (s.geometry env) s.sched = []) :
    ∀ p < (s.geometry env).total, s.sched.status p ≠ .runnable := by
  intro p inside free
  have member := (Scheduler.mem_runnable (s.geometry env)).mpr ⟨inside, free⟩
  rw [empty] at member
  cases member

/-- A lane that waits for one that has returned, and whose report is due. -/
structure Forsaken (env : Env V) (s : Launch V) (i q : Nat) (wait : WarpWait) : Prop where
  inside : i < (s.geometry env).total
  parked : s.sched.status i = .atWarp
  waits : s.sched.warpWait i = some wait
  mate : Mate (s.geometry env) i wait.mask q
  gone : s.sched.status q = .finished
  due : Accounted (s.geometry env) s.sched i wait ∨
    Scheduler.runnable (s.geometry env) s.sched = []

/-- Lanes accounted for in one state are accounted for where nobody can run any more. -/
theorem Charted.accounted_of_idle (here : Charted env course s) (there : Charted env course t)
    (wave : t.firstBlock = s.firstBlock) {j r : Nat} (first : Forsaken env s i q wait)
    (second : Forsaken env t j r wait) (block : (s.geometry env).blockOf j = (s.geometry env).blockOf i)
    (warp : (s.geometry env).warpOf j = (s.geometry env).warpOf i)
    (accounted : Accounted (s.geometry env) s.sched i wait)
    (idle : Scheduler.runnable (t.geometry env) t.sched = []) :
    Accounted (t.geometry env) t.sched j wait := by
  have same : t.geometry env = s.geometry env := by simp only [Launch.geometry, wave]
  have meets : t.meeting env course = s.meeting env course := by simp only [meeting, wave]
  have idle := idle_of_runnable idle
  have missed := here.missed first.inside first.parked first.waits first.mate first.gone accounted
  refine there.accounted second.inside idle ?_
  rw [meets, same, block, warp]
  exact missed.of_stuck (there.of_wave wave) here.reached (there.stuck wave idle)

/-- Two reports of one collective count the same lanes of its mask as arrived. -/
theorem Charted.same_arrived (here : Charted env course s) (there : Charted env course t)
    (wave : t.firstBlock = s.firstBlock) {j r : Nat} (first : Forsaken env s i q wait)
    (second : Forsaken env t j r wait) (block : (s.geometry env).blockOf j = (s.geometry env).blockOf i)
    (warp : (s.geometry env).warpOf j = (s.geometry env).warpOf i) {l : Nat} (h : l < 32)
    (named : wait.mask.names l = true) :
    (arrivedMask (s.geometry env) s.sched ((s.geometry env).blockOf i)
        ((s.geometry env).warpOf i) wait).names l =
      (arrivedMask (s.geometry env) t.sched ((s.geometry env).blockOf i)
        ((s.geometry env).warpOf i) wait).names l := by
  have same : t.geometry env = s.geometry env := by simp only [Launch.geometry, wave]
  have meets : t.meeting env course = s.meeting env course := by simp only [meeting, wave]
  by_cases exists_ : l < (s.geometry env).lanesIn ((s.geometry env).warpOf i)
  · have both : (Accounted (s.geometry env) s.sched i wait ∧
          Accounted (t.geometry env) t.sched j wait) ∨
        (Scheduler.runnable (s.geometry env) s.sched = [] ∧
          Scheduler.runnable (t.geometry env) t.sched = []) := by
      rcases first.due with accounted | idle
      · rcases second.due with accounted' | idle'
        · exact .inl ⟨accounted, accounted'⟩
        · exact .inl ⟨accounted,
            here.accounted_of_idle there wave first second block warp accounted idle'⟩
      · rcases second.due with accounted' | idle'
        · refine .inl ⟨there.accounted_of_idle here wave.symm second first ?_ ?_ accounted' idle,
            accounted'⟩
          · rw [same, block]
          · rw [same, warp]
        · exact .inr ⟨idle, idle'⟩
    rcases both with ⟨accounted, accounted'⟩ | ⟨idle, idle'⟩
    · obtain ⟨p_block, p_warp, p_lane⟩ :=
        (s.geometry env).of_warpBase_add ((s.geometry env).blockOf i) exists_
      have member : (s.geometry env).warpBase ((s.geometry env).blockOf i)
          ((s.geometry env).warpOf i) + l ∈ (s.meeting env course).members
            (.half ((s.geometry env).blockOf i) ((s.geometry env).warpOf i) wait) := by
        refine mem_half.mpr ⟨(s.geometry env).lt_total_of_blockOf ?_, p_block, p_warp, ?_⟩
        · rw [p_block]
          exact (s.geometry env).blockOf_lt first.inside
        · rwa [p_lane]
      have missed := here.missed first.inside first.parked first.waits first.mate first.gone
        accounted
      have missed' := there.missed second.inside second.parked second.waits second.mate second.gone
        accounted'
      have arrived := here.arrived_iff first.inside first.parked first.waits accounted member
      have arrived' := fun member => there.arrived_iff second.inside second.parked second.waits
        accounted' (p := (s.geometry env).warpBase ((s.geometry env).blockOf i)
          ((s.geometry env).warpOf i) + l) member
      rw [meets, same, block, warp] at missed' arrived'
      rw [p_lane] at arrived arrived'
      have stopped := missed.stopped_iff here.reached (there.of_wave wave) missed' member
      rw [Bool.eq_iff_iff, arrived, arrived' member, stopped]
    · rw [Scheduler.arrivedMask_congr (s := t.sched) fun p mates => ?_]
      refine there.same_status here wave.symm (idle_of_runnable idle') (idle_of_runnable idle) ?_
      rw [same]
      refine (s.geometry env).lt_total_of_blockOf ?_
      rw [mates]
      exact (s.geometry env).blockOf_lt first.inside
  · have nobody : ∀ sched : Scheduler.State, (arrivedMask (s.geometry env) sched
        ((s.geometry env).blockOf i) ((s.geometry env).warpOf i) wait).names l = false := by
      intro sched
      rw [← Bool.not_eq_true, names_arrivedMask h]
      exact fun both => exists_ both.1
    rw [nobody, nobody]

theorem missing_eq {mask arrived arrived' : Mask}
    (h : ∀ l < 32, mask.names l = true → arrived.names l = arrived'.names l) :
    mask &&& ~~~arrived = mask &&& ~~~arrived' := by
  refine Mask.ext_names fun l lt => ?_
  rw [Mask.names_iff _ lt, Mask.names_iff _ lt, BitVec.getLsbD_and, BitVec.getLsbD_and,
    BitVec.getLsbD_not, BitVec.getLsbD_not]
  cases named : mask.getLsbD l with
  | false => simp
  | true =>
    have same := h l lt (by rw [Mask.names_iff _ lt, named])
    rw [Mask.names_iff _ lt, Mask.names_iff _ lt] at same
    rw [same]

/-- The lanes of a warp call at most one mask unevenly at one operation and location. -/
def Lone (c : Config) (course : Course) : Prop :=
  ∀ block warp mask mask' loc op, c.Uneven course block warp mask loc op →
    c.Uneven course block warp mask' loc op → mask = mask'

/-- When a lane is reported missing every lane of the mask is accounted for, or nobody can run. -/
def Due (env : Env V) (s : Launch V) (d : Diagnostic) : Prop :=
  ∀ i wait, MadeFor (s.geometry env) s.sched i wait d →
    Accounted (s.geometry env) s.sched i wait ∨ Scheduler.runnable (s.geometry env) s.sched = []

theorem agree_of_founded (lone : Lone env.config course) (here : Charted env course s)
    (there : Charted env course t) (wave : t.firstBlock = s.firstBlock) {block warp : Nat}
    {op : WarpOp} {mask mask' arrived arrived' : Mask} {loc : Location}
    (inside : block < (s.geometry env).blocks)
    (founded : Founded (s.geometry env) s.sched (.warpDivergence block warp op mask arrived loc))
    (founded' : Founded (t.geometry env) t.sched
      (.warpDivergence block warp op mask' arrived' loc))
    (due : Due env s (.warpDivergence block warp op mask arrived loc))
    (due' : Due env t (.warpDivergence block warp op mask' arrived' loc)) :
    mask = mask' ∧ mask &&& ~~~arrived = mask' &&& ~~~arrived' := by
  have same : t.geometry env = s.geometry env := by simp only [Launch.geometry, wave]
  rcases founded with ⟨i, wait, q, made, mate, gone⟩ | ⟨idle, promising, member⟩
  · have own := Diagnostic.warpDivergence.inj made.report
    have first : Forsaken env s i q wait :=
      ⟨(s.geometry env).lt_total_of_blockOf (own.1 ▸ inside), made.parked, made.waits, mate, gone,
        due i wait made⟩
    rcases founded' with ⟨j, wait', r, made', mate', gone'⟩ | ⟨idle', promising', -⟩
    · have other := Diagnostic.warpDivergence.inj made'.report
      have second : Forsaken env t j r wait' := by
        refine ⟨(t.geometry env).lt_total_of_blockOf ?_, made'.parked, made'.waits, mate', gone',
          due' j wait' made'⟩
        rw [← other.1, same]
        exact inside
      obtain ⟨phase, uneven⟩ := here.uneven first.inside first.parked first.waits mate gone
      obtain ⟨phase', uneven'⟩ := there.uneven second.inside second.parked second.waits mate' gone'
      rw [wave, same] at uneven'
      rw [same] at other
      obtain ⟨block_i, warp_i, op_i, mask_i, arrived_i, loc_i⟩ := own
      obtain ⟨block_j, warp_j, op_j, mask_j, arrived_j, loc_j⟩ := other
      rw [← block_i, ← warp_i, ← op_i, ← loc_i] at uneven
      rw [← block_j, ← warp_j, ← op_j, ← loc_j] at uneven'
      have masks := lone _ _ _ _ _ _ uneven uneven'
      obtain rfl : wait' = wait := by
        obtain ⟨p, m, l, o⟩ := wait
        obtain ⟨p', m', l', o'⟩ := wait'
        simp only at phase phase' masks op_i op_j loc_i loc_j
        rw [phase, phase', masks, ← op_i, ← op_j, ← loc_i, ← loc_j]
      refine ⟨mask_i.trans mask_j.symm, ?_⟩
      rw [mask_j, mask_i, arrived_i, arrived_j]
      refine missing_eq fun l lt named => ?_
      have block_eq := block_j.symm.trans block_i
      have warp_eq := warp_j.symm.trans warp_i
      rw [block_eq, warp_eq]
      exact here.same_arrived there wave first second block_eq warp_eq lt named
    · exact (here.not_ended there wave ⟨idle_of_runnable idle', promising'⟩ first.inside
        made.parked made.waits mate gone).elim
  · rcases founded' with ⟨j, wait', r, made', mate', gone'⟩ | ⟨idle', promising', member'⟩
    · have other := Diagnostic.warpDivergence.inj made'.report
      have inside' : j < (t.geometry env).total := by
        refine (t.geometry env).lt_total_of_blockOf ?_
        rw [← other.1, same]
        exact inside
      exact (there.not_ended here wave.symm ⟨idle_of_runnable idle, promising⟩ inside'
        made'.parked made'.waits mate' gone').elim
    · obtain ⟨-, found⟩ := Scheduler.stuckWarp_of_mem member
      obtain ⟨-, found'⟩ := Scheduler.stuckWarp_of_mem member'
      rw [same] at found'
      have agree : Scheduler.stuckWarp (s.geometry env) t.sched block warp =
          Scheduler.stuckWarp (s.geometry env) s.sched block warp :=
        Scheduler.stuckWarp_congr fun p mates => here.same_status there wave (idle_of_runnable idle)
          (idle_of_runnable idle') ((s.geometry env).lt_total_of_blockOf (mates ▸ inside))
      rw [agree, found] at found'
      obtain ⟨-, -, -, rfl, rfl, -⟩ := Diagnostic.warpDivergence.inj (Option.some.inj found')
      exact ⟨rfl, rfl⟩

/-- A wave that ended without a report has none. -/
theorem Charted.not_over (here : Charted env course s) (there : Charted env course t)
    (wave : t.firstBlock = s.firstBlock) {d : Diagnostic}
    (founded : Founded (s.geometry env) s.sched d)
    (made : MadeFor (s.geometry env) s.sched i wait d) (inside : i < (s.geometry env).total)
    (past : ∀ p < (t.geometry env).total, t.sched.status p = .finished)
    (promising : Promising (t.geometry env) t.sched) : False := by
  have same : t.geometry env = s.geometry env := by simp only [Launch.geometry, wave]
  have idle : ∀ p < (t.geometry env).total, t.sched.status p ≠ .runnable := by
    intro p exists_ free
    rw [past p exists_] at free
    cases free
  rcases founded with ⟨j, wait', q, made', mate, gone⟩ | ⟨nobody, -, -⟩
  · have block := (Diagnostic.warpDivergence.inj (made.report.symm.trans made'.report)).1
    have inside' : j < (s.geometry env).total := by
      refine (s.geometry env).lt_total_of_blockOf ?_
      rw [← block]
      exact (s.geometry env).blockOf_lt inside
    exact here.not_ended there wave ⟨idle, promising⟩ inside' made'.parked made'.waits mate gone
  · have still := (here.same_status there wave (idle_of_runnable nobody) idle inside).1
    rw [made.parked, past i (same ▸ inside)] at still
    cases still

/-! ### Reports of a run -/

section

variable [BEq V]

/-- Whatever the schedule, every thread goes along its course. -/
def Oblivious (env : Env V) (course : Course) : Prop :=
  ∀ choicesOf n, Along (env.choosing choicesOf) course ((run (env.choosing choicesOf)).state n)

theorem charted_run (along : ∀ n, Along env course ((run env).state n)) {n : Nat}
    (live : Live ((run env).state n)) : Charted env course ((run env).state n) :=
  ⟨standing_run live, along n, reached_run along live⟩

theorem charted_of_raised (along : ∀ n, Along env course ((run env).state n)) {n : Nat}
    {d : Diagnostic} (raised : RaisedAt env n d) (diverges : d.diverges = true) :
    Charted env course ((run env).state (n + 1)) := by
  obtain ⟨me, live, current, shifts, standing⟩ := shifts_of_raised raised diverges
  have running := (wellFormed live).running current
  exact ⟨standing, along (n + 1), shifts.reached (standing_run live) (along n) running.1 running.2
    (reached_run along live)⟩

/-- A launch that has left a wave has seen all its threads return. -/
theorem over_of_later {k v : Nat} (later : v < ((run env).state k).wave) :
    ∃ n, ((run env).state n).wave = v ∧ Live ((run env).state n) ∧
      ∀ p < (((run env).state n).geometry env).total,
        ((run env).state n).sched.status p = .finished := by
  induction k with
  | zero => cases later
  | succ k ih =>
    by_cases before : v < ((run env).state k).wave
    · exact ih before
    · rcases (run env).step_cases k with ⟨l, -, moved⟩ | ⟨-, stays⟩
      · obtain ⟨live, ⟨nobody, -, -, next⟩ | ⟨slot, -, resumed⟩⟩ := step_cases env moved
        · have wave : ((run env).state (k + 1)).wave = ((run env).state k).wave + 1 := by
            rw [next]
            rfl
          refine ⟨k, by omega, live, ?_⟩
          rcases (wellFormed live).turn with ⟨_, -, current, -⟩ | ⟨-, past⟩
          · rw [nobody] at current
            cases current
          · exact past
        · rw [resumed.wave.1] at later
          exact absurd later before
      · rw [stays] at later
        exact absurd later before

omit [BEq V] in
theorem Charted.of_choosing {choicesOf : Nat → Choices}
    (charted : Charted (env.choosing choicesOf) course s) : Charted env course s :=
  ⟨⟨charted.standing.settled, charted.standing.asked, charted.standing.named,
    charted.standing.waiting⟩, charted.along, charted.reached⟩

def AlwaysDue (env : Env V) : Prop :=
  ∀ n d, RaisedAt env n d → Due env ((run env).state (n + 1)) d

/-- Reports of two schedules on one block, warp, operation and location name the same mask and
the same missing lanes. -/
def SameMissing (env : Env V) (first second : Nat → Choices) : Prop :=
  ∀ n k block warp op mask mask' arrived arrived' loc,
    RaisedAt (env.choosing first) n (.warpDivergence block warp op mask arrived loc) →
    RaisedAt (env.choosing second) k (.warpDivergence block warp op mask' arrived' loc) →
    mask = mask' ∧ mask &&& ~~~arrived = mask' &&& ~~~arrived'

/-- A wave that is reported in one schedule is not left behind in another. -/
theorem wave_le_of_raised (oblivious : Oblivious env course) {first second : Nat → Choices}
    {n k block warp : Nat} {op : WarpOp} {mask arrived : Mask} {loc : Location}
    (raised : RaisedAt (env.choosing first) n (.warpDivergence block warp op mask arrived loc)) :
    ((run (env.choosing second)).state k).wave ≤ ((run (env.choosing first)).state (n + 1)).wave := by
  by_contra later
  obtain ⟨j, wave, live, past⟩ := over_of_later (Nat.lt_of_not_le later)
  obtain ⟨i, wait, inside, made⟩ := madeFor_of_raised raised
  have here := (charted_of_raised (oblivious first) raised rfl).of_choosing
  have there := (charted_run (oblivious second) live).of_choosing
  have same : ((run (env.choosing second)).state j).firstBlock =
      ((run (env.choosing first)).state (n + 1)).firstBlock := by
    rw [(numbered (env.choosing second) j).start, (numbered (env.choosing first) (n + 1)).start, wave]
    rfl
  exact here.not_over there same (founded_of_raised raised rfl) made inside past (promising_run live)

/-- Where every report is due and the lanes of a warp call at most one mask unevenly, the missing
lanes come from the code and not from the interleaving. -/
theorem sameMissing (env : Env V) (course : Course) (oblivious : Oblivious env course)
    (lone : Lone env.config course) (first second : Nat → Choices)
    (due : AlwaysDue (env.choosing first)) (due' : AlwaysDue (env.choosing second)) :
    SameMissing env first second := by
  intro n k block warp op mask mask' arrived arrived' loc raised raised'
  have wave : ((run (env.choosing second)).state (k + 1)).wave =
      ((run (env.choosing first)).state (n + 1)).wave :=
    le_antisymm (wave_le_of_raised oblivious raised) (wave_le_of_raised oblivious raised')
  have same : ((run (env.choosing second)).state (k + 1)).firstBlock =
      ((run (env.choosing first)).state (n + 1)).firstBlock := by
    rw [(numbered (env.choosing second) (k + 1)).start,
      (numbered (env.choosing first) (n + 1)).start, wave]
    rfl
  have here := (charted_of_raised (oblivious first) raised rfl).of_choosing
  have there := (charted_of_raised (oblivious second) raised' rfl).of_choosing
  obtain ⟨i, wait, inside, made⟩ := madeFor_of_raised raised
  have block_lt : block < (((run (env.choosing first)).state (n + 1)).geometry env).blocks := by
    rw [(Diagnostic.warpDivergence.inj made.report).1]
    exact Geometry.blockOf_lt _ inside
  exact agree_of_founded lone here there same block_lt (founded_of_raised raised rfl)
    (founded_of_raised raised' rfl) (due n _ raised) (due' k _ raised')

end

/-! ### Fixed programs -/

def courseOf (ops : Nat → Nat → List (Op V)) : Course := fun block thread k =>
  ((ops block thread).filterMap Op.milestone?)[k]?.getD .exit

theorem milestone_of_list (ops : List (Op V)) (n : Nat) {k : Nat} {m : Milestone}
    (found : ((List.range n).filterMap fun j => (ops.getD j .ret).milestone?)[k]? = some m) :
    (ops.filterMap Op.milestone?)[k]?.getD .exit = m := by
  induction ops generalizing n k with
  | nil =>
    have member := List.mem_of_getElem? found
    obtain ⟨j, -, same⟩ := List.mem_filterMap.mp member
    simpa [Op.milestone?] using same
  | cons o rest ih =>
    cases n with
    | zero => cases found
    | succ n =>
      rw [List.range_succ_eq_map, List.filterMap_cons, List.filterMap_map] at found
      cases first : o.milestone? with
      | none =>
        have later : ((List.range n).filterMap fun j => (rest.getD j .ret).milestone?)[k]? =
            some m := by simpa [first, Function.comp_def] using found
        simpa [List.filterMap_cons, first] using ih n later
      | some x =>
        cases k with
        | zero => simpa [List.filterMap_cons, first] using found
        | succ k =>
          have later : ((List.range n).filterMap fun j => (rest.getD j .ret).milestone?)[k]? =
              some m := by simpa [first, Function.comp_def] using found
          simpa [List.filterMap_cons, first] using ih n later

/-- Threads that run fixed lists keep to them, whatever the state. -/
theorem along_ofLists {ops : Nat → Nat → List (Op V)} (kernel : env.kernel = .ofLists ops)
    (s : Launch V) : Along env (courseOf ops) s := by
  intro i _ k m found
  refine milestone_of_list (ops (s.ctx env i).block (s.ctx env i).thread)
    ((s.threads i).answers.length + 1) ?_
  have concat := Kernel.milestones_concat env.kernel (s.ctx env i).block (s.ctx env i).thread
    (s.threads i).answers .unit
  rw [← found]
  congr 1
  refine Eq.trans ?_ concat
  unfold Kernel.milestones
  rw [List.length_append, List.length_singleton]
  refine List.filterMap_congr fun j member => ?_
  have lt := List.mem_range.mp member
  rw [kernel, Kernel.ofLists, List.length_take, List.length_append, List.length_singleton,
    Nat.min_eq_left (by omega)]

/-- Threads that run fixed lists are oblivious. -/
theorem oblivious_ofLists [BEq V] {ops : Nat → Nat → List (Op V)}
    (kernel : env.kernel = .ofLists ops) : Oblivious env (courseOf ops) := by
  intro choicesOf n
  have lists : (env.choosing choicesOf).kernel = .ofLists ops := kernel
  exact along_ofLists lists _

/-- Lane 1 returns, the others shuffle with every lane of their warp. -/
def strayOps (mask : Mask) (thread : Nat) : List (Op Nat) :=
  if thread = 1 then [] else [.warp ⟨mask, ⟨"kernel.rs", 7, 5⟩, .shfl 0 1⟩]

def straying : Env Nat := trial .threeThreads (strayOps 0b111) []

/-- Lane 1 returns when lane 0 has come, or when lane 2 has come as well. -/
theorem straying_disagrees :
    Oblivious straying (courseOf fun _ => strayOps 0b111) ∧
      ¬ SameMissing straying (fun _ => .replay [0, 0, 1] 0) (fun _ => .replay [0, 0, 2, 2, 1] 0) := by
  refine ⟨oblivious_ofLists rfl, fun same => ?_⟩
  have soon : RaisedAt (straying.choosing fun _ => .replay [0, 0, 1] 0) 2
      (.warpDivergence 0 0 .shflSync 0b111 0b001 ⟨"kernel.rs", 7, 5⟩) :=
    ⟨[_], by set_option maxRecDepth 100000 in decide +kernel, List.mem_singleton_self _⟩
  have late : RaisedAt (straying.choosing fun _ => .replay [0, 0, 2, 2, 1] 0) 4
      (.warpDivergence 0 0 .shflSync 0b111 0b101 ⟨"kernel.rs", 7, 5⟩) :=
    ⟨[_], by set_option maxRecDepth 100000 in decide +kernel, List.mem_singleton_self _⟩
  exact absurd (same _ _ _ _ _ _ _ _ _ _ soon late).2 (by decide)

/-- A launch that stops with every report made where nobody can run. -/
theorem alwaysDue_of_halted [BEq V] {N : Nat} (halted : (run env).Halted N)
    (due : ∀ n < N, ((run env).state (n + 1)).raised.length = ((run env).state n).raised.length ∨
      Scheduler.runnable (((run env).state (n + 1)).geometry env)
        ((run env).state (n + 1)).sched = []) : AlwaysDue env := by
  intro n d raised i wait _
  obtain ⟨pushed, grown, member⟩ := raised
  have more : ((run env).state (n + 1)).raised.length ≠ ((run env).state n).raised.length := by
    rw [grown, List.length_append]
    have some_pushed := List.length_pos_of_mem member
    omega
  by_cases before : n < N
  · exact .inr ((due n before).resolve_left more)
  · have stopped := ((run env).halted_mono halted (Nat.le_of_not_lt before)).1
    rw [(run env).state_succ_of_halted stopped] at more
    exact absurd rfl more

def deserted : Env Nat := trial .twoThreads (strayOps 0b11) []

theorem deserted_lone : Lone deserted.config (courseOf fun _ => strayOps 0b11) := by
  have only : ∀ block warp mask loc op, deserted.config.Uneven (courseOf fun _ => strayOps 0b11)
      block warp mask loc op → mask = 0b11 := by
    rintro block warp mask loc op ⟨t, u, -, -, k, n, -, -, less⟩
    by_contra other
    rw [Nat.count_of_forall_not (n := k) fun j _ calls => ?_] at less
    · cases less
    · simp only [courseOf, strayOps] at calls
      split at calls
      · cases calls
      · rcases j with _ | j <;> simp [Op.milestone?] at calls
        exact other calls.1.symm
  intro block warp mask mask' loc op uneven uneven'
  rw [only _ _ _ _ _ uneven, only _ _ _ _ _ uneven']

/-- Whether lane 1 returns before lane 0 comes or after, it alone is missing. -/
theorem sameMissing_deserted :
    SameMissing deserted (fun _ => .replay [0, 0, 1] 0) (fun _ => .replay [1, 0, 0] 0) := by
  refine sameMissing deserted (courseOf fun _ => strayOps 0b11) (oblivious_ofLists rfl)
    deserted_lone _ _ (alwaysDue_of_halted (N := 3) ?_ ?_) (alwaysDue_of_halted (N := 3) ?_ ?_)
  · rw [Machine.Halted, ← Option.isNone_iff_eq_none]
    set_option maxRecDepth 100000 in decide +kernel
  · set_option maxRecDepth 100000 in decide +kernel
  · rw [Machine.Halted, ← Option.isNone_iff_eq_none]
    set_option maxRecDepth 100000 in decide +kernel
  · set_option maxRecDepth 100000 in decide +kernel

end Launch

end Riri
