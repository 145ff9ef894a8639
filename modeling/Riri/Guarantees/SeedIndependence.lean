import Riri.Run.Decisions
import Riri.Run.Programs
import Riri.Run.Waves
import Riri.Source.Explore

/-!
# What a replay takes from the seed

A schedule drives the first wave only; each later wave draws from a generator seeded with the
launch's seed and its own number. Two replays that differ in the seed are the same run up to
the end of the first wave, and after it as long as there is nothing left to decide.
-/
namespace Riri.Launch

variable {V : Type} [BEq V] {env : Env V}

def Returns (env : Env V) (r : Replayed V) : Prop :=
  ∃ n, (run env).Halted n ∧ ((run env).state n).replayed = r

/-- A launch has one result. -/
theorem Returns.unique {r r' : Replayed V} (first : Returns env r) (second : Returns env r') :
    r = r' := by
  obtain ⟨n, halted, rfl⟩ := first
  obtain ⟨m, halted', rfl⟩ := second
  rcases Nat.le_total n m with le | le
  · rw [((run env).halted_mono halted le).2]
  · rw [((run env).halted_mono halted' le).2]

/-- In these sizes every wave after the first has a single thread, if there is one. -/
def LaterSingle (c : Config) : Prop :=
  ∀ wave, 0 < wave → wave * c.residentBlocks < c.blocks →
    (c.geometry (wave * c.residentBlocks)).total ≤ 1

/-! ### Lock step -/

/-- Two launches at one time: the same state up to the source of decisions, which is the same
too while the first wave runs. -/
structure LockStep (s t : Launch V) : Prop where
  alike : ∃ c, t = s.choosing c
  first : s.wave = 0 → t = s

omit [BEq V] in
theorem LockStep.refl (s : Launch V) : LockStep s s := ⟨⟨s.sched.choices, rfl⟩, fun _ => rfl⟩

omit [BEq V] in
/-- A wave of one thread starts alike whatever decides in it. -/
theorem nextWave_choosing {other : Nat → Choices} {s : Launch V} {c : Choices}
    (single : (env.config.geometry (s.nextWave env).firstBlock).total ≤ 1) :
    ∃ c', (s.choosing c).nextWave (env.choosing other) = (s.nextWave env).choosing c' := by
  obtain ⟨c', same, -⟩ := (Scheduler.Alike.ofSingle _ single).picks
    (Scheduler.unstarted (env.choicesOf (s.wave + 1))) (other (s.wave + 1)) trivial trivial
  exact ⟨c', congrArg (fun sched => { s.nextWave env with sched := sched }) same⟩

/-- Either neither launch moves, or both do and stay in lock step. -/
theorem LockStep.step {other : Nat → Choices} {s t : Launch V} (lock : LockStep s t)
    (numbered : Numbered env s) (single : LaterSingle env.config) :
    (s.step env = none ∧ t.step (env.choosing other) = none) ∨
      ∃ l s' t', s.step env = some (l, s') ∧ t.step (env.choosing other) = some (l, t') ∧
        LockStep s' t' := by
  obtain ⟨c, rfl⟩ := lock.alike
  cases stopped : s.sched.aborted with
  | true =>
    have stopped' : (s.choosing c).sched.aborted = true := stopped
    exact .inl ⟨by simp [Launch.step, stopped], by simp [Launch.step, stopped']⟩
  | false =>
    have running : (s.choosing c).sched.aborted = false := stopped
    cases current : s.sched.current with
    | none =>
      have current' : (s.choosing c).sched.current = none := current
      by_cases more : s.firstBlock + env.config.waveBlocks s.firstBlock < env.config.blocks
      · have next := numbered.nextWave more
        have later := single (s.wave + 1) (Nat.succ_pos _) (by
          have inside := next.inside
          rwa [next.start] at inside)
        rw [← show (s.nextWave env).firstBlock = (s.wave + 1) * env.config.residentBlocks from
          next.start] at later
        refine .inr ⟨.nextWave, s.nextWave env, (s.choosing c).nextWave (env.choosing other),
          ?_, ?_, nextWave_choosing later, fun first => absurd first (Nat.succ_ne_zero _)⟩
        · simp [Launch.step, stopped, current, more]
        · have more' : (s.choosing c).firstBlock +
              (env.choosing other).config.waveBlocks (s.choosing c).firstBlock <
                (env.choosing other).config.blocks := more
          simp [Launch.step, running, current', more']
      · have ended : ¬ (s.choosing c).firstBlock +
            (env.choosing other).config.waveBlocks (s.choosing c).firstBlock <
              (env.choosing other).config.blocks := more
        exact .inl ⟨by simp [Launch.step, stopped, current, more],
          by simp [Launch.step, running, current', ended]⟩
    | some slot =>
      have current' : (s.choosing c).sched.current = some slot := current
      have moved : s.step env = some (s.resume env slot) := by simp [Launch.step, stopped, current]
      have moved' : (s.choosing c).step (env.choosing other) =
          some ((s.choosing c).resume (env.choosing other) slot) := by
        simp [Launch.step, running, current']
      have wave := (resume_resumed env s slot).wave.1
      by_cases first : s.wave = 0
      · have same := lock.first first
        rw [same] at moved' ⊢
        exact .inr ⟨_, _, _, moved, (step_of_current current).trans moved, .refl _⟩
      · have later : (s.geometry env).total ≤ 1 := by
          have inside := numbered.inside
          rw [numbered.start] at inside
          have := single s.wave (Nat.pos_of_ne_zero first) inside
          rwa [← numbered.start] at this
        obtain ⟨c', same, -⟩ : StepsAlike (Scheduler.Alike.ofSingle _ later) (s.resume env slot)
            ((s.choosing c).resume (env.choosing other) slot) := resume_choosing _ trivial trivial
        rw [same] at moved'
        exact .inr ⟨_, _, _, moved, moved', ⟨c', rfl⟩, fun zero => absurd (wave ▸ zero) first⟩

section

variable {other : Nat → Choices} (begin : other 0 = env.choicesOf 0)
include begin

omit [BEq V] in
theorem init_choosing : init (env.choosing other) = init env := by
  unfold init start
  rw [show (env.choosing other).choicesOf 0 = env.choicesOf 0 from begin]
  rfl

/-- Up to the end of the first wave the two runs are the same. -/
theorem state_first {n : Nat} (first : ((run env).state n).wave = 0) :
    (run (env.choosing other)).state n = (run env).state n := by
  induction n with
  | zero => exact init_choosing begin
  | succ n ih =>
    have before : ((run env).state n).wave = 0 := Nat.le_zero.mp (first ▸ wave_mono (Nat.le_succ n))
    have same := ih before
    rcases (run env).step_cases n with ⟨l, -, moved⟩ | ⟨idle, stays⟩
    · obtain ⟨-, ⟨-, -, -, next⟩ | ⟨slot, current, -⟩⟩ := step_cases env moved
      · rw [next] at first
        exact absurd first (Nat.succ_ne_zero _)
      · have moved' : ((run (env.choosing other)).state n).step (env.choosing other) =
            some (l, (run env).state (n + 1)) := by
          rw [same]
          exact (step_of_current current).trans moved
        exact (run (env.choosing other)).state_succ_of_next moved'
    · have stopped : ((run env).state n).step env = none := (run env).label_eq_none_iff.mp idle
      rw [stays, (run (env.choosing other)).state_succ_of_halted, same]
      rw [Machine.Halted, same]
      exact step_of_over stopped

/-- With single threads after the first wave the two runs stay in lock step throughout. -/
theorem lockStep_state (single : LaterSingle env.config) (n : Nat) :
    LockStep ((run env).state n) ((run (env.choosing other)).state n) := by
  induction n with
  | zero =>
    rw [show (run (env.choosing other)).state 0 = (run env).state 0 from init_choosing begin]
    exact .refl _
  | succ n ih =>
    rcases ih.step (numbered env n) single with ⟨idle, idle'⟩ | ⟨l, s', t', moved, moved', next⟩
    · rw [(run env).state_succ_of_halted idle, (run (env.choosing other)).state_succ_of_halted idle']
      exact ih
    · rw [(run env).state_succ_of_next moved, (run (env.choosing other)).state_succ_of_next moved']
      exact next

end

/-- Launches in lock step end together, with the same result. -/
theorem LockStep.returns {env' : Env V}
    (lock : ∀ n, LockStep ((run env).state n) ((run env').state n))
    (together : ∀ n, (run env).Halted n ↔ (run env').Halted n) (r : Replayed V) :
    Returns env r ↔ Returns env' r := by
  have same : ∀ n, ((run env').state n).replayed = ((run env).state n).replayed := by
    intro n
    obtain ⟨c, alike⟩ := (lock n).alike
    rw [alike]
    rfl
  constructor
  · rintro ⟨n, halted, result⟩
    exact ⟨n, (together n).mp halted, (same n).trans result⟩
  · rintro ⟨n, halted, result⟩
    exact ⟨n, (together n).mpr halted, (same n).symm.trans result⟩

/-- In lock step neither ends before the other. -/
theorem LockStep.halted_iff {other : Nat → Choices} {n : Nat}
    (lock : LockStep ((run env).state n) ((run (env.choosing other)).state n))
    (single : LaterSingle env.config) :
    (run env).Halted n ↔ (run (env.choosing other)).Halted n := by
  unfold Machine.Halted
  rcases lock.step (numbered env n) single with ⟨idle, idle'⟩ | ⟨l, s', t', moved, moved', -⟩
  · exact iff_of_true idle idle'
  · refine iff_of_false (fun idle => ?_) fun idle => ?_
    · rw [show (run env).next ((run env).state n) = _ from moved] at idle
      cases idle
    · rw [show (run (env.choosing other)).next _ = _ from moved'] at idle
      cases idle

/-! ### Where the seed decides -/

/-- Blocks of the first wave return at once; the thread that runs first after them stops the
launch. -/
def stopper (c : Config) (plan : Nat → Choices) : Env Nat :=
  { idling with
    config := c
    kernel := fun block _ _ => if block < c.residentBlocks then .ret else .panic "stop"
    choicesOf := plan }

/-- Nobody has done anything but return. -/
structure Quiet (s : Launch V) : Prop where
  live : Live s
  first : s.wave = 0
  ready : ∀ i, s.threads i = ⟨.ready, []⟩
  status : ∀ i, s.sched.status i = .runnable ∨ s.sched.status i = .finished
  raised : s.raised = []

omit [BEq V] in
/-- A return among threads that run or have returned only passes on the turn. -/
theorem finish_quiet (g : Geometry) (me : Nat) {s : Scheduler.State} (live : s.aborted = false)
    (status : ∀ i, s.status i = .runnable ∨ s.status i = .finished) :
    (Scheduler.finish g me s).1.aborted = false ∧ (Scheduler.finish g me s).2 = [] ∧
      (Scheduler.finish g me s).1.status = Function.update s.status me .finished := by
  unfold Scheduler.finish
  rcases Scheduler.finishEnter_cases g me s with
    ⟨p, wait, waiting, -⟩ | ⟨-, ⟨i, -, -, parked⟩, -⟩ | ⟨-, -, enter⟩
  · have parked := waiting.2.2.1
    rcases status p with running | ended
    · rw [running] at parked
      cases parked
    · rw [ended] at parked
      cases parked
  · rcases status i with running | ended
    · rw [running] at parked
      cases parked
    · rw [ended] at parked
      cases parked
  · have marked : (Scheduler.finishMarked me s).aborted = false := live
    rw [enter]
    simp only [marked, Bool.false_eq_true, if_false]
    by_cases empty : Scheduler.runnable g (Scheduler.finishMarked me s) = []
    · have ended : ¬ ∃ i < g.total, (Scheduler.finishMarked me s).status i ≠ .finished := by
        rintro ⟨i, inside, alive⟩
        have running : (Scheduler.finishMarked me s).status i = .runnable := by
          by_cases mine : i = me
          · subst mine
            exact absurd (Function.update_self ..) alive
          · have same : (Scheduler.finishMarked me s).status i = s.status i :=
              Function.update_of_ne mine ..
            rw [same] at alive ⊢
            exact (status i).resolve_right alive
        have member := (Scheduler.mem_runnable g).mpr ⟨inside, running⟩
        rw [empty] at member
        cases member
      rw [Scheduler.pickNext_of_none g empty, if_neg fun both => ended both.2]
      exact ⟨live, rfl, rfl⟩
    · have turned := Scheduler.pickNext_turned g empty
      obtain ⟨i, -, -, current⟩ := turned.chosen
      rw [if_neg (by simp [current])]
      exact ⟨turned.aborted.trans marked, rfl, turned.status⟩

section

variable {c : Config} (plan : Nat → Choices)

/-- In the first wave the turn goes to somebody who returns. -/
theorem Quiet.step {s : Launch Nat} {slot : Nat} (quiet : Quiet s) (start : s.firstBlock = 0)
    (inside : slot < (c.geometry 0).total) (running : s.sched.status slot = .runnable)
    (current : s.sched.current = some slot) :
    ∃ l s', s.step (stopper c plan) = some (l, s') ∧ Quiet s' ∧
      (Scheduler.runnable (c.geometry 0) s'.sched).length <
        (Scheduler.runnable (c.geometry 0) s.sched).length := by
  have geometry : s.geometry (stopper c plan) = c.geometry 0 := by
    rw [Launch.geometry, start]
    rfl
  have returns : s.nextOp (stopper c plan) slot = .ret := by
    have resident : slot / c.threadsPerBlock < c.residentBlocks :=
      lt_of_lt_of_le ((c.geometry 0).blockOf_lt inside) (Nat.min_le_left ..)
    have block : (s.ctx (stopper c plan) slot).block = slot / c.threadsPerBlock := by
      simp only [ctx, start, Nat.zero_add]
      rfl
    exact if_pos (block ▸ resident)
  obtain ⟨live, silent, status⟩ := finish_quiet (c.geometry 0) slot quiet.live quiet.status
  refine ⟨.finish (s.ctx (stopper c plan) slot),
    s.withSched (Scheduler.finish (c.geometry 0) slot s.sched), ?_,
    ⟨live, quiet.first, quiet.ready, fun i => ?_, ?_⟩, ?_⟩
  · rw [step_of_ready _ quiet.live current (by rw [quiet.ready]) returns]
    simp only [dispatch, geometry]
    rfl
  · have same : (s.withSched (Scheduler.finish (c.geometry 0) slot s.sched)).sched.status i =
        Function.update s.sched.status slot .finished i := congrFun status i
    rw [same]
    by_cases mine : i = slot
    · subst mine
      exact .inr (Function.update_self ..)
    · rw [Function.update_of_ne mine]
      exact quiet.status i
  · simp [withSched, quiet.raised, silent]
  · have fewer : Scheduler.runnable (c.geometry 0)
        (s.withSched (Scheduler.finish (c.geometry 0) slot s.sched)).sched =
          (Scheduler.runnable (c.geometry 0) s.sched).filter (· ≠ slot) := by
      simp only [Scheduler.runnable, withSched, status, List.filter_filter]
      refine List.filter_congr fun i _ => ?_
      by_cases mine : i = slot
      · subst mine
        simp
      · simp [mine]
    rw [fewer, List.length_filter_lt_length_iff_exists]
    exact ⟨slot, (Scheduler.mem_runnable _).mpr ⟨inside, running⟩, by simp⟩

/-- The first wave comes to its end. -/
theorem Quiet.ends {n : Nat} (quiet : Quiet ((run (stopper c plan)).state n)) :
    ∃ m, Quiet ((run (stopper c plan)).state m) ∧
      ((run (stopper c plan)).state m).sched.current = none := by
  induction left : (Scheduler.runnable (c.geometry 0) ((run (stopper c plan)).state n).sched).length
    using Nat.strong_induction_on generalizing n with
  | _ left ih =>
    have start : ((run (stopper c plan)).state n).firstBlock = 0 := by
      rw [(numbered (stopper c plan) n).start, quiet.first, Nat.zero_mul]
    have wf := wellFormed quiet.live
    cases current : ((run (stopper c plan)).state n).sched.current with
    | none => exact ⟨n, quiet, current⟩
    | some slot =>
      obtain ⟨inside, running⟩ := wf.running current
      rw [Launch.geometry, start] at inside
      obtain ⟨l, s', moved, next, fewer⟩ :=
        quiet.step plan start inside running current
      rw [← (run (stopper c plan)).state_succ_of_next moved] at next fewer
      exact ih _ (left ▸ fewer) next rfl

/-- A generator's first pick among `total` threads. -/
theorem new_random_current {g : Geometry} (pos : 0 < g.total) (rng : SplitMix64) :
    (Scheduler.new g (.random rng)).current = some (rng.next.1.toNat % g.total) := by
  have everybody : Scheduler.runnable g (Scheduler.unstarted (.random rng)) = List.range g.total :=
    List.filter_eq_self.mpr fun i _ => by simp [Scheduler.unstarted]
  have picked := Nat.mod_lt rng.next.1.toNat pos
  obtain ⟨n, size⟩ := Nat.exists_eq_succ_of_ne_zero pos.ne'
  have first : Scheduler.runnable g (Scheduler.unstarted (.random rng)) =
      0 :: (List.range n).map Nat.succ := by
    rw [everybody, size, List.range_succ_eq_map]
  have chosen : (Choices.choose none (List.range g.total) 0 (.random rng)).1 =
      rng.next.1.toNat % g.total := by
    simp only [Choices.choose, List.length_range]
    rw [List.getD_eq_getElem?_getD, List.getElem?_range picked, Option.getD_some]
  rw [Scheduler.new, Scheduler.pickNext_of_cons g first, ← first, everybody, ← chosen]
  unfold Scheduler.commit
  split <;> rfl

theorem take_single (d : Diagnostic) : Reporter.take [d] = [d] := by
  simp [Reporter.take, Reporter.push, Reporter.empty, MAX_DIAGNOSTICS]

/-- When there is a second wave its first pick stops the launch. -/
theorem stopper_returns (more : c.residentBlocks < c.blocks) (rng : SplitMix64)
    (draws : plan 1 = .random rng) :
    ∃ contents, Returns (stopper c plan) ⟨[.kernelPanic
      (c.residentBlocks + rng.next.1.toNat % (c.geometry c.residentBlocks).total / c.threadsPerBlock)
      (rng.next.1.toNat % (c.geometry c.residentBlocks).total % c.threadsPerBlock) "stop"],
      true, contents⟩ := by
  have fresh : Quiet ((run (stopper c plan)).state 0) :=
    ⟨init_wellFormed.1, rfl, fun _ => rfl, fun i => .inl (start_status ..), rfl⟩
  obtain ⟨m, quiet, nobody⟩ := Quiet.ends plan fresh
  generalize pick : rng.next.1.toNat % (c.geometry c.residentBlocks).total = slot
  have start : ((run (stopper c plan)).state m).firstBlock = 0 := by
    rw [(numbered (stopper c plan) m).start, quiet.first, Nat.zero_mul]
  have full : c.waveBlocks 0 = c.residentBlocks := by
    unfold Config.waveBlocks
    omega
  generalize state : (run (stopper c plan)).state m = s at quiet nobody start
  have more' : s.firstBlock + (stopper c plan).config.waveBlocks s.firstBlock <
      (stopper c plan).config.blocks := by
    rw [start, Nat.zero_add]
    exact lt_of_eq_of_lt full more
  have second : (run (stopper c plan)).state (m + 1) = s.nextWave (stopper c plan) := by
    have running : s.sched.aborted = false := quiet.live
    refine (run (stopper c plan)).state_succ_of_next (a := .nextWave) ?_
    rw [state]
    simp only [run, Launch.step, running, nobody, more', Bool.false_eq_true, if_false, if_true]
  have first : s.firstBlock + c.waveBlocks s.firstBlock = c.residentBlocks := by
    rw [start, full, Nat.zero_add]
  have live : (s.nextWave (stopper c plan)).sched.aborted = false := (nextWave_wellFormed more').1
  have current : (s.nextWave (stopper c plan)).sched.current = some slot := by
    have some_thread : 0 < (c.geometry c.residentBlocks).total :=
      Nat.mul_pos (Nat.lt_min.mpr ⟨c.resident_pos, Nat.sub_pos_of_lt more⟩) c.threads_pos
    change (Scheduler.new (c.geometry (s.firstBlock + c.waveBlocks s.firstBlock))
      (plan (s.wave + 1))).current = some slot
    rw [first, quiet.first, draws, new_random_current some_thread, pick]
  have silent : (s.nextWave (stopper c plan)).raised = [] := quiet.raised
  have ready : (s.nextWave (stopper c plan)).threads slot = ⟨.ready, []⟩ := rfl
  have begins : (s.nextWave (stopper c plan)).firstBlock = c.residentBlocks := first
  generalize s.nextWave (stopper c plan) = t at second live current silent ready begins
  have stops : t.nextOp (stopper c plan) slot = .panic "stop" := by
    refine if_neg (Nat.not_lt.mpr ?_)
    simp only [ctx, begins]
    exact Nat.le_add_right ..
  have moved := step_of_ready (stopper c plan) live current (by rw [ready]) stops
  rw [← second] at moved
  have last : (run (stopper c plan)).state (m + 2) = t.trap (.kernelPanic
      (t.ctx (stopper c plan) slot).block (t.ctx (stopper c plan) slot).thread "stop") := by
    rw [(run (stopper c plan)).state_succ_of_next moved, second]
  refine ⟨fun buf => (t.mem buf).data, m + 2, ?_, ?_⟩
  · rw [Machine.Halted, last]
    rfl
  · rw [last]
    simp only [replayed, trap, withSched, silent, List.nil_append, take_single, ctx, begins]
    rfl

end

/-! ### When the seed does not matter -/

/-- Replays of one schedule under two seeds return the same, whatever the kernel and its
buffers. -/
def SeedFree (config : LaunchConfig) : Prop :=
  ∀ (V : Type) [BEq V] (env : Env V), config.checked = some env.config →
    ∀ plan seed seed' r, Returns ((config.withSeed seed).replay plan env) r ↔
      Returns ((config.withSeed seed').replay plan env) r

/-- The seeds after which the second wave draws 0 and 1. -/
def drawsZero : UInt64 := 7046029254386353130
def drawsOne : UInt64 := 17885559969949501884

theorem draws_zero : (SplitMix64.next ⟨drawsZero + 1⟩).1 = 0 := by decide
theorem draws_one : (SplitMix64.next ⟨drawsOne + 1⟩).1 = 1 := by decide

/-- A second wave of two threads shows the seed. -/
theorem laterSingle_of_seedFree {config : LaunchConfig} {c : Config}
    (accepted : config.checked = some c) (free : SeedFree config) : LaterSingle c := by
  intro wave later inside
  by_contra several
  have more : c.residentBlocks < c.blocks :=
    lt_of_le_of_lt (Nat.le_mul_of_pos_left _ later) inside
  have second : 1 < (c.geometry c.residentBlocks).total := by
    refine lt_of_lt_of_le (Nat.lt_of_not_le several) (Nat.mul_le_mul_right _ ?_)
    have behind := Nat.le_mul_of_pos_left c.residentBlocks later
    simp only [Config.geometry, Config.waveBlocks]
    omega
  obtain ⟨contents, zero⟩ := stopper_returns
    ((config.withSeed drawsZero).choicesOf (.replay [] 0)) more ⟨drawsZero + 1⟩ rfl
  obtain ⟨contents', one⟩ := stopper_returns
    ((config.withSeed drawsOne).choicesOf (.replay [] 0)) more ⟨drawsOne + 1⟩ rfl
  rw [draws_zero] at zero
  rw [draws_one] at one
  have again := (free Nat (stopper c fun _ => .replay [] 0) accepted [] drawsZero drawsOne _).mp zero
  have same := congrArg Replayed.diagnostics (again.unique one)
  have one_lt : (1 : UInt64).toNat % (c.geometry c.residentBlocks).total = 1 := Nat.mod_eq_of_lt second
  have zero_lt : (0 : UInt64).toNat % (c.geometry c.residentBlocks).total = 0 := Nat.zero_mod _
  rw [one_lt, zero_lt] at same
  have split := Nat.div_add_mod 1 c.threadsPerBlock
  simp only [List.cons.injEq, Diagnostic.kernelPanic.injEq, Nat.zero_div, Nat.zero_mod,
    Nat.add_zero, and_true] at same
  rw [← same.2, Nat.left_eq_add.mp same.1, Nat.mul_zero] at split
  cases split

/-- Waves of one thread leave nothing to the seed. -/
theorem seedFree_of_laterSingle {config : LaunchConfig} {c : Config}
    (accepted : config.checked = some c) (single : LaterSingle c) : SeedFree config := by
  intro V _ env sizes plan seed seed' r
  obtain rfl : c = env.config := Option.some.inj (accepted.symm.trans sizes)
  have lock : ∀ n, LockStep ((run ((config.withSeed seed).replay plan env)).state n)
      ((run (((config.withSeed seed).replay plan env).choosing
        ((config.withSeed seed').choicesOf (.replay plan 0)))).state n) :=
    lockStep_state rfl single
  exact LockStep.returns lock (fun n => (lock n).halted_iff single) r

/-- What a replay takes from the seed: nothing in the first wave, and nothing at all exactly
when every later wave has a single thread. -/
theorem seed_exactly (config : LaunchConfig) (c : Config) (accepted : config.checked = some c) :
    (∀ (V : Type) [BEq V] (env : Env V), env.config = c → ∀ plan seed seed' n,
      ((run ((config.withSeed seed).replay plan env)).state n).wave = 0 →
      (run ((config.withSeed seed').replay plan env)).state n =
        (run ((config.withSeed seed).replay plan env)).state n) ∧
    (SeedFree config ↔ LaterSingle c) := by
  refine ⟨fun V _ env _ plan seed seed' n first => ?_,
    laterSingle_of_seedFree accepted, seedFree_of_laterSingle accepted⟩
  have begin : (config.withSeed seed').choicesOf (.replay plan 0) 0 =
      ((config.withSeed seed).replay plan env).choicesOf 0 := rfl
  exact state_first begin first

def twoWaves : LaunchConfig := ⟨⟨2, 1, 1⟩, ⟨2, 1, 1⟩, 0, 32, some 1⟩

theorem twoWaves_admitted : twoWaves.checked.isSome := by decide

/-- Its first block returns; each thread of the second panics. -/
def twoWavesEnv : Env Nat := stopper (twoWaves.checked.get twoWaves_admitted) fun _ => .replay [] 0

/-- The empty schedule blames thread 1 of block 1 under seed 0 and thread 0 under seed 1. -/
theorem twoWaves_seeded :
    ((run ((twoWaves.withSeed 0).replay [] twoWavesEnv)).state 4).raised = [.kernelPanic 1 1 "stop"] ∧
      ((run ((twoWaves.withSeed 1).replay [] twoWavesEnv)).state 4).raised =
        [.kernelPanic 1 0 "stop"] ∧
      (run ((twoWaves.withSeed 0).replay [] twoWavesEnv)).Halted 4 ∧
      (run ((twoWaves.withSeed 1).replay [] twoWavesEnv)).Halted 4 ∧ ¬ SeedFree twoWaves := by
  have zero : ((run ((twoWaves.withSeed 0).replay [] twoWavesEnv)).state 4).raised =
      [.kernelPanic 1 1 "stop"] := by
    set_option maxRecDepth 100000 in decide +kernel
  have one : ((run ((twoWaves.withSeed 1).replay [] twoWavesEnv)).state 4).raised =
      [.kernelPanic 1 0 "stop"] := by
    set_option maxRecDepth 100000 in decide +kernel
  have halted : (run ((twoWaves.withSeed 0).replay [] twoWavesEnv)).Halted 4 := by
    rw [Machine.Halted, ← Option.isNone_iff_eq_none]
    set_option maxRecDepth 100000 in decide +kernel
  have halted' : (run ((twoWaves.withSeed 1).replay [] twoWavesEnv)).Halted 4 := by
    rw [Machine.Halted, ← Option.isNone_iff_eq_none]
    set_option maxRecDepth 100000 in decide +kernel
  refine ⟨zero, one, halted, halted', fun free => ?_⟩
  have again := (free Nat twoWavesEnv (Option.some_get twoWaves_admitted).symm [] 0 1 _).mp
    ⟨4, halted, rfl⟩
  have same := congrArg Replayed.diagnostics (again.unique ⟨4, halted', rfl⟩)
  simp only [replayed, zero, one, take_single] at same
  cases same

/-- One block at a time of one thread each: several waves, and none of them has a choice. -/
def singles : LaunchConfig := ⟨⟨3, 1, 1⟩, ⟨1, 1, 1⟩, 0, 32, some 1⟩

theorem singles_admitted : singles.checked.isSome := by decide

theorem seed_exactly_singles :
    SeedFree singles ↔ LaterSingle (singles.checked.get singles_admitted) :=
  (seed_exactly singles _ (Option.some_get singles_admitted).symm).2

end Riri.Launch
