import Riri.Guarantees.ShrinkReplays
import Riri.Run.Programs
import Riri.Run.Spinning

/-!
# When shrinking comes to an end

A plan preempts threads while it lasts and nobody afterwards, so past its end a replay is at the
mercy of a thread that waits in a loop for one that never gets the turn. A shrink returns if and
only if none of the replays it launches comes to a thread that spins; its budget counts replays,
and none of them has a limit.
-/
namespace Riri.Launch

open Scheduler (TurnLeft Orderly)

variable {V : Type} [BEq V] {env : Env V}

theorem Resumed.turnLeft {s s' : Launch V} {slot : Nat} {l : Label V}
    (resumed : Resumed env s slot l s') : TurnLeft (s.geometry env) s.sched s'.sched := by
  cases resumed with
  | finish => exact Scheduler.finish_left ..
  | arrive => exact Scheduler.barrier_left ..
  | yieldAccess | yieldCollective => exact Scheduler.handOff_left ..
  | publish | exchange => exact Scheduler.warpRendezvous_left ..
  | panic | overflow | outOfBounds | refuse | mistyped => exact .kept rfl rfl
  | fence | access | miss | depart | leave => exact .kept rfl rfl

section

variable (single : env.config.blocks ≤ env.config.residentBlocks) {plan : List UInt32}
include single

/-- One step of a launch of one wave that reads its decisions from a plan. -/
theorem reading_step {n cursor : Nat}
    (reading : ((run env).state n).sched.choices = .replay plan cursor) :
    ∃ cursor', ((run env).state (n + 1)).sched.choices = .replay plan cursor' ∧
      cursor ≤ cursor' ∧ (OrderlyAt env n ∨ (cursor < plan.length ∧ cursor < cursor')) := by
  rcases (run env).step_cases n with ⟨l, -, moved⟩ | ⟨-, stays⟩
  · obtain ⟨slot, -, resumed⟩ := next_single single (firstBlock_single single n) moved
    exact resumed.turnLeft.orderly reading
  · exact ⟨cursor, by rw [stays, reading], le_rfl, .inl (.inl (by rw [stays]))⟩

theorem reading_later {n k cursor : Nat} (le : n ≤ k)
    (reading : ((run env).state n).sched.choices = .replay plan cursor) :
    ∃ cursor', ((run env).state k).sched.choices = .replay plan cursor' ∧ cursor ≤ cursor' := by
  induction k, le using Nat.le_induction with
  | base => exact ⟨cursor, reading, le_rfl⟩
  | succ k _ ih =>
    obtain ⟨between, reading', le'⟩ := ih
    obtain ⟨after, reading'', le'', -⟩ := reading_step single reading'
    exact ⟨after, reading'', le'.trans le''⟩

/-- A plan of length `l` preempts at most `l` times, so in the end nobody is preempted. -/
theorem eventually_orderly {n cursor : Nat}
    (reading : ((run env).state n).sched.choices = .replay plan cursor) :
    ∃ m, ∀ k, m ≤ k → OrderlyAt env k := by
  induction left : plan.length - cursor using Nat.strong_induction_on generalizing n cursor with
  | _ left ih =>
    by_cases calm : ∀ k, n ≤ k → OrderlyAt env k
    · exact ⟨n, calm⟩
    · push Not at calm
      obtain ⟨k, le, preempts⟩ := calm
      obtain ⟨before, reading', le'⟩ := reading_later single le reading
      obtain ⟨after, reading'', -, orderly | ⟨planned, moved⟩⟩ := reading_step single reading'
      · exact absurd orderly preempts
      · exact ih (plan.length - after) (by omega) reading'' rfl

end

theorem waves_eq_one_iff {config : LaunchConfig} {c : Config} (accepted : config.checked = some c) :
    config.waves = 1 ↔ c.blocks ≤ c.residentBlocks := by
  obtain ⟨blocks, -, resident, -⟩ := LaunchConfig.sizes_of_checked accepted
  have some_block := c.blocks_pos
  have some_resident := c.resident_pos
  unfold LaunchConfig.waves
  rw [← blocks, ← resident, Nat.div_eq_iff c.resident_pos, Nat.one_mul]
  omega

def ReplayEnds (config : LaunchConfig) (env : Env V) (plan : List UInt32) : Prop :=
  ∃ n, (run (config.replay plan env)).Halted n

omit [BEq V] in
theorem replay_reading (config : LaunchConfig) (env : Env V) (plan : List UInt32) :
    ∃ cursor, (init (config.replay plan env)).sched.choices = .replay plan cursor := by
  have left := Scheduler.pickNext_left (g := env.config.geometry 0)
    (Scheduler.unstarted (.replay plan 0))
  obtain ⟨cursor, reading, -⟩ := left.orderly rfl
  exact ⟨cursor, reading⟩

/-- No thread gets stuck in a loop of its own: from some time on nobody comes to a barrier or a
collective, and whoever has the turn when nobody is preempted any more would, alone and with the
memory as it is then, come to a barrier, a collective, its return or an operation that fails. -/
structure Settles (env : Env V) : Prop where
  parts : ∃ m, ∀ n, m ≤ n → ∀ l, (run env).label n = some l → l.meets = false
  rests : ∀ n i, (∀ k, n ≤ k → OrderlyAt env k) → Live ((run env).state n) →
    ((run env).state n).sched.current = some i → ¬ Spins env ((run env).state n) i

/-- Which replays of a launch of one wave end. -/
theorem replayEnds_iff {config : LaunchConfig} (accepted : config.checked = some env.config)
    (single : config.waves = 1) (plan : List UInt32) :
    ReplayEnds config env plan ↔ Settles (config.replay plan env) := by
  constructor
  · rintro ⟨n, halted⟩
    constructor
    · refine ⟨n, ?_⟩
      intro k le l labelled
      have stopped := ((run _).halted_mono halted le).1
      rw [(run _).label_eq_none_iff.mpr stopped] at labelled
      cases labelled
    · intro k i calm live current spins
      exact spins.forever live current calm n halted
  · intro settles
    by_contra endless
    obtain ⟨cursor, reading⟩ := replay_reading config env plan
    have one_wave : (config.replay plan env).config.blocks ≤
        (config.replay plan env).config.residentBlocks := (waves_eq_one_iff accepted).mp single
    obtain ⟨m, calm⟩ := eventually_orderly (n := 0) one_wave reading
    obtain ⟨m', apart⟩ := settles.parts
    obtain ⟨k, le, i, live, current, spins⟩ := exists_spinning one_wave
      (fun n halted => endless ⟨n, halted⟩) (n := max m m')
      (fun k le => calm k ((Nat.le_max_left m m').trans le))
      (fun k le => apart k ((Nat.le_max_right m m').trans le))
    have quiet : ∀ k', k ≤ k' → OrderlyAt (config.replay plan env) k' :=
      fun k' le' => calm k' ((Nat.le_max_left m m').trans (le.trans le'))
    exact settles.rests k i quiet live current spins

/-! ### The shrink around them -/

/-- `run_once` of a shrink that looks for `target`: it replays a plan and looks for the target
in the report, and hangs where the replay does. -/
structure Runs (config : LaunchConfig) (env : Env V) (target : String)
    (runOnce : Explore.RunOnce) : Prop where
  returns : ∀ plan found, runOnce plan = some found →
    ∃ n, (run (config.replay plan env)).Halted n ∧
      found = Report.contains ((run (config.replay plan env)).state n).replayed.diagnostics target
  hangs : ∀ plan, runOnce plan = none → ¬ ReplayEnds config env plan

theorem exists_runs (config : LaunchConfig) (env : Env V) (target : String) :
    ∃ runOnce, Runs config env target runOnce := by
  classical
  refine ⟨fun plan => if ends : ReplayEnds config env plan then
    some (Report.contains ((run (config.replay plan env)).state ends.choose).replayed.diagnostics
      target) else none, ?_, ?_⟩
  · intro plan found answer
    by_cases ends : ReplayEnds config env plan
    · simp only [dif_pos ends, Option.some.injEq] at answer
      exact ⟨ends.choose, ends.choose_spec, answer.symm⟩
    · simp only [dif_neg ends] at answer
      cases answer
  · intro plan answer ends
    simp only [dif_pos ends] at answer
    cases answer

/-- A replay that ends is reported as it ended. -/
theorem Runs.eq {config : LaunchConfig} {env : Env V} {target : String} {runOnce : Explore.RunOnce}
    (runs : Runs config env target runOnce) {plan : List UInt32} {n : Nat}
    (halted : (run (config.replay plan env)).Halted n) :
    runOnce plan = some
      (Report.contains ((run (config.replay plan env)).state n).replayed.diagnostics target) := by
  cases answer : runOnce plan with
  | none => exact absurd ⟨n, halted⟩ (runs.hangs plan answer)
  | some found =>
    obtain ⟨m, stopped, rfl⟩ := runs.returns plan found answer
    have same : (run (config.replay plan env)).state m = (run (config.replay plan env)).state n :=
      ((run _).halted_mono stopped (Nat.le_max_left m n)).2.symm.trans
        ((run _).halted_mono halted (Nat.le_max_right m n)).2
    rw [same]

/-- The plans whose replays are launched by the shrink of a run that ended in `s`. -/
def shrinkLaunches (config : LaunchConfig) (s : Launch V) (minimise : Bool) (budget : Nat)
    (runOnce : Explore.RunOnce) : List (List UInt32) :=
  Explore.launched runOnce (s.recording config).1 minimise budget s.replayed.diagnostics
    (s.recording config).2

/-- The shrink of a run that ended in `s` returns, and so does every replay it launches. -/
structure ShrinkReturns (config : LaunchConfig) (env : Env V) (s : Launch V) (minimise : Bool)
    (budget : Nat) (runOnce : Explore.RunOnce) : Prop where
  replays : ∀ plan ∈ shrinkLaunches config s minimise budget runOnce, ReplayEnds config env plan
  returns : (Explore.shrink runOnce (s.recording config).1 minimise budget s.replayed.diagnostics
    (s.recording config).2).isSome

theorem Runs.isSome_iff {config : LaunchConfig} {target : String} {runOnce : Explore.RunOnce}
    (runs : Runs config env target runOnce) (plan : List UInt32) :
    (runOnce plan).isSome ↔ ReplayEnds config env plan := by
  constructor
  · intro answers
    obtain ⟨found, answer⟩ := Option.isSome_iff_exists.mp answers
    obtain ⟨n, halted, -⟩ := runs.returns plan found answer
    exact ⟨n, halted⟩
  · rintro ⟨n, halted⟩
    rw [runs.eq halted]
    rfl

omit [BEq V] in
/-- Only launches of one wave are replayed. -/
theorem single_of_launched {config : LaunchConfig} {s : Launch V} {minimise : Bool} {budget : Nat}
    {runOnce : Explore.RunOnce} {plan : List UInt32}
    (mem : plan ∈ shrinkLaunches config s minimise budget runOnce) : config.waves = 1 := by
  by_contra many
  unfold shrinkLaunches at mem
  rw [recording, if_neg many, Explore.launched_incomplete] at mem
  cases mem

/-- When shrinking ends. Whatever was recorded, the replays a shrink launches all end, and the
shrink returns, if and only if in none of them a thread comes to spin. -/
theorem shrink_returns (config : LaunchConfig) (env : Env V)
    (accepted : config.checked = some env.config) (choices : Choices) (n : Nat) (minimise : Bool)
    (budget : Nat) (target : String) (runOnce : Explore.RunOnce)
    (runs : Runs config env target runOnce) :
    (run { env with choicesOf := config.choicesOf choices }).Halted n →
      (ShrinkReturns config env
          ((run { env with choicesOf := config.choicesOf choices }).state n) minimise budget
          runOnce ↔
        ∀ plan ∈ shrinkLaunches config
            ((run { env with choicesOf := config.choicesOf choices }).state n) minimise budget
            runOnce,
          Settles (config.replay plan env)) := by
  intro _
  generalize (run { env with choicesOf := config.choicesOf choices }).state n = s
  constructor
  · intro returns plan mem
    exact (replayEnds_iff accepted (single_of_launched mem) plan).mp (returns.replays plan mem)
  · intro settles
    have ends : ∀ plan ∈ shrinkLaunches config s minimise budget runOnce,
        ReplayEnds config env plan := fun plan mem =>
      (replayEnds_iff accepted (single_of_launched mem) plan).mpr (settles plan mem)
    refine ⟨ends, (Explore.shrink_isSome_iff ..).mpr ?_⟩
    intro plan mem
    exact (runs.isSome_iff plan).mpr (ends plan mem)

/-! ### Kernels without loops -/

/-- A list of operations comes to its end. -/
theorem not_endless_of_lists (program : Program V) {ops : Nat → Nat → List (Op V)}
    (lists : program.kernel = .ofLists ops) (block thread k : Nat) (answers : List (Resp V))
    (mem : Buf × Nat → V × Bool) (few : (ops block thread).length ≤ answers.length + k) :
    ¬ Phased.Endless (program.move block thread) answers mem := by
  intro endless
  obtain ⟨told, mem', performed, further⟩ := Phased.endless_iff.mp endless
  induction k generalizing answers told mem mem' with
  | zero =>
    have ended : program.kernel block thread answers = .ret := by
      rw [lists]
      exact List.getD_eq_default _ _ few
    rw [Program.move_stop ended (.inl rfl)] at performed
    cases performed
  | succ k ih =>
    have longer := Program.length_of_perform performed
    obtain ⟨told', mem'', performed', further'⟩ := Phased.endless_iff.mp further
    exact ih told mem' (by omega) further told' mem'' performed' further'

/-- Threads that run through lists of accesses and fences settle. -/
theorem settles_of_lists {ops : Nat → Nat → List (Op V)} (lists : env.kernel = .ofLists ops)
    (plain : ∀ block thread, ∀ op ∈ ops block thread, (∃ m, op = .mem m) ∨ ∃ o, op = .fence o) :
    Settles env := by
  constructor
  · refine ⟨0, ?_⟩
    intro n _ l labelled
    obtain ⟨live, ⟨-, rfl⟩ | ⟨i, current, resumed⟩⟩ := label_cases labelled
    · rfl
    · rw [Bool.eq_false_iff]
      intro meets
      have asks := resumed.asks_of_meets (standing_run live) meets
      have listed := Kernel.ofLists_cases ops (((run env).state n).ctx env i).block
        (((run env).state n).ctx env i).thread (((run env).state n).threads i).answers
      rw [← lists] at listed
      change ((run env).state n).nextOp env i = .ret ∨ ((run env).state n).nextOp env i ∈ _ at listed
      rcases listed with ret | mem
      · simp [ret] at asks
      · rcases plain _ _ _ mem with ⟨m, op⟩ | ⟨o, op⟩ <;> simp [op] at asks
  · intro n i _ _ _ spins
    exact not_endless_of_lists env.program lists _ _ _ _ _ (Nat.le_add_left ..) spins

def pair : LaunchConfig := ⟨⟨2, 1, 1⟩, ⟨1, 1, 1⟩, 1, 32, none⟩

theorem pair_admitted : pair.checked.isSome := by decide

/-- The seed under which block 1 of the launch below reads first. -/
def pairSeeded : LaunchConfig := pair.withSeed 8

/-- Block 0 writes two elements and block 1 reads the second. -/
def earlyOps (block _thread : Nat) : List (Op Nat) :=
  if block = 0 then
    [.mem ⟨.global 1, 0, ⟨"kernel.rs", 3, 5⟩, .write 1⟩,
      .mem ⟨.global 0, 0, ⟨"kernel.rs", 4, 5⟩, .write 42⟩]
  else [.mem ⟨.global 0, 0, ⟨"kernel.rs", 7, 17⟩, .read⟩]

def early : Env Nat :=
  { idling with
    config := pair.checked.get pair_admitted
    kernel := .ofLists earlyOps }

def earlySeeded : Env Nat := { early with choicesOf := pairSeeded.choicesOf (.random ⟨8⟩) }

def earlyTarget : String :=
  (((run earlySeeded).state 8).replayed.diagnostics.map (·.fingerprint)).headI

theorem early_recorded : (run earlySeeded).Halted 8 ∧
    ((run earlySeeded).state 8).recording pairSeeded = ([0, 1, 1, 0, 0], true) ∧
    ((run earlySeeded).state 8).replayed.diagnostics ≠ [] := by
  rw [Machine.Halted, ← Option.isNone_iff_eq_none]
  set_option maxRecDepth 100000 in decide +kernel

/-- The replays of five plans end, and those of two find that block 1 reads before any write. -/
theorem early_replays : ∀ replay ∈ [([0, 1, 1, 0, 0], true), ([], false), ([0], false),
      ([0, 1], true), ([0, 0], false)],
    (run (pairSeeded.replay replay.1 early)).Halted 8 ∧
    Report.contains ((run (pairSeeded.replay replay.1 early)).state 8).replayed.diagnostics
      earlyTarget = replay.2 := by
  simp only [Machine.Halted, ← Option.isNone_iff_eq_none]
  set_option maxRecDepth 100000 in decide +kernel

theorem early_settles (plan : List UInt32) : Settles (pairSeeded.replay plan early) := by
  have lists : (pairSeeded.replay plan early).kernel = .ofLists earlyOps := rfl
  refine settles_of_lists lists ?_
  intro block thread op mem
  unfold earlyOps at mem
  split at mem <;> simp only [List.mem_cons, List.not_mem_nil, or_false] at mem
  · rcases mem with rfl | rfl <;> exact .inl ⟨_, rfl⟩
  · exact .inl ⟨_, mem⟩

/-- What the shrink of the recorded run is told of its five replays. -/
theorem early_answers {runOnce : Explore.RunOnce} (runs : Runs pairSeeded early earlyTarget runOnce) :
    runOnce [0, 1, 1, 0, 0] = some true ∧ runOnce [] = some false ∧ runOnce [0] = some false ∧
      runOnce [0, 1] = some true ∧ runOnce [0, 0] = some false := by
  have told : ∀ replay ∈ [([0, 1, 1, 0, 0], true), ([], false), ([0], false), ([0, 1], true),
      ([0, 0], false)], runOnce replay.1 = some replay.2 := by
    intro replay mem
    obtain ⟨halted, found⟩ := early_replays replay mem
    rw [runs.eq halted, found]
  simpa using told

/-- After the recording and the empty plan it tries prefixes of one and two decisions, and the second
without its switch. -/
theorem early_shrunk {runOnce : Explore.RunOnce} (whole : runOnce [0, 1, 1, 0, 0] = some true)
    (empty : runOnce [] = some false) (one : runOnce [0] = some false)
    (two : runOnce [0, 1] = some true) (edited : runOnce [0, 0] = some false) :
    Explore.shrinkSpending runOnce [0, 1, 1, 0, 0] true 256
        ((run earlySeeded).state 8).replayed.diagnostics true =
      some (.minimised [0, 1], ⟨251, [[0, 1, 1, 0, 0], [], [0], [0, 1], [0, 0]]⟩) := by
  have test : ∀ plan found left done, runOnce plan = some found →
      Explore.reproduces runOnce plan ⟨left + 1, done⟩ = some (found, ⟨left, done ++ [plan]⟩) := by
    intro plan found left done answer
    simp [Explore.reproduces, answer]
  have doubles : Explore.double runOnce [0, 1, 1, 0, 0] 0 1 Nat.one_pos
      ⟨254, [[0, 1, 1, 0, 0], []]⟩ =
        some (1, 2, ⟨252, [[0, 1, 1, 0, 0], [], [0], [0, 1]]⟩) := by
    rw [Explore.double_of_lt (by decide), List.take, List.take, test _ _ 253 _ one, Option.bind_some,
      if_neg (by decide), Explore.double_of_lt (by decide), List.take, List.take, List.take,
      test _ _ 252 _ two]
    rfl
  have halves : Explore.bisect runOnce [0, 1, 1, 0, 0] 1 2
      ⟨252, [[0, 1, 1, 0, 0], [], [0], [0, 1]]⟩ =
        some (2, ⟨252, [[0, 1, 1, 0, 0], [], [0], [0, 1]]⟩) := by
    rw [Explore.bisect]
    rfl
  have drops : Explore.dropSwitches runOnce 1 [0, 1] ⟨252, [[0, 1, 1, 0, 0], [], [0], [0, 1]]⟩ =
      some ([0, 1], ⟨251, [[0, 1, 1, 0, 0], [], [0], [0, 1], [0, 0]]⟩) := by
    have edit : ([0, 1] : List UInt32).set 1 (([0, 1] : List UInt32).getD (1 - 1) 0) = [0, 0] := rfl
    rw [Explore.dropSwitches_of_lt (by decide) (by decide) (by decide), edit,
      test _ _ 251 _ edited, Option.bind_some, if_neg (by decide), Explore.dropSwitches]
    rfl
  rw [Explore.shrinkSpending_of_on early_recorded.2.2]
  rw [test _ _ 255 _ whole, Option.bind_some, if_pos rfl, List.nil_append, test _ _ 254 _ empty]
  simp [doubles, halves, drops]

theorem shrink_returns_early : ∃ runOnce, Runs pairSeeded early earlyTarget runOnce ∧
    shrinkLaunches pairSeeded ((run earlySeeded).state 8) true 256 runOnce =
      [[0, 1, 1, 0, 0], [], [0], [0, 1], [0, 0]] ∧
    ShrinkReturns pairSeeded early ((run earlySeeded).state 8) true 256 runOnce := by
  obtain ⟨runOnce, runs⟩ := exists_runs pairSeeded early earlyTarget
  refine ⟨runOnce, runs, ?_, ?_⟩
  · obtain ⟨whole, empty, one, two, edited⟩ := early_answers runs
    have plans : Explore.replaysAnswering runOnce [0, 1, 1, 0, 0] true 256
        ((run earlySeeded).state 8).replayed.diagnostics true =
          [[0, 1, 1, 0, 0], [], [0], [0, 1], [0, 0]] := by
      rw [Explore.replaysAnswering, early_shrunk] <;>
        simp [Explore.answering, whole, empty, one, two, edited]
    rw [shrinkLaunches, early_recorded.2.1, Explore.launched, plans]
    simp [List.findIdx_cons, whole, empty, one, two, edited]
  · exact (shrink_returns pairSeeded early (Option.some_get pair_admitted).symm (.random ⟨8⟩) 8 true 256
      earlyTarget runOnce runs early_recorded.1).mpr fun plan _ => early_settles plan

/-! ### A hand-off -/

def flagLoad : MemOp Nat := ⟨.global 1, 0, ⟨"kernel.rs", 3, 15⟩, .atomic .relaxed .load⟩

/-- Block 0 waits in a loop for the flag and then reads the data; block 1 writes the data and
raises the flag, with no fence between. -/
def handoff : Env Nat :=
  { idling with
    config := pair.checked.get pair_admitted
    mem := fun _ => .ofData [0]
    kernel := fun block _ answers =>
      if block = 0 then
        match answers.getLast? with
        | some (.val 1) => .mem ⟨.global 0, 0, ⟨"kernel.rs", 4, 17⟩, .read⟩
        | some (.val 42) => .ret
        | _ => .mem flagLoad
      else ([.mem ⟨.global 0, 0, ⟨"kernel.rs", 7, 5⟩, .write 42⟩,
        .mem ⟨.global 1, 0, ⟨"kernel.rs", 8, 5⟩, .atomic .relaxed (.store 1)⟩]).getD
          answers.length .ret
    fresh := fun _ => by simp [Instrumented.ofData, idling, trial] }

/-- Block 0 holds the turn, has seen the flag down so far and is about to look again. -/
structure Waiting (cursor : Nat) (s : Launch Nat) : Prop where
  live : s.sched.aborted = false
  current : s.sched.current = some 0
  status : ∀ i, s.sched.status i = .runnable
  reading : s.sched.choices = .replay [] cursor
  start : s.firstBlock = 0
  ready : (s.threads 0).pc = .ready
  looks : s.nextOp handoff 0 = .mem flagLoad
  len : ((s.mem (.global 1)).forLaunch (.global 1) 1).len = 1
  down : ((s.mem (.global 1)).forLaunch (.global 1) 1).data 0 = 0

/-- Past the end of its plan the scheduler lets block 0 look again, and nothing has changed. -/
theorem Waiting.again {cursor : Nat} {s : Launch Nat} (waiting : Waiting cursor s) :
    ∃ l s' l' s'', s.step (pair.replay [] handoff) = some (l, s') ∧
      s'.step (pair.replay [] handoff) = some (l', s'') ∧ Waiting (cursor + 1) s'' := by
  have geometry : s.geometry (pair.replay [] handoff) = handoff.config.geometry 0 := by
    rw [Launch.geometry, waiting.start]
    rfl
  have yields := step_of_ready (pair.replay [] handoff) waiting.live waiting.current waiting.ready
    (show s.nextOp (pair.replay [] handoff) 0 = .mem flagLoad from waiting.looks)
  have candidates : Scheduler.runnable (handoff.config.geometry 0) s.sched = [0, 1] := by
    have total : (handoff.config.geometry 0).total = 2 := by decide
    simp [Scheduler.runnable, total, waiting.status, List.range_succ]
  have kept : Scheduler.yieldNow (s.geometry (pair.replay [] handoff)) s.sched =
      (Scheduler.commit s.sched 0 (.replay [] (cursor + 1)), []) := by
    have picked : Scheduler.pickNext (handoff.config.geometry 0) s.sched =
        Scheduler.commit s.sched 0 (.replay [] (cursor + 1)) := by
      rw [Scheduler.pickNext_of_cons _ candidates, waiting.reading, waiting.current]
      rfl
    have current : (Scheduler.commit s.sched 0 (.replay [] (cursor + 1))).current = some 0 := by
      unfold Scheduler.commit
      split <;> rfl
    simp [geometry, Scheduler.yieldNow, Scheduler.handOff, picked, current]
  generalize committed : Scheduler.commit s.sched 0 (.replay [] (cursor + 1)) = sched at kept
  have after : sched.aborted = s.sched.aborted ∧ sched.current = some 0 ∧
      sched.status = s.sched.status ∧ sched.choices = .replay [] (cursor + 1) := by
    rw [← committed]
    unfold Scheduler.commit
    split <;> exact ⟨rfl, rfl, rfl, rfl⟩
  obtain ⟨live, current, status, reading⟩ := after
  simp only [dispatch, kept] at yields
  have inside : flagLoad.index < ((s.mem (.global 1)).forLaunch (.global 1) 1).len := by
    rw [waiting.len]
    decide
  have loaded : flagLoad.act.update
      (((s.mem (.global 1)).forLaunch (.global 1) 1).data 0) = .ok (0, .val 0) := by
    rw [waiting.down]
    rfl
  have pc : (((s.setPc 0 (.atAccess flagLoad)).withSched (sched, [])).threads 0).pc =
      .atAccess flagLoad := by
    change ((s.setPc 0 (.atAccess flagLoad)).threads 0).pc = _
    rw [setPc_self]
  obtain ⟨l, reads⟩ := step_of_access (pair.replay [] handoff) (live.trans waiting.live) current pc
    inside loaded
  -- What the load leaves: the turn as it was, one more answer, and the flag still down.
  refine ⟨_, _, l, _, yields, reads, ?_⟩
  generalize done : ((s.setPc 0 (.atAccess flagLoad)).withSched (sched, [])).accessed
    (pair.replay [] handoff) _ flagLoad 0 (.val 0) = t
  have same_sched : t.sched = sched := by rw [← done]; rfl
  have same_start : t.firstBlock = 0 := by rw [← done]; exact waiting.start
  have thread : t.threads 0 = ⟨.ready, (s.threads 0).answers ++ [.val 0]⟩ := by
    rw [← done]
    simp [accessed, ctx, withSched]
  have flag : ∃ shadow, t.mem (.global 1) = { (s.mem (.global 1)).forLaunch (.global 1) 1 with
      data := Function.update ((s.mem (.global 1)).forLaunch (.global 1) 1).data 0 0
      shadow := shadow } := by
    rw [← done]
    simp only [accessed, answer_mem, report_mem]
    exact ⟨_, Function.update_self ..⟩
  obtain ⟨shadow, flag⟩ := flag
  have touched : (t.mem (.global 1)).launchId = handoff.id := by
    have now : ((s.mem (.global 1)).forLaunch (.global 1) handoff.id).launchId = handoff.id :=
      Instrumented.forLaunch_launchId ..
    rw [flag]
    exact now
  have seen : (t.mem (.global 1)).forLaunch (.global 1) 1 = t.mem (.global 1) :=
    Instrumented.forLaunch_of_touched (.global 1) touched
  refine ⟨?_, ?_, ?_, ?_, same_start, ?_, ?_, ?_, ?_⟩
  · rw [same_sched, live, waiting.live]
  · rw [same_sched, current]
  · intro i
    rw [same_sched, status, waiting.status]
  · rw [same_sched, reading]
  · rw [thread]
  · have block : (t.ctx handoff 0).block = 0 := by simp [ctx, same_start]
    unfold nextOp
    rw [block, thread]
    simp [handoff]
  · rw [seen, flag]
    exact waiting.len
  · rw [seen, flag]
    show Function.update ((s.mem (.global 1)).forLaunch (.global 1) 1).data (0 : Nat) (0 : Nat) 0 = 0
    simp

theorem waiting_start : Waiting 1 (init (pair.replay [] handoff)) where
  live := by decide
  current := by decide
  status i := show (start (pair.replay [] handoff) 0 0).status i = .runnable from start_status 0 0 i
  reading := by decide
  start := rfl
  ready := rfl
  looks := rfl
  len := rfl
  down := rfl

/-- Block 0 looks forever, one decision each time. -/
theorem waiting_always (n : Nat) :
    Waiting (n + 1) ((run (pair.replay [] handoff)).state (2 * n)) := by
  induction n with
  | zero => exact waiting_start
  | succ n ih =>
    obtain ⟨l, s', l', s'', first, second, again⟩ := ih.again
    have next : (run (pair.replay [] handoff)).state (2 * n + 1) = s' :=
      (run (pair.replay [] handoff)).state_succ_of_next first
    rw [← next] at second
    rw [← (run (pair.replay [] handoff)).state_succ_of_next second] at again
    exact again

theorem handoff_endless (n : Nat) : ¬ (run (pair.replay [] handoff)).Halted n := by
  intro halted
  obtain ⟨l, s', -, -, moved, -⟩ := (waiting_always n).again
  have stopped := ((run (pair.replay [] handoff)).halted_mono halted (by omega : n ≤ 2 * n)).1
  rw [Machine.Halted, show (run (pair.replay [] handoff)).next _ = some (l, s') from moved] at stopped
  cases stopped

def handoffSeeded : Env Nat := { handoff with choicesOf := pair.choicesOf (.random ⟨1⟩) }

def handoffTarget : String :=
  (((run handoffSeeded).state 10).replayed.diagnostics.map (·.fingerprint)).headI

/-- The seeded run ends with a complete recording and one finding. -/
theorem handoff_recorded : (run handoffSeeded).Halted 10 ∧
    ((run handoffSeeded).state 10).recording pair = ([1, 1, 0, 1, 0, 0], true) ∧
    ((run handoffSeeded).state 10).replayed.diagnostics ≠ [] := by
  rw [Machine.Halted, ← Option.isNone_iff_eq_none]
  set_option maxRecDepth 100000 in decide +kernel

/-- The recording replays to the same finding. -/
theorem handoff_reproduces :
    (run (pair.replay [1, 1, 0, 1, 0, 0] handoff)).Halted 10 ∧
    Report.contains ((run (pair.replay [1, 1, 0, 1, 0, 0] handoff)).state 10).replayed.diagnostics
      handoffTarget = true := by
  rw [Machine.Halted, ← Option.isNone_iff_eq_none]
  set_option maxRecDepth 100000 in decide +kernel

/-- The seeded run ends with a complete recording. Its shrink replays the recording, finds the race
again, and never returns from its second replay, that of the empty plan. -/
theorem handoff_hangs : (run handoffSeeded).Halted 10 ∧
    ((run handoffSeeded).state 10).recording pair = ([1, 1, 0, 1, 0, 0], true) ∧
    ¬ ReplayEnds pair handoff [] ∧
    ∀ runOnce, Runs pair handoff handoffTarget runOnce →
      Explore.shrink runOnce [1, 1, 0, 1, 0, 0] true 256
        ((run handoffSeeded).state 10).replayed.diagnostics true = none ∧
      ¬ ShrinkReturns pair handoff ((run handoffSeeded).state 10) true 256 runOnce := by
  obtain ⟨halted, recording, found⟩ := handoff_recorded
  have endless : ¬ ReplayEnds pair handoff [] := by
    rintro ⟨n, stopped⟩
    exact handoff_endless n stopped
  refine ⟨halted, recording, endless, ?_⟩
  intro runOnce runs
  have again : runOnce [1, 1, 0, 1, 0, 0] = some true := by
    rw [runs.eq handoff_reproduces.1, handoff_reproduces.2]
  have empty : runOnce [] = none := by
    rw [← Option.not_isSome_iff_eq_none]
    exact fun answers => endless ((runs.isSome_iff []).mp answers)
  have hangs : Explore.shrink runOnce [1, 1, 0, 1, 0, 0] true 256
      ((run handoffSeeded).state 10).replayed.diagnostics true = none := by
    simp [Explore.shrink, Explore.shrinkSpending, Explore.reproduces, found, again, empty]
  refine ⟨hangs, ?_⟩
  intro returned
  have some_outcome := returned.returns
  rw [recording, hangs] at some_outcome
  cases some_outcome

end Riri.Launch
