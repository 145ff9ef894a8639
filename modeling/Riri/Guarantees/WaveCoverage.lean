import Riri.Run.Programs
import Riri.Run.Waves
import Riri.Source.Admission

/-!
# Every thread of the grid runs once

The waves cover the grid: a launch that ends without an abort has run every block and every
thread of it to its return, each in one slot of one wave, and nothing else. On the way every
index a thread uses is inside the table it is for, and every `u32` computation is exact.
-/
namespace Riri.Launch

open Scheduler (Turned)

variable {V : Type} [BEq V]

/-- The step at `n` is made by `slot` of wave `wave`, which is this thread of the grid. -/
def StepsAs (env : Env V) (wave slot block thread n : Nat) : Prop :=
  ((run env).state n).wave = wave ∧ ∃ l cx, (run env).label n = some l ∧ l.ctx? = some cx ∧
    cx.slot = slot ∧ cx.block = block ∧ cx.thread = thread

def ReturnsAt (env : Env V) (block thread n : Nat) : Prop :=
  ∃ cx, (run env).label n = some (.finish cx) ∧ cx.block = block ∧ cx.thread = thread

/-- A thread's indices are inside the tables they are for. -/
structure Placed (env : Env V) (s : Launch V) (cx : Ctx) : Prop where
  slot_lt : cx.slot < (s.geometry env).total
  block_lt : cx.block < env.config.blocks
  thread_lt : cx.thread < env.config.threadsPerBlock
  gid_eq : cx.gid = cx.block * env.config.threadsPerBlock + cx.thread
  /-- The clocks are `total` long. -/
  gid_lt : cx.gid < env.config.blocks * env.config.threadsPerBlock
  waveBlock_lt : cx.waveBlock < (s.geometry env).blocks
  warpGen_lt : (s.geometry env).warpGenIndex cx.waveBlock cx.warp <
    (s.geometry env).blocks * (s.geometry env).warpsPerBlock
  warpSlot_lt : warpIndex env cx < env.config.blocks * (s.geometry env).warpsPerBlock
  lane_lt : cx.lane < env.config.warpSize

/-- The `u32` computations of one wave: none overflows, none underflows. -/
structure InRange (env : Env V) (s : Launch V) : Prop where
  remaining : s.firstBlock ≤ env.config.blocks
  threads : env.config.waveBlocks s.firstBlock * env.config.threadsPerBlock < 2 ^ 32
  resident : (s.geometry env).total ≤ MAX_THREADS
  local_block : ∀ slot < (s.geometry env).total, slot / env.config.threadsPerBlock < 2 ^ 32
  block : ∀ slot < (s.geometry env).total,
    s.firstBlock + slot / env.config.threadsPerBlock < 2 ^ 32
  advance : s.firstBlock + env.config.waveBlocks s.firstBlock < 2 ^ 32

variable {env : Env V}

/-! ### Who has returned -/

/-- Only its own return finishes a thread, and nothing undoes that. -/
theorem Moves.finished_iff {s s' : Launch V} {slot i : Nat} {l : Label V}
    (running : s.sched.status slot = .runnable) (move : Moves env s slot l s') :
    s'.sched.status i = .finished ↔
      s.sched.status i = .finished ∨ (i = slot ∧ l = .finish (s.ctx env slot)) := by
  have marked : ∀ status, status ≠ Status.finished →
      (Function.update s.sched.status slot status i = .finished ↔
        s.sched.status i = .finished) := by
    intro status other
    by_cases mine : i = slot
    · subst mine
      simp [other, running]
    · rw [Function.update_of_ne mine]
  have let_go : ∀ group : List Nat, (∀ p ∈ group, p ≠ slot → s.sched.status p ≠ .finished) →
      ∀ status, status ≠ Status.finished →
      (Scheduler.setAll (Function.update s.sched.status slot status) group .runnable i =
        .finished ↔ s.sched.status i = .finished) := by
    intro group alive status other
    unfold Scheduler.setAll
    split
    next member =>
      refine iff_of_false (by simp) ?_
      by_cases mine : i = slot
      · rw [mine, running]
        simp
      · exact alive i member mine
    · exact marked status other
  cases move with
  | @finish sched pc op unwanted alone turned =>
    have status : sched.status = (Scheduler.finishMarked slot s.sched).status := by
      rcases turned with turned | ⟨rfl, -⟩
      · exact turned.status
      · rfl
    rw [turn_sched, status]
    by_cases mine : i = slot
    · subst mine
      simp [Scheduler.finishMarked]
    · simp [Scheduler.finishMarked, mine]
  | arrive pc loc op alive waiting turned =>
    rw [turn_sched, turned.status, or_iff_left fun h => by cases h.2]
    exact marked .atBarrier (by simp)
  | release pc loc op everyone turned =>
    rw [turn_sched, turned.status, or_iff_left fun h => by cases h.2]
    refine let_go _ (fun p member away => ?_) .atBarrier (by simp)
    rw [everyone p ((s.geometry env).mem_blockRange.mp member) away]
    simp
  | publish c pc checked alive agree missing turned
  | exchange c pc answer problems combined alive agree missing turned =>
    rw [turn_sched, turned.status, or_iff_left fun h => by cases h.2]
    exact marked .atWarp (by simp)
  | gather c pc checked agree everyone turned
  | disperse c pc answer problems combined agree everyone turned =>
    rw [turn_sched, turned.status, or_iff_left fun h => by cases h.2]
    refine let_go _ (fun p member away => ?_) .atWarp (by simp)
    obtain ⟨block, warp, named⟩ := (s.geometry env).mem_members.mp member
    rw [(everyone p ⟨⟨block, warp⟩, named, away⟩).1]
    simp
  | yieldAccess pc m op turned | yieldCollective pc c op turned =>
    rw [turn_sched, turned.status, or_iff_left fun h => by cases h.2]
  | fence | access | miss | depart | leave => exact (or_iff_left fun h => by cases h.2).symm

def ReturnedBefore (env : Env V) (n wave slot : Nat) : Prop :=
  ∃ k < n, ((run env).state k).wave = wave ∧
    (run env).label k = some (.finish (((run env).state k).ctx env slot))

theorem ReturnedBefore.mono {n m wave slot : Nat} (le : n ≤ m)
    (returned : ReturnedBefore env n wave slot) : ReturnedBefore env m wave slot := by
  obtain ⟨k, before, rest⟩ := returned
  exact ⟨k, before.trans_le le, rest⟩

/-- A finished thread has returned, and so has every slot of the waves before. -/
theorem returned_of_live {n : Nat} (live : Live ((run env).state n)) :
    (∀ i, ((run env).state n).sched.status i = .finished →
        ReturnedBefore env n ((run env).state n).wave i) ∧
      ∀ wave < ((run env).state n).wave, ∀ i < (env.config.geometry
        (wave * env.config.residentBlocks)).total, ReturnedBefore env n wave i := by
  induction n with
  | zero =>
    refine ⟨fun i ended => ?_, fun wave before => absurd before (Nat.not_lt_zero wave)⟩
    rw [Machine.state_zero, show (run env).init.sched.status i = .runnable from start_status ..]
      at ended
    cases ended
  | succ n ih =>
    have earlier := ih (live_of_succ live)
    obtain ⟨wf, ⟨-, stays⟩ | ⟨-, nobody, more, next⟩ | ⟨slot, l, labelled, current, move⟩⟩ :=
      live_step live
    · rw [stays]
      exact ⟨fun i ended => (earlier.1 i ended).mono (Nat.le_succ n),
        fun wave before i inside => (earlier.2 wave before i inside).mono (Nat.le_succ n)⟩
    · have ended : ∀ i < (((run env).state n).geometry env).total,
          ((run env).state n).sched.status i = .finished := by
        rcases wf.turn with ⟨i, -, taken, -⟩ | ⟨-, ended⟩
        · rw [nobody] at taken
          cases taken
        · exact ended
      rw [next]
      refine ⟨fun i ended => ?_, fun wave before i inside => ?_⟩
      · rw [show (((run env).state n).nextWave env).sched.status i = .runnable from
          start_status ..] at ended
        cases ended
      · rcases Nat.lt_succ_iff_lt_or_eq.mp before with older | rfl
        · exact (earlier.2 wave older i inside).mono (Nat.le_succ n)
        · rw [← (numbered env n).start] at inside
          exact (earlier.1 i (ended i inside)).mono (Nat.le_succ n)
    · rw [move.wave]
      refine ⟨fun i ended => ?_, fun wave before i inside =>
        (earlier.2 wave before i inside).mono (Nat.le_succ n)⟩
      rcases (move.finished_iff (wf.running current).2).mp ended with before | ⟨rfl, rfl⟩
      · exact (earlier.1 i before).mono (Nat.le_succ n)
      · exact ⟨n, Nat.lt_succ_self n, rfl, labelled⟩

/-! ### Where a thread is placed -/

omit [BEq V] in
/-- The blocks of a wave are blocks of the grid. -/
theorem Numbered.blocks_le {s : Launch V} (numbered : Numbered env s) :
    s.firstBlock + env.config.waveBlocks s.firstBlock ≤ env.config.blocks := by
  have := numbered.inside
  unfold Config.waveBlocks
  omega

omit [BEq V] in
theorem Numbered.inRange {s : Launch V} (numbered : Numbered env s) : InRange env s := by
  have total := env.config.total_lt
  have blocks : env.config.blocks < 2 ^ 32 :=
    lt_of_le_of_lt (Nat.le_mul_of_pos_right _ env.config.threads_pos) total
  have covered := numbered.blocks_le
  have block_lt : ∀ slot < (s.geometry env).total,
      s.firstBlock + slot / env.config.threadsPerBlock < env.config.blocks := by
    intro slot inside
    have here : slot / env.config.threadsPerBlock < env.config.waveBlocks s.firstBlock :=
      (s.geometry env).blockOf_lt inside
    omega
  refine ⟨numbered.inside.le, ?_, (s.geometry env).fits, fun slot inside => ?_,
    fun slot inside => (block_lt slot inside).trans blocks, lt_of_le_of_lt covered blocks⟩
  · refine lt_of_le_of_lt (Nat.mul_le_mul_right _ ?_) total
    omega
  · have := block_lt slot inside
    omega

/-- An index into a table of `m` rows of `n`. -/
theorem row_lt {a b m n : Nat} (row : a < m) (column : b < n) : a * n + b < m * n := by
  rw [Nat.mul_comm a]
  exact Nat.mul_add_lt_mul_of_lt_of_lt row column

omit [BEq V] in
/-- The slot of a thread of the grid is a slot of its wave. -/
theorem slotOf_lt {block thread : Nat} (in_grid : block < env.config.blocks)
    (in_block : thread < env.config.threadsPerBlock) :
    env.config.slotOf block thread <
      (env.config.geometry (env.config.waveOf block * env.config.residentBlocks)).total := by
  have row : block % env.config.residentBlocks <
      env.config.waveBlocks (env.config.waveOf block * env.config.residentBlocks) := by
    have split := Nat.div_add_mod' block env.config.residentBlocks
    have := Nat.mod_lt block env.config.resident_pos
    unfold Config.waveBlocks Config.waveOf
    omega
  exact row_lt row in_block

omit [BEq V] in
/-- In that slot it sees its own indices. -/
theorem Numbered.ctx_slotOf {s : Launch V} (numbered : Numbered env s) {block thread : Nat}
    (wave : s.wave = env.config.waveOf block) (in_block : thread < env.config.threadsPerBlock) :
    (s.ctx env (env.config.slotOf block thread)).block = block ∧
      (s.ctx env (env.config.slotOf block thread)).thread = thread := by
  have row : env.config.slotOf block thread / env.config.threadsPerBlock =
      block % env.config.residentBlocks := by
    unfold Config.slotOf
    rw [Nat.mul_comm, Nat.mul_add_div env.config.threads_pos, Nat.div_eq_of_lt in_block,
      Nat.add_zero]
  constructor
  · simp only [ctx, row, numbered.start, wave]
    exact Nat.div_add_mod' ..
  · simp only [ctx, Config.slotOf]
    rw [Nat.mul_add_mod', Nat.mod_eq_of_lt in_block]

omit [BEq V] in
theorem Numbered.placed {s : Launch V} (numbered : Numbered env s) {slot : Nat}
    (inside : slot < (s.geometry env).total) : Placed env s (s.ctx env slot) := by
  have waveBlock := (s.geometry env).blockOf_lt inside
  have warp := (s.geometry env).warpOf_lt slot
  have thread : slot % env.config.threadsPerBlock < env.config.threadsPerBlock :=
    Nat.mod_lt _ env.config.threads_pos
  have block : (s.ctx env slot).block < env.config.blocks := by
    have covered := numbered.blocks_le
    have here : slot / env.config.threadsPerBlock < env.config.waveBlocks s.firstBlock := waveBlock
    simp only [ctx]
    omega
  exact ⟨inside, block, thread, rfl, row_lt block thread, waveBlock, row_lt waveBlock warp,
    row_lt block warp, Nat.mod_lt _ env.config.lanes_pos⟩

theorem placed_of_label {n : Nat} {l : Label V} {cx : Ctx} (labelled : (run env).label n = some l)
    (thread : l.ctx? = some cx) : Placed env ((run env).state n) cx := by
  obtain ⟨slot, -, rfl, inside, -⟩ := label_slot labelled thread
  exact (numbered env n).placed inside

/-- A thread of the grid has one slot in one wave. -/
theorem place_of_steps {wave slot block thread n : Nat} (steps : StepsAs env wave slot block thread n) :
    wave = env.config.waveOf block ∧ slot = env.config.slotOf block thread := by
  obtain ⟨rfl, l, cx, labelled, here, rfl, rfl, rfl⟩ := steps
  obtain ⟨slot, -, rfl, inside, -⟩ := label_slot labelled here
  exact (numbered env n).identity inside

omit [BEq V] in
/-- Global ids are told apart by block and thread. -/
theorem eq_of_gid {b t b' t' : Nat} (thread : t < env.config.threadsPerBlock)
    (thread' : t' < env.config.threadsPerBlock)
    (gid : b * env.config.threadsPerBlock + t = b' * env.config.threadsPerBlock + t') :
    b = b' ∧ t = t' := by
  have positive := env.config.threads_pos
  have block : b = b' := by
    have divided := congrArg (· / env.config.threadsPerBlock) gid
    simpa [Nat.mul_comm b, Nat.mul_comm b', Nat.mul_add_div positive, Nat.div_eq_of_lt thread,
      Nat.div_eq_of_lt thread'] using divided
  subst block
  exact ⟨rfl, Nat.add_left_cancel gid⟩

/-! ### The waves cover the grid -/

/-- A thread that has returned takes no further step. -/
theorem silent_after_return {block thread j k : Nat} {l : Label V} {cx : Ctx}
    (returned : ReturnsAt env block thread j) (later : j < k)
    (labelled : (run env).label k = some l) (here : l.ctx? = some cx) (same_block : cx.block = block)
    (same_thread : cx.thread = thread) : False := by
  obtain ⟨cx', first, rfl, rfl⟩ := returned
  have wave := sameWave later.le first rfl labelled here same_block.symm
  obtain ⟨slot', current, rfl, inside', running, -⟩ := label_slot first rfl
  obtain ⟨slot, -, rfl, inside, still, -⟩ := label_slot labelled here
  obtain rfl : slot = slot' := by
    rw [((numbered env k).identity inside).2, ((numbered env j).identity inside').2, same_block,
      same_thread]
  have live := live_of_label labelled
  obtain ⟨-, ⟨silent, -⟩ | ⟨next, -⟩ | ⟨me, l', again, current', move⟩⟩ :=
    live_step (live_of_le later live)
  · rw [first] at silent
    cases silent
  · rw [first] at next
    cases next
  · obtain rfl : slot = me := Option.some.inj (current.symm.trans current')
    obtain rfl := Option.some.inj (first.symm.trans again)
    have ended := (move.finished_iff (i := slot) running).mpr (.inr ⟨rfl, rfl⟩)
    have stays : ((run env).state (j + 1)).sched.status slot = .finished →
        ((run env).state k).sched.status slot = .finished :=
      wave_induction (R := fun s t => s.sched.status slot = .finished →
          t.sched.status slot = .finished)
        (fun _ => id) (fun _ _ _ f g h => g (f h))
        (fun n me l _ wf current move h =>
          (move.finished_iff (wf.running current).2).mpr (.inl h)) later live
        (by rw [wave, move.firstBlock])
    rw [stays ended] at still
    cases still

/-- A thread returns at most once. -/
theorem returns_unique {block thread j k : Nat} (first : ReturnsAt env block thread j)
    (second : ReturnsAt env block thread k) : j = k := by
  have ordered : ∀ {j k}, ReturnsAt env block thread j → ReturnsAt env block thread k →
      ¬ j < k := by
    rintro j k first ⟨cx, labelled, same_block, same_thread⟩ before
    exact silent_after_return first before labelled rfl same_block same_thread
  exact Nat.le_antisymm (Nat.le_of_not_lt (ordered second first))
    (Nat.le_of_not_lt (ordered first second))

/-- When a launch ends without an abort its last wave reaches the end of the grid, and every
thread of it has returned. -/
theorem over_of_halted {n : Nat} (halted : (run env).Halted n) (live : Live ((run env).state n)) :
    env.config.blocks ≤ ((run env).state n).firstBlock +
        env.config.waveBlocks ((run env).state n).firstBlock ∧
      ∀ i < (((run env).state n).geometry env).total,
        ((run env).state n).sched.status i = .finished := by
  have stopped : ((run env).state n).step env = none := halted
  have running : ((run env).state n).sched.aborted = false := live
  simp only [step, running, Bool.false_eq_true, if_false] at stopped
  rcases (wellFormed live).turn with ⟨i, -, current, -⟩ | ⟨nobody, ended⟩
  · rw [current] at stopped
    cases stopped
  · rw [nobody] at stopped
    simp only [ite_eq_right_iff, reduceCtorEq, imp_false, Nat.not_lt] at stopped
    exact ⟨stopped, ended⟩

/-- Every thread of the grid has returned by then. -/
theorem returns_of_halted {n : Nat} (halted : (run env).Halted n)
    (live : Live ((run env).state n)) {block thread : Nat} (in_grid : block < env.config.blocks)
    (in_block : thread < env.config.threadsPerBlock) :
    ∃ k, ReturnsAt env block thread k ∧
      ((run env).state k).wave = env.config.waveOf block := by
  obtain ⟨covered, ended⟩ := over_of_halted halted live
  obtain ⟨this_wave, earlier_waves⟩ := returned_of_live live
  have inside := slotOf_lt in_grid in_block
  have reached : env.config.waveOf block ≤ ((run env).state n).wave := by
    have short : env.config.waveBlocks ((run env).state n).firstBlock ≤ env.config.residentBlocks :=
      Nat.min_le_left ..
    refine Nat.lt_succ_iff.mp ((Nat.div_lt_iff_lt_mul env.config.resident_pos).mpr ?_)
    rw [Nat.succ_mul, ← (numbered env n).start]
    omega
  have returned : ReturnedBefore env n (env.config.waveOf block)
      (env.config.slotOf block thread) := by
    rcases Nat.lt_or_eq_of_le reached with earlier | last
    · exact earlier_waves _ earlier _ inside
    · rw [last, ← (numbered env n).start] at inside
      rw [last]
      exact this_wave _ (ended _ inside)
  obtain ⟨k, -, wave, labelled⟩ := returned
  obtain ⟨same_block, same_thread⟩ := (numbered env k).ctx_slotOf wave in_block
  exact ⟨k, ⟨_, labelled, same_block, same_thread⟩, wave⟩

/-- What a launch does with the grid it was given. -/
structure CoversGrid (env : Env V) (config : LaunchConfig) : Prop where
  /-- `for wave in 0..waves`. -/
  wave_lt : ∀ n, ((run env).state n).wave < config.waves
  in_range : ∀ n, InRange env ((run env).state n)
  placed : ∀ n l cx, (run env).label n = some l → l.ctx? = some cx →
    Placed env ((run env).state n) cx
  gid_inj : ∀ n n' l l' cx cx', (run env).label n = some l → l.ctx? = some cx →
    (run env).label n' = some l' → l'.ctx? = some cx' → cx.gid = cx'.gid →
    cx.block = cx'.block ∧ cx.thread = cx'.thread
  one_place : ∀ wave slot block thread wave' slot' n n',
    StepsAs env wave slot block thread n → StepsAs env wave' slot' block thread n' →
    wave = wave' ∧ slot = slot'
  once : ∀ n, (run env).Halted n → Live ((run env).state n) →
    ((run env).state n).wave + 1 = config.waves ∧
    ∀ block < config.blocks, ∀ thread < config.threadsPerBlock,
      (∃! place : Nat × Nat, ∃ k, StepsAs env place.1 place.2 block thread k) ∧
      ∃! k, ReturnsAt env block thread k

/-- Every launch `run_shared` accepts covers its grid. -/
theorem covers_grid (env : Env V) (config : LaunchConfig)
    (accepted : config.checked = some env.config) : CoversGrid env config := by
  obtain ⟨blocks, threads, resident, -⟩ := LaunchConfig.sizes_of_checked accepted
  have resident_pos := env.config.resident_pos
  refine ⟨fun n => ?_, fun n => (numbered env n).inRange, fun n l cx => placed_of_label, ?_, ?_, ?_⟩
  · have inside := (numbered env n).inside
    rw [(numbered env n).start] at inside
    unfold LaunchConfig.waves
    rw [← blocks, ← resident, ← Nat.succ_le_iff, Nat.le_div_iff_mul_le resident_pos, Nat.succ_mul]
    omega
  · intro n n' l l' cx cx' labelled here labelled' here' gid
    have placed := placed_of_label labelled here
    have placed' := placed_of_label labelled' here'
    rw [placed.gid_eq, placed'.gid_eq] at gid
    exact eq_of_gid placed.thread_lt placed'.thread_lt gid
  · intro wave slot block thread wave' slot' n n' steps steps'
    obtain ⟨rfl, rfl⟩ := place_of_steps steps
    obtain ⟨rfl, rfl⟩ := place_of_steps steps'
    exact ⟨rfl, rfl⟩
  · intro n halted live
    refine ⟨?_, fun block in_grid thread in_block => ?_⟩
    · have inside := (numbered env n).inside
      have covered := (over_of_halted halted live).1
      have short : env.config.waveBlocks ((run env).state n).firstBlock ≤
        env.config.residentBlocks := Nat.min_le_left ..
      rw [(numbered env n).start] at inside covered short
      unfold LaunchConfig.waves
      rw [← blocks, ← resident, eq_comm, Nat.div_eq_iff resident_pos,
        Nat.succ_mul]
      omega
    · rw [← blocks] at in_grid
      rw [← threads] at in_block
      obtain ⟨k, returned, wave⟩ := returns_of_halted halted live in_grid in_block
      refine ⟨⟨(env.config.waveOf block, env.config.slotOf block thread), ?_, ?_⟩,
        ⟨k, returned, fun j again => returns_unique again returned⟩⟩
      · obtain ⟨cx, labelled, rfl, rfl⟩ := returned
        have steps : StepsAs env ((run env).state k).wave cx.slot cx.block cx.thread k :=
          ⟨rfl, _, cx, labelled, rfl, rfl, rfl, rfl⟩
        obtain ⟨same_wave, same_slot⟩ := place_of_steps steps
        rw [same_wave, same_slot] at steps
        exact ⟨k, steps⟩
      · rintro ⟨wave', slot'⟩ ⟨j, steps⟩
        obtain ⟨rfl, rfl⟩ := place_of_steps steps
        rfl

/-- Three blocks of two threads, two blocks at a time: the last wave is short. -/
def ragged : LaunchConfig := ⟨⟨3, 1, 1⟩, ⟨2, 1, 1⟩, 0, 32, some 2⟩

theorem ragged_admitted : ragged.checked.isSome := by decide

def raggedEnv : Env Nat :=
  { idling with
    config := ragged.checked.get ragged_admitted }

/-- It ends without an abort after six returns and a change of waves. -/
theorem covers_grid_ragged :
    CoversGrid raggedEnv ragged ∧ (run raggedEnv).Halted 7 ∧ Live ((run raggedEnv).state 7) := by
  refine ⟨covers_grid raggedEnv ragged (Option.some_get ragged_admitted).symm, ?_, ?_⟩
  · rw [Machine.Halted, ← Option.isNone_iff_eq_none]
    set_option maxRecDepth 100000 in decide +kernel
  · unfold Live
    set_option maxRecDepth 100000 in decide +kernel

end Riri.Launch
