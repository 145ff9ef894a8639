import Riri.Guarantees.PhaseDeterminism
import Riri.Run.PhaseFindings

/-!
# Kernels in phases report the same under every schedule

What a launch of a kernel in phases reports is what its threads find when they run by themselves:
reads of elements nothing was stored to, and no race. Neither the schedule nor the number of
resident blocks decides what is found, only in which order.
-/
namespace Riri

variable {V : Type} [BEq V]

namespace Phasing

variable (phasing : Phasing) (program : Program V)

/-- What operation `k` of a thread's part of a phase reports. -/
def finding (block p thread k : Nat) : Option Diagnostic :=
  (phasing.alone program block p thread k).bind fun s => program.finding block p thread s.1 s.2

def report : List Diagnostic :=
  (List.range program.blocks).flatMap fun block =>
    (List.range (phasing.phases block + 1)).flatMap fun p =>
      (List.range program.threads).flatMap fun thread =>
        (List.range (phasing.steps block p thread)).filterMap fun k =>
          phasing.finding program block p thread k

def begun (block p thread : Nat) : Nat := ((phasing.snapshot program block p).first thread).length

variable {phasing program}

theorem mem_report {d : Diagnostic} : d ∈ phasing.report program ↔
    ∃ block < program.blocks, ∃ p ≤ phasing.phases block, ∃ thread < program.threads,
      ∃ k < phasing.steps block p thread, phasing.finding program block p thread k = some d := by
  simp only [report, List.mem_flatMap, List.mem_filterMap, List.mem_range, Nat.lt_succ_iff]

/-- A phase begins after the answers of the one before it and the barrier between them. -/
theorem Fits.begun_lt (fits : phasing.Fits program) {block p p' thread : Nat}
    (in_grid : block < program.blocks) (in_block : thread < program.threads)
    (phase : p' ≤ phasing.phases block) (earlier : p < p') :
    phasing.begun program block p thread + phasing.steps block p thread <
      phasing.begun program block p' thread := by
  have next : ∀ q, q < p' → phasing.begun program block (q + 1) thread =
      phasing.begun program block q thread + phasing.steps block q thread + 1 := by
    intro q before
    have told := fits.answers_length in_grid (p := q) (by omega) in_block
    have last : phasing.begun program block (q + 1) thread =
        (phasing.answers program block q thread).length + 1 := by
      simp [begun, snapshot, Phased.Snapshot.after, Phasing.answers]
    rw [last, told]
    rfl
  induction p' with
  | zero => exact absurd earlier (Nat.not_lt_zero p)
  | succ p' ih =>
    have step := next p' (Nat.lt_succ_self p')
    rcases Nat.lt_succ_iff_lt_or_eq.mp earlier with before | rfl
    · have past := ih (by omega) before (fun q below => next q (by omega))
      omega
    · omega

/-- How much a thread has been told says where in which phase it is. -/
theorem Fits.place_unique (fits : phasing.Fits program) {block p p' thread j k : Nat}
    (in_grid : block < program.blocks) (in_block : thread < program.threads)
    (phase : p ≤ phasing.phases block) (phase' : p' ≤ phasing.phases block)
    (within : j ≤ phasing.steps block p thread) (within' : k < phasing.steps block p' thread)
    (same : phasing.begun program block p' thread + k = phasing.begun program block p thread + j) :
    p' = p ∧ k = j := by
  rcases Nat.lt_trichotomy p' p with before | rfl | after
  · have apart := fits.begun_lt in_grid in_block phase before
    omega
  · exact ⟨rfl, by omega⟩
  · have apart := fits.begun_lt in_grid in_block phase' after
    omega

end Phasing

namespace Launch

variable (env : Env V) (phasing : Phasing)

def Reached (s : Launch V) (block p thread k : Nat) : Prop :=
  block < s.firstBlock ∨ ∃ waveBlock < env.config.waveBlocks s.firstBlock,
    block = s.firstBlock + waveBlock ∧ phasing.begun env.program block p thread + k <
      (s.said env (slotAt env waveBlock thread)).length

/-- Everything raised so far is a finding of an operation somebody has got past, and the other way
round. -/
def Discovered (s : Launch V) : Prop :=
  ∀ d, d ∈ s.raised ↔ ∃ block < env.program.blocks, ∃ p ≤ phasing.phases block,
    ∃ thread < env.program.threads, ∃ k < phasing.steps block p thread,
      Reached env phasing s block p thread k ∧
        phasing.finding env.program block p thread k = some d

variable {env phasing} {s s' : Launch V} {i : Nat}

/-- Operations somebody has newly got past add their findings. -/
theorem Discovered.of_more (discovered : Discovered env phasing s) {ds : List Diagnostic}
    (New : Nat → Nat → Nat → Nat → Prop) (raised : s'.raised = s.raised ++ ds)
    (reached : ∀ block < env.program.blocks, ∀ p ≤ phasing.phases block,
      ∀ thread < env.program.threads, ∀ k < phasing.steps block p thread,
        (Reached env phasing s' block p thread k ↔
          Reached env phasing s block p thread k ∨ New block p thread k))
    (found : ∀ d, d ∈ ds ↔ ∃ block < env.program.blocks, ∃ p ≤ phasing.phases block,
      ∃ thread < env.program.threads, ∃ k < phasing.steps block p thread,
        New block p thread k ∧ phasing.finding env.program block p thread k = some d) :
    Discovered env phasing s' := by
  intro d
  rw [raised, List.mem_append, discovered d, found d]
  constructor
  · intro either
    rcases either with ⟨block, in_grid, p, phase, thread, in_block, k, within, past, finds⟩ |
      ⟨block, in_grid, p, phase, thread, in_block, k, within, new, finds⟩
    · exact ⟨block, in_grid, p, phase, thread, in_block, k, within,
        (reached block in_grid p phase thread in_block k within).mpr (.inl past), finds⟩
    · exact ⟨block, in_grid, p, phase, thread, in_block, k, within,
        (reached block in_grid p phase thread in_block k within).mpr (.inr new), finds⟩
  · intro now
    obtain ⟨block, in_grid, p, phase, thread, in_block, k, within, past, finds⟩ := now
    rcases (reached block in_grid p phase thread in_block k within).mp past with before | new
    · exact .inl ⟨block, in_grid, p, phase, thread, in_block, k, within, before, finds⟩
    · exact .inr ⟨block, in_grid, p, phase, thread, in_block, k, within, new, finds⟩

/-- What is reached when some threads of the wave are told one thing more. -/
theorem reached_of_told (Told : Nat → Nat → Prop) [∀ w t, Decidable (Told w t)]
    (firstBlock : s'.firstBlock = s.firstBlock)
    (told : ∀ waveBlock < env.config.waveBlocks s.firstBlock,
      ∀ thread < env.config.threadsPerBlock,
        (s'.said env (slotAt env waveBlock thread)).length =
          (s.said env (slotAt env waveBlock thread)).length + if Told waveBlock thread then 1 else 0)
    {block p thread k : Nat} (in_block : thread < env.config.threadsPerBlock) :
    Reached env phasing s' block p thread k ↔ Reached env phasing s block p thread k ∨
      ∃ waveBlock < env.config.waveBlocks s.firstBlock, block = s.firstBlock + waveBlock ∧
        Told waveBlock thread ∧ phasing.begun env.program block p thread + k =
          (s.said env (slotAt env waveBlock thread)).length := by
  unfold Reached
  rw [firstBlock, or_assoc]
  apply or_congr Iff.rfl
  constructor
  · intro now
    obtain ⟨waveBlock, in_wave, here, past⟩ := now
    rw [told waveBlock in_wave thread in_block] at past
    by_cases more : Told waveBlock thread
    · rw [if_pos more] at past
      rcases Nat.lt_succ_iff_lt_or_eq.mp past with before | equal
      · exact .inl ⟨waveBlock, in_wave, here, before⟩
      · exact .inr ⟨waveBlock, in_wave, here, more, equal⟩
    · rw [if_neg more] at past
      exact .inl ⟨waveBlock, in_wave, here, past⟩
  · intro either
    rcases either with ⟨waveBlock, in_wave, here, past⟩ | ⟨waveBlock, in_wave, here, more, equal⟩
    · refine ⟨waveBlock, in_wave, here, ?_⟩
      rw [told waveBlock in_wave thread in_block]
      omega
    · refine ⟨waveBlock, in_wave, here, ?_⟩
      rw [told waveBlock in_wave thread in_block, if_pos more]
      omega

/-! ### What a step adds -/

/-- How much a thread has been told, by its phase. -/
theorem InPhase.told {waveBlock : Nat} {done : Nat → Nat}
    (inPhase : InPhase env phasing s waveBlock done) {thread : Nat}
    (in_block : thread < env.config.threadsPerBlock) :
    (s.said env (slotAt env waveBlock thread)).length =
      phasing.begun env.program (s.firstBlock + waveBlock) (s.sched.barrierGen waveBlock) thread +
        done thread := by
  obtain ⟨view, ran, -⟩ := inPhase.together.thread thread in_block
  exact Phasing.alone_length ran

/-- Where a thread is by what it has been told. -/
theorem InPhase.place_iff (fits : phasing.Fits env.program) {waveBlock : Nat} {done : Nat → Nat}
    (inPhase : InPhase env phasing s waveBlock done)
    (in_grid : s.firstBlock + waveBlock < env.config.blocks) {p thread k : Nat}
    (in_block : thread < env.config.threadsPerBlock)
    (phase : p ≤ phasing.phases (s.firstBlock + waveBlock))
    (within : k < phasing.steps (s.firstBlock + waveBlock) p thread) :
    phasing.begun env.program (s.firstBlock + waveBlock) p thread + k =
        (s.said env (slotAt env waveBlock thread)).length ↔
      p = s.sched.barrierGen waveBlock ∧ k = done thread := by
  rw [inPhase.told in_block]
  constructor
  · intro same
    exact fits.place_unique in_grid in_block inPhase.phase phase (inPhase.within thread in_block)
      within same
  · intro here
    rw [here.1, here.2]

/-- A step that tells nobody anything and raises nothing. -/
theorem Discovered.of_silent (discovered : Discovered env phasing s)
    (firstBlock : s'.firstBlock = s.firstBlock) (raised : s'.raised = s.raised)
    (said : ∀ j, s'.said env j = s.said env j) : Discovered env phasing s' := by
  intro d
  simp only [Reached, firstBlock, raised, said]
  exact discovered d

/-- A step that answers its thread raises what the operation finds. -/
theorem Discovered.of_answer (fits : phasing.Fits env.program) (course : OnCourse env phasing s)
    (numbered : Numbered env s) (inside : i < (s.geometry env).total)
    (discovered : Discovered env phasing s) (firstBlock : s'.firstBlock = s.firstBlock)
    {a : Resp V} (ds : List Diagnostic) (raised : s'.raised = s.raised ++ ds)
    (own : s'.said env i = s.said env i ++ [a])
    (others : ∀ j, j ≠ i → s'.said env j = s.said env j)
    (finds : ∀ done view, InPhase env phasing s (i / env.config.threadsPerBlock) done →
      phasing.alone env.program (s.firstBlock + i / env.config.threadsPerBlock)
        (s.sched.barrierGen (i / env.config.threadsPerBlock)) (i % env.config.threadsPerBlock)
        (done (i % env.config.threadsPerBlock)) = some (s.said env i, view) →
      ds = (env.program.finding (s.firstBlock + i / env.config.threadsPerBlock)
        (s.sched.barrierGen (i / env.config.threadsPerBlock)) (i % env.config.threadsPerBlock)
        (s.said env i) view).toList) : Discovered env phasing s' := by
  have in_grid := numbered.inGrid inside
  have in_block := mod_lt env i
  obtain ⟨done, inPhase⟩ := course.inside _ (inWave inside)
  obtain ⟨view, ran, -⟩ := inPhase.together.thread _ in_block
  rw [slotAt_self] at ran
  have found := finds done view inPhase ran
  have finding : phasing.finding env.program (s.firstBlock + i / env.config.threadsPerBlock)
      (s.sched.barrierGen (i / env.config.threadsPerBlock)) (i % env.config.threadsPerBlock)
      (done (i % env.config.threadsPerBlock)) =
        env.program.finding (s.firstBlock + i / env.config.threadsPerBlock)
          (s.sched.barrierGen (i / env.config.threadsPerBlock)) (i % env.config.threadsPerBlock)
          (s.said env i) view := by
    unfold Phasing.finding
    rw [show phasing.alone _ _ _ _ _ = _ from ran]
    rfl
  apply discovered.of_more _ raised
  · intro block _ p _ thread in_block' k _
    apply reached_of_told (fun w t => slotAt env w t = i) firstBlock ?_ in_block'
    intro waveBlock _ thread' _
    by_cases mine : slotAt env waveBlock thread' = i
    · rw [if_pos mine, mine, own, List.length_append, List.length_singleton]
    · rw [if_neg mine, others _ mine]
      rfl
  · intro d
    rw [found, Option.mem_toList, ← finding]
    constructor
    · intro here
      have more : done (i % env.config.threadsPerBlock) <
          phasing.steps (s.firstBlock + i / env.config.threadsPerBlock)
            (s.sched.barrierGen (i / env.config.threadsPerBlock))
            (i % env.config.threadsPerBlock) := by
        rw [finding] at here
        cases op : env.program.kernel (s.firstBlock + i / env.config.threadsPerBlock)
            (i % env.config.threadsPerBlock) (s.said env i) with
        | mem m =>
          exact fits.lt_of_mem in_grid inPhase.phase in_block (inPhase.within _ in_block) ran op
        | _ => simp [Program.finding, op] at here
      refine ⟨_, in_grid, _, inPhase.phase, _, in_block, _, more, ?_, here⟩
      refine ⟨_, inWave inside, rfl, slotAt_self i, ?_⟩
      exact (inPhase.place_iff fits in_grid in_block inPhase.phase more).mpr ⟨rfl, rfl⟩
    · intro new
      obtain ⟨block, _, p, phase, thread, in_block', k, within, new, here⟩ := new
      obtain ⟨waveBlock, in_wave, rfl, mine, place⟩ := new
      obtain rfl : waveBlock = i / env.config.threadsPerBlock := by
        rw [← mine, ← blockOf_eq s, slotAt_blockOf in_block']
      obtain rfl : thread = i % env.config.threadsPerBlock := by
        rw [← mine, slotAt_thread in_block']
      obtain ⟨rfl, rfl⟩ := (inPhase.place_iff fits in_grid in_block phase within).mp place
      exact here

/-- The last arrival at a barrier answers its block and raises nothing. -/
theorem Discovered.of_release (fits : phasing.Fits env.program) (numbered : Numbered env s)
    {waveBlock : Nat} (in_wave : waveBlock < env.config.waveBlocks s.firstBlock) {done : Nat → Nat}
    (inPhase : InPhase env phasing s waveBlock done)
    (met : ∀ thread < env.config.threadsPerBlock, done thread =
      phasing.steps (s.firstBlock + waveBlock) (s.sched.barrierGen waveBlock) thread)
    (discovered : Discovered env phasing s) (firstBlock : s'.firstBlock = s.firstBlock)
    (raised : s'.raised = s.raised)
    (answered : ∀ thread < env.config.threadsPerBlock, s'.said env (slotAt env waveBlock thread) =
      s.said env (slotAt env waveBlock thread) ++ [.unit])
    (others : ∀ j, j / env.config.threadsPerBlock ≠ waveBlock → s'.said env j = s.said env j) :
    Discovered env phasing s' := by
  have in_grid : s.firstBlock + waveBlock < env.config.blocks :=
    (Nat.add_lt_add_left in_wave _).trans_le numbered.blocks_le
  have nothing : s'.raised = s.raised ++ [] := by simp [raised]
  apply discovered.of_more _ nothing
  · intro block _ p _ thread in_block k _
    apply reached_of_told (fun w _ => w = waveBlock) firstBlock ?_ in_block
    intro w _ thread' in_block'
    by_cases here : w = waveBlock
    · rw [if_pos here, here, answered thread' in_block', List.length_append,
        List.length_singleton]
    · rw [if_neg here, others]
      · rfl
      · rw [← blockOf_eq s, slotAt_blockOf in_block']
        exact here
  · intro d
    constructor
    · intro absent
      cases absent
    · intro new
      -- Whoever is let go has no operation of the phase left to get past.
      obtain ⟨block, _, p, phase, thread, in_block, k, within, new, -⟩ := new
      obtain ⟨w, _, rfl, rfl, place⟩ := new
      obtain ⟨rfl, rfl⟩ := (inPhase.place_iff fits in_grid in_block phase within).mp place
      rw [met thread in_block] at within
      exact absurd within (Nat.lt_irrefl _)

omit [BEq V] in
/-- The record an access makes, in the program's terms. -/
theorem Counted.accessOf (counted : Counted env s) (inside : i < (s.geometry env).total)
    (m : MemOp V) : s.accessOf env (s.ctx env i) m =
      { block := s.firstBlock + i / env.config.threadsPerBlock
        thread := i % env.config.threadsPerBlock
        epoch := s.sched.barrierGen (i / env.config.threadsPerBlock)
        warp := i % env.config.threadsPerBlock / env.config.warpSize
        warpEpoch := 0
        seq := env.program.accesses (s.firstBlock + i / env.config.threadsPerBlock)
          (i % env.config.threadsPerBlock) (s.threads i).answers + 1
        kind := m.act.kind
        location := m.loc } := by
  rw [← counted.own i inside, ← (acquired_rest env s i m).1, ← counted.warps
    ((s.geometry env).warpGenIndex (s.ctx env i).waveBlock (s.ctx env i).warp)]
  simp only [Launch.accessOf, access, SyncState.tick, Function.update_self]
  rfl

/-- An access that meets no conflict raises what the program finds. -/
theorem InPhase.accessReports (fits : phasing.Fits env.program)
    (numbered : Numbered env s) (counted : Counted env s) (inside : i < (s.geometry env).total)
    {done : Nat → Nat} (inPhase : InPhase env phasing s (i / env.config.threadsPerBlock) done)
    {view : Buf × Nat → V × Bool}
    (ran : phasing.alone env.program (s.firstBlock + i / env.config.threadsPerBlock)
      (s.sched.barrierGen (i / env.config.threadsPerBlock)) (i % env.config.threadsPerBlock)
      (done (i % env.config.threadsPerBlock)) = some ((s.threads i).answers, view))
    (said : s.said env i = (s.threads i).answers) {m : MemOp V} (op : s.nextOp env i = .mem m)
    (bound : m.index < (env.mem m.buf).len) :
    Riri.accessReports (space env m.buf) m.index (s.cellOf env m.buf m.index).init
        (s.accessOf env (s.ctx env i) m) none =
      (env.program.finding (s.firstBlock + i / env.config.threadsPerBlock)
        (s.sched.barrierGen (i / env.config.threadsPerBlock)) (i % env.config.threadsPerBlock)
        (s.threads i).answers view).toList := by
  have in_grid := numbered.inGrid inside
  have in_block := mod_lt env i
  rw [nextOp_eq] at op
  have more := fits.lt_of_mem in_grid inPhase.phase in_block (inPhase.within _ in_block) ran op
  obtain ⟨seen, allowed⟩ := fits.uses _ in_grid _ inPhase.phase _ in_block _ more _ ran m op bound
  have same : s.memory env (m.buf, m.index) = view (m.buf, m.index) := by
    refine inPhase.together.sees (fits.keeps in_grid inPhase.phase in_block) more.le in_block ?_ seen
      ?_
    · rw [slotAt_self, said]
      exact ran
    · cases allowed with
      | inl mine => exact .inl mine
      | inr read => exact .inr read.1
  have flag : (s.cellOf env m.buf m.index).init = (view (m.buf, m.index)).2 := by
    rw [← same]
    rfl
  have inside' : m.index < (env.program.mem m.buf).len := bound
  rw [counted.accessOf inside, flag]
  unfold Riri.accessReports Program.finding
  rw [op]
  by_cases written : m.act.kind = .write
  · simp [written]
  · cases init : (view (m.buf, m.index)).2 with
    | true => simp [init]
    | false =>
      simp only [ne_eq, written, not_false_eq_true, Bool.not_false, and_self, if_true, inside', init,
        Option.toList_some, Option.toList_none, List.map_nil, List.append_nil]
      rfl

/-- A move without an access tells the thread something and finds nothing. -/
theorem finding_of_inner {program : Program V} {block p thread : Nat}
    {answers l : List (Resp V)} (moved : program.move block thread answers = .inner l)
    (mem : Buf × Nat → V × Bool) :
    (∃ a, l = answers ++ [a]) ∧ program.finding block p thread answers mem = none := by
  unfold Program.move at moved
  unfold Program.finding
  cases op : program.kernel block thread answers with
  | fence =>
    rw [op] at moved
    cases moved
    simp
  | mem m =>
    rw [op] at moved
    by_cases inside : m.index < (program.mem m.buf).len
    · simp [inside] at moved
    · simp only [inside, if_false] at moved
      split at moved
      · cases moved
        simp [inside]
      · cases moved
  | ret | panic | syncThreads | warp =>
    rw [op] at moved
    cases moved

/-- Every step that leaves the launch running keeps its reports on their course. -/
theorem Moves.discovered {l : Label V} (fits : phasing.Fits env.program)
    (course : OnCourse env phasing s) (numbered : Numbered env s) (standing : Standing env s)
    (counted : Counted env s) (inside : i < (s.geometry env).total)
    (running : s.sched.status i = .runnable) (discovered : Discovered env phasing s)
    (move : Moves env s i l s')
    (clean : ∀ cx m acc old found, l = .access cx m acc old found → found = none) :
    Discovered env phasing s' := by
  have tells := move.tells standing running course.len
    (course.no_collective fits numbered standing inside)
  cases tells with
  | nothing gens said memory raised => exact discovered.of_silent move.firstBlock raised said
  | inner gens others moved memory raised =>
    have still : s'.raised = s.raised ++ [] := by rw [raised, List.append_nil]
    obtain ⟨a, told⟩ := (finding_of_inner (p := 0) moved env.program.data).1
    refine discovered.of_answer fits course numbered inside move.firstBlock [] still told others ?_
    intro done view inPhase ran
    rw [(finding_of_inner moved view).2]
    rfl
  | access m gens others op answers bound performed raised =>
    have conflict := clean _ _ _ _ _ rfl
    obtain ⟨a, told⟩ : ∃ a, s'.said env i = s.said env i ++ [a] := by
      have bound' : m.index < (env.program.mem m.buf).len := bound
      simp only [Program.move, op, bound', if_true, Phased.Move.perform, Option.map_map,
        Option.map_eq_some_iff] at performed
      obtain ⟨r, -, same⟩ := performed
      exact ⟨r.2, (Prod.mk.inj same).1.symm⟩
    refine discovered.of_answer fits course numbered inside move.firstBlock _ raised told others ?_
    intro done view inPhase ran
    rw [conflict]
    rw [answers] at ran op ⊢
    exact inPhase.accessReports fits numbered counted inside ran answers op bound
  | meet gens elsewhere waits answered memory raised =>
    have in_grid := numbered.inGrid inside
    obtain ⟨done, inPhase⟩ := course.inside _ (inWave inside)
    refine discovered.of_release fits numbered (inWave inside) inPhase ?_ move.firstBlock raised
      answered elsewhere
    intro thread in_block
    obtain ⟨loc, op⟩ := waits thread in_block
    exact (inPhase.of_stop fits in_grid in_block op (.inr (.inr (.inl ⟨loc, rfl⟩)))).1

/-! ### Along a run -/

/-- When everybody of a wave has returned, its blocks are past all their operations. -/
theorem OnCourse.reached (fits : phasing.Fits env.program) (course : OnCourse env phasing s)
    (numbered : Numbered env s) (settled : ∀ j, Settled env s j)
    (ended : ∀ j < (s.geometry env).total, s.sched.status j = .finished) {block p thread k : Nat}
    (earlier : block < s.firstBlock + env.config.waveBlocks s.firstBlock)
    (phase : p ≤ phasing.phases block) (in_block : thread < env.config.threadsPerBlock)
    (within : k < phasing.steps block p thread) : Reached env phasing s block p thread k := by
  by_cases before : block < s.firstBlock
  · exact .inl before
  · obtain ⟨waveBlock, rfl⟩ := Nat.exists_eq_add_of_le (Nat.le_of_not_lt before)
    have in_wave := Nat.lt_of_add_lt_add_left earlier
    have in_grid : s.firstBlock + waveBlock < env.config.blocks :=
      earlier.trans_le numbered.blocks_le
    obtain ⟨done, inPhase⟩ := course.inside waveBlock in_wave
    obtain ⟨last, all⟩ := OnCourse.ended fits numbered settled ended in_wave inPhase
    refine .inr ⟨waveBlock, in_wave, rfl, ?_⟩
    rw [inPhase.told in_block, all thread in_block, last]
    rcases Nat.lt_or_eq_of_le phase with earlier | rfl
    · have past := fits.begun_lt in_grid in_block le_rfl earlier
      omega
    · omega

/-- A wave that starts after earlier ones: nobody of it has been told anything. -/
theorem not_reached_of_start {firstBlock : Nat} (block : s.firstBlock = firstBlock)
    (threads : ∀ i, s.threads i = ⟨.ready, []⟩) {b p thread k : Nat} :
    Reached env phasing s b p thread k ↔ b < firstBlock := by
  unfold Reached
  rw [block]
  constructor
  · intro past
    rcases past with before | ⟨waveBlock, -, -, told⟩
    · exact before
    · have silent : s.said env (slotAt env waveBlock thread) = [] := by
        simp only [said, threads]
        rfl
      rw [silent] at told
      exact absurd told (Nat.not_lt_zero _)
  · intro before
    exact .inl before

theorem discovered_run (fits : phasing.Fits env.program) (n : Nat) :
    Discovered env phasing ((run env).state n) := by
  induction n with
  | zero =>
    intro d
    constructor
    · intro raised
      cases raised
    · intro reached
      obtain ⟨block, -, p, -, thread, -, k, -, past, -⟩ := reached
      exact absurd ((not_reached_of_start rfl fun _ => rfl).mp past) (Nat.not_lt_zero _)
  | succ n ih =>
    obtain ⟨live, course⟩ := onCourse_run fits n
    have goes := (onCourse_run fits (n + 1)).1
    have wf := wellFormed live
    rcases (run env).step_cases n with ⟨l, labelled, moved⟩ | ⟨-, stays⟩
    · obtain ⟨-, ⟨nobody, -, -, next⟩ | ⟨slot, current, resumed⟩⟩ := step_cases env moved
      · have ended : ∀ j < (((run env).state n).geometry env).total,
            ((run env).state n).sched.status j = .finished := by
          rcases wf.turn with ⟨i, -, taken, -⟩ | ⟨-, ended⟩
          · rw [nobody] at taken
            cases taken
          · exact ended
        have silent : ((run env).state (n + 1)).raised = ((run env).state n).raised ++ [] := by
          rw [next, List.append_nil]
          rfl
        apply ih.of_more (fun _ _ _ _ => False) silent
        · intro block _ p phase thread in_block k within
          rw [or_false, next, not_reached_of_start rfl fun _ => rfl]
          constructor
          · intro earlier
            exact course.reached fits (numbered env n) wf.settled ended earlier phase in_block within
          · intro past
            rcases past with before | ⟨waveBlock, in_wave, rfl, -⟩
            · exact before.trans_le (Nat.le_add_right ..)
            · exact Nat.add_lt_add_left in_wave _
        · intro d
          simp
      · obtain ⟨inside, running⟩ := wf.running current
        refine (resumed.moves env live goes).discovered fits course (numbered env n)
          (standing_run live) (counted_run fits n) inside running ih ?_
        intro cx m acc old found access
        exact no_conflict fits (by rw [labelled, access])
    · rw [stays]
      exact ih

/-- What a kernel in phases reports is decided by its phases. Under every schedule and however many
blocks are resident everything a launch raises is in the report of its phases, which names no race,
and at its end it has raised all of it. -/
theorem phases_report (fits : phasing.Fits env.program) :
    (∀ n d, d ∈ ((run env).state n).raised → d ∈ phasing.report env.program) ∧
      (∀ n, (run env).Halted n →
        ∀ d, d ∈ ((run env).state n).raised ↔ d ∈ phasing.report env.program) ∧
      ∀ d ∈ phasing.report env.program, ∃ sp ix acc, d = .uninitRead sp ix acc := by
  have sound : ∀ n d, d ∈ ((run env).state n).raised → d ∈ phasing.report env.program := by
    intro n d raised
    obtain ⟨block, in_grid, p, phase, thread, in_block, k, within, -, finds⟩ :=
      (discovered_run fits n d).mp raised
    exact Phasing.mem_report.mpr ⟨block, in_grid, p, phase, thread, in_block, k, within, finds⟩
  refine ⟨sound, ?_, ?_⟩
  · intro n halted d
    obtain ⟨live, course⟩ := onCourse_run fits n
    obtain ⟨last, ended⟩ := over_of_halted halted live
    constructor
    · exact sound n d
    · intro found
      obtain ⟨block, in_grid, p, phase, thread, in_block, k, within, finds⟩ :=
        Phasing.mem_report.mp found
      have past := course.reached fits (numbered env n) (wellFormed live).settled ended
        (in_grid.trans_le last) phase in_block within
      exact (discovered_run fits n d).mpr
        ⟨block, in_grid, p, phase, thread, in_block, k, within, past, finds⟩
  · intro d found
    obtain ⟨block, -, p, -, thread, -, k, -, finds⟩ := Phasing.mem_report.mp found
    obtain ⟨s, -, finds⟩ := Option.bind_eq_some_iff.mp finds
    unfold Program.finding at finds
    split at finds
    · split at finds
      · exact ⟨_, _, _, (Option.some.inj finds).symm⟩
      · cases finds
    all_goals cases finds

/-- Two launches of a program report the same. -/
theorem phases_report_trading : ∃ n n',
    (run (trading [])).Halted n ∧ (run (trading [1, 1, 0])).Halted n' ∧
      (∀ d, d ∈ ((run (trading [])).state n).raised ↔
        d ∈ ((run (trading [1, 1, 0])).state n').raised) ∧
      .uninitRead (.global "data") 1 ⟨0, 1, 1, 0, 0, 3, .read, ⟨"kernel.rs", 6, 13⟩⟩ ∈
        ((run (trading [])).state n).raised := by
  obtain ⟨n, halted⟩ := phases_halt (halves_fits [])
  obtain ⟨n', halted'⟩ := phases_halt (halves_fits [1, 1, 0])
  have here := (phases_report (halves_fits [])).2.1 n halted
  have there := (phases_report (halves_fits [1, 1, 0])).2.1 n' halted'
  refine ⟨n, n', halted, halted', ?_, ?_⟩
  · intro d
    rw [here d, there d]
    rfl
  · rw [here]
    set_option maxRecDepth 100000 in decide +kernel

end Launch

end Riri
