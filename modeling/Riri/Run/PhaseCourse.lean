import Riri.Run.Phasing

/-!
# Kernels in phases on their course

The phase of a block is the generation of its barrier: whoever is not inside the barrier is in
that phase, and so is whoever waits in it. The threads of the block are together in the phase, and
the blocks of earlier waves have left their results. No step of such a launch can stop it.
-/
namespace Riri

/-! ### Operations that go through -/

namespace Scheduler

variable {g : Geometry} {s : State} {me : Nat}

/-- A return that leaves nobody waiting goes through, if somebody can go on or all have
returned. -/
theorem finish_goes (live : s.aborted = false) (unwanted : ∀ p wait, ¬ WaitsFor g s me p wait)
    (alone : ∀ i, g.blockOf i = g.blockOf me → i ≠ me → s.status i ≠ .atBarrier)
    (goes : runnable g (finishMarked me s) ≠ [] ∨
      ∀ i < g.total, (finishMarked me s).status i = .finished) :
    (finish g me s).1.aborted = false := by
  have marked : (finishMarked me s).aborted = false := live
  unfold finish
  rcases finishEnter_cases g me s with
    ⟨p, wait, wanted, -⟩ | ⟨-, ⟨i, mates, away, parked⟩, -⟩ | ⟨-, -, enter⟩
  · exact absurd wanted (unwanted p wait)
  · exact absurd parked (alone i mates away)
  · simp only [enter, marked, Bool.false_eq_true, if_false]
    by_cases empty : runnable g (finishMarked me s) = []
    · have ended := goes.resolve_left (not_not.mpr empty)
      rw [pickNext_of_none g empty, if_neg]
      · exact marked
      · intro both
        obtain ⟨i, inside, unfinished⟩ := both.2
        exact unfinished (ended i inside)
    · have turned := pickNext_turned g empty
      obtain ⟨i, -, -, current⟩ := turned.chosen
      rw [if_neg (by simp [current])]
      exact turned.aborted.trans marked

/-- An arrival goes through if nobody of the block has returned, and who is still missing can go
on. -/
theorem barrier_goes (loc : Location) (live : s.aborted = false) (inside : me < g.total)
    (alive : ∀ i, g.blockOf i = g.blockOf me → i ≠ me →
      s.status i = .atBarrier ∨ s.status i = .runnable) :
    (barrier g me loc s).1.aborted = false := by
  rcases barrierEnter_cases g me loc s with
    ⟨i, mates, away, ended, -⟩ | ⟨everyone, -⟩ | ⟨-, ⟨i, mates, away, missing⟩, enter⟩
  · rcases alive i mates away with parked | running
    · rw [ended] at parked
      cases parked
    · rw [ended] at running
      cases running
  · exact (barrier_last g loc live inside everyone).aborted.trans live
  · have running := (alive i mates away).resolve_left missing
    have here : i < g.total := by
      apply g.lt_total_of_blockOf
      rw [mates]
      exact g.blockOf_lt inside
    have free : runnable g (barrierParked g me loc s) ≠ [] := by
      intro empty
      have member : i ∈ runnable g (barrierParked g me loc s) :=
        (mem_runnable g).mpr ⟨here, (Function.update_of_ne away ..).trans running⟩
      rw [empty] at member
      cases member
    have parked : (barrierParked g me loc s).aborted = false := live
    unfold barrier handOffUnlessFailed
    rw [enter]
    simp only [parked, Bool.false_eq_true, if_false]
    exact (handOff_turned g free).1.aborted.trans parked

end Scheduler

namespace Launch

variable {V : Type}

variable [BEq V] (env : Env V) (phasing : Phasing)

/-- A block of the wave is in the phase its barrier counts, each thread some way through its
part. -/
structure InPhase (s : Launch V) (waveBlock : Nat) (done : Nat → Nat) : Prop where
  phase : s.sched.barrierGen waveBlock ≤ phasing.phases (s.firstBlock + waveBlock)
  within : ∀ thread < env.config.threadsPerBlock, done thread ≤
    phasing.steps (s.firstBlock + waveBlock) (s.sched.barrierGen waveBlock) thread
  together : Phased.Together (env.program.move (s.firstBlock + waveBlock))
    (phasing.owner (s.firstBlock + waveBlock) (s.sched.barrierGen waveBlock))
    (phasing.sight (s.firstBlock + waveBlock)) {thread | thread < env.config.threadsPerBlock}
    (phasing.snapshot env.program (s.firstBlock + waveBlock) (s.sched.barrierGen waveBlock)).first
    (phasing.snapshot env.program (s.firstBlock + waveBlock) (s.sched.barrierGen waveBlock)).mem
    done (fun thread => s.said env (slotAt env waveBlock thread)) (s.memory env)

/-- What holds of a launch whose kernel fits the phasing: the blocks of earlier waves have left
their results, those of the wave are in their phases, and nothing else has changed. -/
structure OnCourse (s : Launch V) : Prop where
  len : ∀ buf, (s.mem buf).len = (env.mem buf).len
  inside : ∀ waveBlock < env.config.waveBlocks s.firstBlock,
    ∃ done, InPhase env phasing s waveBlock done
  before : ∀ e block, phasing.home e = some block → block < s.firstBlock →
    s.memory env e = phasing.result env.program e
  beyond : ∀ e block, phasing.home e = some block →
    s.firstBlock + env.config.waveBlocks s.firstBlock ≤ block → s.memory env e = env.program.data e
  shared : ∀ e, phasing.home e = none → s.memory env e = env.program.data e

variable {env} {phasing}

/-! ### A thread in its phase -/

section

variable {s s' : Launch V} {i : Nat} {done : Nat → Nat}

/-- A thread that asks for anything but memory or a fence has done its part of the phase: it stands
at the barrier, or returns from the last phase. -/
theorem InPhase.of_stop (fits : phasing.Fits env.program) {waveBlock thread : Nat}
    (inPhase : InPhase env phasing s waveBlock done)
    (in_grid : s.firstBlock + waveBlock < env.config.blocks)
    (in_block : thread < env.config.threadsPerBlock) {op : Op V}
    (next : env.program.kernel (s.firstBlock + waveBlock) thread
      (s.said env (slotAt env waveBlock thread)) = op)
    (ends : op = .ret ∨ (∃ message, op = .panic message) ∨ (∃ loc, op = .syncThreads loc) ∨
      ∃ c, op = .warp c) :
    done thread = phasing.steps (s.firstBlock + waveBlock) (s.sched.barrierGen waveBlock) thread ∧
      ((s.sched.barrierGen waveBlock < phasing.phases (s.firstBlock + waveBlock) ∧
        ∃ loc, op = .syncThreads loc) ∨
      (s.sched.barrierGen waveBlock = phasing.phases (s.firstBlock + waveBlock) ∧ op = .ret)) := by
  obtain ⟨view, ran, -⟩ := inPhase.together.thread thread in_block
  have stop := Program.move_stop next ends
  have all := fits.of_stop in_grid inPhase.phase in_block (inPhase.within _ in_block) ran stop
  refine ⟨all, ?_⟩
  rw [all] at ran
  have last := fits.ends in_grid inPhase.phase in_block ran
  rw [next] at last
  exact last

/-! ### What a step does to the phases -/

/-- A block is in its phase as long as its barrier, its threads and the elements in its sight stay. -/
theorem InPhase.congr {waveBlock : Nat} (inPhase : InPhase env phasing s waveBlock done)
    (firstBlock : s'.firstBlock = s.firstBlock)
    (gen : s'.sched.barrierGen waveBlock = s.sched.barrierGen waveBlock)
    (said : ∀ thread < env.config.threadsPerBlock,
      s'.said env (slotAt env waveBlock thread) = s.said env (slotAt env waveBlock thread))
    (memory : ∀ e ∈ phasing.sight (s.firstBlock + waveBlock), s'.memory env e = s.memory env e) :
    InPhase env phasing s' waveBlock done := by
  constructor
  · rw [firstBlock, gen]
    exact inPhase.phase
  · rw [firstBlock, gen]
    exact inPhase.within
  · rw [firstBlock, gen]
    exact inPhase.together.congr (fun _ _ => rfl) said memory

/-- A step that changes neither what threads have been told nor the memory. -/
theorem OnCourse.of_same (course : OnCourse env phasing s) (firstBlock : s'.firstBlock = s.firstBlock)
    (gens : s'.sched.barrierGen = s.sched.barrierGen) (said : ∀ i, s'.said env i = s.said env i)
    (memory : s'.memory env = s.memory env) (len : ∀ buf, (s'.mem buf).len = (s.mem buf).len) :
    OnCourse env phasing s' := by
  constructor
  · intro buf
    rw [len, course.len]
  · intro waveBlock in_wave
    rw [firstBlock] at in_wave
    obtain ⟨done, inPhase⟩ := course.inside waveBlock in_wave
    exact ⟨done, inPhase.congr firstBlock (by rw [gens]) (fun _ _ => said _) (by simp [memory])⟩
  · rw [firstBlock, memory]
    exact course.before
  · rw [firstBlock, memory]
    exact course.beyond
  · rw [memory]
    exact course.shared

/-- A thread makes the next move of its part of the phase. -/
theorem OnCourse.of_move (fits : phasing.Fits env.program) (course : OnCourse env phasing s)
    (in_wave : i / env.config.threadsPerBlock < env.config.waveBlocks s.firstBlock)
    (in_grid : s.firstBlock + i / env.config.threadsPerBlock < env.config.blocks)
    (firstBlock : s'.firstBlock = s.firstBlock) (gens : s'.sched.barrierGen = s.sched.barrierGen)
    (others : ∀ j, j ≠ i → s'.said env j = s.said env j)
    (len : ∀ buf, (s'.mem buf).len = (s.mem buf).len)
    (performed : (env.program.move (s.firstBlock + i / env.config.threadsPerBlock)
      (i % env.config.threadsPerBlock) (s.said env i)).perform (s.memory env) =
        some (s'.said env i, s'.memory env)) : OnCourse env phasing s' := by
  obtain ⟨done, inPhase⟩ := course.inside _ in_wave
  have own := mod_lt env i
  have keeps := fits.keeps in_grid inPhase.phase own
  have more : done (i % env.config.threadsPerBlock) <
      phasing.steps (s.firstBlock + i / env.config.threadsPerBlock)
        (s.sched.barrierGen (i / env.config.threadsPerBlock)) (i % env.config.threadsPerBlock) := by
    refine Nat.lt_of_le_of_ne (inPhase.within _ own) ?_
    intro all
    obtain ⟨view, ran, -⟩ := inPhase.together.thread _ own
    rw [all, slotAt_self] at ran
    have stop := fits.ends in_grid inPhase.phase own ran
    have still : env.program.move (s.firstBlock + i / env.config.threadsPerBlock)
        (i % env.config.threadsPerBlock) (s.said env i) = .stop := by
      rcases stop with ⟨-, loc, op⟩ | ⟨-, op⟩
      · exact Program.move_stop op (.inr (.inr (.inl ⟨loc, rfl⟩)))
      · exact Program.move_stop op (.inl rfl)
    rw [still] at performed
    cases performed
  obtain ⟨l, mem, stepped, foreign, together⟩ := inPhase.together.step keeps own more
    (fits.runs _ in_grid _ inPhase.phase _ own)
  rw [slotAt_self, performed] at stepped
  obtain ⟨rfl, rfl⟩ := Prod.mk.inj (Option.some.inj stepped)
  -- Elements of other blocks and elements nobody may replace are as they were.
  have elsewhere : ∀ e, phasing.home e ≠ some (s.firstBlock + i / env.config.threadsPerBlock) →
      s'.memory env e = s.memory env e := by
    intro e away
    apply foreign
    intro mine
    exact away (fits.owned _ _ e _ mine).1
  constructor
  · intro buf
    rw [len, course.len]
  · intro waveBlock inside
    rw [firstBlock] at inside
    by_cases here : waveBlock = i / env.config.threadsPerBlock
    · subst here
      refine ⟨Function.update done (i % env.config.threadsPerBlock)
        (done (i % env.config.threadsPerBlock) + 1), ?_, ?_, ?_⟩
      · rw [firstBlock, gens]
        exact inPhase.phase
      · intro thread in_block
        rw [firstBlock, gens]
        by_cases mine : thread = i % env.config.threadsPerBlock
        · subst mine
          simpa using more
        · simpa [mine] using inPhase.within thread in_block
      · rw [firstBlock, gens]
        refine together.congr (fun _ _ => rfl) ?_ (fun _ _ => rfl)
        intro thread in_block
        by_cases mine : thread = i % env.config.threadsPerBlock
        · subst mine
          rw [slotAt_self, Function.update_self]
        · have other : slotAt env (i / env.config.threadsPerBlock) thread ≠ i := by
            intro same
            exact mine (by rw [← same, slotAt_thread in_block])
          rw [Function.update_of_ne mine, others _ other]
    · obtain ⟨done', inPhase'⟩ := course.inside waveBlock inside
      refine ⟨done', inPhase'.congr firstBlock (by rw [gens]) ?_ ?_⟩
      · intro thread in_block
        apply others
        intro same
        apply here
        rw [← same, ← blockOf_eq s, slotAt_blockOf in_block]
      · intro e seen
        apply elsewhere
        intro mine
        cases seen with
        | inl theirs =>
          rw [theirs] at mine
          exact here (Nat.add_left_cancel (Option.some.inj mine))
        | inr nobody =>
          rw [nobody] at mine
          cases mine
  · intro e block home earlier
    rw [firstBlock] at earlier
    rw [elsewhere e, course.before e block home earlier]
    rw [home]
    intro mine
    rw [Option.some.inj mine] at earlier
    exact absurd (Nat.le_add_right ..) (Nat.not_le_of_lt earlier)
  · intro e block home later
    rw [firstBlock] at later
    rw [elsewhere e, course.beyond e block home later]
    rw [home]
    intro mine
    rw [Option.some.inj mine] at later
    exact absurd (Nat.add_lt_add_left in_wave _) (Nat.not_lt_of_le later)
  · intro e nobody
    rw [elsewhere e, course.shared e nobody]
    rw [nobody]
    exact nofun

/-- The last arrival at a barrier takes its block to the next phase. -/
theorem OnCourse.of_release (fits : phasing.Fits env.program) (course : OnCourse env phasing s)
    {waveBlock : Nat} (in_wave : waveBlock < env.config.waveBlocks s.firstBlock)
    (firstBlock : s'.firstBlock = s.firstBlock)
    (gens : s'.sched.barrierGen =
      Function.update s.sched.barrierGen waveBlock (s.sched.barrierGen waveBlock + 1))
    (memory : s'.memory env = s.memory env) (len : ∀ buf, (s'.mem buf).len = (s.mem buf).len)
    (others : ∀ j, j / env.config.threadsPerBlock ≠ waveBlock → s'.said env j = s.said env j)
    (answered : ∀ thread < env.config.threadsPerBlock, s'.said env (slotAt env waveBlock thread) =
      s.said env (slotAt env waveBlock thread) ++ [.unit])
    (more : s.sched.barrierGen waveBlock < phasing.phases (s.firstBlock + waveBlock))
    (met : ∀ done, InPhase env phasing s waveBlock done → ∀ thread < env.config.threadsPerBlock,
      done thread = phasing.steps (s.firstBlock + waveBlock) (s.sched.barrierGen waveBlock) thread) :
    OnCourse env phasing s' := by
  constructor
  · intro buf
    rw [len, course.len]
  · intro block inside
    rw [firstBlock] at inside
    by_cases here : block = waveBlock
    · subst here
      obtain ⟨done, inPhase⟩ := course.inside block in_wave
      obtain ⟨begun, left⟩ := inPhase.together.finish (met done inPhase)
        (fun e thread owned => (fits.owned _ _ e thread owned).2) (· ++ [.unit])
      refine ⟨fun _ => 0, ?_, ?_, ?_⟩
      · rw [firstBlock, gens, Function.update_self]
        exact more
      · intro thread _
        exact Nat.zero_le _
      · rw [firstBlock, gens, Function.update_self, memory]
        refine Phased.Together.start ?_ ?_
        · intro thread in_block
          rw [answered thread in_block]
          exact (begun thread in_block).symm
        · intro e seen
          exact (left e seen).symm
    · obtain ⟨done, inPhase⟩ := course.inside block inside
      refine ⟨done, inPhase.congr firstBlock ?_ ?_ (by simp [memory])⟩
      · rw [gens, Function.update_of_ne here]
      · intro thread in_block
        apply others
        rw [← blockOf_eq s, slotAt_blockOf in_block]
        exact here
  · rw [firstBlock, memory]
    exact course.before
  · rw [firstBlock, memory]
    exact course.beyond
  · rw [memory]
    exact course.shared

/-- A wave in which everybody has returned leaves its blocks' results. -/
theorem OnCourse.of_wave (fits : phasing.Fits env.program) (course : OnCourse env phasing s)
    (ended : ∀ waveBlock < env.config.waveBlocks s.firstBlock, ∀ done,
      InPhase env phasing s waveBlock done →
        s.sched.barrierGen waveBlock = phasing.phases (s.firstBlock + waveBlock) ∧
          ∀ thread < env.config.threadsPerBlock, done thread = phasing.steps
            (s.firstBlock + waveBlock) (s.sched.barrierGen waveBlock) thread)
    {e : Buf × Nat} {block : Nat} (home : phasing.home e = some block)
    (earlier : block < s.firstBlock + env.config.waveBlocks s.firstBlock) :
    s.memory env e = phasing.result env.program e := by
  by_cases before : block < s.firstBlock
  · exact course.before e block home before
  · obtain ⟨waveBlock, rfl⟩ := Nat.exists_eq_add_of_le (Nat.le_of_not_lt before)
    have in_wave := Nat.lt_of_add_lt_add_left earlier
    obtain ⟨done, inPhase⟩ := course.inside waveBlock in_wave
    obtain ⟨last, all⟩ := ended waveBlock in_wave done inPhase
    have left := (inPhase.together.finish all
      (fun e thread owned => (fits.owned _ _ e thread owned).2) (· ++ [.unit])).2 e (.inl home)
    rw [Phasing.result, home, ← left, last]
    rfl

/-- A wave that starts after earlier ones have left their results. -/
theorem onCourse_of_start {firstBlock wave : Nat} (block : s.firstBlock = firstBlock)
    (threads : ∀ i, s.threads i = ⟨.ready, []⟩) (sched : s.sched = start env firstBlock wave)
    (len : ∀ buf, (s.mem buf).len = (env.mem buf).len)
    (before : ∀ e block, phasing.home e = some block → block < firstBlock →
      s.memory env e = phasing.result env.program e)
    (beyond : ∀ e block, phasing.home e = some block → firstBlock ≤ block →
      s.memory env e = env.program.data e)
    (shared : ∀ e, phasing.home e = none → s.memory env e = env.program.data e) :
    OnCourse env phasing s := by
  have gen : ∀ waveBlock, s.sched.barrierGen waveBlock = 0 := by
    intro waveBlock
    rw [sched]
    exact congrFun (Scheduler.pickNext_rests (env.config.geometry firstBlock)
      (Scheduler.unstarted (env.choicesOf wave))).barrierGen waveBlock
  refine ⟨len, ?_, by rwa [block], ?_, shared⟩
  · intro waveBlock _
    refine ⟨fun _ => 0, ?_, ?_, ?_⟩
    · rw [gen]
      exact Nat.zero_le _
    · intro thread _
      exact Nat.zero_le _
    · rw [gen]
      refine Phased.Together.start ?_ ?_
      · intro thread _
        simp only [said, threads]
        rfl
      · intro e seen
        cases seen with
        | inl home => exact beyond e _ home (block ▸ Nat.le_add_right ..)
        | inr nobody => exact shared e nobody
  · intro e b home later
    rw [block] at later
    exact beyond e b home ((Nat.le_add_right ..).trans later)

/-! ### What a step does to a launch on its course -/

/-- A thread of the wave that is owed no answer and asks for anything but memory or a fence stands
at a barrier, or returns from its block's last phase. -/
theorem OnCourse.of_stop (fits : phasing.Fits env.program) (course : OnCourse env phasing s)
    (numbered : Numbered env s) (inside : i < (s.geometry env).total)
    (nothing : (s.threads i).pc.owed (s.sched.barrierGen ((s.geometry env).blockOf i)) = [])
    (ends : s.nextOp env i = .ret ∨ (∃ message, s.nextOp env i = .panic message) ∨
      (∃ loc, s.nextOp env i = .syncThreads loc) ∨ ∃ c, s.nextOp env i = .warp c) :
    (s.sched.barrierGen (i / env.config.threadsPerBlock) <
        phasing.phases (s.firstBlock + i / env.config.threadsPerBlock) ∧
      ∃ loc, s.nextOp env i = .syncThreads loc) ∨
    (s.sched.barrierGen (i / env.config.threadsPerBlock) =
        phasing.phases (s.firstBlock + i / env.config.threadsPerBlock) ∧
      s.nextOp env i = .ret) := by
  obtain ⟨done, inPhase⟩ := course.inside _ (inWave inside)
  refine (inPhase.of_stop fits (numbered.inGrid inside) (mod_lt env i) ?_ ends).2
  rw [slotAt_self, said_of_owed_nil nothing]
  rfl

/-- Nobody calls a collective. -/
theorem OnCourse.no_collective (fits : phasing.Fits env.program) (course : OnCourse env phasing s)
    (numbered : Numbered env s) (standing : Standing env s) (inside : i < (s.geometry env).total)
    (c : Collective V) : s.nextOp env i ≠ .warp c := by
  intro op
  have nothing := owed_nil (standing.settled i) (.inl (by
    intro gen pc
    have asked := standing.asked i
    rw [pc, op] at asked
    obtain ⟨loc, impossible⟩ := asked
    cases impossible))
  rcases course.of_stop fits numbered inside nothing (.inr (.inr (.inr ⟨c, op⟩))) with
    ⟨-, loc, sync⟩ | ⟨-, ret⟩
  · rw [op] at sync
    cases sync
  · rw [op] at ret
    cases ret

/-- Whoever is parked at a barrier is in its phase, with its part of it done. -/
theorem OnCourse.of_parked (fits : phasing.Fits env.program) (course : OnCourse env phasing s)
    (numbered : Numbered env s) (standing : Standing env s) (inside : i < (s.geometry env).total)
    (parked : s.sched.status i = .atBarrier) :
    s.sched.barrierGen (i / env.config.threadsPerBlock) <
      phasing.phases (s.firstBlock + i / env.config.threadsPerBlock) := by
  have nothing := owed_nil (standing.settled i) (.inr parked)
  have asked := standing.asked i
  rw [(standing.settled i).pc_of_atBarrier parked] at asked
  rcases course.of_stop fits numbered inside nothing (.inr (.inr (.inl asked))) with
    ⟨early, -⟩ | ⟨-, ret⟩
  · exact early
  · obtain ⟨loc, sync⟩ := asked
    rw [sync] at ret
    cases ret

/-- Whoever has returned has returned from its block's last phase. -/
theorem OnCourse.of_finished (fits : phasing.Fits env.program) (course : OnCourse env phasing s)
    (numbered : Numbered env s) (settled : Settled env s i) (inside : i < (s.geometry env).total)
    (ended : s.sched.status i = .finished) :
    s.sched.barrierGen (i / env.config.threadsPerBlock) =
      phasing.phases (s.firstBlock + i / env.config.threadsPerBlock) := by
  obtain ⟨ready, op⟩ := settled.ret_of_finished ended
  rcases course.of_stop fits numbered inside (by rw [ready]; rfl) (.inl op) with
    ⟨-, loc, sync⟩ | ⟨last, -⟩
  · rw [op] at sync
    cases sync
  · exact last

/-- Every step that leaves the launch running keeps it on its course. -/
theorem Moves.onCourse {l : Label V} (fits : phasing.Fits env.program)
    (course : OnCourse env phasing s) (numbered : Numbered env s) (standing : Standing env s)
    (inside : i < (s.geometry env).total) (running : s.sched.status i = .runnable)
    (move : Moves env s i l s') : OnCourse env phasing s' := by
  have tells := move.tells standing running course.len
    (course.no_collective fits numbered standing inside)
  have in_wave := inWave inside
  have in_grid := numbered.inGrid inside
  cases tells with
  | nothing gens said memory => exact course.of_same move.firstBlock gens said memory move.len
  | inner gens others moved memory =>
    refine course.of_move fits in_wave in_grid move.firstBlock gens others move.len ?_
    rw [moved, memory]
    rfl
  | access m gens others op answers bound performed =>
    exact course.of_move fits in_wave in_grid move.firstBlock gens others move.len performed
  | meet gens elsewhere waits answered memory =>
    have stops : ∀ done, InPhase env phasing s (i / env.config.threadsPerBlock) done →
        ∀ thread < env.config.threadsPerBlock,
          done thread = phasing.steps (s.firstBlock + i / env.config.threadsPerBlock)
            (s.sched.barrierGen (i / env.config.threadsPerBlock)) thread ∧
          s.sched.barrierGen (i / env.config.threadsPerBlock) <
            phasing.phases (s.firstBlock + i / env.config.threadsPerBlock) := by
      intro done inPhase thread in_block
      obtain ⟨loc, op⟩ := waits thread in_block
      obtain ⟨all, ⟨early, -⟩ | ⟨-, ret⟩⟩ := inPhase.of_stop fits in_grid in_block op
        (.inr (.inr (.inl ⟨loc, rfl⟩)))
      · exact ⟨all, early⟩
      · cases ret
    obtain ⟨done, inPhase⟩ := course.inside _ in_wave
    exact course.of_release fits in_wave move.firstBlock gens memory move.len elsewhere answered
      (stops done inPhase 0 env.config.threads_pos).2
      fun done inPhase thread in_block => (stops done inPhase thread in_block).1

/-! ### Nothing stops the launch -/

/-- A thread of the wave can run, waits at its block's barrier, or has returned. -/
theorem OnCourse.status_cases (fits : phasing.Fits env.program) (course : OnCourse env phasing s)
    (numbered : Numbered env s) (standing : Standing env s) {j : Nat}
    (inside : j < (s.geometry env).total) :
    s.sched.status j = .runnable ∨ s.sched.status j = .atBarrier ∨ s.sched.status j = .finished := by
  cases status : s.sched.status j with
  | runnable => exact .inl rfl
  | atBarrier => exact .inr (.inl rfl)
  | finished => exact .inr (.inr rfl)
  | atWarp =>
    obtain ⟨wait, waits, -⟩ := (standing.settled j).waits_of_atWarp status
    have asked := standing.asked j
    cases pc : (s.threads j).pc with
    | arrived c | departed c =>
      rw [pc] at asked
      exact absurd asked (course.no_collective fits numbered standing inside c)
    | ready | atAccess | atBarrier | atCollective =>
      rw [pc] at waits
      cases waits

/-- Among threads of one block nobody has returned while another is parked at the barrier. -/
theorem OnCourse.unmixed (fits : phasing.Fits env.program) (course : OnCourse env phasing s)
    (numbered : Numbered env s) (standing : Standing env s) {j k : Nat}
    (inside : j < (s.geometry env).total)
    (mates : (s.geometry env).blockOf k = (s.geometry env).blockOf j)
    (early : s.sched.barrierGen (j / env.config.threadsPerBlock) <
      phasing.phases (s.firstBlock + j / env.config.threadsPerBlock)) :
    s.sched.status k ≠ .finished := by
  intro ended
  have there := lt_of_mates inside mates
  have last := course.of_finished fits numbered (standing.settled k) there ended
  have same : k / env.config.threadsPerBlock = j / env.config.threadsPerBlock := mates
  rw [same] at last
  omega

/-- Whoever is parked at a barrier waits for a thread of its block that can run. -/
theorem OnCourse.exists_runnable (fits : phasing.Fits env.program) (course : OnCourse env phasing s)
    (numbered : Numbered env s) (standing : Standing env s) {j : Nat}
    (inside : j < (s.geometry env).total) (parked : s.sched.status j = .atBarrier) :
    ∃ k < (s.geometry env).total, (s.geometry env).blockOf k = (s.geometry env).blockOf j ∧
      s.sched.status k = .runnable := by
  obtain ⟨k, mates, away⟩ := standing.waiting.barrier parked
  have there := lt_of_mates inside mates
  refine ⟨k, there, mates, ?_⟩
  rcases course.status_cases fits numbered standing there with running | parked' | ended
  · exact running
  · exact absurd parked' away
  · exact absurd ended (course.unmixed fits numbered standing inside mates
      (course.of_parked fits numbered standing inside parked))

theorem OnCourse.finish_live (fits : phasing.Fits env.program) (course : OnCourse env phasing s)
    (numbered : Numbered env s) (standing : Standing env s) (live : Live s)
    (inside : i < (s.geometry env).total) (ready : (s.threads i).pc = .ready)
    (op : s.nextOp env i = .ret) :
    (Scheduler.finish (s.geometry env) i s.sched).1.aborted = false := by
  have last : s.sched.barrierGen (i / env.config.threadsPerBlock) =
      phasing.phases (s.firstBlock + i / env.config.threadsPerBlock) := by
    rcases course.of_stop fits numbered inside (by rw [ready]; rfl) (.inl op) with
      ⟨-, loc, sync⟩ | ⟨last, -⟩
    · rw [op] at sync
      cases sync
    · exact last
  -- A parked thread is in another block.
  have apart : ∀ j < (s.geometry env).total, s.sched.status j = .atBarrier →
      (s.geometry env).blockOf j ≠ (s.geometry env).blockOf i := by
    intro j there parked mates
    have early := course.of_parked fits numbered standing there parked
    have same : j / env.config.threadsPerBlock = i / env.config.threadsPerBlock := mates
    rw [same, last] at early
    exact absurd early (Nat.lt_irrefl _)
  apply Scheduler.finish_goes live
  · intro p wait wanted
    obtain ⟨mates, -, parked, -⟩ := wanted
    have there := lt_of_mates inside mates.1
    rcases course.status_cases fits numbered standing there with running | waits | ended
    · rw [parked] at running
      cases running
    · rw [parked] at waits
      cases waits
    · rw [parked] at ended
      cases ended
  · intro j mates away parked
    exact apart j (lt_of_mates inside mates) parked mates
  · by_cases ended : ∀ j < (s.geometry env).total, (Scheduler.finishMarked i s.sched).status j = .finished
    · exact .inr ended
    · push Not at ended
      obtain ⟨j, there, unfinished⟩ := ended
      have other : j ≠ i := by
        intro same
        subst same
        exact unfinished (Function.update_self ..)
      have kept : ∀ k, k ≠ i → (Scheduler.finishMarked i s.sched).status k = s.sched.status k :=
        fun k away => Function.update_of_ne away ..
      rw [kept j other] at unfinished
      have free : ∃ k < (s.geometry env).total, k ≠ i ∧ s.sched.status k = .runnable := by
        rcases course.status_cases fits numbered standing there with running | parked | ended
        · exact ⟨j, there, other, running⟩
        · obtain ⟨k, here, mates, running⟩ :=
            course.exists_runnable fits numbered standing there parked
          refine ⟨k, here, ?_, running⟩
          intro same
          exact apart j there parked (by rw [← mates, same])
        · exact absurd ended unfinished
      obtain ⟨k, here, away, running⟩ := free
      left
      intro empty
      have member : k ∈ Scheduler.runnable (s.geometry env) (Scheduler.finishMarked i s.sched) :=
        (Scheduler.mem_runnable _).mpr ⟨here, (kept k away).trans running⟩
      rw [empty] at member
      cases member

theorem OnCourse.barrier_live (fits : phasing.Fits env.program) (course : OnCourse env phasing s)
    (numbered : Numbered env s) (standing : Standing env s) (live : Live s)
    (inside : i < (s.geometry env).total) (ready : (s.threads i).pc = .ready) {loc : Location}
    (op : s.nextOp env i = .syncThreads loc) :
    (Scheduler.barrier (s.geometry env) i loc s.sched).1.aborted = false := by
  have early : s.sched.barrierGen (i / env.config.threadsPerBlock) <
      phasing.phases (s.firstBlock + i / env.config.threadsPerBlock) := by
    rcases course.of_stop fits numbered inside (by rw [ready]; rfl)
        (.inr (.inr (.inl ⟨loc, op⟩))) with ⟨early, -⟩ | ⟨-, ret⟩
    · exact early
    · rw [op] at ret
      cases ret
  apply Scheduler.barrier_goes loc live inside
  intro j mates _
  rcases course.status_cases fits numbered standing (lt_of_mates inside mates) with
    running | parked | ended
  · exact .inr running
  · exact .inl parked
  · exact absurd ended (course.unmixed fits numbered standing inside mates early)

/-- A thread that asks for memory can make that move. -/
theorem OnCourse.performs (fits : phasing.Fits env.program) (course : OnCourse env phasing s)
    (numbered : Numbered env s) (inside : i < (s.geometry env).total)
    (nothing : (s.threads i).pc.owed (s.sched.barrierGen ((s.geometry env).blockOf i)) = [])
    {m : MemOp V} (op : s.nextOp env i = .mem m) :
    ((env.program.move (s.firstBlock + i / env.config.threadsPerBlock)
      (i % env.config.threadsPerBlock) (s.threads i).answers).perform (s.memory env)).isSome := by
  have in_grid := numbered.inGrid inside
  have own := mod_lt env i
  obtain ⟨done, inPhase⟩ := course.inside _ (inWave inside)
  obtain ⟨view, ran, -⟩ := inPhase.together.thread _ own
  rw [slotAt_self, said_of_owed_nil nothing] at ran
  rw [nextOp_eq] at op
  have more := fits.lt_of_mem in_grid inPhase.phase own (inPhase.within _ own) ran op
  obtain ⟨l, mem, performed, -⟩ := inPhase.together.step (fits.keeps in_grid inPhase.phase own) own
    more (fits.runs _ in_grid _ inPhase.phase _ own)
  rw [slotAt_self, said_of_owed_nil nothing] at performed
  rw [performed]
  rfl

/-- The thread that holds the turn leaves the launch running. -/
theorem OnCourse.resume_live (fits : phasing.Fits env.program) (course : OnCourse env phasing s)
    (numbered : Numbered env s) (standing : Standing env s) (live : Live s)
    (inside : i < (s.geometry env).total) (running : s.sched.status i = .runnable) :
    Live (s.resume env i).2 := by
  have asked := standing.asked i
  have no_collective := course.no_collective fits numbered standing inside
  unfold resume
  cases pc : (s.threads i).pc with
  | ready =>
    cases op : s.nextOp env i with
    | ret =>
      rw [nextOp] at op
      simp only [op, dispatch]
      exact course.finish_live fits numbered standing live inside pc op
    | panic message =>
      rcases course.of_stop fits numbered inside (by rw [pc]; rfl) (.inr (.inl ⟨message, op⟩)) with
        ⟨-, loc, sync⟩ | ⟨-, ret⟩
      · rw [op] at sync
        cases sync
      · rw [op] at ret
        cases ret
    | fence ordering =>
      rw [nextOp] at op
      simp only [op, dispatch]
      exact live
    | syncThreads loc =>
      rw [nextOp] at op
      simp only [op, dispatch]
      exact course.barrier_live fits numbered standing live inside pc op
    | mem m =>
      rw [nextOp] at op
      simp only [op, dispatch]
      exact Scheduler.yieldNow_goes _ live inside running
    | warp c => exact absurd op (no_collective c)
  | atAccess m =>
    rw [pc] at asked
    have performs := course.performs fits numbered inside (by rw [pc]; rfl) asked
    exact access_live live course.len asked performs
  | atBarrier gen => exact live
  | atCollective c | arrived c | departed c =>
    rw [pc] at asked
    exact absurd asked (no_collective c)

/-! ### Along a run -/

/-- When everybody of a wave has returned its blocks are at the end of their last phases. -/
theorem OnCourse.ended (fits : phasing.Fits env.program) (numbered : Numbered env s)
    (settled : ∀ j, Settled env s j)
    (ended : ∀ j < (s.geometry env).total, s.sched.status j = .finished) {waveBlock : Nat}
    (in_wave : waveBlock < env.config.waveBlocks s.firstBlock)
    (inPhase : InPhase env phasing s waveBlock done) :
    s.sched.barrierGen waveBlock = phasing.phases (s.firstBlock + waveBlock) ∧
      ∀ thread < env.config.threadsPerBlock, done thread = phasing.steps
        (s.firstBlock + waveBlock) (s.sched.barrierGen waveBlock) thread := by
  have each : ∀ thread < env.config.threadsPerBlock,
      done thread = phasing.steps (s.firstBlock + waveBlock) (s.sched.barrierGen waveBlock) thread ∧
        s.sched.barrierGen waveBlock = phasing.phases (s.firstBlock + waveBlock) := by
    intro thread in_block
    have inside : slotAt env waveBlock thread < (s.geometry env).total := slotAt_lt in_wave in_block
    obtain ⟨ready, op⟩ := (settled _).ret_of_finished (ended _ inside)
    have next : env.program.kernel (s.firstBlock + waveBlock) thread
        (s.said env (slotAt env waveBlock thread)) = .ret := by
      rw [nextOp_eq, slotAt_thread in_block, ← blockOf_eq s, slotAt_blockOf in_block] at op
      rw [said_of_ready ready]
      exact op
    have there := inPhase.of_stop fits
      ((Nat.add_lt_add_left in_wave _).trans_le numbered.blocks_le) in_block next (.inl rfl)
    refine ⟨there.1, ?_⟩
    rcases there.2 with ⟨-, loc, sync⟩ | ⟨last, -⟩
    · cases sync
    · exact last
  exact ⟨(each 0 env.config.threads_pos).2, fun thread in_block => (each thread in_block).1⟩

/-- The loop of `run_shared` goes on to the next wave. -/
theorem OnCourse.nextWave (fits : phasing.Fits env.program) (course : OnCourse env phasing s)
    (numbered : Numbered env s) (settled : ∀ j, Settled env s j)
    (ended : ∀ j < (s.geometry env).total, s.sched.status j = .finished) :
    OnCourse env phasing (s.nextWave env) := by
  refine onCourse_of_start rfl (fun _ => rfl) rfl course.len ?_ ?_ course.shared
  · intro e block home earlier
    exact course.of_wave fits (fun waveBlock in_wave done inPhase =>
      OnCourse.ended fits numbered settled ended in_wave inPhase) home earlier
  · intro e block home later
    exact course.beyond e block home later

end

theorem onCourse_run (fits : phasing.Fits env.program) (n : Nat) :
    Live ((run env).state n) ∧ OnCourse env phasing ((run env).state n) := by
  induction n with
  | zero =>
    refine ⟨init_wellFormed.1, onCourse_of_start rfl (fun _ => rfl) rfl (fun _ => rfl) ?_ ?_ ?_⟩
    · intro e block _ earlier
      exact absurd earlier (Nat.not_lt_zero _)
    · exact fun e _ _ _ => congrFun (memory_init env) e
    · exact fun e _ => congrFun (memory_init env) e
  | succ n ih =>
    obtain ⟨live, course⟩ := ih
    have wf := wellFormed live
    rcases (run env).step_cases n with ⟨l, labelled, moved⟩ | ⟨-, stays⟩
    · obtain ⟨-, ⟨nobody, more, -, next⟩ | ⟨slot, current, resumed⟩⟩ := step_cases env moved
      · rw [next]
        refine ⟨(nextWave_wellFormed more).1, course.nextWave fits (numbered env n) wf.settled ?_⟩
        rcases wf.turn with ⟨i, -, taken, -⟩ | ⟨-, ended⟩
        · rw [nobody] at taken
          cases taken
        · exact ended
      · obtain ⟨inside, running⟩ := wf.running current
        have standing := standing_run live
        have goes := course.resume_live fits (numbered env n) standing live inside running
        rw [resume_of_label labelled current] at goes
        exact ⟨goes, (resumed.moves env live goes).onCourse fits course (numbered env n) standing
          inside running⟩
    · rw [stays]
      exact ⟨live, course⟩

end Launch

end Riri
