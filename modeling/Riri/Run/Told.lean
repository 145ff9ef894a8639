import Riri.Guarantees.WaveCoverage
import Riri.Run.Cells
import Riri.Run.Standing
import Riri.Theory.Phases

/-!
# What threads have been told

A launch apart from its scheduler: a program, how far each thread has got with it, which the
answers it has had say, and the memory. A step of the launch moves one thread of the program on,
or lets a whole block pass its barrier, or is no step of the program at all.
-/
namespace Riri

/-- What is launched, apart from how it is scheduled. -/
structure Program (V : Type) where
  blocks : Nat
  threads : Nat
  warpSize : Nat
  kernel : Kernel V
  mem : Buf → Instrumented V
  space : Buf → MemSpace

def Env.program {V : Type} (env : Env V) : Program V where
  blocks := env.config.blocks
  threads := env.config.threadsPerBlock
  warpSize := env.config.warpSize
  kernel := env.kernel
  mem := env.mem
  space := Launch.space env

variable {V : Type}

namespace Program

variable (program : Program V)

/-- An element as a launch first finds it, with the flag that it is initialised. -/
def data (e : Buf × Nat) : V × Bool :=
  ((program.mem e.1).data e.2, (((program.mem e.1).reset e.1).shadow e.2).init)

/-- What a thread that has had these answers does next. A phase ends where it asks for anything
but memory or a fence. -/
def move [BEq V] (block thread : Nat) (answers : List (Resp V)) :
    Phased.Move (Buf × Nat) (V × Bool) (List (Resp V)) :=
  match program.kernel block thread answers with
  | .fence _ => .inner (answers ++ [.unit])
  | .mem m =>
      if m.index < (program.mem m.buf).len then
        .access (m.buf, m.index) fun v => (m.act.update v.1).toOption.map fun r =>
          ((r.1, v.2 || m.act.kind ≠ .read), answers ++ [r.2])
      else match m.act with
        | .elemMut true _ => .inner (answers ++ [.elem none])
        | _ => .stop
  | .ret | .panic _ | .syncThreads _ | .warp _ => .stop

end Program

theorem Program.move_access [BEq V] {program : Program V} {block thread : Nat} {answers : List (Resp V)}
    {e : Buf × Nat} {f : V × Bool → Option ((V × Bool) × List (Resp V))}
    (move : program.move block thread answers = .access e f) :
    ∃ m, program.kernel block thread answers = .mem m ∧ m.index < (program.mem m.buf).len ∧
      e = (m.buf, m.index) ∧
      f = fun v => (m.act.update v.1).toOption.map fun r =>
        ((r.1, v.2 || m.act.kind ≠ .read), answers ++ [r.2]) := by
  unfold Program.move at move
  cases op : program.kernel block thread answers with
  | mem m =>
    rw [op] at move
    by_cases inside : m.index < (program.mem m.buf).len
    · simp only [inside, if_true, Phased.Move.access.injEq] at move
      exact ⟨m, rfl, inside, move.1.symm, move.2.symm⟩
    · simp only [inside, if_false] at move
      split at move <;> cases move
  | ret | panic | fence | syncThreads | warp =>
    rw [op] at move
    cases move

/-- Where the memory is asked nothing, the operation ends the phase. -/
theorem Program.move_stop [BEq V] {program : Program V} {block thread : Nat} {answers : List (Resp V)}
    {op : Op V} (next : program.kernel block thread answers = op)
    (ends : op = .ret ∨ (∃ message, op = .panic message) ∨ (∃ loc, op = .syncThreads loc) ∨
      ∃ c, op = .warp c) : program.move block thread answers = .stop := by
  unfold Program.move
  rw [next]
  rcases ends with rfl | ⟨_, rfl⟩ | ⟨_, rfl⟩ | ⟨_, rfl⟩ <;> rfl

/-- A move tells its thread something. -/
theorem Program.length_of_perform [BEq V] {program : Program V} {block thread : Nat}
    {answers l : List (Resp V)} {mem mem' : Buf × Nat → V × Bool}
    (performed : (program.move block thread answers).perform mem = some (l, mem')) :
    l.length = answers.length + 1 := by
  unfold Program.move at performed
  split at performed
  · obtain ⟨rfl, -⟩ := Prod.mk.inj (Option.some.inj performed)
    simp
  · split at performed
    · simp only [Phased.Move.perform, Option.map_eq_some_iff] at performed
      obtain ⟨r, ⟨result, -, rfl⟩, same⟩ := performed
      obtain ⟨rfl, -⟩ := Prod.mk.inj same
      simp
    · split at performed
      · obtain ⟨rfl, -⟩ := Prod.mk.inj (Option.some.inj performed)
        simp
      · cases performed
  all_goals cases performed

/-- The answer of a barrier that has let its thread go and not given it yet. -/
def Pc.owed {V : Type} (gen : Nat) : Pc V → List (Resp V)
  | .atBarrier passed => if passed + 1 = gen then [.unit] else []
  | .ready | .atAccess _ | .atCollective _ | .arrived _ | .departed _ _ => []

namespace Launch

variable (env : Env V)

def memory (s : Launch V) (e : Buf × Nat) : V × Bool :=
  ((s.mem e.1).data e.2, (s.cellOf env e.1 e.2).init)

/-- The answers a thread has had, and the one it is owed. -/
def said (s : Launch V) (i : Nat) : List (Resp V) :=
  (s.threads i).answers ++ (s.threads i).pc.owed (s.sched.barrierGen ((s.geometry env).blockOf i))

def slotAt (waveBlock thread : Nat) : Nat := waveBlock * env.config.threadsPerBlock + thread

variable {env : Env V}

/-! ### Slots -/

theorem slotAt_blockOf {waveBlock thread : Nat} (inside : thread < env.config.threadsPerBlock)
    (s : Launch V) : (s.geometry env).blockOf (slotAt env waveBlock thread) = waveBlock := by
  show (waveBlock * env.config.threadsPerBlock + thread) / env.config.threadsPerBlock = waveBlock
  rw [Nat.mul_comm, Nat.mul_add_div env.config.threads_pos, Nat.div_eq_of_lt inside, Nat.add_zero]

theorem slotAt_thread {waveBlock thread : Nat} (inside : thread < env.config.threadsPerBlock) :
    slotAt env waveBlock thread % env.config.threadsPerBlock = thread := by
  rw [slotAt, Nat.mul_add_mod', Nat.mod_eq_of_lt inside]

theorem slotAt_self (i : Nat) :
    slotAt env (i / env.config.threadsPerBlock) (i % env.config.threadsPerBlock) = i :=
  Nat.div_add_mod' ..

theorem blockOf_eq (s : Launch V) (i : Nat) :
    (s.geometry env).blockOf i = i / env.config.threadsPerBlock := rfl

theorem mod_lt (env : Env V) (i : Nat) : i % env.config.threadsPerBlock < env.config.threadsPerBlock :=
  Nat.mod_lt _ env.config.threads_pos

theorem slotAt_lt {s : Launch V} {waveBlock thread : Nat}
    (in_wave : waveBlock < env.config.waveBlocks s.firstBlock)
    (in_block : thread < env.config.threadsPerBlock) :
    slotAt env waveBlock thread < (s.geometry env).total := row_lt in_wave in_block

/-! ### What has been said -/

section

variable {s s' : Launch V} {i : Nat}

/-- What thread `i` asks for, in the program's terms. -/
theorem nextOp_eq (env : Env V) (s : Launch V) (i : Nat) : s.nextOp env i =
    env.program.kernel (s.firstBlock + i / env.config.threadsPerBlock)
      (i % env.config.threadsPerBlock) (s.threads i).answers := rfl

theorem said_of_owed_nil (nothing : (s.threads i).pc.owed
    (s.sched.barrierGen ((s.geometry env).blockOf i)) = []) :
    s.said env i = (s.threads i).answers := by
  rw [said, nothing, List.append_nil]

theorem said_congr {j : Nat} (thread : s'.threads j = s.threads j)
    (gens : s'.sched.barrierGen = s.sched.barrierGen) : s'.said env j = s.said env j := by
  simp only [said, thread, gens, blockOf_eq]

theorem said_of_ready (ready : (s.threads i).pc = .ready) : s.said env i = (s.threads i).answers :=
  said_of_owed_nil (by rw [ready]; rfl)

theorem said_of_atAccess {m : MemOp V} (pc : (s.threads i).pc = .atAccess m) :
    s.said env i = (s.threads i).answers := said_of_owed_nil (by rw [pc]; rfl)

theorem inWave (inside : i < (s.geometry env).total) :
    i / env.config.threadsPerBlock < env.config.waveBlocks s.firstBlock :=
  (s.geometry env).blockOf_lt inside

theorem Numbered.inGrid (numbered : Numbered env s) (inside : i < (s.geometry env).total) :
    s.firstBlock + i / env.config.threadsPerBlock < env.config.blocks :=
  (Nat.add_lt_add_left (inWave inside) _).trans_le numbered.blocks_le

theorem lt_of_mates {j k : Nat} (inside : j < (s.geometry env).total)
    (mates : (s.geometry env).blockOf k = (s.geometry env).blockOf j) :
    k < (s.geometry env).total := by
  apply (s.geometry env).lt_total_of_blockOf
  rw [mates]
  exact (s.geometry env).blockOf_lt inside

/-- Whoever is not inside a barrier, or waits in it, is owed nothing. -/
theorem owed_nil (settled : Settled env s i)
    (stays : (∀ gen, (s.threads i).pc ≠ .atBarrier gen) ∨ s.sched.status i = .atBarrier) :
    (s.threads i).pc.owed (s.sched.barrierGen ((s.geometry env).blockOf i)) = [] := by
  cases pc : (s.threads i).pc with
  | atBarrier gen =>
    cases stays with
    | inl outside => exact absurd pc (outside gen)
    | inr parked =>
      have here := settled.pc_of_atBarrier parked
      rw [pc] at here
      rw [Pc.atBarrier.inj here]
      simp [Pc.owed]
  | _ => rfl

/-! ### The memory -/

theorem memory_update {buf : Buf} {index len : Nat} {cell : Cell} {new : V}
    (mem : s'.mem = Function.update s.mem buf
      ⟨len, Function.update (s.mem buf).data index new,
        Function.update ((s.mem buf).forLaunch buf env.id).shadow index cell,
        ((s.mem buf).forLaunch buf env.id).launchId⟩) :
    s'.memory env = Function.update (s.memory env) (buf, index) (new, cell.init) := by
  funext e
  unfold memory
  rw [cellOf_stored mem]
  by_cases here : e.1 = buf
  · by_cases there : e.2 = index
    · obtain rfl : e = (buf, index) := Prod.ext here there
      simp [mem]
    · have away : e ≠ (buf, index) := fun same => there (congrArg Prod.snd same)
      rw [Function.update_of_ne away, if_neg away, mem, here, Function.update_self]
      simp [there]
  · have away : e ≠ (buf, index) := fun same => here (congrArg Prod.fst same)
    rw [Function.update_of_ne away, if_neg away, mem, Function.update_of_ne here]

theorem memory_congr {buf : Buf}
    (mem : s'.mem = Function.update s.mem buf ((s.mem buf).forLaunch buf env.id)) :
    s'.memory env = s.memory env := by
  funext e
  unfold memory
  rw [cellOf_forLaunch mem]
  by_cases here : e.1 = buf
  · rw [mem, here, Function.update_self, (Instrumented.forLaunch_data buf env.id _).1]
  · rw [mem, Function.update_of_ne here]

/-- A record initialises its element unless it is a read. -/
theorem init_record (c : Cell) (acc : Access) (now : Clock) :
    (c.record acc now).1.init = (c.init || acc.kind ≠ .read) := by
  unfold Cell.record
  cases acc.kind <;> simp [Cell.onRead, Cell.onWrite]

theorem init_published (m : MemOp V) : (s.published env (s.ctx env i) m).init =
    ((s.cellOf env m.buf m.index).init || m.act.kind ≠ .read) := by
  have recorded : (s.recorded env (s.ctx env i) m).1.init =
      ((s.cellOf env m.buf m.index).init || m.act.kind ≠ .read) := init_record ..
  unfold published
  cases m.act.ordering <;> exact recorded

/-- An access leaves what it stored, and the flag unless it was a read. -/
theorem memory_accessed (m : MemOp V) (new : V) (resp : Resp V) :
    (s.accessed env (s.ctx env i) m new resp).memory env =
      Function.update (s.memory env) (m.buf, m.index)
        (new, (s.memory env (m.buf, m.index)).2 || m.act.kind ≠ .read) := by
  have flag : (s.memory env (m.buf, m.index)).2 = (s.cellOf env m.buf m.index).init := rfl
  rw [flag, ← init_published (i := i)]
  apply memory_update
  simp only [accessed, report, answer, (Instrumented.forLaunch_data m.buf env.id _).1]
  rfl

end

/-- A launch finds its elements as the program has them. -/
theorem memory_init (env : Env V) : (init env).memory env = env.program.data := by
  funext e
  have untouched : ((init env).mem e.1).launchId ≠ env.id := env.fresh e.1
  simp only [memory, cellOf, Instrumented.forLaunch, if_pos untouched]
  rfl

/-! ### What a step does to the program -/

variable [BEq V]

/-- What a step of slot `i` is in the program's terms: nothing, a move of the thread that leaves
the memory alone or replaces one element, or the whole block passing its barrier. -/
inductive Tells (env : Env V) (s : Launch V) (i : Nat) : Label V → Launch V → Prop where
  | nothing {l : Label V} {s' : Launch V} (gens : s'.sched.barrierGen = s.sched.barrierGen)
      (said : ∀ j, s'.said env j = s.said env j) (memory : s'.memory env = s.memory env)
      (raised : s'.raised = s.raised) (quiet : l.touched? = none) : Tells env s i l s'
  | inner {l : Label V} {s' : Launch V} (gens : s'.sched.barrierGen = s.sched.barrierGen)
      (others : ∀ j, j ≠ i → s'.said env j = s.said env j)
      (moved : env.program.move (s.firstBlock + i / env.config.threadsPerBlock)
        (i % env.config.threadsPerBlock) (s.said env i) = .inner (s'.said env i))
      (memory : s'.memory env = s.memory env) (raised : s'.raised = s.raised)
      (quiet : l.touched? = none) : Tells env s i l s'
  | access {s' : Launch V} (m : MemOp V) {old : V} {found : Option Access}
      (gens : s'.sched.barrierGen = s.sched.barrierGen)
      (others : ∀ j, j ≠ i → s'.said env j = s.said env j)
      (op : env.program.kernel (s.firstBlock + i / env.config.threadsPerBlock)
        (i % env.config.threadsPerBlock) (s.said env i) = .mem m)
      (answers : s.said env i = (s.threads i).answers)
      (bound : m.index < (env.mem m.buf).len)
      (performed : (env.program.move (s.firstBlock + i / env.config.threadsPerBlock)
        (i % env.config.threadsPerBlock) (s.said env i)).perform (s.memory env) =
          some (s'.said env i, s'.memory env))
      (raised : s'.raised = s.raised ++ accessReports (space env m.buf) m.index
        (s.memory env (m.buf, m.index)).2 (s.accessOf env (s.ctx env i) m) found) :
      Tells env s i (.access (s.ctx env i) m (s.accessOf env (s.ctx env i) m) old found) s'
  | meet {l : Label V} {s' : Launch V}
      (gens : s'.sched.barrierGen = Function.update s.sched.barrierGen
        (i / env.config.threadsPerBlock) (s.sched.barrierGen (i / env.config.threadsPerBlock) + 1))
      (elsewhere : ∀ j, j / env.config.threadsPerBlock ≠ i / env.config.threadsPerBlock →
        s'.said env j = s.said env j)
      (waits : ∀ thread < env.config.threadsPerBlock, ∃ loc,
        env.program.kernel (s.firstBlock + i / env.config.threadsPerBlock) thread
          (s.said env (slotAt env (i / env.config.threadsPerBlock) thread)) = .syncThreads loc)
      (answered : ∀ thread < env.config.threadsPerBlock,
        s'.said env (slotAt env (i / env.config.threadsPerBlock) thread) =
          s.said env (slotAt env (i / env.config.threadsPerBlock) thread) ++ [.unit])
      (memory : s'.memory env = s.memory env) (raised : s'.raised = s.raised)
      (quiet : l.touched? = none) : Tells env s i l s'

variable {s s' : Launch V} {i : Nat} {l : Label V}

/-- A step that moves its thread inside its operation, or hands the turn on. -/
theorem Tells.of_pc (gens : s'.sched.barrierGen = s.sched.barrierGen) (mem : s'.mem = s.mem)
    (raised : s'.raised = s.raised) (quiet : l.touched? = none)
    (others : ∀ j, j ≠ i → s'.threads j = s.threads j) (own : s'.said env i = s.said env i) :
    Tells env s i l s' := by
  refine .nothing gens ?_ (by funext e; simp only [memory, mem, cellOf_congr mem]) raised quiet
  intro j
  by_cases mine : j = i
  · rw [mine, own]
  · exact said_congr (others j mine) gens

/-- The arrival that lets a block go. -/
theorem Tells.of_arrival (standing : Standing env s) (ready : (s.threads i).pc = .ready)
    {loc : Location} (op : s.nextOp env i = .syncThreads loc)
    (everyone : ∀ j, (s.geometry env).blockOf j = (s.geometry env).blockOf i → j ≠ i →
      s.sched.status j = .atBarrier)
    (gens : s'.sched.barrierGen = Function.update s.sched.barrierGen ((s.geometry env).blockOf i)
      (s.sched.barrierGen ((s.geometry env).blockOf i) + 1))
    (mem : s'.mem = s.mem) (raised : s'.raised = s.raised) (quiet : l.touched? = none)
    (others : ∀ j, j ≠ i → s'.threads j = s.threads j)
    (own : s'.threads i = ⟨.atBarrier (s.sched.barrierGen ((s.geometry env).blockOf i)),
      (s.threads i).answers⟩) : Tells env s i l s' := by
  -- Everybody of the block stands at the barrier and is owed nothing yet.
  have stands : ∀ j, (s.geometry env).blockOf j = (s.geometry env).blockOf i →
      (s.threads j).pc.owed (s.sched.barrierGen ((s.geometry env).blockOf j)) = [] ∧
        (∃ loc, s.nextOp env j = .syncThreads loc) ∧
        s'.threads j = ⟨.atBarrier (s.sched.barrierGen ((s.geometry env).blockOf i)),
          (s.threads j).answers⟩ := by
    intro j mates
    by_cases mine : j = i
    · subst mine
      exact ⟨by rw [ready]; rfl, ⟨loc, op⟩, own⟩
    · have parked := everyone j mates mine
      have here := (standing.settled j).pc_of_atBarrier parked
      have asked := standing.asked j
      rw [here] at asked
      refine ⟨owed_nil (standing.settled j) (.inr parked), asked, ?_⟩
      rw [others j mine, ← mates, ← here]
  have mates : ∀ thread < env.config.threadsPerBlock,
      (s.geometry env).blockOf (slotAt env (i / env.config.threadsPerBlock) thread) =
        (s.geometry env).blockOf i := fun thread in_block => slotAt_blockOf in_block s
  refine .meet gens ?_ ?_ ?_ (by funext e; simp only [memory, mem, cellOf_congr mem]) raised quiet
  · intro j away
    have apart : j ≠ i := by
      intro same
      exact away (by rw [same])
    simp only [said, others j apart, blockOf_eq, gens, Function.update_of_ne away]
  · intro thread in_block
    obtain ⟨nothing, waits, -⟩ := stands _ (mates thread in_block)
    rw [said_of_owed_nil nothing]
    rw [nextOp_eq, slotAt_thread in_block, ← blockOf_eq s, mates thread in_block] at waits
    exact waits
  · intro thread in_block
    obtain ⟨nothing, -, now⟩ := stands _ (mates thread in_block)
    rw [said_of_owed_nil nothing, said, now, gens]
    rw [show (s'.geometry env).blockOf _ = (s.geometry env).blockOf i from mates thread in_block,
      Function.update_self]
    simp [Pc.owed]

/-- Every step that leaves the launch running and calls no collective. -/
theorem Moves.tells (move : Moves env s i l s') (standing : Standing env s)
    (running : s.sched.status i = .runnable) (len : ∀ buf, (s.mem buf).len = (env.mem buf).len)
    (other : ∀ c, s.nextOp env i ≠ .warp c) : Tells env s i l s' := by
  have others := fun j (away : j ≠ i) => move.others away
  have asked := standing.asked i
  cases move with
  | finish pc op unwanted alone turned =>
    rcases turned with turned | ⟨rfl, -⟩
    · exact .of_pc turned.barrierGen rfl rfl rfl others (said_congr rfl turned.barrierGen)
    · exact .of_pc rfl rfl rfl rfl others (said_congr rfl rfl)
  | fence pc ordering op =>
    refine .inner rfl (fun j away => said_congr (others j away) rfl) ?_ rfl rfl rfl
    rw [nextOp_eq] at op
    rw [said_of_ready pc, said_of_ready (by simp)]
    simp [Program.move, op]
  | arrive pc loc op alive waiting turned =>
    refine .of_pc turned.barrierGen rfl rfl rfl others ?_
    rw [said_of_ready pc, said_of_owed_nil]
    · simp [barrierEntered]
    · simp [barrierEntered, Pc.owed, turned.barrierGen, Scheduler.barrierParked, ctx, blockOf_eq]
  | release pc loc op everyone turned =>
    exact .of_arrival standing pc op everyone turned.barrierGen rfl rfl rfl others
      (by simp [barrierEntered, ctx, blockOf_eq])
  | yieldAccess pc m op turned =>
    refine .of_pc turned.barrierGen rfl rfl rfl others ?_
    rw [said_of_ready pc, said_of_owed_nil] <;> simp [Pc.owed]
  | yieldCollective pc c op turned => exact absurd op (other c)
  | access m pc new resp bound updated =>
    have op := standing.op_of_atAccess pc
    have here : s.said env i = (s.threads i).answers := said_of_atAccess pc
    rw [(Instrumented.forLaunch_data m.buf env.id _).2, len] at bound
    rw [(Instrumented.forLaunch_data m.buf env.id _).1] at updated
    rw [nextOp_eq, ← here] at op
    refine .access m rfl (fun j away => said_congr (others j away) rfl) op here bound ?_ rfl
    have value : m.act.update (s.memory env (m.buf, m.index)).1 = .ok (new, resp) := updated
    have inside : m.index < (env.program.mem m.buf).len := bound
    have told : (s.accessed env (s.ctx env i) m new resp).said env i =
        (s.threads i).answers ++ [resp] := by
      rw [said_of_ready (by simp [accessed, ctx])]
      simp [accessed, ctx]
    rw [memory_accessed, told, ← here]
    simp only [Program.move, op, inside, if_true, Phased.Move.perform, value, Except.toOption,
      Option.map_some]
  | miss m pc f act outside =>
    have op := standing.op_of_atAccess pc
    have here : s.said env i = (s.threads i).answers := said_of_atAccess pc
    rw [(Instrumented.forLaunch_data m.buf env.id _).2, len] at outside
    rw [nextOp_eq] at op
    have beyond : ¬ m.index < (env.program.mem m.buf).len := Nat.not_lt_of_le outside
    refine .inner rfl (fun j away => said_congr (others j away) rfl) ?_ (memory_congr rfl) rfl rfl
    have told : ((s.missed env (s.ctx env i) m).answer i (.elem none)).said env i =
        (s.threads i).answers ++ [.elem none] := by
      rw [said_of_ready (by simp)]
      simp [missed]
    rw [here, told]
    simp [Program.move, op, beyond, act]
  | depart gen pc =>
    refine .of_pc rfl rfl rfl rfl others ?_
    rcases (standing.settled i).gen_of_atBarrier pc with ⟨parked, -⟩ | ⟨-, passed⟩
    · rw [running] at parked
      cases parked
    · rw [said_of_ready (by simp), said, pc]
      simp [Pc.owed, passed]
  | publish c pc checked | gather c pc checked | exchange c pc | disperse c pc | leave c answer pc =>
    rw [pc] at asked
    exact absurd asked (other c)

/-- No step resizes an array. -/
theorem Moves.len (move : Moves env s i l s') (buf : Buf) : (s'.mem buf).len = (s.mem buf).len := by
  cases move with
  | access m pc new resp bound updated =>
    by_cases here : buf = m.buf
    · subst here
      simp [accessed, report, answer, Instrumented.forLaunch_data]
    · simp [accessed, report, answer, here]
  | miss m pc f act outside =>
    by_cases here : buf = m.buf
    · subst here
      simp [missed, answer, Instrumented.forLaunch_data]
    · simp [missed, answer, here]
  | _ => rfl

/-- The arrays of a launch that still runs are as long as it found them. -/
theorem len_run {n : Nat} (live : Live ((run env).state n)) (buf : Buf) :
    (((run env).state n).mem buf).len = (env.mem buf).len := by
  induction n with
  | zero => rfl
  | succ n ih =>
    have before := ih (live_of_succ live)
    rcases (run env).step_cases n with ⟨l, -, moved⟩ | ⟨-, stays⟩
    · rcases step_moves env moved live with ⟨-, -, -, next⟩ | ⟨slot, -, move⟩
      · rw [next]
        exact before
      · rw [move.len, before]
    · rw [stays]
      exact before

/-- An access the program can make leaves the launch running: it is in range and its arithmetic
goes through, or it asks whether it is in range. -/
theorem access_live (live : Live s) (len : ∀ buf, (s.mem buf).len = (env.mem buf).len)
    {m : MemOp V} (op : s.nextOp env i = .mem m)
    (performs : ((env.program.move (s.firstBlock + i / env.config.threadsPerBlock)
      (i % env.config.threadsPerBlock) (s.threads i).answers).perform (s.memory env)).isSome) :
    Live (s.checkedAccess env (s.ctx env i) m).2 := by
  have fresh := Instrumented.forLaunch_data m.buf env.id (s.mem m.buf)
  by_cases bound : m.index < (env.mem m.buf).len
  · have bound' : m.index < (env.program.mem m.buf).len := bound
    rw [nextOp_eq] at op
    simp only [Program.move, op, bound', if_true, Phased.Move.perform, Option.isSome_map]
      at performs
    have in_range : ¬ m.index ≥ ((s.mem m.buf).forLaunch m.buf env.id).len := by
      rw [fresh.2, len]
      exact Nat.not_le_of_lt bound
    cases updated : m.act.update (s.memory env (m.buf, m.index)).1 with
    | error message =>
      rw [updated] at performs
      cases performs
    | ok result =>
      have value : m.act.update (((s.mem m.buf).forLaunch m.buf env.id).data m.index) =
          .ok result := by
        rw [fresh.1]
        exact updated
      simp only [checkedAccess, in_range, if_false, value]
      exact live
  · have outside : m.index ≥ ((s.mem m.buf).forLaunch m.buf env.id).len := by
      rw [fresh.2, len]
      exact Nat.le_of_not_lt bound
    have bound' : ¬ m.index < (env.program.mem m.buf).len := bound
    rw [nextOp_eq] at op
    simp only [Program.move, op, bound', if_false] at performs
    simp only [checkedAccess, outside, if_true]
    split
    · exact live
    next unchecked =>
      -- Any other access out of range would end the phase.
      split at performs
      next f act => exact absurd act (unchecked f)
      · cases performs

end Launch

end Riri
