import Riri.Run.Told
import Riri.Sched.Turns

/-!
# Threads that spin

A thread that nobody preempts goes on until it comes to a barrier, a collective or its return. If
it never would with the memory to itself, it keeps the turn forever from where preemption ends. A
launch that preempts nobody any more and whose threads meet no more has no other way to go on
forever.
-/
namespace Riri

variable {V : Type}

/-- A step after which a thread may have to wait for others. -/
def Label.meets : Label V → Bool
  | .arrive .. | .publish .. | .exchange .. => true
  | .finish .. | .panic .. | .trap .. | .fence .. | .yield .. | .depart .. | .access .. | .fault ..
  | .leave .. | .nextWave => false

namespace Launch

open Scheduler (Orderly)

variable [BEq V]

/-- If nobody else ran, the thread would access memory and fence forever: never meet another,
return or stop the launch. -/
def Spins (env : Env V) (s : Launch V) (i : Nat) : Prop :=
  Phased.Endless
    (env.program.move (s.firstBlock + i / env.config.threadsPerBlock)
      (i % env.config.threadsPerBlock)) (s.said env i) (s.memory env)

/-- How the step at `n` leaves the turn. -/
def OrderlyAt (env : Env V) (n : Nat) : Prop :=
  Orderly (((run env).state n).geometry env) ((run env).state n).sched ((run env).state (n + 1)).sched

variable {env : Env V} {s s' : Launch V} {i : Nat} {l : Label V}

theorem Resumed.asks_of_meets (resumed : Resumed env s i l s') (standing : Standing env s)
    (meets : l.meets = true) :
    (∃ loc, s.nextOp env i = .syncThreads loc) ∨ ∃ c, s.nextOp env i = .warp c := by
  have asked := standing.asked i
  cases resumed with
  | arrive pc loc op => exact .inl ⟨loc, op⟩
  | publish c pc | exchange c pc =>
    rw [pc] at asked
    exact .inr ⟨c, asked⟩
  | _ => cases meets

/-! ### What a spinning thread asks for -/

theorem Spins.performs (spins : Spins env s i)
    (nothing : (s.threads i).pc.owed (s.sched.barrierGen ((s.geometry env).blockOf i)) = []) :
    ((env.program.move (s.firstBlock + i / env.config.threadsPerBlock)
      (i % env.config.threadsPerBlock) (s.threads i).answers).perform (s.memory env)).isSome := by
  obtain ⟨told, mem, performed, -⟩ := Phased.endless_iff.mp spins
  rw [said_of_owed_nil nothing] at performed
  rw [performed]
  rfl

/-- It never asks for anything that ends a phase. -/
theorem Spins.no_stop (spins : Spins env s i)
    (nothing : (s.threads i).pc.owed (s.sched.barrierGen ((s.geometry env).blockOf i)) = []) :
    ¬ (s.nextOp env i = .ret ∨ (∃ message, s.nextOp env i = .panic message) ∨
      (∃ loc, s.nextOp env i = .syncThreads loc) ∨ ∃ c, s.nextOp env i = .warp c) := by
  intro ends
  have performs := spins.performs nothing
  rw [Program.move_stop (nextOp_eq env s i).symm ends] at performs
  cases performs

theorem Spins.no_collective (spins : Spins env s i) (standing : Standing env s) (c : Collective V) :
    s.nextOp env i ≠ .warp c := by
  intro op
  have asked := standing.asked i
  refine spins.no_stop ?_ (.inr (.inr (.inr ⟨c, op⟩)))
  cases pc : (s.threads i).pc with
  | atBarrier gen =>
    rw [pc, op] at asked
    obtain ⟨loc, impossible⟩ := asked
    cases impossible
  | _ => rfl

/-- Its steps neither meet anybody nor return. -/
theorem Moves.apart_of_spins (move : Moves env s i l s') (standing : Standing env s)
    (spins : Spins env s i) : l.meets = false ∧ l ≠ .finish (s.ctx env i) := by
  have no_collective := spins.no_collective standing
  have asked := standing.asked i
  cases move with
  | finish pc op => exact absurd (.inl op) (spins.no_stop (by rw [pc]; rfl))
  | arrive pc loc op | release pc loc op =>
    exact absurd (.inr (.inr (.inl ⟨loc, op⟩))) (spins.no_stop (by rw [pc]; rfl))
  | publish c pc | gather c pc | exchange c pc | disperse c pc =>
    rw [pc] at asked
    exact absurd asked (no_collective c)
  | _ => exact ⟨rfl, nofun⟩

/-- A spinning thread does not stop the launch. -/
theorem Spins.resume_live (spins : Spins env s i) (standing : Standing env s) (live : Live s)
    (len : ∀ buf, (s.mem buf).len = (env.mem buf).len) (inside : i < (s.geometry env).total)
    (running : s.sched.status i = .runnable) : Live (s.resume env i).2 := by
  have asked := standing.asked i
  have no_collective := spins.no_collective standing
  unfold resume
  cases pc : (s.threads i).pc with
  | ready =>
    have no_stop := spins.no_stop (by rw [pc]; rfl)
    cases op : s.nextOp env i with
    | ret => exact absurd (.inl op) no_stop
    | panic message => exact absurd (.inr (.inl ⟨message, op⟩)) no_stop
    | syncThreads loc => exact absurd (.inr (.inr (.inl ⟨loc, op⟩))) no_stop
    | warp c => exact absurd op (no_collective c)
    | fence ordering =>
      rw [nextOp] at op
      simp only [op, dispatch]
      exact live
    | mem m =>
      rw [nextOp] at op
      simp only [op, dispatch]
      exact Scheduler.yieldNow_goes _ live inside running
  | atAccess m =>
    exact access_live live len (standing.op_of_atAccess pc) (spins.performs (by rw [pc]; rfl))
  | atBarrier gen => exact live
  | atCollective c | arrived c | departed c =>
    rw [pc] at asked
    exact absurd asked (no_collective c)

/-- After its step it still spins. -/
theorem Moves.spins (move : Moves env s i l s') (standing : Standing env s)
    (running : s.sched.status i = .runnable) (len : ∀ buf, (s.mem buf).len = (env.mem buf).len)
    (spins : Spins env s i) : Spins env s' i := by
  have same := move.firstBlock
  unfold Spins
  rw [same]
  cases move.tells standing running len (spins.no_collective standing) with
  | nothing gens said memory =>
    rw [said, memory]
    exact spins
  | inner gens others moved memory =>
    obtain ⟨told, mem, performed, further⟩ := Phased.endless_iff.mp spins
    rw [moved] at performed
    obtain ⟨rfl, rfl⟩ := Prod.mk.inj (Option.some.inj performed)
    rw [memory]
    exact further
  | access m gens others op answers bound moved =>
    obtain ⟨told, mem, performed, further⟩ := Phased.endless_iff.mp spins
    rw [moved] at performed
    obtain ⟨rfl, rfl⟩ := Prod.mk.inj (Option.some.inj performed)
    exact further
  | meet gens elsewhere waits =>
    obtain ⟨loc, op⟩ := waits _ (mod_lt env i)
    rw [slotAt_self] at op
    obtain ⟨told, mem, performed, -⟩ := Phased.endless_iff.mp spins
    rw [Program.move_stop op (.inr (.inr (.inl ⟨loc, rfl⟩)))] at performed
    cases performed

/-! ### Who keeps the turn -/

/-- A thread that neither meets another nor returns can run on. -/
theorem Moves.runnable (move : Moves env s i l s') (running : s.sched.status i = .runnable)
    (apart : l.meets = false) (unfinished : l ≠ .finish (s.ctx env i)) :
    s'.sched.status i = .runnable := by
  cases move with
  | finish => exact absurd rfl unfinished
  | yieldAccess pc m op turned | yieldCollective pc c op turned =>
    exact (congrFun turned.status i).trans running
  | fence | access | miss | depart | leave => exact running
  | arrive | release | publish | gather | exchange | disperse => cases apart

/-- Unless it is preempted it also keeps the turn. -/
theorem Moves.keeps_turn (move : Moves env s i l s') (current : s.sched.current = some i)
    (inside : i < (s.geometry env).total) (running : s.sched.status i = .runnable)
    (orderly : Orderly (s.geometry env) s.sched s'.sched) (apart : l.meets = false)
    (unfinished : l ≠ .finish (s.ctx env i)) : s'.sched.current = some i := by
  cases orderly with
  | inl kept => exact kept.trans current
  | inr lost =>
    have able := move.runnable running apart unfinished
    exact absurd ((Scheduler.mem_runnable _).mpr ⟨inside, able⟩) (lost.1 i current)

/-- A spinning thread that is not preempted goes on spinning with the turn. -/
theorem Spins.step {n : Nat} (spins : Spins env ((run env).state n) i)
    (live : Live ((run env).state n)) (current : ((run env).state n).sched.current = some i)
    (orderly : OrderlyAt env n) :
    Live ((run env).state (n + 1)) ∧ ((run env).state (n + 1)).sched.current = some i ∧
      Spins env ((run env).state (n + 1)) i ∧ ¬ (run env).Halted n := by
  obtain ⟨inside, running⟩ := (wellFormed live).running current
  have standing := standing_run live
  have len := len_run live
  have moved : ((run env).state n).step env = some (((run env).state n).resume env i) :=
    step_of_turn env live current
  have next : (run env).state (n + 1) = (((run env).state n).resume env i).2 :=
    (run env).state_succ_of_next moved
  have goes : Live ((run env).state (n + 1)) := by
    rw [next]
    exact spins.resume_live standing live len inside running
  have resumed := resume_resumed env ((run env).state n) i
  rw [← next] at resumed
  have move := resumed.moves env live goes
  obtain ⟨apart, unfinished⟩ := move.apart_of_spins standing spins
  refine ⟨goes, move.keeps_turn current inside running orderly apart unfinished,
    move.spins standing running len spins, ?_⟩
  rw [Machine.Halted]
  intro stopped
  rw [show (run env).next _ = some _ from moved] at stopped
  cases stopped

/-- From where preemption ends, a thread that has the turn and spins keeps it forever. -/
theorem Spins.forever {n : Nat} (spins : Spins env ((run env).state n) i)
    (live : Live ((run env).state n)) (current : ((run env).state n).sched.current = some i)
    (calm : ∀ k, n ≤ k → OrderlyAt env k) (k : Nat) : ¬ (run env).Halted k := by
  have along : ∀ k, n ≤ k → Live ((run env).state k) ∧
      ((run env).state k).sched.current = some i ∧ Spins env ((run env).state k) i := by
    intro k le
    induction k, le using Nat.le_induction with
    | base => exact ⟨live, current, spins⟩
    | succ k le ih =>
      obtain ⟨live, current, spins⟩ := ih
      obtain ⟨live', current', spins', -⟩ := spins.step live current (calm k le)
      exact ⟨live', current', spins'⟩
  intro halted
  have later := ((run env).halted_mono halted (Nat.le_max_right n k)).1
  obtain ⟨live, current, spins⟩ := along _ (Nat.le_max_left n k)
  exact (spins.step live current (calm _ (Nat.le_max_left n k))).2.2.2 later

/-! ### A launch without end -/

def unfinished (env : Env V) (s : Launch V) : Finset Nat :=
  (Finset.range (s.geometry env).total).filter fun i => s.sched.status i ≠ .finished

theorem Moves.unfinished_subset (move : Moves env s i l s')
    (running : s.sched.status i = .runnable) : unfinished env s' ⊆ unfinished env s := by
  intro j mem
  simp only [unfinished, Finset.mem_filter, Finset.mem_range] at mem ⊢
  rw [show s'.geometry env = s.geometry env by simp only [geometry, move.firstBlock]] at mem
  refine ⟨mem.1, ?_⟩
  intro ended
  exact mem.2 ((move.finished_iff running).mpr (.inl ended))

/-- A return leaves one thread fewer. -/
theorem Moves.unfinished_lt (move : Moves env s i l s') (inside : i < (s.geometry env).total)
    (running : s.sched.status i = .runnable) (finish : l = .finish (s.ctx env i)) :
    (unfinished env s').card < (unfinished env s).card := by
  apply Finset.card_lt_card
  refine ⟨move.unfinished_subset running, ?_⟩
  intro all
  have before : i ∈ unfinished env s := by
    simp [unfinished, inside, running]
  have after := (Finset.mem_filter.mp (all before)).2
  exact after ((move.finished_iff running).mpr (.inr ⟨rfl, finish⟩))

/-- What the step of a thread is to one that has the memory to itself, at the start of an operation
or inside an access. -/
inductive OwnStep (env : Env V) (s : Launch V) (i : Nat) (s' : Launch V) : Prop
  | asks (m : MemOp V) (pc : (s.threads i).pc = .ready) (pc' : (s'.threads i).pc = .atAccess m)
      (said : s'.said env i = s.said env i) (memory : s'.memory env = s.memory env)
  | moves (pc' : (s'.threads i).pc = .ready)
      (performed : (env.program.move (s.firstBlock + i / env.config.threadsPerBlock)
        (i % env.config.threadsPerBlock) (s.said env i)).perform (s.memory env) =
          some (s'.said env i, s'.memory env))
  | gathers (c : Collective V) (pc' : (s'.threads i).pc = .atCollective c)

def Between (s : Launch V) (i : Nat) : Prop :=
  (s.threads i).pc = .ready ∨ ∃ m, (s.threads i).pc = .atAccess m

/-- A step that tells its thread something, and passes no barrier, is the move the thread would make
alone. -/
theorem Tells.performed (tells : Tells env s i l s')
    (told : s'.said env i ≠ s.said env i) (gens : s'.sched.barrierGen = s.sched.barrierGen) :
    (env.program.move (s.firstBlock + i / env.config.threadsPerBlock)
      (i % env.config.threadsPerBlock) (s.said env i)).perform (s.memory env) =
        some (s'.said env i, s'.memory env) := by
  cases tells with
  | nothing gens said => exact absurd (said i) told
  | inner gens others moved memory =>
    rw [moved, memory]
    rfl
  | access m gens others op answers bound performed => exact performed
  | meet passed =>
    have same := congrFun gens (i / env.config.threadsPerBlock)
    rw [passed, Function.update_self] at same
    omega

theorem Moves.ownStep (move : Moves env s i l s') (standing : Standing env s)
    (running : s.sched.status i = .runnable) (len : ∀ buf, (s.mem buf).len = (env.mem buf).len)
    (between : Between s i) (apart : l.meets = false) (unfinished : l ≠ .finish (s.ctx env i)) :
    OwnStep env s i s' := by
  have tells := move.tells standing running len
  cases move with
  | finish => exact absurd rfl unfinished
  | arrive | release | publish | gather | exchange | disperse => cases apart
  | yieldCollective pc c op turned => exact .gathers c (by simp)
  | yieldAccess pc m op turned =>
    refine .asks m pc (by simp) ?_ rfl
    rw [said_of_ready pc, said_of_owed_nil] <;> simp [Pc.owed]
  | fence pc ordering op =>
    refine .moves (by simp) ((tells ?_).performed ?_ rfl)
    · simp [op]
    · rw [said_of_ready pc, said_of_ready (by simp)]
      simp
  | access m pc new resp =>
    refine .moves (by simp [accessed, ctx]) ((tells ?_).performed ?_ rfl)
    · simp [standing.op_of_atAccess pc]
    · rw [said_of_atAccess pc, said_of_ready (by simp [accessed, ctx])]
      simp [accessed, ctx]
  | miss m pc =>
    refine .moves (by simp) ((tells ?_).performed ?_ rfl)
    · simp [standing.op_of_atAccess pc]
    · rw [said_of_atAccess pc, said_of_ready (by simp)]
      simp [missed]
  | depart gen pc | leave c answer pc =>
    rcases between with ready | ⟨m, access⟩
    · rw [pc] at ready
      cases ready
    · rw [pc] at access
      cases access

/-- Who neither waits for others nor comes back from there is in its own operations. -/
theorem Moves.between (move : Moves env s i l s') (apart : l.meets = false) :
    Between s i ∨ Between s' i := by
  cases move with
  | finish pc | fence pc | yieldAccess pc | yieldCollective pc => exact .inl (.inl pc)
  | access m pc | miss m pc => exact .inl (.inr ⟨m, pc⟩)
  | depart | leave => exact .inr (.inl (by simp))
  | arrive | release | publish | gather | exchange | disperse => cases apart

theorem Moves.no_collective (move : Moves env s i l s') (apart : l.meets = false)
    (c : Collective V) : (s.threads i).pc ≠ .atCollective c := by
  intro here
  cases move with
  | publish | gather => cases apart
  | finish pc | fence pc | arrive pc | release pc | yieldAccess pc | yieldCollective pc
  | access _ pc | miss _ pc | depart _ pc | exchange _ pc | disperse _ pc | leave _ _ pc =>
    rw [pc] at here
    cases here

section

variable (single : env.config.blocks ≤ env.config.residentBlocks)
  (endless : ∀ n, ¬ (run env).Halted n)
include single endless

/-- Every step of a launch of one wave that never ends is a move of the thread with the turn. -/
theorem move_of_endless (n : Nat) : ∃ i l, (run env).label n = some l ∧
    Live ((run env).state n) ∧ ((run env).state n).sched.current = some i ∧
    Moves env ((run env).state n) i l ((run env).state (n + 1)) := by
  have goes : ∀ k, ∃ l, (run env).label k = some l := fun k =>
    Option.ne_none_iff_exists'.mp fun none => endless k ((run env).label_eq_none_iff.mp none)
  obtain ⟨l, labelled⟩ := goes n
  obtain ⟨l', later⟩ := goes (n + 1)
  have moved : ((run env).state n).step env = some (l, (run env).state (n + 1)) :=
    (run env).next_of_label labelled
  obtain ⟨i, current, resumed⟩ := next_single single (firstBlock_single single n) moved
  exact ⟨i, l, labelled, live_of_label labelled, current,
    resumed.moves env (live_of_label labelled) (live_of_label later)⟩

theorem unfinished_run {n k : Nat} (le : n ≤ k) :
    (unfinished env ((run env).state k)).card ≤ (unfinished env ((run env).state n)).card := by
  induction k, le using Nat.le_induction with
  | base => exact le_rfl
  | succ k le ih =>
    obtain ⟨i, l, -, live, current, move⟩ := move_of_endless single endless k
    exact (Finset.card_le_card
      (move.unfinished_subset ((wellFormed live).running current).2)).trans ih

variable {n : Nat} (calm : ∀ k, n ≤ k → OrderlyAt env k)
  (apart : ∀ k, n ≤ k → ∀ l, (run env).label k = some l → l.meets = false)
include calm apart

/-- If nobody is preempted, meets another or returns any more, one thread keeps the turn. -/
theorem current_forever {i : Nat} (current : ((run env).state n).sched.current = some i)
    (stay : ∀ k, n ≤ k → ∀ cx, (run env).label k ≠ some (.finish cx)) {k : Nat} (le : n ≤ k) :
    ((run env).state k).sched.current = some i := by
  induction k, le using Nat.le_induction with
  | base => exact current
  | succ k le ih =>
    obtain ⟨j, l, labelled, live, turn, move⟩ := move_of_endless single endless k
    obtain rfl : j = i := Option.some.inj (turn.symm.trans ih)
    obtain ⟨inside, running⟩ := (wellFormed live).running turn
    refine move.keeps_turn turn inside running (calm k le) (apart k le l labelled) ?_
    intro finish
    exact stay k le _ (labelled.trans (congrArg some finish))

/-- It spins. -/
theorem spins_of_stay {i : Nat} (current : ((run env).state n).sched.current = some i)
    (stay : ∀ k, n ≤ k → ∀ cx, (run env).label k ≠ some (.finish cx)) :
    ∃ k, n ≤ k ∧ Spins env ((run env).state k) i := by
  have moves : ∀ k, n ≤ k → ∃ l, Live ((run env).state k) ∧ l.meets = false ∧
      l ≠ .finish (((run env).state k).ctx env i) ∧
      Moves env ((run env).state k) i l ((run env).state (k + 1)) := by
    intro k le
    obtain ⟨j, l, labelled, live, turn, move⟩ := move_of_endless single endless k
    obtain rfl : j = i := Option.some.inj
      (turn.symm.trans (current_forever single endless calm apart current stay le))
    refine ⟨l, live, apart k le l labelled, ?_, move⟩
    intro finish
    exact stay k le _ (labelled.trans (congrArg some finish))
  have no_collective : ∀ k, n ≤ k → ∀ c, (((run env).state k).threads i).pc ≠ .atCollective c := by
    intro k le
    obtain ⟨l, -, quiet, -, move⟩ := moves k le
    exact move.no_collective quiet
  have own : ∀ k, n ≤ k → Between ((run env).state k) i →
      OwnStep env ((run env).state k) i ((run env).state (k + 1)) := by
    intro k le between
    obtain ⟨l, live, quiet, unfinished, move⟩ := moves k le
    have turn := current_forever single endless calm apart current stay le
    exact move.ownStep (standing_run live) ((wellFormed live).running turn).2 (len_run live) between
      quiet unfinished
  have begun : ∃ k, n ≤ k ∧ Between ((run env).state k) i := by
    obtain ⟨l, -, quiet, -, move⟩ := moves n le_rfl
    rcases move.between quiet with now | next
    · exact ⟨n, le_rfl, now⟩
    · exact ⟨n + 1, Nat.le_succ n, next⟩
  obtain ⟨k, le, between⟩ := begun
  refine ⟨k, le, ?_⟩
  have first : ∀ k, ((run env).state k).firstBlock = 0 := firstBlock_single single
  unfold Spins
  rw [first]
  -- Where the thread is alone, it is where the launch has it at some later time.
  refine Phased.endless_of_invariant (P := fun told mem => ∃ k, n ≤ k ∧
    Between ((run env).state k) i ∧ ((run env).state k).said env i = told ∧
    ((run env).state k).memory env = mem) ?_ ⟨k, le, between, rfl, rfl⟩
  rintro told mem ⟨k, le, between, rfl, rfl⟩
  have later := Nat.le_succ_of_le le
  cases own k le between with
  | moves pc' performed =>
    rw [first] at performed
    exact ⟨_, _, performed, k + 1, later, .inl pc', rfl, rfl⟩
  | gathers c pc' => exact absurd pc' (no_collective (k + 1) later c)
  | asks m pc pc' said memory =>
    cases own (k + 1) later (.inr ⟨m, pc'⟩) with
    | asks m' ready =>
      rw [pc'] at ready
      cases ready
    | gathers c pc'' => exact absurd pc'' (no_collective (k + 1 + 1) (Nat.le_succ_of_le later) c)
    | moves pc'' performed =>
      rw [first, said, memory] at performed
      exact ⟨_, _, performed, k + 1 + 1, Nat.le_succ_of_le later, .inl pc'', rfl, rfl⟩

/-- A launch of one wave that preempts nobody any more and whose threads meet no more ends, or one
of its threads comes to spin with the turn. -/
theorem exists_spinning : ∃ k, n ≤ k ∧ ∃ i, Live ((run env).state k) ∧
    ((run env).state k).sched.current = some i ∧ Spins env ((run env).state k) i := by
  induction left : (unfinished env ((run env).state n)).card using Nat.strong_induction_on
    generalizing n with
  | _ few ih =>
    by_cases stay : ∀ k, n ≤ k → ∀ cx, (run env).label k ≠ some (.finish cx)
    · obtain ⟨i, l, -, -, current, -⟩ := move_of_endless single endless n
      obtain ⟨k, le, spins⟩ := spins_of_stay single endless calm apart current stay
      obtain ⟨_, _, -, live, -⟩ := move_of_endless single endless k
      exact ⟨k, le, i, live, current_forever single endless calm apart current stay le, spins⟩
    · push Not at stay
      obtain ⟨k, le, cx, finish⟩ := stay
      have fewer : (unfinished env ((run env).state (k + 1))).card < few := by
        obtain ⟨i, l, labelled, live, current, move⟩ := move_of_endless single endless k
        obtain ⟨j, turn, rfl, inside, running, -⟩ := label_slot finish rfl
        obtain rfl := Option.some.inj (turn.symm.trans current)
        have returns := Option.some.inj (labelled.symm.trans finish)
        rw [← left]
        exact (move.unfinished_lt inside running returns).trans_le
          (unfinished_run single endless le)
      obtain ⟨k', le', spinning⟩ := ih _ fewer
        (fun k' le' => calm k' (by omega)) (fun k' le' => apart k' (by omega)) rfl
      exact ⟨k', by omega, spinning⟩

end

end Launch

end Riri
