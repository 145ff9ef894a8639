import Riri.Run.Epochs
import Riri.Run.Programs

/-!
# Barriers at different places

The release test of a barrier reads the statuses of the block's threads and nothing else, and
the location it remembers is only ever reported. Threads that stand at different barrier
calls therefore let each other go. That is the only way a release brings different locations
together.
-/
namespace Riri.Launch

variable {V : Type} [BEq V]

/-- The barrier call a thread is at, before it or parked inside it. -/
def standsAt (env : Env V) (s : Launch V) (i : Nat) : Option Location :=
  match s.nextOp env i with
  | .syncThreads loc => some loc
  | _ => none

/-- The whole block of `slot` stands at one barrier call. -/
def Together (env : Env V) (s : Launch V) (slot : Nat) : Prop :=
  ∀ i, (s.geometry env).blockOf i = (s.geometry env).blockOf slot →
    s.standsAt env i = s.standsAt env slot

/-- `slot` comes to a barrier and all its block-mates are parked at one: with this step the
whole block has arrived. -/
def BlockArrives (env : Env V) (s : Launch V) (slot : Nat) : Prop :=
  Live s ∧ s.sched.current = some slot ∧ (s.threads slot).pc = .ready ∧
    (∃ loc, s.nextOp env slot = .syncThreads loc) ∧ LastToArrive env s slot

/-- The barrier of the block of `slot` releases with the step at `n`. -/
def BlockReleased (env : Env V) (n slot : Nat) : Prop :=
  ((run env).state (n + 1)).firstBlock = ((run env).state n).firstBlock ∧
    ((run env).state (n + 1)).sched.barrierGen
        ((((run env).state n).geometry env).blockOf slot) ≠
      ((run env).state n).sched.barrierGen ((((run env).state n).geometry env).blockOf slot)

variable {env : Env V}

/-- Only a last arrival moves a generation, in a step that stops the launch as in any. -/
theorem Resumed.barrierGen {s s' : Launch V} {slot : Nat} {l : Label V} (live : Live s)
    (current : s.sched.current = some slot) (resumed : Resumed env s slot l s') :
    s'.sched.barrierGen = s.sched.barrierGen ∨
      (BlockArrives env s slot ∧ ∀ block, block ≠ (s.geometry env).blockOf slot →
        s'.sched.barrierGen block = s.sched.barrierGen block) := by
  cases resumed with
  | finish => exact .inl (Scheduler.finish_barrierGen ..)
  | arrive pc loc op =>
    have others := (Scheduler.barrier_gens (s.geometry env) slot loc s.sched).2
    have entered : (Scheduler.barrier (s.geometry env) slot loc s.sched).1.barrierGen =
        (Scheduler.barrierEnter (s.geometry env) slot loc s.sched).1.barrierGen :=
      (Scheduler.handOffUnlessFailed_rests ..).barrierGen
    rcases Scheduler.barrierEnter_cases (s.geometry env) slot loc s.sched with
      ⟨i, -, -, -, enter⟩ | ⟨everyone, -⟩ | ⟨-, -, enter⟩
    · rw [enter] at entered
      exact .inl entered
    · exact .inr ⟨⟨live, current, pc, ⟨loc, op⟩, everyone⟩, others⟩
    · rw [enter] at entered
      exact .inl entered
  | yieldAccess | yieldCollective => exact .inl (Scheduler.handOff_rests ..).barrierGen
  | publish | exchange => exact .inl (Scheduler.warpRendezvous_gens ..).1
  | _ => exact .inl rfl

/-- Behind every release there is an arrival that completed its block. -/
theorem arrives_of_released {n slot : Nat} (released : BlockReleased env n slot) :
    ∃ me, (((run env).state n).geometry env).blockOf me =
        (((run env).state n).geometry env).blockOf slot ∧
      BlockArrives env ((run env).state n) me := by
  obtain ⟨wave, moved⟩ := released
  rcases (run env).step_cases n with ⟨l, labelled, -⟩ | ⟨-, stays⟩
  · obtain ⟨live, ⟨nobody, rfl⟩ | ⟨me, current, resumed⟩⟩ := label_cases labelled
    · obtain ⟨-, ⟨-, -, -, next⟩ | ⟨me, current, -⟩⟩ :=
        step_cases env ((run env).next_of_label labelled)
      · have blocks := waveBlocks_pos (wellFormed live).inside
        rw [next] at wave
        exact absurd wave (Nat.ne_of_gt (Nat.lt_add_of_pos_right blocks))
      · rw [nobody] at current
        cases current
    · rcases resumed.barrierGen live current with same | ⟨arrives, others⟩
      · exact absurd (congrFun same _) moved
      · refine ⟨me, ?_, arrives⟩
        by_contra elsewhere
        exact moved (others _ (Ne.symm elsewhere))
  · rw [stays] at moved
    exact absurd rfl moved

/-- When the whole block has arrived it is let go, and the launch goes on. -/
theorem released_of_arrives {n slot : Nat}
    (arrives : BlockArrives env ((run env).state n) slot) :
    Live ((run env).state (n + 1)) ∧ BlockReleased env n slot := by
  obtain ⟨live, current, pc, ⟨loc, op⟩, everyone⟩ := arrives
  have inside := ((wellFormed live).running current).1
  have moved := step_of_ready env live current pc op
  have next : (run env).state (n + 1) =
      (((run env).state n).syncThreads env (((run env).state n).ctx env slot) loc).2 :=
    (run env).state_succ_of_next moved
  have sched : ((run env).state (n + 1)).sched =
      (Scheduler.barrier (((run env).state n).geometry env) slot loc
        ((run env).state n).sched).1 := by
    rw [next]
    rfl
  have turned := Scheduler.barrier_last (((run env).state n).geometry env) loc live inside everyone
  rw [← sched] at turned
  refine ⟨turned.aborted.trans live, by rw [next]; rfl, ?_⟩
  rw [turned.barrierGen]
  simp [Scheduler.barrierReleased]

/-- What a barrier should promise of one run: a release finds its block at one call, and a
block that has arrived at different calls stops the launch with a divergence report. -/
def SameBarrier (env : Env V) : Prop :=
  (∀ n slot, BlockReleased env n slot → Together env ((run env).state n) slot) ∧
    ∀ n slot, BlockArrives env ((run env).state n) slot →
      ¬ Together env ((run env).state n) slot →
      ((run env).state (n + 1)).sched.aborted = true ∧ ∃ waiting exited loc,
        .barrierDivergence (((run env).state n).ctx env slot).block waiting exited loc ∈
          ((run env).state (n + 1)).raised

/-- When a barrier keeps its promise: a run meets it exactly when every block that has
arrived as a whole stands at one barrier call. -/
theorem together_exactly (env : Env V) :
    SameBarrier env ↔ ∀ n slot, BlockArrives env ((run env).state n) slot →
      Together env ((run env).state n) slot := by
  constructor
  · rintro ⟨releases, -⟩ n slot arrives
    exact releases n slot (released_of_arrives arrives).2
  · intro together
    refine ⟨fun n slot released => ?_, fun n slot arrives apart =>
      absurd (together n slot arrives) apart⟩
    obtain ⟨me, mates, arrives⟩ := arrives_of_released released
    have standing := together n me arrives
    intro i same
    rw [standing i (same.trans mates.symm), standing slot mates.symm]

def divergent : Env Nat :=
  trial .twoThreads
    (fun thread => [.syncThreads ⟨"kernel.rs", thread + 1, 1⟩]) [0, 1]

/-- The second arrival releases both and the launch ends without a finding. -/
theorem divergent_released :
    BlockReleased divergent 1 0 ∧ ¬ Together divergent ((run divergent).state 1) 0 ∧
      ((run divergent).state 6).sched.aborted = false ∧ ((run divergent).state 6).raised = [] ∧
      (run divergent).Halted 6 ∧ ¬ SameBarrier divergent := by
  have released : BlockReleased divergent 1 0 := by
    unfold BlockReleased
    set_option maxRecDepth 100000 in decide +kernel
  have apart : ¬ Together divergent ((run divergent).state 1) 0 := by
    intro together
    have same := together 1 (by set_option maxRecDepth 100000 in decide +kernel)
    exact absurd same (by set_option maxRecDepth 100000 in decide +kernel)
  refine ⟨released, apart, by set_option maxRecDepth 100000 in decide +kernel,
    by set_option maxRecDepth 100000 in decide +kernel, ?_, fun promise =>
      apart (promise.1 1 0 released)⟩
  rw [Machine.Halted, ← Option.isNone_iff_eq_none]
  set_option maxRecDepth 100000 in decide +kernel

end Riri.Launch
