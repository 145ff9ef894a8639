import Riri.Guarantees.WaveCoverage
import Riri.Run.Standing
import Mathlib.Algebra.BigOperators.Fin
import Mathlib.Algebra.Order.BigOperators.Group.Finset

/-!
# How long a launch can go on

Where nobody is told more than so many answers, every step of a launch that calls no collective
uses something up: a thread returns, asks for something, or is told something.
-/
namespace Riri

variable {V : Type}

/-- One at the start of an operation, where a thread has one more step to take before it is told
something. -/
def Pc.unasked : Pc V → Nat
  | .ready => 1
  | .atAccess _ | .atBarrier _ | .atCollective _ | .arrived _ | .departed _ _ => 0

namespace Launch

/-- The steps a thread that is told at most `most` answers can still take. -/
def stepsOf (most : Nat) (s : Launch V) (i : Nat) : Nat :=
  2 * (most - (s.threads i).answers.length) + (s.threads i).pc.unasked +
    (if s.sched.status i = .finished then 0 else 1)

/-- The steps a launch can still take: those of the threads of the wave, and for every block that
has not begun more than a wave can take. -/
def stepsLeft (env : Env V) (most : Nat) (s : Launch V) : Nat :=
  (env.config.blocks - s.firstBlock) *
      (env.config.residentBlocks * env.config.threadsPerBlock * (2 * most + 2) + 1) +
    ∑ i ∈ Finset.range (s.geometry env).total, stepsOf most s i

variable {env : Env V} {most : Nat} {s s' : Launch V} {i : Nat} {l : Label V}

theorem stepsOf_le (s : Launch V) (i : Nat) : stepsOf most s i ≤ 2 * most + 2 := by
  have asked : (s.threads i).pc.unasked ≤ 1 := by
    cases (s.threads i).pc <;> simp [Pc.unasked]
  have ended : (if s.sched.status i = .finished then 0 else 1) ≤ 1 := by
    split <;> omega
  unfold stepsOf
  omega

theorem stepsLeft_nextWave [BEq V] (inside : s.firstBlock < env.config.blocks)
    (more : s.firstBlock + env.config.waveBlocks s.firstBlock < env.config.blocks) :
    stepsLeft env most (s.nextWave env) < stepsLeft env most s := by
  have nonempty := waveBlocks_pos inside
  have few : ((s.nextWave env).geometry env).total ≤
      env.config.residentBlocks * env.config.threadsPerBlock :=
    Nat.mul_le_mul_right _ (Nat.min_le_left ..)
  have wave : ∑ j ∈ Finset.range ((s.nextWave env).geometry env).total,
      stepsOf most (s.nextWave env) j ≤
        env.config.residentBlocks * env.config.threadsPerBlock * (2 * most + 2) := by
    calc ∑ j ∈ Finset.range ((s.nextWave env).geometry env).total,
          stepsOf most (s.nextWave env) j
      _ ≤ ∑ _j ∈ Finset.range ((s.nextWave env).geometry env).total,
          (2 * most + 2) := Finset.sum_le_sum fun j _ => stepsOf_le _ j
      _ = ((s.nextWave env).geometry env).total * (2 * most + 2) := by
        rw [Finset.sum_const, Finset.card_range, Nat.nsmul_eq_mul]
      _ ≤ _ := Nat.mul_le_mul_right _ few
  have fewer : env.config.blocks - (s.nextWave env).firstBlock + 1 ≤
      env.config.blocks - s.firstBlock := by
    show env.config.blocks - (s.firstBlock + env.config.waveBlocks s.firstBlock) + 1 ≤ _
    omega
  have scaled := Nat.mul_le_mul_right
    (env.config.residentBlocks * env.config.threadsPerBlock * (2 * most + 2) + 1) fewer
  rw [Nat.succ_mul] at scaled
  unfold stepsLeft
  omega

variable [BEq V]

/-- A step of a thread that calls no collective returns, asks for something, or is told
something. -/
theorem Moves.advances (move : Moves env s i l s')
    (asked : (s.threads i).pc.Asked (s.nextOp env i)) (other : ∀ c, s.nextOp env i ≠ .warp c) :
    (l = .finish (s.ctx env i) ∧ s'.threads i = s.threads i) ∨
      ((s.threads i).pc = .ready ∧ (s'.threads i).pc.unasked = 0 ∧
        (s'.threads i).answers = (s.threads i).answers) ∨
      ∃ a, s'.threads i = ⟨.ready, (s.threads i).answers ++ [a]⟩ := by
  cases move with
  | finish => exact .inl ⟨rfl, rfl⟩
  | arrive pc | release pc => exact .inr (.inl ⟨pc, by simp [barrierEntered, Pc.unasked]⟩)
  | yieldAccess pc => exact .inr (.inl ⟨pc, by simp [Pc.unasked]⟩)
  | yieldCollective pc c op => exact absurd op (other c)
  | fence => exact .inr (.inr ⟨_, answer_self ..⟩)
  | access m pc new resp => exact .inr (.inr ⟨resp, by simp [accessed, ctx]⟩)
  | miss => exact .inr (.inr ⟨.elem none, by simp [missed, ctx]⟩)
  | depart => exact .inr (.inr ⟨_, answer_self ..⟩)
  | publish c pc | gather c pc | exchange c pc | disperse c pc | leave c answer pc =>
    rw [pc] at asked
    exact absurd asked (other c)

theorem Moves.stepsOf_lt (move : Moves env s i l s') (standing : Standing env s)
    (running : s.sched.status i = .runnable) (other : ∀ c, s.nextOp env i ≠ .warp c)
    (told : (s'.threads i).answers.length ≤ most) : stepsOf most s' i < stepsOf most s i := by
  have ended : s'.sched.status i = .finished ↔ l = .finish (s.ctx env i) := by
    rw [move.finished_iff running, running]
    simp
  have before : (if s.sched.status i = .finished then 0 else 1) = 1 := by rw [running]; rfl
  have after : (if s'.sched.status i = .finished then 0 else 1) ≤ 1 := by split <;> omega
  unfold stepsOf
  rcases move.advances (standing.asked i) other with
    ⟨finish, thread⟩ | ⟨ready, unasked, answers⟩ | ⟨a, thread⟩
  · rw [before, thread, if_pos (ended.mpr finish)]
    omega
  · rw [before, unasked, answers, ready]
    simp only [Pc.unasked]
    omega
  · rw [thread] at told ⊢
    rw [before]
    simp only [List.length_append, List.length_singleton, Pc.unasked] at told ⊢
    omega

theorem Moves.stepsLeft_lt (move : Moves env s i l s') (standing : Standing env s)
    (inside : i < (s.geometry env).total) (running : s.sched.status i = .runnable)
    (other : ∀ c, s.nextOp env i ≠ .warp c) (told : (s'.threads i).answers.length ≤ most) :
    stepsLeft env most s' < stepsLeft env most s := by
  have own := move.stepsOf_lt standing running other told
  unfold stepsLeft
  rw [show s'.geometry env = s.geometry env by simp only [geometry, move.firstBlock],
    move.firstBlock]
  apply Nat.add_lt_add_left
  apply Finset.sum_lt_sum
  · intro j _
    by_cases mine : j = i
    · rw [mine]
      exact own.le
    · have ended : s'.sched.status j = .finished ↔ s.sched.status j = .finished := by
        rw [move.finished_iff running]
        simp [mine]
      simp only [stepsOf, move.others mine, ended, le_refl]
  · exact ⟨i, Finset.mem_range.mpr inside, own⟩

end Launch

end Riri
