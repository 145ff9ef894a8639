import Riri.Run.Timeline

/-!
# Waves of a run

How `run_shared` numbers its waves. Every wave but the last is full, so a wave starts at its
number times the resident blocks, and the numbering of a slot can be read backwards: the wave
and the slot of a thread are functions of its block and its index in it.
-/
namespace Riri

def Config.waveOf (c : Config) (block : Nat) : Nat := block / c.residentBlocks

def Config.slotOf (c : Config) (block thread : Nat) : Nat :=
  block % c.residentBlocks * c.threadsPerBlock + thread

namespace Launch

variable {V : Type} [BEq V] {env : Env V}

structure Numbered (env : Env V) (s : Launch V) : Prop where
  start : s.firstBlock = s.wave * env.config.residentBlocks
  inside : s.firstBlock < env.config.blocks

theorem Resumed.wave {s s' : Launch V} {slot : Nat} {l : Label V}
    (resumed : Resumed env s slot l s') : s'.wave = s.wave ∧ s'.firstBlock = s.firstBlock := by
  cases resumed <;> exact ⟨rfl, rfl⟩

theorem Moves.wave {s s' : Launch V} {slot : Nat} {l : Label V}
    (move : Moves env s slot l s') : s'.wave = s.wave := by
  cases move <;> rfl

omit [BEq V] in
/-- There is a next wave only after a full one. -/
theorem Numbered.nextWave {s : Launch V} (numbered : Numbered env s)
    (more : s.firstBlock + env.config.waveBlocks s.firstBlock < env.config.blocks) :
    Numbered env (s.nextWave env) := by
  have full : env.config.waveBlocks s.firstBlock = env.config.residentBlocks := by
    unfold Config.waveBlocks at more ⊢
    omega
  refine ⟨?_, more⟩
  calc s.firstBlock + env.config.waveBlocks s.firstBlock
    _ = s.wave * env.config.residentBlocks + env.config.residentBlocks := by
      rw [full, numbered.start]
    _ = (s.wave + 1) * env.config.residentBlocks := (Nat.succ_mul ..).symm

omit [BEq V] in
/-- A wave starts with every thread runnable. -/
theorem start_status (firstBlock wave i : Nat) : (start env firstBlock wave).status i = .runnable := by
  unfold start Scheduler.new
  by_cases empty : Scheduler.runnable (env.config.geometry firstBlock)
      (Scheduler.unstarted (env.choicesOf wave)) = []
  · rw [Scheduler.pickNext_of_none _ empty]
    rfl
  · rw [(Scheduler.pickNext_turned _ empty).status]
    rfl

/-- A step stays in its wave or starts the next. -/
theorem wave_step_cases (env : Env V) (n : Nat) :
    (((run env).state (n + 1)).wave = ((run env).state n).wave ∧
      ((run env).state (n + 1)).firstBlock = ((run env).state n).firstBlock) ∨
    (((run env).state n).firstBlock + env.config.waveBlocks ((run env).state n).firstBlock <
        env.config.blocks ∧
      (run env).state (n + 1) = ((run env).state n).nextWave env) := by
  rcases (run env).step_cases n with ⟨l, -, moved⟩ | ⟨-, stays⟩
  · obtain ⟨-, ⟨-, more, -, next⟩ | ⟨slot, -, resumed⟩⟩ := step_cases env moved
    · exact .inr ⟨more, next⟩
    · exact .inl resumed.wave
  · exact .inl ⟨by rw [stays], by rw [stays]⟩

theorem numbered (env : Env V) (n : Nat) : Numbered env ((run env).state n) := by
  induction n with
  | zero => exact ⟨(Nat.zero_mul _).symm, env.config.blocks_pos⟩
  | succ n ih =>
    rcases wave_step_cases env n with ⟨wave, first⟩ | ⟨more, next⟩
    · exact ⟨by rw [first, wave, ih.start], by rw [first]; exact ih.inside⟩
    · rw [next]
      exact ih.nextWave more

theorem wave_mono {i j : Nat} (le : i ≤ j) :
    ((run env).state i).wave ≤ ((run env).state j).wave := by
  induction le with
  | refl => exact le_rfl
  | @step j _ ih =>
    rcases wave_step_cases env j with ⟨wave, -⟩ | ⟨-, next⟩
    · exact ih.trans wave.ge
    · exact ih.trans (by rw [next]; exact Nat.le_succ _)

omit [BEq V] in
/-- The numbering of a slot, read backwards. -/
theorem Numbered.identity {s : Launch V} (numbered : Numbered env s) {slot : Nat}
    (inside : slot < (s.geometry env).total) :
    s.wave = env.config.waveOf (s.ctx env slot).block ∧
      slot = env.config.slotOf (s.ctx env slot).block (s.ctx env slot).thread := by
  have resident : slot / env.config.threadsPerBlock < env.config.residentBlocks :=
    lt_of_lt_of_le ((s.geometry env).blockOf_lt inside) (Nat.min_le_left ..)
  have block : (s.ctx env slot).block =
      s.wave * env.config.residentBlocks + slot / env.config.threadsPerBlock := by
    simp only [ctx, numbered.start]
  constructor
  · rw [block, Config.waveOf, Nat.mul_comm, Nat.mul_add_div env.config.resident_pos,
      Nat.div_eq_of_lt resident, Nat.add_zero]
  · rw [block, Config.slotOf, Nat.mul_add_mod', Nat.mod_eq_of_lt resident]
    exact (Nat.div_add_mod' slot env.config.threadsPerBlock).symm

/-! ### A single wave -/

omit [BEq V] in
/-- All blocks are resident at once. -/
theorem waveBlocks_single (single : env.config.blocks ≤ env.config.residentBlocks) :
    env.config.waveBlocks 0 = env.config.blocks := by
  simp [Config.waveBlocks, single]

/-- A launch of one wave never moves on to another. -/
theorem next_single (single : env.config.blocks ≤ env.config.residentBlocks) {s s' : Launch V}
    {l : Label V} (first : s.firstBlock = 0) (moved : s.step env = some (l, s')) :
    ∃ slot, s.sched.current = some slot ∧ Resumed env s slot l s' := by
  obtain ⟨-, ⟨-, more, -⟩ | resumed⟩ := step_cases env moved
  · rw [first, waveBlocks_single single] at more
    omega
  · exact resumed

theorem firstBlock_single (single : env.config.blocks ≤ env.config.residentBlocks) (n : Nat) :
    ((run env).state n).firstBlock = 0 := by
  refine (run env).invariant (P := fun s => s.firstBlock = 0) rfl (fun s l s' first moved => ?_) n
  obtain ⟨slot, -, resumed⟩ := next_single single first moved
  cases resumed <;> exact first

end Launch

end Riri
