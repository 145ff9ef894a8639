import Riri.Run.Invariant
import Riri.Theory.Machine

/-!
# Times of a run

What a launch that is live at some time has done so far: which wave it is in, when a thread
entered and left a barrier, and which steps move the barrier and warp generations.
-/
namespace Riri

def Label.ctx? {V : Type} : Label V → Option Ctx
  | .finish cx | .panic cx | .trap cx | .fence cx _ | .yield cx | .arrive cx _ | .depart cx _
  | .access cx _ _ _ _ | .fault cx _ _ _ | .publish cx _ | .exchange cx _ _ | .leave cx _ =>
      some cx
  | .nextWave => none

namespace Launch

variable {V : Type} [BEq V] {env : Env V}

/-- The launch as a machine: its run is a function of time. -/
def run (env : Env V) : Machine (Launch V) (Label V) := ⟨init env, step env⟩

/-! ### Where a label comes from -/

theorem Resumed.label_ctx {s s' : Launch V} {slot : Nat} {l : Label V}
    (resumed : Resumed env s slot l s') : l.ctx? = some (s.ctx env slot) := by
  cases resumed <;> rfl

theorem Moves.label_ctx {s s' : Launch V} {slot : Nat} {l : Label V}
    (move : Moves env s slot l s') : l.ctx? = some (s.ctx env slot) := by
  cases move <;> rfl

/-- A run at one time: what happens next. -/
theorem label_cases {n : Nat} {l : Label V} (h : (run env).label n = some l) :
    Live ((run env).state n) ∧
      ((((run env).state n).sched.current = none ∧ l = .nextWave) ∨
        ∃ slot, ((run env).state n).sched.current = some slot ∧
          Resumed env ((run env).state n) slot l ((run env).state (n + 1))) := by
  obtain ⟨live, ⟨nobody, -, wave, -⟩ | moved⟩ := step_cases env ((run env).next_of_label h)
  · exact ⟨live, .inl ⟨nobody, wave⟩⟩
  · exact ⟨live, .inr moved⟩

/-! ### The invariant along a run -/

omit [BEq V] in
theorem waveBlocks_pos {firstBlock : Nat} (h : firstBlock < env.config.blocks) :
    0 < env.config.waveBlocks firstBlock :=
  Nat.lt_min.mpr ⟨env.config.resident_pos, Nat.sub_pos_of_lt h⟩

omit [BEq V] in
/-- A wave that has just been set up. -/
theorem wellFormed_of_start {s : Launch V} {choices : Choices}
    (inside : s.firstBlock < env.config.blocks)
    (started : s.sched = Scheduler.new (s.geometry env) choices)
    (threads : ∀ i, s.threads i = ⟨.ready, []⟩) : Live s ∧ WellFormed env s := by
  have some_thread : Scheduler.runnable (s.geometry env) (Scheduler.unstarted choices) ≠ [] := by
    have positive : 0 < (s.geometry env).total :=
      Nat.mul_pos (waveBlocks_pos inside) env.config.threads_pos
    intro empty
    have member : 0 ∈ Scheduler.runnable (s.geometry env) (Scheduler.unstarted choices) :=
      (Scheduler.mem_runnable (s.geometry env)).mpr ⟨positive, rfl⟩
    rw [empty] at member
    cases member
  have turned := Scheduler.pickNext_turned (s.geometry env) some_thread
  rw [show Scheduler.pickNext (s.geometry env) (Scheduler.unstarted choices) = s.sched from
    started.symm] at turned
  refine ⟨turned.aborted, inside, .of_turned rfl turned, fun i => settled_of_ready ?_ ?_⟩
  · rw [threads]
  · rw [turned.status]
    rfl

omit [BEq V] in
theorem init_wellFormed : Live (init env) ∧ WellFormed env (init env) :=
  wellFormed_of_start env.config.blocks_pos rfl fun _ => rfl

omit [BEq V] in
theorem nextWave_wellFormed {s : Launch V}
    (more : s.firstBlock + env.config.waveBlocks s.firstBlock < env.config.blocks) :
    Live (s.nextWave env) ∧ WellFormed env (s.nextWave env) :=
  wellFormed_of_start more rfl fun _ => rfl

/-- A launch that is live was live before. -/
theorem live_of_succ {n : Nat} (live : Live ((run env).state (n + 1))) :
    Live ((run env).state n) := by
  rcases (run env).step_cases n with ⟨l, labelled, -⟩ | ⟨-, stays⟩
  · exact (label_cases labelled).1
  · rwa [stays] at live

theorem live_of_le {i j : Nat} (le : i ≤ j) (live : Live ((run env).state j)) :
    Live ((run env).state i) := by
  induction le with
  | refl => exact live
  | step _ ih => exact ih (live_of_succ live)

theorem wellFormed {n : Nat} (live : Live ((run env).state n)) :
    WellFormed env ((run env).state n) := by
  induction n with
  | zero => exact init_wellFormed.2
  | succ n ih =>
    have before := ih (live_of_succ live)
    rcases (run env).step_cases n with ⟨l, -, moved⟩ | ⟨-, stays⟩
    · rcases step_moves env moved live with ⟨-, more, -, next⟩ | ⟨slot, current, move⟩
      · rw [next]
        exact (nextWave_wellFormed more).2
      · exact move.wellFormed before current
    · rw [stays]
      exact before

/-- One step of a live launch, with the invariant in hand. -/
theorem live_step {n : Nat} (live : Live ((run env).state (n + 1))) :
    WellFormed env ((run env).state n) ∧
      (((run env).label n = none ∧ (run env).state (n + 1) = (run env).state n) ∨
        ((run env).label n = some .nextWave ∧
          ((run env).state n).sched.current = none ∧
          ((run env).state n).firstBlock +
            env.config.waveBlocks ((run env).state n).firstBlock < env.config.blocks ∧
          (run env).state (n + 1) = ((run env).state n).nextWave env) ∨
        ∃ slot l, (run env).label n = some l ∧
          ((run env).state n).sched.current = some slot ∧
          Moves env ((run env).state n) slot l ((run env).state (n + 1))) := by
  refine ⟨wellFormed (live_of_succ live), ?_⟩
  rcases (run env).step_cases n with ⟨l, labelled, moved⟩ | idle
  · rcases step_moves env moved live with ⟨nobody, more, rfl, next⟩ | ⟨slot, current, move⟩
    · exact .inr (.inl ⟨labelled, nobody, more, next⟩)
    · exact .inr (.inr ⟨slot, l, labelled, current, move⟩)
  · exact .inl idle

/-! ### Waves -/

/-- The next wave starts where this one ends. -/
theorem firstBlock_step {n : Nat} (live : Live ((run env).state (n + 1))) :
    ((run env).state (n + 1)).firstBlock = ((run env).state n).firstBlock ∨
      ((run env).state (n + 1)).firstBlock = ((run env).state n).firstBlock +
        env.config.waveBlocks ((run env).state n).firstBlock := by
  obtain ⟨-, ⟨-, stays⟩ | ⟨-, -, -, next⟩ | ⟨slot, l, -, -, move⟩⟩ := live_step live
  · exact .inl (by rw [stays])
  · exact .inr (by rw [next]; rfl)
  · exact .inl move.firstBlock

/-- Two times are in one wave, or the later one is past all blocks of the earlier wave. -/
theorem firstBlock_cases {i j : Nat} (le : i ≤ j) (live : Live ((run env).state j)) :
    ((run env).state j).firstBlock = ((run env).state i).firstBlock ∨
      ((run env).state i).firstBlock + env.config.waveBlocks ((run env).state i).firstBlock ≤
        ((run env).state j).firstBlock := by
  obtain ⟨d, rfl⟩ := Nat.exists_eq_add_of_le le
  induction d with
  | zero => exact .inl rfl
  | succ d ih =>
    have earlier := ih (Nat.le_add_right i d) (live_of_succ live)
    rcases firstBlock_step (n := i + d) live with same | next <;> rcases earlier with h | h
    · exact .inl (same.trans h)
    · exact .inr (h.trans same.ge)
    · exact .inr (by rw [← h]; exact next.ge)
    · exact .inr (h.trans ((Nat.le_add_right _ _).trans next.ge))

theorem firstBlock_mono {i j : Nat} (le : i ≤ j) (live : Live ((run env).state j)) :
    ((run env).state i).firstBlock ≤ ((run env).state j).firstBlock := by
  rcases firstBlock_cases le live with same | later
  · exact same.ge
  · exact (Nat.le_add_right _ _).trans later

/-- The step a label names: whose it is, and that its thread held the turn. -/
theorem label_slot {n : Nat} {l : Label V} {cx : Ctx} (labelled : (run env).label n = some l)
    (thread : l.ctx? = some cx) :
    ∃ slot, ((run env).state n).sched.current = some slot ∧
      cx = ((run env).state n).ctx env slot ∧
      slot < (((run env).state n).geometry env).total ∧
      ((run env).state n).sched.status slot = .runnable ∧
      Resumed env ((run env).state n) slot l ((run env).state (n + 1)) := by
  obtain ⟨live, ⟨-, rfl⟩ | ⟨slot, current, resumed⟩⟩ := label_cases labelled
  · cases thread
  · have here := resumed.label_ctx
    rw [thread] at here
    have running := (wellFormed live).running current
    exact ⟨slot, current, Option.some.inj here, running.1, running.2, resumed⟩

/-- A step is what the thread holding the turn does with it. -/
theorem resume_of_label {n slot : Nat} {l : Label V} (labelled : (run env).label n = some l)
    (current : ((run env).state n).sched.current = some slot) :
    ((run env).state n).resume env slot = (l, (run env).state (n + 1)) := by
  have moved : ((run env).state n).step env = some (l, (run env).state (n + 1)) :=
    (run env).next_of_label labelled
  unfold step at moved
  rw [current] at moved
  split at moved
  · cases moved
  · exact Option.some.inj moved

theorem live_of_label {n : Nat} {l : Label V} (labelled : (run env).label n = some l) :
    Live ((run env).state n) := (label_cases labelled).1

/-- Labels of one block are in one wave. -/
theorem sameWave {i j : Nat} {l l' : Label V} {cx cx' : Ctx} (le : i ≤ j)
    (first : (run env).label i = some l) (here : l.ctx? = some cx)
    (second : (run env).label j = some l') (there : l'.ctx? = some cx')
    (block : cx.block = cx'.block) :
    ((run env).state j).firstBlock = ((run env).state i).firstBlock := by
  obtain ⟨slot, -, rfl, inside, -⟩ := label_slot first here
  obtain ⟨slot', -, rfl, -⟩ := label_slot second there
  rcases firstBlock_cases le (live_of_label second) with same | later
  · exact same
  · have inside := Geometry.blockOf_lt _ inside
    simp only [Geometry.blockOf, geometry, Config.geometry] at inside
    simp only [ctx] at block
    have := Nat.zero_le (slot' / env.config.threadsPerBlock)
    omega

/-- Two threads of one wave whose labels name one block are block-mates. -/
theorem mates_of_block {i j : Nat} (sx sy : Nat)
    (wave : ((run env).state j).firstBlock = ((run env).state i).firstBlock)
    (block : (((run env).state i).ctx env sx).block = (((run env).state j).ctx env sy).block) :
    (((run env).state i).geometry env).blockOf sx =
      (((run env).state i).geometry env).blockOf sy := by
  have blocks : ((run env).state i).firstBlock + (((run env).state i).geometry env).blockOf sx =
      ((run env).state j).firstBlock + (((run env).state j).geometry env).blockOf sy := block
  rw [geometry, geometry, wave] at blocks
  exact Nat.add_left_cancel blocks

/-- Every time between two times of one wave is in that wave. -/
theorem sameWave_between {i k j : Nat} (le : i ≤ k) (le' : k ≤ j)
    (live : Live ((run env).state j))
    (same : ((run env).state j).firstBlock = ((run env).state i).firstBlock) :
    ((run env).state k).firstBlock = ((run env).state i).firstBlock :=
  Nat.le_antisymm (same ▸ firstBlock_mono le' live) (firstBlock_mono le (live_of_le le' live))

/-- A step inside one wave is nobody's or the current thread's. -/
theorem wave_step {n : Nat} (live : Live ((run env).state (n + 1)))
    (same : ((run env).state (n + 1)).firstBlock = ((run env).state n).firstBlock) :
    ((run env).label n = none ∧ (run env).state (n + 1) = (run env).state n) ∨
      ∃ slot l, (run env).label n = some l ∧ ((run env).state n).sched.current = some slot ∧
        Moves env ((run env).state n) slot l ((run env).state (n + 1)) := by
  obtain ⟨wf, idle | ⟨-, -, -, next⟩ | moved⟩ := live_step live
  · exact .inl idle
  · have start : ((run env).state n).firstBlock = ((run env).state n).firstBlock +
        env.config.waveBlocks ((run env).state n).firstBlock := by
      rw [next] at same
      exact same.symm
    have := waveBlocks_pos wf.inside
    omega
  · exact .inr moved

/-- What every step inside one wave relates, the ends of a stretch of it relate. -/
theorem wave_induction {R : Launch V → Launch V → Prop} (refl : ∀ s, R s s)
    (trans : ∀ s t u, R s t → R t u → R s u)
    (move : ∀ n slot l, (run env).label n = some l → WellFormed env ((run env).state n) →
      ((run env).state n).sched.current = some slot →
      Moves env ((run env).state n) slot l ((run env).state (n + 1)) →
      R ((run env).state n) ((run env).state (n + 1)))
    {i j : Nat} (le : i ≤ j) (live : Live ((run env).state j))
    (same : ((run env).state j).firstBlock = ((run env).state i).firstBlock) :
    R ((run env).state i) ((run env).state j) := by
  obtain ⟨d, rfl⟩ := Nat.exists_eq_add_of_le le
  induction d with
  | zero => exact refl _
  | succ d ih =>
    have between := sameWave_between (Nat.le_add_right i d) (Nat.le_succ _) live same
    have live_before : Live ((run env).state (i + d)) := live_of_succ live
    refine trans _ _ _ (ih (Nat.le_add_right i d) live_before between) ?_
    rcases wave_step (n := i + d) live (same.trans between.symm) with
      ⟨-, stays⟩ | ⟨slot, l, labelled, current, moved⟩
    · rw [show (run env).state (i + (d + 1)) = (run env).state (i + d) from stays]
      exact refl _
    · exact move (i + d) slot l labelled (wellFormed live_before) current moved

/-- A thread that takes no step stays where it is. -/
theorem thread_between {i j : Nat} (slot : Nat) (le : i ≤ j) (live : Live ((run env).state j))
    (same : ((run env).state j).firstBlock = ((run env).state i).firstBlock)
    (silent : ∀ n, i ≤ n → n < j → ∀ l, (run env).label n = some l →
      l.ctx? ≠ some (((run env).state i).ctx env slot)) :
    ((run env).state j).threads slot = ((run env).state i).threads slot := by
  induction j, le using Nat.le_induction with
  | base => rfl
  | succ j le ih =>
    have here := sameWave_between le (Nat.le_succ j) live same
    rcases wave_step live (same.trans here.symm) with ⟨-, stays⟩ | ⟨me, l, labelled, -, move⟩
    · rw [stays] at same ⊢
      exact ih (live_of_succ live) same fun n low high => silent n low (Nat.lt_succ_of_lt high)
    · have away : slot ≠ me := by
        rintro rfl
        refine silent j le (Nat.lt_succ_self j) l labelled ?_
        rw [move.label_ctx]
        simp only [ctx, here]
      rw [move.others away]
      exact ih (live_of_succ live) here fun n low high => silent n low (Nat.lt_succ_of_lt high)

end Launch

end Riri
