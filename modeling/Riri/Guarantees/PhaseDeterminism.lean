import Riri.Run.PhaseCourse
import Riri.Run.Programs
import Riri.Run.Remaining
import Mathlib.Data.Finset.Lattice.Fold

/-!
# Kernels in phases do not depend on the schedule

A kernel that fits a phasing computes what its phases say under every schedule and however many
blocks are resident, and the launch ends without a trap.
-/
namespace Riri

variable {V : Type} [BEq V]

/-! ### How much a thread is told -/

namespace Phasing

variable {phasing : Phasing} {program : Program V} {block p thread : Nat}

/-- A thread alone is told something at every move. -/
theorem alone_length {k : Nat} {s : List (Resp V) × (Buf × Nat → V × Bool)}
    (ran : phasing.alone program block p thread k = some s) :
    s.1.length = ((phasing.snapshot program block p).first thread).length + k := by
  induction k generalizing s with
  | zero =>
    cases ran
    rfl
  | succ k ih =>
    cases earlier : phasing.alone program block p thread k with
    | none =>
      unfold Phasing.alone at earlier ran
      simp [Phased.alone, earlier] at ran
    | some r =>
      have before := ih earlier
      have moved := Phased.alone_succ (show Phased.alone _ _ _ k = some r from earlier)
      rw [show Phased.alone _ _ _ (k + 1) = some s from ran] at moved
      have told := Program.length_of_perform (show _ = some (s.1, s.2) from moved.symm)
      omega

theorem Fits.answers_length (fits : phasing.Fits program) (in_grid : block < program.blocks)
    (phase : p ≤ phasing.phases block) (in_block : thread < program.threads) :
    (phasing.answers program block p thread).length =
      ((phasing.snapshot program block p).first thread).length +
        phasing.steps block p thread := by
  have runs := fits.runs block in_grid p phase thread in_block
  rw [Option.isSome_iff_exists] at runs
  obtain ⟨s, ran⟩ := runs
  rw [← alone_length ran]
  unfold Phasing.answers Phased.Snapshot.ends
  rw [show Phased.alone _ _ _ _ = some s from ran, Option.getD_some]

/-- Nobody is told more than it has been told at the end of its last phase. -/
theorem Fits.length_le (fits : phasing.Fits program) (in_grid : block < program.blocks)
    (in_block : thread < program.threads) (phase : p ≤ phasing.phases block) :
    ((phasing.snapshot program block p).first thread).length + phasing.steps block p thread ≤
      (phasing.answers program block (phasing.phases block) thread).length := by
  obtain ⟨left, reaches⟩ := Nat.exists_eq_add_of_le phase
  induction left generalizing p with
  | zero =>
    have last : p = phasing.phases block := by omega
    rw [← fits.answers_length in_grid phase in_block, ← last]
  | succ left ih =>
    have later := ih (p := p + 1) (by omega) (by omega)
    have here := fits.answers_length in_grid phase in_block
    have next : ((phasing.snapshot program block (p + 1)).first thread).length =
        (phasing.answers program block p thread).length + 1 := by
      simp [snapshot, Phased.Snapshot.after, Phasing.answers]
    omega

end Phasing

/-! ### The launch ends -/

namespace Launch

variable (env : Env V) (phasing : Phasing)

def mostTold : Nat :=
  (Finset.range env.config.blocks ×ˢ Finset.range env.config.threadsPerBlock).sup fun place =>
    (phasing.answers env.program place.1 (phasing.phases place.1) place.2).length

variable {env phasing} {s s' : Launch V} {i : Nat}

theorem OnCourse.told_le (fits : phasing.Fits env.program) (course : OnCourse env phasing s)
    (numbered : Numbered env s) (inside : i < (s.geometry env).total) :
    (s.threads i).answers.length ≤ mostTold env phasing := by
  have in_grid := numbered.inGrid inside
  have own := mod_lt env i
  obtain ⟨done, inPhase⟩ := course.inside _ (inWave inside)
  obtain ⟨view, ran, -⟩ := inPhase.together.thread _ own
  rw [slotAt_self] at ran
  have told := Phasing.alone_length (s := (s.said env i, view)) ran
  have part := inPhase.within _ own
  have whole := fits.length_le in_grid own inPhase.phase
  have most : (phasing.answers env.program (s.firstBlock + i / env.config.threadsPerBlock)
      (phasing.phases (s.firstBlock + i / env.config.threadsPerBlock))
      (i % env.config.threadsPerBlock)).length ≤ mostTold env phasing := by
    refine Finset.le_sup (f := fun place : Nat × Nat => (phasing.answers env.program place.1
      (phasing.phases place.1) place.2).length) (b := (_, _)) ?_
    exact Finset.mem_product.mpr ⟨Finset.mem_range.mpr in_grid, Finset.mem_range.mpr own⟩
  simp only [said, List.length_append] at told
  omega

theorem phases_halt (fits : phasing.Fits env.program) : ∃ n, (run env).Halted n := by
  refine (run env).exists_halted (stepsLeft env (mostTold env phasing)) ?_
  intro n
  obtain ⟨live, course⟩ := onCourse_run fits n
  obtain ⟨-, course'⟩ := onCourse_run fits (n + 1)
  have wf := wellFormed live
  rcases (run env).step_cases n with ⟨l, labelled, moved⟩ | ⟨idle, -⟩
  · right
    right
    obtain ⟨-, ⟨-, more, -, next⟩ | ⟨slot, current, resumed⟩⟩ := step_cases env moved
    · rw [next]
      exact stepsLeft_nextWave wf.inside more
    · obtain ⟨inside, running⟩ := wf.running current
      have standing := standing_run live
      have move := resumed.moves env live (onCourse_run fits (n + 1)).1
      refine move.stepsLeft_lt standing inside running
        (course.no_collective fits (numbered env n) standing inside) ?_
      refine course'.told_le fits (numbered env (n + 1)) ?_
      rw [geometry, move.firstBlock]
      exact inside
  · exact .inl ((run env).label_eq_none_iff.mp idle)

/-- A kernel that fits a phasing computes what its phases say. Under every schedule and however
many blocks are resident the launch ends, without a trap, with every element and its flag as the
home of the element left them, and a thread returns once it has been told exactly what its phases
tell it. -/
theorem phases_decide (fits : phasing.Fits env.program) :
    (∃ n, (run env).Halted n) ∧ (∀ n, Live ((run env).state n)) ∧
      (∀ n, (run env).Halted n →
        ((run env).state n).memory env = phasing.result env.program) ∧
      ∀ n cx, (run env).label n = some (.finish cx) →
        (((run env).state n).threads cx.slot).answers =
          phasing.answers env.program cx.block (phasing.phases cx.block) cx.thread := by
  refine ⟨phases_halt fits, fun n => (onCourse_run fits n).1, ?_, ?_⟩
  · intro n halted
    obtain ⟨live, course⟩ := onCourse_run fits n
    obtain ⟨last, ended⟩ := over_of_halted halted live
    funext e
    cases home : phasing.home e with
    | some block =>
      refine course.of_wave fits (fun waveBlock in_wave done inPhase => ?_) home ?_
      · exact OnCourse.ended fits (numbered env n) (wellFormed live).settled ended in_wave inPhase
      · exact (fits.housed e block home).trans_le last
    | none =>
      rw [course.shared e home, Phasing.result, home]
  · intro n cx labelled
    obtain ⟨slot, current, rfl, inside, -, resumed⟩ := label_slot labelled rfl
    obtain ⟨live, course⟩ := onCourse_run fits n
    obtain ⟨done, inPhase⟩ := course.inside _ (inWave inside)
    have in_grid := (numbered env n).inGrid inside
    generalize (run env).state (n + 1) = next at resumed
    cases resumed with
    | finish ready op =>
      have next : env.program.kernel
          (((run env).state n).firstBlock + slot / env.config.threadsPerBlock)
          (slot % env.config.threadsPerBlock) (((run env).state n).said env (slotAt env
            (slot / env.config.threadsPerBlock) (slot % env.config.threadsPerBlock))) = .ret := by
        rw [slotAt_self, said_of_ready ready]
        exact op
      obtain ⟨all, ⟨-, loc, sync⟩ | ⟨phase, -⟩⟩ :=
        inPhase.of_stop fits in_grid (mod_lt env slot) next (.inl rfl)
      · cases sync
      · obtain ⟨view, ran, -⟩ := inPhase.together.thread _ (mod_lt env slot)
        rw [all, slotAt_self, said_of_ready ready] at ran
        show _ = phasing.answers env.program
          (((run env).state n).firstBlock + slot / env.config.threadsPerBlock)
          (phasing.phases (((run env).state n).firstBlock + slot / env.config.threadsPerBlock))
          (slot % env.config.threadsPerBlock)
        rw [← phase, Phasing.answers, Phased.Snapshot.ends, ran, Option.getD_some]
        rfl

theorem pair_fresh : ∀ _ : Buf, (Instrumented.uninit (V := Nat) 2).launchId ≠ 1 := by
  simp [Instrumented.uninit]

/-- Each of two threads leaves its number, and after a barrier takes what the other left, reads an
element nothing was stored to and stores there what it took. -/
def trading (plan : List UInt32) : Env Nat where
  config := .twoThreads
  kernel := fun _ thread answers => match answers with
    | [] => .mem ⟨.global 0, thread, ⟨"kernel.rs", 3, 5⟩, .write (thread + 10)⟩
    | [_] => .syncThreads ⟨"kernel.rs", 4, 5⟩
    | [_, _] => .mem ⟨.global 0, 1 - thread, ⟨"kernel.rs", 5, 13⟩, .read⟩
    | [_, _, _] => .mem ⟨.global 1, thread, ⟨"kernel.rs", 6, 13⟩, .read⟩
    | [_, _, .val v, _] => .mem ⟨.global 1, thread, ⟨"kernel.rs", 7, 5⟩, .write v⟩
    | _ => .ret
  choicesOf := fun _ => .replay plan 0
  id := 1
  mem := fun _ => .uninit 2
  bufferName := fun _ => "data"
  typeTag := fun _ => 0
  fresh := pair_fresh

/-- Before the barrier the first buffer is divided among the threads, after it the second. -/
def halves : Phasing where
  home := fun _ => some 0
  phases := fun _ => 1
  owner := fun block p e =>
    if block = 0 ∧ e.1 = .global p ∧ e.2 < 2 then some e.2 else none
  steps := fun _ p _ => 2 * p + 1

theorem halves_fits (plan : List UInt32) : halves.Fits (trading plan).program := by
  constructor
  · intro e block home
    cases home
    exact Nat.one_pos
  · intro block p e thread owned
    simp only [halves, Option.ite_none_right_eq_some, Option.some.injEq] at owned
    obtain ⟨⟨rfl, -, small⟩, rfl⟩ := owned
    exact ⟨rfl, small⟩
  · intro block in_grid p phase thread in_block
    change block < 1 at in_grid
    change p ≤ 1 at phase
    change thread < 2 at in_block
    interval_cases block
    interval_cases p <;> interval_cases thread <;> rfl
  · intro block in_grid p phase thread in_block
    change block < 1 at in_grid
    change p < 1 at phase
    change thread < 2 at in_block
    interval_cases block
    interval_cases p
    interval_cases thread <;> exact ⟨_, rfl⟩
  · intro block in_grid thread in_block
    change block < 1 at in_grid
    change thread < 2 at in_block
    interval_cases block
    interval_cases thread <;> rfl
  · intro block in_grid p phase thread in_block k early s ran m op inside
    change block < 1 at in_grid
    change p ≤ 1 at phase
    change thread < 2 at in_block
    change k < 2 * p + 1 at early
    interval_cases block
    interval_cases p <;> interval_cases thread <;> interval_cases k <;> cases ran <;> cases op <;>
      simp [halves, Phasing.sight]

theorem phases_decide_trading : ∃ n, (run (trading [1, 1, 0])).Halted n ∧
    ((run (trading [1, 1, 0])).state n).memory (trading [1, 1, 0]) (.global 1, 0) = (11, true) := by
  obtain ⟨⟨n, halted⟩, -, memory, -⟩ := phases_decide (halves_fits [1, 1, 0])
  refine ⟨n, halted, ?_⟩
  rw [memory n halted]
  rfl

end Launch

end Riri
