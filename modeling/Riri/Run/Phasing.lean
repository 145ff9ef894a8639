import Riri.Run.Told

/-!
# Kernels in phases

A kernel whose threads meet at barriers runs in phases. Where in each phase no element that one
thread replaces is used by another, and no block uses what another replaces, the phases say what
the launch computes: each thread does its part of a phase by itself, from what the barrier before
it left. `Phasing` names the parts; whether they fit the kernel is checked on threads that run
alone, so no schedule comes into it.
-/
namespace Riri

/-- How a program is divided: the one block that uses an element if not all only read it, how many
barriers a block passes, who of a block may replace an element in a phase, and how many operations
a thread completes in it. -/
structure Phasing where
  home : Buf × Nat → Option Nat
  phases : Nat → Nat
  owner : Nat → Nat → Buf × Nat → Option Nat
  steps : Nat → Nat → Nat → Nat

variable {V : Type} [BEq V]

namespace Phasing

variable (phasing : Phasing) (program : Program V)

/-- What the threads of a block start a phase with. -/
def snapshot (block : Nat) : Nat → Phased.Snapshot Nat (Buf × Nat) (V × Bool) (List (Resp V))
  | 0 => ⟨fun _ => [], program.data⟩
  | p + 1 => (snapshot block p).after (program.move block) (phasing.owner block p)
      (phasing.steps block p) (· ++ [.unit])

/-- A thread in a phase, run by itself. -/
def alone (block p thread : Nat) : Nat → Option (List (Resp V) × (Buf × Nat → V × Bool)) :=
  Phased.alone (program.move block thread) ((phasing.snapshot program block p).first thread)
    (phasing.snapshot program block p).mem

def answers (block p thread : Nat) : List (Resp V) :=
  ((phasing.snapshot program block p).ends (program.move block) thread
    (phasing.steps block p thread)).1

/-- What the launch leaves in memory: what the home of an element left after its last phase. -/
def result (e : Buf × Nat) : V × Bool :=
  match phasing.home e with
  | some block => (phasing.snapshot program block (phasing.phases block + 1)).mem e
  | none => program.data e

def sight (block : Nat) : Set (Buf × Nat) :=
  {e | phasing.home e = some block ∨ phasing.home e = none}

/-- The threads of a block run alone as the phasing says: through every phase up to the next
barrier and in the last one to the end, replacing only what is theirs in the phase and reading
only that or what nobody replaces. -/
structure Fits : Prop where
  housed : ∀ e block, phasing.home e = some block → block < program.blocks
  owned : ∀ block p e thread, phasing.owner block p e = some thread →
    phasing.home e = some block ∧ thread < program.threads
  runs : ∀ block < program.blocks, ∀ p ≤ phasing.phases block, ∀ thread < program.threads,
    (phasing.alone program block p thread (phasing.steps block p thread)).isSome
  meets : ∀ block < program.blocks, ∀ p < phasing.phases block, ∀ thread < program.threads,
    ∃ loc, program.kernel block thread (phasing.answers program block p thread) = .syncThreads loc
  returns : ∀ block < program.blocks, ∀ thread < program.threads,
    program.kernel block thread
      (phasing.answers program block (phasing.phases block) thread) = .ret
  uses : ∀ block < program.blocks, ∀ p ≤ phasing.phases block, ∀ thread < program.threads,
    ∀ k < phasing.steps block p thread, ∀ s, phasing.alone program block p thread k = some s →
    ∀ m, program.kernel block thread s.1 = .mem m → m.index < (program.mem m.buf).len →
      (m.buf, m.index) ∈ phasing.sight block ∧
        (phasing.owner block p (m.buf, m.index) = some thread ∨
          phasing.owner block p (m.buf, m.index) = none ∧ m.act = .read)

end Phasing

/-! ### Threads alone -/

namespace Phasing

variable {phasing : Phasing} {program : Program V} {block p thread : Nat}

theorem Fits.keeps (fits : phasing.Fits program) (in_grid : block < program.blocks)
    (phase : p ≤ phasing.phases block) (in_block : thread < program.threads) :
    Phased.Keeps (program.move block thread) (phasing.owner block p) (phasing.sight block) thread
      ((phasing.snapshot program block p).first thread) (phasing.snapshot program block p).mem
      (phasing.steps block p thread) := by
  intro k early s ran e f move
  obtain ⟨m, op, inside, rfl, rfl⟩ := Program.move_access move
  obtain ⟨seen, allowed⟩ := fits.uses block in_grid p phase thread in_block k early s ran m op inside
  refine ⟨seen, ?_⟩
  cases allowed with
  | inl mine => exact .inl mine
  | inr read =>
    refine .inr ⟨read.1, ?_⟩
    intro v r updated
    rw [read.2] at updated
    cases updated
    simp [MemAct.kind]

/-- At the end of its part a thread stands at the barrier, or returns from the last phase. -/
theorem Fits.ends (fits : phasing.Fits program) (in_grid : block < program.blocks)
    (phase : p ≤ phasing.phases block) (in_block : thread < program.threads)
    {s : List (Resp V) × (Buf × Nat → V × Bool)}
    (ran : phasing.alone program block p thread (phasing.steps block p thread) = some s) :
    (p < phasing.phases block ∧ ∃ loc, program.kernel block thread s.1 = .syncThreads loc) ∨
      (p = phasing.phases block ∧ program.kernel block thread s.1 = .ret) := by
  have here : phasing.answers program block p thread = s.1 := by
    unfold Phasing.answers Phased.Snapshot.ends
    rw [show Phased.alone _ _ _ _ = some s from ran, Option.getD_some]
  rcases Nat.lt_or_eq_of_le phase with early | last
  · obtain ⟨loc, op⟩ := fits.meets block in_grid p early thread in_block
    rw [here] at op
    exact .inl ⟨early, loc, op⟩
  · have op := fits.returns block in_grid thread in_block
    rw [← last, here] at op
    exact .inr ⟨last, op⟩

/-- Whoever asks for anything but memory or a fence has done its part of the phase. -/
theorem Fits.of_stop (fits : phasing.Fits program) (in_grid : block < program.blocks)
    (phase : p ≤ phasing.phases block) (in_block : thread < program.threads) {k : Nat}
    (early : k ≤ phasing.steps block p thread) {s : List (Resp V) × (Buf × Nat → V × Bool)}
    (ran : phasing.alone program block p thread k = some s)
    (stop : program.move block thread s.1 = .stop) : k = phasing.steps block p thread := by
  by_contra unfinished
  have further := Phased.alone_isSome (Nat.lt_of_le_of_ne early unfinished)
    (fits.runs block in_grid p phase thread in_block)
  rw [Phased.alone_succ ran, stop] at further
  cases further

/-- Whoever asks for memory has not done its part of the phase. -/
theorem Fits.lt_of_mem (fits : phasing.Fits program) (in_grid : block < program.blocks)
    (phase : p ≤ phasing.phases block) (in_block : thread < program.threads) {k : Nat}
    (early : k ≤ phasing.steps block p thread) {s : List (Resp V) × (Buf × Nat → V × Bool)}
    (ran : phasing.alone program block p thread k = some s) {m : MemOp V}
    (op : program.kernel block thread s.1 = .mem m) : k < phasing.steps block p thread := by
  refine Nat.lt_of_le_of_ne early ?_
  intro all
  rw [all] at ran
  rcases fits.ends in_grid phase in_block ran with ⟨-, loc, sync⟩ | ⟨-, ret⟩
  · rw [op] at sync
    cases sync
  · rw [op] at ret
    cases ret

end Phasing

end Riri
