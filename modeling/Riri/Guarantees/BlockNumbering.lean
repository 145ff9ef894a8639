import Riri.Run.Cells
import Riri.Run.Programs
import Riri.Run.Standing
import Riri.Run.Waves

/-!
# Blocks in scheduler findings

The scheduler numbers the blocks of its own wave from zero and puts that number into every
divergence and mask mismatch, where the kernel, the records of accesses and the lane errors
number blocks within the grid. The two agree in the first wave and nowhere else.
-/
namespace Riri.Launch

variable {V : Type} [BEq V]

def RaisedAt (env : Env V) (n : Nat) (d : Diagnostic) : Prop :=
  ∃ raised, ((run env).state (n + 1)).raised = ((run env).state n).raised ++ raised ∧ d ∈ raised

/-- The block a finding names is the `block_linear` of a thread it describes. -/
def NamesBlock (env : Env V) (s : Launch V) (d : Diagnostic) : Prop :=
  ∃ slot < (s.geometry env).total, Scheduler.Involved (s.geometry env) s.sched slot d ∧
    d.schedBlock? = some (s.ctx env slot).block

/-- What the code does: the finding names that thread's block within its wave. -/
def NamesWaveBlock (env : Env V) (s : Launch V) (d : Diagnostic) : Prop :=
  ∃ slot < (s.geometry env).total, Scheduler.Involved (s.geometry env) s.sched slot d ∧
    d.schedBlock? = some (s.ctx env slot).waveBlock

variable {env : Env V}

/-- What a step reports: nothing of the scheduler's, or a finding about a thread of the block
its scheduler gives that number. -/
theorem Resumed.raised {s s' : Launch V} {slot : Nat} {l : Label V}
    (inside : slot < (s.geometry env).total) (resumed : Resumed env s slot l s') :
    ∃ raised, s'.raised = s.raised ++ raised ∧
      ∀ d ∈ raised, d.schedBlock? = none ∨ NamesWaveBlock env s' d := by
  obtain ⟨before, r, operates, sched, grown, plain⟩ := resumed.operates
  have found : Scheduler.Attributed (s.geometry env) slot r := by
    cases operates with
    | none | abort => exact .of_silent
    | yield => exact Scheduler.handOff_attributed slot _
    | barrier loc => exact Scheduler.barrier_attributed slot loc _
    | rendezvous joins => exact Scheduler.warpRendezvous_attributed slot _ _
    | finish => exact Scheduler.finish_attributed slot _
  refine ⟨_, grown, fun d member => ?_⟩
  rcases List.mem_append.mp member with other | own
  · exact .inl (plain d other)
  · obtain ⟨i, resident, involved, named⟩ := found d own
    refine .inr ⟨i, ?_, ?_, named⟩
    · simpa only [geometry, resumed.wave.2] using resident inside
    · rw [sched]
      simpa only [geometry, resumed.wave.2] using involved

/-- Only a thread's step reports anything. -/
theorem resumed_of_raised {n : Nat} {d : Diagnostic} (raised : RaisedAt env n d) :
    ∃ slot l, Live ((run env).state n) ∧ ((run env).state n).sched.current = some slot ∧
      Resumed env ((run env).state n) slot l ((run env).state (n + 1)) := by
  obtain ⟨raised, grown, member⟩ := raised
  have nothing : ((run env).state (n + 1)).raised ≠ ((run env).state n).raised := by
    intro same
    rw [same, List.self_eq_append_right] at grown
    rw [grown] at member
    cases member
  rcases (run env).step_cases n with ⟨l, -, moved⟩ | ⟨-, stays⟩
  · obtain ⟨live, ⟨-, -, -, next⟩ | ⟨slot, current, resumed⟩⟩ := step_cases env moved
    · exact absurd (by rw [next]; rfl) nothing
    · exact ⟨slot, l, live, current, resumed⟩
  · exact absurd (by rw [stays]) nothing

/-- Every divergence and mask mismatch of a run is about a thread of its wave, and names that
thread's block as the wave numbers it. -/
theorem namesWaveBlock {n : Nat} {d : Diagnostic} (raised : RaisedAt env n d)
    (scheduler : d.schedBlock? ≠ none) : NamesWaveBlock env ((run env).state (n + 1)) d := by
  obtain ⟨slot, l, live, current, resumed⟩ := resumed_of_raised raised
  obtain ⟨raised, grown, member⟩ := raised
  obtain ⟨own, same, about⟩ := resumed.raised ((wellFormed live).running current).1
  obtain rfl : raised = own := List.append_cancel_left (grown.symm.trans same)
  exact (about d member).resolve_left scheduler

omit [BEq V] in
/-- A block of a later wave has another number in its wave than any block of that wave has in
the grid. -/
theorem Numbered.waveBlock_lt {s : Launch V} (numbered : Numbered env s) (later : s.wave ≠ 0)
    {i : Nat} (inside : i < (s.geometry env).total) (j : Nat) :
    (s.ctx env i).waveBlock < (s.ctx env j).block := by
  have resident : i / env.config.threadsPerBlock < env.config.residentBlocks :=
    lt_of_lt_of_le ((s.geometry env).blockOf_lt inside) (Nat.min_le_left ..)
  have started : env.config.residentBlocks ≤ s.firstBlock := by
    rw [numbered.start]
    exact Nat.le_mul_of_pos_left _ (Nat.pos_of_ne_zero later)
  calc (s.ctx env i).waveBlock
    _ < env.config.residentBlocks := resident
    _ ≤ s.firstBlock := started
    _ ≤ (s.ctx env j).block := Nat.le_add_right ..

/-- When the findings name the right block: in the first wave, and in no other. -/
theorem namesBlock_exactly (env : Env V) (n : Nat) (d : Diagnostic) (raised : RaisedAt env n d)
    (scheduler : d.schedBlock? ≠ none) :
    NamesBlock env ((run env).state (n + 1)) d ↔ ((run env).state n).wave = 0 := by
  obtain ⟨slot, l, live, current, resumed⟩ := resumed_of_raised raised
  obtain ⟨i, inside, involved, named⟩ := namesWaveBlock raised scheduler
  have started := numbered env (n + 1)
  rw [← resumed.wave.1]
  constructor
  · rintro ⟨j, -, -, block⟩
    by_contra later
    have same := Option.some.inj (named.symm.trans block)
    exact absurd same (Nat.ne_of_lt (started.waveBlock_lt later inside j))
  · intro first
    have zero : ((run env).state (n + 1)).firstBlock = 0 := by rw [started.start, first, Nat.zero_mul]
    refine ⟨i, inside, involved, named.trans (congrArg some ?_)⟩
    simp only [ctx, zero, Nat.zero_add]

def Config.pair : Config :=
  { Config.twoThreads with
    blocks := 2
    blocks_pos := Nat.two_pos
    resident_le := by decide
    total_lt := by decide }

/-- Block 0 returns at once; in block 1 thread 0 waits at a barrier that thread 1 returns
without reaching. -/
def abandoned : Env Nat :=
  { idling with
    config := Config.pair
    kernel := .ofLists fun block thread =>
      if block = 1 ∧ thread = 0 then [.syncThreads ⟨"kernel.rs", 7, 5⟩] else [] }

def abandonment : Diagnostic := .barrierDivergence 0 1 1 ⟨"kernel.rs", 7, 5⟩

theorem abandoned_raised : RaisedAt abandoned 4 abandonment :=
  ⟨[abandonment], by set_option maxRecDepth 100000 in decide +kernel, List.mem_singleton_self _⟩

/-- The finding of the second wave names block 0, whose threads all returned; the thread at
the barrier is in block 1. -/
theorem abandoned_misnamed :
    RaisedAt abandoned 4 abandonment ∧ abandonment.schedBlock? = some 0 ∧
      ¬ NamesBlock abandoned ((run abandoned).state 5) abandonment := by
  refine ⟨abandoned_raised, rfl, ?_⟩
  have second : ((run abandoned).state 5).firstBlock = 1 := by
    set_option maxRecDepth 100000 in decide +kernel
  rintro ⟨slot, -, -, named⟩
  have zero : 0 = ((run abandoned).state 5).firstBlock + slot / 2 := Option.some.inj named
  omega

/-- The condition fails there, as the exact statement says. -/
theorem namesBlock_exactly_abandoned :
    NamesBlock abandoned ((run abandoned).state 5) abandonment ↔
      ((run abandoned).state 4).wave = 0 :=
  namesBlock_exactly abandoned 4 abandonment abandoned_raised (by decide)

end Riri.Launch
