import Riri.Run.Told
import Riri.Theory.Interleavings

/-!
# A run as an interleaving

The threads of a program are a web: those of a block are a team that waits for itself at its
barrier. A launch that calls no collective runs through the scenes of that web, those of earlier
waves at their ends and those of later waves not begun.
-/
namespace Riri

open Interleaved (Web Scene)

variable {V : Type}

/-- The threads of a program, those of a block a team. -/
def Program.web [BEq V] (program : Program V) :
    Web (Nat × Nat) Nat (Buf × Nat) (V × Bool) (List (Resp V)) where
  members := {i | i.1 < program.blocks ∧ i.2 < program.threads}
  team := Prod.fst
  next := fun i => program.move i.1 i.2
  waits := fun i answers => ∃ loc, program.kernel i.1 i.2 answers = .syncThreads loc
  ends := fun i answers => program.kernel i.1 i.2 answers = .ret
  resume := fun answers => answers ++ [.unit]
  stop_of_waits := fun waits => Program.move_stop rfl (.inr (.inr (.inl waits)))
  stop_of_ends := fun ends => Program.move_stop rfl (.inl ends)
  not_waits := by
    intro i answers ends waits
    obtain ⟨loc, sync⟩ := waits
    rw [ends] at sync
    cases sync

def Program.begun (program : Program V) : Scene (Nat × Nat) (Buf × Nat) (V × Bool) (List (Resp V)) :=
  ⟨fun _ => [], program.data⟩

def Ctx.place (cx : Ctx) : Nat × Nat := (cx.block, cx.thread)

def Label.accessor? : Label V → Option (Nat × Nat)
  | .access cx _ _ _ _ => some cx.place
  | _ => none

theorem Label.accessor?_of_quiet {l : Label V} (quiet : l.touched? = none) : l.accessor? = none := by
  cases l with
  | access => cases quiet
  | _ => rfl

namespace Launch

variable {env : Env V}

/-- Where a launch is, apart from its scheduler: the blocks of earlier waves have ended and those of
later waves have not begun. -/
structure Tracks (env : Env V) (s : Launch V)
    (scene : Scene (Nat × Nat) (Buf × Nat) (V × Bool) (List (Resp V))) : Prop where
  len : ∀ buf, (s.mem buf).len = (env.mem buf).len
  mem : scene.mem = s.memory env
  wave : ∀ i < (s.geometry env).total, scene.now (s.ctx env i).place = s.said env i
  earlier : ∀ block < s.firstBlock, ∀ thread < env.config.threadsPerBlock,
    env.kernel block thread (scene.now (block, thread)) = .ret
  later : ∀ block thread, s.firstBlock + env.config.waveBlocks s.firstBlock ≤ block →
    scene.now (block, thread) = []

variable {s s' : Launch V} {i j : Nat}
  {a : Scene (Nat × Nat) (Buf × Nat) (V × Bool) (List (Resp V))}

/-! ### Places -/

theorem place_eq (s : Launch V) (i : Nat) : (s.ctx env i).place =
    (s.firstBlock + i / env.config.threadsPerBlock, i % env.config.threadsPerBlock) := rfl

theorem place_inj : (s.ctx env j).place = (s.ctx env i).place ↔ j = i := by
  constructor
  · intro same
    have block : j / env.config.threadsPerBlock = i / env.config.threadsPerBlock :=
      Nat.add_left_cancel (Prod.mk.inj same).1
    have thread : j % env.config.threadsPerBlock = i % env.config.threadsPerBlock :=
      (Prod.mk.inj same).2
    calc j
      _ = slotAt env (j / env.config.threadsPerBlock) (j % env.config.threadsPerBlock) :=
        (slotAt_self j).symm
      _ = slotAt env (i / env.config.threadsPerBlock) (i % env.config.threadsPerBlock) := by
        rw [block, thread]
      _ = i := slotAt_self i
  · intro same
    rw [same]

theorem place_slotAt {waveBlock thread : Nat} (inside : thread < env.config.threadsPerBlock) :
    (s.ctx env (slotAt env waveBlock thread)).place = (s.firstBlock + waveBlock, thread) := by
  have block : slotAt env waveBlock thread / env.config.threadsPerBlock = waveBlock :=
    slotAt_blockOf inside s
  rw [place_eq, block, slotAt_thread inside]

theorem Numbered.place_member [BEq V] (numbered : Numbered env s)
    (inside : i < (s.geometry env).total) : (s.ctx env i).place ∈ env.program.web.members :=
  ⟨numbered.inGrid inside, mod_lt env i⟩

/-- A thread of the grid is in the wave, or in an earlier or a later one. -/
theorem place_cases {k : Nat × Nat} (in_block : k.2 < env.config.threadsPerBlock) (s : Launch V) :
    k.1 < s.firstBlock ∨ (∃ i < (s.geometry env).total, k = (s.ctx env i).place) ∨
      s.firstBlock + env.config.waveBlocks s.firstBlock ≤ k.1 := by
  by_cases early : k.1 < s.firstBlock
  · exact .inl early
  · by_cases late : s.firstBlock + env.config.waveBlocks s.firstBlock ≤ k.1
    · exact .inr (.inr late)
    · have in_wave : k.1 - s.firstBlock < env.config.waveBlocks s.firstBlock := by omega
      refine .inr (.inl ⟨_, slotAt_lt in_wave in_block, ?_⟩)
      rw [place_slotAt in_block, Nat.add_sub_cancel' (Nat.le_of_not_lt early)]

/-! ### Scenes of a launch -/

section

theorem Tracks.congr (tracks : Tracks env s a) (firstBlock : s'.firstBlock = s.firstBlock)
    (len : ∀ buf, (s'.mem buf).len = (s.mem buf).len) (memory : s'.memory env = s.memory env)
    (said : ∀ i, s'.said env i = s.said env i) : Tracks env s' a := by
  have same : s'.geometry env = s.geometry env := by simp only [geometry, firstBlock]
  constructor
  · intro buf
    rw [len, tracks.len]
  · rw [memory, tracks.mem]
  · intro i inside
    rw [same] at inside
    rw [said, ← tracks.wave i inside, place_eq, place_eq, firstBlock]
  · rw [firstBlock]
    exact tracks.earlier
  · rw [firstBlock]
    exact tracks.later

/-- A scene in which only threads of the wave have gone on. -/
theorem Tracks.next {a' : Scene (Nat × Nat) (Buf × Nat) (V × Bool) (List (Resp V))}
    (tracks : Tracks env s a) (firstBlock : s'.firstBlock = s.firstBlock)
    (len : ∀ buf, (s'.mem buf).len = (s.mem buf).len) (mem : a'.mem = s'.memory env)
    (wave : ∀ i < (s.geometry env).total, a'.now (s.ctx env i).place = s'.said env i)
    (elsewhere : ∀ k : Nat × Nat, (∀ i < (s.geometry env).total, k.1 ≠ (s.ctx env i).block) →
      a'.now k = a.now k) : Tracks env s' a' := by
  have same : s'.geometry env = s.geometry env := by simp only [geometry, firstBlock]
  have in_wave : ∀ {i}, i < (s.geometry env).total →
      s.firstBlock ≤ (s.ctx env i).block ∧
        (s.ctx env i).block < s.firstBlock + env.config.waveBlocks s.firstBlock := by
    intro i inside
    exact ⟨Nat.le_add_right .., Nat.add_lt_add_left (inWave inside) _⟩
  constructor
  · intro buf
    rw [len, tracks.len]
  · exact mem
  · intro i inside
    rw [same] at inside
    rw [place_eq, firstBlock]
    exact wave i inside
  · intro block before thread in_block
    rw [firstBlock] at before
    rw [elsewhere]
    · exact tracks.earlier block before thread in_block
    · intro i inside here
      have low := (in_wave inside).1
      rw [← here] at low
      exact absurd before (Nat.not_lt_of_le low)
  · intro block thread after
    rw [firstBlock] at after
    rw [elsewhere]
    · exact tracks.later block thread after
    · intro i inside here
      have high := (in_wave inside).2
      rw [← here] at high
      exact absurd high (Nat.not_lt_of_le after)

theorem Tracks.start (env : Env V) : Tracks env (init env) env.program.begun := by
  constructor
  · exact fun _ => rfl
  · exact (memory_init env).symm
  · exact fun _ _ => rfl
  · exact fun _ before => absurd before (Nat.not_lt_zero _)
  · exact fun _ _ _ => rfl

/-- When everybody of a wave has returned the next begins. -/
theorem Tracks.nextWave (tracks : Tracks env s a) (settled : ∀ i, Settled env s i)
    (ended : ∀ i < (s.geometry env).total, s.sched.status i = .finished) :
    Tracks env (s.nextWave env) a := by
  constructor
  · exact tracks.len
  · exact tracks.mem
  · intro i inside
    exact tracks.later _ _ (Nat.le_add_right ..)
  · intro block before thread in_block
    rcases place_cases (k := (block, thread)) in_block s with early | ⟨i, inside, here⟩ | late
    · exact tracks.earlier block early thread in_block
    · obtain ⟨ready, op⟩ := (settled i).ret_of_finished (ended i inside)
      obtain ⟨rfl, rfl⟩ := Prod.mk.inj here
      have now := tracks.wave i inside
      rw [said_of_ready ready] at now
      show env.kernel _ _ (a.now (s.ctx env i).place) = .ret
      rw [now]
      exact op
    · exact absurd before (Nat.not_lt_of_le late)
  · intro block thread after
    exact tracks.later block thread ((Nat.le_add_right ..).trans after)

variable [BEq V]

/-- A step of the launch is a step of the web, or nothing happens in the web. -/
theorem Tells.tracks {l : Label V} (tells : Tells env s i l s') (tracks : Tracks env s a)
    (numbered : Numbered env s) (inside : i < (s.geometry env).total)
    (firstBlock : s'.firstBlock = s.firstBlock)
    (len : ∀ buf, (s'.mem buf).len = (s.mem buf).len) :
    (l.accessor? = none ∧ Tracks env s' a) ∨
      ∃ a', env.program.web.Step a l.accessor? a' ∧ Tracks env s' a' := by
  have member := numbered.place_member inside
  have here := tracks.wave i inside
  have own : ∀ k : Nat × Nat, (∀ j < (s.geometry env).total, k.1 ≠ (s.ctx env j).block) →
      k ≠ (s.ctx env i).place := by
    intro k away same
    exact away i inside (by rw [same]; rfl)
  cases tells with
  | nothing gens said memory raised quiet =>
    exact .inl ⟨Label.accessor?_of_quiet quiet, tracks.congr firstBlock len memory said⟩
  | inner gens others moved memory raised quiet =>
    rw [Label.accessor?_of_quiet quiet]
    refine .inr ⟨a.move (s.ctx env i).place (s'.said env i), .inner member ?_, ?_⟩
    · rw [here]
      exact moved
    · refine tracks.next firstBlock len ?_ ?_ ?_
      · rw [Scene.move_mem, tracks.mem, memory]
      · intro j there
        by_cases mine : j = i
        · rw [mine, Scene.move_self]
        · rw [Scene.move_of_ne (place_inj.not.mpr mine), tracks.wave j there, others j mine]
      · intro k away
        exact Scene.move_of_ne (own k away)
  | access m gens others op answers bound performed raised =>
    cases goes : env.program.move (s.ctx env i).block (s.ctx env i).thread (s.said env i) with
    | access e f =>
      have performed' : (Phased.Move.access e f).perform (s.memory env) =
          some (s'.said env i, s'.memory env) := by
        rw [← goes]
        exact performed
      simp only [Phased.Move.perform, Option.map_eq_some_iff, Prod.mk.injEq] at performed'
      obtain ⟨r, made, told, stored⟩ := performed'
      refine .inr ⟨a.store (s.ctx env i).place r.2 e r.1, .access (f := f) member ?_ ?_, ?_⟩
      · rw [here]
        exact goes
      · rw [tracks.mem]
        exact made
      · refine tracks.next firstBlock len ?_ ?_ ?_
        · rw [Scene.store_mem, tracks.mem, stored]
        · intro j there
          by_cases mine : j = i
          · rw [mine, Scene.store_self, told]
          · rw [Scene.store_of_ne (place_inj.not.mpr mine), tracks.wave j there, others j mine]
        · intro k away
          exact Scene.store_of_ne (own k away)
    | inner | stop =>
      have inside : m.index < (env.program.mem m.buf).len := bound
      have op : env.program.kernel (s.ctx env i).block (s.ctx env i).thread (s.said env i) =
        .mem m := op
      simp [Program.move, op, inside] at goes
  | meet gens elsewhere waits answered memory raised quiet =>
    rw [Label.accessor?_of_quiet quiet]
    refine .inr ⟨a.meet env.program.web (s.ctx env i).block, .meet member ?_, ?_⟩
    · intro k inside' mates
      have in_block : k.2 < env.config.threadsPerBlock := inside'.2
      have slot := slotAt_lt (s := s) (inWave inside) in_block
      have place : (s.ctx env (slotAt env (i / env.config.threadsPerBlock) k.2)).place =
        (s.firstBlock + i / env.config.threadsPerBlock, k.2) := place_slotAt in_block
      have same : k = (s.ctx env (slotAt env (i / env.config.threadsPerBlock) k.2)).place := by
        rw [place]
        exact Prod.ext mates rfl
      obtain ⟨loc, sync⟩ := waits k.2 in_block
      refine ⟨loc, ?_⟩
      rw [same, tracks.wave _ slot, ← same]
      rw [show k.1 = s.firstBlock + i / env.config.threadsPerBlock from mates]
      exact sync
    · refine tracks.next firstBlock len ?_ ?_ ?_
      · rw [Scene.meet_mem, tracks.mem, memory]
      · intro j there
        by_cases mates : j / env.config.threadsPerBlock = i / env.config.threadsPerBlock
        · have team : env.program.web.team (s.ctx env j).place = (s.ctx env i).block :=
            congrArg (s.firstBlock + ·) mates
          have told := answered _ (mod_lt env j)
          rw [← mates, slotAt_self] at told
          rw [Scene.meet_of_team team, tracks.wave j there, told]
          rfl
        · have team : env.program.web.team (s.ctx env j).place ≠ (s.ctx env i).block :=
            fun same => mates (Nat.add_left_cancel same)
          rw [Scene.meet_of_ne team, tracks.wave j there, elsewhere j mates]
      · intro k away
        exact Scene.meet_of_ne (away i inside)

end

/-! ### Along a run -/

variable [BEq V]

/-- Who used the memory before time `n`, oldest first. -/
def accessors (env : Env V) (n : Nat) : List (Nat × Nat) :=
  ((run env).history n).filterMap Label.accessor?

theorem accessors_succ {n : Nat} {l : Label V} (labelled : (run env).label n = some l) :
    accessors env (n + 1) = accessors env n ++ l.accessor?.toList := by
  unfold accessors
  rw [Machine.history, labelled, List.filterMap_append]
  cases accessor : l.accessor? <;> simp [accessor]

theorem accessors_of_halted {n : Nat} (halted : (run env).label n = none) :
    accessors env (n + 1) = accessors env n := by
  simp [accessors, Machine.history, halted]

def Solo (env : Env V) : Prop := ∀ block thread answers c, env.kernel block thread answers ≠ .warp c

theorem Moves.tracks {l : Label V} (move : Moves env s i l s') (solo : Solo env) (tracks : Tracks env s a)
    (numbered : Numbered env s) (standing : Standing env s) (inside : i < (s.geometry env).total)
    (running : s.sched.status i = .runnable) :
    (l.accessor? = none ∧ Tracks env s' a) ∨
      ∃ a', env.program.web.Step a l.accessor? a' ∧ Tracks env s' a' :=
  (move.tells standing running tracks.len fun c => solo _ _ _ c).tracks tracks numbered inside
    move.firstBlock move.len

/-- From one time of a run to a later one. -/
theorem tracks_from (solo : Solo env) {m : Nat} (tracks : Tracks env ((run env).state m) a)
    (d : Nat) (live : Live ((run env).state (m + d))) :
    ∃ order a', accessors env (m + d) = accessors env m ++ order ∧
      env.program.web.Runs a order a' ∧ Tracks env ((run env).state (m + d)) a' := by
  induction d with
  | zero => exact ⟨[], a, (List.append_nil _).symm, .refl a, tracks⟩
  | succ d ih =>
    obtain ⟨order, a', so_far, runs, there⟩ := ih (live_of_succ live)
    obtain ⟨wf, ⟨idle, stays⟩ | ⟨labelled, nobody, more, next⟩ |
      ⟨slot, l, labelled, current, move⟩⟩ := live_step (n := m + d) live
    · refine ⟨order, a', ?_, runs, ?_⟩
      · exact (accessors_of_halted idle).trans so_far
      · show Tracks env ((run env).state (m + d + 1)) a'
        rw [stays]
        exact there
    · refine ⟨order, a', ?_, runs, ?_⟩
      · rw [← so_far]
        exact (accessors_succ labelled).trans (List.append_nil _)
      · show Tracks env ((run env).state (m + d + 1)) a'
        rw [next]
        refine there.nextWave wf.settled ?_
        rcases wf.turn with ⟨i, -, taken, -⟩ | ⟨-, ended⟩
        · rw [nobody] at taken
          cases taken
        · exact ended
    · obtain ⟨inside, running⟩ := wf.running current
      have now := accessors_succ labelled
      rw [so_far, List.append_assoc] at now
      rcases move.tracks solo there (numbered env _) (standing_run (live_of_succ live)) inside
          running with ⟨quiet, same⟩ | ⟨a'', stepped, further⟩
      · refine ⟨order, a', ?_, runs, same⟩
        rw [quiet] at now
        exact now.trans (congrArg _ (List.append_nil _))
      · exact ⟨_, a'', now, runs.trans stepped.runs, further⟩

/-- A launch that has not stopped is in a scene of its web, come to by the accesses made. -/
theorem tracks_run (solo : Solo env) {n : Nat} (live : Live ((run env).state n)) :
    ∃ a, env.program.web.Runs env.program.begun (accessors env n) a ∧
      Tracks env ((run env).state n) a := by
  rw [← Nat.zero_add n] at live ⊢
  have begun : Tracks env ((run env).state 0) env.program.begun := .start env
  obtain ⟨order, a, same, runs, tracks⟩ := tracks_from solo begun n live
  refine ⟨a, ?_, tracks⟩
  rw [same]
  exact runs

/-- When a launch ends on its own everybody has ended. -/
theorem Tracks.complete (tracks : Tracks env s a) (settled : ∀ i, Settled env s i)
    (last : env.config.blocks ≤ s.firstBlock + env.config.waveBlocks s.firstBlock)
    (ended : ∀ i < (s.geometry env).total, s.sched.status i = .finished) :
    env.program.web.Complete a := by
  intro k member
  obtain ⟨in_grid, in_block⟩ := member
  exact (tracks.nextWave settled ended).earlier k.1 (in_grid.trans_le last) k.2 in_block

end Launch

end Riri
