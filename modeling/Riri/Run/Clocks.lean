import Riri.Run.Timeline
import Riri.Theory.VectorClock

/-!
# The clocks of a launch are vector clocks

Each label of a run is an event of the vector-clock library, and the launch's own state,
read through the packing of thread keys, is what the library computes from those events. The
library's soundness and completeness then speak about the code's clocks.
-/
namespace Riri

open VectorClock (Event)

/-- What a label does to the clocks. Threads are numbered across the launch, a cell is an
element of an instrumented array. -/
def Label.event {V : Type} : Label V → Event Nat (Buf × Nat) Nat
  | .fence cx ordering => .fence cx.gid ordering.isAcquire ordering.isRelease
  | .arrive cx gen => .arrive cx.gid cx.block gen
  | .depart cx gen => .depart cx.gid cx.block gen
  | .access cx m _ _ _ =>
      .op cx.gid (m.act.ordering.map fun o => ((m.buf, m.index), o.isAcquire))
        (m.act.ordering.map fun o => ((m.buf, m.index), o.isRelease))
  | .fault cx m _ false =>
      .op cx.gid (m.act.ordering.map fun o => ((m.buf, m.index), o.isAcquire)) none
  | .fault cx _ _ true => .op cx.gid none none
  | .finish _ | .panic _ | .trap _ | .yield _ | .publish _ _ | .exchange _ _ _ | .leave _ _
  | .nextWave => .idle

namespace Launch

variable {V : Type} (env : Env V)

def keyOf (t : Nat) : Key :=
  key (t / env.config.threadsPerBlock) (t % env.config.threadsPerBlock)

def entries (c : Clock) : Nat → Nat := fun t => c.get (keyOf env t)

def view (s : Launch V) : VectorClock Nat (Buf × Nat) Nat where
  seq := s.sync.seq
  clock t := entries env (s.sync.clock t)
  fenceRelease t := entries env (s.sync.fenceRelease t)
  fenceAcquire t := entries env (s.sync.fenceAcquire t)
  cell c := entries env (s.cellOf env c.1 c.2).release
  block b := entries env (s.sync.block b)

variable {env}

/-! ### Keys and entries -/

theorem keyOf_injective : Function.Injective (keyOf env) := by
  intro t u same
  have small : ∀ i, i % env.config.threadsPerBlock < 2 ^ 32 := by
    intro i
    have inside := Nat.mod_lt i env.config.threads_pos
    have := Nat.le_mul_of_pos_left env.config.threadsPerBlock env.config.blocks_pos
    have := env.config.total_lt
    omega
  obtain ⟨block, thread⟩ := key_injective (small t) (small u) same
  rw [← Nat.div_add_mod t env.config.threadsPerBlock, block, thread, Nat.div_add_mod]

theorem ctx_key (s : Launch V) (slot : Nat) :
    key (s.ctx env slot).block (s.ctx env slot).thread = keyOf env (s.ctx env slot).gid := by
  have inside : slot % env.config.threadsPerBlock < env.config.threadsPerBlock :=
    Nat.mod_lt _ env.config.threads_pos
  simp only [ctx, keyOf]
  rw [Nat.mul_comm, Nat.mul_add_div env.config.threads_pos, Nat.div_eq_of_lt inside,
    Nat.mul_add_mod, Nat.mod_eq_of_lt inside, Nat.add_zero]

@[simp] theorem entries_empty : entries env ∅ = 0 := funext fun _ => Clock.get_empty _

@[simp] theorem entries_join (c d : Clock) :
    entries env (c.join d) = entries env c ⊔ entries env d :=
  funext fun _ => Clock.get_join ..

theorem entries_update (f : Nat → Clock) (t : Nat) (c : Clock) :
    (fun u => entries env (Function.update f t c u)) =
      Function.update (fun u => entries env (f u)) t (entries env c) :=
  Function.comp_update (entries env) f t c

theorem entries_observe (c : Clock) (t n : Nat) :
    entries env (c.observe (keyOf env t) n) = entries env c ⊔ Pi.single t n := by
  funext u
  simp only [entries, Clock.get_observe, keyOf_injective.eq_iff, Pi.sup_apply]
  by_cases same : u = t
  · subst same
    simp
  · simp [same]

theorem entries_release (sync : SyncState) (t : Nat) (target : Clock) (o : Ordering) :
    entries env (sync.release t target o) =
      (entries env target ⊔ if o.isRelease then entries env (sync.clock t) else 0) ⊔
        entries env (sync.fenceRelease t) := by
  funext u
  simp only [entries, SyncState.get_release, Pi.sup_apply]
  split <;> simp [entries, max_assoc]

theorem entries_acquire_clock (sync : SyncState) (t : Nat) (source : Clock) (o : Ordering) (u : Nat) :
    entries env ((sync.acquire t source o).clock u) =
      if u = t then entries env (sync.clock t) ⊔ if o.isAcquire then entries env source else 0
      else entries env (sync.clock u) := by
  funext v
  rw [entries, SyncState.get_acquire_clock]
  by_cases same : u = t
  · cases o.isAcquire <;> simp [same, entries]
  · simp [same, entries]

theorem entries_acquire_fence (sync : SyncState) (t : Nat) (source : Clock) (o : Ordering) (u : Nat) :
    entries env ((sync.acquire t source o).fenceAcquire u) =
      if u = t then entries env (sync.fenceAcquire t) ⊔
        if o.isAcquire then 0 else entries env source
      else entries env (sync.fenceAcquire u) := by
  funext v
  rw [entries, SyncState.get_acquire_fence]
  by_cases same : u = t
  · cases o.isAcquire <;> simp [same, entries]
  · simp [same, entries]

/-! ### Cells -/

theorem record_release (c : Cell) (acc : Access) (now : Clock) :
    (c.record acc now).1.release = c.release := by
  unfold Cell.record
  cases acc.kind <;> rfl

/-- A cell is the one just stored or what it was. -/
theorem cellOf_update {s s' : Launch V} {buf : Buf} {inst : Instrumented V}
    (mem : s'.mem = Function.update s.mem buf inst) (touched : inst.launchId = env.id)
    (b : Buf) (i : Nat) :
    s'.cellOf env b i = if b = buf then inst.shadow i else s.cellOf env b i := by
  unfold cellOf
  rw [mem]
  by_cases here : b = buf
  · subst here
    rw [Function.update_self, Instrumented.forLaunch_of_touched _ touched, if_pos rfl]
  · rw [Function.update_of_ne here, if_neg here]

theorem cellOf_congr {s s' : Launch V} (mem : s'.mem = s.mem) (b : Buf) (i : Nat) :
    s'.cellOf env b i = s.cellOf env b i := by
  unfold cellOf
  rw [mem]

/-- Storing one cell changes that cell. -/
theorem cellOf_stored {s s' : Launch V} {buf : Buf} {index : Nat} {cell : Cell} {len : Nat}
    {data : Nat → V}
    (mem : s'.mem = Function.update s.mem buf
      ⟨len, data, Function.update ((s.mem buf).forLaunch buf env.id).shadow index cell,
        ((s.mem buf).forLaunch buf env.id).launchId⟩) (b : Buf) (i : Nat) :
    s'.cellOf env b i = if (b, i) = (buf, index) then cell else s.cellOf env b i := by
  rw [cellOf_update mem (Instrumented.forLaunch_launchId buf _ _)]
  by_cases here : b = buf
  · subst here
    simp only [if_true, Function.update_apply, Prod.mk.injEq, true_and]
    rfl
  · simp [here]

/-! ### Steps as events -/

/-- A step that touches neither clocks nor memory is no event. -/
theorem view_congr {s s' : Launch V} (sync : s'.sync = s.sync) (mem : s'.mem = s.mem) :
    view env s' = view env s := by
  unfold view
  simp only [sync, cellOf_congr mem]

theorem view_fence {s s' : Launch V} {t : Nat} {o : Ordering}
    (sync : s'.sync = s.sync.fence t o) (mem : s'.mem = s.mem) :
    view env s' = (view env s).step (.fence t o.isAcquire o.isRelease) := by
  have cells : ∀ b i, s'.cellOf env b i = s.cellOf env b i := cellOf_congr mem
  apply VectorClock.ext <;> simp only [view, VectorClock.step, sync, cells, SyncState.fence]
  all_goals cases o.isAcquire <;> cases o.isRelease <;> simp [entries_update]

theorem view_arrive {s s' : Launch V} {t b gen : Nat}
    (sync : s'.sync = s.sync.barrierArrive t b) (mem : s'.mem = s.mem) :
    view env s' = (view env s).step (.arrive t b gen) := by
  have cells : ∀ b i, s'.cellOf env b i = s.cellOf env b i := cellOf_congr mem
  apply VectorClock.ext <;>
    simp [view, VectorClock.step, sync, cells, SyncState.barrierArrive, entries_update]

theorem view_depart {s s' : Launch V} {t b gen : Nat}
    (sync : s'.sync = s.sync.barrierDepart t b) (mem : s'.mem = s.mem) :
    view env s' = (view env s).step (.depart t b gen) := by
  have cells : ∀ b i, s'.cellOf env b i = s.cellOf env b i := cellOf_congr mem
  apply VectorClock.ext <;>
    simp [view, VectorClock.step, sync, cells, SyncState.barrierDepart, entries_update]

/-- What an access takes and publishes, as the library writes it. -/
def takes (m : MemOp V) : Option ((Buf × Nat) × Bool) :=
  m.act.ordering.map fun o => ((m.buf, m.index), o.isAcquire)

def publishes (m : MemOp V) : Option ((Buf × Nat) × Bool) :=
  m.act.ordering.map fun o => ((m.buf, m.index), o.isRelease)

section

variable (env) (s : Launch V) (slot : Nat) (m : MemOp V)

theorem acquired_clock : (fun u => entries env ((s.acquired env (s.ctx env slot) m).clock u)) =
    Function.update (view env s).clock (s.ctx env slot).gid
      ((view env s).clock (s.ctx env slot).gid ⊔ (view env s).acquired (takes m)) := by
  funext u
  unfold acquired takes
  cases m.act.ordering with
  | none =>
    by_cases mine : u = (s.ctx env slot).gid <;> simp [VectorClock.acquired, view, mine]
  | some o =>
    simp only [entries_acquire_clock, Function.update_apply, view, Option.map_some]
    cases o.isAcquire <;> simp [VectorClock.acquired, cellOf]

theorem acquired_fenceAcquire :
    (fun u => entries env ((s.acquired env (s.ctx env slot) m).fenceAcquire u)) =
      Function.update (view env s).fenceAcquire (s.ctx env slot).gid
        ((view env s).fenceAcquire (s.ctx env slot).gid ⊔ (view env s).pending (takes m)) := by
  funext u
  unfold acquired takes
  cases m.act.ordering with
  | none =>
    by_cases mine : u = (s.ctx env slot).gid <;> simp [VectorClock.pending, view, mine]
  | some o =>
    simp only [entries_acquire_fence, Function.update_apply, view, Option.map_some]
    cases o.isAcquire <;> simp [VectorClock.pending, cellOf]

theorem acquired_rest : (s.acquired env (s.ctx env slot) m).seq = s.sync.seq ∧
    (s.acquired env (s.ctx env slot) m).fenceRelease = s.sync.fenceRelease ∧
    (s.acquired env (s.ctx env slot) m).block = s.sync.block := by
  unfold acquired
  cases m.act.ordering with
  | none => exact ⟨rfl, rfl, rfl⟩
  | some o =>
    simp only [SyncState.acquire]
    split
    · exact ⟨rfl, rfl, rfl⟩
    · split <;> exact ⟨rfl, rfl, rfl⟩

theorem ticked_clock : (fun u => entries env ((s.ticked env (s.ctx env slot) m).clock u)) =
    Function.update (view env s).clock (s.ctx env slot).gid
      ((view env s).counted (s.ctx env slot).gid (takes m)) := by
  have before := acquired_clock env s slot m
  have own := congrFun before (s.ctx env slot).gid
  simp only [Function.update_self] at own
  simp only [ticked, SyncState.tick, entries_update, ctx_key, entries_observe, before, own,
    acquired_rest, VectorClock.counted, Function.update_idem]
  rfl

/-- The release clock an access leaves in its cell. -/
theorem published_release :
    entries env (s.published env (s.ctx env slot) m).release =
      (view env s).published (s.ctx env slot).gid
        ((view env s).counted (s.ctx env slot).gid (takes m)) (publishes m) (m.buf, m.index) := by
  have own := congrFun (ticked_clock env s slot m) (s.ctx env slot).gid
  rw [Function.update_self] at own
  have fenced : (s.ticked env (s.ctx env slot) m).fenceRelease = s.sync.fenceRelease :=
    (acquired_rest env s slot m).2.1
  unfold published publishes recorded
  cases m.act.ordering with
  | none =>
    simp only [record_release]
    rfl
  | some o =>
    simp only [entries_release, record_release, own, fenced, VectorClock.published,
      Option.map_some, Function.update_self]
    rfl

/-- An access that completed takes, counts and publishes. -/
theorem view_accessed {s' : Launch V} (sync : s'.sync = s.ticked env (s.ctx env slot) m)
    (cells : ∀ b i, s'.cellOf env b i = if (b, i) = (m.buf, m.index) then
      s.published env (s.ctx env slot) m else s.cellOf env b i) :
    view env s' = (view env s).step (.op (s.ctx env slot).gid (takes m) (publishes m)) := by
  have rest := acquired_rest env s slot m
  apply VectorClock.ext
  · simp only [view, VectorClock.step, sync, ticked, SyncState.tick, rest]
  · simp only [view, VectorClock.step, sync]
    exact ticked_clock env s slot m
  · simp only [view, VectorClock.step, sync, ticked, SyncState.tick, rest]
  · simp only [view, VectorClock.step, sync, ticked, SyncState.tick]
    exact acquired_fenceAcquire env s slot m
  · funext c
    have stored := published_release env s slot m
    simp only [view, VectorClock.step, cells]
    by_cases here : c = (m.buf, m.index)
    · simp only [here, if_true]
      exact stored
    · simp only [Prod.mk.eta, here, if_false]
      unfold publishes
      cases m.act.ordering <;> simp [VectorClock.published, here]
  · simp only [view, VectorClock.step, sync, ticked, SyncState.tick, rest]

/-- An access whose arithmetic panicked takes and counts. -/
theorem view_overflowed {s' : Launch V} (sync : s'.sync = s.ticked env (s.ctx env slot) m)
    (cells : ∀ b i, (s'.cellOf env b i).release = (s.cellOf env b i).release) :
    view env s' = (view env s).step (.op (s.ctx env slot).gid (takes m) none) := by
  have rest := acquired_rest env s slot m
  apply VectorClock.ext
  · simp only [view, VectorClock.step, sync, ticked, SyncState.tick, rest]
  · simp only [view, VectorClock.step, sync]
    exact ticked_clock env s slot m
  · simp only [view, VectorClock.step, sync, ticked, SyncState.tick, rest]
  · simp only [view, VectorClock.step, sync, ticked, SyncState.tick]
    exact acquired_fenceAcquire env s slot m
  · funext c
    simp only [view, VectorClock.step, VectorClock.published, cells]
  · simp only [view, VectorClock.step, sync, ticked, SyncState.tick, rest]

/-- An access outside its array only counts. -/
theorem view_missed {s' : Launch V} {t : Nat}
    (sync : s'.sync = s.sync.tick t (keyOf env t))
    (cells : ∀ b i, s'.cellOf env b i = s.cellOf env b i) :
    view env s' = (view env s).step (.op t none none) := by
  apply VectorClock.ext <;>
    simp [view, VectorClock.step, sync, SyncState.tick, cells, entries_update, entries_observe,
      VectorClock.counted, VectorClock.acquired, VectorClock.pending, VectorClock.published]

end

variable [BEq V]

/-- Every step of a thread is the event its label stands for. -/
theorem Resumed.view {s s' : Launch V} {slot : Nat} {l : Label V}
    (resumed : Resumed env s slot l s') : view env s' = (view env s).step l.event := by
  cases resumed with
  | fence pc ordering op => exact view_fence rfl rfl
  | arrive pc loc op => exact view_arrive rfl rfl
  | depart gen pc => exact view_depart rfl rfl
  | access m pc new resp inside updated =>
    exact view_accessed env s slot m rfl (cellOf_stored rfl)
  | overflow m pc message inside updated =>
    refine view_overflowed env s slot m rfl fun b i => ?_
    rw [cellOf_stored (s := s) rfl b i]
    split
    next here =>
      obtain ⟨rfl, rfl⟩ := Prod.mk.inj here
      exact record_release ..
    · rfl
  | miss m pc f act outside =>
    refine view_missed env s (by rw [← ctx_key]; rfl) fun b i => ?_
    rw [cellOf_update (s := s) rfl (Instrumented.forLaunch_launchId m.buf _ _) b i]
    split
    next here => subst here; rfl
    · rfl
  | outOfBounds m pc outside =>
    refine view_missed env s (by rw [← ctx_key]; rfl) fun b i => ?_
    rw [cellOf_update (s := s) rfl (Instrumented.forLaunch_launchId m.buf _ _) b i]
    split
    next here => subst here; rfl
    · rfl
  | _ => exact view_congr rfl rfl

def events (env : Env V) (n : Nat) : Event Nat (Buf × Nat) Nat :=
  match (run env).label n with
  | some l => l.event
  | none => .idle

theorem events_of_label {n : Nat} {l : Label V} (labelled : (run env).label n = some l) :
    events env n = l.event := by
  simp only [events, labelled]

omit [BEq V] in
theorem view_init : view env (init env) = VectorClock.zero := by
  apply VectorClock.ext <;> try rfl
  funext c
  have untouched : ((init env).mem c.1).launchId ≠ env.id := env.fresh c.1
  simp only [view, cellOf, Instrumented.forLaunch, if_pos untouched]
  cases c.1 <;> simp [Instrumented.reset, Cell.default, VectorClock.zero]

/-- The launch's clocks are those its events determine. -/
theorem view_run (n : Nat) : view env ((run env).state n) = VectorClock.clocks (events env) n := by
  induction n with
  | zero => exact view_init
  | succ n ih =>
    rw [VectorClock.clocks_succ, ← ih]
    rcases (run env).step_cases n with ⟨l, labelled, moved⟩ | ⟨idle, stays⟩
    · rw [events_of_label labelled]
      obtain ⟨-, ⟨-, -, rfl, next⟩ | ⟨slot, -, resumed⟩⟩ := step_cases env moved
      · rw [next]
        exact view_congr rfl rfl
      · exact resumed.view
    · rw [stays]
      simp only [events, idle, VectorClock.step]

theorem view_succ (env : Env V) (n : Nat) :
    view env ((run env).state (n + 1)) = (view env ((run env).state n)).step (events env n) := by
  rw [view_run, view_run, VectorClock.clocks_succ]

end Launch

end Riri
