import Riri.Run.Clocks
import Riri.Run.Programs

/-!
# Which atomics publish and which take on

Every atomic runs through one read-modify-write path, which acquires and releases by its
ordering alone. So a load can publish and a store can take on. This module says exactly when
they do not, and that a run in which they never do has the clocks of a history where only
writes publish and only reads take.
-/
namespace Riri

open VectorClock (Event)

/-- The event of a label if loads and failed exchanges published nothing and stores took
nothing. -/
def Label.directedEvent {V : Type} [BEq V] : Label V → Event Nat (Buf × Nat) Nat
  | .access cx m acc old found =>
      match m.act with
      | .atomic o op =>
          .op cx.gid (if op.reads then some ((m.buf, m.index), o.isAcquire) else none)
            (if op.stores old then some ((m.buf, m.index), o.isRelease) else none)
      | _ => (Label.access cx m acc old found).event
  | l => l.event

namespace Launch

variable {V : Type} [BEq V] {env : Env V}

def directedEvents (env : Env V) (n : Nat) : Event Nat (Buf × Nat) Nat :=
  match (run env).label n with
  | some l => l.directedEvent
  | none => .idle

omit [BEq V] in
def PublishesNothing (env : Env V) (s s' : Launch V) (m : MemOp V) : Prop :=
  entries env (s'.cellOf env m.buf m.index).release = entries env (s.cellOf env m.buf m.index).release

/-- The thread's clock is what counting its operation alone would leave, and its
pending-acquire set is what it was. -/
def TakesNothing (env : Env V) (s s' : Launch V) (cx : Ctx) : Prop :=
  entries env (s'.sync.clock cx.gid) =
      entries env ((s.sync.tick cx.gid (key cx.block cx.thread)).clock cx.gid) ∧
    entries env (s'.sync.fenceAcquire cx.gid) = entries env (s.sync.fenceAcquire cx.gid)

/-- The step at time `n`, if it is an atomic, publishes only if it writes and takes on only
if it reads. -/
def Directed (env : Env V) (n : Nat) : Prop :=
  ∀ cx m acc old found o op, (run env).label n = some (.access cx m acc old found) →
    m.act = .atomic o op →
    (op.stores old = false → PublishesNothing env ((run env).state n) ((run env).state (n + 1)) m) ∧
    (op.reads = false → TakesNothing env ((run env).state n) ((run env).state (n + 1)) cx)

/-- The state before that step leaves a load or failed exchange nothing to publish, and a
store nothing to take on. -/
def NothingToMove (env : Env V) (n : Nat) : Prop :=
  ∀ cx m acc old found o op, (run env).label n = some (.access cx m acc old found) →
    m.act = .atomic o op →
    let s := (run env).state n
    let released := entries env (s.cellOf env m.buf m.index).release
    (op.stores old = false →
      o.isRelease = false ∧ entries env (s.sync.fenceRelease cx.gid) ≤ released) ∧
    (op.reads = false →
      if o.isAcquire then released ≤ entries env (s.sync.clock cx.gid)
      else released ≤ entries env (s.sync.fenceAcquire cx.gid))

section

variable {n : Nat} {cx : Ctx} {m : MemOp V} {acc : Access} {old : V} {found : Option Access}
  {o : Ordering} {op : AtomicOp V}
  (labelled : (run env).label n = some (.access cx m acc old found)) (act : m.act = .atomic o op)
include labelled act

/-- The clocks after an atomic. -/
theorem view_atomic : view env ((run env).state (n + 1)) = (view env ((run env).state n)).step
    (.op cx.gid (some ((m.buf, m.index), o.isAcquire)) (some ((m.buf, m.index), o.isRelease))) := by
  obtain ⟨slot, -, rfl, -, -, resumed⟩ := label_slot labelled rfl
  have stepped := resumed.view
  simpa [Label.event, act, MemAct.ordering] using stepped

theorem publishesNothing_iff :
    PublishesNothing env ((run env).state n) ((run env).state (n + 1)) m ↔
      o.isRelease = false ∧ entries env (((run env).state n).sync.fenceRelease cx.gid) ≤
        entries env (((run env).state n).cellOf env m.buf m.index).release := by
  have counted := VectorClock.counted_clocks (h := events env) n
  rw [← view_run] at counted
  have stored : (view env ((run env).state (n + 1))).cell (m.buf, m.index) =
      (view env ((run env).state n)).cell (m.buf, m.index) ↔
        o.isRelease = false ∧ (view env ((run env).state n)).fenceRelease cx.gid ≤
          (view env ((run env).state n)).cell (m.buf, m.index) := by
    rw [view_atomic labelled act]
    exact VectorClock.publishes_nothing_iff counted
  exact stored

theorem takesNothing_iff :
    TakesNothing env ((run env).state n) ((run env).state (n + 1)) cx ↔
      if o.isAcquire then
        entries env (((run env).state n).cellOf env m.buf m.index).release ≤
          entries env (((run env).state n).sync.clock cx.gid)
      else entries env (((run env).state n).cellOf env m.buf m.index).release ≤
        entries env (((run env).state n).sync.fenceAcquire cx.gid) := by
  have counted := VectorClock.counted_clocks (h := events env) n
  have own := VectorClock.seq_le_clock (h := events env) cx.gid n
  rw [← view_run] at counted own
  have ticked : entries env ((((run env).state n).sync.tick cx.gid
        (key cx.block cx.thread)).clock cx.gid) =
      (view env ((run env).state n)).clock cx.gid ⊔
        Pi.single cx.gid ((view env ((run env).state n)).seq cx.gid + 1) := by
    obtain ⟨slot, -, rfl, -⟩ := label_slot labelled rfl
    simp only [SyncState.tick, Function.update_self, ctx_key, entries_observe]
    rfl
  have moved : entries env (((run env).state (n + 1)).sync.clock cx.gid) =
        (view env ((run env).state n)).counted cx.gid (some ((m.buf, m.index), o.isAcquire)) ∧
      entries env (((run env).state (n + 1)).sync.fenceAcquire cx.gid) =
        (view env ((run env).state n)).fenceAcquire cx.gid ⊔
          (view env ((run env).state n)).pending (some ((m.buf, m.index), o.isAcquire)) := by
    have after := view_atomic labelled act
    have clock := congrFun (congrArg VectorClock.clock after) cx.gid
    have aside := congrFun (congrArg VectorClock.fenceAcquire after) cx.gid
    simp only [VectorClock.step, Function.update_self] at clock aside
    exact ⟨clock, aside⟩
  unfold TakesNothing
  rw [ticked, moved.1, moved.2]
  exact VectorClock.takes_nothing_iff counted own

end

/-- A step is directed exactly when the state before it leaves it nothing to move. -/
theorem directed_iff (n : Nat) : Directed env n ↔ NothingToMove env n := by
  constructor
  · intro directed cx m acc old found o op labelled act
    obtain ⟨publishes, takes⟩ := directed cx m acc old found o op labelled act
    exact ⟨fun silent => (publishesNothing_iff labelled act).mp (publishes silent),
      fun blind => (takesNothing_iff labelled act).mp (takes blind)⟩
  · intro nothing cx m acc old found o op labelled act
    obtain ⟨publishes, takes⟩ := nothing cx m acc old found o op labelled act
    exact ⟨fun silent => (publishesNothing_iff labelled act).mpr (publishes silent),
      fun blind => (takesNothing_iff labelled act).mpr (takes blind)⟩

/-- A directed step acts as its directed event. -/
theorem directed_event {n : Nat} (nothing : NothingToMove env n) :
    (view env ((run env).state n)).step (directedEvents env n) =
      (view env ((run env).state n)).step (events env n) := by
  unfold directedEvents events
  cases labelled : (run env).label n with
  | none => rfl
  | some l =>
    cases l with
    | access cx m acc old found =>
      cases act : m.act with
      | atomic o op =>
        obtain ⟨publishes, takes⟩ := nothing cx m acc old found o op labelled act
        have whole : (Label.access cx m acc old found).event =
            .op cx.gid (some ((m.buf, m.index), o.isAcquire))
              (some ((m.buf, m.index), o.isRelease)) := by
          simp [Label.event, act, MemAct.ordering]
        simp only [Label.directedEvent, act, whole]
        cases stores : op.stores old with
        | false =>
          obtain ⟨relaxed, fenced⟩ := publishes stores
          have reads : op.reads = true := by cases op <;> first | rfl | cases stores
          rw [reads, relaxed]
          exact (VectorClock.step_publish_none (fun _ => Nat.zero_le _) fenced).symm
        | true =>
          cases reads : op.reads with
          | true => rfl
          | false =>
            have known := takes reads
            symm
            apply VectorClock.step_take_none
            · cases acquire : o.isAcquire with
              | false => exact fun _ => Nat.zero_le _
              | true =>
                rw [if_pos acquire] at known
                exact known
            · cases acquire : o.isAcquire with
              | false =>
                rw [if_neg (by simp [acquire])] at known
                exact known
              | true => exact fun _ => Nat.zero_le _
      | _ => simp only [Label.directedEvent, act]
    | _ => rfl

/-- A run of directed steps has the clocks of its directed history. -/
theorem view_directed {n : Nat} (nothing : ∀ k < n, NothingToMove env k) :
    view env ((run env).state n) = VectorClock.clocks (directedEvents env) n := by
  rw [view_run]
  refine (VectorClock.clocks_congr fun k lt => ?_).symm
  rw [← view_run]
  exact directed_event (nothing k lt)

/-- The directed history has the arrivals and departures of the run. -/
theorem directedEvents_barrier (env : Env V) {n t b k : Nat} :
    (directedEvents env n = .arrive t b k ↔ events env n = .arrive t b k) ∧
      (directedEvents env n = .depart t b k ↔ events env n = .depart t b k) := by
  unfold directedEvents events
  cases (run env).label n with
  | none => simp
  | some l =>
    cases l with
    | access cx m acc old found =>
      cases act : m.act <;> simp [Label.directedEvent, Label.event, act]
    | _ => simp [Label.directedEvent]

/-- Only atomics that write publish, and only atomics that read take on, exactly at the steps
whose state leaves the others nothing to move. In a run of such steps the clocks are those of
a history in which loads and failed exchanges never publish and stores never take. -/
theorem directed_exactly (env : Env V) :
    (∀ n, Directed env n ↔ NothingToMove env n) ∧
      ∀ n, (∀ k < n, NothingToMove env k) →
        view env ((run env).state n) = VectorClock.clocks (directedEvents env) n :=
  ⟨directed_iff, fun _ nothing => view_directed nothing⟩

/-! ### A load that publishes -/

def Label.loaded? : Label V → Option (Ctx × (Buf × Nat) × Ordering)
  | .access cx ⟨buf, index, _, .atomic o .load⟩ _ _ _ => some (cx, (buf, index), o)
  | _ => none

omit [BEq V] in
theorem Label.access_of_loaded {l : Label V} {cx : Ctx} {e : Buf × Nat} {o : Ordering}
    (loaded : Label.loaded? l = some (cx, e, o)) :
    ∃ m acc old found, l = .access cx m acc old found ∧ m.act = .atomic o .load ∧
      (m.buf, m.index) = e := by
  unfold Label.loaded? at loaded
  split at loaded
  next cx' buf index loc o' acc old found =>
    obtain ⟨rfl, rfl, rfl⟩ : cx' = cx ∧ (buf, index) = e ∧ o' = o := by simpa using loaded
    exact ⟨_, acc, old, found, rfl, rfl, rfl⟩
  · cases loaded

def polling : Env Nat :=
  trial .twoThreads
    (fun thread =>
      let load (o : Ordering) : Op Nat :=
        .mem ⟨.global 1, 0, ⟨"kernel.rs", 2, 1⟩, .atomic o .load⟩
      if thread = 0 then
        [.mem ⟨.global 0, 0, ⟨"kernel.rs", 1, 1⟩, .write 7⟩, load .seqCst]
      else [load .acquire])
    [0, 0, 0, 1, 1]

/-- The load publishes, and the other thread's load takes on the write. -/
theorem polling_undirected : ¬ Directed polling 3 ∧
    1 ≤ (((run polling).state 7).sync.clock 1).get (keyOf polling 0) := by
  refine ⟨fun directed => ?_, by set_option maxRecDepth 100000 in decide +kernel⟩
  have loaded : ((run polling).label 3).bind Label.loaded? =
      some (((run polling).state 3).ctx polling 0, (.global 1, 0), .seqCst) := by
    set_option maxRecDepth 100000 in decide +kernel
  obtain ⟨l, labelled, here⟩ := Option.bind_eq_some_iff.mp loaded
  obtain ⟨m, acc, old, found, rfl, act, element⟩ := Label.access_of_loaded here
  obtain ⟨publishes, -⟩ := directed _ _ _ _ _ _ _ labelled act
  have same := congrFun (publishes rfl) 0
  obtain ⟨buf, index⟩ := Prod.mk.inj element
  rw [buf, index] at same
  revert same
  change (((run polling).state 4).cellOf polling (.global 1) 0).release.get (keyOf polling 0) ≠
    (((run polling).state 3).cellOf polling (.global 1) 0).release.get (keyOf polling 0)
  set_option maxRecDepth 100000 in decide +kernel

end Launch

end Riri
