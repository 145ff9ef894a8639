import Riri.Source.Sync
import Riri.Theory.VectorClock

/-!
# Sequences of synchronisation operations

Calls of `SyncState` by any threads on any elements, without barriers, and what is ordered
before what among them: program order, and a release on an element before every later
acquire from it. The order is stated on the calls alone; the last section finds it in the
vector-clock library's events.
-/
namespace Riri

open VectorClock (Event)

/-- One call of a `SyncState` operation by the thread with this global index. -/
inductive SyncOp (E : Type) where
  | tick (gid : Nat)
  | fence (gid : Nat) (ordering : Ordering)
  | release (gid : Nat) (element : E) (ordering : Ordering)
  | acquire (gid : Nat) (element : E) (ordering : Ordering)
  deriving DecidableEq

/-- The thread making the call. -/
def SyncOp.gid {E : Type} : SyncOp E → Nat
  | .tick gid | .fence gid _ | .release gid _ _ | .acquire gid _ _ => gid

/-- The clocks of the threads and those of the elements. -/
structure SyncRun (E : Type) where
  sync : SyncState
  element : E → Clock

namespace SyncRun

variable {E : Type} [DecidableEq E] (keyOf : Nat → Key)

def apply (s : SyncRun E) : SyncOp E → SyncRun E
  | .tick gid => { s with sync := s.sync.tick gid (keyOf gid) }
  | .fence gid ordering => { s with sync := s.sync.fence gid ordering }
  | .release gid element ordering =>
      { s with
        element := Function.update s.element element
          (s.sync.release gid (s.element element) ordering) }
  | .acquire gid element ordering =>
      { s with sync := s.sync.acquire gid (s.element element) ordering }

/-- The clocks after the first `n` calls. -/
def after (ops : Nat → SyncOp E) : Nat → SyncRun E
  | 0 => ⟨SyncState.new, fun _ => ∅⟩
  | n + 1 => (after ops n).apply keyOf (ops n)

end SyncRun

namespace SyncOp

variable {E : Type}

section

variable (ops : Nat → SyncOp E)

def ReleaseFence (t k : Nat) : Prop := ∃ ordering, ops k = .fence t ordering ∧ ordering.isRelease

def AcquireFence (t k : Nat) : Prop := ∃ ordering, ops k = .fence t ordering ∧ ordering.isAcquire

/-- The release at `i` on `e` carries everything up to `k`: up to itself if its ordering is a
release, else up to its thread's latest release fence. -/
def Carries (i k : Nat) (e : E) : Prop :=
  ∃ t ordering, ops i = .release t e ordering ∧
    if ordering.isRelease then k = i
    else k < i ∧ ReleaseFence ops t k ∧ ∀ m, k < m → m < i → ¬ ReleaseFence ops t m

/-- The acquire at `j` from `e` is effective from `l` on: at once if its ordering is an
acquire, else from its thread's next acquire fence. -/
def EffectiveAt (j l : Nat) (e : E) : Prop :=
  ∃ t ordering, ops j = .acquire t e ordering ∧
    if ordering.isAcquire then l = j
    else j < l ∧ AcquireFence ops t l ∧ ∀ m, j < m → m < l → ¬ AcquireFence ops t m

/-- Program order, and a release before every later acquire from its element. -/
inductive Before : Nat → Nat → Prop where
  | program {i j : Nat} (lt : i < j) (same : (ops i).gid = (ops j).gid) : Before i j
  | sync {i j k l : Nat} {e : E} (release : Carries ops i k e) (acquire : EffectiveAt ops j l e)
      (lt : i < j) : Before k l

/-- `p` is, or is ordered before, one of the first `n` calls of `t`. -/
def ReachesThread (t n p : Nat) : Prop :=
  ∃ q < n, (ops q).gid = t ∧ Relation.ReflTransGen (Before ops) p q

end

/-- How many of the first `n` calls are ticks of `u`. -/
def ticks [DecidableEq E] (ops : Nat → SyncOp E) (u n : Nat) : Nat :=
  Nat.count (fun q => ops q = .tick u) n

/-- `p` is the `n`-th tick of `u`. -/
def NthTick [DecidableEq E] (ops : Nat → SyncOp E) (u n p : Nat) : Prop :=
  ops p = .tick u ∧ ticks ops u p + 1 = n

/-! ### The order of the calls as the library's -/

/-- A call as an event. The library counts every operation, ticks and others. -/
def event : SyncOp E → Event Nat E Empty
  | .tick gid => .op gid none none
  | .fence gid ordering => .fence gid ordering.isAcquire ordering.isRelease
  | .release gid element ordering => .op gid none (some (element, ordering.isRelease))
  | .acquire gid element ordering => .op gid (some (element, ordering.isAcquire)) none

/-- The events of a sequence of calls. -/
def events (ops : Nat → SyncOp E) (n : Nat) : Event Nat E Empty := (ops n).event

theorem event_thread (op : SyncOp E) : op.event.thread = some op.gid := by
  cases op <;> rfl

variable {ops : Nat → SyncOp E}

/-- There are no barriers to break a rule of. -/
theorem barriers : VectorClock.Barriers (events ops) where
  ordered {_ _ _ _ b} := b.elim
  complete {_ _ _ _ b} := b.elim
  arrived {_ _ b} := b.elim
  once {_ _ _ b} := b.elim
  earlier {_ _ b} := b.elim

theorem clean [DecidableEq E] (n : Nat) : VectorClock.Clean (events ops) n :=
  fun _ b => b.elim

theorem event_fence_release {t k : Nat} :
    (∃ acquire, events ops k = .fence t acquire true) ↔ ReleaseFence ops t k := by
  unfold ReleaseFence events
  cases ops k <;> simp [event]

theorem event_fence_acquire {t k : Nat} :
    (∃ release, events ops k = .fence t true release) ↔ AcquireFence ops t k := by
  unfold AcquireFence events
  cases ops k <;> simp [event]

/-- The latest time with a property before one that has come late enough. -/
theorem exists_latest {P : Nat → Prop} {k i : Nat} (lt : k < i) (here : P k) :
    ∃ l, k ≤ l ∧ l < i ∧ P l ∧ ∀ m, l < m → m < i → ¬ P m := by
  induction i, lt using Nat.le_induction with
  | base =>
    exact ⟨k, le_rfl, Nat.lt_succ_self k, here, fun m low high => absurd high (by omega)⟩
  | succ i lt ih =>
    by_cases last : P i
    · exact ⟨i, by omega, Nat.lt_succ_self i, last, fun m low high => absurd high (by omega)⟩
    · obtain ⟨l, low, high, found, none⟩ := ih
      refine ⟨l, low, by omega, found, fun m above below => ?_⟩
      rcases Nat.lt_succ_iff_lt_or_eq.mp below with before | rfl
      · exact none m above before
      · exact last

/-- The first time with a property after another. -/
theorem exists_next {P : Nat → Prop} {j l : Nat} (lt : j < l) (here : P l) :
    ∃ k, j < k ∧ k ≤ l ∧ P k ∧ ∀ m, j < m → m < k → ¬ P m := by
  classical
  have some_time : ∃ k, j < k ∧ P k := ⟨l, lt, here⟩
  obtain ⟨after, found⟩ := Nat.find_spec some_time
  refine ⟨Nat.find some_time, after, Nat.find_min' some_time ⟨lt, here⟩, found,
    fun m above below again => Nat.find_min some_time below ⟨above, again⟩⟩

theorem Carries.source {i k : Nat} {e : E} (carries : Carries ops i k e) :
    VectorClock.Source (events ops) i k e := by
  obtain ⟨t, ordering, call, from_⟩ := carries
  refine ⟨t, none, ordering.isRelease, by rw [events, call]; rfl, ?_⟩
  split at from_
  next releases => exact .inl ⟨from_, releases⟩
  next => exact .inr ⟨from_.1, event_fence_release.mpr from_.2.1⟩

theorem EffectiveAt.sink {j l : Nat} {e : E} (effective : EffectiveAt ops j l e) :
    VectorClock.Sink (events ops) j l e := by
  obtain ⟨t, ordering, call, at_⟩ := effective
  refine ⟨t, ordering.isAcquire, none, by rw [events, call]; rfl, ?_⟩
  split at at_
  next acquires => exact .inl ⟨at_, acquires⟩
  next => exact .inr ⟨at_.1, event_fence_acquire.mpr at_.2.1⟩

theorem Before.edge {i j : Nat} (before : Before ops i j) :
    VectorClock.Edge (events ops) i j := by
  cases before with
  | program lt same =>
    exact .program lt (event_thread (ops i)) ((event_thread (ops j)).trans (by rw [same]))
  | sync release acquire lt => exact .sync release.source acquire.sink lt

/-- A call reaches whatever its thread calls later. -/
theorem reaches_of_le {i j : Nat} (le : i ≤ j) (same : (ops i).gid = (ops j).gid) :
    Relation.ReflTransGen (Before ops) i j := by
  rcases Nat.eq_or_lt_of_le le with rfl | lt
  · exact .refl
  · exact .single (.program lt same)

/-- The library lets a relaxed release date from any earlier fence: all reach the latest. -/
theorem carries_of_source {i k : Nat} {e : E} (source : VectorClock.Source (events ops) i k e) :
    ∃ k', Carries ops i k' e ∧ Relation.ReflTransGen (Before ops) k k' := by
  obtain ⟨t, take, release, call, from_⟩ := source
  obtain ⟨ordering, here, rfl⟩ : ∃ ordering, ops i = .release t e ordering ∧
      ordering.isRelease = release := by
    unfold events at call
    cases op : ops i <;> simp_all [event]
  have own : (ops i).gid = t := by rw [here]; rfl
  by_cases releases : ordering.isRelease = true
  · refine ⟨i, ⟨t, ordering, here, by rw [if_pos releases]⟩, ?_⟩
    rcases from_ with ⟨rfl, -⟩ | ⟨lt, fence⟩
    · exact .refl
    · obtain ⟨_, fence, -⟩ := event_fence_release.mp fence
      exact reaches_of_le lt.le (by rw [fence, own]; rfl)
  · obtain ⟨lt, fence⟩ := from_.resolve_left fun both => releases both.2
    have fence := event_fence_release.mp fence
    obtain ⟨l, low, high, latest, none⟩ := exists_latest lt fence
    refine ⟨l, ⟨t, ordering, here, by rw [if_neg releases]; exact ⟨high, latest, none⟩⟩, ?_⟩
    obtain ⟨_, first, -⟩ := fence
    obtain ⟨_, last, -⟩ := latest
    exact reaches_of_le low (by rw [first, last]; rfl)

/-- Likewise a relaxed acquire becomes effective at the next fence before all later ones. -/
theorem effectiveAt_of_sink {j l : Nat} {e : E} (sink : VectorClock.Sink (events ops) j l e) :
    ∃ l', EffectiveAt ops j l' e ∧ Relation.ReflTransGen (Before ops) l' l := by
  obtain ⟨t, acquire, publish, call, at_⟩ := sink
  obtain ⟨ordering, here, rfl⟩ : ∃ ordering, ops j = .acquire t e ordering ∧
      ordering.isAcquire = acquire := by
    unfold events at call
    cases op : ops j <;> simp_all [event]
  have own : (ops j).gid = t := by rw [here]; rfl
  by_cases acquires : ordering.isAcquire = true
  · refine ⟨j, ⟨t, ordering, here, by rw [if_pos acquires]⟩, ?_⟩
    rcases at_ with ⟨rfl, -⟩ | ⟨lt, fence⟩
    · exact .refl
    · obtain ⟨_, fence, -⟩ := event_fence_acquire.mp fence
      exact reaches_of_le lt.le (by rw [fence, own]; rfl)
  · obtain ⟨lt, fence⟩ := at_.resolve_left fun both => acquires both.2
    have fence := event_fence_acquire.mp fence
    obtain ⟨k, low, high, next, none⟩ := exists_next lt fence
    refine ⟨k, ⟨t, ordering, here, by rw [if_neg acquires]; exact ⟨low, next, none⟩⟩, ?_⟩
    obtain ⟨_, last, -⟩ := fence
    obtain ⟨_, first, -⟩ := next
    exact reaches_of_le high (by rw [first, last]; rfl)

theorem reaches_of_edge {i j : Nat} (edge : VectorClock.Edge (events ops) i j) :
    Relation.ReflTransGen (Before ops) i j := by
  cases edge with
  | program lt first second =>
    refine .single (.program lt (Option.some.inj ?_))
    rw [← event_thread, ← event_thread]
    exact first.trans second.symm
  | @barrier _ _ _ _ b => exact b.elim
  | sync source sink lt =>
    obtain ⟨_, carries, first⟩ := carries_of_source source
    obtain ⟨_, effective, last⟩ := effectiveAt_of_sink sink
    exact (first.tail (.sync carries effective lt)).trans last

/-- The library's relation is the order of the calls. -/
theorem reaches_iff {i j : Nat} :
    VectorClock.Reaches (events ops) i j ↔ Relation.ReflTransGen (Before ops) i j := by
  constructor
  · intro path
    induction path with
    | refl => exact .refl
    | tail _ edge ih => exact ih.trans (reaches_of_edge edge)
  · exact Relation.ReflTransGen.mono (fun _ _ (before : Before ops _ _) => before.edge) i j

theorem known_iff {t n p : Nat} :
    VectorClock.Known (events ops) t n p ↔ ReachesThread ops t n p := by
  simp only [VectorClock.Known, ReachesThread, reaches_iff, events, event_thread, Option.some.injEq]

end SyncOp

end Riri
