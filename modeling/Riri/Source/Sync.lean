import Mathlib

/-!
# Release and acquire

Source: src/sync.rs. A `BTreeMap` is an association list with distinct keys; the order
of its entries is never observed. The per-thread and per-block vectors are total
functions of the index.
-/
namespace Riri

/-- How an atomic access or a fence orders the operations around it. -/
inductive Ordering where
  | relaxed | acquire | release | acqRel | seqCst
  deriving DecidableEq, Repr

namespace Ordering

def isAcquire : Ordering → Bool
  | .acquire | .acqRel | .seqCst => true
  | .relaxed | .release => false

def isRelease : Ordering → Bool
  | .release | .acqRel | .seqCst => true
  | .relaxed | .acquire => false

end Ordering

/-- A packed block and thread index. -/
abbrev Key := Nat

def key (block thread : Nat) : Key := block <<< 32 ||| thread

theorem key_eq (block : Nat) {thread : Nat} (h : thread < 2 ^ 32) :
    key block thread = block * 2 ^ 32 + thread := by
  rw [key, ← Nat.shiftLeft_add_eq_or_of_lt h, Nat.shiftLeft_eq]

theorem key_injective {b t b' t' : Nat} (h : t < 2 ^ 32) (h' : t' < 2 ^ 32)
    (he : key b t = key b' t') : b = b' ∧ t = t' := by
  have packed : b * 2 ^ 32 + t = b' * 2 ^ 32 + t' := by
    rw [← key_eq b h, ← key_eq b' h']
    exact he
  omega

/-- For each thread, the highest operation of it that the owner has seen. -/
abbrev Clock := AList fun _ : Key => Nat

namespace Clock

/-- Absent entries read as zero. -/
def get (c : Clock) (k : Key) : Nat := (c.lookup k).getD 0

def observe (c : Clock) (k : Key) (seq : Nat) : Clock :=
  let slot := c.get k
  if seq > slot then c.insert k seq else c.insert k slot

def join (c other : Clock) : Clock := other.foldl (fun c k seq => c.observe k seq) c

def isEmpty (c : Clock) : Bool := c.entries.isEmpty

@[simp] theorem get_empty (k : Key) : get ∅ k = 0 := by simp [get]

theorem observe_eq_insert (c : Clock) (k : Key) (seq : Nat) :
    c.observe k seq = c.insert k (max (c.get k) seq) := by
  unfold observe
  by_cases later : seq > c.get k
  · simp [later, Nat.max_eq_right (Nat.le_of_lt later)]
  · simp [later, Nat.max_eq_left (Nat.le_of_not_lt later)]

theorem get_observe (c : Clock) (k : Key) (seq : Nat) (k' : Key) :
    (c.observe k seq).get k' = if k' = k then max (c.get k) seq else c.get k' := by
  rw [observe_eq_insert]
  by_cases hk : k' = k
  · subst hk
    simp [get]
  · simp [get, hk, AList.lookup_insert_ne hk]

private theorem get_foldl_observe (entries : List (Sigma fun _ : Key => Nat)) (c : Clock)
    (distinct : entries.NodupKeys) (k : Key) :
    (entries.foldl (fun c e => c.observe e.1 e.2) c).get k =
      max (c.get k) ((entries.dlookup k).getD 0) := by
  induction entries generalizing c with
  | nil => simp
  | cons e rest ih =>
    obtain ⟨k', seq⟩ := e
    have split := List.nodupKeys_cons.mp distinct
    rw [List.foldl_cons, ih _ split.2, get_observe]
    by_cases hk : k = k'
    · subst hk
      have absent : rest.dlookup k = none := List.dlookup_eq_none.mpr split.1
      simp [absent]
    · have skipped : List.dlookup k (⟨k', seq⟩ :: rest) = rest.dlookup k :=
        List.dlookup_cons_ne rest ⟨k', seq⟩ hk
      simp [hk, skipped]

/-- `join` takes the later of each entry. -/
@[simp] theorem get_join (c other : Clock) (k : Key) :
    (c.join other).get k = max (c.get k) (other.get k) :=
  get_foldl_observe other.entries c other.nodupKeys k

theorem get_of_isEmpty {c : Clock} (h : c.isEmpty) (k : Key) : c.get k = 0 := by
  have none_left : c.entries = [] := by simpa [isEmpty] using h
  have is_empty : c = ∅ := AList.ext none_left
  rw [is_empty, get_empty]

end Clock

/-- Per-thread clocks for a launch. -/
structure SyncState where
  seq : Nat → Nat
  clock : Nat → Clock
  fenceRelease : Nat → Clock
  fenceAcquire : Nat → Clock
  block : Nat → Clock

namespace SyncState

def new : SyncState where
  seq := fun _ => 0
  clock := fun _ => ∅
  fenceRelease := fun _ => ∅
  fenceAcquire := fun _ => ∅
  block := fun _ => ∅

def barrierArrive (s : SyncState) (gid block : Nat) : SyncState :=
  { s with block := Function.update s.block block ((s.block block).join (s.clock gid)) }

def barrierDepart (s : SyncState) (gid block : Nat) : SyncState :=
  { s with clock := Function.update s.clock gid ((s.clock gid).join (s.block block)) }

/-- Counts one operation; the number it got is `(s.tick gid k).seq gid`. -/
def tick (s : SyncState) (gid : Nat) (k : Key) : SyncState :=
  let seq := s.seq gid + 1
  { s with
    seq := Function.update s.seq gid seq
    clock := Function.update s.clock gid ((s.clock gid).observe k seq) }

/-- What `target` holds after a release; the thread's own state is only read. -/
def release (s : SyncState) (gid : Nat) (target : Clock) (ordering : Ordering) : Clock :=
  let target := if ordering.isRelease then target.join (s.clock gid) else target
  if !(s.fenceRelease gid).isEmpty then target.join (s.fenceRelease gid) else target

def acquire (s : SyncState) (gid : Nat) (source : Clock) (ordering : Ordering) : SyncState :=
  if source.isEmpty then s
  else if ordering.isAcquire then
    { s with clock := Function.update s.clock gid ((s.clock gid).join source) }
  else
    { s with fenceAcquire := Function.update s.fenceAcquire gid ((s.fenceAcquire gid).join source) }

def fence (s : SyncState) (gid : Nat) (ordering : Ordering) : SyncState :=
  let s := if ordering.isAcquire then
      { s with
        fenceAcquire := Function.update s.fenceAcquire gid ∅
        clock := Function.update s.clock gid ((s.clock gid).join (s.fenceAcquire gid)) }
    else s
  if ordering.isRelease then
    { s with fenceRelease := Function.update s.fenceRelease gid (s.clock gid) }
  else s

theorem get_release (s : SyncState) (gid : Nat) (target : Clock) (ordering : Ordering) (k : Key) :
    (s.release gid target ordering).get k =
      max (target.get k) (max (if ordering.isRelease then (s.clock gid).get k else 0)
        ((s.fenceRelease gid).get k)) := by
  unfold release
  by_cases empty : (s.fenceRelease gid).isEmpty
  · have zero := Clock.get_of_isEmpty empty k
    by_cases publishes : ordering.isRelease <;> simp [empty, publishes, zero]
  · by_cases publishes : ordering.isRelease <;> simp [empty, publishes, max_assoc]

/-- An acquire joins the source into the thread's clock, a relaxed one into what the thread's
next acquire fence takes on. -/
theorem get_acquire_clock (s : SyncState) (gid : Nat) (source : Clock) (ordering : Ordering)
    (t : Nat) (k : Key) :
    ((s.acquire gid source ordering).clock t).get k =
      if t = gid then max ((s.clock gid).get k) (if ordering.isAcquire then source.get k else 0)
      else (s.clock t).get k := by
  unfold acquire
  by_cases empty : source.isEmpty
  · by_cases same : t = gid <;> simp [empty, same, Clock.get_of_isEmpty empty]
  · by_cases same : t = gid
    · subst same
      cases ordering.isAcquire <;> simp [empty]
    · cases ordering.isAcquire <;> simp [empty, same]

theorem get_acquire_fence (s : SyncState) (gid : Nat) (source : Clock) (ordering : Ordering)
    (t : Nat) (k : Key) :
    ((s.acquire gid source ordering).fenceAcquire t).get k =
      if t = gid then max ((s.fenceAcquire gid).get k)
        (if ordering.isAcquire then 0 else source.get k)
      else (s.fenceAcquire t).get k := by
  unfold acquire
  by_cases empty : source.isEmpty
  · by_cases same : t = gid <;> simp [empty, same, Clock.get_of_isEmpty empty]
  · by_cases same : t = gid
    · subst same
      cases ordering.isAcquire <;> simp [empty]
    · cases ordering.isAcquire <;> simp [empty, same]

@[simp] theorem acquire_seq (s : SyncState) (gid : Nat) (source : Clock) (ordering : Ordering) :
    (s.acquire gid source ordering).seq = s.seq := by
  unfold acquire
  cases source.isEmpty <;> cases ordering.isAcquire <;> rfl

@[simp] theorem acquire_fenceRelease (s : SyncState) (gid : Nat) (source : Clock)
    (ordering : Ordering) : (s.acquire gid source ordering).fenceRelease = s.fenceRelease := by
  unfold acquire
  cases source.isEmpty <;> cases ordering.isAcquire <;> rfl

/-- The acquire half of a fence comes first. -/
theorem get_fence_clock (s : SyncState) (gid : Nat) (ordering : Ordering) (t : Nat) (k : Key) :
    ((s.fence gid ordering).clock t).get k =
      if t = gid ∧ ordering.isAcquire then max ((s.clock t).get k) ((s.fenceAcquire t).get k)
      else (s.clock t).get k := by
  unfold fence
  by_cases same : t = gid
  · subst same
    cases ordering.isAcquire <;> cases ordering.isRelease <;> simp
  · cases ordering.isAcquire <;> cases ordering.isRelease <;> simp [same]

/-- The release half takes its snapshot after it. -/
theorem fence_fenceRelease (s : SyncState) (gid : Nat) (ordering : Ordering) (t : Nat) :
    (s.fence gid ordering).fenceRelease t =
      if t = gid ∧ ordering.isRelease then (s.fence gid ordering).clock t
      else s.fenceRelease t := by
  unfold fence
  by_cases same : t = gid
  · subst same
    cases ordering.isAcquire <;> cases ordering.isRelease <;> simp
  · cases ordering.isAcquire <;> cases ordering.isRelease <;> simp [same]

theorem fence_fenceAcquire (s : SyncState) (gid : Nat) (ordering : Ordering) (t : Nat) :
    (s.fence gid ordering).fenceAcquire t =
      if t = gid ∧ ordering.isAcquire then ∅ else s.fenceAcquire t := by
  unfold fence
  by_cases same : t = gid
  · subst same
    cases ordering.isAcquire <;> cases ordering.isRelease <;> simp
  · cases ordering.isAcquire <;> cases ordering.isRelease <;> simp [same]

@[simp] theorem fence_seq (s : SyncState) (gid : Nat) (ordering : Ordering) :
    (s.fence gid ordering).seq = s.seq := by
  unfold fence
  cases ordering.isAcquire <;> cases ordering.isRelease <;> rfl

end SyncState

end Riri
