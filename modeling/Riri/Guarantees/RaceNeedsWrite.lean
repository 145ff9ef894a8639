import Riri.Guarantees.NoFalseRaces

/-!
# A race and its write

A race is meant to need a write. The kind of a record tells a read from a write, but not an
atomic that stored from one that did not: a load, or an exchange that failed. Such an atomic
replaces the last write of its element, and is weighed against the readers as a write is. A
race between two operations that only read is raised exactly at these two places.
-/
namespace Riri

variable {V : Type} [BEq V]

/-- The operation could change the element it touched. Arithmetic that panics belongs to an
update. -/
def Label.changes : Label V → Bool
  | .access _ m _ old _ => m.act.stores old
  | .fault _ _ _ outside => !outside
  | _ => false

namespace Cell

/-- The last write is a write or an atomic, the readers are reads. -/
structure Sorted (c : Cell) : Prop where
  lastWrite : ∀ w, c.lastWrite = some w → w.kind ≠ .read
  readers : ∀ r ∈ c.readers, r.kind = .read

theorem Sorted.of_history {c d : Cell} (sorted : c.Sorted) (same : d.history = c.history) :
    d.Sorted := by
  obtain ⟨writes, reads⟩ := Prod.mk.inj same
  constructor
  · rw [writes]
    exact sorted.lastWrite
  · rw [reads]
    exact sorted.readers

/-- An access is filed under its kind. -/
theorem Sorted.record {c : Cell} (sorted : c.Sorted) (acc : Access) (now : Clock) :
    (c.record acc now).1.Sorted := by
  have of_write : acc.kind ≠ .read → (c.onWrite acc now).1.Sorted := by
    intro writes
    constructor
    · intro w found
      cases found
      exact writes
    · intro r member
      cases member
  unfold Cell.record
  split
  next reads =>
    refine ⟨sorted.lastWrite, fun r member => ?_⟩
    simp only [onRead] at member
    split at member
    · rcases List.mem_append.mp member with kept | new
      · exact sorted.readers r (List.mem_of_mem_filter kept)
      · rw [List.mem_singleton.mp new]
        exact reads
    · exact sorted.readers r (List.mem_of_mem_filter member)
  next writes => exact of_write (by rw [writes]; simp)
  next atomic => exact of_write (by rw [atomic]; simp)

/-- A read conflicts with the last write. -/
theorem record_read {c : Cell} {acc : Access} {now : Clock} (reads : acc.kind = .read) :
    (c.record acc now).2 = c.lastWrite.filter fun w => concurrent w acc now := by
  unfold Cell.record
  rw [reads]
  rfl

/-- An atomic conflicts with the last write, or else with a reader. -/
theorem record_atomic {c : Cell} {acc : Access} {now : Clock} (atomic : acc.kind = .atomic) :
    (c.record acc now).2 = (c.lastWrite.filter fun w => concurrent w acc now).or
      (c.readers.find? fun r => concurrent r acc now) := by
  unfold Cell.record
  rw [atomic]
  rfl

end Cell

namespace Launch

variable {env : Env V}

theorem sorted_run (env : Env V) (n : Nat) (e : Buf × Nat) :
    (((run env).state n).cellOf env e.1 e.2).Sorted := by
  induction n with
  | zero =>
    obtain ⟨writes, reads⟩ := Prod.mk.inj (history_init env e)
    constructor
    · intro w found
      rw [show (run env).state 0 = init env from rfl, writes] at found
      cases found
    · intro r member
      rw [show (run env).state 0 = init env from rfl, reads] at member
      cases member
  | succ n ih =>
    rcases history_run env n with ⟨l, -, step⟩ | ⟨-, stays⟩
    · by_cases here : ∃ cx acc, l.touched? = some (cx, e, acc)
      · obtain ⟨cx, acc, touched⟩ := here
        exact (ih.record acc _).of_history (step.touched touched)
      · push Not at here
        exact ih.of_history (step.untouched here)
    · rw [stays]
      exact ih

/-- What the kind of a record says of its operation. An atomic may or may not have stored. -/
theorem Resumed.changes {s s' : Launch V} {slot : Nat} {l : Label V} {cx : Ctx} {e : Buf × Nat}
    {acc : Access} (resumed : Resumed env s slot l s') (touched : l.touched? = some (cx, e, acc)) :
    (acc.kind = .write → l.changes = true) ∧ (acc.kind = .read → l.changes = false) := by
  cases resumed with
  | access m pc new resp inside updated =>
    obtain ⟨-, -, rfl⟩ : s.ctx env slot = cx ∧ (m.buf, m.index) = e ∧ _ = acc := by
      simpa [Label.touched?] using touched
    change (m.act.kind = .write → m.act.stores _ = true) ∧
      (m.act.kind = .read → m.act.stores _ = false)
    cases m.act <;> simp [MemAct.kind, MemAct.stores]
  | overflow m pc message inside updated =>
    obtain ⟨-, -, rfl⟩ : s.ctx env slot = cx ∧ (m.buf, m.index) = e ∧ _ = acc := by
      simpa [Label.touched?] using touched
    refine ⟨fun _ => rfl, fun reads => ?_⟩
    change m.act.kind = .read at reads
    cases act : m.act with
    | read =>
      rw [act] at updated
      cases updated
    | write | atomic | elemMut =>
      rw [act] at reads
      cases reads
  | _ => cases touched

/-- One record is left by one access. -/
theorem touched_unique {i j : Nat} {l l' : Label V} {cx cx' : Ctx} {e e' : Buf × Nat} {acc : Access}
    (labelled : (run env).label i = some l) (touched : l.touched? = some (cx, e, acc))
    (labelled' : (run env).label j = some l') (touched' : l'.touched? = some (cx', e', acc)) :
    i = j := by
  obtain ⟨block, thread, -, -, op⟩ := touched_at labelled touched
  obtain ⟨block', thread', -, -, op'⟩ := touched_at labelled' touched'
  obtain ⟨slot, -, rfl, -⟩ := label_slot labelled (Label.ctx?_of_touched touched)
  obtain ⟨slot', -, rfl, -⟩ := label_slot labelled' (Label.ctx?_of_touched touched')
  have same : (((run env).state i).ctx env slot).gid = (((run env).state j).ctx env slot').gid :=
    congrArg₂ (fun block thread => block * env.config.threadsPerBlock + thread)
      (block.symm.trans block') (thread.symm.trans thread')
  rw [same] at op
  exact op.unique op'

/-- Every race raised has an operation that could change the element on one of its sides. -/
def RacesNeedWrites (env : Env V) : Prop :=
  ∀ n sp ix first second, .dataRace sp ix first second ∈ ((run env).state n).raised →
    ∃ i j li lj cx cy buf, i < j ∧ j < n ∧ space env buf = sp ∧
      (run env).label i = some li ∧ li.touched? = some (cx, (buf, ix), first) ∧
      (run env).label j = some lj ∧ lj.touched? = some (cy, (buf, ix), second) ∧
      (li.changes = true ∨ lj.changes = true)

/-- The record kept in an element's history before step `n` is that of an operation that
stored nothing. -/
def Idle (env : Env V) (n : Nat) (e : Buf × Nat) (a : Access) : Prop :=
  ∃ i < n, ∃ l cx, (run env).label i = some l ∧ l.touched? = some (cx, e, a) ∧ l.changes = false

/-- What an access that stores nothing must find before it. A plain read: no concurrent last
write that stored nothing itself. An atomic: no concurrent reader, unless the last write is
concurrent as well and is named first. -/
structure Spared (env : Env V) (n : Nat) (cx : Ctx) (m : MemOp V) (acc : Access) : Prop where
  read : acc.kind = .read → ∀ w,
    (((run env).state n).cellOf env m.buf m.index).lastWrite = some w →
    concurrent w acc (((run env).state (n + 1)).sync.clock cx.gid) = true →
    ¬ Idle env n (m.buf, m.index) w
  atomic : acc.kind = .atomic → ∀ r ∈ (((run env).state n).cellOf env m.buf m.index).readers,
    concurrent r acc (((run env).state (n + 1)).sync.clock cx.gid) = true →
    ∃ w, (((run env).state n).cellOf env m.buf m.index).lastWrite = some w ∧
      concurrent w acc (((run env).state (n + 1)).sync.clock cx.gid) = true

/-- What an access that stores nothing meets could change the element, exactly if the access
is spared. -/
theorem conflict_changes_iff {n : Nat} {cx : Ctx} {m : MemOp V} {acc : Access} {old : V}
    {found : Option Access} (labelled : (run env).label n = some (.access cx m acc old found))
    (stores : m.act.stores old = false) :
    (∀ first, found = some first → ¬ Idle env n (m.buf, m.index) first) ↔
      Spared env n cx m acc := by
  obtain ⟨slot, -, -, -, -, resumed⟩ := label_slot labelled rfl
  have met := resumed.conflict
  have sorted := sorted_run env n (m.buf, m.index)
  have kinds := (resumed.changes (e := (m.buf, m.index)) rfl).1
  cases kind : acc.kind with
  | write =>
    have changes : m.act.stores old = true := kinds kind
    rw [stores] at changes
    cases changes
  | read =>
    rw [Cell.record_read kind] at met
    constructor
    · intro needs
      refine ⟨fun _ w last races => needs w ?_, fun atomic => ?_⟩
      · rw [met]
        exact Option.filter_eq_some_iff.mpr ⟨last, races⟩
      · rw [kind] at atomic
        cases atomic
    · intro spared first conflict
      rw [met] at conflict
      obtain ⟨last, races⟩ := Option.filter_eq_some_iff.mp conflict
      exact spared.read kind first last races
  | atomic =>
    rw [Cell.record_atomic kind] at met
    have not_idle : ∀ w, (((run env).state n).cellOf env m.buf m.index).lastWrite = some w →
        concurrent w acc (((run env).state (n + 1)).sync.clock cx.gid) = true →
        ¬ Idle env n (m.buf, m.index) w := by
      -- Two atomics are never concurrent, so this last write is a plain one.
      rintro w last races ⟨i, -, l, cy, labelled', touched', idle⟩
      obtain ⟨slot', -, -, -, -, resumed'⟩ :=
        label_slot labelled' (Label.ctx?_of_touched touched')
      have not_atomic := ((concurrent_iff w acc _).mp races).2.1
      have writes : w.kind = .write := by
        cases kind' : w.kind with
        | write => rfl
        | read => exact absurd kind' (sorted.lastWrite w last)
        | atomic => exact absurd ⟨kind', kind⟩ not_atomic
      rw [(resumed'.changes touched').1 writes] at idle
      cases idle
    constructor
    · intro needs
      refine ⟨fun read => ?_, fun _ r member races => ?_⟩
      · rw [kind] at read
        cases read
      · by_contra alone
        have no_write : ((((run env).state n).cellOf env m.buf m.index).lastWrite.filter fun w =>
            concurrent w acc (((run env).state (n + 1)).sync.clock cx.gid)) = none := by
          rw [Option.filter_eq_none_iff]
          intro w last races
          exact alone ⟨w, last, races⟩
        rw [no_write, Option.none_or] at met
        have some_reader : ((((run env).state n).cellOf env m.buf m.index).readers.find? fun r =>
            concurrent r acc (((run env).state (n + 1)).sync.clock cx.gid)).isSome := by
          rw [List.find?_isSome]
          exact ⟨r, member, races⟩
        obtain ⟨first, here⟩ := Option.isSome_iff_exists.mp some_reader
        have kept := List.mem_of_find?_eq_some here
        obtain ⟨i, lt, l, cy, labelled', touched'⟩ :=
          kept_accessed (e := (m.buf, m.index)) (a := first) (.inr kept)
        obtain ⟨slot', -, -, -, -, resumed'⟩ :=
          label_slot labelled' (Label.ctx?_of_touched touched')
        exact needs first (met.trans here) ⟨i, lt, l, cy, labelled', touched',
          (resumed'.changes touched').2 (sorted.readers first kept)⟩
    · intro spared first conflict
      rw [met] at conflict
      rcases Option.or_eq_some_iff.mp conflict with last | ⟨no_write, reader⟩
      · obtain ⟨last, races⟩ := Option.filter_eq_some_iff.mp last
        exact not_idle first last races
      · obtain ⟨w, last, races⟩ := spared.atomic kind first (List.mem_of_find?_eq_some reader)
          (List.find?_some (p := fun r =>
            concurrent r acc (((run env).state (n + 1)).sync.clock cx.gid)) reader)
        exact absurd races ((Option.filter_eq_none_iff.mp no_write) w last)

/-- Every race raised has a side that could change the element, exactly if every access that
stores nothing is spared. -/
theorem racesNeedWrites_iff (env : Env V) :
    RacesNeedWrites env ↔ ∀ n cx m acc old found,
      (run env).label n = some (.access cx m acc old found) → m.act.stores old = false →
        Spared env n cx m acc := by
  constructor
  · intro needs n cx m acc old found labelled stores
    rw [← conflict_changes_iff labelled stores]
    rintro first rfl ⟨i, -, l, cy, labelled', touched', idle⟩
    have raised : .dataRace (space env m.buf) m.index first acc ∈
        ((run env).state (n + 1)).raised :=
      raised_iff.mpr ⟨n, Nat.lt_succ_self n, cx, m, old, labelled, rfl, rfl⟩
    obtain ⟨i', j, li, lj, cx', cy', buf, -, -, -, first_at, first_touched, second_at,
      second_touched, changes⟩ := needs _ _ _ _ _ raised
    obtain rfl := touched_unique labelled' touched' first_at first_touched
    obtain rfl := touched_unique (e := (m.buf, m.index)) labelled rfl second_at second_touched
    rw [labelled'] at first_at
    rw [labelled] at second_at
    cases first_at
    cases second_at
    rcases changes with changes | changes
    · rw [idle] at changes
      cases changes
    · rw [show Label.changes (.access cx m acc old (some first)) = m.act.stores old from rfl,
        stores] at changes
      cases changes
  · intro spared n sp ix first second raised
    obtain ⟨j, lt, cy, m, old, labelled, rfl, rfl⟩ := raised_iff.mp raised
    obtain ⟨slot, -, -, -, -, resumed⟩ := label_slot labelled rfl
    obtain ⟨i, before, l, cx, labelled', touched'⟩ :=
      kept_accessed (e := (m.buf, m.index)) (Cell.conflict_kept resumed.conflict.symm).1
    refine ⟨i, j, l, _, cx, cy, m.buf, before, lt, rfl, labelled', touched', labelled, rfl, ?_⟩
    by_cases stores : m.act.stores old = true
    · exact .inr stores
    · rw [Bool.not_eq_true] at stores
      have met := (conflict_changes_iff labelled stores).mpr
        (spared j cy m second old _ labelled stores) first rfl
      by_contra neither
      push Not at neither
      exact met ⟨i, before, l, cx, labelled', touched', Bool.eq_false_iff.mpr neither.1⟩

def loadAndRead : Env Nat :=
  trial .twoThreads
    (fun thread => [.mem ⟨.global 0, 0, ⟨"kernel.rs", thread + 1, 1⟩,
      if thread = 0 then .atomic .relaxed .load else .read⟩]) [0, 0, 1, 1]

/-- The two are reported as a race. -/
theorem loadAndRead_race : ¬ RacesNeedWrites loadAndRead := by
  intro needs
  have raised : .dataRace (.global "data") 0
      ⟨0, 0, 0, 0, 0, 1, .atomic, ⟨"kernel.rs", 1, 1⟩⟩
      ⟨0, 1, 0, 0, 0, 1, .read, ⟨"kernel.rs", 2, 1⟩⟩ ∈ ((run loadAndRead).state 5).raised := by
    set_option maxRecDepth 100000 in decide +kernel
  obtain ⟨i, j, li, lj, cx, cy, buf, lt, lt', -, first_at, -, second_at, -, changes⟩ :=
    needs _ _ _ _ _ raised
  have quiet : ∀ k < 5, ((run loadAndRead).label k).all (fun l => !l.changes) = true := by
    set_option maxRecDepth 100000 in decide +kernel
  rcases changes with changes | changes
  · have still := quiet i (by omega)
    rw [first_at] at still
    simp [changes] at still
  · have still := quiet j lt'
    rw [second_at] at still
    simp [changes] at still

end Launch

end Riri
