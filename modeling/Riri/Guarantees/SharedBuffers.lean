import Riri.Run.Sharing
import Riri.Shadow.History

/-!
# Launches that share a buffer

A launch that finds another's id in a buffer resets every element of it, whether it is new to the
buffer or comes back. What a launch finds out about an element is undisturbed as long as it does
not come back to it after another launch used the buffer; when it does, its own accesses from
before are forgotten.
-/
namespace Riri

variable {V : Type}

structure Cell.Alike (c d : Cell) : Prop where
  lastWrite : c.lastWrite = d.lastWrite
  readers : c.readers = d.readers
  release : c.release = d.release

theorem Cell.Alike.trans {c d e : Cell} (first : c.Alike d) (second : d.Alike e) : c.Alike e :=
  ⟨first.lastWrite.trans second.lastWrite, first.readers.trans second.readers,
    first.release.trans second.release⟩

theorem Cell.Alike.symm {c d : Cell} (alike : c.Alike d) : d.Alike c :=
  ⟨alike.lastWrite.symm, alike.readers.symm, alike.release.symm⟩

def Cell.Fresh (c : Cell) : Prop := c.Alike Cell.default

namespace Use

variable (u : Use V) (sync : SyncState) {c d : Cell}

theorem ticked_congr (alike : c.Alike d) : u.ticked sync c = u.ticked sync d := by
  unfold ticked acquired
  rw [alike.release]

theorem access_congr (alike : c.Alike d) : u.access sync c = u.access sync d := by
  unfold access
  rw [u.ticked_congr sync alike]

theorem recorded_congr (alike : c.Alike d) :
    (u.recorded sync c).1.Alike (u.recorded sync d).1 ∧
      (u.recorded sync c).2 = (u.recorded sync d).2 := by
  have same : c.history = d.history := Prod.ext alike.lastWrite alike.readers
  unfold recorded
  rw [u.access_congr sync alike, u.ticked_congr sync alike]
  obtain ⟨history, conflict⟩ := Cell.record_congr same (u.access sync d)
    ((u.ticked sync d).clock u.cx.gid)
  refine ⟨⟨congrArg Prod.fst history, congrArg Prod.snd history, ?_⟩, conflict⟩
  rw [Launch.record_release, Launch.record_release, alike.release]

theorem published_congr (alike : c.Alike d) : (u.published sync c).Alike (u.published sync d) := by
  have recorded := (u.recorded_congr sync alike).1
  unfold published
  rw [u.ticked_congr sync alike]
  cases u.op.act.ordering with
  | none => exact recorded
  | some ordering => exact ⟨recorded.lastWrite, recorded.readers, by rw [recorded.release]⟩

theorem races_congr (alike : c.Alike d) (space : Buf → MemSpace) :
    u.races sync c space = u.races sync d space := by
  unfold races
  rw [(u.recorded_congr sync alike).2, u.access_congr sync alike]

end Use

/-! ### What one operation does to what a launch sees -/

namespace HostState

variable {s : HostState} {launch other : Nat} {op : HostOp V}

/-- Another launch's access to a buffer leaves no history in it. -/
theorem fresh_of_touches {id i : Nat} (ne : other ≠ launch) (touches : op.touches id = true) :
    ((s.apply other op).cell launch (.global id) i).Fresh := by
  cases op with
  | use u =>
    have buf : u.op.buf = .global id := by simpa [HostOp.touches, HostOp.element] using touches
    obtain ⟨inst, mem, launched, -, -⟩ := s.used_mem other u
    rw [buf] at mem
    have now : ((s.used other u).mem (.global id)) = inst := by
      rw [mem]
      exact Function.update_self ..
    simp only [apply, cell, HostState.inst, Buf.place, now, Instrumented.forLaunch, launched, ne,
      ne_eq, not_false_eq_true, if_true]
    exact ⟨rfl, rfl, rfl⟩
  | fence | arrive | depart | idle => simp [HostOp.touches, HostOp.element] at touches

/-- Any other operation of it changes nothing this launch sees. -/
theorem cell_of_not_touches {buf : Buf} {i : Nat} (ne : other ≠ launch)
    (not_touches : ∀ id, buf = .global id → op.touches id = false) :
    (s.apply other op).cell launch buf i = s.cell launch buf i := by
  cases op with
  | use u =>
    obtain ⟨inst, mem, -⟩ := s.used_mem other u
    have away : buf.place launch ≠ u.op.buf.place other := by
      intro same
      obtain ⟨rfl, id, global⟩ := Buf.place_of_ne ne same.symm
      have not_here := not_touches id global
      simp [HostOp.touches, HostOp.element, global] at not_here
    simp only [apply, cell, HostState.inst, mem, Function.update_of_ne away]
  | fence | arrive | depart | idle => rfl

/-- A launch's own operation changes the element it names. -/
theorem cell_of_own (s : HostState) (launch : Nat) (op : HostOp V) (buf : Buf) (i : Nat) :
    (∃ u, op = .use u ∧ op.element = some (buf, i) ∧ i < (s.mem (buf.place launch)).len ∧
        (s.apply launch op).cell launch buf i =
          u.published (s.sync launch) (s.cell launch buf i)) ∨
      (¬ (op.element = some (buf, i) ∧ i < (s.mem (buf.place launch)).len) ∧
        (s.apply launch op).cell launch buf i = s.cell launch buf i) := by
  cases op with
  | use u =>
    obtain ⟨inst, mem, launched, len, shadow⟩ := s.used_mem launch u
    by_cases buffer : u.op.buf = buf
    · subst buffer
      have now : (s.used launch u).cell launch u.op.buf i = inst.shadow i := by
        simp only [cell, HostState.inst, mem, Function.update_self,
          Instrumented.forLaunch_of_touched _ launched]
      by_cases here : u.op.index = i ∧ i < (s.mem (u.op.buf.place launch)).len
      · refine .inl ⟨u, rfl, by rw [HostOp.element, here.1], here.2, ?_⟩
        rw [apply, now, shadow, if_pos here]
      · refine .inr ⟨fun both => here ⟨by simpa [HostOp.element] using both.1, both.2⟩, ?_⟩
        rw [apply, now, shadow, if_neg here]
    · have elsewhere : ¬ (u.op.buf = buf ∧ u.op.index = i) := fun both => buffer both.1
      refine .inr ⟨fun both => elsewhere (by simpa [HostOp.element] using both.1), ?_⟩
      have away : buf.place launch ≠ u.op.buf.place launch := fun same =>
        buffer (Buf.place_injective launch same).symm
      simp only [apply, cell, HostState.inst, mem, Function.update_of_ne away]
  | fence | arrive | depart | idle =>
    exact .inr ⟨fun both => by simp [HostOp.element] at both, rfl⟩

end HostState

/-! ### Runs -/

/-- Whose turn it is and which element is used, if any. -/
abbrev Pattern := Nat → Nat × Option (Buf × Nat)

namespace Pattern

variable (p : Pattern) (m : Place → Instrumented Unit) (launch : Nat)

def Uses (buf : Buf) (i n : Nat) : Prop :=
  (p n).1 = launch ∧ (p n).2 = some (buf, i) ∧ i < (m (buf.place launch)).len

def Intrudes (id n : Nat) : Prop := (p n).1 ≠ launch ∧ ∃ i, (p n).2 = some (.global id, i)

/-- The launch used the element, and then another launch the buffer. -/
def Lost (id n i : Nat) : Prop :=
  ∃ k j, k < j ∧ j < n ∧ p.Uses m launch (.global id) i k ∧ p.Intrudes launch id j

/-- A launch comes back to an element it has lost. -/
def Returns (id n : Nat) : Prop :=
  ∃ i, p.Uses m (p n).1 (.global id) i n ∧ p.Lost m (p n).1 id n i

end Pattern

namespace HostRun

variable (h : HostRun V) (m : Place → Instrumented Unit)

def pattern : Pattern := fun n => ((h n).1, (h n).2.element)

def Made (buf : Buf) (i n : Nat) (acc : Access) : Prop :=
  ∃ u, (h n).2 = .use u ∧ h.pattern.Uses m (h n).1 buf i n ∧
    acc = u.access ((h.after m n).sync (h n).1) ((h.after m n).cell (h n).1 buf i)

/-- Each launch finds the races on the buffer it finds alone, both sides of them are accesses it
made, and a flag once set stays set. -/
structure Undisturbed (space : Buf → MemSpace) (id : Nat) : Prop where
  alike : ∀ n i, (h n).2.element = some (.global id, i) →
    h.races m space n = (h.alone (h n).1 id).races m space n
  own : ∀ n i, (h n).2.element = some (.global id, i) → ∀ place index first second,
    .dataRace place index first second ∈ h.races m space n →
      h.Made m (.global id) i n second ∧
        ∃ k < n, (h k).1 = (h n).1 ∧ h.Made m (.global id) i k first
  kept : ∀ k n i, k ≤ n → (((h.after m k).mem (.global id)).shadow i).init = true →
    (((h.after m n).mem (.global id)).shadow i).init = true

variable {h m} {launch id n : Nat} {space : Buf → MemSpace}

@[simp] theorem after_len (h : HostRun V) (m : Place → Instrumented Unit) (n : Nat) (place : Place) :
    ((h.after m n).mem place).len = (m place).len := by
  induction n with
  | zero => rfl
  | succ n ih => rw [after, HostState.apply_len, ih]

theorem touches_iff {op : HostOp V} :
    op.touches id = true ↔ ∃ i, op.element = some (.global id, i) := by
  unfold HostOp.touches
  cases op.element with
  | none => simp
  | some e =>
    obtain ⟨buf, i⟩ := e
    simp

/-- The cell of an element after one more operation. -/
theorem cell_succ (h : HostRun V) (m : Place → Instrumented Unit) (launch : Nat) (buf : Buf)
    (i n : Nat) :
    (∃ u, (h n).2 = .use u ∧ h.pattern.Uses m launch buf i n ∧
        (h.after m (n + 1)).cell launch buf i =
          u.published ((h.after m n).sync launch) ((h.after m n).cell launch buf i)) ∨
      (¬ h.pattern.Uses m launch buf i n ∧
        (((∃ id, buf = .global id ∧ h.pattern.Intrudes launch id n) ∧
            ((h.after m (n + 1)).cell launch buf i).Fresh) ∨
          ((∀ id, buf = .global id → ¬ h.pattern.Intrudes launch id n) ∧
            (h.after m (n + 1)).cell launch buf i = (h.after m n).cell launch buf i))) := by
  rw [after]
  by_cases mine : (h n).1 = launch
  · subst mine
    rcases (h.after m n).cell_of_own (h n).1 (h n).2 buf i with
      ⟨u, use, element, inside, cell⟩ | ⟨away, cell⟩
    · exact .inl ⟨u, use, ⟨rfl, element, by simpa using inside⟩, cell⟩
    · refine .inr ⟨fun uses => away ⟨uses.2.1, by simpa using uses.2.2⟩, .inr ⟨?_, cell⟩⟩
      exact fun id _ intrudes => intrudes.1 rfl
  · refine .inr ⟨fun uses => mine uses.1, ?_⟩
    by_cases here : ∃ id, buf = .global id ∧ h.pattern.Intrudes launch id n
    · obtain ⟨id, rfl, intrudes⟩ := here
      exact .inl ⟨⟨id, rfl, intrudes⟩,
        HostState.fresh_of_touches mine (touches_iff.mpr intrudes.2)⟩
    · push Not at here
      refine .inr ⟨here, HostState.cell_of_not_touches mine fun id global => ?_⟩
      have quiet := here id global
      by_contra touches
      exact quiet ⟨mine, touches_iff.mp (by simpa using touches)⟩

/-- An element without a history has none until the launch uses it. -/
theorem fresh_of_unused {buf : Buf} {i k : Nat} (le : k ≤ n)
    (fresh : ((h.after m k).cell launch buf i).Fresh)
    (unused : ∀ j, k ≤ j → j < n → ¬ h.pattern.Uses m launch buf i j) :
    ((h.after m n).cell launch buf i).Fresh := by
  induction n, le using Nat.le_induction with
  | base => exact fresh
  | succ n le ih =>
    have before := ih fun j low high => unused j low (by omega)
    rcases h.cell_succ m launch buf i n with ⟨-, -, uses, -⟩ | ⟨-, ⟨-, now⟩ | ⟨-, same⟩⟩
    · exact absurd uses (unused n le (Nat.lt_succ_self n))
    · exact now
    · rw [same]
      exact before

/-- A launch knows nothing of an array before it uses it. -/
theorem fresh_zero (fresh : ∀ buf : Buf, (m (buf.place launch)).launchId ≠ launch) (buf : Buf) (i : Nat) :
    ((h.after m 0).cell launch buf i).Fresh := by
  have reset := fresh buf
  simp only [after, HostState.cell, HostState.inst, Instrumented.forLaunch, ne_eq, reset,
    not_false_eq_true, if_true]
  cases buf <;> exact ⟨rfl, rfl, rfl⟩

/-! ### The run without the others -/

/-- Two states in which a launch has the same clocks and, of every element it has not lost, the same
history. -/
structure Mirrors (launch id : Nat) (lost : Nat → Prop) (s t : HostState) : Prop where
  sync : s.sync launch = t.sync launch
  len : ∀ place, (s.mem place).len = (t.mem place).len
  cells : ∀ buf i, (buf = .global id → ¬ lost i) → (s.cell launch buf i).Alike (t.cell launch buf i)

/-- The element an operation of the launch names is not lost. -/
def Keeps (id : Nat) (lost : Nat → Prop) (s : HostState) (op : HostOp V) : Prop :=
  ∀ i, op.element = some (.global id, i) → i < (s.mem (.global id)).len → ¬ lost i

variable {lost : Nat → Prop} {s t : HostState} {op : HostOp V}

/-- The element of an access that reaches it. -/
theorem Mirrors.alike_of_use (mirrors : Mirrors launch id lost s t) {u : Use V}
    (keeps : Keeps id lost s (.use u))
    (inside : u.op.index < (s.mem (u.op.buf.place launch)).len) :
    (s.cell launch u.op.buf u.op.index).Alike (t.cell launch u.op.buf u.op.index) := by
  refine mirrors.cells _ _ fun global => keeps _ (by rw [HostOp.element, global]) ?_
  rw [global] at inside
  exact inside

theorem Mirrors.races_eq (mirrors : Mirrors launch id lost s t) (keeps : Keeps id lost s op) :
    s.races launch space op = t.races launch space op := by
  cases op with
  | use u =>
    simp only [HostState.races, HostState.inst_len, ← mirrors.len]
    split
    · rfl
    next inside =>
      rw [mirrors.sync]
      exact u.races_congr _ (mirrors.alike_of_use keeps (Nat.lt_of_not_le inside)) space
  | fence | arrive | depart | idle => rfl

theorem Mirrors.sync_own (mirrors : Mirrors launch id lost s t) (keeps : Keeps id lost s op) :
    (s.apply launch op).sync launch = (t.apply launch op).sync launch := by
  cases op with
  | use u =>
    simp only [HostState.apply, HostState.used, HostState.inst_len, ← mirrors.len]
    split
    · simp [HostState.withSync, mirrors.sync]
    next inside =>
      have ticked := u.ticked_congr (s.sync launch)
        (mirrors.alike_of_use keeps (Nat.lt_of_not_le inside))
      simp only [HostState.withSync, Function.update_self]
      rw [← mirrors.sync]
      exact ticked
  | fence | arrive | depart => simp [HostState.apply, HostState.withSync, mirrors.sync]
  | idle => exact mirrors.sync

theorem Mirrors.own {lost' : Nat → Prop} (mirrors : Mirrors launch id lost s t)
    (keeps : Keeps id lost s op) (grows : ∀ i, lost i → lost' i) :
    Mirrors launch id lost' (s.apply launch op) (t.apply launch op) := by
  refine ⟨mirrors.sync_own keeps, fun place => ?_, fun buf i kept => ?_⟩
  · rw [HostState.apply_len, HostState.apply_len, mirrors.len]
  · have alike := mirrors.cells buf i fun global lost => kept global (grows i lost)
    rcases s.cell_of_own launch op buf i with ⟨u, use, element, inside, mine⟩ | ⟨away, mine⟩ <;>
      rcases t.cell_of_own launch op buf i with ⟨u', use', element', inside', theirs⟩ | ⟨away', theirs⟩
    · obtain rfl : u = u' := by rw [use] at use'; exact HostOp.use.inj use'
      rw [mine, theirs, ← mirrors.sync]
      exact u.published_congr _ alike
    · exact absurd ⟨element, mirrors.len _ ▸ inside⟩ away'
    · exact absurd ⟨element', (mirrors.len _).symm ▸ inside'⟩ away
    · rw [mine, theirs]
      exact alike

/-- What another launch does elsewhere, both see. -/
theorem Mirrors.foreign {other : Nat} (mirrors : Mirrors launch id lost s t) (ne : other ≠ launch)
    (op : HostOp V) : Mirrors launch id lost (s.apply other op) (t.apply other op) := by
  refine ⟨?_, fun place => ?_, fun buf i kept => ?_⟩
  · rw [HostState.apply_sync_of_ne ne, HostState.apply_sync_of_ne ne, mirrors.sync]
  · rw [HostState.apply_len, HostState.apply_len, mirrors.len]
  · by_cases here : ∃ id', buf = .global id' ∧ op.touches id' = true
    · obtain ⟨id', rfl, touches⟩ := here
      have mine := s.fresh_of_touches (i := i) ne touches
      exact mine.trans (t.fresh_of_touches (i := i) ne touches).symm
    · have quiet : ∀ id', buf = .global id' → op.touches id' = false := by
        intro id' global
        by_contra touches
        exact here ⟨id', global, by simpa using touches⟩
      rw [HostState.cell_of_not_touches ne quiet, HostState.cell_of_not_touches ne quiet]
      exact mirrors.cells buf i kept

/-- What it does to the buffer, the launch alone does not see. -/
theorem Mirrors.intrude {other : Nat} {lost' : Nat → Prop} (mirrors : Mirrors launch id lost s t)
    (ne : other ≠ launch) (touches : op.touches id = true)
    (unused : ∀ i, ¬ lost' i → (t.cell launch (.global id) i).Fresh) :
    Mirrors launch id lost' (s.apply other op) t := by
  refine ⟨?_, fun place => ?_, fun buf i kept => ?_⟩
  · rw [HostState.apply_sync_of_ne ne, mirrors.sync]
  · rw [HostState.apply_len, mirrors.len]
  · by_cases here : buf = .global id
    · subst here
      exact (s.fresh_of_touches ne touches).trans (unused i (kept rfl)).symm
    · have quiet : ∀ id', buf = .global id' → op.touches id' = false := by
        intro id' global
        by_contra both
        obtain ⟨j, first⟩ := touches_iff.mp touches
        obtain ⟨j', second⟩ := touches_iff.mp (Bool.eq_true_of_not_eq_false both)
        rw [first] at second
        exact here (by rw [global, (Prod.mk.inj (Option.some.inj second)).1])
      rw [HostState.cell_of_not_touches ne quiet]
      exact mirrors.cells buf i fun global => absurd global here

theorem alone_own (mine : (h n).1 = launch) : h.alone launch id n = h n := by
  unfold alone
  exact if_neg fun both => both.1 mine

theorem alone_foreign (ne : (h n).1 ≠ launch) :
    h.alone launch id n = if (h n).2.touches id then ((h n).1, .idle) else h n := by
  unfold alone
  simp [ne]

theorem uses_alone {buf : Buf} {i : Nat} :
    (h.alone launch id).pattern.Uses m launch buf i n ↔ h.pattern.Uses m launch buf i n := by
  by_cases mine : (h n).1 = launch
  · simp only [Pattern.Uses, pattern, alone_own mine]
  · have away : (h.alone launch id n).1 ≠ launch := by
      rw [alone_foreign mine]
      split <;> exact mine
    simp only [Pattern.Uses, pattern, mine, away, false_and]

theorem Lost.succ {i : Nat} (lost : h.pattern.Lost m launch id n i) :
    h.pattern.Lost m launch id (n + 1) i := by
  obtain ⟨k, j, first, second, uses, intrudes⟩ := lost
  exact ⟨k, j, first, by omega, uses, intrudes⟩

/-- A launch that does not come back finds what it finds alone. -/
theorem mirrors_alone (fresh : ∀ buf : Buf, (m (buf.place launch)).launchId ≠ launch) (n : Nat)
    (quiet : ∀ j < n, (h j).1 = launch → ¬ h.pattern.Returns m id j) :
    Mirrors launch id (h.pattern.Lost m launch id n) (h.after m n)
      ((h.alone launch id).after m n) := by
  induction n with
  | zero =>
    exact ⟨rfl, fun _ => rfl, fun buf i _ => ⟨rfl, rfl, rfl⟩⟩
  | succ n ih =>
    have mirrors := ih fun j lt => quiet j (by omega)
    simp only [after]
    by_cases mine : (h n).1 = launch
    · rw [alone_own mine, mine]
      refine mirrors.own (fun i element inside lost => ?_) fun i => Lost.succ
      subst mine
      have reached : i < (m (.global id)).len := by simpa using inside
      exact quiet n (Nat.lt_succ_self n) rfl ⟨i, ⟨rfl, element, reached⟩, lost⟩
    · rw [alone_foreign mine]
      by_cases touches : (h n).2.touches id = true
      · rw [if_pos touches]
        refine mirrors.intrude mine touches fun i kept => ?_
        refine fresh_of_unused (Nat.zero_le n) (fresh_zero fresh (.global id) i) fun k _ lt uses => ?_
        exact kept ⟨k, n, lt, Nat.lt_succ_self n, uses_alone.mp uses, mine, touches_iff.mp touches⟩
      · rw [if_neg touches]
        have same := mirrors.foreign mine (h n).2
        exact ⟨same.sync, same.len, fun buf i kept => same.cells buf i fun global lost =>
          kept global (Lost.succ lost)⟩

/-! ### Whose accesses a cell holds -/

theorem keeps_published {u : Use V} {sync : SyncState} {c : Cell} {a : Access}
    (keeps : (u.published sync c).Keeps a) : c.Keeps a ∨ a = u.access sync c := by
  have recorded : (u.recorded sync c).1.Keeps a := by
    unfold Use.published at keeps
    cases ordering : u.op.act.ordering <;> simp only [ordering] at keeps <;> exact keeps
  exact Cell.keeps_record recorded

/-- A launch sees its own accesses in a cell and nobody else's. -/
theorem made_of_keeps (fresh : ∀ buf : Buf, (m (buf.place launch)).launchId ≠ launch) {buf : Buf} {i : Nat}
    {a : Access} (keeps : ((h.after m n).cell launch buf i).Keeps a) :
    ∃ k < n, (h k).1 = launch ∧ h.Made m buf i k a := by
  have none_kept : ∀ {c : Cell}, c.Fresh → ¬ c.Keeps a := by
    intro c fresh keeps
    unfold Cell.Keeps at keeps
    rw [fresh.lastWrite, fresh.readers] at keeps
    simp [Cell.default] at keeps
  induction n with
  | zero => exact absurd keeps (none_kept (fresh_zero fresh buf i))
  | succ n ih =>
    have earlier : ((h.after m n).cell launch buf i).Keeps a →
        ∃ k < n + 1, (h k).1 = launch ∧ h.Made m buf i k a := by
      intro before
      obtain ⟨k, lt, mine, made⟩ := ih before
      exact ⟨k, Nat.lt_succ_of_lt lt, mine, made⟩
    rcases h.cell_succ m launch buf i n with ⟨u, use, uses, now⟩ | ⟨-, ⟨-, now⟩ | ⟨-, same⟩⟩
    · rw [now] at keeps
      rcases keeps_published keeps with before | rfl
      · exact earlier before
      · have mine := uses.1
        subst mine
        exact ⟨n, Nat.lt_succ_self n, rfl, u, use, uses, rfl⟩
    · exact absurd keeps (none_kept now)
    · rw [same] at keeps
      exact earlier keeps

/-- Both sides of a race are accesses of the launch that reports it. -/
theorem own_of_race (fresh : ∀ buf : Buf, (m (buf.place (h n).1)).launchId ≠ (h n).1) {buf : Buf} {i : Nat}
    (element : (h n).2.element = some (buf, i)) {place : MemSpace} {index : Nat}
    {first second : Access}
    (race : .dataRace place index first second ∈ h.races m space n) :
    h.Made m buf i n second ∧ ∃ k < n, (h k).1 = (h n).1 ∧ h.Made m buf i k first := by
  unfold races at race
  cases use : (h n).2 with
  | use u =>
    rw [use, HostOp.element] at element
    obtain ⟨rfl, rfl⟩ := Prod.mk.inj (Option.some.inj element)
    rw [use, HostState.races] at race
    split at race
    · cases race
    next inside =>
      have inside : u.op.index < (m (u.op.buf.place (h n).1)).len := by
        simpa [HostState.inst_len] using inside
      obtain ⟨a, conflict, same⟩ := List.mem_map.mp race
      cases same
      refine ⟨⟨u, use, ⟨rfl, by rw [pattern, use]; rfl, inside⟩, rfl⟩, ?_⟩
      exact made_of_keeps fresh (Cell.conflict_kept (Option.mem_toList.mp conflict)).1
  | fence | arrive | depart | idle =>
    rw [use] at element
    cases element

/-! ### Flags -/

theorem published_init {u : Use V} {sync : SyncState} {c : Cell} (set : c.init = true) :
    (u.published sync c).init = true := by
  have recorded : (u.recorded sync c).1.init = true := by
    unfold Use.recorded Cell.record
    cases (u.access sync c).kind <;> simp [Cell.onRead, Cell.onWrite, set]
  unfold Use.published
  cases u.op.act.ordering <;> exact recorded

theorem init_succ {i : Nat} (set : (((h.after m n).mem (.global id)).shadow i).init = true) :
    (((h.after m (n + 1)).mem (.global id)).shadow i).init = true := by
  rw [after]
  cases use : (h n).2 with
  | use u =>
    obtain ⟨inst, mem, -, -, shadow⟩ := (h.after m n).used_mem (h n).1 u
    simp only [HostState.apply, mem]
    by_cases here : u.op.buf.place (h n).1 = .global id
    · have buf : u.op.buf = .global id := by
        cases b : u.op.buf with
        | global id' => rw [b] at here; cases here; rfl
        | shared => rw [b] at here; cases here
      have seen : ((h.after m n).cell (h n).1 u.op.buf i).init = true := by
        rw [buf, ← set]
        exact Instrumented.forLaunch_init (.inl ⟨id, rfl⟩) i
      rw [here, Function.update_self, shadow]
      split
      · exact published_init seen
      · exact seen
    · rw [Function.update_of_ne (Ne.symm here)]
      exact set
  | fence | arrive | depart | idle => exact set

theorem init_kept {k i : Nat} (le : k ≤ n)
    (set : (((h.after m k).mem (.global id)).shadow i).init = true) :
    (((h.after m n).mem (.global id)).shadow i).init = true := by
  induction n, le using Nat.le_induction with
  | base => exact set
  | succ n le ih => exact init_succ ih

/-- A run in which no launch comes back leaves every launch undisturbed. -/
theorem undisturbed_of_quiet (fresh : ∀ n (buf : Buf), (m (buf.place (h n).1)).launchId ≠ (h n).1)
    (quiet : ∀ n, ¬ h.pattern.Returns m id n) : h.Undisturbed m space id where
  alike := by
    intro n i element
    have mirrors : Mirrors (h n).1 id _ _ _ := mirrors_alone (fresh n) n fun j _ _ => quiet j
    unfold races
    rw [alone_own rfl]
    refine mirrors.races_eq fun i element inside lost => ?_
    have reached : i < (m (.global id)).len := by simpa using inside
    exact quiet n ⟨i, ⟨rfl, element, reached⟩, lost⟩
  own := by
    intro n i element place index first second race
    exact own_of_race (fresh n) element race
  kept := fun k n i le set => init_kept le set

end HostRun

/-! ### Host threads -/

/-- No array has met a launch before it starts. -/
theorem HostThreads.arrays_fresh [BEq V] (hosts : HostEnv V) (i : Nat) (buf : Buf) :
    (arrays hosts (buf.place (hosts.env i).id)).launchId ≠ (hosts.env i).id := by
  have fresh := (hosts.env i).fresh buf
  cases buf with
  | global id =>
    rw [hosts.shared i 0] at fresh
    exact fresh
  | shared block name =>
    simp only [Buf.place, arrays, hosts.numbered, Nat.add_sub_cancel] at fresh ⊢
    exact fresh

/-- Launches that never come back raise the races on a buffer they would raise alone. -/
theorem HostThreads.raised_alone [BEq V] (hosts : HostEnv V) (order : Nat → Nat) (id : Nat)
    (quiet : ∀ n, ¬ (trace hosts order).pattern.Returns (arrays hosts) id n) {n i : Nat}
    (element : (trace hosts order n).2.element = some (.global id, i)) {sp : MemSpace} {ix : Nat}
    {first second : Access} :
    .dataRace sp ix first second ∈ ((state hosts order (n + 1)).launch (order n)).raised ↔
      .dataRace sp ix first second ∈ ((state hosts order n).launch (order n)).raised ∨
        .dataRace sp ix first second ∈
          ((trace hosts order).alone (hosts.env (order n)).id id).races (arrays hosts)
            (Launch.space (hosts.env (order n))) n := by
  have undisturbed : (trace hosts order).Undisturbed (arrays hosts)
      (Launch.space (hosts.env (order n))) id :=
    HostRun.undisturbed_of_quiet (fun n => arrays_fresh hosts (order n)) quiet
  have alike := undisturbed.alike n i element
  rw [raised_step, alike]
  rfl

namespace HostRun

variable {h : HostRun V} {m : Place → Instrumented Unit} {launch id n : Nat} {space : Buf → MemSpace}

/-! ### Accesses that nothing orders -/

section

variable [Inhabited V] {p : Pattern} {buf : Buf} {i : Nat}

def writer (n : Nat) (buf : Buf) (i : Nat) : Use V where
  cx := ⟨n, n, n, 0, n, 0, 0⟩
  epoch := 0
  warpEpoch := 0
  op := ⟨buf, i, ⟨"kernel.rs", 3, 9⟩, .write Inhabited.default⟩

/-- The accesses of a pattern, each a write by a thread of its own. -/
def writers (p : Pattern) : HostRun V := fun n =>
  ((p n).1, match (p n).2 with
    | some (buf, i) => .use (writer n buf i)
    | none => .idle)

theorem writers_pattern (p : Pattern) : (writers p : HostRun V).pattern = p := by
  funext n
  unfold pattern writers
  cases element : (p n).2 with
  | none => exact Prod.ext rfl element.symm
  | some e => exact Prod.ext rfl element.symm

def Lone (h : HostRun V) : Prop :=
  ∀ n, (h n).2 = .idle ∨ ∃ buf i, (h n).2 = .use (writer n buf i)

theorem lone_writers (p : Pattern) : Lone (writers p : HostRun V) := by
  intro n
  unfold writers
  cases (p n).2 with
  | none => exact .inl rfl
  | some e => exact .inr ⟨e.1, e.2, rfl⟩

theorem Lone.alone (lone : Lone h) : Lone (h.alone launch id) := by
  intro n
  unfold HostRun.alone
  split
  · exact .inl rfl
  · exact lone n

/-- A thread that has not written yet has an empty clock. -/
theorem Lone.clock (lone : Lone h) {t : Nat} (le : n ≤ t) :
    ((h.after m n).sync launch).clock t = ∅ := by
  induction n with
  | zero => rfl
  | succ n ih =>
    have before := ih (by omega)
    have other : t ≠ n := by omega
    rw [after]
    by_cases mine : (h n).1 = launch
    · rcases lone n with idle | ⟨buf, i, use⟩
      · rw [idle]
        exact before
      · rw [use, mine]
        simp only [HostState.apply, HostState.used]
        split <;> simp only [HostState.withSync, Function.update_self, Use.ticked, Use.acquired,
          writer, MemAct.ordering, SyncState.tick, Function.update_of_ne other] <;> exact before
    · rw [HostState.apply_sync_of_ne mine]
      exact before

/-- Such a write races with an earlier one the cell remembers. -/
theorem Lone.conflict (lone : Lone h) {k : Nat} (lt : k < n) {a : Access} (made : h.Made m buf i k a)
    (last : ((h.after m n).cell (h n).1 buf i).lastWrite = some a) :
    ((writer n buf i : Use V).recorded ((h.after m n).sync (h n).1)
      ((h.after m n).cell (h n).1 buf i)).2.isSome := by
  obtain ⟨u, used, uses, rfl⟩ := made
  obtain ⟨buf', i', theirs⟩ := (lone k).resolve_left (by simp [used])
  obtain rfl : u = writer k buf' i' := HostOp.use.inj (used.symm.trans theirs)
  refine ((h.after m n).cell (h n).1 buf i).conflict_isSome_iff _ _ |>.mpr (.inl ⟨_, last, ?_⟩)
  refine (concurrent_iff ..).mpr ⟨⟨fun same => ?_, .inl ?_⟩, fun both => ?_, ?_⟩
  · exact absurd same.1 (Nat.ne_of_lt lt)
  · exact Nat.ne_of_lt lt
  · cases both.1
  · have keys : key k 0 ≠ key n 0 := fun same =>
      absurd (key_injective (by decide) (by decide) same).1 (Nat.ne_of_lt lt)
    have clock : ((h.after m n).sync (h n).1).clock n = ∅ := lone.clock le_rfl
    simp only [Use.access, Use.ticked, Use.acquired, writer, MemAct.ordering, SyncState.tick,
      Function.update_self, clock, Clock.get_observe, keys, if_false, Clock.get_empty]
    omega

/-- Nobody else makes the launch forget a write while it is alone with the buffer. -/
theorem Lone.remembers (lone : Lone h) {k : Nat} (lt : k < n)
    (uses : h.pattern.Uses m launch (.global id) i k) :
    ∃ a, (((h.alone launch id).after m n).cell launch (.global id) i).lastWrite = some a := by
  have alone : Lone (h.alone launch id) := lone.alone
  induction n, lt using Nat.le_induction with
  | base =>
    have uses : (h.alone launch id).pattern.Uses m launch (.global id) i k := uses_alone.mpr uses
    rcases (h.alone launch id).cell_succ m launch (.global id) i k with
      ⟨u, use, -, now⟩ | ⟨unused, -⟩
    · obtain ⟨buf', i', here⟩ := (alone k).resolve_left (by simp [use])
      obtain rfl : u = writer k buf' i' := HostOp.use.inj (use.symm.trans here)
      rw [now]
      exact ⟨_, rfl⟩
    · exact absurd uses unused
  | succ n le ih =>
    rcases (h.alone launch id).cell_succ m launch (.global id) i n with
      ⟨u, use, -, now⟩ | ⟨-, ⟨⟨id', same, intrudes⟩, -⟩ | ⟨-, same⟩⟩
    · obtain ⟨buf', i', here⟩ := (alone n).resolve_left (by simp [use])
      obtain rfl : u = writer n buf' i' := HostOp.use.inj (use.symm.trans here)
      rw [now]
      exact ⟨_, rfl⟩
    · cases same
      obtain ⟨other, j, element⟩ := intrudes
      have away : (h n).1 ≠ launch := fun mine => other (by rw [pattern, alone_own mine, mine])
      rw [pattern, alone_foreign away] at element
      split at element
      next => cases element
      next quiet => exact absurd (touches_iff.mpr ⟨j, element⟩) quiet
    · rw [same]
      exact ih

omit [Inhabited V] in
/-- An access to an element without a history finds no race. -/
theorem races_of_fresh {u : Use V} {sync : SyncState} {c : Cell} (fresh : c.Fresh) :
    u.races sync c space = [] := by
  rw [u.races_congr sync fresh]
  unfold Use.races Use.recorded Cell.record
  cases (u.access sync Cell.default).kind <;> rfl

/-- Where a launch comes back, it may miss a race. -/
theorem disturbed_of_returns (fresh : ∀ n (buf : Buf), (m (buf.place (p n).1)).launchId ≠ (p n).1)
    (returns : p.Returns m id n) : ¬ (writers p : HostRun V).Undisturbed m space id := by
  intro undisturbed
  obtain ⟨i, ⟨-, named, inside⟩, k, j, first, second, used, intrudes⟩ := returns
  obtain ⟨launch, mine⟩ : ∃ launch, launch = (p n).1 := ⟨_, rfl⟩
  rw [← mine] at inside used intrudes
  have lone := lone_writers (V := V) p
  rw [← writers_pattern (V := V) p] at used intrudes
  -- The first time the launch uses the element after the intrusion.
  obtain ⟨n', ⟨after, uses⟩, next⟩ : ∃ n', (j < n' ∧
      (writers p : HostRun V).pattern.Uses m launch (.global id) i n') ∧ ∀ x < n',
        ¬ (j < x ∧ (writers p : HostRun V).pattern.Uses m launch (.global id) i x) := by
    classical
    have some_time : ∃ x, j < x ∧
        (writers p : HostRun V).pattern.Uses m launch (.global id) i x := by
      rw [writers_pattern]
      exact ⟨n, second, mine.symm, named, inside⟩
    exact ⟨Nat.find some_time, Nat.find_spec some_time, fun x => Nat.find_min some_time⟩
  have fresh : ∀ buf : Buf, (m (buf.place launch)).launchId ≠ launch := mine ▸ fresh n
  have forgot : (((writers p : HostRun V).after m n').cell launch (.global id) i).Fresh := by
    refine fresh_of_unused after ?_ fun x low high uses => next x high ⟨low, uses⟩
    rcases (writers p : HostRun V).cell_succ m launch (.global id) i j with
      ⟨-, -, uses, -⟩ | ⟨-, ⟨-, now⟩ | ⟨quiet, -⟩⟩
    · exact absurd uses.1 intrudes.1
    · exact now
    · exact absurd intrudes (quiet id rfl)
  obtain ⟨a, last⟩ := lone.remembers (first.trans after) used
  obtain ⟨k', lt, -, made⟩ := made_of_keeps fresh (.inl last)
  have same : (writers p n' : Nat × HostOp V).1 = launch := uses.1
  obtain ⟨buf', i', use⟩ := (lone n').resolve_left fun idle => by
    have element := uses.2.1
    simp [pattern, idle, HostOp.element] at element
  obtain ⟨rfl, rfl⟩ : buf' = .global id ∧ i' = i := by
    have element := uses.2.1
    simpa [pattern, use, HostOp.element, writer] using element
  have own : (writers p : HostRun V).alone launch id n' = writers p n' := alone_own same
  have conflict := Lone.conflict (h := (writers p : HostRun V).alone launch id) lone.alone lt made
    (by rw [own, same]; exact last)
  rw [own, same] at conflict
  have quiet : (writers p : HostRun V).races m space n' = [] := by
    simp only [races, same, use, HostState.races]
    split
    · rfl
    · exact races_of_fresh forgot
  have alike := undisturbed.alike n' i' uses.2.1
  rw [quiet, same, races, own, same, use] at alike
  have reached : ¬ i' ≥ ((((writers p : HostRun V).alone launch id).after m n').inst launch
      (.global id)).len := by
    rw [HostState.inst_len, after_len]
    exact Nat.not_le_of_lt inside
  simp only [HostState.races, writer, reached, if_false] at alike
  obtain ⟨found, there⟩ := Option.isSome_iff_exists.mp conflict
  rw [Use.races] at alike
  have none_left := List.map_eq_nil_iff.mp alike.symm
  rw [Option.toList_eq_nil_iff] at none_left
  exact absurd (none_left.symm.trans there) (by simp)

/-- A launch is undisturbed in every run of a pattern exactly if none of its launches comes back to
an element of the buffer after another used the buffer. -/
theorem undisturbed_iff (p : Pattern) (m : Place → Instrumented Unit) (space : Buf → MemSpace)
    (id : Nat) (fresh : ∀ n (buf : Buf), (m (buf.place (p n).1)).launchId ≠ (p n).1) :
    (∀ h : HostRun V, h.pattern = p → h.Undisturbed m space id) ↔ ∀ n, ¬ p.Returns m id n := by
  constructor
  · intro undisturbed n returns
    exact disturbed_of_returns fresh returns (undisturbed (writers p) (writers_pattern p))
  · rintro quiet h rfl
    exact undisturbed_of_quiet fresh quiet

end

/-! ### Two launches on a buffer of four elements -/

def fourElements : Place → Instrumented Unit := fun _ => .uninit 4

/-- Launch 1 uses the buffer twice, then launch 2 does. -/
def inTurn : Pattern := fun n => (if n < 2 then 1 else 2, some (.global 0, n % 2))

/-- Neither launch is disturbed. -/
theorem undisturbed_iff_in_turn :
    (writers inTurn : HostRun Nat).Undisturbed fourElements (fun _ => .global "data") 0 := by
  refine (undisturbed_iff inTurn fourElements (fun _ => .global "data") 0 fun n buf => ?_).mpr
    (fun n => ?_) (writers inTurn) (writers_pattern inTurn)
  · unfold inTurn fourElements Instrumented.uninit
    split <;> simp
  · rintro ⟨i, -, k, j, first, second, used, intrudes⟩
    have mine := used.1
    have theirs := intrudes.1
    unfold inTurn at mine theirs
    grind

def writeBy (thread : Nat) : HostOp Nat :=
  .use ⟨⟨thread, 0, 0, thread, thread, 0, thread⟩, 0, 0,
    ⟨.global 0, 0, ⟨"kernel.rs", 3, 9⟩, .write 7⟩⟩

/-- Two threads of launch 1 write an element; in between launch 2 reads another one. -/
def crossing : HostRun Nat := fun n =>
  [(1, writeBy 0),
    (2, .use ⟨⟨0, 0, 0, 0, 0, 0, 0⟩, 0, 0, ⟨.global 0, 3, ⟨"kernel.rs", 9, 17⟩, .read⟩⟩),
    (1, writeBy 1)].getD n (1, .idle)

/-- Launch 1 alone reports the race; while launch 2 uses the buffer it does not. -/
theorem crossing_misses :
    (crossing.races fourElements (fun _ => .global "data") 2 = [] ∧
      (crossing.alone 1 0).races fourElements (fun _ => .global "data") 2 =
        [.dataRace (.global "data") 0 ⟨0, 0, 0, 0, 0, 1, .write, ⟨"kernel.rs", 3, 9⟩⟩
          ⟨0, 1, 0, 0, 0, 1, .write, ⟨"kernel.rs", 3, 9⟩⟩]) ∧
      ¬ crossing.Undisturbed fourElements (fun _ => .global "data") 0 := by
  have missed : crossing.races fourElements (fun _ => .global "data") 2 = [] ∧
      (crossing.alone 1 0).races fourElements (fun _ => .global "data") 2 =
        [.dataRace (.global "data") 0 ⟨0, 0, 0, 0, 0, 1, .write, ⟨"kernel.rs", 3, 9⟩⟩
          ⟨0, 1, 0, 0, 0, 1, .write, ⟨"kernel.rs", 3, 9⟩⟩] := by
    set_option maxRecDepth 100000 in decide +kernel
  refine ⟨missed, fun undisturbed => ?_⟩
  have alike := undisturbed.alike 2 0 rfl
  have alone : crossing.races fourElements (fun _ => .global "data") 2 =
      (crossing.alone 1 0).races fourElements (fun _ => .global "data") 2 := alike
  rw [missed.1, missed.2] at alone
  cases alone

end HostRun

end Riri
