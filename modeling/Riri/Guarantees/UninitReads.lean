import Riri.Run.Cells

/-!
# Which reads are reported as uninitialised

One flag per element stands for "somebody stored here", and every write and every atomic sets it.
An atomic load and a failed exchange set it without storing, so later reads go unreported; an
atomic store is tested like the other atomics although it reads nothing.
-/
namespace Riri

variable {V : Type} [BEq V]

/-- Calls on one buffer, in the order in which they got its lock. -/
abbrev Calls (V : Type) := Nat → Call V

namespace Calls

variable (h : Calls V) (buf : Buf) (space : MemSpace) (m : Instrumented V)

/-- The buffer before call `n`; `none` once it is poisoned. -/
def memory : Nat → Option (Instrumented V)
  | 0 => some m
  | n + 1 => (memory n).bind fun inst => (inst.call buf space (h n)).1

/-- The buffer as call `n` finds it, if it reaches its element. -/
def Finds (n i : Nat) (inst : Instrumented V) : Prop :=
  ∃ before, h.memory buf space m n = some before ∧ (h n).index = i ∧
    inst = before.forLaunch buf (h n).launchId ∧ i < inst.len

def Reaches (n i : Nat) : Prop := ∃ inst, h.Finds buf space m n i inst

def Raises (n : Nat) : Prop :=
  ∃ before, h.memory buf space m n = some before ∧
    .uninitRead space (h n).index (h n).access ∈ (before.call buf space (h n)).2

def Stores (n i : Nat) : Prop :=
  ∃ inst, h.Finds buf space m n i inst ∧ (h n).act.stores (inst.data i) = true

def Stored (n i : Nat) : Prop := ∃ k < n, h.Stores buf space m k i

def Flagged (n i : Nat) : Prop := ∃ k < n, h.Reaches buf space m k i ∧ (h k).act.kind ≠ .read

def Panics (n i : Nat) : Prop :=
  ∃ inst, h.Finds buf space m n i inst ∧ ∃ message, (h n).act.update (inst.data i) = .error message

end Calls

/-- How a buffer comes into being, and whether it holds host data. -/
inductive Created [Inhabited V] : Buf → Bool → Instrumented V → Prop where
  | new (id : Nat) (data : List V) : Created (.global id) true (.ofData data)
  | uninit (id len : Nat) : Created (.global id) false (.uninit len)
  | shared (block : Nat) (name : String) (len : Nat) :
      Created (.shared block name) false (.uninit len)

def OneLaunch (h : Calls V) (buf : Buf) (N : Nat) : Prop :=
  ∀ block name, buf = .shared block name → ∀ n < N, (h n).launchId = (h 0).launchId

omit [BEq V] in
/-- A call sets the element's flag unless it is a plain read. -/
theorem leaves_init (c : Call V) (cell : Cell) :
    (c.leaves cell).init = (cell.init || decide (c.act.kind ≠ .read)) := by
  have recorded : (cell.record c.access c.now).1.init =
      (cell.init || decide (c.access.kind ≠ .read)) := by
    unfold Cell.record
    cases c.access.kind <;> simp [Cell.onRead, Cell.onWrite]
  rw [c.kind] at recorded
  unfold Call.leaves
  cases c.act.ordering <;> exact recorded

/-- What a call does, out of range, with arithmetic that panics, and otherwise. -/
theorem call_cases (buf : Buf) (space : MemSpace) (c : Call V) (m : Instrumented V) :
    let inst := m.forLaunch buf c.launchId
    (inst.len ≤ c.index ∧ m.call buf space c = (some inst, [])) ∨
    (c.index < inst.len ∧ (∃ message, c.act.update (inst.data c.index) = .error message) ∧
      m.call buf space c = (none, [])) ∨
    (c.index < inst.len ∧ ∃ new resp, c.act.update (inst.data c.index) = .ok (new, resp) ∧
      m.call buf space c = (some (c.stored inst new),
        accessReports space c.index (inst.shadow c.index).init c.access
          ((inst.shadow c.index).record c.access c.now).2)) := by
  intro inst
  unfold Instrumented.call
  by_cases outside : c.index ≥ inst.len
  · exact .inl ⟨outside, if_pos outside⟩
  · have inside := Nat.lt_of_not_le outside
    simp only [inst] at outside inside ⊢
    simp only [outside, if_false]
    cases updated : c.act.update ((m.forLaunch buf c.launchId).data c.index) with
    | error message => exact .inr (.inl ⟨inside, ⟨message, rfl⟩, rfl⟩)
    | ok result => exact .inr (.inr ⟨inside, result.1, result.2, rfl, rfl⟩)

namespace Calls

variable {h : Calls V} {buf : Buf} {space : MemSpace} {m : Instrumented V} {n i : Nat}

theorem Finds.unique {inst inst' : Instrumented V} (first : h.Finds buf space m n i inst)
    (second : h.Finds buf space m n i inst') : inst = inst' := by
  obtain ⟨before, found, -, rfl, -⟩ := first
  obtain ⟨before', found', -, rfl, -⟩ := second
  rw [found] at found'
  rw [Option.some.inj found']

theorem flagged_succ : h.Flagged buf space m (n + 1) i ↔
    h.Flagged buf space m n i ∨ (h.Reaches buf space m n i ∧ (h n).act.kind ≠ .read) := by
  constructor
  · rintro ⟨k, lt, reaches, kind⟩
    rcases Nat.lt_succ_iff_lt_or_eq.mp lt with earlier | rfl
    · exact .inl ⟨k, earlier, reaches, kind⟩
    · exact .inr ⟨reaches, kind⟩
  · rintro (⟨k, lt, rest⟩ | ⟨reaches, kind⟩)
    · exact ⟨k, Nat.lt_succ_of_lt lt, rest⟩
    · exact ⟨n, Nat.lt_succ_self n, reaches, kind⟩

variable [Inhabited V] {host : Bool}

omit [BEq V] in
theorem created_init (created : Created buf host m) {id : Nat} (i : Nat) :
    ((m.forLaunch buf id).shadow i).init = host := by
  cases created with
  | new b data => exact Instrumented.forLaunch_init (.inl ⟨b, rfl⟩) i
  | uninit b len => exact Instrumented.forLaunch_init (.inl ⟨b, rfl⟩) i
  | shared block name len =>
    unfold Instrumented.forLaunch
    split <;> rfl

/-- The flag of an element: host data, or an earlier call that was no plain read. -/
theorem flag_iff {N : Nat} (created : Created buf host m) (one : OneLaunch h buf N) (le : n ≤ N)
    {before : Instrumented V} (here : h.memory buf space m n = some before) {id : Nat}
    (mine : (∃ b, buf = .global b) ∨ id = (h 0).launchId) (i : Nat) :
    ((before.forLaunch buf id).shadow i).init = true ↔
      host = true ∨ h.Flagged buf space m n i := by
  induction n generalizing before id with
  | zero =>
    obtain rfl := Option.some.inj here
    rw [created_init created]
    exact (or_iff_left fun ⟨k, lt, _⟩ => absurd lt (Nat.not_lt_zero k)).symm
  | succ n ih =>
    obtain ⟨earlier, there, called⟩ := Option.bind_eq_some_iff.mp here
    have theirs : (∃ b, buf = .global b) ∨ (h n).launchId = (h 0).launchId := by
      cases buf with
      | global b => exact .inl ⟨b, rfl⟩
      | shared block name => exact .inr (one block name rfl n le)
    have flag := ih (Nat.le_of_succ_le le) there theirs
    -- No reset lies between this call and the next.
    have kept : ∀ after : Instrumented V, after.launchId = (h n).launchId →
        ((after.forLaunch buf id).shadow i).init = (after.shadow i).init := by
      intro after same
      refine Instrumented.forLaunch_init ?_ i
      rcases mine with global | mine
      · exact .inl global
      · rcases theirs with global | theirs
        · exact .inl global
        · exact .inr (by rw [same, theirs, mine])
    have launched := Instrumented.forLaunch_launchId buf (h n).launchId earlier
    rw [flagged_succ, ← or_assoc, ← flag]
    rcases call_cases buf space (h n) earlier with
      ⟨outside, made⟩ | ⟨-, -, made⟩ | ⟨inside, new, resp, -, made⟩ <;> rw [made] at called
    · obtain rfl := Option.some.inj called
      rw [kept _ launched]
      refine (or_iff_left fun ⟨⟨inst, before', found, index, same, inside⟩, _⟩ => ?_).symm
      rw [there] at found
      obtain rfl := Option.some.inj found
      subst same
      omega
    · cases called
    · obtain rfl := Option.some.inj called
      rw [kept ((h n).stored _ new) launched]
      by_cases here : (h n).index = i
      · have reaches : h.Reaches buf space m n i :=
          ⟨_, earlier, there, here, rfl, here ▸ inside⟩
        subst here
        simp only [Call.stored, Function.update_self, leaves_init, Bool.or_eq_true, decide_eq_true_eq,
          reaches, true_and]
      · have other : ((h n).stored (earlier.forLaunch buf (h n).launchId) new).shadow i =
            (earlier.forLaunch buf (h n).launchId).shadow i :=
          Function.update_of_ne (Ne.symm here) ..
        rw [other]
        exact (or_iff_left fun ⟨⟨inst, before', found, index, _⟩, _⟩ => here index).symm

omit [Inhabited V] in
/-- When a call that reaches its element reports an uninitialised read. -/
theorem raises_iff {inst : Instrumented V} (found : h.Finds buf space m n i inst) :
    h.Raises buf space m n ↔ (h n).act.kind ≠ .write ∧ (inst.shadow i).init = false ∧
      ¬ h.Panics buf space m n i := by
  have mine := found
  obtain ⟨before, there, rfl, rfl, inside⟩ := found
  have panics : ∀ message, (h n).act.update ((before.forLaunch buf (h n).launchId).data (h n).index) =
      .error message → h.Panics buf space m n (h n).index := fun message failed =>
    ⟨_, mine, message, failed⟩
  have raises : h.Raises buf space m n ↔ .uninitRead space (h n).index (h n).access ∈
      (before.call buf space (h n)).2 := by
    constructor
    · rintro ⟨before', there', raised⟩
      rw [there] at there'
      rwa [Option.some.inj there']
    · exact fun raised => ⟨before, there, raised⟩
  rw [raises]
  rcases call_cases buf space (h n) before with
    ⟨outside, -⟩ | ⟨-, ⟨message, failed⟩, made⟩ | ⟨-, new, resp, done, made⟩
  · omega
  · rw [made]
    exact ⟨fun raised => (by cases raised), fun quiet => absurd (panics message failed) quiet.2.2⟩
  · have calm : ¬ h.Panics buf space m n (h n).index := by
      rintro ⟨inst, found, message, failed⟩
      rw [found.unique mine, done] at failed
      cases failed
    rw [made, ← (h n).kind]
    simp [accessReports, calm]

omit [Inhabited V] in
theorem Stored.flagged (stored : h.Stored buf space m n i) : h.Flagged buf space m n i := by
  obtain ⟨k, lt, inst, found, stores⟩ := stored
  refine ⟨k, lt, ⟨inst, found⟩, fun read => ?_⟩
  cases act : (h k).act <;> rw [act] at stores read <;> cases read
  cases stores

/-- Call `n` is the first on element `i` that is no plain read. -/
def Opens (h : Calls V) (buf : Buf) (space : MemSpace) (m : Instrumented V) (n i : Nat) : Prop :=
  h.Reaches buf space m n i ∧ (h n).act.kind ≠ .read ∧ ¬ h.Flagged buf space m n i

omit [Inhabited V] in
/-- Behind every flag there is a call that opened the element. -/
theorem exists_opens (flagged : h.Flagged buf space m n i) :
    ∃ j < n, h.Opens buf space m j i := by
  induction n with
  | zero =>
    obtain ⟨k, lt, -⟩ := flagged
    exact absurd lt (Nat.not_lt_zero k)
  | succ n ih =>
    by_cases earlier : h.Flagged buf space m n i
    · obtain ⟨j, lt, opens⟩ := ih earlier
      exact ⟨j, Nat.lt_succ_of_lt lt, opens⟩
    · obtain ⟨reaches, kind⟩ := (flagged_succ.mp flagged).resolve_left earlier
      exact ⟨n, Nat.lt_succ_self n, reaches, kind, earlier⟩

omit [Inhabited V] in
/-- Arithmetic panics in a read-modify-write only. -/
theorem Panics.atomic (panics : h.Panics buf space m n i) :
    (h n).act.kind = .atomic ∧ (h n).act.reads = true := by
  obtain ⟨inst, -, message, failed⟩ := panics
  cases act : (h n).act with
  | atomic ordering op =>
    rw [act] at failed
    cases op with
    | store => cases failed
    | _ => exact ⟨rfl, rfl⟩
  | _ =>
    rw [act] at failed
    cases failed

/-- What the first call other than a plain read has to be for the reports to be right: no atomic
store, no panic, and one that stores unless nobody reads the element before a store. -/
def OpensWell (h : Calls V) (buf : Buf) (space : MemSpace) (m : Instrumented V) (N j i : Nat) : Prop :=
  (∀ ordering value, (h j).act ≠ .atomic ordering (.store value)) ∧
    ¬ h.Panics buf space m j i ∧
    (h.Stores buf space m j i ∨ ∀ k < N, j < k → h.Reaches buf space m k i →
      (h k).act.reads = true → h.Stored buf space m k i)

/-- Call `n` is reported as the contents of element `i` deserve. -/
def ReportsExactly (h : Calls V) (buf : Buf) (space : MemSpace) (m : Instrumented V) (host : Bool)
    (n i : Nat) : Prop :=
  h.Raises buf space m n ↔
    (h n).act.reads = true ∧ host = false ∧ ¬ h.Stored buf space m n i

/-- Uninitialised reads are reported exactly if the buffer holds host data or every element is
opened well. -/
theorem uninit_exactly (created : Created buf host m) (N : Nat) (one : OneLaunch h buf N) :
    (∀ n < N, ∀ i, h.Reaches buf space m n i → h.ReportsExactly buf space m host n i) ↔
      (host = true ∨ ∀ j < N, ∀ i, h.Opens buf space m j i → h.OpensWell buf space m N j i) := by
  have raises : ∀ n < N, ∀ i, h.Reaches buf space m n i → (h.Raises buf space m n ↔
      (h n).act.kind ≠ .write ∧ (host = false ∧ ¬ h.Flagged buf space m n i) ∧
        ¬ h.Panics buf space m n i) := by
    rintro n lt i ⟨inst, found⟩
    have launch : (∃ b, buf = .global b) ∨ (h n).launchId = (h 0).launchId := by
      cases buf with
      | global b => exact .inl ⟨b, rfl⟩
      | shared block name => exact .inr (one block name rfl n lt)
    obtain ⟨before, there, index, same, inside⟩ := found
    have flag := flag_iff created one lt.le there launch i
    rw [raises_iff ⟨before, there, index, same, inside⟩, same, ← Bool.not_eq_true, flag, not_or,
      Bool.not_eq_true]
  constructor
  · intro exactly
    cases host with
    | true => exact .inl rfl
    | false =>
      refine .inr fun j lt i ⟨reaches, kind, unflagged⟩ => ?_
      have unstored : ¬ h.Stored buf space m j i := fun stored => unflagged stored.flagged
      have agree : (h j).act.kind ≠ .write ∧ ¬ h.Panics buf space m j i ↔ (h j).act.reads = true := by
        have mine := (raises j lt i reaches).symm.trans (exactly j lt i reaches)
        simpa [unflagged, unstored] using mine
      refine ⟨fun ordering value act => ?_, fun panics => ?_, ?_⟩
      · rw [act] at agree
        have calm : ¬ h.Panics buf space m j i := by
          intro panics
          have reads := panics.atomic.2
          rw [act] at reads
          cases reads
        cases agree.mp ⟨by simp [MemAct.kind], calm⟩
      · exact (agree.mpr panics.atomic.2).2 panics
      · refine or_iff_not_imp_left.mpr fun _ k hk later there reads => ?_
        have flagged : h.Flagged buf space m k i := ⟨j, later, reaches, kind⟩
        by_contra unstored
        exact ((raises k hk i there).mp ((exactly k hk i there).mpr ⟨reads, rfl, unstored⟩)).2.1.2
          flagged
  · intro well n lt i reaches
    unfold ReportsExactly
    rw [raises n lt i reaches]
    cases host with
    | true => simp
    | false =>
      have well := well.resolve_left (by decide)
      by_cases flagged : h.Flagged buf space m n i
      · obtain ⟨j, before, opens⟩ := exists_opens flagged
        obtain ⟨-, -, stores | later⟩ := well j (before.trans lt) i opens
        · have stored : h.Stored buf space m n i := ⟨j, before, stores⟩
          simp [flagged, stored]
        · have stored := later n lt before reaches
          simp only [flagged, not_true_eq_false, and_false, false_and, true_and, false_iff]
          exact fun ⟨reads, unstored⟩ => unstored (stored reads)
      · have unstored : ¬ h.Stored buf space m n i := fun stored => flagged stored.flagged
        have calm : (h n).act.kind = .read → ¬ h.Panics buf space m n i := fun read panics => by
          rw [panics.atomic.1] at read
          cases read
        simp only [flagged, unstored, not_false_eq_true, and_true, true_and]
        cases act : (h n).act with
        | read =>
          rw [act] at calm
          simp [MemAct.kind, MemAct.reads, calm rfl]
        | write value => simp [MemAct.kind, MemAct.reads]
        | elemMut checked f => simp [MemAct.kind, MemAct.reads]
        | atomic ordering op =>
          have opens : h.Opens buf space m n i := ⟨reaches, by rw [act]; simp [MemAct.kind], flagged⟩
          obtain ⟨noStore, calm, -⟩ := well n lt i opens
          have reads : op.reads = true := by
            cases op with
            | store value => exact absurd act (noStore ordering value)
            | _ => rfl
          simp [MemAct.kind, MemAct.reads, calm, reads]

/-! ### Three short histories -/

/-- One thread's calls on element 0 of an uninitialised buffer. -/
def byOne (acts : List (MemAct Nat)) : Calls Nat := fun n =>
  let act := acts.getD n .read
  { launchId := 1
    index := 0
    act := act
    access := ⟨0, 0, 0, 0, 0, n + 1, act.kind, ⟨"kernel.rs", n + 1, 5⟩⟩
    now := ∅
    release := id
    kind := rfl }

/-- A write, then a read. -/
theorem uninit_exactly_written :
    (byOne [.write 7, .read]).ReportsExactly (.global 0) (.global "data") (.uninit 8) false 1 0 := by
  refine (uninit_exactly (.uninit 0 8) 2 fun block name shared => by cases shared).mpr
    (.inr fun j lt i ⟨⟨inst, found⟩, kind, _⟩ => ?_) 1 (by decide) 0
      ⟨_, _, rfl, rfl, rfl, by decide⟩
  obtain rfl | rfl : j = 0 ∨ j = 1 := by omega
  · refine ⟨fun ordering value act => (by cases act), fun panics => ?_, .inl ⟨inst, found, rfl⟩⟩
    cases panics.atomic.1
  · exact absurd rfl kind

/-- An atomic store to an element nobody stored to is reported, and a read after an atomic load of
one is not. -/
theorem uninit_inexact :
    (∃ i, (byOne [.atomic .relaxed (.store 7)]).Reaches (.global 0) (.global "data") (.uninit 8) 0 i ∧
      ¬ (byOne [.atomic .relaxed (.store 7)]).ReportsExactly (.global 0) (.global "data") (.uninit 8)
        false 0 i) ∧
    ∃ i, (byOne [.atomic .relaxed .load, .read]).Reaches (.global 0) (.global "data") (.uninit 8) 1 i ∧
      ¬ (byOne [.atomic .relaxed .load, .read]).ReportsExactly (.global 0) (.global "data")
        (.uninit 8) false 1 i := by
  refine ⟨⟨0, ⟨_, _, rfl, rfl, rfl, by decide⟩, fun exactly => ?_⟩,
    0, ⟨_, _, rfl, rfl, rfl, by decide⟩, fun exactly => ?_⟩
  · have raised : (byOne [.atomic .relaxed (.store 7)]).Raises (.global 0) (.global "data")
        (.uninit 8) 0 := ⟨_, rfl, by decide⟩
    cases (exactly.mp raised).1
  · have unstored : ¬ (byOne [.atomic .relaxed .load, .read]).Stored (.global 0) (.global "data")
        (.uninit 8) 1 0 := by
      rintro ⟨k, lt, inst, -, stores⟩
      obtain rfl : k = 0 := by omega
      cases stores
    obtain ⟨before, there, raised⟩ := exactly.mpr ⟨rfl, rfl, unstored⟩
    obtain rfl := Option.some.inj there
    exact absurd raised (by decide)

end Calls

/-! ### The calls of a launch -/

namespace Launch

variable {env : Env V}

/-- What a thread past its schedule point brings to the lock. -/
def callOf (env : Env V) (s : Launch V) (cx : Ctx) (m : MemOp V) : Call V where
  launchId := env.id
  index := m.index
  act := m.act
  access := s.accessOf env cx m
  now := (s.ticked env cx m).clock cx.gid
  release := fun published => match m.act.ordering with
    | some ordering => (s.ticked env cx m).release cx.gid published ordering
    | none => published
  kind := rfl

/-- What a step does to the buffers, by its label: nothing, or one call that finds the lock free. -/
theorem Resumed.calls {s s' : Launch V} {slot : Nat} {l : Label V}
    (resumed : Resumed env s slot l s') :
    match l with
    | .access cx m _ _ _ =>
        let called := (s.mem m.buf).call m.buf (space env m.buf) (callOf env s cx m)
        called.1 = some (s'.mem m.buf) ∧ s'.raised = s.raised ++ called.2 ∧
          ∀ b, b ≠ m.buf → s'.mem b = s.mem b
    | .fault cx m _ true =>
        (s.mem m.buf).call m.buf (space env m.buf) (callOf env s cx m) =
          (some (s'.mem m.buf), []) ∧ ∀ b, b ≠ m.buf → s'.mem b = s.mem b
    | .fault cx m _ false =>
        (s.mem m.buf).call m.buf (space env m.buf) (callOf env s cx m) = (none, []) ∧
          s'.sched.aborted = true
    | _ => s'.mem = s.mem := by
  cases resumed with
  | access m pc new resp inside updated =>
    have ran : (s.mem m.buf).call m.buf (space env m.buf) (callOf env s (s.ctx env slot) m) =
        (some ((callOf env s (s.ctx env slot) m).stored ((s.mem m.buf).forLaunch m.buf env.id) new),
          accessReports (space env m.buf) m.index (s.cellOf env m.buf m.index).init
            (s.accessOf env (s.ctx env slot) m) (s.recorded env (s.ctx env slot) m).2) := by
      have inside : ¬ m.index ≥ ((s.mem m.buf).forLaunch m.buf env.id).len := Nat.not_le.mpr inside
      unfold Instrumented.call
      simp only [callOf, inside, if_false, updated]
      rfl
    have cell : (callOf env s (s.ctx env slot) m).leaves (s.cellOf env m.buf m.index) =
        s.published env (s.ctx env slot) m := by
      unfold Call.leaves published
      cases ordering : m.act.ordering <;> simp only [callOf, ordering] <;> rfl
    refine ⟨?_, by rw [ran]; rfl, fun b other => Function.update_of_ne other ..⟩
    have kept : (s.accessed env (s.ctx env slot) m new resp).mem m.buf =
        { (s.mem m.buf).forLaunch m.buf env.id with
          data := Function.update ((s.mem m.buf).forLaunch m.buf env.id).data m.index new
          shadow := Function.update ((s.mem m.buf).forLaunch m.buf env.id).shadow m.index
            (s.published env (s.ctx env slot) m) } := Function.update_self ..
    rw [ran, kept, ← cell]
    rfl
  | overflow m pc message inside updated =>
    refine ⟨?_, rfl⟩
    have inside : ¬ m.index ≥ ((s.mem m.buf).forLaunch m.buf env.id).len := Nat.not_le.mpr inside
    unfold Instrumented.call
    simp only [callOf, inside, if_false, updated]
  | miss m pc f act outside =>
    refine ⟨?_, fun b other => Function.update_of_ne other ..⟩
    have kept : ((s.missed env (s.ctx env slot) m).answer slot (.elem none)).mem m.buf =
        (s.mem m.buf).forLaunch m.buf env.id := Function.update_self ..
    rw [kept]
    exact if_pos outside
  | outOfBounds m pc outside =>
    refine ⟨?_, fun b other => Function.update_of_ne other ..⟩
    have kept : (s.missed env (s.ctx env slot) m).mem m.buf =
        (s.mem m.buf).forLaunch m.buf env.id := Function.update_self ..
    change _ = (some ((s.missed env (s.ctx env slot) m).mem m.buf), [])
    rw [kept]
    exact if_pos outside
  | finish | panic | fence | arrive | yieldAccess | yieldCollective | depart | refuse | publish
  | mistyped | exchange | leave => rfl

end Launch

end Riri
