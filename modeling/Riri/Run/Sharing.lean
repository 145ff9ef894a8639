import Riri.Run.Cells
import Riri.Source.Sharing

/-!
# Launches on host threads are runs of operations

What a step of a launch does to its clocks and arrays is what the operation of its label does. So
launches that run at once, in whatever order their host threads let them, do to clocks and arrays
what the sequence of their operations does, and report the same races.
-/
namespace Riri

variable {V : Type}

/-! ### Operations -/

namespace HostState

variable {s : HostState} {launch other : Nat} {op : HostOp V}

theorem inst_len (s : HostState) (launch : Nat) (buf : Buf) :
    (s.inst launch buf).len = (s.mem (buf.place launch)).len :=
  (Instrumented.forLaunch_data ..).2

/-- The array of an access, after it. -/
theorem used_mem (s : HostState) (other : Nat) (u : Use V) :
    ∃ inst, (s.used other u).mem = Function.update s.mem (u.op.buf.place other) inst ∧
      inst.launchId = other ∧ inst.len = (s.mem (u.op.buf.place other)).len ∧
      ∀ i, inst.shadow i =
        if u.op.index = i ∧ i < (s.mem (u.op.buf.place other)).len then
          u.published (s.sync other) (s.cell other u.op.buf i)
        else s.cell other u.op.buf i := by
  have len := s.inst_len other u.op.buf
  have launched : (s.inst other u.op.buf).launchId = other := Instrumented.forLaunch_launchId ..
  unfold used
  by_cases outside : u.op.index ≥ (s.inst other u.op.buf).len
  · simp only [outside, if_true]
    refine ⟨_, rfl, launched, len, fun i => (if_neg fun inside => ?_).symm⟩
    omega
  · simp only [outside, if_false]
    refine ⟨_, rfl, launched, len, fun i => ?_⟩
    by_cases here : u.op.index = i
    · subst here
      rw [if_pos ⟨rfl, by omega⟩]
      exact Function.update_self ..
    · rw [if_neg fun both => here both.1]
      exact Function.update_of_ne (Ne.symm here) ..

theorem apply_len (s : HostState) (launch : Nat) (op : HostOp V) (place : Place) :
    ((s.apply launch op).mem place).len = (s.mem place).len := by
  cases op with
  | use u =>
    obtain ⟨inst, mem, -, len, -⟩ := s.used_mem launch u
    simp only [apply, mem]
    by_cases here : place = u.op.buf.place launch
    · subst here
      rw [Function.update_self, len]
    · rw [Function.update_of_ne here]
  | fence | arrive | depart | idle => rfl

theorem apply_sync_of_ne (ne : other ≠ launch) : (s.apply other op).sync launch = s.sync launch := by
  cases op with
  | use u =>
    simp only [apply, used]
    split <;> exact Function.update_of_ne (Ne.symm ne) ..
  | fence | arrive | depart => exact Function.update_of_ne (Ne.symm ne) ..
  | idle => rfl

/-- A `__shared__` array is its own launch's. -/
theorem apply_shared_of_ne (ne : other ≠ launch) (block : Nat) (name : String) :
    (s.apply other op).mem (.shared launch block name) = s.mem (.shared launch block name) := by
  cases op with
  | use u =>
    obtain ⟨inst, mem, -⟩ := s.used_mem other u
    have away : Place.shared launch block name ≠ u.op.buf.place other := by
      intro same
      exact ne (Buf.place_of_shared same.symm).symm
    simp only [apply, mem, Function.update_of_ne away]
  | fence | arrive | depart | idle => rfl

end HostState

/-! ### Steps of a launch -/

variable [BEq V]

omit [BEq V] in
theorem Instrumented.erased_forLaunch (buf : Buf) (id : Nat) (m : Instrumented V) :
    m.erased.forLaunch buf id = (m.forLaunch buf id).erased := by
  unfold forLaunch
  by_cases same : m.launchId ≠ id
  · rw [if_pos same, if_pos (show m.erased.launchId ≠ id from same)]
    cases buf <;> rfl
  · rw [if_neg same, if_neg (show ¬ m.erased.launchId ≠ id from same)]

namespace Launch

variable {env : Env V}

/-- A launch in the midst of others: the clocks and arrays it uses are these. -/
structure Embedded (env : Env V) (s : Launch V) (t : HostState) (usable : Buf → Prop) : Prop where
  sync : t.sync env.id = s.sync
  mem : ∀ buf, usable buf → t.mem (buf.place env.id) = (s.mem buf).erased

variable {s s' : Launch V} {t : HostState} {usable : Buf → Prop} {slot : Nat} {l : Label V}

omit [BEq V] in
theorem Embedded.inst (embedded : Embedded env s t usable) {buf : Buf} (free : usable buf) :
    t.inst env.id buf = ((s.mem buf).forLaunch buf env.id).erased := by
  rw [HostState.inst, embedded.mem buf free, Instrumented.erased_forLaunch]

omit [BEq V] in
theorem Embedded.cell (embedded : Embedded env s t usable) {buf : Buf} (free : usable buf)
    (index : Nat) : t.cell env.id buf index = s.cellOf env buf index := by
  rw [HostState.cell, embedded.inst free]
  rfl

omit [BEq V] in
theorem Embedded.withSync (embedded : Embedded env s t usable) {sync : SyncState}
    (clocks : s'.sync = sync) (mem : s'.mem = s.mem) :
    Embedded env s' (t.withSync env.id sync) usable :=
  ⟨(Function.update_self ..).trans clocks.symm, fun buf free => by rw [mem]; exact embedded.mem buf free⟩

omit [BEq V] in
theorem Embedded.stored (embedded : Embedded env s t usable) {buf : Buf} {sync : SyncState}
    {inst : Instrumented V} (clocks : s'.sync = sync)
    (mem : s'.mem = Function.update s.mem buf inst) :
    Embedded env s' { t.withSync env.id sync with
      mem := Function.update t.mem (buf.place env.id) inst.erased } usable := by
  refine ⟨(Function.update_self ..).trans clocks.symm, fun b free => ?_⟩
  rw [mem]
  by_cases here : b = buf
  · subst here
    simp only [Function.update_self]
  · have away : b.place env.id ≠ buf.place env.id := fun same =>
      here (Buf.place_injective env.id same)
    simp only [Function.update_of_ne here, Function.update_of_ne away]
    exact embedded.mem b free

def useOf (cx : Ctx) (m : MemOp V) (acc : Access) : Use V := ⟨cx, acc.epoch, acc.warpEpoch, m⟩

omit [BEq V] in
theorem Embedded.used_outside (embedded : Embedded env s t usable) {m : MemOp V} (cx : Ctx)
    (acc : Access) (free : usable m.buf)
    (outside : ((s.mem m.buf).forLaunch m.buf env.id).len ≤ m.index) :
    t.used env.id (useOf cx m acc) =
      { t.withSync env.id (s.missed env cx m).sync with
        mem := Function.update t.mem (m.buf.place env.id)
          ((s.mem m.buf).forLaunch m.buf env.id).erased } := by
  unfold HostState.used
  simp only [useOf, embedded.inst free, embedded.sync]
  exact if_pos outside

omit [BEq V] in
theorem Embedded.used_inside (embedded : Embedded env s t usable) {m : MemOp V} (cx : Ctx)
    (free : usable m.buf) (inside : m.index < ((s.mem m.buf).forLaunch m.buf env.id).len)
    (data : Nat → V) :
    t.used env.id (useOf cx m (s.accessOf env cx m)) =
      { t.withSync env.id (s.ticked env cx m) with
        mem := Function.update t.mem (m.buf.place env.id)
          { (s.mem m.buf).forLaunch m.buf env.id with
            data := data
            shadow := Function.update ((s.mem m.buf).forLaunch m.buf env.id).shadow m.index
              (s.published env cx m) : Instrumented V }.erased } := by
  unfold HostState.used
  simp only [useOf, embedded.inst free, embedded.sync]
  exact if_neg (Nat.not_le_of_lt inside)

/-- A step, and the operation of its label. Arithmetic that panics is no operation. -/
theorem Resumed.embedded (resumed : Resumed env s slot l s') (embedded : Embedded env s t usable)
    (free : ∀ m, (s.threads slot).pc = .atAccess m → usable m.buf)
    (calm : ∀ cx m acc, l ≠ .fault cx m acc false) :
    Embedded env s' (t.apply env.id l.hostOp) usable := by
  have same : ∀ {s' : Launch V}, s'.sync = s.sync → s'.mem = s.mem → Embedded env s' t usable :=
    fun clocks mem => ⟨embedded.sync.trans clocks.symm, by rw [mem]; exact embedded.mem⟩
  cases resumed with
  | access m pc new resp inside updated =>
    have used := embedded.used_inside (s.ctx env slot) (free m pc) inside
      (Function.update ((s.mem m.buf).forLaunch m.buf env.id).data m.index new)
    rw [Label.hostOp, HostState.apply]
    exact used ▸ embedded.stored rfl rfl
  | overflow m => exact absurd rfl (calm _ m _)
  | miss m pc f act outside =>
    have used := embedded.used_outside (s.ctx env slot)
      (s.access env (s.ctx env slot) s.sync m.act.kind m.loc).1 (free m pc) outside
    rw [Label.hostOp, HostState.apply]
    exact used ▸ embedded.stored rfl rfl
  | outOfBounds m pc outside =>
    have used := embedded.used_outside (s.ctx env slot)
      (s.access env (s.ctx env slot) s.sync m.act.kind m.loc).1 (free m pc) outside
    rw [Label.hostOp, HostState.apply]
    exact used ▸ embedded.stored rfl rfl
  | fence pc ordering =>
    rw [Label.hostOp, HostState.apply, embedded.sync]
    exact embedded.withSync rfl rfl
  | arrive pc loc =>
    rw [Label.hostOp, HostState.apply, embedded.sync]
    exact embedded.withSync rfl rfl
  | depart gen pc =>
    rw [Label.hostOp, HostState.apply, embedded.sync]
    exact embedded.withSync rfl rfl
  | finish | panic | yieldAccess | yieldCollective | refuse | publish | mistyped | exchange
  | leave => exact same rfl rfl

/-- Arithmetic that panics stops the launch, and touches the array of the access only. -/
theorem Resumed.overflowed {cx : Ctx} {m : MemOp V} {acc : Access}
    (resumed : Resumed env s slot (.fault cx m acc false) s') :
    s'.sched.aborted = true ∧ ∀ buf, buf ≠ m.buf → s'.mem buf = s.mem buf := by
  cases resumed with
  | overflow => exact ⟨rfl, fun buf away => Function.update_of_ne away ..⟩

/-- The operation of a step finds the conflict of its access. -/
theorem Resumed.hostRaces (resumed : Resumed env s slot l s') (embedded : Embedded env s t usable)
    (free : ∀ m, (s.threads slot).pc = .atAccess m → usable m.buf) (space : Buf → MemSpace)
    (d : Diagnostic) :
    d ∈ t.races env.id space l.hostOp ↔ ∃ cx m acc old first, l = .access cx m acc old (some first) ∧
      d = .dataRace (space m.buf) m.index first acc := by
  have outside : ∀ {m : MemOp V} (cx : Ctx) (acc : Access), usable m.buf →
      ((s.mem m.buf).forLaunch m.buf env.id).len ≤ m.index →
      t.races env.id space (.use (useOf cx m acc)) = [] := by
    intro m cx acc free outside
    simp only [HostState.races, useOf, embedded.inst free]
    exact if_pos outside
  cases resumed with
  | access m pc new resp inside updated =>
    have races : t.races env.id space (.use (useOf (s.ctx env slot) m
        (s.accessOf env (s.ctx env slot) m))) =
        (s.recorded env (s.ctx env slot) m).2.toList.map fun first =>
          .dataRace (space m.buf) m.index first (s.accessOf env (s.ctx env slot) m) := by
      simp only [HostState.races, useOf, embedded.inst (free m pc), embedded.cell (free m pc),
        embedded.sync]
      exact if_neg (Nat.not_le_of_lt inside)
    rw [Label.hostOp]
    refine (iff_of_eq (congrArg (d ∈ ·) races)).trans ?_
    rw [List.mem_map]
    constructor
    · rintro ⟨first, conflict, rfl⟩
      exact ⟨_, m, _, _, first, by rw [Option.mem_toList.mp conflict], rfl⟩
    · rintro ⟨cx, m', acc, old, first, same, rfl⟩
      obtain ⟨-, rfl, rfl, -, conflict⟩ := Label.access.inj same
      exact ⟨first, Option.mem_toList.mpr conflict, rfl⟩
  | overflow => simp [Label.hostOp, HostState.races]
  | miss m pc f act beyond =>
    refine iff_of_false (fun race => ?_) (by simp)
    rw [Label.hostOp] at race
    exact absurd (outside (s.ctx env slot) _ (free m pc) beyond ▸ race) List.not_mem_nil
  | outOfBounds m pc beyond =>
    refine iff_of_false (fun race => ?_) (by simp)
    rw [Label.hostOp] at race
    exact absurd (outside (s.ctx env slot) _ (free m pc) beyond ▸ race) List.not_mem_nil
  | finish | panic | fence | arrive | yieldAccess | yieldCollective | depart | refuse | publish
  | mistyped | exchange | leave => simp [Label.hostOp, HostState.races]

/-- The races the step raises are those of the operation. -/
theorem Resumed.races_iff (resumed : Resumed env s slot l s') (embedded : Embedded env s t usable)
    (free : ∀ m, (s.threads slot).pc = .atAccess m → usable m.buf) {sp : MemSpace} {ix : Nat}
    {first second : Access} :
    .dataRace sp ix first second ∈ s'.raised ↔ .dataRace sp ix first second ∈ s.raised ∨
      .dataRace sp ix first second ∈ t.races env.id (space env) l.hostOp := by
  rw [resumed.hostRaces embedded free]
  rcases resumed.raises with ⟨cx, m, acc, old, found, rfl, raised⟩ | ⟨quiet, ds, raised, clean⟩
  · rw [raised, List.mem_append, mem_accessReports]
    refine or_congr Iff.rfl ⟨?_, ?_⟩
    · rintro ⟨same, rfl, rfl, rfl⟩
      exact ⟨cx, m, _, old, found, rfl, by rw [Option.some.inj same]⟩
    · rintro ⟨cx', m', acc', old', found', same, race⟩
      cases same
      cases race
      exact ⟨rfl, rfl, rfl, rfl⟩
  · rw [raised, List.mem_append]
    refine or_congr Iff.rfl (iff_of_false (fun member => ?_) ?_)
    · cases clean _ member
    · rintro ⟨cx, m, acc, old, found, same, -⟩
      exact quiet cx m acc old found same

end Launch

/-! ### Launches of host threads -/

namespace HostThreads

variable {hosts : HostEnv V} {s s' : HostThreads V} {t : HostState} {i : Nat} {l : Label V}

/-- The host's clocks and arrays are these. A launch that is over does not count, and neither does
a buffer with a poisoned lock. -/
structure Agrees (hosts : HostEnv V) (s : HostThreads V) (t : HostState) : Prop where
  sync : ∀ i, (s.launch i).sched.aborted = false → t.sync (hosts.env i).id = (s.launch i).sync
  shared : ∀ i block name, (s.launch i).sched.aborted = false →
    t.mem (.shared (hosts.env i).id block name) = ((s.launch i).mem (.shared block name)).erased
  global : ∀ i id, s.poisoned id = false →
    t.mem (.global id) = ((s.launch i).mem (.global id)).erased

def Usable (s : HostThreads V) (buf : Buf) : Prop := ∀ id, buf = .global id → s.poisoned id = false

omit [BEq V] in
theorem Agrees.embedded (agrees : Agrees hosts s t) (live : (s.launch i).sched.aborted = false) :
    (s.launch i).Embedded (hosts.env i) t s.Usable where
  sync := agrees.sync i live
  mem := by
    intro buf usable
    cases buf with
    | global id => exact agrees.global i id (usable id rfl)
    | shared block name => exact agrees.shared i block name live

omit [BEq V] in
theorem ids_ne {i j : Nat} (ne : j ≠ i) : (hosts.env i).id ≠ (hosts.env j).id := by
  rw [hosts.numbered, hosts.numbered]
  omega

omit [BEq V] in
/-- After a step of launch `i`: what it holds itself, and what it has left for the others. -/
theorem Agrees.stored (agrees : Agrees hosts s t) {launch : Launch V} {poisoned : Nat → Bool}
    (op : HostOp V)
    (own : launch.sched.aborted = false →
      launch.Embedded (hosts.env i) (t.apply (hosts.env i).id op) s.Usable)
    (global : ∀ id, poisoned id = false →
      (t.apply (hosts.env i).id op).mem (.global id) = (launch.mem (.global id)).erased) :
    Agrees hosts ⟨s.store i launch, poisoned⟩ (t.apply (hosts.env i).id op) where
  sync := by
    intro j live
    by_cases here : j = i
    · subst here
      simp only [store, if_true] at live ⊢
      exact (own live).sync
    · simp only [store, here, if_false] at live ⊢
      rw [HostState.apply_sync_of_ne (ids_ne here)]
      exact agrees.sync j live
  shared := by
    intro j block name live
    by_cases here : j = i
    · subst here
      simp only [store, if_true] at live ⊢
      exact (own live).mem (.shared block name) fun id same => by cases same
    · simp only [store, here, if_false] at live ⊢
      rw [HostState.apply_shared_of_ne (ids_ne here)]
      exact agrees.shared j block name live
  global := by
    intro j id clean
    rw [global id clean]
    by_cases here : j = i
    · simp only [store, here, if_true]
    · simp only [store, here, if_false]

omit [BEq V] in
/-- A thread that panics on a poisoned lock does nothing else. -/
theorem Agrees.refused (agrees : Agrees hosts s t) (d : Diagnostic) :
    Agrees hosts ⟨s.store i ((s.launch i).trap d), s.poisoned⟩
      (t.apply (hosts.env i).id (.idle : HostOp V)) :=
  agrees.stored .idle (fun live => by cases live) fun id clean => agrees.global i id clean

omit [BEq V] in
/-- The thread that goes on finds the lock of its array usable. -/
theorem usable_of_not_refused (none_refused : s.refused hosts i = none)
    (live : (s.launch i).sched.aborted = false) {slot : Nat}
    (current : (s.launch i).sched.current = some slot) {m : MemOp V}
    (pc : ((s.launch i).threads slot).pc = .atAccess m) : s.Usable m.buf := by
  intro id global
  simp only [HostThreads.refused, live, current, pc, global, Bool.false_eq_true, if_false,
    Option.bind_some] at none_refused
  by_contra poisoned
  rw [if_pos (by simpa using poisoned)] at none_refused
  cases none_refused

/-- A step does what its operation does. -/
theorem Agrees.step (agrees : Agrees hosts s t) (stepped : s.step hosts i = some (l, s')) :
    Agrees hosts s' (t.apply (hosts.env i).id l.hostOp) := by
  unfold HostThreads.step at stepped
  cases refused : s.refused hosts i with
  | some cx =>
    rw [refused] at stepped
    obtain ⟨rfl, rfl⟩ := Prod.mk.inj (Option.some.inj stepped)
    exact agrees.refused _
  | none =>
    rw [refused] at stepped
    obtain ⟨⟨l', launch⟩, moved, same⟩ := Option.map_eq_some_iff.mp stepped
    obtain ⟨rfl, rfl⟩ := Prod.mk.inj same
    obtain ⟨live, ⟨-, -, rfl, rfl⟩ | ⟨slot, current, resumed⟩⟩ := Launch.step_cases _ moved
    · have embedded := agrees.embedded live
      exact agrees.stored .idle (fun _ => ⟨embedded.sync, embedded.mem⟩) fun id clean =>
        agrees.global i id clean
    · have free : ∀ m, ((s.launch i).threads slot).pc = .atAccess m → s.Usable m.buf :=
        fun m pc => usable_of_not_refused refused live current pc
      by_cases calm : ∃ cx m acc, l' = .fault cx m acc false
      · obtain ⟨cx, m, acc, rfl⟩ := calm
        obtain ⟨failed, kept⟩ := resumed.overflowed
        refine agrees.stored .idle (fun live => ?_) fun id clean => ?_
        · rw [failed] at live
          cases live
        · have away : m.buf ≠ .global id := by
            intro here
            simp [poisons, here] at clean
          have before : s.poisoned id = false := by
            cases buf : m.buf with
            | global id' =>
              have other : id ≠ id' := fun same => away (by rw [buf, same])
              simpa [poisons, buf, Function.update_of_ne other] using clean
            | shared block name => simpa [poisons, buf] using clean
          rw [kept (.global id) (Ne.symm away)]
          exact agrees.global i id before
      · push Not at calm
        have embedded := resumed.embedded (agrees.embedded live) free calm
        have kept : s.poisons l' = s.poisoned := by
          unfold poisons
          split
          next cx m acc => exact absurd rfl (calm cx m acc)
          next => rfl
        simp only [kept]
        exact agrees.stored l'.hostOp (fun _ => embedded) fun id clean =>
          embedded.mem (.global id) fun id' same => by cases same; exact clean

theorem trace_of_step {order : Nat → Nat} {n : Nat}
    (stepped : (state hosts order n).step hosts (order n) = some (l, s')) :
    state hosts order (n + 1) = s' ∧
      trace hosts order n = ((hosts.env (order n)).id, l.hostOp) := by
  rw [state, trace, stepped]
  exact ⟨rfl, rfl⟩

/-- However the host threads take turns, clocks and arrays are those of the operations so far. -/
theorem agrees_run (order : Nat → Nat) (n : Nat) :
    Agrees hosts (state hosts order n) ((trace hosts order).after (arrays hosts) n) := by
  induction n with
  | zero =>
    refine ⟨fun _ _ => rfl, fun i block name _ => ?_, fun i id _ => ?_⟩
    · simp only [HostRun.after, arrays, hosts.numbered, Nat.add_sub_cancel]
      rfl
    · simp only [HostRun.after, arrays, hosts.shared 0 i]
      rfl
  | succ n ih =>
    cases stepped : (state hosts order n).step hosts (order n) with
    | none =>
      have idle : trace hosts order n = ((hosts.env (order n)).id, .idle) := by
        rw [trace, stepped]
      rw [HostRun.after, idle, state, stepped]
      exact ih
    | some r =>
      obtain ⟨l, s'⟩ := r
      obtain ⟨next, operation⟩ := trace_of_step stepped
      rw [HostRun.after, next, operation]
      exact ih.step stepped

/-- What a step of launch `i` raises, of races, is what its operation finds. -/
theorem Agrees.raised (agrees : Agrees hosts s t) (stepped : s.step hosts i = some (l, s'))
    {sp : MemSpace} {ix : Nat} {first second : Access} :
    .dataRace sp ix first second ∈ (s'.launch i).raised ↔
      .dataRace sp ix first second ∈ (s.launch i).raised ∨
        .dataRace sp ix first second ∈
          t.races (hosts.env i).id (Launch.space (hosts.env i)) l.hostOp := by
  unfold HostThreads.step at stepped
  cases refused : s.refused hosts i with
  | some cx =>
    rw [refused] at stepped
    obtain ⟨rfl, rfl⟩ := Prod.mk.inj (Option.some.inj stepped)
    simp [store, Launch.trap, Launch.withSched, Label.hostOp, HostState.races]
  | none =>
    rw [refused] at stepped
    obtain ⟨⟨l', launch⟩, moved, same⟩ := Option.map_eq_some_iff.mp stepped
    obtain ⟨rfl, rfl⟩ := Prod.mk.inj same
    obtain ⟨live, ⟨-, -, rfl, rfl⟩ | ⟨slot, current, resumed⟩⟩ := Launch.step_cases _ moved
    · simp [store, Launch.nextWave, Label.hostOp, HostState.races]
    · simp only [store, if_true]
      exact resumed.races_iff (agrees.embedded live) fun m pc =>
        usable_of_not_refused refused live current pc

/-- A step raises the races its operation finds. -/
theorem raised_step {order : Nat → Nat} {n : Nat} {sp : MemSpace} {ix : Nat}
    {first second : Access} :
    .dataRace sp ix first second ∈ ((state hosts order (n + 1)).launch (order n)).raised ↔
      .dataRace sp ix first second ∈ ((state hosts order n).launch (order n)).raised ∨
        .dataRace sp ix first second ∈ (trace hosts order).races (arrays hosts)
          (Launch.space (hosts.env (order n))) n := by
  unfold HostRun.races
  cases stepped : (state hosts order n).step hosts (order n) with
  | none =>
    have idle : trace hosts order n = ((hosts.env (order n)).id, .idle) := by
      rw [trace, stepped]
    rw [idle, state, stepped]
    simp [HostState.races]
  | some r =>
    obtain ⟨l, s'⟩ := r
    obtain ⟨next, operation⟩ := trace_of_step stepped
    rw [next, operation]
    exact (agrees_run order n).raised stepped

end HostThreads

end Riri
