import Riri.Run.Programs
import Riri.Run.Timeline
import Riri.Source.Poison

/-!
# Buffers after a fault

A fault stops the launch and should cost the host nothing but the report. It does not where a
thread unwinds through a guard: arithmetic that panics inside an access, and a borrowed element
in the hands of any thread that has not returned when the launch is stopped. The mutex stays
poisoned, and every later use of the buffer panics.
-/
namespace Riri.Hosted

variable {V : Type}

/-! ### Dropped guards -/

theorem dropGuard_eq (unwinding : Bool) (poisoned : Buf → Bool) (buf b : Buf) :
    dropGuard unwinding poisoned buf b = (poisoned b || (unwinding && decide (b = buf))) := by
  by_cases same : b = buf
  · subst same
    simp [dropGuard]
  · simp [dropGuard, same]

/-- Unwinding poisons what was held and nothing else. -/
theorem unwind_eq (poisoned : Buf → Bool) (guards : List ElemMut) (b : Buf) :
    unwind poisoned guards b = (poisoned b || guards.any fun e => e.buf = b) := by
  unfold unwind
  induction guards generalizing poisoned with
  | nil => simp
  | cons e rest ih =>
    rw [List.foldl_cons, ih, dropGuard_eq, List.any_cons, Bool.true_and, Bool.or_assoc]
    simp only [eq_comm]

variable [BEq V]

/-! ### One step -/

section

variable {env : Env V} {kernel : BorrowKernel V} {s s' : Hosted V}

theorem step_cases (h : s.step env kernel = some s') :
    s.run.launch.sched.aborted = false ∧
      ((s.run.launch.sched.current = none ∧ s'.poisoned = s.poisoned) ∨
      ∃ slot, s.run.launch.sched.current = some slot ∧
        ((s.refuses env kernel slot = true ∧ s' = s.refused env slot) ∨
        (s.refuses env kernel slot = false ∧ ∃ run', s.run.step env kernel = some run' ∧
          s' = s.steps env kernel slot run'))) := by
  unfold step at h
  split at h
  · cases h
  next running =>
    refine ⟨by simpa using running, ?_⟩
    split at h
    next slot current =>
      refine .inr ⟨slot, current, ?_⟩
      split at h
      next refuses => exact .inl ⟨refuses, (Option.some.inj h).symm⟩
      next free =>
        obtain ⟨run', stepped, same⟩ := Option.map_eq_some_iff.mp h
        exact .inr ⟨by simpa using free, run', stepped, same.symm⟩
    next current =>
      obtain ⟨run', -, rfl⟩ := Option.map_eq_some_iff.mp h
      exact .inl ⟨current, rfl⟩

/-- The thread in `slot` is about to panic in the arithmetic of an access to this buffer. -/
def Overflows (s : Hosted V) (env : Env V) (slot : Nat) (buf : Buf) : Prop :=
  ∃ m message, (s.run.launch.threads slot).pc = .atAccess m ∧ m.buf = buf ∧
    m.index < ((s.run.launch.mem m.buf).forLaunch m.buf env.id).len ∧
    m.act.update (((s.run.launch.mem m.buf).forLaunch m.buf env.id).data m.index) = .error message

/-- Of the ways an access can go, only arithmetic that panics poisons the lock. -/
theorem accessed_iff {slot : Nat} {b : Buf} :
    s.accessed env slot b = true ↔ s.poisoned b = true ∨ s.Overflows env slot b := by
  by_cases reached : ∃ m, (s.run.launch.threads slot).pc = .atAccess m
  · obtain ⟨m, pc⟩ := reached
    have same : ∀ m', (s.run.launch.threads slot).pc = .atAccess m' → m' = m := by
      intro m' pc'
      exact Pc.atAccess.inj (pc'.symm.trans pc)
    by_cases outside : m.index ≥ ((s.run.launch.mem m.buf).forLaunch m.buf env.id).len
    · have misses : ¬ s.Overflows env slot b := by
        rintro ⟨m', message, pc', -, inside, -⟩
        obtain rfl := same m' pc'
        omega
      have intact : s.accessed env slot b = s.poisoned b := by
        have fault : ∃ cx acc,
            (s.run.launch.checkedAccess env (s.run.launch.ctx env slot) m).1 =
              .fault cx m acc true := by
          simp only [Launch.checkedAccess, outside, if_true]
          split <;> exact ⟨_, _, rfl⟩
        obtain ⟨cx, acc, fault⟩ := fault
        simp only [accessed, pc, fault, dropGuard_eq, Bool.not_true, Bool.false_and, Bool.or_false]
      rw [intact]
      exact (or_iff_left misses).symm
    · have inside := Nat.lt_of_not_le outside
      cases updated : m.act.update
          (((s.run.launch.mem m.buf).forLaunch m.buf env.id).data m.index) with
      | error message =>
        have poisons : s.accessed env slot b = (s.poisoned b || decide (b = m.buf)) := by
          simp only [accessed, pc, Launch.checkedAccess, outside, if_false, updated, dropGuard_eq,
            Bool.not_false, Bool.true_and]
        rw [poisons, Bool.or_eq_true, decide_eq_true_eq]
        refine or_congr_right ⟨?_, ?_⟩
        · rintro rfl
          exact ⟨m, message, pc, rfl, inside, updated⟩
        · rintro ⟨m', message', pc', rfl, -⟩
          rw [same m' pc']
      | ok result =>
        have intact : s.accessed env slot b = s.poisoned b := by
          simp only [accessed, pc, Launch.checkedAccess, outside, if_false, updated]
        have completes : ¬ s.Overflows env slot b := by
          rintro ⟨m', message, pc', -, -, failed⟩
          obtain rfl := same m' pc'
          rw [updated] at failed
          cases failed
        rw [intact]
        exact (or_iff_left completes).symm
  · have elsewhere : s.accessed env slot b = s.poisoned b := by
      unfold accessed
      cases pc : (s.run.launch.threads slot).pc with
      | atAccess m => exact absurd ⟨m, pc⟩ reached
      | _ => rfl
    rw [elsewhere]
    refine (or_iff_left ?_).symm
    rintro ⟨m, message, pc, -⟩
    exact reached ⟨m, pc⟩

variable (kernel) in
/-- An access whose arithmetic panics waits for the lock for good or stops the launch. -/
theorem step_overflows {slot : Nat} {buf : Buf}
    (live : s.run.launch.sched.aborted = false)
    (current : s.run.launch.sched.current = some slot) (overflows : s.Overflows env slot buf) :
    if s.run.locked buf then s.run.step env kernel = none
    else ∃ run', s.run.step env kernel = some run' ∧ run'.launch.sched.aborted = true := by
  obtain ⟨m, message, pc, rfl, inside, updated⟩ := overflows
  simp only [Borrowing.step, live, current, Bool.false_eq_true, if_false, Borrowing.resume, pc]
  cases locked : s.run.locked m.buf with
  | true => simp
  | false =>
    simp only [Bool.false_eq_true, if_false, Launch.checkedAccess, Nat.not_le.mpr inside, updated]
    exact ⟨_, rfl, rfl⟩

theorem aborts_of_overflows {slot : Nat} {buf : Buf} {run' : Borrowing V}
    (live : s.run.launch.sched.aborted = false)
    (current : s.run.launch.sched.current = some slot)
    (stepped : s.run.step env kernel = some run') (overflows : s.Overflows env slot buf) :
    s.run.locked buf = false ∧ run'.launch.sched.aborted = true := by
  have moved := step_overflows kernel live current overflows
  split at moved
  · rw [stepped] at moved
    cases moved
  next free =>
    obtain ⟨run'', stepped', aborts⟩ := moved
    obtain rfl := Option.some.inj (stepped.symm.trans stepped')
    exact ⟨by simpa using free, aborts⟩

/-- A step that does not stop the launch poisons nothing. -/
theorem poisoned_of_live (h : s.step env kernel = some s')
    (live : s'.run.launch.sched.aborted = false) : s'.poisoned = s.poisoned := by
  obtain ⟨running, ⟨-, same⟩ | ⟨slot, current, ⟨-, rfl⟩ | ⟨-, run', stepped, rfl⟩⟩⟩ := step_cases h
  · exact same
  · cases live
  · change run'.launch.sched.aborted = false at live
    simp only [steps, live, Bool.false_eq_true, if_false]
    refine funext fun b => Bool.eq_iff_iff.mpr (accessed_iff.trans (or_iff_left fun overflows => ?_))
    rw [(aborts_of_overflows running current stepped overflows).2] at live
    cases live

/-- Nothing is poisoned while a launch runs that was not poisoned before it. -/
theorem poisoned_launch {poisoned : Buf → Bool} {n : Nat}
    (live : ((launch env kernel poisoned).state n).run.launch.sched.aborted = false) :
    ((launch env kernel poisoned).state n).poisoned = poisoned := by
  induction n with
  | zero => rfl
  | succ n ih =>
    rcases (launch env kernel poisoned).step_cases n with ⟨_, -, moved⟩ | ⟨-, stays⟩
    · obtain ⟨s', stepped, same⟩ := Option.map_eq_some_iff.mp moved
      obtain rfl := (Prod.mk.inj same).2
      rw [poisoned_of_live stepped live]
      exact ih (step_cases stepped).1
    · rw [stays] at live ⊢
      exact ih live

end

/-! ### What the host and later launches can do -/

def Returned (s : Hosted V) (env : Env V) : Prop := s.run.launch.step env = none

/-- The host can read the buffer, and no thread of a later launch over it panics on its lock. -/
structure Usable (s : Hosted V) (id : Nat) : Prop where
  len : (s.len id).isSome
  toVec : (s.toVec id).isSome
  later : ∀ (env : Env V) (kernel : BorrowKernel V) (n slot : Nat),
    env.mem (.global id) = s.run.launch.mem (.global id) →
    let t := (launch env kernel s.poisoned).state n
    t.run.launch.sched.aborted = false → t.takes env kernel slot = some (.global id) →
      t.refuses env kernel slot = false

theorem usable_of_clean {s : Hosted V} {id : Nat} (clean : s.poisoned (.global id) = false) :
    s.Usable id where
  len := by simp [Hosted.len, clean]
  toVec := by simp [Hosted.toVec, clean]
  later := by
    intro env kernel n slot _ t live takes
    have still : t.poisoned (.global id) = false := by
      rw [show t.poisoned = s.poisoned from poisoned_launch live, clean]
    simp [refuses, takes, still]

omit [BEq V] in
theorem clean_of_len {s : Hosted V} {id : Nat} (readable : (s.len id).isSome) :
    s.poisoned (.global id) = false := by
  unfold Hosted.len at readable
  split at readable
  · cases readable
  next clean => simpa using clean

/-- What the thread with the turn must not do to a buffer of the host: panic in the arithmetic of
an access to it, or stop the launch while somebody who has not returned has an element of it
borrowed. -/
structure Spares (s : Hosted V) (env : Env V) (kernel : BorrowKernel V) (slot id : Nat) : Prop where
  arithmetic : s.run.locked (.global id) = false → ¬ s.Overflows env slot (.global id)
  borrows : ∀ run', s.run.step env kernel = some run' → run'.launch.sched.aborted = true →
    ∀ e ∈ s.run.guards, e.buf = .global id → s.returning env kernel slot = true ∧ e.slot = slot

/-- Over clean buffers, whatever ends the launch, the buffer stays usable. -/
def LeavesUsable (env : Env V) (kernel : BorrowKernel V) (id : Nat) : Prop :=
  ∀ n, let s := (launch env kernel fun _ => false).state n
    s.Returned env → s.Usable id

/-- Every step of the launch spares the buffer. -/
def Careful (env : Env V) (kernel : BorrowKernel V) (id : Nat) : Prop :=
  ∀ n slot, let s := (launch env kernel fun _ => false).state n
    s.run.launch.sched.aborted = false → s.run.launch.sched.current = some slot →
      s.Spares env kernel slot id

variable {env : Env V} {kernel : BorrowKernel V}

omit [BEq V] in
theorem mem_unwound {s : Hosted V} {slot : Nat} {e : ElemMut} :
    e ∈ s.unwound env kernel slot ↔
      e ∈ s.run.guards ∧ ¬ (s.returning env kernel slot = true ∧ e.slot = slot) := by
  unfold unwound
  split
  next returns => simp [returns, List.mem_filter]
  next stays => simp [stays]

omit [BEq V] in
theorem refuses_of_clean {s : Hosted V} (clean : ∀ b, s.poisoned b = false) (slot : Nat) :
    s.refuses env kernel slot = false := by
  simp [refuses, clean]

/-- A step of the launch is one of the machine while every lock is clean. -/
theorem step_of_clean {s : Hosted V} {slot : Nat} {run' : Borrowing V}
    (clean : ∀ b, s.poisoned b = false) (live : s.run.launch.sched.aborted = false)
    (current : s.run.launch.sched.current = some slot)
    (stepped : s.run.step env kernel = some run') :
    s.step env kernel = some (s.steps env kernel slot run') := by
  simp [step, live, current, refuses_of_clean clean, stepped]

/-- From clean locks, a step leaves the lock of a buffer clean exactly if it spares it. -/
theorem clean_iff {s : Hosted V} {slot id : Nat} {run' : Borrowing V}
    (clean : ∀ b, s.poisoned b = false) (live : s.run.launch.sched.aborted = false)
    (current : s.run.launch.sched.current = some slot)
    (stepped : s.run.step env kernel = some run') :
    (s.steps env kernel slot run').poisoned (.global id) = false ↔ s.Spares env kernel slot id := by
  have fresh : ∀ b, s.accessed env slot b = true ↔ s.Overflows env slot b := by
    intro b
    rw [accessed_iff, clean b]
    simp
  have value : (s.steps env kernel slot run').poisoned (.global id) = true ↔
      s.Overflows env slot (.global id) ∨ (run'.launch.sched.aborted = true ∧
        ∃ e ∈ s.unwound env kernel slot, e.buf = .global id) := by
    unfold steps
    cases aborts : run'.launch.sched.aborted with
    | false =>
      simp [fresh]
    | true =>
      simp only [if_true, unwind_eq, Bool.or_eq_true, fresh, List.any_eq_true, decide_eq_true_eq,
        true_and]
  rw [← Bool.not_eq_true, value, not_or]
  constructor
  · rintro ⟨calm, loose⟩
    refine ⟨fun _ => calm, fun run'' stepped' aborts e held here => ?_⟩
    obtain rfl := Option.some.inj (stepped.symm.trans stepped')
    by_contra stays
    exact loose ⟨aborts, e, mem_unwound.mpr ⟨held, stays⟩, here⟩
  · intro spares
    refine ⟨fun overflows => ?_, ?_⟩
    · obtain ⟨free, -⟩ := aborts_of_overflows live current stepped overflows
      exact spares.arithmetic free overflows
    · rintro ⟨aborts, e, unwinds, here⟩
      obtain ⟨held, stays⟩ := mem_unwound.mp unwinds
      exact stays (spares.borrows run' stepped aborts e held here)

/-- A step that goes nowhere spares every buffer. -/
theorem spares_of_stuck {s : Hosted V} {slot id : Nat} (live : s.run.launch.sched.aborted = false)
    (current : s.run.launch.sched.current = some slot)
    (stuck : s.run.step env kernel = none) : s.Spares env kernel slot id where
  arithmetic := by
    intro free overflows
    have moved := step_overflows kernel live current overflows
    rw [stuck, free] at moved
    obtain ⟨_, stepped, -⟩ := moved
    cases stepped
  borrows := by
    intro run' stepped
    rw [stuck] at stepped
    cases stepped

theorem step_launch {poisoned : Buf → Bool} {n : Nat} {s' : Hosted V}
    (stepped : ((launch env kernel poisoned).state n).step env kernel = some s') :
    (launch env kernel poisoned).state (n + 1) = s' := by
  refine (launch env kernel poisoned).state_succ_of_next (a := ()) ?_
  simp only [launch] at stepped ⊢
  rw [stepped]
  rfl

/-- A launch whose steps all spare a buffer leaves its lock clean. -/
theorem clean_of_careful {id : Nat} (careful : Careful env kernel id) (n : Nat) :
    ((launch env kernel fun _ => false).state n).poisoned (.global id) = false := by
  induction n with
  | zero => rfl
  | succ n ih =>
    rcases (launch env kernel fun _ => false).step_cases n with ⟨_, -, moved⟩ | ⟨-, stays⟩
    · obtain ⟨s', stepped, same⟩ := Option.map_eq_some_iff.mp moved
      obtain rfl := (Prod.mk.inj same).2
      obtain ⟨live, ⟨-, kept⟩ | ⟨slot, current, last⟩⟩ := step_cases stepped
      · rw [kept, ih]
      · have clean : ∀ b, ((launch env kernel fun _ => false).state n).poisoned b = false := by
          intro b
          rw [poisoned_launch live]
        rcases last with ⟨refuses, -⟩ | ⟨-, run', moves, same⟩
        · rw [refuses_of_clean clean] at refuses
          cases refuses
        · rw [same]
          exact (clean_iff clean live current moves).mpr (careful n slot live current)
    · rw [stays, ih]

/-- A step the launch survives, or after which the buffer is usable, spared it. -/
theorem spares_of_usable {id n slot : Nat} (usable : LeavesUsable env kernel id)
    (live : ((launch env kernel fun _ => false).state n).run.launch.sched.aborted = false)
    (current : ((launch env kernel fun _ => false).state n).run.launch.sched.current = some slot) :
    ((launch env kernel fun _ => false).state n).Spares env kernel slot id := by
  have clean : ∀ b, ((launch env kernel fun _ => false).state n).poisoned b = false := by
    intro b
    rw [poisoned_launch live]
  cases stepped : ((launch env kernel fun _ => false).state n).run.step env kernel with
  | none => exact spares_of_stuck live current stepped
  | some run' =>
    refine (clean_iff clean live current stepped).mp ?_
    have moved := step_of_clean clean live current stepped
    cases aborts : run'.launch.sched.aborted with
    | false => rw [poisoned_of_live moved aborts, clean]
    | true =>
      have next := step_launch moved
      have returned : ((launch env kernel fun _ => false).state (n + 1)).Returned env := by
        rw [next]
        simp [Returned, steps, Launch.step, aborts]
      have readable := (usable (n + 1) returned).len
      rw [next] at readable
      exact clean_of_len readable

/-- A buffer is usable after the launch exactly if no step panics in the arithmetic of an access
to it, and none stops the launch while a thread that has not returned has an element borrowed. -/
theorem leavesUsable_iff (env : Env V) (kernel : BorrowKernel V) (id : Nat) :
    LeavesUsable env kernel id ↔ Careful env kernel id := by
  constructor
  · intro usable n slot s live current
    exact spares_of_usable usable live current
  · intro careful n s _
    exact usable_of_clean (clean_of_careful careful n)

/-! ### Panics under the lock -/

def byteEnv : Env Nat :=
  { idling with
    mem := fun _ => .ofData [255]
    fresh := fun _ => by simp [Instrumented.ofData, idling, trial] }

def increments : BorrowKernel Nat := fun _ _ answers =>
  [.op (.mem ⟨.global 0, 0, ⟨"kernel.rs", 3, 9⟩, .atomic .relaxed (.fetch fun previous =>
    if previous + 1 < 256 then .ok (previous + 1) else .error "attempt to add with overflow")⟩)].getD
      answers.length (.op .ret)

def abandons : BorrowKernel Nat := fun _ _ answers =>
  [.op (.mem ⟨.global 0, 0, ⟨"kernel.rs", 3, 21⟩, .elemMut true id⟩),
    .op (.panic "index out of bounds")].getD answers.length (.op .ret)

def looks : BorrowKernel Nat := fun _ _ answers =>
  [.op (.mem ⟨.global 0, 0, ⟨"kernel.rs", 9, 17⟩, .read⟩)].getD answers.length (.op .ret)

/-- The launch is over, the host panics in `len` and `to_vec`, and so does a thread that comes to
the buffer with its locks as they are now. -/
def Lost (s : Hosted Nat) : Prop :=
  s.Returned byteEnv ∧ s.len 0 = none ∧ s.toVec 0 = none ∧
    ((launch byteEnv looks s.poisoned).state 2).run.launch.raised =
      [.kernelPanic 0 0 poisonMessage]

theorem not_leavesUsable {kernel : BorrowKernel Nat} {n : Nat}
    (lost : Lost ((launch byteEnv kernel fun _ => false).state n)) :
    ¬ LeavesUsable byteEnv kernel 0 := by
  intro usable
  have readable := (usable n lost.1).len
  rw [lost.2.1] at readable
  cases readable

/-- An addition that overflows loses the buffer, and so does a panic with an element borrowed. -/
theorem overflow_poisons :
    (Lost ((launch byteEnv increments fun _ => false).state 2) ∧
      Lost ((launch byteEnv abandons fun _ => false).state 3)) ∧
    ¬ LeavesUsable byteEnv increments 0 ∧ ¬ LeavesUsable byteEnv abandons 0 := by
  have lost : Lost ((launch byteEnv increments fun _ => false).state 2) ∧
      Lost ((launch byteEnv abandons fun _ => false).state 3) := by
    simp only [Lost, Returned, ← Option.isNone_iff_eq_none]
    set_option maxRecDepth 100000 in decide +kernel
  exact ⟨lost, not_leavesUsable lost.1, not_leavesUsable lost.2⟩

end Riri.Hosted
