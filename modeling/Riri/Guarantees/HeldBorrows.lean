import Riri.Run.Invariant
import Riri.Run.Programs
import Riri.Source.Borrow

/-!
# Borrows held past a scheduling point

A borrow keeps the lock of its buffer while its thread gives up the turn at the next access. Who
gets the turn then and comes to the same buffer waits for the lock with the turn in hand, and the
launch stands still. It never does when no thread comes to a buffer another thread has borrowed
from, and nobody gives up the turn with a borrow from a buffer another thread is already waiting
to reach.
-/
namespace Riri.Launch

variable {V : Type} [BEq V] {env : Env V}

/-- A thread on its way into an access came there before or has just asked for it. -/
theorem Moves.accessing {s s' : Launch V} {slot j : Nat} {l : Label V} {m : MemOp V}
    (moves : Moves env s slot l s') (pc' : (s'.threads j).pc = .atAccess m) :
    (j ≠ slot ∧ (s.threads j).pc = .atAccess m) ∨
      (j = slot ∧ (s.threads slot).pc = .ready ∧ s.nextOp env slot = .mem m) := by
  by_cases mine : j = slot
  · subst mine
    cases moves with
    | yieldAccess pc m' op =>
      obtain rfl : m' = m := by simpa using pc'
      exact .inr ⟨rfl, pc, op⟩
    | finish pc =>
      rw [turn_threads, pc] at pc'
      cases pc'
    | arrive | release => simp [barrierEntered, ctx] at pc'
    | yieldCollective | publish | gather | exchange | disperse => simp at pc'
    | fence | depart | leave => simp at pc'
    | access => simp [accessed, ctx] at pc'
    | miss => simp [missed] at pc'
  · rw [moves.others mine] at pc'
    exact .inl ⟨mine, pc'⟩

/-- An access that leaves the launch running keeps the turn. -/
theorem Moves.after_access {s s' : Launch V} {slot : Nat} {l : Label V} {m : MemOp V}
    (moves : Moves env s slot l s') (pc : (s.threads slot).pc = .atAccess m) :
    s'.sched = s.sched ∧ (s'.threads slot).pc = .ready := by
  cases moves with
  | access => exact ⟨rfl, by simp [accessed, ctx]⟩
  | miss => exact ⟨rfl, by simp [missed]⟩
  | finish pc' | fence pc' | arrive pc' | release pc' | yieldAccess pc' | yieldCollective pc' =>
    rw [pc] at pc'
    cases pc'
  | depart _ pc' | publish _ pc' | gather _ pc' | exchange _ pc' | disperse _ pc' | leave _ _ pc' =>
    rw [pc] at pc'
    cases pc'

end Riri.Launch

namespace Riri

variable {V : Type} [BEq V]

namespace BorrowOp

def yields : BorrowOp V → Bool
  | .op (.mem _) | .op (.warp _) | .op (.syncThreads _) => true
  | _ => false

def takes : BorrowOp V → Buf → Bool
  | .op (.mem m), buf => m.buf = buf
  | .len buf', buf => buf' = buf
  | _, _ => false

end BorrowOp

namespace Borrowing

variable (env : Env V) (kernel : BorrowKernel V)

def Waits (s : Borrowing V) (slot : Nat) (buf : Buf) : Prop :=
  (∃ m, (s.launch.threads slot).pc = .atAccess m ∧ m.buf = buf) ∨
    ((s.launch.threads slot).pc = .ready ∧ s.nextOp env kernel slot = .len buf)

/-- While the launch runs, the thread with the turn does not wait for a lock another thread holds,
and unless it waits for one of its own it takes a step. -/
def Unwedged (s : Borrowing V) : Prop :=
  s.launch.sched.aborted = false → ∀ slot, s.launch.sched.current = some slot →
    (∀ e ∈ s.guards, s.Waits env kernel slot e.buf → e.slot = slot) ∧
    ((∀ e ∈ s.guards, s.Waits env kernel slot e.buf → e.slot ≠ slot) →
      (s.step env kernel).isSome)

/-- What the thread with the turn may come to next: no buffer another thread has borrowed from,
and no scheduling point while it holds a borrow from a buffer somebody is already waiting to
reach. -/
structure Clear (s : Borrowing V) : Prop where
  takes : ∀ slot, s.launch.sched.current = some slot → (s.launch.threads slot).pc = .ready →
    ∀ e ∈ s.guards, (s.nextOp env kernel slot).takes e.buf → e.slot = slot
  yields : ∀ slot, s.launch.sched.current = some slot → (s.launch.threads slot).pc = .ready →
    (s.nextOp env kernel slot).yields → ∀ e ∈ s.guards, e.slot = slot →
      ∀ j m, j ≠ slot → (s.launch.threads j).pc = .atAccess m → m.buf ≠ e.buf

/-- Only the thread that runs can hold a lock somebody is waiting to take. -/
def Uncontended (s : Borrowing V) : Prop :=
  s.launch.sched.aborted = false → ∀ e ∈ s.guards, ∀ j m, j ≠ e.slot →
    (s.launch.threads j).pc = .atAccess m → m.buf = e.buf →
      s.launch.sched.current = some e.slot ∧ (s.launch.threads e.slot).pc = .ready

variable {env kernel}

/-- What the launch does when a thread at the start of an operation asks for `o`. -/
theorem dispatch_moves {s : Launch V} {slot : Nat} {o : Op V}
    (pc : (s.threads slot).pc = .ready) (running : s.sched.aborted = false)
    (live : (s.dispatch env (s.ctx env slot) o).2.sched.aborted = false) :
    Launch.Moves { env with kernel := fun _ _ _ => o } s slot (s.dispatch env (s.ctx env slot) o).1
      (s.dispatch env (s.ctx env slot) o).2 :=
  Launch.Resumed.moves _ (Launch.dispatch_resumed { env with kernel := fun _ _ _ => o } pc rfl)
    running live

omit [BEq V] in
theorem mem_of_leaving {s : Borrowing V} {slot : Nat} {o : Op V} {e : ElemMut}
    (kept : e ∈ s.leaving slot o) : e ∈ s.guards := by
  unfold leaving at kept
  split at kept
  · exact List.mem_of_mem_filter kept
  · exact List.mem_of_mem_filter kept
  · exact kept

omit [BEq V] in
/-- A new guard belongs to the thread that just made an access. -/
theorem mem_of_borrowed {s : Borrowing V} {slot : Nat} {m : MemOp V} {l : Label V} {e : ElemMut}
    (held : e ∈ s.borrowed slot m l) : e ∈ s.guards ∨ e.slot = slot := by
  unfold borrowed at held
  split at held
  · split at held
    · rcases List.mem_cons.mp held with rfl | old
      · exact .inr rfl
      · exact .inl old
    · exact .inl held
  · exact .inl held

/-- What a step of the launch has to leave alone. Threads on their way into an access were so
before or have just asked for it, and who gives up the turn says so. -/
theorem Uncontended.of_moves {s s' : Borrowing V} {env' : Env V} {slot : Nat} {l : Label V}
    (uncontended : s.Uncontended) (running : s.launch.sched.aborted = false)
    (current : s.launch.sched.current = some slot) (moves : Launch.Moves env' s.launch slot l s'.launch)
    (guards : ∀ e ∈ s'.guards, e ∈ s.guards ∨ e.slot = slot)
    (asked : ∀ m, (s.launch.threads slot).pc = .ready → s.launch.nextOp env' slot = .mem m →
      ∀ e ∈ s.guards, m.buf = e.buf → e.slot = slot)
    (own : ∀ e ∈ s'.guards, e.slot = slot → (∃ j m, j ≠ slot ∧
      (s.launch.threads j).pc = .atAccess m ∧ m.buf = e.buf) →
        s'.launch.sched.current = some slot ∧ (s'.launch.threads slot).pc = .ready) :
    s'.Uncontended := by
  intro _ e held j m other pc' same
  rcases moves.accessing pc' with ⟨away, pc⟩ | ⟨rfl, pc, op⟩
  · rcases eq_or_ne e.slot slot with mine | theirs
    · rw [mine]
      exact own e held mine ⟨j, m, away, pc, same⟩
    · have was := (guards e held).resolve_right theirs
      obtain ⟨holder, -⟩ := uncontended running e was j m other pc same
      rw [current] at holder
      exact absurd (Option.some.inj holder).symm theirs
  · have was := (guards e held).resolve_right (Ne.symm other)
    exact absurd (asked m pc op e was same).symm other

omit [BEq V] in
/-- A thread that does not give up the turn and is not on its way into an access changes
nothing. -/
theorem Uncontended.of_quiet {s s' : Borrowing V} {slot : Nat} (uncontended : s.Uncontended)
    (sched : s'.launch.sched = s.launch.sched) (current : s.launch.sched.current = some slot)
    (others : ∀ j, j ≠ slot → s'.launch.threads j = s.launch.threads j)
    (ready : (s'.launch.threads slot).pc = .ready) (guards : ∀ e ∈ s'.guards, e ∈ s.guards) :
    s'.Uncontended := by
  intro live e held j m other pc' same
  have away : j ≠ slot := by
    rintro rfl
    rw [ready] at pc'
    cases pc'
  rw [sched] at live ⊢
  rw [others j away] at pc'
  obtain ⟨holder, -⟩ := uncontended live e (guards e held) j m other pc' same
  have mine : e.slot = slot := by
    rw [current] at holder
    exact (Option.some.inj holder).symm
  rw [mine]
  exact ⟨current, ready⟩

theorem Uncontended.dispatch {s s' : Borrowing V} {slot : Nat} (uncontended : s.Uncontended)
    (clear : s.Clear env kernel) (running : s.launch.sched.aborted = false)
    (current : s.launch.sched.current = some slot) (pc : (s.launch.threads slot).pc = .ready)
    (stepped : s.dispatch env slot (s.nextOp env kernel slot) = some s') : s'.Uncontended := by
  have quiet : ∀ (t : Borrowing V) (a : Resp V), t.launch.sched = s.launch.sched →
      t.launch.threads = s.launch.threads → (∀ e ∈ t.guards, e ∈ s.guards) →
      (t.answered slot a).Uncontended := by
    intro t a sched threads guards
    refine uncontended.of_quiet sched current (fun j away => ?_) ?_ guards
    · simp [answered, away, threads]
    · simp [answered]
  cases asks : s.nextOp env kernel slot with
  | op o =>
    rw [asks] at stepped
    obtain rfl := Option.some.inj stepped
    intro live
    have moves := dispatch_moves pc running live
    refine uncontended.of_moves running current moves (fun e kept => .inl (mem_of_leaving kept))
      (fun m _ op e held same => ?_) (fun e kept mine contended => ?_) live
    · obtain rfl : o = .mem m := op
      exact clear.takes slot current pc e held (by simp [asks, BorrowOp.takes, same])
    · obtain ⟨j, m, away, pc', same⟩ := contended
      have held := mem_of_leaving kept
      cases o with
      | ret | panic => simp [leaving, mine] at kept
      | fence => exact ⟨current, by simp [Launch.dispatch, Launch.ctx]⟩
      | syncThreads | mem | warp =>
        exact absurd same (clear.yields slot current pc (by rw [asks]; rfl) e held mine j m away pc')
  | deref buf =>
    rw [asks, Borrowing.dispatch] at stepped
    split at stepped <;> obtain rfl := Option.some.inj stepped <;> exact quiet s _ rfl rfl fun _ => id
  | derefMut buf value =>
    rw [asks, Borrowing.dispatch] at stepped
    split at stepped <;> obtain rfl := Option.some.inj stepped
    · exact quiet (s.stored _ value) _ rfl rfl fun _ => id
    · exact quiet s _ rfl rfl fun _ => id
  | drop buf =>
    rw [asks] at stepped
    obtain rfl := Option.some.inj stepped
    exact quiet _ _ rfl rfl fun e kept => List.mem_of_mem_filter kept
  | len buf =>
    rw [asks, Borrowing.dispatch] at stepped
    split at stepped
    · cases stepped
    · obtain rfl := Option.some.inj stepped
      exact quiet s _ rfl rfl fun _ => id

theorem Uncontended.step {s s' : Borrowing V} (uncontended : s.Uncontended)
    (clear : s.Clear env kernel) (stepped : s.step env kernel = some s') : s'.Uncontended := by
  unfold Borrowing.step at stepped
  split at stepped
  · cases stepped
  next running =>
    have running : s.launch.sched.aborted = false := by simpa using running
    split at stepped
    next slot current =>
      unfold Borrowing.resume at stepped
      -- A thread in the middle of an operation holds nothing anybody waits for.
      have inside : ∀ (launch : Launch V) (l : Label V), (s.launch.threads slot).pc ≠ .ready →
          Launch.Moves env s.launch slot l launch → Uncontended ⟨launch, s.guards⟩ := by
        intro launch l busy moves
        refine uncontended.of_moves running current moves (fun e held => .inl held)
          (fun m ready => absurd ready busy) (fun e held mine contended => ?_)
        obtain ⟨j, m, away, pc, same⟩ := contended
        obtain ⟨-, ready⟩ := uncontended running e held j m (by rw [mine]; exact away) pc same
        rw [mine] at ready
        exact absurd ready busy
      split at stepped
      next pc => exact uncontended.dispatch clear running current pc stepped
      next m pc =>
        split at stepped
        · cases stepped
        · have resumed := Launch.checkedAccess_resumed env pc
          generalize s.launch.checkedAccess env (s.launch.ctx env slot) m = r at stepped resumed
          obtain ⟨l, launch⟩ := r
          obtain rfl := Option.some.inj stepped
          intro live
          have moves := resumed.moves _ running live
          obtain ⟨sched, ready⟩ := moves.after_access pc
          refine uncontended.of_moves running current moves (fun e held => mem_of_borrowed held)
            (fun m' ready' => ?_) (fun e _ _ _ => ⟨by rw [sched]; exact current, ready⟩) live
          rw [pc] at ready'
          cases ready'
      next busy away =>
        obtain rfl := Option.some.inj stepped
        intro live
        exact inside _ _ (fun ready => busy ready)
          ((Launch.resume_resumed env s.launch slot).moves _ running live) live
    next current =>
      obtain ⟨⟨l, launch⟩, moved, rfl⟩ := Option.map_eq_some_iff.mp stepped
      obtain ⟨-, ⟨-, -, -, rfl⟩ | ⟨slot, taken, -⟩⟩ := Launch.step_cases env moved
      · intro _ e _ j m _ pc
        cases pc
      · rw [current] at taken
        cases taken

theorem unwedged {s : Borrowing V} (uncontended : s.Uncontended) (clear : s.Clear env kernel) :
    s.Unwedged env kernel := by
  intro running slot current
  have others : ∀ e ∈ s.guards, s.Waits env kernel slot e.buf → e.slot = slot := by
    rintro e held (⟨m, pc, same⟩ | ⟨pc, asks⟩)
    · by_contra other
      obtain ⟨holder, -⟩ := uncontended running e held slot m (Ne.symm other) pc same
      rw [current] at holder
      exact other (Option.some.inj holder).symm
    · exact clear.takes slot current pc e held (by simp [asks, BorrowOp.takes])
  refine ⟨others, fun own => ?_⟩
  have free : ∀ buf, s.Waits env kernel slot buf → s.locked buf = false := by
    intro buf waits
    by_contra locked
    obtain ⟨e, held, same⟩ := List.any_eq_true.mp (Bool.eq_true_of_not_eq_false locked)
    obtain rfl : e.buf = buf := by simpa using same
    exact own e held waits (others e held waits)
  unfold Borrowing.step
  simp only [running, current, Bool.false_eq_true, if_false]
  unfold Borrowing.resume
  cases pc : (s.launch.threads slot).pc with
  | ready =>
    cases asks : s.nextOp env kernel slot with
    | len buf => simp [Borrowing.dispatch, free buf (.inr ⟨pc, asks⟩)]
    | deref buf | derefMut buf =>
      simp only [Borrowing.dispatch]
      split <;> rfl
    | op | drop => rfl
  | atAccess m => simp [free m.buf (.inl ⟨m, pc, rfl⟩)]
  | atBarrier | atCollective | arrived | departed => rfl

omit [BEq V] in
theorem uncontended_init : Uncontended ⟨Launch.init env, []⟩ := by
  intro _ e held
  cases held

/-- A run in which nobody comes to a borrowed buffer, and nobody gives up the turn with a borrow
somebody waits for, never wedges. -/
theorem never_wedges (env : Env V) (kernel : BorrowKernel V) (n : Nat)
    (clear : ∀ k, k ≤ n → ((run env kernel).state k).Clear env kernel) :
    ((run env kernel).state n).Unwedged env kernel := by
  have uncontended : ∀ k, k ≤ n → ((run env kernel).state k).Uncontended := by
    intro k le
    induction k with
    | zero => exact uncontended_init
    | succ k ih =>
      have before := ih (by omega)
      rcases (run env kernel).step_cases k with ⟨_, -, moved⟩ | ⟨-, stays⟩
      · obtain ⟨s', stepped, moved⟩ := Option.map_eq_some_iff.mp moved
        rw [← (Prod.mk.inj moved).2]
        exact before.step (clear k (by omega)) stepped
      · rw [stays]
        exact before
  exact unwedged (uncontended n le_rfl) (clear n le_rfl)

/-- Who comes to an access with the launch running was on the way there or has the turn. -/
theorem step_accessing {s s' : Borrowing V} (stepped : s.step env kernel = some s')
    (live : s'.launch.sched.aborted = false) {j : Nat} {m : MemOp V}
    (pc' : (s'.launch.threads j).pc = .atAccess m) :
    (s.launch.threads j).pc = .atAccess m ∨ s.launch.sched.current = some j := by
  unfold Borrowing.step at stepped
  split at stepped
  · cases stepped
  next running =>
    have running : s.launch.sched.aborted = false := by simpa using running
    split at stepped
    next slot current =>
      rcases eq_or_ne j slot with mine | away
      · rw [mine]
        exact .inr current
      · left
        have of_moves : ∀ {env' : Env V} {l : Label V} {launch : Launch V},
            Launch.Moves env' s.launch slot l launch → (launch.threads j).pc = .atAccess m →
              (s.launch.threads j).pc = .atAccess m := by
          intro env' l launch moves pc'
          rw [← moves.others away]
          exact pc'
        have of_answer : ∀ {t : Borrowing V} {a : Resp V}, t.launch.threads = s.launch.threads →
            ((t.answered slot a).launch.threads j).pc = .atAccess m →
              (s.launch.threads j).pc = .atAccess m := by
          intro t a threads pc'
          simpa [answered, away, threads] using pc'
        unfold Borrowing.resume at stepped
        split at stepped
        next pc =>
          cases asks : s.nextOp env kernel slot with
          | op o =>
            rw [asks] at stepped
            obtain rfl := Option.some.inj stepped
            exact of_moves (dispatch_moves pc running live) pc'
          | deref buf | derefMut buf =>
            rw [asks, Borrowing.dispatch] at stepped
            split at stepped <;> obtain rfl := Option.some.inj stepped <;> exact of_answer rfl pc'
          | len buf =>
            rw [asks, Borrowing.dispatch] at stepped
            split at stepped
            · cases stepped
            · obtain rfl := Option.some.inj stepped
              exact of_answer rfl pc'
          | drop buf =>
            rw [asks] at stepped
            obtain rfl := Option.some.inj stepped
            exact of_answer rfl pc'
        next m' pc =>
          split at stepped
          · cases stepped
          · have resumed := Launch.checkedAccess_resumed env pc
            generalize s.launch.checkedAccess env (s.launch.ctx env slot) m' = r at stepped resumed
            obtain ⟨l, launch⟩ := r
            obtain rfl := Option.some.inj stepped
            exact of_moves (resumed.moves _ running live) pc'
        next =>
          obtain rfl := Option.some.inj stepped
          exact of_moves ((Launch.resume_resumed env s.launch slot).moves _ running live) pc'
    next current =>
      obtain ⟨⟨l, launch⟩, moved, rfl⟩ := Option.map_eq_some_iff.mp stepped
      obtain ⟨-, ⟨-, -, -, rfl⟩ | ⟨slot, taken, -⟩⟩ := Launch.step_cases env moved
      · cases pc'
      · rw [current] at taken
        cases taken

def approaches (s : Borrowing V) (j : Nat) (buf : Buf) : Bool :=
  match (s.launch.threads j).pc with
  | .atAccess m => m.buf = buf
  | _ => false

variable (env kernel) in
/-- What `Clear` asks of a running launch, as far as the first threads can tell. -/
def Apart (threads : Nat) (s : Borrowing V) : Prop :=
  s.launch.sched.aborted = false ∧ ∀ slot ∈ s.launch.sched.current, slot < threads ∧
    (∀ e ∈ s.guards, (s.nextOp env kernel slot).takes e.buf → e.slot = slot) ∧
    ((s.nextOp env kernel slot).yields → ∀ e ∈ s.guards, e.slot = slot →
      ∀ j < threads, j ≠ slot → s.approaches j e.buf = false)

instance (threads : Nat) (s : Borrowing V) : Decidable (s.Apart env kernel threads) :=
  inferInstanceAs (Decidable (s.launch.sched.aborted = false ∧
    ∀ slot ∈ s.launch.sched.current, slot < threads ∧
      (∀ e ∈ s.guards, (s.nextOp env kernel slot).takes e.buf → e.slot = slot) ∧
      ((s.nextOp env kernel slot).yields → ∀ e ∈ s.guards, e.slot = slot →
        ∀ j < threads, j ≠ slot → s.approaches j e.buf = false)))

/-- The first threads tell everything as long as only they have had the turn. -/
theorem clear_of_apart {threads n : Nat}
    (apart : ∀ k, k ≤ n → ((run env kernel).state k).Apart env kernel threads) {k : Nat}
    (le : k ≤ n) : ((run env kernel).state k).Clear env kernel := by
  have inside : ∀ k, k ≤ n → ∀ j m,
      (((run env kernel).state k).launch.threads j).pc = .atAccess m → j < threads := by
    intro k le
    induction k with
    | zero =>
      intro j m pc
      cases pc
    | succ k ih =>
      intro j m pc
      rcases (run env kernel).step_cases k with ⟨_, -, moved⟩ | ⟨-, stays⟩
      · obtain ⟨s', stepped, moved⟩ := Option.map_eq_some_iff.mp moved
        obtain rfl := (Prod.mk.inj moved).2
        rcases step_accessing stepped (apart (k + 1) le).1 pc with was | current
        · exact ih (by omega) j m was
        · exact ((apart k (by omega)).2 j current).1
      · rw [stays] at pc
        exact ih (by omega) j m pc
  constructor
  · intro slot current _
    exact ((apart k le).2 slot current).2.1
  · intro slot current _ yields e held mine j m other pc same
    have away := ((apart k le).2 slot current).2.2 yields e held mine j (inside k le j m pc) other
    simp [approaches, pc, same] at away

def borrowFrom (buf index line : Nat) : BorrowOp Nat :=
  .op (.mem ⟨.global buf, index, ⟨"kernel.rs", line, 21⟩, .elemMut true id⟩)

/-- Each thread claims an element of a buffer of its own, stores to a third buffer while it holds
that, and drops it. -/
def claims : BorrowKernel Nat := fun _ thread answers =>
  [borrowFrom thread 0 3, .op (.mem ⟨.global 2, thread, ⟨"kernel.rs", 4, 17⟩, .write 7⟩),
    .drop (.global thread)].getD answers.length (.op .ret)

def claimsEnv : Env Nat := trial .twoThreads (fun _ => []) [0, 1, 0, 1, 0, 1]

/-- Both threads hold their borrows, and one has given up the turn on its way into the access. -/
theorem never_wedges_claims :
    let s := (run claimsEnv claims).state 5
    s.guards.map ElemMut.slot = [1, 0] ∧ s.approaches 0 (.global 2) = true ∧
      s.launch.sched.current = some 1 ∧ s.Unwedged claimsEnv claims := by
  have apart : ∀ k < 6, ((run claimsEnv claims).state k).Apart claimsEnv claims 2 := by
    set_option maxRecDepth 100000 in decide +kernel
  refine ⟨by decide +kernel, by decide +kernel, by decide +kernel, ?_⟩
  exact never_wedges claimsEnv claims 5 fun k le =>
    clear_of_apart (fun k le => apart k (by omega)) le

/-! ### A borrow held over a read -/

/-- The buffers a thread holds when it has had these answers. -/
def heldAfter (kernel : BorrowKernel V) (block thread : Nat) (answers : List (Resp V)) : List Buf :=
  (List.range answers.length).foldl (fun held k =>
    match kernel block thread (answers.take k), answers[k]? with
    | .op (.mem m), some (.elem (some _)) => m.buf :: held
    | .drop buf, _ => held.filter (· ≠ buf)
    | _, _ => held) []

/-- What is asked of a kernel: no borrow is held into a barrier or a collective, and no thread
comes to a buffer it has borrowed from. -/
structure Disciplined (kernel : BorrowKernel V) : Prop where
  barriers : ∀ block thread answers loc,
    kernel block thread answers = .op (.syncThreads loc) → heldAfter kernel block thread answers = []
  collectives : ∀ block thread answers c,
    kernel block thread answers = .op (.warp c) → heldAfter kernel block thread answers = []
  relocks : ∀ block thread answers buf,
    (kernel block thread answers).takes buf → buf ∉ heldAfter kernel block thread answers

def NeverWedges (env : Env V) (kernel : BorrowKernel V) : Prop :=
  Disciplined kernel → ∀ choicesOf n,
    ((run { env with choicesOf := choicesOf } kernel).state n).Unwedged
      { env with choicesOf := choicesOf } kernel

/-- The threads claim an element each of one buffer, and thread 0 reads another buffer while it
holds its own. -/
def overlap : BorrowKernel Nat := fun _ thread answers =>
  (if thread = 0 then
    [borrowFrom 0 0 3, .op (.mem ⟨.global 1, 0, ⟨"kernel.rs", 4, 17⟩, .read⟩), .drop (.global 0)]
  else [borrowFrom 0 1 7, .drop (.global 0)]).getD answers.length (.op .ret)

/-- A thread comes to a buffer with nothing in hand, or to the second one holding the first. -/
theorem overlap_takes {block thread : Nat} {answers : List (Resp Nat)} {buf : Buf}
    (takes : (overlap block thread answers).takes buf) :
    answers = [] ∨ ∃ a, answers = [a] ∧ buf = .global 1 := by
  by_cases first : thread = 0
  · rcases answers with _ | ⟨a, _ | ⟨b, _ | ⟨c, rest⟩⟩⟩
    · exact .inl rfl
    · have here : Buf.global 1 = buf := by simpa [overlap, first, BorrowOp.takes] using takes
      exact .inr ⟨a, rfl, here.symm⟩
    · simp [overlap, first, BorrowOp.takes] at takes
    · simp [overlap, first, BorrowOp.takes] at takes
  · rcases answers with _ | ⟨a, _ | ⟨b, rest⟩⟩
    · exact .inl rfl
    · simp [overlap, first, BorrowOp.takes] at takes
    · simp [overlap, first, BorrowOp.takes] at takes

theorem overlap_forms (block thread : Nat) (answers : List (Resp Nat)) :
    (∃ m, overlap block thread answers = .op (.mem m)) ∨
      overlap block thread answers = .drop (.global 0) ∨ overlap block thread answers = .op .ret := by
  by_cases first : thread = 0
  · rcases answers with _ | ⟨a, _ | ⟨b, _ | ⟨c, rest⟩⟩⟩ <;> simp [overlap, first, borrowFrom]
  · rcases answers with _ | ⟨a, _ | ⟨b, rest⟩⟩ <;> simp [overlap, first, borrowFrom]

theorem overlap_disciplined : Disciplined overlap where
  barriers := by
    intro block thread answers loc asks
    rcases overlap_forms block thread answers with ⟨m, form⟩ | form | form <;> rw [form] at asks <;>
      cases asks
  collectives := by
    intro block thread answers c asks
    rcases overlap_forms block thread answers with ⟨m, form⟩ | form | form <;> rw [form] at asks <;>
      cases asks
  relocks := by
    intro block thread answers buf takes
    rcases overlap_takes takes with rfl | ⟨a, rfl, rfl⟩
    · simp [heldAfter]
    · unfold heldAfter
      simp only [List.length_singleton, List.range_one, List.foldl_cons, List.foldl_nil]
      split
      next m _ asks _ =>
        have first : m.buf = .global 0 := by
          by_cases mine : thread = 0 <;> simp [overlap, mine, borrowFrom] at asks <;> simp [← asks]
        simp [first]
      · simp
      · simp

def overlapEnv : Env Nat := trial .twoThreads (fun _ => []) [0, 0, 1, 1]

/-- Thread 1 waits for the buffer with the turn in hand, and the launch stands still: thread 0,
which holds the lock, is runnable and never gets the turn. -/
theorem overlap_wedges :
    (Disciplined overlap ∧
      let s := (run overlapEnv overlap).state 4
      s.launch.sched.aborted = false ∧ s.launch.sched.current = some 1 ∧
        s.guards = [⟨0, .global 0, 0⟩] ∧ s.launch.sched.status 0 = .runnable ∧
        (run overlapEnv overlap).Halted 4) ∧
    ¬ NeverWedges overlapEnv overlap := by
  have wedged : let s := (run overlapEnv overlap).state 4
      s.launch.sched.aborted = false ∧ s.launch.sched.current = some 1 ∧
        s.guards = [⟨0, .global 0, 0⟩] ∧ s.launch.sched.status 0 = .runnable ∧
        (run overlapEnv overlap).Halted 4 := by
    rw [Machine.Halted, ← Option.isNone_iff_eq_none]
    set_option maxRecDepth 100000 in decide +kernel
  refine ⟨⟨overlap_disciplined, wedged⟩, fun never => ?_⟩
  obtain ⟨running, current, guards, -, -⟩ := wedged
  have waits : (((run overlapEnv overlap).state 4).launch.threads 1).pc =
      .atAccess ⟨.global 0, 1, ⟨"kernel.rs", 7, 21⟩, .elemMut true id⟩ := by
    rfl
  have mine := (never overlap_disciplined overlapEnv.choicesOf 4 running 1 current).1
    ⟨0, .global 0, 0⟩ (by
      change _ ∈ ((run overlapEnv overlap).state 4).guards
      rw [guards]
      exact List.mem_singleton_self _) (.inl ⟨_, waits, rfl⟩)
  cases mine

end Borrowing

end Riri
