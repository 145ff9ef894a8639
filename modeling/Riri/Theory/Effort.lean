import Riri.Theory.Monitor
import Mathlib.Algebra.BigOperators.Group.Finset.Basic
import Mathlib.Algebra.Order.BigOperators.Group.Finset

/-!
# How long a monitor goes without an action

A thread that looks goes to sleep or past its wait, and from there only an action or a wakeup
leads on. So apart from wakeups without a notification the threads of a monitor run out of steps
unless somebody acts, and an action gives each of them a bounded number of new ones.
-/
universe u v w

namespace Monitor

variable {σ : Type u} {τ : Type v} {ω : Type w}

/-- The steps a thread can still take before somebody acts, and one more where it can sleep. -/
def Phase.effort : Phase ω → Nat
  | .looking => 2
  | .past _ => 1
  | .asleep | .gone => 0

@[simp] theorem effort_looking : (Phase.looking : Phase ω).effort = 2 := rfl
@[simp] theorem effort_past (w : ω) : (Phase.past w).effort = 1 := rfl
@[simp] theorem effort_asleep : (Phase.asleep : Phase ω).effort = 0 := rfl
@[simp] theorem effort_gone : (Phase.gone : Phase ω).effort = 0 := rfl

def effort (threads : Finset τ) (phase : τ → Phase ω) : Nat := ∑ i ∈ threads, (phase i).effort

variable [DecidableEq τ]

/-- The steps of `Step` but for wakeups without a notification. -/
inductive Work (rules : Rules σ τ ω) : State σ τ ω → State σ τ ω → Prop where
  | look {t : State σ τ ω} (i : τ) (looking : t.phase i = .looking) :
      Work rules t ⟨t.shared, Function.update t.phase i (rules.settle i t.shared)⟩
  | act {t : State σ τ ω} {e : Effect σ τ} (i : τ) (w : ω) (past : t.phase i = .past w)
      (acts : rules.acts i w t.shared e) :
      Work rules t ⟨e.shared, Function.update (notify e.notified t.phase) i
        (if e.again then rules.settle i e.shared else .gone)⟩

/-- A thread wakes by itself. -/
inductive Wake : State σ τ ω → State σ τ ω → Prop where
  | spurious {t : State σ τ ω} (i : τ) (asleep : t.phase i = .asleep) :
      Wake t ⟨t.shared, Function.update t.phase i .looking⟩

variable {rules : Rules σ τ ω}

theorem Wake.step {t t' : State σ τ ω} (wake : Wake t t') : Step rules t t' := by
  cases wake with
  | spurious i asleep => exact .spurious i asleep

theorem Wake.shared {t t' : State σ τ ω} (wake : Wake t t') : t'.shared = t.shared := by
  cases wake with
  | spurious => rfl

/-! ### What a step costs -/

omit [DecidableEq τ] in
theorem settle_effort (i : τ) (s : σ) : (rules.settle i s).effort ≤ 1 := by
  unfold Rules.settle
  split <;> simp

omit [DecidableEq τ] in
theorem effort_le (threads : Finset τ) (phase : τ → Phase ω) :
    effort threads phase ≤ 2 * threads.card := by
  have each : ∀ i ∈ threads, (phase i).effort ≤ 2 := by
    intro i _
    cases phase i <;> simp
  unfold effort
  calc ∑ i ∈ threads, (phase i).effort ≤ ∑ _i ∈ threads, 2 := Finset.sum_le_sum each
    _ = 2 * threads.card := by rw [Finset.sum_const, Nat.nsmul_eq_mul, Nat.mul_comm]

/-- Only the phase of one thread changes. -/
theorem effort_update {threads : Finset τ} {i : τ} (member : i ∈ threads) (phase : τ → Phase ω)
    (p : Phase ω) :
    effort threads (Function.update phase i p) + (phase i).effort =
      effort threads phase + p.effort := by
  have others : ∑ j ∈ threads.erase i, (Function.update phase i p j).effort =
      ∑ j ∈ threads.erase i, (phase j).effort := by
    apply Finset.sum_congr rfl
    intro j among
    rw [Function.update_of_ne (Finset.ne_of_mem_erase among)]
  have now := Finset.add_sum_erase threads (fun j => (Function.update phase i p j).effort) member
  have before := Finset.add_sum_erase threads (fun j => (phase j).effort) member
  simp only [Function.update_self] at now
  unfold effort
  omega

/-- Whoever takes a step is one of the threads that are not gone. -/
theorem mem_of_not_gone {threads : Finset τ} {phase : τ → Phase ω}
    (outside : ∀ i ∉ threads, phase i = .gone) {i : τ} (here : phase i ≠ .gone) : i ∈ threads := by
  by_contra away
  exact here (outside i away)

theorem look_effort {threads : Finset τ} {phase : τ → Phase ω} {i : τ} (member : i ∈ threads)
    (looking : phase i = .looking) (s : σ) :
    effort threads (Function.update phase i (rules.settle i s)) < effort threads phase := by
  have moved := effort_update member phase (rules.settle i s)
  have settled : (rules.settle i s).effort ≤ 1 := settle_effort i s
  rw [looking, effort_looking] at moved
  omega

theorem wake_effort {threads : Finset τ} {phase : τ → Phase ω} {i : τ} (member : i ∈ threads)
    (asleep : phase i = .asleep) :
    effort threads (Function.update phase i .looking) = effort threads phase + 2 := by
  have moved := effort_update member phase .looking
  rw [asleep, effort_asleep, effort_looking] at moved
  omega

/-- Whoever leaves without notifying anybody has used up its step. -/
theorem leave_effort {threads : Finset τ} {phase : τ → Phase ω} {i : τ} (member : i ∈ threads)
    {w : ω} (past : phase i = .past w) :
    effort threads (Function.update phase i .gone) < effort threads phase := by
  have moved := effort_update member phase .gone
  rw [past, effort_past, effort_gone] at moved
  omega

theorem notify_nobody (phase : τ → Phase ω) : notify ∅ phase = phase := by
  funext j
  simp [notify]

theorem notify_gone {notified : Finset τ} {phase : τ → Phase ω} {i : τ} :
    notify notified phase i = .gone ↔ phase i = .gone := by
  unfold notify
  split
  · cases phase i <;> simp [Phase.woken]
  · exact Iff.rfl

end Monitor
