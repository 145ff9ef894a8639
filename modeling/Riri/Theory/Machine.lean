import Mathlib.Logic.Function.Basic
import Mathlib.Data.List.Basic

/-!
# Deterministic labelled machines

A machine has an initial state and a partial transition that also yields a label. Its run is
a function of time: a halted machine stays where it is. Invariants, histories of labels and
lock-step simulations are stated once here.
-/
universe u v

/-- An initial state and a labelled partial transition. -/
structure Machine (σ : Type u) (α : Type v) where
  init : σ
  next : σ → Option (α × σ)

namespace Machine

variable {σ : Type u} {α : Type v} (m : Machine σ α)

/-- The state at time `n`. -/
def state : Nat → σ
  | 0 => m.init
  | n + 1 => match m.next (state n) with
    | some (_, s) => s
    | none => state n

/-- What happens at time `n`, if the machine still moves. -/
def label (n : Nat) : Option α := (m.next (m.state n)).map Prod.fst

/-- Whether the machine has stopped by time `n`. -/
def Halted (n : Nat) : Prop := m.next (m.state n) = none

/-- The labels before time `n`, oldest first. -/
def history : Nat → List α
  | 0 => []
  | n + 1 => history n ++ (m.label n).toList

@[simp] theorem state_zero : m.state 0 = m.init := rfl

theorem next_of_label {n : Nat} {a : α} (h : m.label n = some a) :
    m.next (m.state n) = some (a, m.state (n + 1)) := by
  unfold label at h
  cases hn : m.next (m.state n) with
  | none => simp [hn] at h
  | some r =>
    obtain ⟨b, s⟩ := r
    have same : b = a := by simpa [hn] using h
    subst same
    simp [state, hn]

theorem state_succ_of_next {n : Nat} {a : α} {s : σ} (h : m.next (m.state n) = some (a, s)) :
    m.state (n + 1) = s := by
  simp [state, h]

theorem label_of_next {n : Nat} {a : α} {s : σ} (h : m.next (m.state n) = some (a, s)) :
    m.label n = some a := by
  simp [label, h]

theorem label_eq_none_iff {n : Nat} : m.label n = none ↔ m.Halted n := by
  simp [label, Halted]

theorem state_succ_of_halted {n : Nat} (h : m.Halted n) : m.state (n + 1) = m.state n := by
  simp only [state]
  rw [show m.next (m.state n) = none from h]

theorem halted_mono {n k : Nat} (h : m.Halted n) (le : n ≤ k) : m.Halted k ∧ m.state k = m.state n := by
  induction le with
  | refl => exact ⟨h, rfl⟩
  | step _ ih =>
    have stays := m.state_succ_of_halted ih.1
    refine ⟨?_, stays.trans ih.2⟩
    unfold Halted
    rw [stays]
    exact ih.1

theorem label_lt_of_halted {n k : Nat} {a : α} (h : m.Halted n) (hk : m.label k = some a) : k < n := by
  by_contra late
  have stopped := (m.halted_mono h (Nat.le_of_not_lt late)).1
  rw [m.label_eq_none_iff.mpr stopped] at hk
  cases hk

/-- One step or none: the case split every induction over time uses. -/
theorem step_cases (n : Nat) :
    (∃ a, m.label n = some a ∧ m.next (m.state n) = some (a, m.state (n + 1))) ∨
      (m.label n = none ∧ m.state (n + 1) = m.state n) := by
  cases h : m.label n with
  | some a => exact .inl ⟨a, rfl, m.next_of_label h⟩
  | none => exact .inr ⟨rfl, m.state_succ_of_halted (m.label_eq_none_iff.mp h)⟩

/-- What holds at first and survives every step holds always. -/
theorem invariant {P : σ → Prop} (first : P m.init)
    (keeps : ∀ s a s', P s → m.next s = some (a, s') → P s') (n : Nat) : P (m.state n) := by
  induction n with
  | zero => exact first
  | succ n ih =>
    rcases m.step_cases n with ⟨a, -, moved⟩ | ⟨-, stays⟩
    · exact keeps _ a _ ih moved
    · rw [stays]
      exact ih

/-- What holds at one time and not at a later one stops holding at some step. -/
theorem exists_change {P : σ → Prop} {i j : Nat} (le : i ≤ j) (first : P (m.state i))
    (last : ¬ P (m.state j)) :
    ∃ k, i ≤ k ∧ k < j ∧ P (m.state k) ∧ ¬ P (m.state (k + 1)) := by
  induction le with
  | refl => exact absurd first last
  | @step j le ih =>
    by_cases here : P (m.state j)
    · exact ⟨j, le, Nat.lt_succ_self j, here, last⟩
    · obtain ⟨k, low, high, change⟩ := ih here
      exact ⟨k, low, Nat.lt_succ_of_lt high, change⟩

/-- A machine whose steps use something up stops. -/
theorem exists_halted (left : σ → Nat)
    (falls : ∀ n, m.Halted n ∨ m.Halted (n + 1) ∨ left (m.state (n + 1)) < left (m.state n)) :
    ∃ n, m.Halted n := by
  suffices within : ∀ k n, left (m.state n) ≤ k → ∃ n, m.Halted n from within _ 0 (Nat.le_refl _)
  intro k
  induction k with
  | zero =>
    intro n small
    rcases falls n with here | next | less
    · exact ⟨n, here⟩
    · exact ⟨n + 1, next⟩
    · omega
  | succ k ih =>
    intro n small
    rcases falls n with here | next | less
    · exact ⟨n, here⟩
    · exact ⟨n + 1, next⟩
    · exact ih (n + 1) (by omega)

end Machine
