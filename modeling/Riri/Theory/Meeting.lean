import Mathlib.Data.Nat.Count
import Mathlib.Data.Set.Basic

/-!
# Agents that meet

Every agent goes along a sequence of events of its own, and an event takes place when all its
members have come to it. Whatever the order in which events take place, members of an event
have been at it equally often, and where nothing more can take place everybody has come as far
as anybody can.
-/
universe u v

/-- What every agent comes to, and who has to be there. -/
structure Meeting (ι : Type u) (ε : Type v) where
  seq : ι → ℕ → ε
  members : ε → Set ι

namespace Meeting

variable {ι : Type u} {ε : Type v} (m : Meeting ι ε)

/-- The event takes place: its members were at it and go on. -/
structure Moves (e : ε) (pos pos' : ι → ℕ) : Prop where
  present : ∀ i ∈ m.members e, m.seq i (pos i) = e
  moved : ∀ i ∈ m.members e, pos' i = pos i + 1
  others : ∀ i ∉ m.members e, pos' i = pos i

/-- The positions events can lead to. -/
inductive Reached : (ι → ℕ) → Prop
  | start : Reached fun _ => 0
  | move {pos pos' : ι → ℕ} {e : ε} (reached : Reached pos) (moves : m.Moves e pos pos') :
      Reached pos'

/-- The agent has come to an event it is no member of, and stays. -/
def Stopped (pos : ι → ℕ) (i : ι) : Prop := i ∉ m.members (m.seq i (pos i))

/-- Nothing can take place: whoever has come to an event lacks one of its members. -/
def Stuck (pos : ι → ℕ) : Prop :=
  ∀ e, (∃ i ∈ m.members e, m.seq i (pos i) = e) → ∃ j ∈ m.members e, m.seq j (pos j) ≠ e

/-- Somebody the event needs has stopped, and everybody else it needs is there. -/
structure Missed (e : ε) (pos : ι → ℕ) : Prop where
  gone : ∃ q ∈ m.members e, m.Stopped pos q
  rest : ∀ p ∈ m.members e, m.seq p (pos p) = e ∨ m.Stopped pos p

variable [DecidableEq ε]

/-- How often the agent has been at the event before its `k`-th step. -/
def times (i : ι) (e : ε) (k : ℕ) : ℕ := Nat.count (fun j => m.seq i j = e) k

variable {m}

theorem times_succ (i : ι) (e : ε) (k : ℕ) :
    m.times i e (k + 1) = m.times i e k + if m.seq i k = e then 1 else 0 :=
  Nat.count_succ ..

theorem times_mono {i : ι} {e : ε} {j k : ℕ} (le : j ≤ k) : m.times i e j ≤ m.times i e k :=
  Nat.count_monotone _ le

/-- Who goes past an event has been at it once more. -/
theorem times_lt {i : ι} {e : ε} {j k : ℕ} (at_ : m.seq i j = e) (lt : j < k) :
    m.times i e j < m.times i e k := by
  have past := times_succ (m := m) i e j
  rw [if_pos at_] at past
  have later := times_mono (m := m) (i := i) (e := e) (show j + 1 ≤ k from lt)
  omega

variable {pos pos' x y : ι → ℕ} {e : ε}

/-- Members of an event have been at it equally often. -/
theorem Reached.balanced (reached : m.Reached pos) (e : ε) {i j : ι} (hi : i ∈ m.members e)
    (hj : j ∈ m.members e) : m.times i e (pos i) = m.times j e (pos j) := by
  induction reached with
  | start => rfl
  | @move pos pos' e' _ moves ih =>
    have step : ∀ k, k ∈ m.members e →
        m.times k e (pos' k) = m.times k e (pos k) + if e' = e then 1 else 0 := by
      intro k member
      by_cases moved : k ∈ m.members e'
      · rw [moves.moved k moved, times_succ, moves.present k moved]
      · have other : e' ≠ e := fun same => moved (same ▸ member)
        rw [moves.others k moved, if_neg other, Nat.add_zero]
    rw [step i hi, step j hj, ih]

omit [DecidableEq ε] in
/-- Nobody goes past an event it is no member of. -/
theorem Reached.member (reached : m.Reached pos) {i : ι} {k : ℕ} (lt : k < pos i) :
    i ∈ m.members (m.seq i k) := by
  induction reached with
  | start => exact absurd lt (Nat.not_lt_zero k)
  | @move pos pos' e _ moves ih =>
    by_cases moved : i ∈ m.members e
    · rw [moves.moved i moved] at lt
      rcases Nat.lt_succ_iff_lt_or_eq.mp lt with before | rfl
      · exact ih before
      · rwa [moves.present i moved]
    · rw [moves.others i moved] at lt
      exact ih lt

omit [DecidableEq ε] in
theorem Reached.le_of_stopped (reached : m.Reached y) {q : ι} (stopped : m.Stopped x q) :
    y q ≤ x q := by
  by_contra beyond
  exact stopped (reached.member (Nat.lt_of_not_le beyond))

/-- Where nothing can take place, everybody has come as far as anybody can. -/
theorem Reached.le_of_stuck (hy : m.Reached y) (hx : m.Reached x) (stuck : m.Stuck x) : y ≤ x := by
  induction hy with
  | start => exact fun i => Nat.zero_le _
  | @move y y' e before moves ih =>
    intro i
    by_cases moved : i ∈ m.members e
    · rw [moves.moved i moved]
      rcases Nat.lt_or_eq_of_le (ih i) with behind | level
      · exact behind
      -- `x` is at the event too, and lacks somebody who is at it in `y`.
      have here : m.seq i (x i) = e := by rw [← level, moves.present i moved]
      obtain ⟨j, member, absent⟩ := stuck e ⟨i, moved, here⟩
      have apart : y j ≠ x j := fun same => absent (by rw [← same, moves.present j member])
      have more := times_lt (moves.present j member) (Nat.lt_of_le_of_ne (ih j) apart)
      have first := before.balanced e moved member
      have second := hx.balanced e moved member
      rw [level] at first
      omega
    · rw [moves.others i moved]
      exact ih i

theorem Reached.eq_of_stuck (hx : m.Reached x) (hy : m.Reached y) (stuck_x : m.Stuck x)
    (stuck_y : m.Stuck y) : x = y :=
  le_antisymm (hx.le_of_stuck hy stuck_y) (hy.le_of_stuck hx stuck_x)

/-- Who waits for somebody that has stopped waits for good. -/
theorem Reached.eq_of_waits (hx : m.Reached x) (hy : m.Reached y) {i q : ι} (le_i : y i ≤ x i)
    (le_q : y q ≤ x q) (hi : i ∈ m.members e) (hq : q ∈ m.members e) (waits : m.seq i (y i) = e)
    (stopped : m.Stopped y q) : x i = y i ∧ x q = y q := by
  have same : x q = y q := le_antisymm (hx.le_of_stopped stopped) le_q
  refine ⟨?_, same⟩
  by_contra apart
  have more := times_lt waits (Nat.lt_of_le_of_ne le_i (Ne.symm apart))
  have first := hx.balanced e hi hq
  have second := hy.balanced e hi hq
  rw [same] at first
  omega

/-- Members a missed event waits for are still there where nothing can take place. -/
theorem Missed.of_stuck (hx : m.Reached x) (hy : m.Reached y) (stuck : m.Stuck x)
    (missed : m.Missed e y) : m.Missed e x := by
  have le := hy.le_of_stuck hx stuck
  obtain ⟨q, hq, gone⟩ := missed.gone
  have same : ∀ p ∈ m.members e, x p = y p := by
    intro p hp
    rcases missed.rest p hp with waits | stopped
    · exact (hx.eq_of_waits hy (le p) (le q) hp hq waits gone).1
    · exact le_antisymm (hx.le_of_stopped stopped) (le p)
  refine ⟨⟨q, hq, ?_⟩, fun p hp => ?_⟩
  · unfold Stopped
    rw [same q hq]
    exact gone
  · unfold Stopped
    rw [same p hp]
    exact missed.rest p hp

/-- Who has stopped anywhere has stopped where an event it is a member of is missed. -/
theorem Missed.stopped_of (hx : m.Reached x) (hy : m.Reached y) (missed : m.Missed e y) {p : ι}
    (hp : p ∈ m.members e) (stopped : m.Stopped x p) : m.Stopped y p := by
  obtain ⟨q, hq, gone⟩ := missed.gone
  have least : m.times p e (x p) ≤ m.times p e (y p) := by
    calc m.times p e (x p)
      _ = m.times q e (x q) := hx.balanced e hp hq
      _ ≤ m.times q e (y q) := times_mono (hx.le_of_stopped gone)
      _ = m.times p e (y p) := hy.balanced e hq hp
  refine (missed.rest p hp).resolve_left fun waits => ?_
  have behind : y p < x p := by
    refine Nat.lt_of_le_of_ne (hy.le_of_stopped stopped) fun level => ?_
    have at_ : m.seq p (x p) = e := by rw [← level, waits]
    unfold Stopped at stopped
    rw [at_] at stopped
    exact stopped hp
  have more := times_lt waits behind
  omega

/-- A missed event is missed by the same members wherever it is. -/
theorem Missed.stopped_iff (hx : m.Reached x) (hy : m.Reached y) (missed_x : m.Missed e x)
    (missed_y : m.Missed e y) {p : ι} (hp : p ∈ m.members e) : m.Stopped x p ↔ m.Stopped y p :=
  ⟨missed_y.stopped_of hx hy hp, missed_x.stopped_of hy hx hp⟩

end Meeting
