import Mathlib.Logic.Function.Basic
import Mathlib.Data.Set.Basic

/-!
# Threads that keep to their own elements

Threads share a memory and each goes on by its own state, one element at a time. Where in a phase
every element a thread replaces is its own, and every other element it uses is replaced by nobody,
the threads together do what each would do if it had the memory at the start of the phase for
itself, whatever their order.
-/
universe u v w x

namespace Phased

variable {τ : Type u} {E : Type v} {V : Type w} {L : Type x}

/-- What a thread does next: go on without the memory, or replace an element by what it makes of
what the element holds, which can fail. -/
inductive Move (E : Type v) (V : Type w) (L : Type x) where
  | inner (l : L)
  | access (e : E) (f : V → Option (V × L))
  | stop

variable [DecidableEq E]

def Move.perform (mem : E → V) : Move E V L → Option (L × (E → V))
  | .inner l => some (l, mem)
  | .access e f => (f (mem e)).map fun r => (r.2, Function.update mem e r.1)
  | .stop => none

/-- The first `n` moves of a thread that has the memory for itself. -/
def alone (next : L → Move E V L) (l : L) (mem : E → V) : Nat → Option (L × (E → V))
  | 0 => some (l, mem)
  | n + 1 => (alone next l mem n).bind fun s => (next s.1).perform s.2

/-- A thread that has the memory for itself can always move again. -/
def Endless (next : L → Move E V L) (l : L) (mem : E → V) : Prop :=
  ∀ n, (alone next l mem n).isSome

/-- The first `n` moves use only elements in sight, the thread's own, or others without changing
them. -/
def Keeps (next : L → Move E V L) (owner : E → Option τ) (sight : Set E) (i : τ) (l : L)
    (mem : E → V) (n : Nat) : Prop :=
  ∀ k < n, ∀ s, alone next l mem k = some s → ∀ e f, next s.1 = .access e f →
    e ∈ sight ∧ (owner e = some i ∨ owner e = none ∧ ∀ v r, f v = some r → r.1 = v)

/-- Where the threads of a phase are that began it in `first` with the memory `before`, once each
has made `done` of its moves. -/
structure Together (next : τ → L → Move E V L) (owner : E → Option τ) (sight : Set E)
    (members : Set τ) (first : τ → L) (before : E → V) (done : τ → Nat) (now : τ → L)
    (mem : E → V) : Prop where
  thread : ∀ i ∈ members, ∃ view, alone (next i) (first i) before (done i) = some (now i, view) ∧
    ∀ e ∈ sight, owner e = some i → mem e = view e
  rest : ∀ e ∈ sight, owner e = none → mem e = before e

section

variable {next : L → Move E V L} {l : L} {before mem : E → V} {n : Nat}

theorem alone_succ {s : L × (E → V)} (ran : alone next l before n = some s) :
    alone next l before (n + 1) = (next s.1).perform s.2 := by
  simp [alone, ran]

/-- The first move, and what is done from there. -/
theorem alone_head (next : L → Move E V L) (l : L) (before : E → V) (n : Nat) :
    alone next l before (n + 1) =
      ((next l).perform before).bind fun s => alone next s.1 s.2 n := by
  induction n with
  | zero => cases first : (next l).perform before <;> simp [alone, first]
  | succ n ih =>
    rw [alone, ih, Option.bind_assoc]
    rfl

theorem endless_iff : Endless next l before ↔
    ∃ l' mem', (next l).perform before = some (l', mem') ∧ Endless next l' mem' := by
  constructor
  · intro endless
    have moves := endless 1
    rw [alone_head] at moves
    cases first : (next l).perform before with
    | none =>
      rw [first] at moves
      cases moves
    | some s =>
      refine ⟨s.1, s.2, rfl, ?_⟩
      intro n
      have further := endless (n + 1)
      rw [alone_head, first] at further
      exact further
  · rintro ⟨l', mem', first, further⟩ n
    cases n with
    | zero => rfl
    | succ n =>
      rw [alone_head, first]
      exact further n

/-- A thread that can move, and still can where it gets, goes on forever. -/
theorem endless_of_invariant {P : L → (E → V) → Prop}
    (goes : ∀ l mem, P l mem → ∃ l' mem', (next l).perform mem = some (l', mem') ∧ P l' mem')
    (begins : P l before) : Endless next l before := by
  intro n
  induction n generalizing l before with
  | zero => rfl
  | succ n ih =>
    obtain ⟨l', mem', first, further⟩ := goes l before begins
    rw [alone_head, first]
    exact ih further

/-- Fewer moves succeed where more do. -/
theorem alone_isSome {k : Nat} (le : k ≤ n) (ran : (alone next l before n).isSome) :
    (alone next l before k).isSome := by
  induction le with
  | refl => exact ran
  | step _ ih =>
    apply ih
    simp only [alone, Option.isSome_bind, Option.any_eq_true] at ran
    obtain ⟨s, earlier, -⟩ := ran
    rw [earlier]
    rfl

/-- A thread alone changes only elements of its own. -/
theorem alone_elsewhere {owner : E → Option τ} {sight : Set E} {i : τ} {k : Nat}
    {s : L × (E → V)} (keeps : Keeps next owner sight i l before n) (le : k ≤ n)
    (ran : alone next l before k = some s) {e : E} (foreign : owner e ≠ some i) :
    s.2 e = before e := by
  induction k generalizing s with
  | zero =>
    cases ran
    rfl
  | succ k ih =>
    cases earlier : alone next l before k with
    | none => simp [alone, earlier] at ran
    | some r =>
      have same := ih (Nat.le_of_succ_le le) earlier
      rw [alone_succ earlier] at ran
      cases move : next r.1 with
      | inner l' =>
        rw [move] at ran
        cases ran
        exact same
      | stop =>
        rw [move] at ran
        cases ran
      | access e' f =>
        rw [move] at ran
        simp only [Move.perform, Option.map_eq_some_iff] at ran
        obtain ⟨result, updated, rfl⟩ := ran
        by_cases here : e = e'
        · subst here
          obtain ⟨-, own | ⟨-, unchanged⟩⟩ := keeps k le r earlier e f move
          · exact absurd own foreign
          · simp only [Function.update_self]
            rw [unchanged _ _ updated, same]
        · simpa [here] using same

end

section

variable {next : τ → L → Move E V L} {owner : E → Option τ} {sight : Set E} {members : Set τ}
  {first : τ → L} {before : E → V} {done : τ → Nat} {now : τ → L} {mem : E → V}

/-- The start of a phase. -/
theorem Together.start (begun : ∀ i ∈ members, now i = first i)
    (untouched : ∀ e ∈ sight, mem e = before e) :
    Together next owner sight members first before (fun _ => 0) now mem := by
  constructor
  · intro i member
    refine ⟨before, ?_, fun e seen _ => untouched e seen⟩
    rw [begun i member]
    rfl
  · intro e seen _
    exact untouched e seen

/-- Only the members and what is in sight matter. -/
theorem Together.congr (together : Together next owner sight members first before done now mem)
    {done' : τ → Nat} {now' : τ → L} {mem' : E → V} (same_done : ∀ i ∈ members, done' i = done i)
    (same_now : ∀ i ∈ members, now' i = now i) (same_mem : ∀ e ∈ sight, mem' e = mem e) :
    Together next owner sight members first before done' now' mem' := by
  constructor
  · intro i member
    obtain ⟨view, ran, own⟩ := together.thread i member
    refine ⟨view, ?_, ?_⟩
    · rw [same_done i member, same_now i member]
      exact ran
    · intro e seen mine
      rw [same_mem e seen]
      exact own e seen mine
  · intro e seen nobody
    rw [same_mem e seen]
    exact together.rest e seen nobody

/-- In sight, a thread sees what it would see alone. -/
theorem Together.sees (together : Together next owner sight members first before done now mem)
    {i : τ} {n : Nat} {view : E → V} (keeps : Keeps (next i) owner sight i (first i) before n)
    (le : done i ≤ n) (member : i ∈ members)
    (ran : alone (next i) (first i) before (done i) = some (now i, view)) {e : E} (seen : e ∈ sight)
    (allowed : owner e = some i ∨ owner e = none) : mem e = view e := by
  obtain ⟨view', ran', own⟩ := together.thread i member
  obtain rfl : view' = view := by
    rw [ran] at ran'
    exact (Prod.mk.inj (Option.some.inj ran')).2.symm
  cases allowed with
  | inl mine => exact own e seen mine
  | inr nobody =>
    rw [together.rest e seen nobody]
    exact (alone_elsewhere keeps le ran (by simp [nobody])).symm

variable [DecidableEq τ]

/-- The next move of a thread is the one it would make alone, and it leaves the others where they
are. -/
theorem Together.step (together : Together next owner sight members first before done now mem)
    {i : τ} {n : Nat} (keeps : Keeps (next i) owner sight i (first i) before n)
    (member : i ∈ members) (more : done i < n)
    (runs : (alone (next i) (first i) before n).isSome) :
    ∃ l' mem', (next i (now i)).perform mem = some (l', mem') ∧
      (∀ e, owner e ≠ some i → mem' e = mem e) ∧
      Together next owner sight members first before (Function.update done i (done i + 1))
        (Function.update now i l') mem' := by
  obtain ⟨view, ran, own⟩ := together.thread i member
  have goes := alone_isSome more runs
  have further := alone_succ ran
  rw [further] at goes
  -- What the others and the rest of the memory keep, whatever the move is.
  have others : ∀ (l' : L) (mem' view' : E → V),
      alone (next i) (first i) before (done i + 1) = some (l', view') →
      (∀ e, owner e ≠ some i → mem' e = mem e) →
      (∀ e ∈ sight, owner e = some i → mem' e = view' e) →
      Together next owner sight members first before (Function.update done i (done i + 1))
        (Function.update now i l') mem' := by
    intro l' mem' view' stepped foreign mine
    constructor
    · intro j among
      by_cases same : j = i
      · subst same
        exact ⟨view', by simpa using stepped, mine⟩
      · obtain ⟨theirs, ran', own'⟩ := together.thread j among
        refine ⟨theirs, by simpa [same] using ran', ?_⟩
        intro e seen owned
        rw [foreign e (by simp [owned, same]), own' e seen owned]
    · intro e seen nobody
      rw [foreign e (by simp [nobody])]
      exact together.rest e seen nobody
  cases move : next i (now i) with
  | stop =>
    rw [move] at goes
    cases goes
  | inner l' =>
    rw [move] at further
    exact ⟨l', mem, rfl, fun e _ => rfl, others l' mem view further (fun e _ => rfl) own⟩
  | access e f =>
    obtain ⟨seen, allowed⟩ := keeps (done i) more _ ran e f move
    have same : mem e = view e := by
      refine together.sees keeps more.le member ran seen ?_
      cases allowed with
      | inl mine => exact .inl mine
      | inr read => exact .inr read.1
    rw [move] at goes further
    simp only [Move.perform, Option.isSome_map, Option.isSome_iff_exists] at goes
    obtain ⟨result, updated⟩ := goes
    refine ⟨result.2, Function.update mem e result.1, ?_, ?_, ?_⟩
    · simp [Move.perform, same, updated]
    · intro e' foreign
      by_cases here : e' = e
      · subst here
        cases allowed with
        | inl mine => exact absurd mine foreign
        | inr read => rw [Function.update_self, read.2 _ _ updated, same]
      · exact Function.update_of_ne here ..
    · refine others result.2 _ (Function.update view e result.1) ?_ ?_ ?_
      · simp [further, Move.perform, updated]
      · intro e' foreign
        by_cases here : e' = e
        · subst here
          cases allowed with
          | inl mine => exact absurd mine foreign
          | inr read => rw [Function.update_self, read.2 _ _ updated, same]
        · exact Function.update_of_ne here ..
      · intro e' seen' mine
        by_cases here : e' = e
        · subst here
          simp
        · simpa [here] using own e' seen' mine

end

/-! ### From phase to phase -/

/-- What the threads start a phase with. -/
structure Snapshot (τ : Type u) (E : Type v) (V : Type w) (L : Type x) where
  first : τ → L
  mem : E → V

variable {next : τ → L → Move E V L} {owner : E → Option τ} {sight : Set E} {members : Set τ}
  {steps : τ → Nat}

/-- Where a thread alone gets in `n` moves, or where it began if it fails on the way. -/
def Snapshot.ends (s : Snapshot τ E V L) (next : τ → L → Move E V L) (i : τ) (n : Nat) :
    L × (E → V) :=
  (alone (next i) (s.first i) s.mem n).getD (s.first i, s.mem)

/-- The start of the next phase: every thread goes on from its last state, and every element is
as its owner left it. -/
def Snapshot.after (s : Snapshot τ E V L) (next : τ → L → Move E V L) (owner : E → Option τ)
    (steps : τ → Nat) (resume : L → L) : Snapshot τ E V L where
  first := fun i => resume (s.ends next i (steps i)).1
  mem := fun e => match owner e with
    | some i => (s.ends next i (steps i)).2 e
    | none => s.mem e

theorem Snapshot.after_of_unowned (s : Snapshot τ E V L) (resume : L → L) {e : E}
    (nobody : owner e = none) : (s.after next owner steps resume).mem e = s.mem e := by
  simp [Snapshot.after, nobody]

/-- When all threads have made all their moves of a phase, the next can start. -/
theorem Together.finish {s : Snapshot τ E V L} {now : τ → L} {mem : E → V} {done : τ → Nat}
    (together : Together next owner sight members s.first s.mem done now mem)
    (all : ∀ i ∈ members, done i = steps i) (owners : ∀ e i, owner e = some i → i ∈ members)
    (resume : L → L) :
    (∀ i ∈ members, (s.after next owner steps resume).first i = resume (now i)) ∧
      ∀ e ∈ sight, (s.after next owner steps resume).mem e = mem e := by
  have ended : ∀ i ∈ members, ∃ view, s.ends next i (steps i) = (now i, view) ∧
      ∀ e ∈ sight, owner e = some i → mem e = view e := by
    intro i member
    obtain ⟨view, ran, own⟩ := together.thread i member
    rw [all i member] at ran
    exact ⟨view, by rw [Snapshot.ends, ran, Option.getD_some], own⟩
  constructor
  · intro i member
    obtain ⟨view, here, -⟩ := ended i member
    simp only [Snapshot.after, here]
  · intro e seen
    cases owned : owner e with
    | none => rw [s.after_of_unowned resume owned, together.rest e seen owned]
    | some i =>
      obtain ⟨view, here, own⟩ := ended i (owners e i owned)
      simp only [Snapshot.after, owned, here]
      exact (own e seen owned).symm

end Phased
