import Mathlib.Data.Fintype.Basic
import Mathlib.Logic.Function.Basic

/-!
# Monitors with one condition variable per thread

A shared state behind a lock, and threads that wait under the lock until the state has an answer
for them. Outside the lock a thread may act: one atomic step that changes the state and notifies
some threads, after which it waits for its next answer or leaves. A notification wakes a thread
that is waiting and is lost on any other; a thread may also wake without one.
-/
universe u v w

namespace Monitor

/-- Where a thread is. A thread that looks is about to take the lock and ask for its answer, at
the start or because it woke. -/
inductive Phase (ω : Type w) where
  | looking
  | asleep
  | past (answer : ω)
  | gone
  deriving DecidableEq

variable {σ : Type u} {τ : Type v} {ω : Type w}

/-- Only a thread that waits notices a notification. -/
def Phase.woken : Phase ω → Phase ω
  | .asleep => .looking
  | phase => phase

structure State (σ : Type u) (τ : Type v) (ω : Type w) where
  shared : σ
  phase : τ → Phase ω

/-- What an action leaves: the shared state, who was notified, and whether the thread waits for
another answer. -/
structure Effect (σ : Type u) (τ : Type v) where
  shared : σ
  notified : Finset τ
  again : Bool

/-- The answers the shared state gives, and what a thread with an answer can do. -/
structure Rules (σ : Type u) (τ : Type v) (ω : Type w) where
  answer : τ → σ → Option ω
  acts : τ → ω → σ → Effect σ τ → Prop

/-- The phase of a thread that has just looked. -/
def Rules.settle (rules : Rules σ τ ω) (i : τ) (s : σ) : Phase ω :=
  match rules.answer i s with
  | some w => .past w
  | none => .asleep

variable [DecidableEq τ]

def notify (notified : Finset τ) (phase : τ → Phase ω) : τ → Phase ω :=
  fun j => if j ∈ notified then (phase j).woken else phase j

/-- One atomic step of one thread. -/
inductive Step (rules : Rules σ τ ω) : State σ τ ω → State σ τ ω → Prop where
  | look {t : State σ τ ω} (i : τ) (looking : t.phase i = .looking) :
      Step rules t ⟨t.shared, Function.update t.phase i (rules.settle i t.shared)⟩
  | spurious {t : State σ τ ω} (i : τ) (asleep : t.phase i = .asleep) :
      Step rules t ⟨t.shared, Function.update t.phase i .looking⟩
  | act {t : State σ τ ω} {e : Effect σ τ} (i : τ) (w : ω) (past : t.phase i = .past w)
      (acts : rules.acts i w t.shared e) :
      Step rules t ⟨e.shared, Function.update (notify e.notified t.phase) i
        (if e.again then rules.settle i e.shared else .gone)⟩

/-- The states of the runs in which every thread begins by looking. -/
inductive Reachable (rules : Rules σ τ ω) (first : σ) : State σ τ ω → Prop where
  | start : Reachable rules first ⟨first, fun _ => .looking⟩
  | step {t t' : State σ τ ω} (before : Reachable rules first t) (moves : Step rules t t') :
      Reachable rules first t'

/-- The discipline of a monitor: whoever an action gives an answer is notified of it, and an
action takes nobody else's answer back. -/
structure Rules.Disciplined (rules : Rules σ τ ω) : Prop where
  signals : ∀ {i j : τ} {w : ω} {s : σ} {e : Effect σ τ}, rules.acts i w s e →
    rules.answer j s = none → rules.answer j e.shared ≠ none → j ∈ e.notified
  keeps : ∀ {i j : τ} {w v : ω} {s : σ} {e : Effect σ τ}, rules.acts i w s e →
    rules.answer i s = some w → j ≠ i → rules.answer j s = some v →
    rules.answer j e.shared = some v

/-- Nobody sleeps through an answer, and whoever is past its wait still has the answer it found. -/
structure Sound (rules : Rules σ τ ω) (t : State σ τ ω) : Prop where
  asleep : ∀ i, t.phase i = .asleep → rules.answer i t.shared = none
  past : ∀ i w, t.phase i = .past w → rules.answer i t.shared = some w

variable {rules : Rules σ τ ω}

omit [DecidableEq τ] in
theorem settle_asleep {i : τ} {s : σ} (h : rules.settle i s = .asleep) : rules.answer i s = none := by
  unfold Rules.settle at h
  split at h
  · cases h
  · assumption

omit [DecidableEq τ] in
theorem settle_past {i : τ} {s : σ} {w : ω} (h : rules.settle i s = .past w) :
    rules.answer i s = some w := by
  unfold Rules.settle at h
  split at h
  next w' answered => rw [answered, ← Phase.past.inj h]
  · cases h

omit [DecidableEq τ] in
theorem settle_of_none {i : τ} {s : σ} (h : rules.answer i s = none) : rules.settle i s = .asleep := by
  simp [Rules.settle, h]

/-- A thread that still sleeps was not notified. -/
theorem notify_asleep {notified : Finset τ} {phase : τ → Phase ω} {i : τ}
    (h : notify notified phase i = .asleep) : phase i = .asleep ∧ i ∉ notified := by
  unfold notify at h
  split at h
  · cases was : phase i <;> simp [was, Phase.woken] at h
  next outside => exact ⟨h, outside⟩

/-- A notification leads to a look and nowhere else. -/
theorem notify_eq {notified : Finset τ} {phase : τ → Phase ω} {i : τ} {p : Phase ω}
    (h : notify notified phase i = p) (other : p ≠ .looking) : phase i = p := by
  unfold notify at h
  split at h
  · cases was : phase i <;> simp_all [Phase.woken]
  · exact h

theorem Step.sound (disciplined : rules.Disciplined) {t t' : State σ τ ω} (sound : Sound rules t)
    (step : Step rules t t') : Sound rules t' := by
  cases step with
  | look i looking =>
    refine ⟨fun j sleeps => ?_, fun j w past => ?_⟩ <;> by_cases mine : j = i
    · subst mine
      exact settle_asleep (by simpa using sleeps)
    · exact sound.asleep j (by simpa [mine] using sleeps)
    · subst mine
      exact settle_past (by simpa using past)
    · exact sound.past j w (by simpa [mine] using past)
  | spurious i asleep =>
    refine ⟨fun j sleeps => ?_, fun j w past => ?_⟩ <;> by_cases mine : j = i
    · simp [mine] at sleeps
    · exact sound.asleep j (by simpa [mine] using sleeps)
    · simp [mine] at past
    · exact sound.past j w (by simpa [mine] using past)
  | @act e i w past acts =>
    have answered := sound.past i w past
    refine ⟨fun j sleeps => ?_, fun j v later => ?_⟩ <;> by_cases mine : j = i
    · subst mine
      cases again : e.again with
      | true => exact settle_asleep (by simpa [again] using sleeps)
      | false => simp [again] at sleeps
    · obtain ⟨slept, unnotified⟩ := notify_asleep (by simpa [mine] using sleeps)
      by_contra late
      exact unnotified (disciplined.signals acts (sound.asleep j slept) late)
    · subst mine
      cases again : e.again with
      | true => exact settle_past (by simpa [again] using later)
      | false => simp [again] at later
    · have before := notify_eq (by simpa [mine] using later) (by simp)
      exact disciplined.keeps acts answered mine (sound.past j v before)

/-- In a disciplined monitor no wakeup is lost. -/
theorem Reachable.sound (disciplined : rules.Disciplined) {first : σ} {t : State σ τ ω}
    (reachable : Reachable rules first t) : Sound rules t := by
  induction reachable with
  | start => exact ⟨fun _ sleeps => (by cases sleeps), fun _ _ past => (by cases past)⟩
  | step _ moves ih => exact moves.sound disciplined ih

/-! ### Waking everyone -/

/-- The same monitor with every action waking every thread. -/
def Rules.broadcast [Fintype τ] (rules : Rules σ τ ω) : Rules σ τ ω where
  answer := rules.answer
  acts := fun i w s e => ∃ notified, rules.acts i w s { e with notified := notified } ∧
    e.notified = Finset.univ

/-- Threads can wake by themselves, however many. -/
theorem Reachable.wake {first s : σ} {phase : τ → Phase ω}
    (reachable : Reachable rules first ⟨s, phase⟩) (some_threads : Finset τ) :
    Reachable rules first ⟨s, notify some_threads phase⟩ := by
  induction some_threads using Finset.induction_on with
  | empty => exact reachable
  | insert i others new ih =>
    have others_only : notify others phase i = phase i := if_neg new
    have inserted : notify (insert i others) phase =
        Function.update (notify others phase) i (phase i).woken := by
      funext j
      by_cases mine : j = i
      · subst mine
        simp [notify]
      · simp [notify, mine]
    rw [inserted]
    cases was : phase i with
    | asleep => exact ih.step (.spurious i (others_only.trans was))
    | looking | past | gone =>
      simpa [Phase.woken, ← was, ← others_only, Function.update_eq_self] using ih

/-- Threads that look without an answer fall asleep, however many. -/
theorem Reachable.rest {first s : σ} {phase : τ → Phase ω}
    (reachable : Reachable rules first ⟨s, phase⟩) (some_threads : Finset τ)
    (looking : ∀ i ∈ some_threads, phase i = .looking ∧ rules.answer i s = none) :
    Reachable rules first ⟨s, fun i => if i ∈ some_threads then .asleep else phase i⟩ := by
  induction some_threads using Finset.induction_on with
  | empty => simpa using reachable
  | insert i others new ih =>
    obtain ⟨looks, unanswered⟩ := looking i (Finset.mem_insert_self i others)
    have rested := ih fun j among => looking j (Finset.mem_insert_of_mem among)
    have one_more := rested.step (.look i (by simp [new, looks]))
    have same : (fun j => if j ∈ insert i others then Phase.asleep else phase j) =
        Function.update (fun j => if j ∈ others then Phase.asleep else phase j) i
          (rules.settle i s) := by
      funext j
      by_cases mine : j = i
      · simp [mine, settle_of_none unanswered]
      · simp [mine]
    rw [same]
    exact one_more

/-- A disciplined monitor reaches the same states whether its actions wake those they are for or
everyone. -/
theorem reachable_broadcast_iff [Fintype τ] (disciplined : rules.Disciplined) {first : σ}
    {t : State σ τ ω} : Reachable rules.broadcast first t ↔ Reachable rules first t := by
  constructor
  · intro reachable
    induction reachable with
    | start => exact .start
    | @step t _ _ moves ih =>
      cases moves with
      | look i looking => exact ih.step (.look i looking)
      | spurious i asleep => exact ih.step (.spurious i asleep)
      | @act e i w past acts =>
        obtain ⟨notified, acts, everyone⟩ := acts
        -- Those the action is not for wake by themselves.
        have woken := (ih.step (.act i w past acts)).wake (Finset.univ.erase i)
        convert woken using 2
        funext j
        by_cases mine : j = i
        · subst mine
          simp [notify]
          rfl
        · have twice : ∀ p : Phase ω, p.woken.woken = p.woken := fun p => by cases p <;> rfl
          simp only [notify, Function.update_of_ne mine, everyone, Finset.mem_univ, if_true,
            Finset.mem_erase, ne_eq, mine, not_false_eq_true, and_self]
          split
          · rw [twice]
          · rfl
  · intro reachable
    induction reachable with
    | start => exact .start
    | @step t _ before moves ih =>
      cases moves with
      | look i looking => exact ih.step (.look i looking)
      | spurious i asleep => exact ih.step (.spurious i asleep)
      | @act e i w past acts =>
        classical
        have sound := before.sound disciplined
        -- Those woken for nothing look and fall asleep again.
        have everyone := Reachable.step ih
          (.act (e := { e with notified := Finset.univ }) i w past ⟨e.notified, acts, rfl⟩)
        have idle := everyone.rest
          (Finset.univ.filter fun j => j ≠ i ∧ t.phase j = .asleep ∧ j ∉ e.notified) (by
            intro j among
            obtain ⟨-, mine, slept, unnotified⟩ := Finset.mem_filter.mp among
            refine ⟨by simp [mine, notify, slept, Phase.woken], ?_⟩
            by_contra answered
            exact unnotified (disciplined.signals acts (sound.asleep j slept) answered))
        convert idle using 2
        funext j
        by_cases mine : j = i
        · subst mine
          simp
          rfl
        · by_cases mentioned : j ∈ e.notified
          · simp [mine, notify, mentioned]
          · cases was : t.phase j <;> simp [mine, notify, mentioned, was, Phase.woken]

end Monitor
