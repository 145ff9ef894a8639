import Mathlib

/-!
# Vector clocks over a sequence of events

Threads count operations, publish to cells and take from them, fence, and meet at barriers.
An event sequence determines clocks, one for each thread, cell and block, and a
happens-before relation on its times. The clocks are complete: whatever happens before a
point is covered there. They are sound as long as nobody brings news to a barrier while a
thread is still inside an earlier instance of it.
-/

/-- One event of one thread. An operation takes before it is counted and publishes after;
the flags say whether the take is an acquire and the publication a release. -/
inductive VectorClock.Event (T C B : Type) where
  | idle
  | op (t : T) (take publish : Option (C × Bool))
  | fence (t : T) (acquire release : Bool)
  | arrive (t : T) (b : B) (instance_ : Nat)
  | depart (t : T) (b : B) (instance_ : Nat)
  deriving DecidableEq

/-- What every thread has counted and seen, what its fences hold, and what cells and blocks
collectively know. -/
@[ext] structure VectorClock (T C B : Type) where
  seq : T → Nat
  clock : T → T → Nat
  fenceRelease : T → T → Nat
  fenceAcquire : T → T → Nat
  cell : C → T → Nat
  block : B → T → Nat

namespace VectorClock

variable {T C B : Type}

def Event.thread : Event T C B → Option T
  | .idle => none
  | .op t _ _ | .fence t _ _ | .arrive t _ _ | .depart t _ _ => some t

variable [DecidableEq T] [DecidableEq C] [DecidableEq B]

def zero : VectorClock T C B := ⟨0, 0, 0, 0, 0, 0⟩

/-- What an acquire brings to the thread's clock. -/
def acquired (s : VectorClock T C B) : Option (C × Bool) → T → Nat
  | some (c, true) => s.cell c
  | some (_, false) | none => 0

/-- What a take without acquire sets aside. -/
def pending (s : VectorClock T C B) : Option (C × Bool) → T → Nat
  | some (c, false) => s.cell c
  | some (_, true) | none => 0

/-- The clock of a thread that has just taken and counted. -/
def counted (s : VectorClock T C B) (t : T) (take : Option (C × Bool)) : T → Nat :=
  (s.clock t ⊔ s.acquired take) ⊔ Pi.single t (s.seq t + 1)

/-- The cells after a thread with clock `now` published. -/
def published (s : VectorClock T C B) (t : T) (now : T → Nat) :
    Option (C × Bool) → C → T → Nat
  | some (c, release) =>
      Function.update s.cell c ((s.cell c ⊔ if release then now else 0) ⊔ s.fenceRelease t)
  | none => s.cell

def step (s : VectorClock T C B) : Event T C B → VectorClock T C B
  | .idle => s
  | .op t take publish =>
      { s with
        seq := Function.update s.seq t (s.seq t + 1)
        clock := Function.update s.clock t (s.counted t take)
        fenceAcquire := Function.update s.fenceAcquire t (s.fenceAcquire t ⊔ s.pending take)
        cell := s.published t (s.counted t take) publish }
  | .fence t acquire release =>
      let now := if acquire then s.clock t ⊔ s.fenceAcquire t else s.clock t
      { s with
        clock := Function.update s.clock t now
        fenceAcquire :=
          if acquire then Function.update s.fenceAcquire t 0 else s.fenceAcquire
        fenceRelease :=
          if release then Function.update s.fenceRelease t now else s.fenceRelease }
  | .arrive t b _ => { s with block := Function.update s.block b (s.block b ⊔ s.clock t) }
  | .depart t b _ => { s with clock := Function.update s.clock t (s.clock t ⊔ s.block b) }

/-- The clocks before the event at time `n`. -/
def clocks (h : Nat → Event T C B) : Nat → VectorClock T C B
  | 0 => zero
  | n + 1 => (clocks h n).step (h n)

/-! ### Happens-before -/

section

omit [DecidableEq T] [DecidableEq C] [DecidableEq B]

variable (h : Nat → Event T C B)

/-- What the operation at `i` publishes to `c` dates from `k`: from the operation itself
when it releases, or from an earlier release fence of its thread. -/
def Source (i k : Nat) (c : C) : Prop :=
  ∃ t take release, h i = .op t take (some (c, release)) ∧
    ((k = i ∧ release = true) ∨ (k < i ∧ ∃ acquire, h k = .fence t acquire true))

/-- What the operation at `j` takes from `c` arrives at `k`: at the operation itself when it
acquires, or at a later acquire fence of its thread. -/
def Sink (j k : Nat) (c : C) : Prop :=
  ∃ t acquire publish, h j = .op t (some (c, acquire)) publish ∧
    ((k = j ∧ acquire = true) ∨ (j < k ∧ ∃ release, h k = .fence t true release))

/-- Program order, one barrier instance, or a publication that a later take reads. -/
inductive Edge : Nat → Nat → Prop where
  | program {i j : Nat} {t : T} (lt : i < j) (first : (h i).thread = some t)
      (second : (h j).thread = some t) : Edge i j
  | barrier {i j : Nat} {t u : T} {b : B} {inst : Nat} (arrives : h i = .arrive t b inst)
      (departs : h j = .depart u b inst) : Edge i j
  | sync {i j k l : Nat} {c : C} (publishes : Source h i k c) (takes : Sink h j l c)
      (lt : i < j) : Edge k l

def HappensBefore : Nat → Nat → Prop := Relation.TransGen (Edge h)

/-- The same point or an earlier one. -/
def Reaches : Nat → Nat → Prop := Relation.ReflTransGen (Edge h)

/-- `p` happens before, or is, something `t` did before time `n`. -/
def Known (t : T) (n p : Nat) : Prop := ∃ q < n, (h q).thread = some t ∧ Reaches h p q

/-- `t` has arrived at this instance before time `n` and not left it. -/
def Owes (t : T) (b : B) (inst n : Nat) : Prop :=
  (∃ i < n, h i = .arrive t b inst) ∧ ∀ j < n, h j ≠ .depart t b inst

/-- How barriers are used: instances follow each other, every arrival at an instance
precedes every departure from it, and a thread that leaves an instance arrived at it, leaves
it once, and has left all earlier ones. -/
structure Barriers : Prop where
  ordered : ∀ {i j t u b k l}, h i = .arrive t b k → h j = .arrive u b l → i ≤ j → k ≤ l
  complete : ∀ {i j t u b k}, h i = .arrive t b k → h j = .depart u b k → i < j
  arrived : ∀ {j t b k}, h j = .depart t b k → ∃ i < j, h i = .arrive t b k
  once : ∀ {i j t b k}, h i = .depart t b k → h j = .depart t b k → i = j
  earlier : ∀ {j t b k l}, h j = .depart t b k → l < k → ∃ i < j, h i = .depart t b l

end

variable {h : Nat → Event T C B}

/-- `p` is the `m`-th operation of `f`. -/
def NthOp (h : Nat → Event T C B) (f : T) (m p : Nat) : Prop :=
  (∃ take publish, h p = .op f take publish) ∧ (clocks h p).seq f + 1 = m

omit [DecidableEq T] [DecidableEq C] [DecidableEq B] in
/-- The rules are about arrivals and departures alone. -/
theorem Barriers.congr {h h' : Nat → Event T C B} (rules : Barriers h)
    (arrives : ∀ {n t b k}, h' n = .arrive t b k ↔ h n = .arrive t b k)
    (departs : ∀ {n t b k}, h' n = .depart t b k ↔ h n = .depart t b k) : Barriers h' where
  ordered first second := rules.ordered (arrives.mp first) (arrives.mp second)
  complete first second := rules.complete (arrives.mp first) (departs.mp second)
  arrived left := by
    obtain ⟨i, lt, first⟩ := rules.arrived (departs.mp left)
    exact ⟨i, lt, arrives.mpr first⟩
  once first second := rules.once (departs.mp first) (departs.mp second)
  earlier left lt := by
    obtain ⟨i, before, first⟩ := rules.earlier (departs.mp left) lt
    exact ⟨i, before, departs.mpr first⟩

omit [DecidableEq T] [DecidableEq C] [DecidableEq B] in
/-- Edges go forward in time. -/
theorem Edge.lt (rules : Barriers h) {i j : Nat} (e : Edge h i j) : i < j := by
  cases e with
  | program lt _ _ => exact lt
  | barrier arrives departs => exact rules.complete arrives departs
  | sync publishes takes lt =>
    obtain ⟨_, _, _, _, ⟨rfl, -⟩ | ⟨before, -⟩⟩ := publishes <;>
      obtain ⟨_, _, _, _, ⟨rfl, -⟩ | ⟨after, -⟩⟩ := takes <;> omega

omit [DecidableEq T] [DecidableEq C] [DecidableEq B] in
/-- A set of times that edges do not leave holds whatever one of its points happens before. -/
theorem HappensBefore.closed {P : Nat → Prop} (closed : ∀ {i j}, Edge h i j → P i → P j)
    {i j : Nat} (before : HappensBefore h i j) (start : P i) : P j := by
  induction before with
  | single e => exact closed e start
  | tail _ e ih => exact closed e ih

omit [DecidableEq T] [DecidableEq C] [DecidableEq B] in
theorem HappensBefore.lt (rules : Barriers h) {i j : Nat} (before : HappensBefore h i j) :
    i < j := by
  induction before with
  | single e => exact e.lt rules
  | tail _ e ih => exact ih.trans (e.lt rules)

/-! ### What one event leaves -/

omit [DecidableEq T] in
@[simp] theorem sup_zero (c : T → Nat) : c ⊔ 0 = c := sup_eq_left.mpr fun _ => Nat.zero_le _

@[simp] theorem clocks_succ (n : Nat) : clocks h (n + 1) = (clocks h n).step (h n) := rfl

/-- A thread's clock only grows. -/
theorem clock_le_step (s : VectorClock T C B) (e : Event T C B) (t : T) :
    s.clock t ≤ (s.step e).clock t := by
  cases e with
  | idle => exact le_rfl
  | op u take publish =>
    by_cases mine : t = u
    · subst mine
      simpa [step, counted] using le_sup_of_le_left le_sup_left
    · simp [step, mine]
  | fence u acquire release =>
    by_cases mine : t = u
    · subst mine
      cases acquire <;> simp [step]
    · simp [step, mine]
  | arrive u b inst => exact le_rfl
  | depart u b inst =>
    by_cases mine : t = u
    · subst mine
      simp [step]
    · simp [step, mine]

theorem cell_le_step (s : VectorClock T C B) (e : Event T C B) (c : C) :
    s.cell c ≤ (s.step e).cell c := by
  cases e with
  | op u take publish =>
    cases publish with
    | none => exact le_rfl
    | some target =>
      obtain ⟨c', release⟩ := target
      by_cases here : c = c'
      · subst here
        simpa [step, published] using le_sup_of_le_left le_sup_left
      · simp [step, published, here]
  | _ => exact le_rfl

theorem block_le_step (s : VectorClock T C B) (e : Event T C B) (b : B) :
    s.block b ≤ (s.step e).block b := by
  cases e with
  | arrive u b' inst =>
    by_cases here : b = b'
    · subst here
      simp [step]
    · simp [step, here]
  | _ => exact le_rfl

/-- What a thread has set aside is kept until it is taken on. -/
theorem gathered_le_step (s : VectorClock T C B) (e : Event T C B) (t : T) :
    s.clock t ⊔ s.fenceAcquire t ≤ (s.step e).clock t ⊔ (s.step e).fenceAcquire t := by
  have grown := clock_le_step s e t
  cases e with
  | op u take publish =>
    refine sup_le_sup grown ?_
    by_cases mine : t = u
    · subst mine
      simp [step]
    · simp [step, mine]
  | fence u acquire release =>
    by_cases mine : t = u
    · subst mine
      cases acquire <;> simp [step]
    · cases acquire <;> simp [step, mine]
  | _ => exact sup_le_sup_right grown _

/-- A release fence's snapshot is never ahead of its thread. -/
theorem fenceRelease_le_clock (t : T) (n : Nat) :
    (clocks h n).fenceRelease t ≤ (clocks h n).clock t := by
  induction n with
  | zero => exact le_rfl
  | succ n ih =>
    have grown := ih.trans (clock_le_step (clocks h n) (h n) t)
    rw [clocks_succ]
    cases e : h n with
    | fence u acquire release =>
      rw [e] at grown
      cases release with
      | false => exact grown
      | true =>
        by_cases mine : t = u
        · subst mine
          simp [step]
        · simpa [step, mine] using grown
    | _ =>
      rw [e] at grown
      exact grown

theorem fenceRelease_le_step (t : T) (n : Nat) :
    (clocks h n).fenceRelease t ≤ (clocks h (n + 1)).fenceRelease t := by
  have behind := (fenceRelease_le_clock t n).trans (clock_le_step (clocks h n) (h n) t)
  rw [clocks_succ]
  cases e : h n with
  | fence u acquire release =>
    rw [e] at behind
    cases release with
    | false => exact le_rfl
    | true =>
      by_cases mine : t = u
      · subst mine
        simpa [step] using behind
      · simp [step, mine]
  | _ => exact le_rfl

theorem clock_mono (t : T) {i j : Nat} (le : i ≤ j) :
    (clocks h i).clock t ≤ (clocks h j).clock t :=
  monotone_nat_of_le_succ (f := fun n => (clocks h n).clock t)
    (fun _ => clock_le_step _ _ t) le

theorem cell_mono (c : C) {i j : Nat} (le : i ≤ j) :
    (clocks h i).cell c ≤ (clocks h j).cell c :=
  monotone_nat_of_le_succ (f := fun n => (clocks h n).cell c) (fun _ => cell_le_step _ _ c) le

theorem block_mono (b : B) {i j : Nat} (le : i ≤ j) :
    (clocks h i).block b ≤ (clocks h j).block b :=
  monotone_nat_of_le_succ (f := fun n => (clocks h n).block b) (fun _ => block_le_step _ _ b) le

theorem fenceRelease_mono (t : T) {i j : Nat} (le : i ≤ j) :
    (clocks h i).fenceRelease t ≤ (clocks h j).fenceRelease t :=
  monotone_nat_of_le_succ (f := fun n => (clocks h n).fenceRelease t)
    (fun n => fenceRelease_le_step t n) le

theorem gathered_mono (t : T) {i j : Nat} (le : i ≤ j) :
    (clocks h i).clock t ⊔ (clocks h i).fenceAcquire t ≤
      (clocks h j).clock t ⊔ (clocks h j).fenceAcquire t :=
  monotone_nat_of_le_succ (f := fun n => (clocks h n).clock t ⊔ (clocks h n).fenceAcquire t)
    (fun _ => gathered_le_step _ _ t) le

/-! ### Completeness -/

/-- What a publication dates from is in the cell afterwards. -/
theorem source_le_cell {i k : Nat} {c : C} {t : T} (publishes : Source h i k c)
    (thread : (h k).thread = some t) : (clocks h (k + 1)).clock t ≤ (clocks h (i + 1)).cell c := by
  obtain ⟨u, take, release, op, ⟨rfl, rfl⟩ | ⟨before, acquire, fence⟩⟩ := publishes
  · obtain rfl : u = t := by simpa [op, Event.thread] using thread
    rw [clocks_succ, op]
    simpa [step, published] using le_sup_of_le_left le_sup_right
  · obtain rfl : u = t := by simpa [fence, Event.thread] using thread
    have snapshot : (clocks h (k + 1)).fenceRelease u = (clocks h (k + 1)).clock u := by
      rw [clocks_succ, fence]
      simp [step]
    rw [← snapshot]
    refine (fenceRelease_mono u before).trans ?_
    rw [clocks_succ, op]
    simp [step, published]

/-- What a take finds in the cell is in the clock where it arrives. -/
theorem cell_le_sink {j l : Nat} {c : C} {u : T} (takes : Sink h j l c)
    (thread : (h l).thread = some u) : (clocks h j).cell c ≤ (clocks h (l + 1)).clock u := by
  obtain ⟨v, acquire, publish, op, ⟨rfl, rfl⟩ | ⟨before, release, fence⟩⟩ := takes
  · obtain rfl : v = u := by simpa [op, Event.thread] using thread
    rw [clocks_succ, op]
    simpa [step, counted, acquired] using le_sup_of_le_left le_sup_right
  · obtain rfl : v = u := by simpa [fence, Event.thread] using thread
    have taken : (clocks h j).cell c ≤
        (clocks h (j + 1)).clock v ⊔ (clocks h (j + 1)).fenceAcquire v := by
      rw [clocks_succ, op]
      cases acquire with
      | true => simpa [step, counted, acquired] using
          le_sup_of_le_left (le_sup_of_le_left le_sup_right)
      | false => simpa [step, pending] using le_sup_of_le_right le_sup_right
    refine (taken.trans (gathered_mono v before)).trans ?_
    rw [clocks_succ, fence]
    simp [step]

omit [DecidableEq T] [DecidableEq C] [DecidableEq B] in
theorem Edge.thread_left {i j : Nat} (e : Edge h i j) : ∃ t, (h i).thread = some t := by
  cases e with
  | program _ first _ => exact ⟨_, first⟩
  | barrier arrives _ => exact ⟨_, by rw [arrives]; rfl⟩
  | sync publishes _ _ =>
    obtain ⟨t, take, release, op, ⟨rfl, -⟩ | ⟨-, acquire, fence⟩⟩ := publishes
    · exact ⟨t, by rw [op]; rfl⟩
    · exact ⟨t, by rw [fence]; rfl⟩

/-- Clocks flow along every edge. -/
theorem clock_le_of_edge (rules : Barriers h) {i j : Nat} {t u : T} (e : Edge h i j)
    (first : (h i).thread = some t) (second : (h j).thread = some u) :
    (clocks h (i + 1)).clock t ≤ (clocks h (j + 1)).clock u := by
  cases e with
  | program lt first' second' =>
    rw [first] at first'
    rw [second] at second'
    obtain rfl : t = u := Option.some.inj (first'.trans second'.symm)
    exact clock_mono t (by omega)
  | @barrier _ _ v w b inst arrives departs =>
    obtain rfl : v = t := by simpa [arrives, Event.thread] using first
    obtain rfl : w = u := by simpa [departs, Event.thread] using second
    have before := rules.complete arrives departs
    have joined : (clocks h (i + 1)).clock v ≤ (clocks h (i + 1)).block b := by
      rw [clocks_succ, arrives]
      simp [step]
    refine (joined.trans (block_mono b before)).trans ?_
    rw [clocks_succ, departs]
    simp [step]
  | sync publishes takes lt =>
    exact ((source_le_cell publishes first).trans (cell_mono _ lt)).trans
      (cell_le_sink takes second)

/-- Completeness: what happens before a point is covered there. -/
theorem clock_le_of_reaches (rules : Barriers h) {i j : Nat} {t u : T} (path : Reaches h i j)
    (first : (h i).thread = some t) (second : (h j).thread = some u) :
    (clocks h (i + 1)).clock t ≤ (clocks h (j + 1)).clock u := by
  induction path generalizing u with
  | refl =>
    obtain rfl : t = u := by simpa [first] using second
    exact le_rfl
  | tail path e ih =>
    obtain ⟨v, middle⟩ := e.thread_left
    exact (ih middle).trans (clock_le_of_edge rules e middle second)

/-- An operation is in its own thread's clock once it is counted. -/
theorem NthOp.le_clock {f : T} {m p : Nat} (op : NthOp h f m p) :
    m ≤ (clocks h (p + 1)).clock f f := by
  obtain ⟨⟨take, publish, event⟩, rfl⟩ := op
  rw [clocks_succ, event]
  simp [step, counted]

theorem seq_le_step (s : VectorClock T C B) (e : Event T C B) (t : T) :
    s.seq t ≤ (s.step e).seq t := by
  cases e with
  | op u take publish =>
    by_cases mine : t = u
    · subst mine
      simp [step]
    · simp [step, mine]
  | _ => exact le_rfl

theorem seq_mono (t : T) {i j : Nat} (le : i ≤ j) : (clocks h i).seq t ≤ (clocks h j).seq t :=
  monotone_nat_of_le_succ (f := fun n => (clocks h n).seq t) (fun _ => seq_le_step _ _ t) le

/-- A counted operation counts. -/
theorem NthOp.seq_succ {f : T} {m p : Nat} (op : NthOp h f m p) : (clocks h (p + 1)).seq f = m := by
  obtain ⟨⟨take, publish, event⟩, rfl⟩ := op
  rw [clocks_succ, event]
  simp [step]

/-- Operations of one thread have different numbers. -/
theorem NthOp.unique {f : T} {m p q : Nat} (op : NthOp h f m p) (op' : NthOp h f m q) : p = q := by
  have later : ∀ {a b}, NthOp h f m a → NthOp h f m b → ¬ a < b := by
    intro a b first second lt
    have counted := seq_mono (h := h) f (show a + 1 ≤ b from lt)
    have here := first.seq_succ
    have there := second.2
    omega
  exact Nat.le_antisymm (Nat.le_of_not_lt (later op' op)) (Nat.le_of_not_lt (later op op'))

/-! ### Soundness -/

/-- Every entry of `c` is the number of an operation that satisfies `P`. -/
def Covers (h : Nat → Event T C B) (P : Nat → Prop) (c : T → Nat) : Prop :=
  ∀ f m, 1 ≤ m → m ≤ c f → ∃ p, NthOp h f m p ∧ P p

theorem Covers.zero {P : Nat → Prop} : Covers h P 0 := by
  intro f m pos le
  exact absurd (pos.trans le) (by simp)

theorem Covers.sup {P : Nat → Prop} {c d : T → Nat} (hc : Covers h P c) (hd : Covers h P d) :
    Covers h P (c ⊔ d) := by
  intro f m pos le
  rcases le_sup_iff.mp (show m ≤ c f ⊔ d f from le) with left | right
  · exact hc f m pos left
  · exact hd f m pos right

theorem Covers.imp {P Q : Nat → Prop} {c : T → Nat} (hc : Covers h P c)
    (weaken : ∀ p, P p → Q p) : Covers h Q c := by
  intro f m pos le
  obtain ⟨p, op, here⟩ := hc f m pos le
  exact ⟨p, op, weaken p here⟩

/-- Nobody brings news to a barrier while a thread is inside an earlier instance of it. -/
def Clean (h : Nat → Event T C B) (n : Nat) : Prop :=
  ∀ t b k u l, h n = .arrive t b k → Owes h u b l n → l < k →
    (clocks h n).clock t ≤ (clocks h n).block b

section

omit [DecidableEq T] [DecidableEq C] [DecidableEq B]

variable (h : Nat → Event T C B)

/-- `p` is behind a release fence of `t`. -/
def Fenced (t : T) (n p : Nat) : Prop :=
  ∃ k < n, (∃ acquire, h k = .fence t acquire true) ∧ Reaches h p k

/-- `p` was published to `c`. -/
def Carried (c : C) (n p : Nat) : Prop := ∃ i < n, ∃ k, Source h i k c ∧ Reaches h p k

/-- `p` was published to a cell that `t` took from without acquiring. -/
def Gathered (t : T) (n p : Nat) : Prop :=
  ∃ j < n, ∃ c publish, h j = .op t (some (c, false)) publish ∧ Carried h c j p

/-- `p` is behind an arrival at an instance of `b` that nobody still inside one precedes. -/
def Met (b : B) (n p : Nat) : Prop :=
  ∃ a < n, ∃ t k, h a = .arrive t b k ∧ Reaches h p a ∧ ∀ u l, Owes h u b l n → k ≤ l

variable {h}

theorem Known.succ {t : T} {n p : Nat} (known : Known h t n p) : Known h t (n + 1) p := by
  obtain ⟨q, lt, thread, path⟩ := known
  exact ⟨q, Nat.lt_succ_of_lt lt, thread, path⟩

theorem Fenced.succ {t : T} {n p : Nat} (fenced : Fenced h t n p) : Fenced h t (n + 1) p := by
  obtain ⟨k, lt, fence, path⟩ := fenced
  exact ⟨k, Nat.lt_succ_of_lt lt, fence, path⟩

theorem Carried.succ {c : C} {n p : Nat} (carried : Carried h c n p) : Carried h c (n + 1) p := by
  obtain ⟨i, lt, k, publishes, path⟩ := carried
  exact ⟨i, Nat.lt_succ_of_lt lt, k, publishes, path⟩

theorem Gathered.succ {t : T} {n p : Nat} (gathered : Gathered h t n p) :
    Gathered h t (n + 1) p := by
  obtain ⟨j, lt, rest⟩ := gathered
  exact ⟨j, Nat.lt_succ_of_lt lt, rest⟩

theorem owes_succ {u : T} {b : B} {l n : Nat} (owes : Owes h u b l (n + 1)) :
    Owes h u b l n ∨ h n = .arrive u b l := by
  obtain ⟨⟨i, lt, arrives⟩, stays⟩ := owes
  rcases Nat.lt_succ_iff_lt_or_eq.mp lt with before | rfl
  · exact .inl ⟨⟨i, before, arrives⟩, fun j hj => stays j (Nat.lt_succ_of_lt hj)⟩
  · exact .inr arrives

/-- A later arrival is at the same instance or a later one. -/
theorem Met.succ (rules : Barriers h) {b : B} {n p : Nat} (met : Met h b n p) :
    Met h b (n + 1) p := by
  obtain ⟨a, lt, t, k, arrives, path, first⟩ := met
  refine ⟨a, Nat.lt_succ_of_lt lt, t, k, arrives, path, fun u l owes => ?_⟩
  rcases owes_succ owes with before | now
  · exact first u l before
  · exact rules.ordered arrives now lt.le

/-- Whatever a thread knows reaches its next event. -/
theorem Known.reaches {t : T} {n p : Nat} (known : Known h t n p)
    (thread : (h n).thread = some t) : Reaches h p n := by
  obtain ⟨q, lt, earlier, path⟩ := known
  exact path.tail (.program lt earlier thread)

theorem known_of_reaches {t : T} {n p : Nat} (thread : (h n).thread = some t)
    (path : Reaches h p n) : Known h t (n + 1) p := ⟨n, Nat.lt_succ_self n, thread, path⟩

/-- A departure takes on only what this instance or an earlier one collected. -/
theorem Met.known (rules : Barriers h) {b : B} {n p inst : Nat} {t : T} (met : Met h b n p)
    (departs : h n = .depart t b inst) : Known h t (n + 1) p := by
  obtain ⟨a, -, u, k, arrives, path, first⟩ := met
  have thread : (h n).thread = some t := by rw [departs]; rfl
  have owes : Owes h t b inst n := by
    refine ⟨rules.arrived departs, fun j lt again => ?_⟩
    exact absurd (rules.once again departs) (Nat.ne_of_lt lt)
  refine known_of_reaches thread ?_
  rcases Nat.lt_or_eq_of_le (first t inst owes) with older | rfl
  · obtain ⟨d, lt, left⟩ := rules.earlier departs older
    exact (path.tail (.barrier arrives left)).tail (.program lt (by rw [left]; rfl) thread)
  · exact path.tail (.barrier arrives departs)

end

/-- What every clock stands for at time `n`. -/
structure Sound (h : Nat → Event T C B) (n : Nat) : Prop where
  counted : ∀ t m, 1 ≤ m → m ≤ (clocks h n).seq t → ∃ p < n, NthOp h t m p
  clock : ∀ t, Covers h (Known h t n) ((clocks h n).clock t)
  fenceRelease : ∀ t, Covers h (Fenced h t n) ((clocks h n).fenceRelease t)
  fenceAcquire : ∀ t, Covers h (Gathered h t n) ((clocks h n).fenceAcquire t)
  cell : ∀ c, Covers h (Carried h c n) ((clocks h n).cell c)
  block : ∀ b, Covers h (Met h b n) ((clocks h n).block b)

section

variable {n : Nat} (sound : Sound h n)
include sound

theorem Sound.counted_succ (t : T) (m : Nat) (pos : 1 ≤ m)
    (le : m ≤ (clocks h (n + 1)).seq t) : ∃ p < n + 1, NthOp h t m p := by
  have earlier : m ≤ (clocks h n).seq t → ∃ p < n + 1, NthOp h t m p := fun le => by
    obtain ⟨p, lt, op⟩ := sound.counted t m pos le
    exact ⟨p, Nat.lt_succ_of_lt lt, op⟩
  rw [clocks_succ] at le
  cases event : h n with
  | op u take publish =>
    rw [event] at le
    by_cases mine : t = u
    · subst mine
      have le : m ≤ (clocks h n).seq t + 1 := by simpa [step] using le
      rcases Nat.lt_or_eq_of_le le with before | last
      · exact earlier (Nat.le_of_lt_succ before)
      · exact ⟨n, Nat.lt_succ_self n, ⟨take, publish, event⟩, last.symm⟩
    · exact earlier (by simpa [step, mine] using le)
  | _ =>
    rw [event] at le
    exact earlier le

/-- A counted operation is known to its own thread. -/
theorem Sound.single_known {t : T} (thread : (h n).thread = some t)
    (counts : (clocks h (n + 1)).seq t = (clocks h n).seq t + 1) :
    Covers h (Known h t (n + 1)) (Pi.single t ((clocks h n).seq t + 1)) := by
  intro f m pos le
  by_cases own : f = t
  · subst own
    obtain ⟨p, lt, op⟩ := sound.counted_succ f m pos (by rw [counts]; simpa using le)
    obtain ⟨⟨take, publish, event⟩, -⟩ := id op
    exact ⟨p, op, p, lt, by rw [event]; rfl, .refl⟩
  · simp [own] at le
    omega

theorem Sound.counted_known {t : T} {take publish : Option (C × Bool)}
    (event : h n = .op t take publish) :
    Covers h (Known h t (n + 1)) ((clocks h n).counted t take) := by
  have thread : (h n).thread = some t := by rw [event]; rfl
  refine (((sound.clock t).imp fun p => Known.succ).sup ?_).sup
    (sound.single_known thread (by simp [event, step]))
  cases take with
  | none => exact .zero
  | some target =>
    obtain ⟨c, acquire⟩ := target
    cases acquire with
    | false => exact .zero
    | true =>
      refine (sound.cell c).imp fun p carried => ?_
      obtain ⟨i, lt, k, publishes, path⟩ := carried
      exact known_of_reaches thread
        (path.tail (.sync publishes ⟨t, true, publish, event, .inl ⟨rfl, rfl⟩⟩ lt))

/-- What a fence leaves in its thread's clock. -/
theorem Sound.fenced_known {t : T} {acquire release : Bool}
    (event : h n = .fence t acquire release) :
    Covers h (Known h t (n + 1))
      (if acquire then (clocks h n).clock t ⊔ (clocks h n).fenceAcquire t
        else (clocks h n).clock t) := by
  have thread : (h n).thread = some t := by rw [event]; rfl
  have before := (sound.clock t).imp fun p => Known.succ
  cases acquire with
  | false => exact before
  | true =>
    refine before.sup ((sound.fenceAcquire t).imp fun p gathered => ?_)
    obtain ⟨j, lt, c, publish, op, i, earlier, k, publishes, path⟩ := gathered
    exact known_of_reaches thread
      (path.tail (.sync publishes ⟨t, false, publish, op, .inr ⟨lt, release, event⟩⟩ earlier))

theorem Sound.clock_succ (rules : Barriers h) (t : T) :
    Covers h (Known h t (n + 1)) ((clocks h (n + 1)).clock t) := by
  have before := (sound.clock t).imp fun p => Known.succ
  rw [clocks_succ]
  cases event : h n with
  | op u take publish =>
    by_cases mine : t = u
    · subst mine
      simpa [step] using sound.counted_known event
    · simpa [step, mine] using before
  | fence u acquire release =>
    by_cases mine : t = u
    · subst mine
      simpa [step] using sound.fenced_known event
    · simpa [step, mine] using before
  | depart u b inst =>
    by_cases mine : t = u
    · subst mine
      simpa [step] using before.sup ((sound.block b).imp fun p met => met.known rules event)
    · simpa [step, mine] using before
  | idle => exact before
  | arrive u b inst => exact before

theorem Sound.fenceRelease_succ (t : T) :
    Covers h (Fenced h t (n + 1)) ((clocks h (n + 1)).fenceRelease t) := by
  have before := (sound.fenceRelease t).imp fun p => Fenced.succ
  rw [clocks_succ]
  cases event : h n with
  | fence u acquire release =>
    cases release with
    | false => exact before
    | true =>
      by_cases mine : t = u
      · subst mine
        have now : Covers h (Fenced h t (n + 1))
            (if acquire then (clocks h n).clock t ⊔ (clocks h n).fenceAcquire t
              else (clocks h n).clock t) := by
          refine (sound.fenced_known event).imp fun p known => ?_
          obtain ⟨q, lt, thread, path⟩ := known
          rcases Nat.lt_succ_iff_lt_or_eq.mp lt with earlier | rfl
          · have here : (h n).thread = some t := by rw [event]; rfl
            exact ⟨n, Nat.lt_succ_self n, ⟨acquire, event⟩,
              path.tail (.program earlier thread here)⟩
          · exact ⟨q, lt, ⟨acquire, event⟩, path⟩
        simpa [step] using now
      · simpa [step, mine] using before
  | _ => exact before

theorem Sound.fenceAcquire_succ (t : T) :
    Covers h (Gathered h t (n + 1)) ((clocks h (n + 1)).fenceAcquire t) := by
  have before := (sound.fenceAcquire t).imp fun p => Gathered.succ
  rw [clocks_succ]
  cases event : h n with
  | op u take publish =>
    by_cases mine : t = u
    · subst mine
      have set_aside : Covers h (Gathered h t (n + 1)) ((clocks h n).pending take) := by
        cases take with
        | none => exact .zero
        | some target =>
          obtain ⟨c, acquire⟩ := target
          cases acquire with
          | true => exact .zero
          | false => exact (sound.cell c).imp fun p carried =>
              ⟨n, Nat.lt_succ_self n, c, publish, event, carried⟩
      simpa [step] using before.sup set_aside
    · simpa [step, mine] using before
  | fence u acquire release =>
    cases acquire with
    | false => exact before
    | true =>
      by_cases mine : t = u
      · subst mine
        simpa [step] using Covers.zero
      · simpa [step, mine] using before
  | _ => exact before

theorem Sound.cell_succ (c : C) :
    Covers h (Carried h c (n + 1)) ((clocks h (n + 1)).cell c) := by
  have before := (sound.cell c).imp fun p => Carried.succ
  rw [clocks_succ]
  cases event : h n with
  | op u take publish =>
    cases publish with
    | none => exact before
    | some target =>
      obtain ⟨c', release⟩ := target
      by_cases here : c = c'
      · subst here
        have own : Covers h (Carried h c (n + 1))
            (if release then (clocks h n).counted u take else 0) := by
          cases release with
          | false => exact .zero
          | true =>
            refine (sound.counted_known event).imp fun p known => ?_
            obtain ⟨q, lt, thread, path⟩ := known
            refine ⟨n, Nat.lt_succ_self n, n, ⟨u, take, true, event, .inl ⟨rfl, rfl⟩⟩, ?_⟩
            rcases Nat.lt_succ_iff_lt_or_eq.mp lt with earlier | rfl
            · exact path.tail (.program earlier thread (by rw [event]; rfl))
            · exact path
        have fenced : Covers h (Carried h c (n + 1)) ((clocks h n).fenceRelease u) := by
          refine (sound.fenceRelease u).imp fun p fenced => ?_
          obtain ⟨k, lt, fence, path⟩ := fenced
          exact ⟨n, Nat.lt_succ_self n, k, ⟨u, take, release, event, .inr ⟨lt, fence⟩⟩, path⟩
        simpa [step, published] using (before.sup own).sup fenced
      · simpa [step, published, here] using before
  | _ => exact before

theorem Sound.block_succ (rules : Barriers h) (clean : Clean h n) (b : B) :
    Covers h (Met h b (n + 1)) ((clocks h (n + 1)).block b) := by
  have before := (sound.block b).imp fun p => Met.succ rules
  rw [clocks_succ]
  cases event : h n with
  | arrive u b' inst =>
    by_cases here : b = b'
    · subst here
      have joined : Covers h (Met h b (n + 1)) ((clocks h n).block b ⊔ (clocks h n).clock u) := by
        by_cases behind : ∃ v l, Owes h v b l n ∧ l < inst
        · -- Somebody is still inside an earlier instance, so the arrival brings nothing.
          obtain ⟨v, l, owes, older⟩ := behind
          rw [sup_eq_left.mpr (clean u b inst v l event owes older)]
          exact before
        · refine before.sup ((sound.clock u).imp fun p known => ?_)
          refine ⟨n, Nat.lt_succ_self n, u, inst, event,
            known.reaches (by rw [event]; rfl), fun v l owes => ?_⟩
          rcases owes_succ owes with earlier | now
          · by_contra older
            exact behind ⟨v, l, earlier, Nat.lt_of_not_le older⟩
          · rw [event] at now
            cases now
            exact le_rfl
      simpa [step] using joined
    · simpa [step, here] using before
  | _ => exact before

end

theorem sound_zero : Sound h 0 where
  counted t m pos le := by
    simp [clocks, VectorClock.zero] at le
    omega
  clock _ := .zero
  fenceRelease _ := .zero
  fenceAcquire _ := .zero
  cell _ := .zero
  block _ := .zero

/-- Soundness: as long as every arrival is clean, each entry of a clock is the number of an
operation its owner knows. -/
theorem sound_of_clean (rules : Barriers h) {n : Nat} (clean : ∀ i < n, Clean h i) :
    Sound h n := by
  induction n with
  | zero => exact sound_zero
  | succ n ih =>
    have sound := ih fun i lt => clean i (Nat.lt_succ_of_lt lt)
    exact ⟨sound.counted_succ, sound.clock_succ rules, sound.fenceRelease_succ,
      sound.fenceAcquire_succ, sound.cell_succ,
      sound.block_succ rules (clean n (Nat.lt_succ_self n))⟩

/-! ### Entries count operations -/

/-- No clock is ahead of what has been counted. -/
structure Counted (s : VectorClock T C B) : Prop where
  clock : ∀ t, s.clock t ≤ s.seq
  fenceRelease : ∀ t, s.fenceRelease t ≤ s.seq
  fenceAcquire : ∀ t, s.fenceAcquire t ≤ s.seq
  cell : ∀ c, s.cell c ≤ s.seq
  block : ∀ b, s.block b ≤ s.seq

omit [DecidableEq T] [DecidableEq C] [DecidableEq B] in
theorem Counted.mono {s : VectorClock T C B} (counted : Counted s) {seq : T → Nat}
    (le : s.seq ≤ seq) : Counted { s with seq := seq } :=
  ⟨fun t => (counted.clock t).trans le, fun t => (counted.fenceRelease t).trans le,
    fun t => (counted.fenceAcquire t).trans le, fun c => (counted.cell c).trans le,
    fun b => (counted.block b).trans le⟩

omit [DecidableEq T] in
theorem update_le {ι : Type} [DecidableEq ι] {f : ι → T → Nat} {i : ι} {v bound : T → Nat}
    (others : ∀ j, f j ≤ bound) (own : v ≤ bound) (j : ι) : Function.update f i v j ≤ bound := by
  rw [Function.update_apply]
  split
  · exact own
  · exact others j

theorem Counted.step {s : VectorClock T C B} (counted : Counted s) (e : Event T C B) :
    Counted (s.step e) := by
  cases e with
  | idle => exact counted
  | op t take publish =>
    have grown : s.seq ≤ Function.update s.seq t (s.seq t + 1) := by
      intro u
      by_cases mine : u = t <;> simp [mine]
    have before := counted.mono grown
    have taken : ∀ c, s.cell c ≤ Function.update s.seq t (s.seq t + 1) := before.cell
    have now : s.counted t take ≤ Function.update s.seq t (s.seq t + 1) := by
      refine sup_le (sup_le (before.clock t) ?_) ?_
      · rcases take with _ | ⟨c, _ | _⟩
        · exact fun _ => Nat.zero_le _
        · exact fun _ => Nat.zero_le _
        · exact taken c
      · intro u
        by_cases mine : u = t
        · subst mine
          simp
        · simp [mine]
    refine ⟨update_le before.clock now, before.fenceRelease,
      update_le before.fenceAcquire (sup_le (before.fenceAcquire t) ?_), fun c => ?_, before.block⟩
    · rcases take with _ | ⟨c, _ | _⟩
      · exact fun _ => Nat.zero_le _
      · exact taken c
      · exact fun _ => Nat.zero_le _
    · rcases publish with _ | ⟨c', release⟩
      · exact taken c
      · refine update_le taken (sup_le (sup_le (taken c') ?_) (before.fenceRelease t)) c
        cases release
        · exact fun _ => Nat.zero_le _
        · exact now
  | fence t acquire release =>
    have now : (if acquire then s.clock t ⊔ s.fenceAcquire t else s.clock t) ≤ s.seq := by
      cases acquire
      · exact counted.clock t
      · exact sup_le (counted.clock t) (counted.fenceAcquire t)
    refine ⟨update_le counted.clock now, ?_, ?_, counted.cell, counted.block⟩
    · cases release
      · exact counted.fenceRelease
      · exact update_le counted.fenceRelease now
    · cases acquire
      · exact counted.fenceAcquire
      · exact update_le counted.fenceAcquire fun _ => Nat.zero_le _
  | arrive t b inst =>
    exact ⟨counted.clock, counted.fenceRelease, counted.fenceAcquire, counted.cell,
      update_le counted.block (sup_le (counted.block b) (counted.clock t))⟩
  | depart t b inst =>
    exact ⟨update_le counted.clock (sup_le (counted.clock t) (counted.block b)),
      counted.fenceRelease, counted.fenceAcquire, counted.cell, counted.block⟩

theorem counted_clocks (n : Nat) : Counted (clocks h n) := by
  induction n with
  | zero => exact ⟨fun _ => le_rfl, fun _ => le_rfl, fun _ => le_rfl, fun _ => le_rfl, fun _ => le_rfl⟩
  | succ n ih => exact ih.step (h n)

/-- A thread has seen all its own operations. -/
theorem seq_le_clock (t : T) (n : Nat) : (clocks h n).seq t ≤ (clocks h n).clock t t := by
  induction n with
  | zero => exact le_rfl
  | succ n ih =>
    have grown := ih.trans (clock_le_step (clocks h n) (h n) t t)
    rw [clocks_succ]
    cases event : h n with
    | op u take publish =>
      by_cases mine : t = u
      · subst mine
        simp [VectorClock.step, counted]
      · rw [event] at grown
        simpa [VectorClock.step, mine] using grown
    | _ =>
      rw [event] at grown
      exact grown

/-! ### Takes and publications that bring nothing -/

/-- A take that brings nothing new may be left out. -/
theorem step_take_none {s : VectorClock T C B} {t : T} {take publish : Option (C × Bool)}
    (known : s.acquired take ≤ s.clock t) (aside : s.pending take ≤ s.fenceAcquire t) :
    s.step (.op t take publish) = s.step (.op t none publish) := by
  have same : s.counted t take = s.counted t none := by
    unfold counted
    rw [sup_eq_left.mpr known]
    simp [acquired]
  simp only [step, same, sup_eq_left.mpr aside]
  simp [pending]

/-- A publication that brings nothing new may be left out. -/
theorem step_publish_none {s : VectorClock T C B} {t : T} {take : Option (C × Bool)} {c : C}
    {release : Bool} (known : (if release then s.counted t take else 0) ≤ s.cell c)
    (fenced : s.fenceRelease t ≤ s.cell c) :
    s.step (.op t take (some (c, release))) = s.step (.op t take none) := by
  simp only [step, published]
  rw [sup_eq_left.mpr known, sup_eq_left.mpr fenced, Function.update_eq_self]

/-- The cell an event publishes to. -/
def Event.target : Event T C B → Option C
  | .op _ _ (some (c, _)) => some c
  | _ => none

/-- What an event publishes: its thread's clock if it is a release, and what the thread's
last release fence left. -/
def brings (s : VectorClock T C B) : Event T C B → T → Nat
  | .op t take (some (_, release)) =>
      (if release then s.counted t take else 0) ⊔ s.fenceRelease t
  | _ => 0

theorem step_cell_of_target {s : VectorClock T C B} {e : Event T C B} {c : C}
    (here : e.target = some c) : (s.step e).cell c = s.cell c ⊔ s.brings e := by
  cases e with
  | op t take publish =>
    cases publish with
    | none => cases here
    | some target =>
      obtain rfl : target.1 = c := Option.some.inj here
      simp [step, published, brings, sup_assoc]
  | _ => cases here

theorem step_cell_of_ne {s : VectorClock T C B} {e : Event T C B} {c : C}
    (elsewhere : e.target ≠ some c) : (s.step e).cell c = s.cell c := by
  cases e with
  | op t take publish =>
    cases publish with
    | none => rfl
    | some target =>
      have away : c ≠ target.1 := fun same => elsewhere (by rw [same]; rfl)
      simp [step, published, away]
  | _ => rfl

/-- A publication leaves its cell alone exactly when it is no release and its thread's fence
is behind the cell: a release always brings the operation itself. -/
theorem publishes_nothing_iff {s : VectorClock T C B} (counted : Counted s) {t : T}
    {take : Option (C × Bool)} {c : C} {release : Bool} :
    (s.step (.op t take (some (c, release)))).cell c = s.cell c ↔
      release = false ∧ s.fenceRelease t ≤ s.cell c := by
  have stored : (s.step (.op t take (some (c, release)))).cell c =
      (s.cell c ⊔ if release then s.counted t take else 0) ⊔ s.fenceRelease t := by
    simp [step, published]
  rw [stored]
  constructor
  · intro same
    have known : (if release then s.counted t take else 0) ≤ s.cell c :=
      (le_sup_right.trans le_sup_left).trans same.le
    refine ⟨?_, le_sup_right.trans same.le⟩
    cases release with
    | false => rfl
    | true =>
      have own : s.seq t + 1 ≤ s.counted t take t := by simp [VectorClock.counted]
      exact absurd (own.trans (known t)) (Nat.not_le.mpr (Nat.lt_succ_of_le (counted.cell c t)))
  · rintro ⟨rfl, fenced⟩
    simpa using fenced

omit [DecidableEq C] [DecidableEq B] in
/-- A take leaves its thread alone, but for the count, exactly when the cell is behind what
it would join. -/
theorem takes_nothing_iff {s : VectorClock T C B} (counted : Counted s) {t : T}
    (own : s.seq t ≤ s.clock t t) {c : C} {acquire : Bool} :
    (s.counted t (some (c, acquire)) = s.clock t ⊔ Pi.single t (s.seq t + 1) ∧
      s.fenceAcquire t ⊔ s.pending (some (c, acquire)) = s.fenceAcquire t) ↔
      if acquire then s.cell c ≤ s.clock t else s.cell c ≤ s.fenceAcquire t := by
  cases acquire with
  | false => simp [VectorClock.counted, acquired, pending]
  | true =>
    simp only [VectorClock.counted, acquired, pending, sup_zero, and_true, if_true]
    constructor
    · intro same u
      by_cases mine : u = t
      · subst mine
        exact (counted.cell c u).trans own
      · have here := congrFun same u
        simpa [mine] using here
    · intro known
      rw [sup_eq_left.mpr known]

/-- Histories whose events act alike have the same clocks. -/
theorem clocks_congr {h h' : Nat → Event T C B} {n : Nat}
    (same : ∀ k < n, (clocks h k).step (h' k) = (clocks h k).step (h k)) :
    clocks h' n = clocks h n := by
  induction n with
  | zero => rfl
  | succ n ih =>
    rw [clocks_succ, clocks_succ, ih fun k lt => same k (Nat.lt_succ_of_lt lt)]
    exact same n (Nat.lt_succ_self n)

end VectorClock
