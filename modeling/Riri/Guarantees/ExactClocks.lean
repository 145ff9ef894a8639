import Riri.Sync.Operations

/-!
# Clocks of fences and atomics are exact

The library's clocks count every operation, the code's only ticks. The two agree entry by
entry: whenever the library's entry is the number of operations a thread had made at some
time, the code's is the number of ticks it had made then. Soundness and completeness of the
library's clocks then make the code's exact.
-/
namespace Riri.SyncOp

open VectorClock (clocks)

variable {E : Type} [DecidableEq E] {ops : Nat → SyncOp E}

/-! ### Ticks and operations -/

def counted (ops : Nat → SyncOp E) (u n : Nat) : Nat := (clocks (events ops) n).seq u

theorem ticks_succ (u n : Nat) :
    ticks ops u (n + 1) = ticks ops u n + if ops n = .tick u then 1 else 0 :=
  Nat.count_succ ..

theorem ticks_mono (u : Nat) : Monotone (ticks ops u) := Nat.count_monotone _

theorem counted_of_tick {u n : Nat} (tick : ops n = .tick u) :
    counted ops u (n + 1) = counted ops u n + 1 := by
  simp only [counted, VectorClock.clocks_succ, events, tick, event, VectorClock.step]
  exact Function.update_self ..

/-- A call counts at least as much for the library as for the code. -/
theorem counted_step (u n : Nat) :
    counted ops u n + (if ops n = .tick u then 1 else 0) ≤ counted ops u (n + 1) := by
  by_cases tick : ops n = .tick u
  · rw [if_pos tick, counted_of_tick tick]
  · rw [if_neg tick, Nat.add_zero]
    simp only [counted, VectorClock.clocks_succ, events]
    cases ops n <;> simp only [event, VectorClock.step, le_refl, Function.update_apply] <;>
      split <;> simp_all

theorem counted_mono (u : Nat) : Monotone (counted ops u) :=
  monotone_nat_of_le_succ fun n => (Nat.le_add_right _ _).trans (counted_step u n)

/-- Of the operations between two times some are ticks. -/
theorem ticks_counted {u m n : Nat} (le : m ≤ n) :
    ticks ops u n + counted ops u m ≤ ticks ops u m + counted ops u n := by
  induction n, le using Nat.le_induction with
  | base => exact le_rfl
  | succ n le ih =>
    have step : counted ops u n + (if ops n = .tick u then 1 else 0) ≤ counted ops u (n + 1) :=
      counted_step u n
    rw [ticks_succ]
    omega

/-! ### Entries that agree -/

/-- The ticks and the operations of `u` at one of the times up to `n`. -/
def Agree (ops : Nat → SyncOp E) (n u a m : Nat) : Prop :=
  ∃ k ≤ n, a = ticks ops u k ∧ m = counted ops u k

theorem Agree.zero (n u : Nat) : Agree ops n u 0 0 := ⟨0, Nat.zero_le n, rfl, rfl⟩

theorem Agree.now (n u : Nat) : Agree ops n u (ticks ops u n) (counted ops u n) :=
  ⟨n, le_rfl, rfl, rfl⟩

theorem Agree.succ {n u a m : Nat} (agree : Agree ops n u a m) : Agree ops (n + 1) u a m := by
  obtain ⟨k, le, ticked, made⟩ := agree
  exact ⟨k, Nat.le_succ_of_le le, ticked, made⟩

theorem Agree.max {n u a m a' m' : Nat} (first : Agree ops n u a m) (second : Agree ops n u a' m') :
    Agree ops n u (Max.max a a') (Max.max m m') := by
  obtain ⟨k, le, rfl, rfl⟩ := first
  obtain ⟨l, le', rfl, rfl⟩ := second
  rcases Nat.le_total k l with before | after
  · rw [max_eq_right (ticks_mono u before), max_eq_right (counted_mono u before)]
    exact ⟨l, le', rfl, rfl⟩
  · rw [max_eq_left (ticks_mono u after), max_eq_left (counted_mono u after)]
    exact ⟨k, le, rfl, rfl⟩

/-- An entry that covers all operations covers all ticks. -/
theorem Agree.complete {n u a m : Nat} (agree : Agree ops n u a m) (all : counted ops u n ≤ m) :
    a = ticks ops u n := by
  obtain ⟨k, le, rfl, rfl⟩ := agree
  have some_ticks : ticks ops u n + counted ops u k ≤ ticks ops u k + counted ops u n :=
    ticks_counted le
  have grown : ticks ops u k ≤ ticks ops u n := ticks_mono u le
  omega

/-- The entry of a thread that has just made an operation. -/
theorem agree_counted {n t u a b : Nat} {take publish : Option (E × Bool)}
    (call : events ops n = .op t take publish)
    (before : Agree ops n u a (((clocks (events ops) n).clock t ⊔
      (clocks (events ops) n).acquired take) u))
    (now : b = if u = t then ticks ops t (n + 1) else a) :
    Agree ops (n + 1) u b ((clocks (events ops) n).counted t take u) := by
  by_cases own : u = t
  · subst own
    have made : counted ops u (n + 1) = counted ops u n + 1 := by
      simp [counted, call, VectorClock.step]
    obtain ⟨k, le, -, seen⟩ := before
    have bound : counted ops u k ≤ counted ops u n := counted_mono u le
    rw [now, if_pos rfl, VectorClock.counted, Pi.sup_apply, seen, Pi.single_eq_same]
    rw [show Max.max (counted ops u k) ((clocks (events ops) n).seq u + 1) =
      counted ops u (n + 1) from by rw [made]; exact max_eq_right (Nat.le_succ_of_le bound)]
    exact .now (n + 1) u
  · rw [now, if_neg own]
    simpa [VectorClock.counted, own] using before.succ

/-! ### The two kinds of clocks side by side -/

structure Matches (keyOf : Nat → Key) (ops : Nat → SyncOp E) (n : Nat) : Prop where
  seq : ∀ u, (SyncRun.after keyOf ops n).sync.seq u = ticks ops u n
  clock : ∀ t u, Agree ops n u (((SyncRun.after keyOf ops n).sync.clock t).get (keyOf u))
    ((clocks (events ops) n).clock t u)
  fenceRelease : ∀ t u,
    Agree ops n u (((SyncRun.after keyOf ops n).sync.fenceRelease t).get (keyOf u))
      ((clocks (events ops) n).fenceRelease t u)
  fenceAcquire : ∀ t u,
    Agree ops n u (((SyncRun.after keyOf ops n).sync.fenceAcquire t).get (keyOf u))
      ((clocks (events ops) n).fenceAcquire t u)
  element : ∀ e u, Agree ops n u (((SyncRun.after keyOf ops n).element e).get (keyOf u))
    ((clocks (events ops) n).cell e u)

theorem matches_zero (keyOf : Nat → Key) : Matches keyOf ops 0 := by
  have nothing : ∀ u, Agree ops 0 u ((∅ : Clock).get (keyOf u)) 0 := fun u => by
    rw [Clock.get_empty]
    exact .zero 0 u
  exact ⟨fun _ => rfl, fun _ => nothing, fun _ => nothing, fun _ => nothing, fun _ => nothing⟩

section

variable {keyOf : Nat → Key} {n t : Nat} (same : Matches keyOf ops n)
include same

/-- A thread's own entry is its number of ticks. -/
theorem Matches.own (t : Nat) :
    ((SyncRun.after keyOf ops n).sync.clock t).get (keyOf t) = ticks ops t n :=
  (same.clock t t).complete (VectorClock.seq_le_clock t n)

/-- Only the thread making an operation changes its clock. -/
theorem Matches.clock_update {take publish : Option (E × Bool)}
    (call : events ops n = .op t take publish) {now : Clock} {v u : Nat}
    (own : Agree ops (n + 1) u (now.get (keyOf u)) ((clocks (events ops) n).counted t take u)) :
    Agree ops (n + 1) u
      ((Function.update (SyncRun.after keyOf ops n).sync.clock t now v).get (keyOf u))
      ((clocks (events ops) (n + 1)).clock v u) := by
  rw [VectorClock.clocks_succ, call]
  simp only [VectorClock.step]
  by_cases mine : v = t
  · subst mine
    simpa using own
  · simpa [mine] using (same.clock v u).succ

theorem Matches.tick (distinct : Function.Injective keyOf) (call : ops n = .tick t) :
    Matches keyOf ops (n + 1) := by
  have event : events ops n = .op t none none := by rw [events, call]; rfl
  have clock : ∀ v u, Agree ops (n + 1) u
      (((SyncRun.after keyOf ops (n + 1)).sync.clock v).get (keyOf u))
      ((clocks (events ops) (n + 1)).clock v u) := by
    intro v u
    simp only [SyncRun.after, SyncRun.apply, call, SyncState.tick]
    refine same.clock_update event (agree_counted event (a := ((SyncRun.after keyOf ops n).sync.clock
      t).get (keyOf u)) ?_ ?_)
    · simpa [VectorClock.acquired] using same.clock t u
    · simp only [Clock.get_observe, distinct.eq_iff, same.own t, same.seq t, ticks_succ, call]
      by_cases mine : u = t <;> simp [mine]
  refine ⟨fun u => ?_, clock, fun v u => ?_, fun v u => ?_, fun e u => ?_⟩ <;>
    simp only [SyncRun.after, SyncRun.apply, call, SyncState.tick, VectorClock.clocks_succ, event,
      VectorClock.step]
  · rw [ticks_succ, call, Function.update_apply, same.seq, same.seq]
    by_cases mine : u = t
    · simp [mine]
    · simp [mine, Ne.symm mine]
  · exact (same.fenceRelease v u).succ
  · simpa [VectorClock.pending] using (same.fenceAcquire v u).succ
  · exact (same.element e u).succ

theorem Matches.release {e : E} {o : Ordering} (call : ops n = .release t e o) :
    Matches keyOf ops (n + 1) := by
  have event : events ops n = .op t none (some (e, o.isRelease)) := by rw [events, call]; rfl
  have idle : ∀ u, ticks ops u (n + 1) = ticks ops u n := fun u => by simp [ticks_succ, call]
  have own : ∀ u, Agree ops (n + 1) u (((SyncRun.after keyOf ops n).sync.clock t).get (keyOf u))
      ((clocks (events ops) n).counted t none u) := by
    intro u
    refine agree_counted event (a := ((SyncRun.after keyOf ops n).sync.clock t).get (keyOf u)) ?_ ?_
    · simpa [VectorClock.acquired] using same.clock t u
    · by_cases mine : u = t
      · rw [if_pos mine, idle, mine, same.own t]
      · rw [if_neg mine]
  have clock : ∀ v u, Agree ops (n + 1) u
      (((SyncRun.after keyOf ops (n + 1)).sync.clock v).get (keyOf u))
      ((clocks (events ops) (n + 1)).clock v u) := by
    intro v u
    simpa [SyncRun.after, SyncRun.apply, call] using same.clock_update event (v := v) (own u)
  refine ⟨fun u => ?_, clock, fun v u => ?_, fun v u => ?_, fun e' u => ?_⟩ <;>
    simp only [SyncRun.after, SyncRun.apply, call, VectorClock.clocks_succ, event,
      VectorClock.step, VectorClock.published]
  · rw [idle, same.seq]
  · exact (same.fenceRelease v u).succ
  · simpa [VectorClock.pending] using (same.fenceAcquire v u).succ
  · by_cases here : e' = e
    · subst here
      simp only [Function.update_self, SyncState.get_release, Pi.sup_apply]
      rw [← max_assoc]
      refine ((same.element e' u).succ.max ?_).max (same.fenceRelease t u).succ
      cases o.isRelease
      · exact .zero _ u
      · exact own u
    · simpa [here] using (same.element e' u).succ

theorem Matches.acquire {e : E} {o : Ordering} (call : ops n = .acquire t e o) :
    Matches keyOf ops (n + 1) := by
  have event : events ops n = .op t (some (e, o.isAcquire)) none := by rw [events, call]; rfl
  have idle : ∀ u, ticks ops u (n + 1) = ticks ops u n := fun u => by simp [ticks_succ, call]
  have taken : ∀ u, Agree ops n u (max (((SyncRun.after keyOf ops n).sync.clock t).get (keyOf u))
      (if o.isAcquire then ((SyncRun.after keyOf ops n).element e).get (keyOf u) else 0))
      (((clocks (events ops) n).clock t ⊔
        (clocks (events ops) n).acquired (some (e, o.isAcquire))) u) := by
    intro u
    refine (same.clock t u).max ?_
    cases o.isAcquire
    · exact .zero n u
    · exact same.element e u
  have set_aside : ∀ u, Agree ops n u
      (if o.isAcquire then 0 else ((SyncRun.after keyOf ops n).element e).get (keyOf u))
      ((clocks (events ops) n).pending (some (e, o.isAcquire)) u) := by
    intro u
    cases o.isAcquire
    · exact same.element e u
    · exact .zero n u
  refine ⟨fun u => ?_, fun v u => ?_, fun v u => ?_, fun v u => ?_, fun e' u => ?_⟩ <;>
    simp only [SyncRun.after, SyncRun.apply, call, SyncState.acquire_seq,
      SyncState.get_acquire_clock, SyncState.get_acquire_fence, SyncState.acquire_fenceRelease,
      VectorClock.clocks_succ, event, VectorClock.step]
  · rw [idle, same.seq]
  · by_cases mine : v = t
    · subst mine
      rw [if_pos rfl, Function.update_self]
      refine agree_counted event (taken u) ?_
      by_cases own : u = v
      · subst own
        have all := (VectorClock.seq_le_clock (h := events ops) u n).trans
          (le_sup_left (b := (clocks (events ops) n).acquired (some (e, o.isAcquire))) u)
        rw [if_pos rfl, idle, (taken u).complete all]
      · rw [if_neg own]
    · simpa [mine] using (same.clock v u).succ
  · exact (same.fenceRelease v u).succ
  · by_cases mine : v = t
    · subst mine
      rw [if_pos rfl, Function.update_self]
      exact ((same.fenceAcquire v u).max (set_aside u)).succ
    · simpa [mine] using (same.fenceAcquire v u).succ
  · exact (same.element e' u).succ

theorem Matches.fence {o : Ordering} (call : ops n = .fence t o) :
    Matches keyOf ops (n + 1) := by
  have event : events ops n = .fence t o.isAcquire o.isRelease := by rw [events, call]; rfl
  have idle : ∀ u, ticks ops u (n + 1) = ticks ops u n := fun u => by simp [ticks_succ, call]
  have clock : ∀ v u, Agree ops (n + 1) u
      (((SyncRun.after keyOf ops (n + 1)).sync.clock v).get (keyOf u))
      ((clocks (events ops) (n + 1)).clock v u) := by
    intro v u
    simp only [SyncRun.after, SyncRun.apply, call, SyncState.get_fence_clock,
      VectorClock.clocks_succ, event, VectorClock.step]
    by_cases mine : v = t
    · subst mine
      cases o.isAcquire
      · simpa using (same.clock v u).succ
      · simpa using ((same.clock v u).max (same.fenceAcquire v u)).succ
    · simpa [mine] using (same.clock v u).succ
  refine ⟨fun u => ?_, clock, fun v u => ?_, fun v u => ?_, fun e' u => ?_⟩
  · simp only [SyncRun.after, SyncRun.apply, call, SyncState.fence_seq]
    rw [idle, same.seq]
  · have now := clock v u
    simp only [SyncRun.after, SyncRun.apply, call, SyncState.fence_fenceRelease,
      VectorClock.clocks_succ, event, VectorClock.step] at now ⊢
    by_cases mine : v = t
    · subst mine
      cases o.isRelease
      · simpa using (same.fenceRelease v u).succ
      · simpa using now
    · cases o.isRelease <;> simpa [mine] using (same.fenceRelease v u).succ
  · simp only [SyncRun.after, SyncRun.apply, call, SyncState.fence_fenceAcquire,
      VectorClock.clocks_succ, event, VectorClock.step]
    by_cases mine : v = t
    · subst mine
      cases o.isAcquire
      · simpa using (same.fenceAcquire v u).succ
      · simpa using Agree.zero (n + 1) u
    · cases o.isAcquire <;> simpa [mine] using (same.fenceAcquire v u).succ
  · simp only [SyncRun.after, SyncRun.apply, call, VectorClock.clocks_succ, event, VectorClock.step]
    exact (same.element e' u).succ

end

theorem matches_after {keyOf : Nat → Key} (distinct : Function.Injective keyOf) (n : Nat) :
    Matches keyOf ops n := by
  induction n with
  | zero => exact matches_zero keyOf
  | succ n ih =>
    cases call : ops n with
    | tick t => exact ih.tick distinct call
    | fence t o => exact ih.fence call
    | release t e o => exact ih.release call
    | acquire t e o => exact ih.acquire call

/-! ### Exactness -/

/-- A tick is the operation the library counts at its time. -/
theorem nthOp_of_tick {u p : Nat} (tick : ops p = .tick u) :
    VectorClock.NthOp (events ops) u (counted ops u p + 1) p :=
  ⟨⟨none, none, by rw [events, tick]; rfl⟩, rfl⟩

/-- Among more ticks than `n` there is the `n`-th. -/
theorem exists_nthTick {u n k : Nat} (pos : 1 ≤ n) (le : n ≤ ticks ops u k) :
    ∃ p < k, NthTick ops u n p := by
  induction k with
  | zero =>
    have none : ticks ops u 0 = 0 := Nat.count_zero _
    omega
  | succ k ih =>
    by_cases before : n ≤ ticks ops u k
    · obtain ⟨p, lt, nth⟩ := ih before
      exact ⟨p, Nat.lt_succ_of_lt lt, nth⟩
    · rw [ticks_succ] at le
      by_cases tick : ops k = .tick u
      · rw [if_pos tick] at le
        exact ⟨k, Nat.lt_succ_self k, tick, by omega⟩
      · rw [if_neg tick] at le
        omega

/-- Clocks are exact. After any number of calls by any threads, with any orderings and
without barriers, a thread's entry for another reaches `n` exactly when the other's `n`-th
tick is ordered before something the thread has called. -/
theorem clocks_exact (keyOf : Nat → Key) (distinct : Function.Injective keyOf)
    (ops : Nat → SyncOp E) (N t u n : Nat) (pos : 1 ≤ n) :
    n ≤ ((SyncRun.after keyOf ops N).sync.clock t).get (keyOf u) ↔
      ∃ p, NthTick ops u n p ∧ ReachesThread ops t N p := by
  have sound : VectorClock.Sound (events ops) N :=
    VectorClock.sound_of_clean barriers fun i _ => clean i
  have matched : Matches keyOf ops N := matches_after distinct N
  obtain ⟨k, le, ticked, made⟩ := matched.clock t u
  rw [ticked]
  constructor
  · intro reached
    obtain ⟨p, lt, tick, nth⟩ := exists_nthTick pos reached
    refine ⟨p, ⟨tick, nth⟩, ?_⟩
    have bound : counted ops u p + 1 ≤ counted ops u k := by
      rw [← counted_of_tick tick]
      exact counted_mono u lt
    obtain ⟨q, nthOp, known⟩ := sound.clock t u _ (Nat.le_add_left 1 _) (made ▸ bound)
    rw [(nthOp_of_tick tick).unique nthOp]
    exact known_iff.mp known
  · rintro ⟨p, ⟨tick, nth⟩, reaches⟩
    obtain ⟨q, lt, thread, path⟩ := known_iff.mpr reaches
    have thread_p : (events ops p).thread = some u := by rw [events, tick]; rfl
    have flows := VectorClock.clock_le_of_reaches barriers path thread_p thread u
    have seen := ((nthOp_of_tick tick).le_clock.trans flows).trans
      (VectorClock.clock_mono (h := events ops) t lt u)
    rw [made] at seen
    have before : p < k := by
      by_contra late
      have : counted ops u k ≤ counted ops u p := counted_mono u (Nat.le_of_not_lt late)
      omega
    calc n = ticks ops u (p + 1) := by rw [ticks_succ, if_pos tick, nth]
      _ ≤ ticks ops u k := ticks_mono u before

/-- A message passed with fences around relaxed accesses: the producer's only tick is known. -/
def passed : Nat → SyncOp Unit
  | 0 => .tick 0
  | 1 => .fence 0 .acqRel
  | 2 => .release 0 () .relaxed
  | 3 => .acquire 1 () .relaxed
  | _ => .fence 1 .acqRel

theorem clocks_exact_passed :
    1 ≤ ((SyncRun.after (key 0) passed 5).sync.clock 1).get (key 0 0) ∧
      ∃ p, NthTick passed 0 1 p ∧ ReachesThread passed 1 5 p := by
  have distinct : Function.Injective (key 0) := fun a b same => by simpa [key] using same
  have seen : 1 ≤ ((SyncRun.after (key 0) passed 5).sync.clock 1).get (key 0 0) := by
    decide +kernel
  exact ⟨seen, (clocks_exact (key 0) distinct passed 5 1 0 1 le_rfl).mp seen⟩

end Riri.SyncOp
