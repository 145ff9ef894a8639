import Riri.Guarantees.AtomicDirection

/-!
# What an acquire takes on

In the memory model the orderings are named after, an acquire synchronises with the release
whose value it reads: with the store that wrote the element last and the unbroken chain of
read-modify-writes after it. An element's release clock only grows by joins, so it also
holds what earlier stores published. This module says exactly in which runs it does not.
-/
namespace Riri

variable {V : Type} [BEq V]

/-- Whether what the element holds next owes nothing to what it held. -/
def MemAct.overwrites : MemAct V → Bool
  | .write _ | .elemMut _ _ => true
  | .atomic _ op => !op.reads
  | .read => false

/-- The element a step's access is to, with what the element held. -/
def Label.accessed? : Label V → Option ((Buf × Nat) × MemAct V × V)
  | .access _ m _ old _ => some ((m.buf, m.index), m.act, old)
  | _ => none

def Label.overwrites? (l : Label V) : Option (Buf × Nat) :=
  l.accessed?.bind fun (e, act, _) => if act.overwrites then some e else none

def Label.writes? (l : Label V) : Option (Buf × Nat) :=
  l.accessed?.bind fun (e, act, old) =>
    match act with
    | .atomic _ op => if op.stores old then some e else none
    | _ => none

namespace Launch

variable {env : Env V}

def released (env : Env V) (e : Buf × Nat) (n : Nat) : Nat → Nat :=
  entries env (((run env).state n).cellOf env e.1 e.2).release

/-- What the step at time `i` publishes if it is a store or a read-modify-write. -/
def publication (env : Env V) (i : Nat) : Nat → Nat :=
  (view env ((run env).state i)).brings (directedEvents env i)

/-- The atomic at time `i` wrote the value the element has at time `n`, or that value was made
from it by read-modify-writes alone. -/
def InSequence (env : Env V) (e : Buf × Nat) (i n : Nat) : Prop :=
  i < n ∧ ((run env).label i).bind Label.writes? = some e ∧
    ∀ k, i < k → k < n → ((run env).label k).bind Label.overwrites? ≠ some e

/-- All the element's release clock holds at time `n` was published in the release sequence
of its value. -/
def FromSequence (env : Env V) (e : Buf × Nat) (n : Nat) : Prop :=
  ∀ t m, 1 ≤ m → m ≤ released env e n t → ∃ i, InSequence env e i n ∧ m ≤ publication env i t

/-- The state before the step at time `n` leaves nothing behind that does not belong to the
element's next value: a store or plain write publishes all that earlier writers left, and a
load or failed exchange has nothing to publish. -/
def SequenceKept (env : Env V) (n : Nat) : Prop :=
  ∀ cx m acc old found, (run env).label n = some (.access cx m acc old found) →
    (m.act.overwrites = true → released env (m.buf, m.index) n ≤ publication env n) ∧
    ∀ o op, m.act = .atomic o op → op.stores old = false →
      o.isRelease = false ∧
        entries env (((run env).state n).sync.fenceRelease cx.gid) ≤
          released env (m.buf, m.index) n

/-! ### One step -/

theorem released_succ_of_target {n : Nat} {e : Buf × Nat} (here : (events env n).target = some e) :
    released env e (n + 1) =
      released env e n ⊔ (view env ((run env).state n)).brings (events env n) := by
  have stepped := congrArg (fun v => VectorClock.cell v e) (view_succ env n)
  exact stepped.trans (VectorClock.step_cell_of_target here)

theorem released_succ_of_ne {n : Nat} {e : Buf × Nat} (elsewhere : (events env n).target ≠ some e) :
    released env e (n + 1) = released env e n := by
  have stepped := congrArg (fun v => VectorClock.cell v e) (view_succ env n)
  exact stepped.trans (VectorClock.step_cell_of_ne elsewhere)

theorem released_mono (e : Buf × Nat) {i n : Nat} (le : i ≤ n) :
    released env e i ≤ released env e n := by
  have grown := VectorClock.cell_mono (h := events env) e le
  rw [← view_run, ← view_run] at grown
  exact grown

/-- An access publishes to its own element or nowhere. -/
theorem target_of_access {n : Nat} {cx : Ctx} {m : MemOp V} {acc : Access} {old : V}
    {found : Option Access} (labelled : (run env).label n = some (.access cx m acc old found)) :
    (events env n).target = if m.act.ordering.isSome then some (m.buf, m.index) else none := by
  rw [events_of_label labelled]
  cases act : m.act <;> simp [Label.event, VectorClock.Event.target, act, MemAct.ordering]

theorem released_succ_of_untouched {n : Nat} {e : Buf × Nat}
    (untouched : ∀ l act old, (run env).label n = some l → Label.accessed? l ≠ some (e, act, old)) :
    released env e (n + 1) = released env e n := by
  apply released_succ_of_ne
  intro here
  cases labelled : (run env).label n with
  | none =>
    simp only [events, labelled, VectorClock.Event.target] at here
    cases here
  | some l =>
    cases l with
    | access cx m acc old found =>
      rw [target_of_access labelled] at here
      split at here
      · cases here
        exact untouched _ _ _ labelled rfl
      · cases here
    | fault cx m acc outside =>
      cases outside <;> simp only [events, labelled] at here <;> cases here
    | _ =>
      simp only [events, labelled] at here
      cases here

section

variable {n : Nat} {cx : Ctx} {m : MemOp V} {acc : Access} {old : V} {found : Option Access}
  (labelled : (run env).label n = some (.access cx m acc old found))
include labelled

theorem directedEvents_of_access : directedEvents env n =
    (Label.access cx m acc old found).directedEvent := by
  simp only [directedEvents, labelled]

/-- Overwriting an element adds what the overwriting step publishes to what was there. -/
theorem released_of_overwrites (ended : m.act.overwrites = true) :
    released env (m.buf, m.index) (n + 1) =
      released env (m.buf, m.index) n ⊔ publication env n := by
  unfold publication
  rw [directedEvents_of_access labelled]
  cases act : m.act with
  | read => simp [act, MemAct.overwrites] at ended
  | write value | elemMut checked f =>
    have nowhere : (events env n).target ≠ some (m.buf, m.index) := by
      rw [target_of_access labelled]
      simp [act, MemAct.ordering]
    rw [released_succ_of_ne nowhere]
    simp [Label.directedEvent, Label.event, act, MemAct.ordering, VectorClock.brings]
  | atomic o op =>
    have blind : op.reads = false := by simpa [act, MemAct.overwrites] using ended
    have stores : op.stores old = true := by cases op <;> first | rfl | cases blind
    have here : (events env n).target = some (m.buf, m.index) := by
      rw [target_of_access labelled]
      simp [act, MemAct.ordering]
    rw [released_succ_of_target here, events_of_label labelled]
    simp only [Label.directedEvent, Label.event, act, MemAct.ordering, blind, stores, Option.map_some,
      VectorClock.brings, if_true]
    cases o.isRelease with
    | false => simp
    | true =>
      cases o.isAcquire with
      | false => simp [VectorClock.counted, VectorClock.acquired]
      | true =>
        -- What a store takes on was in the element already.
        have known : (view env ((run env).state n)).cell (m.buf, m.index) =
            released env (m.buf, m.index) n := rfl
        simp only [VectorClock.counted, VectorClock.acquired, known, if_true, Bool.false_eq_true,
          if_false]
        funext t
        simp only [Pi.sup_apply, Pi.zero_apply]
        omega

/-- A read-modify-write adds what it publishes. -/
theorem released_of_update {o : Ordering} {op : AtomicOp V} (act : m.act = .atomic o op)
    (reads : op.reads = true) (stores : op.stores old = true) :
    released env (m.buf, m.index) (n + 1) =
      released env (m.buf, m.index) n ⊔ publication env n := by
  have here : (events env n).target = some (m.buf, m.index) := by
    rw [target_of_access labelled]
    simp [act, MemAct.ordering]
  unfold publication
  rw [released_succ_of_target here, events_of_label labelled, directedEvents_of_access labelled]
  simp [Label.directedEvent, Label.event, act, MemAct.ordering, reads, stores]

theorem released_of_read (act : m.act = .read) :
    released env (m.buf, m.index) (n + 1) = released env (m.buf, m.index) n := by
  apply released_succ_of_ne
  rw [target_of_access labelled]
  simp [act, MemAct.ordering]

theorem overwrites_of_access :
    ((run env).label n).bind Label.overwrites? =
      if m.act.overwrites then some (m.buf, m.index) else none := by
  simp [labelled, Label.overwrites?, Label.accessed?]

theorem writes_of_atomic {o : Ordering} {op : AtomicOp V} (act : m.act = .atomic o op) :
    ((run env).label n).bind Label.writes? =
      if op.stores old then some (m.buf, m.index) else none := by
  simp [labelled, Label.writes?, Label.accessed?, act]

theorem writes_of_plain (plain : m.act.ordering = none) :
    ((run env).label n).bind Label.writes? = none := by
  cases act : m.act <;> simp_all [Label.writes?, Label.accessed?, MemAct.ordering]

end

/-- A plain write publishes nothing. -/
theorem publication_of_plain {n : Nat} {cx : Ctx} {m : MemOp V} {acc : Access} {old : V}
    {found : Option Access} (labelled : (run env).label n = some (.access cx m acc old found))
    (plain : m.act.ordering = none) : publication env n = 0 := by
  unfold publication
  rw [directedEvents_of_access labelled]
  cases act : m.act <;>
    simp_all [Label.directedEvent, Label.event, MemAct.ordering, VectorClock.brings]

/-! ### Release sequences, one step at a time -/

theorem inSequence_of_overwrites {n i : Nat} {e : Buf × Nat}
    (ended : ((run env).label n).bind Label.overwrites? = some e) :
    InSequence env e i (n + 1) ↔ i = n ∧ ((run env).label n).bind Label.writes? = some e := by
  constructor
  · rintro ⟨lt, writes, unbroken⟩
    obtain rfl : i = n := by
      by_contra other
      exact unbroken n (by omega) (Nat.lt_succ_self n) ended
    exact ⟨rfl, writes⟩
  · rintro ⟨rfl, writes⟩
    exact ⟨Nat.lt_succ_self i, writes, fun k low high => by omega⟩

theorem inSequence_succ {n i : Nat} {e : Buf × Nat}
    (kept : ((run env).label n).bind Label.overwrites? ≠ some e) :
    InSequence env e i (n + 1) ↔
      InSequence env e i n ∨ (i = n ∧ ((run env).label n).bind Label.writes? = some e) := by
  constructor
  · rintro ⟨lt, writes, unbroken⟩
    rcases Nat.lt_succ_iff_lt_or_eq.mp lt with before | rfl
    · exact .inl ⟨before, writes, fun k low high => unbroken k low (Nat.lt_succ_of_lt high)⟩
    · exact .inr ⟨rfl, writes⟩
  · rintro (⟨lt, writes, unbroken⟩ | ⟨rfl, writes⟩)
    · refine ⟨Nat.lt_succ_of_lt lt, writes, fun k low high => ?_⟩
      rcases Nat.lt_succ_iff_lt_or_eq.mp high with before | rfl
      · exact unbroken k low before
      · exact kept
    · exact ⟨Nat.lt_succ_self i, writes, fun k low high => by omega⟩

/-- A step that neither writes the element nor moves its release clock. -/
theorem fromSequence_of_same {n : Nat} {e : Buf × Nat}
    (kept : ((run env).label n).bind Label.overwrites? ≠ some e)
    (unwritten : ((run env).label n).bind Label.writes? ≠ some e)
    (same : released env e (n + 1) = released env e n) :
    FromSequence env e (n + 1) ↔ FromSequence env e n := by
  have sequences : ∀ i, InSequence env e i (n + 1) ↔ InSequence env e i n := fun i => by
    rw [inSequence_succ kept, or_iff_left fun now => unwritten now.2]
  simp only [FromSequence, same, sequences]

/-- What is in the release sequence of an element is in its release clock. -/
theorem publication_le_released {n i : Nat} {e : Buf × Nat} (inside : InSequence env e i n) :
    publication env i ≤ released env e n := by
  obtain ⟨lt, writes, -⟩ := inside
  refine le_trans ?_ (released_mono e lt)
  obtain ⟨l, labelled, written⟩ := Option.bind_eq_some_iff.mp writes
  cases l with
  | access cx m acc old found =>
    cases act : m.act with
    | atomic o op =>
      obtain ⟨stores, rfl⟩ : op.stores old = true ∧ (m.buf, m.index) = e := by
        simpa [Label.writes?, Label.accessed?, act] using written
      cases reads : op.reads with
      | true =>
        rw [released_of_update labelled act reads stores]
        exact le_sup_right
      | false =>
        rw [released_of_overwrites labelled (by simp [act, MemAct.overwrites, reads])]
        exact le_sup_right
    | _ => simp [Label.writes?, Label.accessed?, act] at written
  | _ => simp [Label.writes?, Label.accessed?] at written

/-- Overwriting keeps an element in sequence exactly when the new value's writer publishes all
that earlier writers left. -/
theorem fromSequence_of_overwrites {n : Nat} {cx : Ctx} {m : MemOp V} {acc : Access} {old : V}
    {found : Option Access} (labelled : (run env).label n = some (.access cx m acc old found))
    (ended : m.act.overwrites = true) :
    FromSequence env (m.buf, m.index) (n + 1) ↔
      released env (m.buf, m.index) n ≤ publication env n := by
  have grown := released_of_overwrites labelled ended
  have overwritten : ((run env).label n).bind Label.overwrites? = some (m.buf, m.index) := by
    rw [overwrites_of_access labelled, if_pos ended]
  constructor
  · intro sequence t
    by_contra more
    have more : publication env n t < released env (m.buf, m.index) n t := Nat.lt_of_not_le more
    obtain ⟨i, inside, le⟩ := sequence t (released env (m.buf, m.index) n t) (by omega)
      (by rw [grown]; exact le_sup_left (a := released env (m.buf, m.index) n t))
    obtain ⟨rfl, -⟩ := (inSequence_of_overwrites overwritten).mp inside
    omega
  · intro covered t k pos le
    rw [grown, sup_eq_right.mpr covered] at le
    refine ⟨n, (inSequence_of_overwrites overwritten).mpr ⟨rfl, ?_⟩, le⟩
    cases ordering : m.act.ordering with
    | none =>
      rw [publication_of_plain labelled ordering] at le
      exact absurd le (by simp; omega)
    | some o =>
      cases act : m.act with
      | atomic o op =>
        have blind : op.reads = false := by simpa [act, MemAct.overwrites] using ended
        have stores : op.stores old = true := by cases op <;> first | rfl | cases blind
        rw [writes_of_atomic labelled act, if_pos stores]
      | _ => simp [act, MemAct.ordering] at ordering

/-- A load or failed exchange keeps an element in sequence exactly when it publishes nothing
new. -/
theorem fromSequence_of_silent {n : Nat} {cx : Ctx} {m : MemOp V} {acc : Access} {old : V}
    {found : Option Access} {o : Ordering} {op : AtomicOp V}
    (labelled : (run env).label n = some (.access cx m acc old found)) (act : m.act = .atomic o op)
    (silent : op.stores old = false) (before : FromSequence env (m.buf, m.index) n) :
    FromSequence env (m.buf, m.index) (n + 1) ↔
      o.isRelease = false ∧ entries env (((run env).state n).sync.fenceRelease cx.gid) ≤
        released env (m.buf, m.index) n := by
  have reads : op.reads = true := by cases op <;> first | rfl | cases silent
  have kept : ((run env).label n).bind Label.overwrites? ≠ some (m.buf, m.index) := by
    rw [overwrites_of_access labelled]
    simp [act, MemAct.overwrites, reads]
  have unwritten : ((run env).label n).bind Label.writes? ≠ some (m.buf, m.index) := by
    rw [writes_of_atomic labelled act]
    simp [silent]
  refine Iff.trans ?_ (publishesNothing_iff labelled act)
  change _ ↔ released env (m.buf, m.index) (n + 1) = released env (m.buf, m.index) n
  constructor
  · intro sequence
    refine le_antisymm (fun t => ?_) (released_mono _ (Nat.le_succ n))
    rcases Nat.eq_zero_or_pos (released env (m.buf, m.index) (n + 1) t) with none_left | pos
    · rw [none_left]
      exact Nat.zero_le _
    · obtain ⟨i, inside, le⟩ := sequence t _ pos le_rfl
      rcases (inSequence_succ kept).mp inside with earlier | ⟨-, now⟩
      · exact le.trans (publication_le_released earlier t)
      · exact absurd now unwritten
  · intro same
    exact (fromSequence_of_same kept unwritten same).mpr before

/-- A read-modify-write joins the release sequence it reads from. -/
theorem fromSequence_of_update {n : Nat} {cx : Ctx} {m : MemOp V} {acc : Access} {old : V}
    {found : Option Access} {o : Ordering} {op : AtomicOp V}
    (labelled : (run env).label n = some (.access cx m acc old found)) (act : m.act = .atomic o op)
    (reads : op.reads = true) (stores : op.stores old = true)
    (before : FromSequence env (m.buf, m.index) n) : FromSequence env (m.buf, m.index) (n + 1) := by
  have kept : ((run env).label n).bind Label.overwrites? ≠ some (m.buf, m.index) := by
    rw [overwrites_of_access labelled]
    simp [act, MemAct.overwrites, reads]
  intro t k pos le
  rw [released_of_update labelled act reads stores] at le
  rcases le_sup_iff.mp (show k ≤ released env (m.buf, m.index) n t ⊔ publication env n t from le)
    with earlier | now
  · obtain ⟨i, inside, le⟩ := before t k pos earlier
    exact ⟨i, (inSequence_succ kept).mpr (.inl inside), le⟩
  · refine ⟨n, (inSequence_succ kept).mpr (.inr ⟨rfl, ?_⟩), now⟩
    rw [writes_of_atomic labelled act, if_pos stores]

omit [BEq V] in
theorem accessed_of_label {l : Label V} {e : Buf × Nat} {act : MemAct V} {old : V}
    (accessed : Label.accessed? l = some (e, act, old)) :
    ∃ cx m acc found, l = .access cx m acc old found ∧ m.act = act ∧ (m.buf, m.index) = e := by
  cases l with
  | access cx m acc old' found =>
    obtain ⟨rfl, rfl, rfl⟩ : (m.buf, m.index) = e ∧ m.act = act ∧ old' = old := by
      simpa [Label.accessed?] using accessed
    exact ⟨cx, m, acc, found, rfl, rfl, rfl⟩
  | _ => cases accessed

/-- A step leaves every element in sequence exactly when the state before it lets it. -/
theorem fromSequence_succ {n : Nat} (before : ∀ e, FromSequence env e n) :
    (∀ e, FromSequence env e (n + 1)) ↔ SequenceKept env n := by
  have elsewhere : ∀ e, (∀ l act old, (run env).label n = some l →
      Label.accessed? l ≠ some (e, act, old)) → FromSequence env e (n + 1) := by
    intro e untouched
    refine (fromSequence_of_same ?_ ?_ (released_succ_of_untouched untouched)).mpr (before e)
    all_goals
      intro here
      obtain ⟨l, labelled, here⟩ := Option.bind_eq_some_iff.mp here
      obtain ⟨⟨e', act, old⟩, accessed, here⟩ := Option.bind_eq_some_iff.mp here
      have same : e' = e := by
        dsimp only at here
        repeat' split at here
        all_goals first | exact Option.some.inj here | cases here
      exact untouched l act old labelled (by rw [accessed, same])
  constructor
  · intro after cx m acc old found labelled
    exact ⟨fun ended => (fromSequence_of_overwrites labelled ended).mp (after _),
      fun o op act silent => (fromSequence_of_silent labelled act silent (before _)).mp (after _)⟩
  · intro kept e
    by_cases touched : ∃ l act old, (run env).label n = some l ∧
        Label.accessed? l = some (e, act, old)
    · obtain ⟨l, act, old, labelled, accessed⟩ := touched
      obtain ⟨cx, m, acc, found, rfl, rfl, rfl⟩ := accessed_of_label accessed
      obtain ⟨overwrites, silent⟩ := kept _ _ _ _ _ labelled
      by_cases ended : m.act.overwrites = true
      · exact (fromSequence_of_overwrites labelled ended).mpr (overwrites ended)
      · cases act : m.act with
        | atomic o op =>
          cases stores : op.stores old with
          | false =>
            exact (fromSequence_of_silent labelled act stores (before _)).mpr (silent o op act stores)
          | true =>
            have reads : op.reads = true := by simpa [act, MemAct.overwrites] using ended
            exact fromSequence_of_update labelled act reads stores (before _)
        | read =>
          refine (fromSequence_of_same ?_ ?_ (released_of_read labelled act)).mpr (before _)
          · rw [overwrites_of_access labelled]
            simp [ended]
          · rw [writes_of_plain labelled (by simp [act, MemAct.ordering])]
            simp
        | _ => simp [act, MemAct.overwrites] at ended
    · push Not at touched
      exact elsewhere e fun l act old labelled => touched l act old labelled

theorem fromSequence_zero (e : Buf × Nat) : FromSequence env e 0 := by
  intro t m pos le
  have empty : released env e 0 t = 0 :=
    congrFun (congrFun (congrArg VectorClock.cell (view_init : view env (init env) = _)) e) t
  omega

/-- What an acquire takes on: its thread's clock afterwards is what it was, the operation
itself, and what was published in the release sequence of the value it reads. -/
def AcquiresFromSequence (env : Env V) (n : Nat) : Prop :=
  ∀ cx m acc old found o op, (run env).label n = some (.access cx m acc old found) →
    m.act = .atomic o op → op.reads = true → o.isAcquire = true →
    ∀ t k, 1 ≤ k → k ≤ entries env (((run env).state (n + 1)).sync.clock cx.gid) t →
      k ≤ entries env (((run env).state n).sync.clock cx.gid) t ∨
      (t = cx.gid ∧ k ≤ ((run env).state n).sync.seq cx.gid + 1) ∨
      ∃ i, InSequence env (m.buf, m.index) i n ∧ k ≤ publication env i t

theorem acquiresFromSequence {n : Nat} (sequences : ∀ e, FromSequence env e n) :
    AcquiresFromSequence env n := by
  intro cx m acc old found o op labelled act _ acquire t k pos le
  have stepped := congrFun (congrFun (congrArg VectorClock.clock (view_atomic labelled act)) cx.gid) t
  have le : k ≤ (view env ((run env).state (n + 1))).clock cx.gid t := le
  simp only [VectorClock.step, Function.update_self, VectorClock.counted, acquire,
    VectorClock.acquired, Pi.sup_apply] at stepped
  rw [stepped] at le
  rcases le_sup_iff.mp le with taken | own
  · rcases le_sup_iff.mp taken with earlier | taken
    · exact .inl earlier
    · exact .inr (.inr (sequences _ t k pos taken))
  · refine .inr (.inl ?_)
    by_cases mine : t = cx.gid
    · subst mine
      have counted : k ≤ (view env ((run env).state n)).seq cx.gid + 1 := by simpa using own
      exact ⟨rfl, counted⟩
    · simp [mine] at own
      omega

/-- An element holds only what was published in the release sequence of its value, at every
time up to `N`, exactly when each step before `N` keeps it so; and where it does, an acquire
synchronises only with the releases whose value it reads. -/
theorem sequences_exactly (env : Env V) (N : Nat) :
    ((∀ n ≤ N, ∀ e, FromSequence env e n) ↔ ∀ k < N, SequenceKept env k) ∧
      ((∀ k < N, SequenceKept env k) → ∀ n ≤ N, AcquiresFromSequence env n) := by
  have forward : (∀ k < N, SequenceKept env k) → ∀ n ≤ N, ∀ e, FromSequence env e n := by
    intro kept n le
    induction n with
    | zero => exact fromSequence_zero
    | succ n ih => exact (fromSequence_succ (ih (Nat.le_of_succ_le le))).mpr (kept n le)
  refine ⟨⟨fun sequences k lt => ?_, forward⟩,
    fun kept n le => acquiresFromSequence (forward kept n le)⟩
  exact (fromSequence_succ (sequences k lt.le)).mp (sequences (k + 1) lt)

/-! ### A flag another thread overwrites -/

/-- Thread 0 writes and raises a flag with a release store, thread 1 overwrites the flag with a
relaxed store, thread 2 acquires the flag. -/
def overwritten : Env Nat :=
  trial .threeThreads
    (fun thread =>
      let flag (o : Ordering) (op : AtomicOp Nat) : Op Nat :=
        .mem ⟨.global 1, 0, ⟨"kernel.rs", 2, 1⟩, .atomic o op⟩
      if thread = 0 then
        [.mem ⟨.global 0, 0, ⟨"kernel.rs", 1, 1⟩, .write 7⟩, flag .release (.store 1)]
      else if thread = 1 then [flag .relaxed (.store 2)]
      else [flag .acquire .load])
    [0, 0, 0, 1, 1, 2, 2]

/-- The flag's value is the relaxed store's, which published nothing, and yet the acquire that
reads it takes on what thread 0 did. -/
theorem overwritten_acquires :
    ¬ FromSequence overwritten (.global 1, 0) 9 ∧ ¬ AcquiresFromSequence overwritten 9 := by
  have last : ((run overwritten).label 6).bind Label.overwrites? = some (.global 1, 0) := by
    set_option maxRecDepth 100000 in decide +kernel
  have silent : ∀ i, InSequence overwritten (.global 1, 0) i 9 → publication overwritten i 0 = 0 := by
    rintro i ⟨lt, writes, unbroken⟩
    have late : 6 ≤ i := by
      by_contra early
      exact unbroken 6 (by omega) (by decide) last
    have values : publication overwritten 6 0 = 0 ∧ publication overwritten 7 0 = 0 ∧
        publication overwritten 8 0 = 0 := by
      set_option maxRecDepth 100000 in decide +kernel
    obtain rfl | rfl | rfl : i = 6 ∨ i = 7 ∨ i = 8 := by omega
    · exact values.1
    · exact values.2.1
    · exact values.2.2
  constructor
  · intro sequence
    obtain ⟨i, inside, le⟩ := sequence 0 1 le_rfl (by
      set_option maxRecDepth 100000 in decide +kernel)
    rw [silent i inside] at le
    omega
  · intro acquires
    have loaded : ((run overwritten).label 9).bind Label.loaded? =
        some (((run overwritten).state 9).ctx overwritten 2, (.global 1, 0), .acquire) := by
      set_option maxRecDepth 100000 in decide +kernel
    obtain ⟨l, labelled, here⟩ := Option.bind_eq_some_iff.mp loaded
    obtain ⟨m, acc, old, found, rfl, act, element⟩ := Label.access_of_loaded here
    have clocks : (((run overwritten).state 9).sync.clock 2).get (keyOf overwritten 0) = 0 ∧
        1 ≤ (((run overwritten).state 10).sync.clock 2).get (keyOf overwritten 0) := by
      set_option maxRecDepth 100000 in decide +kernel
    rcases acquires _ _ _ _ _ _ _ labelled act rfl rfl 0 1 le_rfl clocks.2 with
      known | ⟨own, -⟩ | ⟨i, inside, le⟩
    · exact absurd (known.trans clocks.1.le) (by decide)
    · cases own
    · rw [element] at inside
      rw [silent i inside] at le
      omega

end Launch

end Riri
