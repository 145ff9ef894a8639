import Riri.Shadow.History

/-!
# A plain write behind atomics

Every write and every atomic takes the one slot a cell has for the last write, so an access
is weighed against the one right before it alone. Atomics do not conflict with each other:
where a plain write and an atomic it races with have only atomics between them, nobody
notices. These are the only races that are lost.
-/
namespace Riri.Accesses

variable {h : Accesses} {init : Bool} {N : Nat}

/-- A race across atomics alone, of which there is at least one. -/
def Masked (h : Accesses) (i j : Nat) : Prop :=
  h.Race i j ∧ i + 1 < j ∧ ∀ k, i < k → k < j → (h k).1.kind = .atomic

/-- A write or an atomic replaces what the cell remembered. -/
theorem cell_succ_of_write {n : Nat} (writes : (h n).1.kind ≠ .read) :
    (h.cell init (n + 1)).lastWrite = some (h n).1 ∧ (h.cell init (n + 1)).readers = [] := by
  simp only [cell, Cell.record]
  cases kind : (h n).1.kind with
  | read => exact absurd kind writes
  | write | atomic => exact ⟨rfl, rfl⟩

section

variable (noReads : ∀ i < N, (h i).1.kind ≠ .read)
include noReads

/-- Without reads an access conflicts with the one before it or with none. -/
theorem conflict_iff_previous {n : Nat} (hn : n < N) :
    (h.conflict init n).isSome ↔ ∃ i, i + 1 = n ∧ h.Race i n := by
  rw [conflict, Cell.conflict_isSome_iff]
  cases n with
  | zero => simp [cell, Cell.default]
  | succ i =>
    have writes : (h i).1.kind ≠ .read := noReads i (Nat.lt_of_succ_lt hn)
    have written : (h.cell init (i + 1)).lastWrite = some (h i).1 ∧
        (h.cell init (i + 1)).readers = [] := cell_succ_of_write writes
    simp [written.1, written.2, Race, writes]

theorem reports_iff_previous :
    h.Reports init N ↔ ∃ i, i + 1 < N ∧ h.Race i (i + 1) := by
  constructor
  · rintro ⟨n, hn, found⟩
    obtain ⟨i, rfl, race⟩ := (conflict_iff_previous noReads hn).mp found
    exact ⟨i, hn, race⟩
  · rintro ⟨i, hi, race⟩
    exact ⟨i + 1, hi, (conflict_iff_previous noReads hi).mpr ⟨i, rfl, race⟩⟩

/-- Where there is a race, two neighbours race or a race is masked. -/
theorem neighbours_or_masked (rules : h.Unsynchronised N) {i j : Nat} (hj : j < N)
    (race : h.Race i j) :
    (∃ k, k + 1 < N ∧ h.Race k (k + 1)) ∨ ∃ k l, l < N ∧ h.Masked k l := by
  obtain ⟨i, j, hj, race, between⟩ := rules.closest_race hj race
  have lt : i < j := race.1
  by_cases next : j = i + 1
  · subst next
    exact .inl ⟨i, hj, race⟩
  · refine .inr ⟨i, j, hj, race, by omega, fun k low high => ?_⟩
    have writes := between k low high
    have reads := noReads k (high.trans hj)
    cases kind : (h k).1.kind with
    | read => exact absurd kind reads
    | write => exact absurd kind writes
    | atomic => rfl

end

/-- When atomics hide no race. Among plain writes and atomics by threads that have not
synchronised, reporting a conflict and containing a race agree exactly when two neighbouring
accesses race or no race is masked by atomics. -/
theorem unmasked_exactly (h : Accesses) (init : Bool) (N : Nat) (rules : h.Unsynchronised N)
    (noReads : ∀ i < N, (h i).1.kind ≠ .read) :
    (h.Reports init N ↔ ∃ i j, j < N ∧ h.Race i j) ↔
      (∃ i, i + 1 < N ∧ h.Race i (i + 1)) ∨ ¬ ∃ i j, j < N ∧ h.Masked i j := by
  rw [reports_iff_previous noReads]
  constructor
  · intro agree
    by_cases masked : ∃ i j, j < N ∧ h.Masked i j
    · obtain ⟨i, j, hj, race, -⟩ := masked
      exact .inl (agree.mpr ⟨i, j, hj, race⟩)
    · exact .inr masked
  · rintro (neighbours | unmasked)
    · obtain ⟨i, hi, race⟩ := neighbours
      exact ⟨fun _ => ⟨i, i + 1, hi, race⟩, fun _ => ⟨i, hi, race⟩⟩
    · refine ⟨fun ⟨i, hi, race⟩ => ⟨i, i + 1, hi, race⟩, fun ⟨i, j, hj, race⟩ => ?_⟩
      exact (neighbours_or_masked noReads rules hj race).resolve_right unmasked

def early (block seq line : Nat) (kind : AccessKind) : Access :=
  ⟨block, 0, 0, 0, 0, seq, kind, ⟨"kernel.rs", line, 1⟩⟩

/-- Block 0 initialises a counter and adds to it, then block 1 adds to it. -/
def accumulated : Accesses :=
  alone [early 0 1 1 .write, early 0 2 2 .atomic] (early 1 1 2 .atomic)

theorem accumulated_unsynchronised : accumulated.Unsynchronised 3 :=
  unsynchronised_alone _ _ (by decide)

/-- The second addition races with the initialisation and nothing is reported. -/
theorem accumulated_masked :
    accumulated.Unsynchronised 3 ∧ (∀ i < 3, (accumulated i).1.kind ≠ .read) ∧
      ¬(accumulated.Reports true 3 ↔ ∃ i j, j < 3 ∧ accumulated.Race i j) := by
  refine ⟨accumulated_unsynchronised, by decide, fun agree => ?_⟩
  have race : accumulated.Race 0 2 := ⟨by decide, by decide, by decide⟩
  have silent : ¬ ∃ n < 3, (accumulated.conflict true n).isSome := by decide
  exact silent (agree.mpr ⟨0, 2, by decide, race⟩)

/-- With the initialisation by another block than the first addition, they race at once. -/
theorem unmasked_exactly_crossed :
    let crossed := alone [early 1 1 1 .write, early 0 1 2 .atomic] (early 1 2 2 .atomic)
    crossed.Reports true 3 ↔ ∃ i j, j < 3 ∧ crossed.Race i j :=
  (unmasked_exactly _ true 3 (unsynchronised_alone _ _ (by decide)) (by decide)).mpr
    (.inl ⟨0, by decide, by decide, by decide, by decide⟩)

end Riri.Accesses
