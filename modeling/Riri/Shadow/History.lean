import Riri.Source.Mem

/-!
# The accesses made to one element

A sequence of accesses, each with the clock of the thread making it, and the cell before each
of them. Without release and acquire, and with epochs that never decrease, what is ordered
before an access that is ordered before another is ordered before that other: this is why a
cell may forget.
-/
namespace Riri

/-- An access conflicts with the last write, or if it writes with a reader. -/
theorem Cell.conflict_isSome_iff (c : Cell) (acc : Access) (now : Clock) :
    (c.record acc now).2.isSome ↔ (∃ w, c.lastWrite = some w ∧ concurrent w acc now = true) ∨
      (acc.kind ≠ .read ∧ ∃ r ∈ c.readers, concurrent r acc now = true) := by
  have of_write : (c.lastWrite.filter fun w => concurrent w acc now).isSome ↔
      ∃ w, c.lastWrite = some w ∧ concurrent w acc now = true := by
    simp only [Option.isSome_iff_exists, Option.filter_eq_some_iff]
  unfold record
  cases acc.kind with
  | read => simpa [onRead] using of_write
  | write | atomic =>
    simp only [onWrite, Option.isSome_or, Bool.or_eq_true, of_write, List.find?_isSome]
    simp

/-- The accesses made to one element in their order, each with its thread's clock. -/
abbrev Accesses := Nat → Access × Clock

namespace Accesses

variable (h : Accesses)

/-- The cell before the access at `n`. A launch starts it without a history. -/
def cell (init : Bool) : Nat → Cell
  | 0 => { Cell.default with init := init }
  | n + 1 => ((cell init n).record (h n).1 (h n).2).1

/-- What `on_read` or `on_write` returns at `n`. -/
def conflict (init : Bool) (n : Nat) : Option Access :=
  ((h.cell init n).record (h n).1 (h n).2).2

/-- One of the first `N` accesses returns a conflict. -/
def Reports (init : Bool) (N : Nat) : Prop := ∃ n < N, (h.conflict init n).isSome

/-- `concurrent` holds of the earlier access against the later, and they are not two reads. -/
def Race (i j : Nat) : Prop :=
  i < j ∧ ¬((h i).1.kind = .read ∧ (h j).1.kind = .read) ∧
    concurrent (h i).1 (h j).1 (h j).2 = true

/-- Nothing but reads from `i` up to `j`. -/
def ReadsOnly (i j : Nat) : Prop := ∀ k, i ≤ k → k < j → (h k).1.kind = .read

/-- One thread made both accesses. -/
def SameThread (i j : Nat) : Prop :=
  (h i).1.block = (h j).1.block ∧ (h i).1.thread = (h j).1.thread

/-- What a launch guarantees of the first `N` accesses while nobody releases or acquires. -/
structure Unsynchronised (N : Nat) : Prop where
  thread : ∀ i < N, (h i).1.thread < 2 ^ 32
  counted : ∀ i < N, 0 < (h i).1.seq
  foreign : ∀ i < N, ∀ k, k ≠ key (h i).1.block (h i).1.thread → (h i).2.get k = 0
  warp : ∀ i j, i < N → j < N → h.SameThread i j → (h i).1.warp = (h j).1.warp
  epoch : ∀ i j, i ≤ j → j < N → (h i).1.block = (h j).1.block → (h i).1.epoch ≤ (h j).1.epoch
  warpEpoch : ∀ i j, i ≤ j → j < N → (h i).1.block = (h j).1.block →
    (h i).1.warp = (h j).1.warp → (h i).1.warpEpoch ≤ (h j).1.warpEpoch

/-- Accesses by threads that have seen nobody but themselves. -/
def alone (l : List Access) (last : Access) : Accesses := fun i =>
  let acc := l.getD i last
  (acc, Clock.observe ∅ (key acc.block acc.thread) acc.seq)

variable {h} {N : Nat}

theorem alone_foreign (l : List Access) (last : Access) (i : Nat) (k : Key)
    (other : k ≠ key (alone l last i).1.block (alone l last i).1.thread) :
    (alone l last i).2.get k = 0 := by
  simp only [alone] at other ⊢
  rw [Clock.get_observe, if_neg other, Clock.get_empty]

/-- What the numbering of warps and the epochs ask of two accesses, the first made first. -/
def MayPrecede (a b : Access) : Prop :=
  a.block = b.block → (a.thread = b.thread → a.warp = b.warp) ∧ a.epoch ≤ b.epoch ∧
    (a.warp = b.warp → a.warpEpoch ≤ b.warpEpoch)

instance (a b : Access) : Decidable (MayPrecede a b) :=
  inferInstanceAs (Decidable (_ → _))

/-- What is left to check of accesses by threads that have seen nobody. -/
theorem unsynchronised_alone (l : List Access) (last : Access)
    (checked : ∀ j < N, (alone l last j).1.thread < 2 ^ 32 ∧ 0 < (alone l last j).1.seq ∧
      ∀ i < j + 1, MayPrecede (alone l last i).1 (alone l last j).1) :
    (alone l last).Unsynchronised N := by
  have precede : ∀ i j, i ≤ j → j < N → MayPrecede (alone l last i).1 (alone l last j).1 :=
    fun i j le hj => (checked j hj).2.2 i (Nat.lt_succ_of_le le)
  refine ⟨fun i hi => (checked i hi).1, fun i hi => (checked i hi).2.1,
    fun i _ => alone_foreign l last i, fun i j hi hj same => ?_,
    fun i j le hj block => (precede i j le hj block).2.1,
    fun i j le hj block => (precede i j le hj block).2.2⟩
  rcases Nat.le_total i j with le | le
  · exact (precede i j le hj same.1).1 same.2
  · exact ((precede j i le hi same.1.symm).1 same.2.symm).symm

/-- Nobody has seen another thread's operations, so the epochs alone decide. -/
theorem Unsynchronised.concurrent_iff (rules : h.Unsynchronised N) {i j : Nat} (hi : i < N)
    (hj : j < N) :
    concurrent (h i).1 (h j).1 (h j).2 = true ↔ (h i).1.unordered (h j).1 ∧
      ¬((h i).1.kind = .atomic ∧ (h j).1.kind = .atomic) := by
  rw [Riri.concurrent_iff, ← and_assoc, and_iff_left_iff_imp]
  rintro ⟨unordered, -⟩
  have other : key (h i).1.block (h i).1.thread ≠ key (h j).1.block (h j).1.thread := fun same =>
    unordered.1 (key_injective (rules.thread i hi) (rules.thread j hj) same)
  rw [rules.foreign j hj _ other]
  exact rules.counted i hi

/-- What is unordered with an access is unordered with whatever that access is ordered
before. -/
theorem Unsynchronised.unordered_of_ordered (rules : h.Unsynchronised N) {i j k : Nat}
    (le : i ≤ j) (le' : j ≤ k) (hk : k < N) (ordered : ¬ (h i).1.unordered (h j).1)
    (unordered : (h i).1.unordered (h k).1) : (h j).1.unordered (h k).1 := by
  have hj : j < N := lt_of_le_of_lt le' hk
  have hi : i < N := lt_of_le_of_lt le hj
  obtain ⟨other, apart⟩ := unordered
  have block : (h i).1.block = (h j).1.block := by
    by_contra away
    exact ordered ⟨fun same => away same.1, .inl away⟩
  by_cases blocks : (h i).1.block = (h k).1.block
  · -- The epochs of `j` lie between those of `i` and `k`, which agree.
    obtain ⟨epoch, warps⟩ := apart.resolve_left (not_not.mpr blocks)
    have epoch_j : (h i).1.epoch = (h j).1.epoch := by
      have low := rules.epoch i j le hj block
      have high := rules.epoch j k le' hk (block.symm.trans blocks)
      omega
    have warp : (h i).1.warp = (h j).1.warp := by
      by_contra away
      exact ordered ⟨fun same => away (rules.warp i j hi hj same), .inr ⟨epoch_j, .inl away⟩⟩
    have not_same : ¬((h j).1.block = (h k).1.block ∧ (h j).1.thread = (h k).1.thread) := by
      rintro same
      have warp_k := rules.warp j k hj hk same
      have warp_epoch := warps.resolve_left (not_not.mpr (warp.trans warp_k))
      have low := rules.warpEpoch i j le hj block warp
      have high := rules.warpEpoch j k le' hk same.1 warp_k
      exact ordered ⟨fun first => other ⟨blocks, first.2.trans same.2⟩,
        .inr ⟨epoch_j, .inr (by omega)⟩⟩
    refine ⟨not_same, .inr ⟨epoch_j.symm.trans epoch, ?_⟩⟩
    by_cases warp_k : (h j).1.warp = (h k).1.warp
    · have warp_epoch := warps.resolve_left (not_not.mpr (warp.trans warp_k))
      have low := rules.warpEpoch i j le hj block warp
      have high := rules.warpEpoch j k le' hk (block.symm.trans blocks) warp_k
      exact .inr (by omega)
    · exact .inl warp_k
  · have away : (h j).1.block ≠ (h k).1.block := fun same => blocks (block.trans same)
    exact ⟨fun same => away same.1, .inl away⟩

/-- A write between the two sides of a race races with one of them. -/
theorem Unsynchronised.race_split (rules : h.Unsynchronised N) {i j k : Nat} (low : i < k)
    (high : k < j) (hj : j < N) (writes : (h k).1.kind = .write) (race : h.Race i j) :
    h.Race i k ∨ h.Race k j := by
  have hk : k < N := high.trans hj
  have hi : i < N := low.trans hk
  have unordered : (h i).1.unordered (h j).1 := ((rules.concurrent_iff hi hj).mp race.2.2).1
  by_cases before : (h i).1.unordered (h k).1
  · exact .inl ⟨low, by simp [writes], (rules.concurrent_iff hi hk).mpr ⟨before, by simp [writes]⟩⟩
  · have after := rules.unordered_of_ordered low.le high.le hj before unordered
    exact .inr ⟨high, by simp [writes], (rules.concurrent_iff hk hj).mpr ⟨after, by simp [writes]⟩⟩

/-- Where there is a race there is one without a write between its sides. -/
theorem Unsynchronised.closest_race (rules : h.Unsynchronised N) {i j : Nat} (hj : j < N)
    (race : h.Race i j) :
    ∃ i' j', j' < N ∧ h.Race i' j' ∧ ∀ k, i' < k → k < j' → (h k).1.kind ≠ .write := by
  -- On the distance of the two sides.
  induction d : j - i using Nat.strong_induction_on generalizing i j with
  | _ d ih =>
    by_cases between : ∀ k, i < k → k < j → (h k).1.kind ≠ .write
    · exact ⟨i, j, hj, race, between⟩
    · push Not at between
      obtain ⟨k, low, high, writes⟩ := between
      rcases rules.race_split low high hj writes race with before | after
      · exact ih (k - i) (by omega) (high.trans hj) before rfl
      · exact ih (j - k) (by omega) hj after rfl

end Accesses

end Riri
