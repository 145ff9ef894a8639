import Riri.Shadow.History

/-!
# Reads a cell leaves out

A cell keeps one reader record for each thread and barrier epoch: the first. A thread that
reads again after its warp has moved on is not recorded again, although the record that is
kept is ordered before the whole warp's later accesses. A race that only starts at such a
repeated read is lost, and no other race among plain accesses is.
-/
namespace Riri.Accesses

variable {h : Accesses} {init : Bool} {N : Nat}

/-- A read whose thread has not read the element since the last write in this barrier
epoch. -/
def First (h : Accesses) (i : Nat) : Prop :=
  (h i).1.kind = .read ∧
    ∀ k < i, h.ReadsOnly k i → h.SameThread k i → (h k).1.epoch ≠ (h i).1.epoch

/-- A read whose thread has read the element since the last write, in the same barrier epoch
but an older warp epoch. -/
def Stale (h : Accesses) (i : Nat) : Prop :=
  (h i).1.kind = .read ∧ ∃ k < i, h.ReadsOnly k i ∧ h.SameThread k i ∧
    (h k).1.epoch = (h i).1.epoch ∧ (h k).1.warpEpoch < (h i).1.warpEpoch

/-- What a cell holds before time `n`: the last write, and the first reads since. A first
read may have been dropped for a reader of its block from a later epoch. -/
structure Remembers (h : Accesses) (n : Nat) (c : Cell) : Prop where
  write : ∀ w, c.lastWrite = some w →
    ∃ i < n, (h i).1 = w ∧ (h i).1.kind ≠ .read ∧ h.ReadsOnly (i + 1) n
  noWrite : c.lastWrite = none → h.ReadsOnly 0 n
  reader : ∀ r ∈ c.readers, ∃ i < n, (h i).1 = r ∧ h.First i ∧ h.ReadsOnly i n
  kept : ∀ i < n, h.First i → h.ReadsOnly i n → ∃ r ∈ c.readers, r.block = (h i).1.block ∧
    (r = (h i).1 ∨ (h i).1.epoch < r.epoch)
  room : ∃ s ≤ n, h.ReadsOnly s n ∧ c.readers.length + s ≤ n

theorem ReadsOnly.snoc {i n : Nat} (only : h.ReadsOnly i n) (read : (h n).1.kind = .read) :
    h.ReadsOnly i (n + 1) := by
  intro k low high
  rcases Nat.lt_succ_iff_lt_or_eq.mp high with before | rfl
  · exact only k low before
  · exact read

theorem ReadsOnly.mono {i j n m : Nat} (only : h.ReadsOnly i n) (le : i ≤ j) (le' : m ≤ n) :
    h.ReadsOnly j m := fun k low high => only k (le.trans low) (lt_of_lt_of_le high le')

/-- Behind every read there is a first one of its thread and epoch. -/
theorem exists_first {i : Nat} (read : (h i).1.kind = .read) :
    ∃ k ≤ i, h.First k ∧ h.SameThread k i ∧ (h k).1.epoch = (h i).1.epoch ∧
      h.ReadsOnly k i := by
  induction i using Nat.strong_induction_on with
  | _ i ih =>
    by_cases first : h.First i
    · exact ⟨i, le_rfl, first, ⟨rfl, rfl⟩, rfl, fun k low high => absurd high (Nat.not_lt.mpr low)⟩
    · simp only [First, read, true_and, not_forall, not_not] at first
      obtain ⟨k, lt, only, same, epoch⟩ := first
      obtain ⟨f, le, first, same', epoch', only'⟩ := ih k lt (only k le_rfl lt)
      refine ⟨f, le.trans lt.le, first, ⟨same'.1.trans same.1, same'.2.trans same.2⟩,
        epoch'.trans epoch, fun l low high => ?_⟩
      rcases Nat.lt_or_ge l k with before | after
      · exact only' l low before
      · exact only l after high

theorem remembers_zero : h.Remembers 0 (h.cell init 0) where
  write w found := by cases found
  noWrite _ k _ high := absurd high (Nat.not_lt_zero k)
  reader r member := by cases member
  kept i lt := absurd lt (Nat.not_lt_zero i)
  room := ⟨0, le_rfl, fun k _ high => absurd high (Nat.not_lt_zero k), le_rfl⟩

/-- A write starts over. -/
theorem Remembers.on_write {n : Nat} {c : Cell} {now : Clock} (writes : (h n).1.kind ≠ .read) :
    h.Remembers (n + 1) (c.onWrite (h n).1 now).1 where
  write w found := by
    obtain rfl : (h n).1 = w := Option.some.inj found
    exact ⟨n, Nat.lt_succ_self n, rfl, writes, fun k low high => absurd high (Nat.not_lt.mpr low)⟩
  noWrite none := by cases none
  reader r member := by cases member
  kept i lt _ only := absurd (only n (Nat.le_of_lt_succ lt) (Nat.lt_succ_self n)) writes
  room := ⟨n + 1, le_rfl, fun k low high => absurd high (Nat.not_lt.mpr low), by simp [Cell.onWrite]⟩

section

variable {n : Nat} {c : Cell} (rules : h.Unsynchronised N) (hn : n < N)
  (kept : h.Remembers n c)

include rules hn kept

/-- No reader is from a later epoch of the block. -/
theorem Remembers.reader_epoch {r : Access} (member : r ∈ c.readers)
    (block : r.block = (h n).1.block) : r.epoch ≤ (h n).1.epoch := by
  obtain ⟨i, lt, rfl, -, -⟩ := kept.reader r member
  exact rules.epoch i n lt.le hn block

/-- A read is a first one exactly when no reader carries its thread and epoch. -/
theorem Remembers.first_iff (read : (h n).1.kind = .read) :
    h.First n ↔ ∀ r ∈ c.readers, ¬(r.block = (h n).1.block ∧ r.thread = (h n).1.thread ∧
      r.epoch = (h n).1.epoch) := by
  constructor
  · rintro first r member ⟨block, thread, epoch⟩
    obtain ⟨i, lt, rfl, -, only⟩ := kept.reader r member
    exact first.2 i lt only ⟨block, thread⟩ epoch
  · intro absent
    obtain ⟨f, le, first, same, epoch, only⟩ := exists_first read
    rcases Nat.eq_or_lt_of_le le with rfl | lt
    · exact first
    · obtain ⟨r, member, block, record | later⟩ := kept.kept f lt first only
      · rw [record] at member
        exact absurd ⟨same.1, same.2, epoch⟩ (absent _ member)
      · have bound := kept.reader_epoch rules hn member (block.trans same.1)
        omega

omit rules in
/-- There is room for another reader. -/
theorem Remembers.has_room
    (few : ∀ i j, i ≤ j → j ≤ N → h.ReadsOnly i j → j - i ≤ MAX_READERS)
    (read : (h n).1.kind = .read) : c.readers.length < MAX_READERS := by
  obtain ⟨s, le, only, length⟩ := kept.room
  have segment := few s (n + 1) (Nat.le_succ_of_le le) hn (only.snoc read)
  omega

/-- Who is among the readers after a read. -/
theorem Remembers.mem_onRead
    (few : ∀ i j, i ≤ j → j ≤ N → h.ReadsOnly i j → j - i ≤ MAX_READERS)
    (read : (h n).1.kind = .read) {now : Clock} {r : Access} :
    r ∈ (c.onRead (h n).1 now).1.readers ↔
      (r ∈ c.readers ∧ (r.block ≠ (h n).1.block ∨ r.epoch = (h n).1.epoch)) ∨
        (r = (h n).1 ∧ h.First n) := by
  have room := kept.has_room hn few read
  have first := kept.first_iff rules hn read
  simp only [Cell.onRead]
  generalize filtered : (c.readers.filter fun r =>
    r.block ≠ (h n).1.block ∨ r.epoch = (h n).1.epoch) = rest
  have mem_rest : ∀ a, a ∈ rest ↔ a ∈ c.readers ∧
      (a.block ≠ (h n).1.block ∨ a.epoch = (h n).1.epoch) := by
    intro a
    rw [← filtered]
    simp
  have shorter : rest.length < MAX_READERS := by
    rw [← filtered]
    exact lt_of_le_of_lt (List.length_filter_le ..) room
  by_cases new : h.First n
  · have fresh : (rest.any fun r => r.block = (h n).1.block ∧ r.thread = (h n).1.thread ∧
        r.epoch = (h n).1.epoch) = false := by
      rw [List.any_eq_false]
      intro a member
      simpa using first.mp new a ((mem_rest a).mp member).1
    rw [fresh, if_pos (by simp [shorter]), List.mem_append, mem_rest, List.mem_singleton,
      and_iff_left new]
  · have repeated : (rest.any fun r => r.block = (h n).1.block ∧ r.thread = (h n).1.thread ∧
        r.epoch = (h n).1.epoch) = true := by
      rw [first] at new
      push Not at new
      obtain ⟨a, member, block, thread, epoch⟩ := new
      rw [List.any_eq_true]
      exact ⟨a, (mem_rest a).mpr ⟨member, .inr epoch⟩, by simp [block, thread, epoch]⟩
    rw [repeated, if_neg (by simp), mem_rest]
    exact (or_iff_left fun both => new both.2).symm

/-- A read adds itself unless its thread is there already. -/
theorem Remembers.on_read
    (few : ∀ i j, i ≤ j → j ≤ N → h.ReadsOnly i j → j - i ≤ MAX_READERS)
    (read : (h n).1.kind = .read) {now : Clock} :
    h.Remembers (n + 1) (c.onRead (h n).1 now).1 := by
  have mem : ∀ r, r ∈ (c.onRead (h n).1 now).1.readers ↔ _ := fun r =>
    kept.mem_onRead rules hn few read
  refine ⟨fun w found => ?_, fun none => (kept.noWrite none).snoc read, fun r member => ?_,
    fun i lt first only => ?_, ?_⟩
  · obtain ⟨i, lt, record, writes, only⟩ := kept.write w found
    exact ⟨i, Nat.lt_succ_of_lt lt, record, writes, only.snoc read⟩
  · rcases (mem r).mp member with ⟨old, -⟩ | ⟨rfl, first⟩
    · obtain ⟨i, lt, record, first, only⟩ := kept.reader r old
      exact ⟨i, Nat.lt_succ_of_lt lt, record, first, only.snoc read⟩
    · exact ⟨n, Nat.lt_succ_self n, rfl, first,
        fun k low high => Nat.le_antisymm low (Nat.le_of_lt_succ high) ▸ read⟩
  · -- The block has a reader from this epoch from now on.
    have newest : ∃ r ∈ (c.onRead (h n).1 now).1.readers, r.block = (h n).1.block ∧
        r.epoch = (h n).1.epoch := by
      by_cases new : h.First n
      · exact ⟨(h n).1, (mem _).mpr (.inr ⟨rfl, new⟩), rfl, rfl⟩
      · rw [kept.first_iff rules hn read] at new
        push Not at new
        obtain ⟨r, member, block, -, epoch⟩ := new
        exact ⟨r, (mem r).mpr (.inl ⟨member, .inr epoch⟩), block, epoch⟩
    rcases Nat.lt_succ_iff_lt_or_eq.mp lt with before | rfl
    · obtain ⟨r, member, block, later⟩ := kept.kept i before first (only.mono le_rfl (Nat.le_succ n))
      by_cases stays : r.block ≠ (h n).1.block ∨ r.epoch = (h n).1.epoch
      · exact ⟨r, (mem r).mpr (.inl ⟨member, stays⟩), block, later⟩
      · push Not at stays
        obtain ⟨r', member', block', epoch'⟩ := newest
        have bound := kept.reader_epoch rules hn member stays.1
        have older : (h i).1.epoch ≤ r.epoch := by
          rcases later with rfl | later
          · exact le_rfl
          · exact later.le
        exact ⟨r', member', (block'.trans stays.1.symm).trans block, .inr (by omega)⟩
    · exact ⟨(h i).1, (mem _).mpr (.inr ⟨rfl, first⟩), rfl, .inl rfl⟩
  · obtain ⟨s, le, only, length⟩ := kept.room
    refine ⟨s, Nat.le_succ_of_le le, only.snoc read, ?_⟩
    have filtered := List.length_filter_le
      (fun r : Access => decide (r.block ≠ (h n).1.block ∨ r.epoch = (h n).1.epoch)) c.readers
    simp only [Cell.onRead]
    split
    · rw [List.length_append, List.length_singleton]
      omega
    · omega

end

/-! ### A whole sequence -/

section

variable (rules : h.Unsynchronised N)
  (few : ∀ i j, i ≤ j → j ≤ N → h.ReadsOnly i j → j - i ≤ MAX_READERS)

include rules few

theorem remembers {n : Nat} (hn : n ≤ N) : h.Remembers n (h.cell init n) := by
  induction n with
  | zero => exact remembers_zero
  | succ n ih =>
    have before := ih (Nat.le_of_succ_le hn)
    simp only [cell, Cell.record]
    cases kind : (h n).1.kind with
    | read => exact before.on_read rules hn few kind
    | write | atomic => exact .on_write (by simp [kind])

/-- A conflict is a race between neighbours whose first side is no repeated read. -/
theorem seen_of_reports (reports : h.Reports init N) :
    ∃ i j, j < N ∧ h.Race i j ∧ h.ReadsOnly (i + 1) j ∧ ¬ h.Stale i := by
  obtain ⟨j, hj, found⟩ := reports
  have state : h.Remembers j (h.cell init j) := remembers rules few hj.le
  rw [conflict, Cell.conflict_isSome_iff] at found
  rcases found with ⟨w, slot, races⟩ | ⟨writes, r, member, races⟩
  · obtain ⟨i, lt, rfl, writes, only⟩ := state.write w slot
    exact ⟨i, j, hj, ⟨lt, fun both => writes both.1, races⟩, only, fun stale => writes stale.1⟩
  · obtain ⟨i, lt, rfl, first, only⟩ := state.reader r member
    refine ⟨i, j, hj, ⟨lt, fun both => writes both.2, races⟩,
      only.mono (Nat.le_succ i) le_rfl, ?_⟩
    rintro ⟨-, k, before, reads, same, epoch, -⟩
    exact first.2 k before reads same epoch

/-- Such a race is noticed. -/
theorem reports_of_seen (plain : ∀ i < N, (h i).1.kind ≠ .atomic) {i j : Nat} (hj : j < N) (race : h.Race i j)
    (only : h.ReadsOnly (i + 1) j) (fresh : ¬ h.Stale i) : h.Reports init N := by
  have state : h.Remembers j (h.cell init j) := remembers rules few hj.le
  have hi : i < N := race.1.trans hj
  refine ⟨j, hj, ?_⟩
  rw [conflict, Cell.conflict_isSome_iff]
  by_cases read : (h i).1.kind = .read
  · have writes : (h j).1.kind ≠ .read := fun both => race.2.1 ⟨read, both⟩
    obtain ⟨f, le, first, same, epoch, reads⟩ := exists_first read
    have hf : f < N := lt_of_le_of_lt le hi
    have stretch : h.ReadsOnly f j := by
      intro k low high
      rcases Nat.lt_trichotomy k i with before | rfl | after
      · exact reads k low before
      · exact read
      · exact only k after high
    -- The first read is from the warp epoch of the racing one, or that one would be stale.
    have unordered : (h f).1.unordered (h j).1 := by
      have here := ((rules.concurrent_iff hi hj).mp race.2.2).1
      have warp := rules.warp f i hf hi same
      have older := rules.warpEpoch f i le hi same.1 warp
      have newer : (h i).1.warpEpoch ≤ (h f).1.warpEpoch := by
        by_contra later
        have lt : f < i := lt_of_le_of_ne le fun eq => later (by rw [eq])
        exact fresh ⟨read, f, lt, reads, same, epoch, Nat.lt_of_not_le later⟩
      have warp_epoch : (h f).1.warpEpoch = (h i).1.warpEpoch := Nat.le_antisymm older newer
      unfold Access.unordered at here ⊢
      rw [same.1, same.2, epoch, warp, warp_epoch]
      exact here
    obtain ⟨r, member, block, record | later⟩ := state.kept f (lt_of_le_of_lt le race.1) first stretch
    · rw [record] at member
      exact .inr ⟨writes, _, member, (rules.concurrent_iff hf hj).mpr
        ⟨unordered, fun both => plain f hf both.1⟩⟩
    · obtain ⟨k, lt, rfl, -, -⟩ := state.reader r member
      have away : (h k).1.block ≠ (h j).1.block := by
        intro same_block
        have bound := rules.epoch k j lt.le hj same_block
        have agree := (unordered.2.resolve_left (not_not.mpr (block.symm.trans same_block))).1
        omega
      exact .inr ⟨writes, _, member, (rules.concurrent_iff (lt.trans hj) hj).mpr
        ⟨⟨fun both => away both.1, .inl away⟩, fun both => plain j hj both.2⟩⟩
  · -- The racing write is still the last one.
    left
    cases slot : (h.cell init j).lastWrite with
    | none => exact absurd (state.noWrite slot i (Nat.zero_le i) race.1) read
    | some w =>
      obtain ⟨k, lt, rfl, writes, since⟩ := state.write w slot
      have last : k = i := by
        rcases Nat.lt_trichotomy k i with before | same | after
        · exact absurd (since i before race.1) read
        · exact same
        · exact absurd (only k after lt) writes
      exact ⟨(h k).1, rfl, last ▸ race.2.2⟩

end

/-- When a cell loses no race. Among plain accesses by threads that have not synchronised,
with at most as many reads between writes as a cell remembers, reporting a conflict and
containing a race agree exactly when a race of a repeated read with the next write is not
the only kind of race there is. -/
theorem repeated_exactly (h : Accesses) (init : Bool) (N : Nat) (rules : h.Unsynchronised N)
    (plain : ∀ i < N, (h i).1.kind ≠ .atomic)
    (few : ∀ i j, i ≤ j → j ≤ N → h.ReadsOnly i j → j - i ≤ MAX_READERS) :
    (h.Reports init N ↔ ∃ i j, j < N ∧ h.Race i j) ↔
      ((∃ i j, j < N ∧ h.Race i j ∧ h.ReadsOnly (i + 1) j ∧ h.Stale i) →
        ∃ i j, j < N ∧ h.Race i j ∧ h.ReadsOnly (i + 1) j ∧ ¬ h.Stale i) := by
  constructor
  · rintro agree ⟨i, j, hj, race, -⟩
    exact seen_of_reports rules few (agree.mpr ⟨i, j, hj, race⟩)
  · intro others
    constructor
    · intro reports
      obtain ⟨i, j, hj, race, -⟩ := seen_of_reports rules few reports
      exact ⟨i, j, hj, race⟩
    · rintro ⟨i, j, hj, race⟩
      obtain ⟨i, j, hj, race, between⟩ := rules.closest_race hj race
      have only : h.ReadsOnly (i + 1) j := by
        intro k low high
        have writes := between k low high
        have atomics := plain k (high.trans hj)
        cases kind : (h k).1.kind with
        | read => rfl
        | write => exact absurd kind writes
        | atomic => exact absurd kind atomics
      by_cases stale : h.Stale i
      · obtain ⟨i, j, hj, race, only, fresh⟩ := others ⟨i, j, hj, race, only, stale⟩
        exact reports_of_seen rules few plain hj race only fresh
      · exact reports_of_seen rules few plain hj race only stale

def inWarp (thread warpEpoch seq line : Nat) (kind : AccessKind) : Access :=
  ⟨0, thread, 0, 0, warpEpoch, seq, kind, ⟨"kernel.rs", line, 1⟩⟩

/-- A lane reads an element before and after its warp synchronises, then another lane
writes it. -/
def reread : Accesses :=
  alone [inWarp 0 0 1 1 .read, inWarp 0 1 2 3 .read] (inWarp 1 1 1 4 .write)

theorem reread_few (N : Nat) (hN : N ≤ MAX_READERS) (h : Accesses) :
    ∀ i j, i ≤ j → j ≤ N → h.ReadsOnly i j → j - i ≤ MAX_READERS := fun i j _ hj _ => by omega

/-- The second read races with the write and nothing is reported. -/
theorem reread_lost :
    reread.Unsynchronised 3 ∧ (∀ i < 3, (reread i).1.kind ≠ .atomic) ∧
      (∀ i j, i ≤ j → j ≤ 3 → reread.ReadsOnly i j → j - i ≤ MAX_READERS) ∧
      ¬(reread.Reports true 3 ↔ ∃ i j, j < 3 ∧ reread.Race i j) := by
  refine ⟨unsynchronised_alone _ _ (by decide), by decide, reread_few 3 (by decide) _,
    fun agree => ?_⟩
  have race : reread.Race 1 2 := ⟨by decide, by decide, by decide⟩
  have silent : ¬ ∃ n < 3, (reread.conflict true n).isSome := by decide
  exact silent (agree.mpr ⟨1, 2, by decide, race⟩)

/-- A third lane that reads as well is recorded, so the write is reported. -/
theorem repeated_exactly_witnessed :
    let witnessed := alone [inWarp 0 0 1 1 .read, inWarp 0 1 2 3 .read, inWarp 2 1 1 3 .read]
      (inWarp 1 1 1 4 .write)
    witnessed.Reports true 4 ↔ ∃ i j, j < 4 ∧ witnessed.Race i j :=
  (repeated_exactly _ true 4 (unsynchronised_alone _ _ (by decide)) (by decide)
    (reread_few 4 (by decide) _)).mpr fun _ => ⟨2, 3, by decide, ⟨by decide, by decide, by decide⟩,
      fun k low high => absurd high (Nat.not_lt.mpr low), by
        rintro ⟨-, k, lt, -, same, -⟩
        have twice : ∀ k < 2, ¬ SameThread (alone [inWarp 0 0 1 1 .read, inWarp 0 1 2 3 .read,
            inWarp 2 1 1 3 .read] (inWarp 1 1 1 4 .write)) k 2 := by
          unfold SameThread
          decide
        exact twice k lt same⟩

end Riri.Accesses
