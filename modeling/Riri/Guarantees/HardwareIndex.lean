import Riri.Guarantees.GridExtents
import Riri.Source.Oxide

/-!
# The index of a thread on the hardware

`index_1d` numbers the threads of the launch one after the other over all three dimensions. The
hardware's `blockIdx.x * blockDim.x + threadIdx.x` repeats wherever the grid or the block has a
second dimension, so there the two part, and threads that collide on the device do not under Riri.
-/
namespace Riri

/-- A thread of a launch of these sizes, as `run_thread` numbers it. -/
structure Config.IsThread (c : Config) (cx : Ctx) : Prop where
  block_lt : cx.block < c.blocks
  thread_lt : cx.thread < c.threadsPerBlock
  gid_eq : cx.gid = cx.block * c.threadsPerBlock + cx.thread

namespace Oxide

variable {V : Type} {profile : Profile} {config : LaunchConfig} {c : Config} {cx : Ctx}

def hardwareIndex (profile : Profile) (config : LaunchConfig) (cx : Ctx) : Option Nat :=
  (blockIdxX profile config cx).bind fun block =>
    (threadIdxX profile config cx).map fun thread =>
      block.toNat * (blockDimX config).toNat + thread.toNat

/-- The threads of a launch are indexed as on the hardware, and claim and collide alike. -/
structure IndexAsHardware (profile : Profile) (config : LaunchConfig) (c : Config) : Prop where
  index : ∀ cx, c.IsThread cx → hardwareIndex profile config cx = some (index1d cx)
  claims : ∀ cx, c.IsThread cx → ∀ buf loc, ∀ f : Nat → Nat,
    hardwareIndex profile config cx = some (getMutIndexed cx buf loc f).index
  collides : ∀ cx cx', c.IsThread cx → c.IsThread cx' →
    (hardwareIndex profile config cx = hardwareIndex profile config cx' ↔
      index1d cx = index1d cx')

def OneDimensional (config : LaunchConfig) : Prop :=
  config.grid.y = 1 ∧ config.grid.z = 1 ∧ config.block.y = 1 ∧ config.block.z = 1

/-! ### The two numberings -/

/-- Numbering by rows of `threads` is numbering by the coordinates along two rows exactly if
neither row is left. -/
theorem numberings_agree_iff {blocks threads row column : Nat} (some_blocks : 0 < blocks)
    (some_threads : 0 < threads) (row_pos : 0 < row) (column_pos : 0 < column) :
    (∀ b < blocks, ∀ t < threads, b % row * column + t % column = b * threads + t) ↔
      threads ≤ column ∧ (blocks = 1 ∨ threads = column ∧ blocks ≤ row) := by
  constructor
  · intro agree
    have within : threads ≤ column := by
      by_contra further
      have here := agree 0 some_blocks column (by omega)
      rw [Nat.zero_mod, Nat.mod_self] at here
      omega
    refine ⟨within, or_iff_not_imp_left.mpr fun several => ?_⟩
    have next := agree 1 (by omega) 0 some_threads
    rw [Nat.zero_mod, Nat.one_mul] at next
    have wide : row ≠ 1 := by
      rintro rfl
      rw [Nat.mod_self] at next
      omega
    rw [Nat.mod_eq_of_lt (by omega : 1 < row), Nat.one_mul] at next
    refine ⟨by omega, ?_⟩
    by_contra further
    have here := agree row (by omega) 0 some_threads
    rw [Nat.mod_self, Nat.zero_mod, Nat.zero_mul] at here
    have positive := Nat.mul_pos row_pos some_threads
    omega
  · rintro ⟨within, single | ⟨same, short⟩⟩ b inside t inside'
    · obtain rfl : b = 0 := by omega
      rw [Nat.zero_mod, Nat.mod_eq_of_lt (by omega), Nat.zero_mul, Nat.zero_mul]
    · rw [Nat.mod_eq_of_lt (by omega), Nat.mod_eq_of_lt (by omega), same]

/-- Where the products fit this says that no other dimension is used. -/
theorem one_dimensional_iff {grid block : Dim3} (some_blocks : 0 < grid.volume)
    (some_threads : 0 < block.volume) :
    (block.volume ≤ block.x.toNat ∧
        (grid.volume = 1 ∨ block.volume = block.x.toNat ∧ grid.volume ≤ grid.x.toNat)) ↔
      grid.y = 1 ∧ grid.z = 1 ∧ block.y = 1 ∧ block.z = 1 := by
  -- A product stays within its first factor exactly if the others are 1.
  have within : ∀ d : Dim3, 0 < d.volume →
      (d.volume ≤ d.x.toNat ↔ d.y = 1 ∧ d.z = 1) := by
    intro d positive
    unfold Dim3.volume at positive ⊢
    rw [← UInt32.toNat_inj, ← UInt32.toNat_inj, Nat.mul_assoc] at *
    have x_pos := Nat.pos_of_mul_pos_right positive
    have rest := Nat.pos_of_mul_pos_left positive
    constructor
    · intro small
      have one : d.y.toNat * d.z.toNat ≤ 1 := Nat.le_of_mul_le_mul_left (by omega) x_pos
      have both := Nat.le_antisymm one rest
      exact ⟨Nat.eq_one_of_mul_eq_one_right both, Nat.eq_one_of_mul_eq_one_left both⟩
    · rintro ⟨y, z⟩
      rw [y, z]
      exact (Nat.mul_one _).le
  have least : ∀ d : Dim3, d.volume = 1 → d.y = 1 ∧ d.z = 1 := by
    intro d single
    have positive : 0 < d.volume := by omega
    refine (within d positive).mp ?_
    rw [single]
    unfold Dim3.volume at positive
    rw [Nat.mul_assoc] at positive
    exact Nat.pos_of_mul_pos_right positive
  constructor
  · rintro ⟨block_row, single | ⟨-, grid_row⟩⟩
    · exact ⟨(least grid single).1, (least grid single).2, (within block some_threads).mp block_row⟩
    · obtain ⟨y, z⟩ := (within grid some_blocks).mp grid_row
      exact ⟨y, z, (within block some_threads).mp block_row⟩
  · rintro ⟨y, z, block_row⟩
    refine ⟨(within block some_threads).mpr block_row, .inr ⟨?_, (within grid some_blocks).mpr ⟨y, z⟩⟩⟩
    rw [Dim3.volume, block_row.1, block_row.2]
    exact (Nat.mul_one _).trans (Nat.mul_one _)

theorem count_ne {n : UInt32} {size : Nat} (counted : n.toNat = size) (positive : 0 < size) :
    n ≠ 0 := by
  rintro rfl
  exact positive.ne counted

/-- The hardware's index of a thread, by its linear indices. -/
theorem hardwareIndex_eq (accepted : config.admitted profile = some c) (thread : c.IsThread cx) :
    hardwareIndex profile config cx = some (cx.block % config.grid.x.toNat * config.block.x.toNat +
      cx.thread % config.block.x.toNat) := by
  obtain ⟨grid, blocks, block, threads⟩ := LaunchConfig.counted_of_admitted accepted
  have small : cx.block < 2 ^ 32 := thread.block_lt.trans (blocks ▸ config.grid.count.toNat_lt)
  have small' : cx.thread < 2 ^ 32 := thread.thread_lt.trans (threads ▸ config.block.count.toNat_lt)
  have here : blockIdx profile config cx = _ :=
    Dim3.fromLinear_of_countIn grid (count_ne blocks c.blocks_pos) _
  have here' : threadIdx profile config cx = _ :=
    Dim3.fromLinear_of_countIn block (count_ne threads c.threads_pos) _
  rw [hardwareIndex, blockIdxX, threadIdxX, here, here']
  simp only [Option.map_some, Option.bind_some, UInt32.toNat_mod, blockDimX,
    UInt32.toNat_ofNat_of_lt' small, UInt32.toNat_ofNat_of_lt' small']

/-- The extents of an accepted launch have a first row. -/
theorem x_pos_of_admitted (accepted : config.admitted profile = some c) :
    0 < config.grid.x.toNat ∧ 0 < config.block.x.toNat := by
  obtain ⟨-, blocks, -, threads⟩ := LaunchConfig.counted_of_admitted accepted
  have row : ∀ {d : Dim3} {n : Nat}, d.count.toNat = n → 0 < n → 0 < d.x.toNat := by
    intro d n size positive
    by_contra none
    have x : d.x = 0 := UInt32.toNat_inj.mp (by simpa using none)
    rw [Dim3.count, x, UInt32.zero_mul, UInt32.zero_mul] at size
    exact positive.ne size
  exact ⟨row blocks c.blocks_pos, row threads c.threads_pos⟩

/-- The threads of a launch are indexed as on the hardware exactly if a block has no more threads
than its first row, and there is one block, or every block fills its row and the blocks are those of
the grid's. Where the products do not wrap, this says that grid and block have one dimension. -/
theorem index_as_hardware_iff (profile : Profile) (config : LaunchConfig) (c : Config)
    (accepted : config.admitted profile = some c) :
    (IndexAsHardware profile config c ↔ c.threadsPerBlock ≤ config.block.x.toNat ∧
      (c.blocks = 1 ∨ c.threadsPerBlock = config.block.x.toNat ∧
        c.blocks ≤ config.grid.x.toNat)) ∧
    (config.grid.volume < 2 ^ 32 → config.block.volume < 2 ^ 32 →
      (IndexAsHardware profile config c ↔ OneDimensional config)) := by
  obtain ⟨blocks, threads, -⟩ := LaunchConfig.counts_of_admitted accepted
  obtain ⟨grid_x, block_x⟩ := x_pos_of_admitted accepted
  have exactly : IndexAsHardware profile config c ↔ c.threadsPerBlock ≤ config.block.x.toNat ∧
      (c.blocks = 1 ∨ c.threadsPerBlock = config.block.x.toNat ∧
        c.blocks ≤ config.grid.x.toNat) := by
    rw [← numberings_agree_iff c.blocks_pos c.threads_pos grid_x block_x]
    constructor
    · intro same b inside t inside'
      let cx : Ctx := ⟨0, 0, b, t, b * c.threadsPerBlock + t, 0, 0⟩
      have thread : c.IsThread cx := ⟨inside, inside', rfl⟩
      exact Option.some.inj ((hardwareIndex_eq accepted thread).symm.trans (same.index cx thread))
    · intro agree
      have index : ∀ cx, c.IsThread cx → hardwareIndex profile config cx = some (index1d cx) := by
        intro cx thread
        rw [hardwareIndex_eq accepted thread, agree _ thread.block_lt _ thread.thread_lt,
          ← thread.gid_eq]
        rfl
      refine ⟨index, fun cx thread _ _ _ => index cx thread, fun cx cx' thread thread' => ?_⟩
      rw [index cx thread, index cx' thread', Option.some.injEq]
  refine ⟨exactly, fun grid_fits block_fits => exactly.trans ?_⟩
  rw [Nat.mod_eq_of_lt grid_fits] at blocks
  rw [Nat.mod_eq_of_lt block_fits] at threads
  rw [blocks, threads]
  exact one_dimensional_iff (blocks ▸ c.blocks_pos) (threads ▸ c.threads_pos)

def rows : LaunchConfig := ⟨⟨2, 1, 1⟩, ⟨4, 1, 1⟩, 0, 32, none⟩

theorem rows_admitted : (rows.admitted .checks).isSome := by decide

theorem index_as_hardware_rows :
    IndexAsHardware .checks rows ((rows.admitted .checks).get rows_admitted) :=
  ((index_as_hardware_iff .checks rows _ (Option.some_get rows_admitted).symm).2 (by decide)
    (by decide)).mpr (by unfold OneDimensional; decide)

def square : LaunchConfig := ⟨⟨1, 1, 1⟩, ⟨2, 2, 1⟩, 0, 32, none⟩

theorem square_admitted : (square.admitted .checks).isSome := by decide

/-- Its third thread has index 2, and 0 on the hardware, where it collides with the first. -/
theorem square_not_as_hardware :
    ¬ IndexAsHardware .checks square ((square.admitted .checks).get square_admitted) := by
  intro same
  have thread : ((square.admitted .checks).get square_admitted).IsThread ⟨2, 0, 0, 2, 2, 0, 2⟩ :=
    ⟨by decide, by decide, by decide⟩
  have index := same.index _ thread
  revert index
  decide

end Oxide

end Riri
