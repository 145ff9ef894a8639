import Riri.Guarantees.WaveCoverage

/-!
# The grid that was asked for

`count` multiplies three `u32` before anything is checked. A build that checks for overflow panics
there; one that does not may go on with a product that has wrapped, and run fewer blocks or threads
than were asked for. Where the products fit, the coordinates number the box with x fastest.
-/
namespace Riri

def Dim3.volume (d : Dim3) : Nat := d.x.toNat * d.y.toNat * d.z.toNat

def Dim3.box (extent : Dim3) : Set Dim3 := {d | d.x < extent.x ∧ d.y < extent.y ∧ d.z < extent.z}

/-- Linear indices are numbered one-to-one by the coordinates, x fastest. -/
structure Dim3.Numbers (profile : Profile) (extent : Dim3) : Prop where
  onto : Set.BijOn (fun i => fromLinear profile i extent) {i | i.toNat < extent.volume}
    (some '' extent.box)
  fastest : ∀ i d, i.toNat < extent.volume → fromLinear profile i extent = some d →
    i.toNat = d.x.toNat + extent.x.toNat * (d.y.toNat + extent.y.toNat * d.z.toNat)

namespace Dim3

variable {profile : Profile} {d extent : Dim3} {n : UInt32}

theorem count_toNat : d.count.toNat = d.volume % 2 ^ 32 := by
  rw [count, UInt32.toNat_mul, UInt32.toNat_mul, Nat.mod_mul_mod, volume]

/-- A product that did not panic, and where overflow panics did not wrap. -/
theorem mul_eq_some {a b : UInt32} :
    profile.mul a b = some n ↔ n = a * b ∧ (profile = .checks → a.toNat * b.toNat < 2 ^ 32) := by
  cases profile with
  | wraps => simp [Profile.mul, eq_comm]
  | checks =>
    simp only [Profile.mul, Option.ite_none_right_eq_some, Option.some.injEq, true_imp_iff]
    exact and_comm.trans (and_congr_left' eq_comm)

theorem countIn_eq_some :
    d.countIn profile = some n ↔ n = d.count ∧ (profile = .checks →
      d.x.toNat * d.y.toNat < 2 ^ 32 ∧ (d.x * d.y).toNat * d.z.toNat < 2 ^ 32) := by
  rw [countIn, Option.bind_eq_some_iff]
  constructor
  · rintro ⟨plane, first, second⟩
    obtain ⟨rfl, small⟩ := mul_eq_some.mp first
    obtain ⟨rfl, fits⟩ := mul_eq_some.mp second
    exact ⟨rfl, fun checks => ⟨small checks, fits checks⟩⟩
  · rintro ⟨rfl, fits⟩
    exact ⟨d.x * d.y, mul_eq_some.mpr ⟨rfl, fun checks => (fits checks).1⟩,
      mul_eq_some.mpr ⟨rfl, fun checks => (fits checks).2⟩⟩

/-- A build that checks for overflow only goes on with a product that has room. -/
theorem volume_lt_of_countIn (counted : d.countIn .checks = some n) : d.volume < 2 ^ 32 := by
  obtain ⟨-, fits⟩ := countIn_eq_some.mp counted
  obtain ⟨small, fits⟩ := fits rfl
  rwa [UInt32.toNat_mul, Nat.mod_eq_of_lt small] at fits

/-! ### Coordinates -/

/-- The last digit of a number and what is above it. -/
theorem digits {x a base : Nat} (digit : x < base) :
    (x + base * a) % base = x ∧ (x + base * a) / base = a := by
  constructor
  · rw [Nat.add_mul_mod_self_left, Nat.mod_eq_of_lt digit]
  · rw [Nat.add_mul_div_left _ _ (Nat.zero_lt_of_lt digit), Nat.div_eq_of_lt digit, Nat.zero_add]

/-- Where the count is taken and is not zero, every index has coordinates. -/
theorem fromLinear_of_countIn (counted : extent.countIn profile = some n) (nonzero : n ≠ 0)
    (i : UInt32) : fromLinear profile i extent =
      some ⟨i % extent.x, i / extent.x % extent.y, i / (extent.x * extent.y)⟩ := by
  obtain ⟨rfl, fits⟩ := countIn_eq_some.mp counted
  have multiplied : profile.mul extent.x extent.y = some (extent.x * extent.y) :=
    mul_eq_some.mpr ⟨rfl, fun checks => (fits checks).1⟩
  have plane_ne : extent.x * extent.y ≠ 0 := by
    intro none
    rw [count, none] at nonzero
    exact nonzero (UInt32.zero_mul)
  have sides_ne : ¬ (extent.x = 0 ∨ extent.y = 0) := by
    rintro (none | none)
    · exact plane_ne (by rw [none, UInt32.zero_mul])
    · exact plane_ne (by rw [none, UInt32.mul_zero])
  rw [fromLinear, if_neg sides_ne, multiplied, Option.bind_some, if_neg plane_ne]

variable (fits : extent.volume < 2 ^ 32) (some_elements : 0 < extent.volume)
include fits some_elements

theorem plane_of_fits : (extent.x * extent.y).toNat = extent.x.toNat * extent.y.toNat := by
  have some_depth : 0 < extent.z.toNat := Nat.pos_of_mul_pos_left some_elements
  have small : extent.x.toNat * extent.y.toNat < 2 ^ 32 :=
    (Nat.le_mul_of_pos_right _ some_depth).trans_lt fits
  rw [UInt32.toNat_mul, Nat.mod_eq_of_lt small]

theorem fromLinear_of_fits (i : UInt32) : fromLinear profile i extent =
    some ⟨i % extent.x, i / extent.x % extent.y, i / (extent.x * extent.y)⟩ := by
  have plane := plane_of_fits fits some_elements
  have count_eq : extent.count.toNat = extent.volume := by
    rw [count_toNat, Nat.mod_eq_of_lt fits]
  refine fromLinear_of_countIn (countIn_eq_some.mpr ⟨rfl, fun _ => ⟨?_, ?_⟩⟩) ?_ i
  · rw [← plane]
    exact (extent.x * extent.y).toNat_lt
  · rw [plane]
    exact fits
  · intro none
    rw [none] at count_eq
    exact some_elements.ne count_eq

/-- They are inside the extent, and number it with x fastest. -/
theorem fastest {i : UInt32} (inside : i.toNat < extent.volume)
    (coordinates : fromLinear profile i extent = some d) :
    d ∈ extent.box ∧
      i.toNat = d.x.toNat + extent.x.toNat * (d.y.toNat + extent.y.toNat * d.z.toNat) := by
  have size := plane_of_fits fits some_elements
  rw [fromLinear_of_fits fits some_elements] at coordinates
  obtain rfl := Option.some.inj coordinates
  unfold volume at inside some_elements
  have some_plane : 0 < extent.x.toNat * extent.y.toNat := Nat.pos_of_mul_pos_right some_elements
  have x_pos : 0 < extent.x.toNat := Nat.pos_of_mul_pos_right some_plane
  have y_pos : 0 < extent.y.toNat := Nat.pos_of_mul_pos_left some_plane
  refine ⟨⟨?_, ?_, ?_⟩, ?_⟩
  · rw [UInt32.lt_iff_toNat_lt, UInt32.toNat_mod]
    exact Nat.mod_lt _ x_pos
  · rw [UInt32.lt_iff_toNat_lt, UInt32.toNat_mod]
    exact Nat.mod_lt _ y_pos
  · rw [UInt32.lt_iff_toNat_lt, UInt32.toNat_div, size, Nat.div_lt_iff_lt_mul some_plane,
      Nat.mul_comm]
    exact inside
  · simp only [UInt32.toNat_mod, UInt32.toNat_div, size]
    rw [← Nat.div_div_eq_div_mul, Nat.mod_add_div, Nat.mod_add_div]

/-- Where the product fits the coordinates number the box. -/
theorem numbers : Numbers profile extent := by
  refine ⟨⟨fun i inside => ?_, fun i inside j inside' same => ?_, ?_⟩,
    fun i d inside coordinates => (fastest fits some_elements inside coordinates).2⟩
  · have found : fromLinear profile i extent = _ := fromLinear_of_fits fits some_elements i
    exact ⟨_, (fastest fits some_elements inside found).1, found.symm⟩
  · have found : fromLinear profile i extent = _ := fromLinear_of_fits fits some_elements i
    refine UInt32.toNat_inj.mp ?_
    rw [(fastest fits some_elements inside found).2,
      (fastest fits some_elements inside' (same.symm.trans found)).2]
  · rintro - ⟨d, ⟨x, y, z⟩, rfl⟩
    rw [UInt32.lt_iff_toNat_lt] at x y z
    let n := d.x.toNat + extent.x.toNat * (d.y.toNat + extent.y.toNat * d.z.toNat)
    have inside : n < extent.volume := by
      have column : d.y.toNat + extent.y.toNat * d.z.toNat < extent.y.toNat * extent.z.toNat := by
        rw [Nat.add_comm, Nat.mul_comm extent.y.toNat, Nat.mul_comm extent.y.toNat]
        exact Launch.row_lt z y
      rw [volume, Nat.mul_assoc, Nat.mul_comm extent.x.toNat]
      refine lt_of_eq_of_lt ?_ (Launch.row_lt column x)
      rw [Nat.add_comm, Nat.mul_comm]
    have index : (UInt32.ofNat n).toNat = n := UInt32.toNat_ofNat_of_lt' (inside.trans fits)
    have size := plane_of_fits fits some_elements
    have found : fromLinear profile (UInt32.ofNat n) extent = _ :=
      fromLinear_of_fits fits some_elements _
    refine ⟨UInt32.ofNat n, by rwa [Set.mem_ofPred_eq, index], found.trans (congrArg some ?_)⟩
    have first := digits x (a := d.y.toNat + extent.y.toNat * d.z.toNat)
    have second := digits y (a := d.z.toNat)
    obtain ⟨dx, dy, dz⟩ := d
    rw [mk.injEq]
    refine ⟨UInt32.toNat_inj.mp ?_, UInt32.toNat_inj.mp ?_, UInt32.toNat_inj.mp ?_⟩
    · rw [UInt32.toNat_mod, index, first.1]
    · rw [UInt32.toNat_mod, UInt32.toNat_div, index, first.2, second.1]
    · rw [UInt32.toNat_div, index, size, ← Nat.div_div_eq_div_mul, first.2, second.2]

end Dim3

/-- Both counts were taken, and are the sizes. -/
theorem LaunchConfig.counted_of_admitted {profile : Profile} {config : LaunchConfig} {c : Config}
    (accepted : config.admitted profile = some c) :
    config.grid.countIn profile = some config.grid.count ∧ config.grid.count.toNat = c.blocks ∧
      config.block.countIn profile = some config.block.count ∧
      config.block.count.toNat = c.threadsPerBlock := by
  obtain ⟨blocks, grid, accepted⟩ := Option.bind_eq_some_iff.mp accepted
  obtain ⟨threads, block, accepted⟩ := Option.bind_eq_some_iff.mp accepted
  obtain ⟨same_blocks, same_threads, -⟩ := LaunchConfig.sizes_of_checked accepted
  obtain ⟨rfl, -⟩ := Dim3.countIn_eq_some.mp grid
  obtain ⟨rfl, -⟩ := Dim3.countIn_eq_some.mp block
  exact ⟨grid, same_blocks.symm, block, same_threads.symm⟩

/-- What `run_shared` goes on with has the counts it took, and where overflow panics those are the
products. -/
theorem LaunchConfig.counts_of_admitted {profile : Profile} {config : LaunchConfig} {c : Config}
    (accepted : config.admitted profile = some c) :
    c.blocks = config.grid.volume % 2 ^ 32 ∧ c.threadsPerBlock = config.block.volume % 2 ^ 32 ∧
      (profile = .checks → config.grid.volume < 2 ^ 32 ∧ config.block.volume < 2 ^ 32) := by
  obtain ⟨grid, blocks, block, threads⟩ := counted_of_admitted accepted
  refine ⟨blocks.symm.trans Dim3.count_toNat, threads.symm.trans Dim3.count_toNat, ?_⟩
  rintro rfl
  exact ⟨Dim3.volume_lt_of_countIn grid, Dim3.volume_lt_of_countIn block⟩

namespace Launch

variable {V : Type} [BEq V] {env : Env V}

/-- What a launch does with the extents it was given. -/
structure CoversBox (profile : Profile) (config : LaunchConfig) (env : Env V) : Prop where
  blocks : env.config.blocks = config.grid.volume
  threads : env.config.threadsPerBlock = config.block.volume
  only : ∀ n l cx, (run env).label n = some l → l.ctx? = some cx →
    cx.block < config.grid.volume ∧ cx.thread < config.block.volume
  each : ∀ n, (run env).Halted n → Live ((run env).state n) →
    ∀ block < config.grid.volume, ∀ thread < config.block.volume, ∃! k, ReturnsAt env block thread k
  blockIdx : config.grid.Numbers profile
  threadIdx : config.block.Numbers profile

/-- A launch that is not refused covers the extents it was given exactly if the build checks for
overflow or neither product reaches `2 ^ 32`. -/
theorem covers_box_iff (profile : Profile) (config : LaunchConfig) (env : Env V)
    (accepted : config.admitted profile = some env.config) :
    CoversBox profile config env ↔
      profile = .checks ∨ config.grid.volume < 2 ^ 32 ∧ config.block.volume < 2 ^ 32 := by
  obtain ⟨blocks, threads, checks⟩ := LaunchConfig.counts_of_admitted accepted
  constructor
  · intro covers
    right
    have room : ∀ n, n % 2 ^ 32 < 2 ^ 32 := fun n => Nat.mod_lt n (by decide)
    exact ⟨covers.blocks ▸ blocks ▸ room _, covers.threads ▸ threads ▸ room _⟩
  · intro condition
    obtain ⟨grid_fits, block_fits⟩ := condition.elim checks id
    rw [Nat.mod_eq_of_lt grid_fits] at blocks
    rw [Nat.mod_eq_of_lt block_fits] at threads
    have some_blocks := blocks ▸ env.config.blocks_pos
    have some_threads := threads ▸ env.config.threads_pos
    refine ⟨blocks, threads, fun n l cx labelled thread => ?_, ?_,
      Dim3.numbers grid_fits some_blocks, Dim3.numbers block_fits some_threads⟩
    · have placed := placed_of_label labelled thread
      exact ⟨blocks ▸ placed.block_lt, threads ▸ placed.thread_lt⟩
    · intro n halted live block in_grid thread in_block
      obtain ⟨k, returned, -⟩ := returns_of_halted halted live (blocks.symm ▸ in_grid)
        (threads.symm ▸ in_block)
      exact ⟨k, returned, fun j again => returns_unique again returned⟩

def plain : LaunchConfig := ⟨⟨2, 2, 1⟩, ⟨3, 1, 1⟩, 0, 32, none⟩

theorem plain_admitted : (plain.admitted .checks).isSome := by decide

theorem covers_box_plain : CoversBox .checks plain
    { trial .oneThread (fun _ => []) [] with
      config := (plain.admitted .checks).get plain_admitted } :=
  (covers_box_iff .checks plain _ (Option.some_get plain_admitted).symm).mpr (.inl rfl)

/-- A grid of more than `2 ^ 33` blocks whose count wraps to 1. -/
def wrapped : LaunchConfig := ⟨⟨3, 2863311531, 1⟩, ⟨1, 1, 1⟩, 0, 32, none⟩

theorem wrapped_admitted : (wrapped.admitted .wraps).isSome := by decide

/-- It is accepted where multiplication wraps, and one block is run. -/
theorem wrapped_uncovered : ∃ env : Env Nat, wrapped.admitted .wraps = some env.config ∧
    ¬ CoversBox .wraps wrapped env := by
  refine ⟨{ trial .oneThread (fun _ => []) [] with
    config := (wrapped.admitted .wraps).get wrapped_admitted },
    (Option.some_get wrapped_admitted).symm, fun covers => ?_⟩
  have one : ((wrapped.admitted .wraps).get wrapped_admitted).blocks = 1 := by decide
  have many := covers.blocks.symm.trans one
  revert many
  decide

end Launch

end Riri
