import Riri.Source.Sched

/-!
# Threads, warps and lanes

The scheduler's index arithmetic, turned into statements about threads: which block, warp
and lane a thread has, and which threads a block range or a member mask covers. Later proofs
read these and never the divisions.
-/
namespace Riri.Geometry

variable (g : Geometry)

def blockOf (i : Nat) : Nat := i / g.threadsPerBlock

def warpOf (i : Nat) : Nat := i % g.threadsPerBlock / g.warpSize

def laneOf (i : Nat) : Nat := i % g.threadsPerBlock % g.warpSize

/-- Two threads of one warp of one block. -/
def SameWarp (i j : Nat) : Prop := g.blockOf i = g.blockOf j ∧ g.warpOf i = g.warpOf j

theorem locate_eq (i : Nat) : g.locate i = (g.blockOf i, g.warpOf i, g.laneOf i) := rfl

theorem laneOf_lt (i : Nat) : g.laneOf i < 32 :=
  lt_of_lt_of_le (Nat.mod_lt _ g.lanes_pos) g.lanes_le

/-- A thread is its warp's first thread plus its lane. -/
theorem warpBase_add_laneOf (i : Nat) : g.warpBase (g.blockOf i) (g.warpOf i) + g.laneOf i = i := by
  have block := Nat.div_add_mod' i g.threadsPerBlock
  have warp := Nat.div_add_mod' (i % g.threadsPerBlock) g.warpSize
  unfold warpBase blockOf warpOf laneOf
  omega

theorem laneOf_lt_lanesIn (i : Nat) : g.laneOf i < g.lanesIn (g.warpOf i) := by
  have inside : i % g.threadsPerBlock < g.threadsPerBlock := Nat.mod_lt _ g.threads_pos
  have warp := Nat.div_add_mod' (i % g.threadsPerBlock) g.warpSize
  have lane : g.laneOf i < g.warpSize := Nat.mod_lt _ g.lanes_pos
  unfold lanesIn warpOf laneOf at *
  omega

theorem lanesIn_le (warp : Nat) : g.lanesIn warp ≤ 32 := (Nat.min_le_right _ _).trans g.lanes_le

/-- The thread at an existing lane of a warp has that block, warp and lane. -/
theorem of_warpBase_add (block : Nat) {warp lane : Nat} (h : lane < g.lanesIn warp) :
    g.blockOf (g.warpBase block warp + lane) = block ∧
      g.warpOf (g.warpBase block warp + lane) = warp ∧
      g.laneOf (g.warpBase block warp + lane) = lane := by
  have lane_lt : lane < g.warpSize := lt_of_lt_of_le h (Nat.min_le_right _ _)
  have offset_lt : warp * g.warpSize + lane < g.threadsPerBlock := by
    have := lt_of_lt_of_le h (Nat.min_le_left _ _)
    omega
  have div_block : g.blockOf (g.warpBase block warp + lane) = block := by
    unfold blockOf warpBase
    rw [Nat.add_assoc, Nat.mul_comm, Nat.mul_add_div g.threads_pos, Nat.div_eq_of_lt offset_lt,
      Nat.add_zero]
  have mod_block : (g.warpBase block warp + lane) % g.threadsPerBlock = warp * g.warpSize + lane := by
    unfold warpBase
    rw [Nat.add_assoc, Nat.mul_comm, Nat.mul_add_mod, Nat.mod_eq_of_lt offset_lt]
  refine ⟨div_block, ?_, ?_⟩
  · unfold warpOf
    rw [mod_block, Nat.mul_comm, Nat.mul_add_div g.lanes_pos, Nat.div_eq_of_lt lane_lt,
      Nat.add_zero]
  · unfold laneOf
    rw [mod_block, Nat.mul_comm, Nat.mul_add_mod, Nat.mod_eq_of_lt lane_lt]

theorem eq_of_laneOf {i j : Nat} (h : g.SameWarp i j) (lane : g.laneOf i = g.laneOf j) : i = j := by
  rw [← g.warpBase_add_laneOf i, ← g.warpBase_add_laneOf j, h.1, h.2, lane]

theorem mem_blockRange {i block : Nat} : i ∈ g.blockRange block ↔ g.blockOf i = block := by
  unfold blockRange blockOf
  rw [List.mem_range'_1]
  constructor
  · rintro ⟨low, high⟩
    exact Nat.div_eq_of_lt_le low (by rw [Nat.add_mul, Nat.one_mul]; exact high)
  · rintro rfl
    have := Nat.div_add_mod' i g.threadsPerBlock
    have := Nat.mod_lt i g.threads_pos
    omega

theorem mem_members {p block warp : Nat} {mask : Mask} :
    p ∈ g.members block warp mask ↔
      g.blockOf p = block ∧ g.warpOf p = warp ∧ mask.names (g.laneOf p) := by
  unfold members
  simp only [List.mem_map, List.mem_filter, List.mem_range]
  constructor
  · rintro ⟨lane, ⟨exists_, named⟩, rfl⟩
    obtain ⟨block_eq, warp_eq, lane_eq⟩ := g.of_warpBase_add block exists_
    exact ⟨block_eq, warp_eq, by rw [lane_eq]; exact named⟩
  · rintro ⟨rfl, rfl, named⟩
    exact ⟨g.laneOf p, ⟨g.laneOf_lt_lanesIn p, named⟩, g.warpBase_add_laneOf p⟩

theorem blockOf_lt {i : Nat} (h : i < g.total) : g.blockOf i < g.blocks :=
  Nat.div_lt_of_lt_mul (by rw [Nat.mul_comm]; exact h)

theorem lt_total_of_blockOf {i : Nat} (h : g.blockOf i < g.blocks) : i < g.total := by
  unfold total
  exact (Nat.div_lt_iff_lt_mul g.threads_pos).mp h

theorem warpOf_lt (i : Nat) : g.warpOf i < g.warpsPerBlock := by
  have inside : i % g.threadsPerBlock < g.threadsPerBlock := Nat.mod_lt _ g.threads_pos
  unfold warpOf warpsPerBlock
  rw [Nat.div_lt_iff_lt_mul g.lanes_pos]
  have := Nat.div_add_mod' (g.threadsPerBlock + g.warpSize - 1) g.warpSize
  have := Nat.mod_lt (g.threadsPerBlock + g.warpSize - 1) g.lanes_pos
  omega

/-- The counter of a warp is its own. -/
theorem sameWarp_of_warpGenIndex {i j : Nat}
    (h : g.warpGenIndex (g.blockOf i) (g.warpOf i) = g.warpGenIndex (g.blockOf j) (g.warpOf j)) :
    g.SameWarp i j := by
  have first := g.warpOf_lt i
  have second := g.warpOf_lt j
  have positive : 0 < g.warpsPerBlock := Nat.lt_of_le_of_lt (Nat.zero_le _) first
  unfold warpGenIndex at h
  have warp : g.warpOf i = g.warpOf j := by
    have mods := congrArg (· % g.warpsPerBlock) h
    simpa only [Nat.mul_add_mod', Nat.mod_eq_of_lt first, Nat.mod_eq_of_lt second] using mods
  rw [warp] at h
  exact ⟨Nat.eq_of_mul_eq_mul_right positive (Nat.add_right_cancel h), warp⟩

/-- A search over the lanes of a warp is a search over its threads. -/
theorem findSome_lanes_eq_none {α : Type} {block warp : Nat} {f : Nat → Option α} :
    ((List.range (g.lanesIn warp)).findSome? fun l => f (g.warpBase block warp + l)) = none ↔
      ∀ p, g.blockOf p = block → g.warpOf p = warp → f p = none := by
  rw [List.findSome?_eq_none_iff]
  constructor
  · rintro h p rfl rfl
    have found := h (g.laneOf p) (List.mem_range.mpr (g.laneOf_lt_lanesIn p))
    rwa [g.warpBase_add_laneOf] at found
  · intro h lane hlane
    obtain ⟨block_eq, warp_eq, -⟩ := g.of_warpBase_add block (List.mem_range.mp hlane)
    exact h _ block_eq warp_eq

theorem names_validMask {warp lane : Nat} (h : lane < 32) :
    (g.validMask warp).names lane = decide (lane < g.lanesIn warp) := by
  rw [Mask.names_iff _ h]
  unfold validMask
  by_cases full : g.lanesIn warp ≥ 32
  · have covered : lane < g.lanesIn warp := lt_of_lt_of_le h full
    simp only [full, if_true, BitVec.getLsbD_allOnes, h, covered]
  · have short : g.lanesIn warp < 32 := Nat.lt_of_not_le full
    have pow : 2 ^ g.lanesIn warp < 2 ^ 32 := Nat.pow_lt_pow_right (by decide) short
    have value : (1#32 <<< g.lanesIn warp - 1#32).toNat = 2 ^ g.lanesIn warp - 1 := by
      have low : 1 ≤ 2 ^ g.lanesIn warp := Nat.one_le_two_pow
      have shifted : (1#32 <<< g.lanesIn warp).toNat = 2 ^ g.lanesIn warp := by
        simpa [Nat.shiftLeft_eq] using pow
      rw [BitVec.toNat_sub_of_le]
      · simp [shifted]
      · rw [BitVec.le_def, shifted]
        exact low
    simp only [full, if_false]
    rw [BitVec.getLsbD, value, Nat.testBit_two_pow_sub_one]

end Riri.Geometry
