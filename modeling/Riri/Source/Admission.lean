import Riri.Source.Launch

/-!
# Admission

Source: src/dim.rs and the parts of src/launch.rs around the waves: what `run_shared` is
given, what it refuses, how many waves it makes and which decisions each of them gets.
-/
namespace Riri

structure Dim3 where
  x : UInt32
  y : UInt32
  z : UInt32
  deriving DecidableEq, Repr

/-- Total number of elements covered by this extent. -/
def Dim3.count (d : Dim3) : UInt32 := d.x * d.y * d.z

/-- What the build makes of `u32` arithmetic that overflows: it panics, or it wraps. -/
inductive Profile where
  | checks | wraps
  deriving DecidableEq, Repr

/-- `u32` multiplication; `none` where it panics. -/
def Profile.mul : Profile → UInt32 → UInt32 → Option UInt32
  | .checks, a, b => if a.toNat * b.toNat < 2 ^ 32 then some (a * b) else none
  | .wraps, a, b => some (a * b)

/-- `Dim3::count` in a build; `none` where it panics. -/
def Dim3.countIn (profile : Profile) (d : Dim3) : Option UInt32 :=
  (profile.mul d.x d.y).bind fun plane => profile.mul plane d.z

/-- `Dim3::from_linear`, `none` where it panics: a division by zero, or the product of its last
line. -/
def Dim3.fromLinear (profile : Profile) (i : UInt32) (extent : Dim3) : Option Dim3 :=
  if extent.x = 0 ∨ extent.y = 0 then none
  else (profile.mul extent.x extent.y).bind fun plane =>
    if plane = 0 then none
    else some ⟨i % extent.x, i / extent.x % extent.y, i / plane⟩

structure LaunchConfig where
  grid : Dim3
  block : Dim3
  seed : UInt64
  warpSize : UInt32
  /-- `none` means all of them. -/
  residentBlocks : Option UInt32
  deriving DecidableEq, Repr

namespace LaunchConfig

variable (config : LaunchConfig)

def blocks : Nat := config.grid.count.toNat

def threadsPerBlock : Nat := config.block.count.toNat

/-- `resident_blocks.unwrap_or(blocks).clamp(1, blocks)`. -/
def resident : Nat :=
  max 1 (min ((config.residentBlocks.map UInt32.toNat).getD config.blocks) config.blocks)

/-- `u32::is_power_of_two`. -/
def powerOfTwo (lanes : UInt32) : Prop := ∃ k < 32, lanes.toNat = 2 ^ k

instance (lanes : UInt32) : Decidable (powerOfTwo lanes) :=
  inferInstanceAs (Decidable (∃ k < 32, lanes.toNat = 2 ^ k))

/-- The checks of `run_shared` in its order; `none` where it panics. -/
def checked : Option Config :=
  if nonempty : 0 < config.blocks ∧ 0 < config.threadsPerBlock then
    if lanes : powerOfTwo config.warpSize ∧ config.warpSize.toNat ≤ 32 then
      if total : config.blocks * config.threadsPerBlock < 2 ^ 32 then
        if wave : config.resident * config.threadsPerBlock < 2 ^ 32 ∧
            config.resident * config.threadsPerBlock ≤ MAX_THREADS then
          some {
            blocks := config.blocks
            threadsPerBlock := config.threadsPerBlock
            warpSize := config.warpSize.toNat
            residentBlocks := config.resident
            blocks_pos := nonempty.1
            threads_pos := nonempty.2
            lanes_pos := by
              obtain ⟨⟨k, -, power⟩, -⟩ := lanes
              rw [power]
              exact Nat.two_pow_pos k
            lanes_le := lanes.2
            resident_pos := Nat.le_max_left ..
            resident_le := Nat.max_le.mpr ⟨nonempty.1, Nat.min_le_right ..⟩
            total_lt := total
            fits := wave.2 }
        else none
      else none
    else none
  else none

/-- What `run_shared` goes on with in a build; `none` where it panics. -/
def admitted (profile : Profile) : Option Config :=
  (config.grid.countIn profile).bind fun _ =>
    (config.block.countIn profile).bind fun _ => config.checked

/-- A checked launch has the sizes it was asked for. -/
theorem sizes_of_checked {config : LaunchConfig} {c : Config} (accepted : config.checked = some c) :
    c.blocks = config.blocks ∧ c.threadsPerBlock = config.threadsPerBlock ∧
      c.residentBlocks = config.resident ∧ c.warpSize = config.warpSize.toNat := by
  unfold checked at accepted
  repeat' split at accepted
  all_goals cases accepted
  exact ⟨rfl, rfl, rfl, rfl⟩

/-- `blocks.div_ceil(resident)`. -/
def waves : Nat := (config.blocks + config.resident - 1) / config.resident

/-- Where each wave's decisions come from: the first wave takes what the launch was given,
and every later one a generator of its own. -/
def choicesOf (choices : Choices) (wave : Nat) : Choices :=
  if wave = 0 then choices else .random ⟨config.seed + UInt64.ofNat wave⟩

end LaunchConfig

end Riri
