import Riri.Source.Admission

/-!
# Thread identification

Source: the indices of src/ctx.rs and `oxide::thread` of src/oxide.rs, and the access that
`DisjointSlice::get_mut_indexed` makes. The coordinates are `none` where they panic.
-/
namespace Riri.Oxide

variable {V : Type} (profile : Profile) (config : LaunchConfig) (cx : Ctx)

/-- `ThreadCtx::thread_idx`. -/
def threadIdx : Option Dim3 := Dim3.fromLinear profile (UInt32.ofNat cx.thread) config.block

/-- `ThreadCtx::block_idx`. -/
def blockIdx : Option Dim3 := Dim3.fromLinear profile (UInt32.ofNat cx.block) config.grid

/-- `ThreadCtx::global_linear`. -/
def globalLinear : Nat := cx.gid

/-- `index_1d`, and what `get` of its witness returns. -/
def index1d : Nat := globalLinear cx

def threadIdxX : Option UInt32 := (threadIdx profile config cx).map Dim3.x

def blockIdxX : Option UInt32 := (blockIdx profile config cx).map Dim3.x

def blockDimX : UInt32 := config.block.x

/-- The borrow `get_mut_indexed` makes of the buffer behind the slice. -/
def getMutIndexed (buf : Nat) (loc : Location) (f : V → V) : MemOp V :=
  ⟨.global buf, globalLinear cx, loc, .elemMut true f⟩

end Riri.Oxide
