import Riri.Source.Kernel

/-!
# Atomics that calculate

Source: `atomic_add_at` and `atomic_sub_at` of src/mem.rs, which `fetch_add` and `fetch_sub` of
src/oxide.rs call, on integers of `w` bits. `T`'s own `+` and `-` are those of a build with
overflow checks.
-/
namespace Riri

variable {w : Nat}

/-- `+` of an integer type. -/
def checkedAdd (signed : Bool) (x y : BitVec w) : Except String (BitVec w) :=
  if (if signed then x.saddOverflow y else x.uaddOverflow y) then
    .error "attempt to add with overflow"
  else .ok (x + y)

/-- `-` of an integer type. -/
def checkedSub (signed : Bool) (x y : BitVec w) : Except String (BitVec w) :=
  if (if signed then x.ssubOverflow y else x.usubOverflow y) then
    .error "attempt to subtract with overflow"
  else .ok (x - y)

namespace AtomicOp

/-- `atomic_add_at`. -/
def add (signed : Bool) (value : BitVec w) : AtomicOp (BitVec w) :=
  .fetch fun previous => checkedAdd signed previous value

/-- `atomic_sub_at`. -/
def sub (signed : Bool) (value : BitVec w) : AtomicOp (BitVec w) :=
  .fetch fun previous => checkedSub signed previous value

end AtomicOp

end Riri
