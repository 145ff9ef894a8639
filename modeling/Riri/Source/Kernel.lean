import Riri.Source.Diag
import Riri.Source.Sync

/-!
# What a kernel can ask for

The instrumented surface of src/mem.rs, src/ctx.rs, src/warp.rs and src/oxide.rs as data: an
operation a simulated thread performs, and the answer it gets back. A kernel is a function
from a thread's identity and the answers it has had so far to its next operation, which is
every kernel whose state lives in Riri. `V` is the element and exchange type.
-/
namespace Riri

/-- An instrumented array: a global buffer by identity, or a `__shared__` array by block
and name. -/
inductive Buf where
  | global (id : Nat)
  | shared (block : Nat) (name : String)
  deriving DecidableEq, Repr

/-- What an operation returns to the kernel. -/
inductive Resp (V : Type) where
  | unit
  | val (v : V)
  | exchanged (previous : Except V V)
  | elem (borrowed : Option V)
  | lanes (mask : Mask)
  | flag (b : Bool)

/-- The atomics of src/mem.rs. Minimum, maximum, addition and subtraction are `fetch`; a
`fetch` that fails is arithmetic that panics, with its message. -/
inductive AtomicOp (V : Type) where
  | load
  | store (value : V)
  | swap (value : V)
  | compareExchange (current new : V)
  | fetch (f : V → Except String V)

namespace AtomicOp

variable {V : Type}

/-- `atomic_min_at`. -/
def min [LT V] [DecidableLT V] (value : V) : AtomicOp V :=
  .fetch fun previous => .ok (if value < previous then value else previous)

/-- `atomic_max_at`. -/
def max [LT V] [DecidableLT V] (value : V) : AtomicOp V :=
  .fetch fun previous => .ok (if previous < value then value else previous)

/-- The closure given to `atomic_rmw`: what the element holds next, and what the caller
gets. -/
def update [BEq V] : AtomicOp V → V → Except String (V × Resp V)
  | .load, v => .ok (v, .val v)
  | .store value, _ => .ok (value, .unit)
  | .swap value, v => .ok (value, .val v)
  | .compareExchange current new, v =>
      if v == current then .ok (new, .exchanged (.ok v)) else .ok (v, .exchanged (.error v))
  | .fetch f, v => (f v).map fun w => (w, .val v)

/-- Whether the operation stores when the element holds `v`: everything but a load and a
failed exchange. -/
def stores [BEq V] : AtomicOp V → V → Bool
  | .load, _ => false
  | .compareExchange current _, v => v == current
  | .store _, _ | .swap _, _ | .fetch _, _ => true

/-- Whether the operation reads what the element held: everything but a plain store. -/
def reads : AtomicOp V → Bool
  | .store _ => false
  | .load | .swap _ | .compareExchange _ _ | .fetch _ => true

end AtomicOp

/-- The accesses of src/mem.rs. A borrowed element is written back before the borrowing
thread's next operation. -/
inductive MemAct (V : Type) where
  | read
  | write (value : V)
  | atomic (ordering : Ordering) (op : AtomicOp V)
  | elemMut (checked : Bool) (f : V → V)

namespace MemAct

variable {V : Type}

def kind : MemAct V → AccessKind
  | .read => .read
  | .write _ | .elemMut _ _ => .write
  | .atomic _ _ => .atomic

def ordering : MemAct V → Option Ordering
  | .atomic ordering _ => some ordering
  | .read | .write _ | .elemMut _ _ => none

/-- The update `checked_access` runs while the element is held. -/
def update [BEq V] : MemAct V → V → Except String (V × Resp V)
  | .read, v => .ok (v, .val v)
  | .write value, _ => .ok (value, .unit)
  | .atomic _ op, v => op.update v
  | .elemMut _ f, v => .ok (f v, .elem (some v))

/-- Whether the operation stores when the element holds `v`. -/
def stores [BEq V] : MemAct V → V → Bool
  | .read, _ => false
  | .write _, _ | .elemMut _ _, _ => true
  | .atomic _ op, v => op.stores v

/-- Whether the operation reads what the element held. -/
def reads : MemAct V → Bool
  | .read => true
  | .write _ | .elemMut _ _ => false
  | .atomic _ op => op.reads

end MemAct

structure MemOp (V : Type) where
  buf : Buf
  index : Nat
  loc : Location
  act : MemAct V

/-- How a vote reduces its ballot. -/
inductive Vote where
  | ballot | any | all
  deriving DecidableEq, Repr

/-- The collectives of src/warp.rs; `shim` marks the unsuffixed votes of src/oxide.rs,
which differ in the name they report. -/
inductive Exchange (V : Type) where
  | shfl (srcLane : Nat) (value : V)
  | shflUp (delta : Nat) (value : V)
  | shflDown (delta : Nat) (value : V)
  | shflXor (laneMask : Nat) (value : V)
  | vote (shim : Bool) (how : Vote) (pred : Bool)
  | syncWarp
  deriving DecidableEq

def Exchange.op {V : Type} : Exchange V → WarpOp
  | .shfl _ _ => .shflSync
  | .shflUp _ _ => .shflUpSync
  | .shflDown _ _ => .shflDownSync
  | .shflXor _ _ => .shflXorSync
  | .vote false .ballot _ => .ballotSync
  | .vote false .any _ => .anySync
  | .vote false .all _ => .allSync
  | .vote true .ballot _ => .oxideBallot
  | .vote true .any _ => .oxideAny
  | .vote true .all _ => .oxideAll
  | .syncWarp => .syncWarp

structure Collective (V : Type) where
  mask : Mask
  loc : Location
  exchange : Exchange V
  deriving DecidableEq

inductive Op (V : Type) where
  | ret
  | panic (message : String)
  | fence (ordering : Ordering)
  | syncThreads (loc : Location)
  | mem (m : MemOp V)
  | warp (c : Collective V)

/-- Block, thread, and the answers so far, to the next operation. -/
abbrev Kernel (V : Type) := Nat → Nat → List (Resp V) → Op V

end Riri
