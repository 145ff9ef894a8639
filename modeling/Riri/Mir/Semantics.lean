import Riri.Mir.Values
import Riri.Source.Interp
import Riri.Theory.Flowchart

/-!
# Scalar MIR over the integers

What a body means, with no bits in it: a scalar is an integer with its kind or a bool, arithmetic is
that of the integers, and what leaves a kind's range comes back modulo two to its width. What the
interpreter does not support fails with what it says of it. A place that is not set has no value,
and whatever else has no meaning here is stuck. There is no limit on the steps. The overflow flags
of the checked operators are a parameter, since the interpreter's differ from Rust's at 128 bits.
-/
namespace Riri.Mir

/-- What a value stands for. -/
inductive Datum where
  | bool (b : Bool)
  | int (z : Int) (kind : IntKind)
  | tuple (parts : List Datum)

/-- Why a body ends without returning: one of its operations panics, it uses something that is not
supported, or it means nothing. -/
inductive Fault where
  | panic (message : String)
  | unsupported (message : String)
  | stuck

/-- The locals of a body; one that is not set has no value. -/
abbrev Store := List (Option Datum)

namespace IntKind

variable (k : IntKind)

/-- The integer in range that is congruent to `z`. -/
def wrap (z : Int) : Int := if k.signed then z.bmod (2 ^ k.bits) else z % 2 ^ k.bits

/-- Whether Rust's checked operators say that `z` is out of range. -/
def overflows (z : Int) : Bool := !decide (k.Represents z)

/-- Whether the interpreter's do. It has nothing above 128 bits to tell by, so there they never
say so. -/
def overflowSeen (z : Int) : Bool := decide (k.bits ≤ 64) && k.overflows z

/-- A bitwise operator on the bits of the kind's own width. -/
def bitwise (f : BitVec k.bits → BitVec k.bits → BitVec k.bits) (a b : Int) : Int :=
  let bits := f (BitVec.ofInt k.bits a) (BitVec.ofInt k.bits b)
  if k.signed then bits.toInt else bits.toNat

/-- An amount that is none for a shift of this kind. -/
def tooFar (amount : Int) : Bool := decide (amount < 0 ∨ k.bits ≤ amount)

end IntKind

namespace Datum

def wrapped (z : Int) (k : IntKind) : Datum := .int (k.wrap z) k

/-- Operators on two bools. -/
def bools (a b : Bool) : BinOp → Except Fault (Datum × Bool)
  | .eq => .ok (.bool (a == b), false)
  | .ne | .bitXor => .ok (.bool (a != b), false)
  | .bitAnd => .ok (.bool (a && b), false)
  | .bitOr => .ok (.bool (a || b), false)
  | _ => .error .stuck

/-- Operators on integers of kind `k`; the second may be the amount of a shift. -/
def ints (flag : IntKind → Int → Bool) (k : IntKind) (a b : Int) :
    BinOp → Except Fault (Datum × Bool)
  | .add | .addUnchecked => .ok (wrapped (a + b) k, flag k (a + b))
  | .sub | .subUnchecked => .ok (wrapped (a - b) k, flag k (a - b))
  | .mul | .mulUnchecked => .ok (wrapped (a * b) k, flag k (a * b))
  | .div =>
    if b = 0 then .error (.panic "division by zero") else .ok (wrapped (a.tdiv b) k, false)
  | .rem =>
    if b = 0 then .error (.panic "remainder by zero") else .ok (wrapped (a.tmod b) k, false)
  | .bitAnd => .ok (.int (k.bitwise (· &&& ·) a b) k, false)
  | .bitOr => .ok (.int (k.bitwise (· ||| ·) a b) k, false)
  | .bitXor => .ok (.int (k.bitwise (· ^^^ ·) a b) k, false)
  | .shl | .shlUnchecked => .ok (wrapped (a * 2 ^ (b % k.bits).toNat) k, k.tooFar b)
  | .shr | .shrUnchecked => .ok (wrapped (a / 2 ^ (b % k.bits).toNat) k, k.tooFar b)
  | .eq => .ok (.bool (decide (a = b)), false)
  | .ne => .ok (.bool (decide (a ≠ b)), false)
  | .lt => .ok (.bool (decide (a < b)), false)
  | .le => .ok (.bool (decide (a ≤ b)), false)
  | .gt => .ok (.bool (decide (a > b)), false)
  | .ge => .ok (.bool (decide (a ≥ b)), false)
  | .cmp => .error (.unsupported "operator not interpreted yet: Cmp")
  | .offset => .error (.unsupported "operator not interpreted yet: Offset")

/-- A binary operator: the result, and whether it is said to have left the range. -/
def binary (flag : IntKind → Int → Bool) (op : BinOp) : Datum → Datum → Except Fault (Datum × Bool)
  | .bool a, .bool b => bools a b op
  | .int a k, .int b k' => if op.shift ∨ k = k' then ints flag k a b op else .error .stuck
  | _, _ => .error .stuck

def unary : UnOp → Datum → Except Fault Datum
  | .not, .bool b => .ok (.bool !b)
  | .not, .int z k => .ok (wrapped (-z - 1) k)
  | .neg, .int z k => .ok (wrapped (-z) k)
  | .ptrMetadata, _ => .error (.unsupported "pointer metadata needs a memory model")
  | _, _ => .error .stuck

def cast (d : Datum) (ty : Ty) : Except Fault Datum :=
  match intKind ty, d with
  | some k, .bool b => .ok (wrapped (if b then 1 else 0) k)
  | some k, .int z _ => .ok (wrapped z k)
  | some _, .tuple _ => .error .stuck
  | none, _ => .error (.unsupported ("cast target not supported: " ++ ty.debug))

def project : Datum → Projection → Except Fault Datum
  | .tuple parts, .field index => (parts[index]?).elim (.error .stuck) .ok
  | _, .field _ => .error .stuck
  | _, .other debug => .error (.unsupported ("projection not interpreted yet: " ++ debug))

/-- What selects an arm: an integer modulo two to its width. -/
def discriminant : Datum → Except Fault Int
  | .bool b => .ok (if b then 1 else 0)
  | .int z k => .ok (z % 2 ^ k.bits)
  | .tuple _ => .error .stuck

end Datum

namespace Const

/-- A constant the compiler cannot read fails with what the compiler says. -/
def meaning : Const → Except Fault Datum
  | .allocated .bool readUint => match readUint with
    | .ok raw => .ok (.bool (raw != 0#128))
    | .error why => .error (.unsupported why)
  | .allocated (.scalar ty) readUint => match intKind ty, readUint with
    | some k, .ok raw => .ok (.int (k.val raw) k)
    | some _, .error why => .error (.unsupported why)
    | none, _ => .error (.unsupported ("constant type not supported: " ++ ty.debug))
  | .other debug => .error (.unsupported ("constant not interpreted yet: " ++ debug))

end Const

namespace Store

def load (store : Store) (place : Place) : Except Fault Datum :=
  match store[place.base]? with
  | some (some d) => place.projection.foldlM Datum.project d
  | _ => .error .stuck

def assign (store : Store) (place : Place) (d : Datum) : Except Fault Store :=
  match store[place.base]?, place.projection with
  | some _, [] => .ok (store.set place.base (some d))
  | some (some (.tuple parts)), [.field index] =>
    if index < parts.length then .ok (store.set place.base (some (.tuple (parts.set index d))))
    else .error .stuck
  | none, _ | some _, [.field _] => .error .stuck
  | some _, _ => .error (.unsupported ("projection not interpreted yet: " ++ place.debug))

def operand (store : Store) : Operand → Except Fault Datum
  | .copy place | .move place => store.load place
  | .constant konst => konst.meaning
  | .runtimeChecks overflowChecks => .ok (.bool overflowChecks)

def rvalue (flag : IntKind → Int → Bool) (store : Store) : Rvalue → Except Fault Datum
  | .use o => store.operand o
  | .binaryOp op lhs rhs => do
    let lhs ← store.operand lhs
    let rhs ← store.operand rhs
    let (d, _) ← Datum.binary flag op lhs rhs
    return d
  | .checkedBinaryOp op lhs rhs => do
    let lhs ← store.operand lhs
    let rhs ← store.operand rhs
    let (d, overflowed) ← Datum.binary flag op lhs rhs
    return .tuple [d, .bool overflowed]
  | .unaryOp op o => do
    let d ← store.operand o
    Datum.unary op d
  | .cast o ty => do
    let d ← store.operand o
    d.cast ty
  | .aggregate operands => do
    let parts ← operands.mapM store.operand
    return .tuple parts
  | .copyForDeref place => store.load place
  | .other debug => .error (.unsupported ("rvalue not interpreted yet: " ++ debug))

def statement (flag : IntKind → Int → Bool) (store : Store) : Statement → Except Fault Store
  | .assign place rv => do
    let d ← store.rvalue flag rv
    store.assign place d
  | .other debug => .error (.unsupported ("statement not interpreted yet: " ++ debug))
  | _ => .ok store

def terminator (store : Store) : Terminator → Except Fault (Option Nat)
  | .goto target => .ok (some target)
  | .return => .ok none
  | .switchInt discr branches otherwise => do
    let d ← store.operand discr
    let z ← d.discriminant
    return some (((branches.find? fun branch => decide ((branch.1.toNat : Int) = z)).map
      Prod.snd).getD otherwise)
  | .assert cond expected target msg => do
    let d ← store.operand cond
    match d with
    | .bool held => if held = expected then .ok (some target) else .error (.panic msg.why)
    | _ => .error .stuck
  | .unreachable => .error (.panic "reached unreachable")
  | .call func => .error (.unsupported ("calls are not interpreted yet: " ++ func))
  | .other debug => .error (.unsupported ("terminator not interpreted yet: " ++ debug))

def basicBlock (flag : IntKind → Int → Bool) (store : Store) (bb : BasicBlock) :
    Except Fault (Store × Option Nat) := do
  let store ← bb.statements.foldlM (statement flag) store
  let target ← store.terminator bb.terminator
  return (store, target)

end Store

namespace Body

/-- What a body means under these overflow flags: where the flowchart ends that starts in its first
block with no local set. The result is the return place. -/
def meaning (flag : IntKind → Int → Bool) (body : Body) :
    Flowchart Nat Store (Option Datum) Fault where
  block := fun l store => (body.blocks[l]?).elim (.error .stuck) (store.basicBlock flag)
  result := fun store => store.headD none

def start (body : Body) : Store := List.replicate body.locals none

end Body

end Riri.Mir
