import Mathlib.Data.BitVec

/-!
# Scalars of the MIR interpreter

Source: riri-mir/src/value.rs and the scalar operators of riri-mir/src/interp.rs. A `u128` and an
`i128` are 128 bits, and a cast between them changes nothing. What the compiler's own types print
for themselves is data of the type here.
-/
namespace Riri.Mir

/-- The width and signedness of an integer. -/
structure IntKind where
  bits : Nat
  signed : Bool
  deriving DecidableEq, Repr

namespace IntKind

variable (k : IntKind)

/-- Mask covering the value's width. -/
def mask : BitVec 128 := if k.bits ≥ 128 then BitVec.allOnes 128 else (1#128 <<< k.bits) - 1#128

/-- Truncates to this width, discarding anything above it. -/
def truncate (raw : BitVec 128) : BitVec 128 := raw &&& k.mask

/-- Reads the bits as a signed value, extending the sign bit. -/
def asSigned (raw : BitVec 128) : BitVec 128 :=
  let raw := k.truncate raw
  if k.bits ≥ 128 then raw
  else if raw &&& (1#128 <<< (k.bits - 1)) ≠ 0#128 then raw ||| ~~~k.mask
  else raw

/-- Whether `raw` still fits once truncated. -/
def fits (raw : BitVec 128) : Bool :=
  let truncated := k.asSigned raw
  if k.signed then truncated == raw else decide (0 ≤ raw.toInt) && k.truncate raw == raw

/-- `{:?}` of a kind. -/
def debug : String :=
  "IntKind \x7b bits: " ++ toString k.bits ++ ", signed: " ++ toString k.signed ++ " \x7d"

end IntKind

inductive Value where
  | uninit
  | int (raw : BitVec 128) (kind : IntKind)
  | bool (b : Bool)
  /-- Tuples and structs. -/
  | aggregate (parts : List Value)

namespace Value

/-- `Value::int`. -/
def ofInt (raw : BitVec 128) (kind : IntKind) : Value := .int (kind.truncate raw) kind

mutual

/-- `{:?}` of a value. -/
def debug : Value → String
  | .uninit => "Uninit"
  | .int raw kind =>
      "Int \x7b raw: " ++ toString raw.toNat ++ ", kind: " ++ kind.debug ++ " \x7d"
  | .bool b => "Bool(" ++ toString b ++ ")"
  | .aggregate parts => "Aggregate([" ++ debugParts parts ++ "])"

def debugParts : List Value → String
  | [] => ""
  | [part] => part.debug
  | part :: parts => part.debug ++ ", " ++ debugParts parts

end

def asInt : Value → Except String (BitVec 128 × IntKind)
  | .int raw kind => .ok (raw, kind)
  | other => .error ("expected an integer, found " ++ other.debug)

end Value

inductive UintTy where
  | usize | u8 | u16 | u32 | u64 | u128
  deriving DecidableEq, Repr

inductive IntTy where
  | isize | i8 | i16 | i32 | i64 | i128
  deriving DecidableEq, Repr

/-- The types the interpreter tells apart; any other is what it prints. -/
inductive Ty where
  | uint (uint : UintTy)
  | int (int : IntTy)
  | other (debug : String)

/-- `int_kind`. -/
def intKind : Ty → Option IntKind
  | .uint .usize => some ⟨64, false⟩
  | .uint .u8 => some ⟨8, false⟩
  | .uint .u16 => some ⟨16, false⟩
  | .uint .u32 => some ⟨32, false⟩
  | .uint .u64 => some ⟨64, false⟩
  | .uint .u128 => some ⟨128, false⟩
  | .int .isize => some ⟨64, true⟩
  | .int .i8 => some ⟨8, true⟩
  | .int .i16 => some ⟨16, true⟩
  | .int .i32 => some ⟨32, true⟩
  | .int .i64 => some ⟨64, true⟩
  | .int .i128 => some ⟨128, true⟩
  | .other _ => none

/-- `{:?}` of a type, where it is printed. -/
def Ty.debug : Ty → String
  | .uint _ | .int _ => ""
  | .other debug => debug

def cast (value : Value) (ty : Ty) : Except String Value :=
  match intKind ty with
  | none => .error ("cast target not supported: " ++ ty.debug)
  | some kind =>
    match value with
    | .bool b => .ok (.ofInt (if b then 1#128 else 0#128) kind)
    | .int raw source => .ok (.ofInt (if source.signed then source.asSigned raw else raw) kind)
    | other => .error ("cannot cast " ++ other.debug)

inductive UnOp where
  | not | neg | ptrMetadata
  deriving DecidableEq, Repr

def unary (op : UnOp) (value : Value) : Except String Value :=
  match op with
  | .not =>
    match value with
    | .bool b => .ok (.bool !b)
    | .int raw kind => .ok (.ofInt (~~~raw) kind)
    | other => .error ("cannot negate " ++ other.debug)
  | .neg => do
    let (raw, kind) ← value.asInt
    return .ofInt (-raw) kind
  | .ptrMetadata => .error "pointer metadata needs a memory model"

inductive BinOp where
  | add | addUnchecked | sub | subUnchecked | mul | mulUnchecked | div | rem
  | bitXor | bitAnd | bitOr | shl | shlUnchecked | shr | shrUnchecked
  | eq | lt | le | ne | ge | gt | cmp | offset
  deriving DecidableEq, Repr

/-- `{:?}` of an operator. -/
def BinOp.debug : BinOp → String
  | .add => "Add"
  | .addUnchecked => "AddUnchecked"
  | .sub => "Sub"
  | .subUnchecked => "SubUnchecked"
  | .mul => "Mul"
  | .mulUnchecked => "MulUnchecked"
  | .div => "Div"
  | .rem => "Rem"
  | .bitXor => "BitXor"
  | .bitAnd => "BitAnd"
  | .bitOr => "BitOr"
  | .shl => "Shl"
  | .shlUnchecked => "ShlUnchecked"
  | .shr => "Shr"
  | .shrUnchecked => "ShrUnchecked"
  | .eq => "Eq"
  | .lt => "Lt"
  | .le => "Le"
  | .ne => "Ne"
  | .ge => "Ge"
  | .gt => "Gt"
  | .cmp => "Cmp"
  | .offset => "Offset"

/-- Whether an unsigned operation stayed in range, checked by re-deriving it at full width and
comparing against the truncated answer. -/
def fitsUnsigned (kind : IntKind) (left right raw : BitVec 128)
    (wrapping : BitVec 128 → BitVec 128 → BitVec 128) : Bool :=
  if kind.bits ≥ 128 then true
  else
    let wide := wrapping left right
    wide == kind.truncate raw && wide.ule kind.mask

/-- Arithmetic plus the overflow flag `CheckedBinaryOp` wants. -/
def checked (kind : IntKind) (signedResult left right : BitVec 128)
    (wrapping : BitVec 128 → BitVec 128 → BitVec 128) : Value × Bool :=
  let raw := wrapping left right
  let overflowed :=
    if kind.signed then !kind.fits signedResult
    else kind.truncate raw != raw || !fitsUnsigned kind left right raw wrapping
  (.ofInt raw kind, overflowed)

/-- `binary` on two bools. -/
def binaryBools (op : BinOp) (a b : Bool) : Except String (Value × Bool) :=
  match op with
  | .eq => .ok (.bool (a == b), false)
  | .ne => .ok (.bool (a != b), false)
  | .bitAnd => .ok (.bool (a && b), false)
  | .bitOr => .ok (.bool (a || b), false)
  | .bitXor => .ok (.bool (a != b), false)
  | other => .error (other.debug ++ " is not defined on bools")

/-- Whether an operator takes its amount from a possibly different type. -/
def BinOp.shift : BinOp → Bool
  | .shl | .shlUnchecked | .shr | .shrUnchecked => true
  | _ => false

/-- `binary` on two integers of kinds it takes together. -/
def binaryInts (op : BinOp) (kind : IntKind) (left right : BitVec 128) :
    Except String (Value × Bool) :=
  let a := kind.asSigned left
  let b := kind.asSigned right
  let order := if kind.signed then compare a.toInt b.toInt else compare left.toNat right.toNat
  let amount := right % BitVec.ofNat 128 kind.bits
  let tooFar := (BitVec.ofNat 128 kind.bits).ule right
  match op with
  | .add | .addUnchecked => .ok (checked kind (a + b) left right (· + ·))
  | .sub | .subUnchecked => .ok (checked kind (a - b) left right (· - ·))
  | .mul | .mulUnchecked => .ok (checked kind (a * b) left right (· * ·))
  | .div =>
    if right = 0#128 then .error "division by zero"
    else .ok (.ofInt (if kind.signed then a.sdiv b else left / right) kind, false)
  | .rem =>
    if right = 0#128 then .error "remainder by zero"
    else .ok (.ofInt (if kind.signed then a.srem b else left % right) kind, false)
  | .bitAnd => .ok (.ofInt (left &&& right) kind, false)
  | .bitOr => .ok (.ofInt (left ||| right) kind, false)
  | .bitXor => .ok (.ofInt (left ^^^ right) kind, false)
  | .shl | .shlUnchecked => .ok (.ofInt (left <<< amount.toNat) kind, tooFar)
  | .shr | .shrUnchecked =>
    .ok (.ofInt (if kind.signed then a.sshiftRight amount.toNat else left >>> amount.toNat) kind,
      tooFar)
  | .eq => .ok (.bool (left == right), false)
  | .ne => .ok (.bool (left != right), false)
  | .lt => .ok (.bool (order == .lt), false)
  | .gt => .ok (.bool (order == .gt), false)
  | .le => .ok (.bool !(order == .gt), false)
  | .ge => .ok (.bool !(order == .lt), false)
  | other => .error ("operator not interpreted yet: " ++ other.debug)

/-- Applies a binary operator, returning the value and whether it overflowed. -/
def binary (op : BinOp) (lhs rhs : Value) : Except String (Value × Bool) :=
  match lhs, rhs with
  | .bool a, .bool b => binaryBools op a b
  | lhs, rhs => do
    let (left, kind) ← lhs.asInt
    let (right, rightKind) ← rhs.asInt
    if !op.shift && kind != rightKind then
      throw ("mismatched operand types: " ++ kind.debug ++ " and " ++ rightKind.debug)
    else binaryInts op kind left right

end Riri.Mir
