import Riri.Source.Mir

/-!
# The MIR interpreter

Source: riri-mir/src/interp.rs and the conversions of riri-mir/src/value.rs. Bodies are the parts
of the compiler's MIR that the interpreter looks at. What it does not interpret is what it prints
for itself, and what the compiler's own functions return (`read_uint`, `description`) is data.
-/
namespace Riri.Mir

namespace Value

def asBool : Value → Except String Bool
  | .bool b => .ok b
  | other => .error ("expected a bool, found " ++ other.debug)

/-- The value as it would select a `SwitchInt` arm. -/
def discriminant : Value → Except String (BitVec 128)
  | .bool b => .ok (if b then 1#128 else 0#128)
  | .int raw _ => .ok raw
  | other => .error ("cannot switch on " ++ other.debug)

end Value

inductive Projection where
  | field (index : Nat)
  | other (debug : String)

/-- A local, the projections from it, and `{:?}` of their list. -/
structure Place where
  base : Nat
  projection : List Projection
  debug : String

/-- The types a constant is read at. -/
inductive ConstTy where
  | bool
  | scalar (ty : Ty)

inductive Const where
  /-- `ConstantKind::Allocated`, and what `read_uint` makes of it. -/
  | allocated (ty : ConstTy) (readUint : Except String (BitVec 128))
  | other (debug : String)

inductive Operand where
  | copy (place : Place)
  | move (place : Place)
  | constant (konst : Const)
  | runtimeChecks (overflowChecks : Bool)

inductive Rvalue where
  | use (operand : Operand)
  | binaryOp (op : BinOp) (lhs rhs : Operand)
  | checkedBinaryOp (op : BinOp) (lhs rhs : Operand)
  | unaryOp (op : UnOp) (operand : Operand)
  | cast (operand : Operand) (ty : Ty)
  | aggregate (operands : List Operand)
  | copyForDeref (place : Place)
  | other (debug : String)

inductive Statement where
  | assign (place : Place) (rvalue : Rvalue)
  | storageLive | storageDead | fakeRead | placeMention | ascribeUserType | coverage
  | constEvalCounter | nop
  | other (debug : String)

/-- What an `Assert` says: the description the compiler has for it, else what it prints. -/
structure AssertMessage where
  description : Option String
  debug : String

def AssertMessage.why (msg : AssertMessage) : String := msg.description.getD msg.debug

inductive Terminator where
  | goto (target : Nat)
  | return
  | switchInt (discr : Operand) (branches : List (BitVec 128 × Nat)) (otherwise : Nat)
  | assert (cond : Operand) (expected : Bool) (target : Nat) (msg : AssertMessage)
  | call (func : String)
  | unreachable
  | other (debug : String)

structure BasicBlock where
  statements : List Statement
  terminator : Terminator

/-- A body has a local for its return place. -/
structure Body where
  blocks : List BasicBlock
  locals : Nat
  locals_pos : 0 < locals

/-- Guards against a kernel that never terminates. -/
def STEP_LIMIT : Nat := 1000000

namespace Interp

def constant : Const → Except String Value
  | .allocated .bool readUint => do
    let raw ← readUint
    return .bool (raw != 0#128)
  | .allocated (.scalar ty) readUint =>
    match intKind ty with
    | none => .error ("constant type not supported: " ++ ty.debug)
    | some kind => do
      let raw ← readUint
      return .ofInt raw kind
  | .other debug => .error ("constant not interpreted yet: " ++ debug)

/-- One projection of `load`. -/
def project (value : Value) : Projection → Except String Value
  | .field index =>
    match value with
    | .aggregate parts =>
      match parts[index]? with
      | some part => .ok part
      | none => .error ("no field " ++ toString index)
    | other => .error ("cannot take a field of " ++ other.debug)
  | .other debug => .error ("projection not interpreted yet: " ++ debug)

def noLocal (place : Place) : String := "no local _" ++ toString place.base

def load (locals : List Value) (place : Place) : Except String Value :=
  match locals[place.base]? with
  | none => .error (noLocal place)
  | some slot => do
    let value ← place.projection.foldlM project slot
    match value with
    | .uninit => .error ("read of uninitialised _" ++ toString place.base)
    | value => return value

/-- Only one level of field projection is supported. -/
def store (locals : List Value) (place : Place) (value : Value) : Except String (List Value) :=
  match locals[place.base]? with
  | none => .error (noLocal place)
  | some slot =>
    match place.projection with
    | [] => .ok (locals.set place.base value)
    | [.field index] =>
      match slot with
      | .aggregate parts =>
        if index < parts.length then .ok (locals.set place.base (.aggregate (parts.set index value)))
        else .error ("no field " ++ toString index)
      | other => .error ("cannot assign a field of " ++ other.debug)
    | _ => .error ("projection not interpreted yet: " ++ place.debug)

def operand (locals : List Value) : Operand → Except String Value
  | .copy place | .move place => load locals place
  | .constant konst => constant konst
  | .runtimeChecks overflowChecks => .ok (.bool overflowChecks)

def rvalue (locals : List Value) : Rvalue → Except String Value
  | .use o => operand locals o
  | .binaryOp op lhs rhs => do
    let lhs ← operand locals lhs
    let rhs ← operand locals rhs
    let (value, _) ← binary op lhs rhs
    return value
  | .checkedBinaryOp op lhs rhs => do
    let lhs ← operand locals lhs
    let rhs ← operand locals rhs
    let (value, overflowed) ← binary op lhs rhs
    return .aggregate [value, .bool overflowed]
  | .unaryOp op o => do
    let value ← operand locals o
    unary op value
  | .cast o ty => do
    let value ← operand locals o
    cast value ty
  | .aggregate operands => do
    let parts ← operands.mapM (operand locals)
    return .aggregate parts
  | .copyForDeref place => load locals place
  | .other debug => .error ("rvalue not interpreted yet: " ++ debug)

def statement (locals : List Value) : Statement → Except String (List Value)
  | .assign place rv => do
    let value ← rvalue locals rv
    store locals place value
  | .storageLive | .storageDead | .fakeRead | .placeMention | .ascribeUserType | .coverage
  | .constEvalCounter | .nop => .ok locals
  | .other debug => .error ("statement not interpreted yet: " ++ debug)

/-- Where control goes from a terminator; `none` is a return. -/
def terminator (locals : List Value) : Terminator → Except String (Option Nat)
  | .goto target => .ok (some target)
  | .return => .ok none
  | .switchInt discr branches otherwise => do
    let discr ← operand locals discr
    let value ← discr.discriminant
    return some (((branches.find? fun branch => branch.1 == value).map Prod.snd).getD otherwise)
  | .assert cond expected target msg => do
    let cond ← operand locals cond
    let held ← cond.asBool
    if held != expected then .error msg.why else .ok (some target)
  | .call func => .error ("calls are not interpreted yet: " ++ func)
  | .unreachable => .error "reached unreachable"
  | .other debug => .error ("terminator not interpreted yet: " ++ debug)

/-- The statements of a block and its terminator. -/
def basicBlock (locals : List Value) (bb : BasicBlock) :
    Except String (List Value × Option Nat) := do
  let locals ← bb.statements.foldlM statement locals
  let target ← terminator locals bb.terminator
  return (locals, target)

/-- The loop of `execute` from some block on, with so many steps left of the limit. -/
def execute (body : Body) : Nat → Nat → List Value → Except String Value
  | 0, _, _ => .error ("gave up after " ++ toString STEP_LIMIT ++ " steps")
  | left + 1, block, locals =>
    match body.blocks[block]? with
    | none => .error ("jumped to bb" ++ toString block ++ ", which does not exist")
    | some bb => do
      let (locals, target) ← basicBlock locals bb
      match target with
      | none => return locals.headD .uninit
      | some block => execute body left block locals

/-- Runs a body with no arguments and returns local 0, the return place. -/
def run (body : Body) : Except String Value :=
  execute body STEP_LIMIT 0 (List.replicate body.locals .uninit)

end Interp

end Riri.Mir
