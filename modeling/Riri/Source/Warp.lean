import Riri.Source.Kernel
import Riri.Source.Sched

/-!
# Warp collectives

Source: src/warp.rs. What a lane publishes, what it reads back between the two halves of a
collective, and the lane errors. A `Box<dyn Any>` is a value with a type tag; a shuffle
downcasts to the type of the caller's own value.
-/
namespace Riri

variable {V : Type}

/-- What lies in an exchange slot. -/
inductive SlotValue (V : Type) where
  | value (v : V)
  | pred (b : Bool)
  | unit

/-- What a lane publishes before it parks. -/
def Exchange.publishes : Exchange V → SlotValue V
  | .shfl _ v | .shflUp _ v | .shflDown _ v | .shflXor _ v => .value v
  | .vote _ _ b => .pred b
  | .syncWarp => .unit

/-- The lane a shuffle reads from; `none` when it reaches past the end of the warp. -/
def Exchange.sourceLane (warpSize lane : Nat) : Exchange V → Option Nat
  | .shfl srcLane _ => some (srcLane % warpSize)
  | .shflUp delta _ => if delta ≤ lane then some (lane - delta) else none
  | .shflDown delta _ => (some (lane + delta)).filter fun s => s < warpSize
  | .shflXor laneMask _ => (some (lane ^^^ laneMask)).filter fun s => s < warpSize
  | .vote _ _ _ | .syncWarp => none

abbrev Slots (V : Type) := Nat → Option (SlotValue V)

def missingMessage (op : WarpOp) (lane : Nat) : String :=
  s!"riri: lane {lane} published no value to `{op.name}`"

def mistypedMessage (op : WarpOp) : String :=
  s!"riri: `{op.name}` called with different value types on different lanes"

/-- `Lanes::get` at the type of `own`. -/
def lanesGet (typeTag : V → Nat) (op : WarpOp) (slots : Slots V) (own : V) (lane : Nat) :
    Except String V :=
  match slots lane with
  | none => .error (missingMessage op lane)
  | some (.value v) => if typeTag v = typeTag own then .ok v else .error (mistypedMessage op)
  | some _ => .error (mistypedMessage op)

/-- `Lanes::get` at `bool`. -/
def lanesGetBool (op : WarpOp) (slots : Slots V) (lane : Nat) : Except String Bool :=
  match slots lane with
  | none => .error (missingMessage op lane)
  | some (.pred b) => .ok b
  | some _ => .error (mistypedMessage op)

/-- The bits `ballot` collects from the member lanes among `lanes`, onto `acc`. -/
def ballotFrom (op : WarpOp) (mask : Mask) (slots : Slots V) :
    List Nat → Mask → Except String Mask
  | [], acc => .ok acc
  | lane :: rest, acc =>
      if mask.names lane then
        match lanesGetBool op slots lane with
        | .error message => .error message
        | .ok b => ballotFrom op mask slots rest (if b then acc ||| (1#32 <<< lane) else acc)
      else ballotFrom op mask slots rest acc

/-- What a vote makes of its ballot. -/
def Vote.reduce (mask ballot : Mask) : Vote → Resp V
  | .ballot => .lanes ballot
  | .any => .flag (ballot != 0#32)
  | .all => .flag (ballot == mask)

/-- `shuffle`'s closure: the caller's answer, and the lane problem it reports. -/
def shuffle (typeTag : V → Nat) (op : WarpOp) (mask : Mask) (slots : Slots V) (own : V) :
    Option Nat → Except String (Resp V × List LaneProblem)
  | none => .ok (.val own, [])
  | some src =>
      if !mask.names src then .ok (.val own, [.sourceLaneNotInMask src])
      else match lanesGet typeTag op slots own src with
        | .error message => .error message
        | .ok v => .ok (.val v, [])

/-- The closure a collective runs between its two halves. An error is a kernel panic. -/
def Collective.combine (typeTag : V → Nat) (warpSize lane : Nat) (c : Collective V)
    (slots : Slots V) : Except String (Resp V × List LaneProblem) :=
  match c.exchange with
  | .shfl _ v | .shflUp _ v | .shflDown _ v | .shflXor _ v =>
      shuffle typeTag c.exchange.op c.mask slots v (c.exchange.sourceLane warpSize lane)
  | .vote _ how _ =>
      match ballotFrom c.exchange.op c.mask slots (List.range 32) 0#32 with
      | .error message => .error message
      | .ok ballot => .ok (how.reduce c.mask ballot, [])
  | .syncWarp => .ok (.unit, [])

/-- The checks before a lane parks: no lane that does not exist, and the caller itself. -/
def Collective.laneProblem (valid : Mask) (lane : Nat) (c : Collective V) : Option LaneProblem :=
  if c.mask &&& ~~~valid != 0#32 then some (.maskOutsideBlock valid)
  else if !c.mask.names lane then some .callerNotInMask
  else none

def Collective.wait (c : Collective V) (phase : Phase) : WarpWait :=
  ⟨phase, c.mask, c.loc, c.exchange.op⟩

end Riri
