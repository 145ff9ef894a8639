import Riri.Source.Launch
import Riri.Theory.Machine

/-!
# Borrowed elements

Source: `ElemMut` and `GlobalBuf::elem_mut` of src/mem.rs, `DisjointSlice` of src/oxide.rs. The
launch here keeps a borrowed element past the operation that borrowed it: an `elemMut` returns a
guard that holds the lock of the buffer until the kernel drops it, and every other operation on
the buffer has to take that lock. A thread that waits for the lock keeps the turn, so it is stuck
until the holder gets the turn, which it cannot.
-/
namespace Riri

variable {V : Type}

/-- `ElemMut`: the lock of a buffer, and the element it was taken for. -/
structure ElemMut where
  slot : Nat
  buf : Buf
  index : Nat
  deriving DecidableEq, Repr

/-- An operation of the launch, or something a kernel does through a guard it holds. The length of
a buffer never changes, so `len` only asks for the lock. -/
inductive BorrowOp (V : Type) where
  | op (o : Op V)
  | deref (buf : Buf)
  | derefMut (buf : Buf) (value : V)
  | drop (buf : Buf)
  | len (buf : Buf)

abbrev BorrowKernel (V : Type) := Nat → Nat → List (Resp V) → BorrowOp V

/-- A launch and the guards its threads hold. -/
structure Borrowing (V : Type) where
  launch : Launch V
  guards : List ElemMut

namespace Borrowing

/-- Whether somebody holds the lock of a buffer. -/
def locked (s : Borrowing V) (buf : Buf) : Bool := s.guards.any fun e => e.buf = buf

/-- The guard through which a thread reaches a buffer. -/
def guardOf (s : Borrowing V) (slot : Nat) (buf : Buf) : Option ElemMut :=
  s.guards.find? fun e => e.slot = slot ∧ e.buf = buf

variable [BEq V] (env : Env V) (kernel : BorrowKernel V)

def nextOp (s : Borrowing V) (slot : Nat) : BorrowOp V :=
  kernel (s.launch.ctx env slot).block (s.launch.ctx env slot).thread (s.launch.threads slot).answers

/-- An operation that answers at once. -/
def answered (s : Borrowing V) (slot : Nat) (answer : Resp V) : Borrowing V :=
  { s with launch := s.launch.answer slot answer }

/-- `DerefMut`: the element changes, nothing is recorded. -/
def stored (s : Borrowing V) (e : ElemMut) (value : V) : Borrowing V :=
  let inst := s.launch.mem e.buf
  let inst := { inst with data := Function.update inst.data e.index value }
  { s with launch := { s.launch with mem := Function.update s.launch.mem e.buf inst } }

/-- A kernel that returns or panics drops what it holds. -/
def leaving (s : Borrowing V) (slot : Nat) (o : Op V) : List ElemMut :=
  match o with
  | .ret | .panic _ => s.guards.filter fun e => e.slot ≠ slot
  | _ => s.guards

/-- The guards after an access: one more if it borrowed. -/
def borrowed (s : Borrowing V) (slot : Nat) (m : MemOp V) : Label V → List ElemMut
  | .access .. => match m.act with
    | .elemMut _ _ => ⟨slot, m.buf, m.index⟩ :: s.guards
    | _ => s.guards
  | _ => s.guards

/-- A thread at the start of an operation. A guard the thread does not hold is one the borrow
checker would not let it name. -/
def dispatch (s : Borrowing V) (slot : Nat) : BorrowOp V → Option (Borrowing V)
  | .op o => some ⟨(s.launch.dispatch env (s.launch.ctx env slot) o).2, s.leaving slot o⟩
  | .deref buf => match s.guardOf slot buf with
    | some e => some (s.answered slot (.val ((s.launch.mem buf).data e.index)))
    | none => some (s.answered slot .unit)
  | .derefMut buf value => match s.guardOf slot buf with
    | some e => some ((s.stored e value).answered slot .unit)
    | none => some (s.answered slot .unit)
  | .drop buf =>
      some ({ s with guards := s.guards.filter fun e => ¬ (e.slot = slot ∧ e.buf = buf) }.answered
        slot .unit)
  | .len buf => if s.locked buf then none else some (s.answered slot .unit)

/-- What the thread in `slot` does with the turn; `none` is a wait for a lock, for good. -/
def resume (s : Borrowing V) (slot : Nat) : Option (Borrowing V) :=
  match (s.launch.threads slot).pc with
  | .ready => s.dispatch env slot (s.nextOp env kernel slot)
  | .atAccess m =>
      if s.locked m.buf then none
      else
        let (l, launch) := s.launch.checkedAccess env (s.launch.ctx env slot) m
        some ⟨launch, s.borrowed slot m l⟩
  | _ => some { s with launch := (s.launch.resume env slot).2 }

/-- One step; `none` once the launch is over or wedged. -/
def step (s : Borrowing V) : Option (Borrowing V) :=
  if s.launch.sched.aborted then none
  else match s.launch.sched.current with
    | some slot => s.resume env kernel slot
    | none => (s.launch.step env).map fun r => { s with launch := r.2 }

/-- The run of a kernel under the schedule `env` fixes. The kernel of `env` itself is not asked. -/
def run : Machine (Borrowing V) Unit where
  init := ⟨Launch.init env, []⟩
  next := fun s => (s.step env kernel).map fun s' => ((), s')

end Borrowing

end Riri
