import Riri.Source.Borrow

/-!
# Poisoned locks

Source: the `Mutex` of src/mem.rs under the panics that `run_thread` of src/launch.rs catches. A
kernel that panics, traps or finds the launch aborted unwinds its frames. A guard dropped on the
way poisons its mutex, and whoever takes a poisoned lock panics in `unwrap`.
-/
namespace Riri

variable {V : Type}

/-- A launch with its borrows, and which mutexes are poisoned. -/
structure Hosted (V : Type) where
  run : Borrowing V
  poisoned : Buf → Bool

/-- What `unwrap` says of a poisoned lock. -/
def poisonMessage : String := "called `Result::unwrap()` on an `Err` value: PoisonError \x7b .. \x7d"

namespace Hosted

/-- The drop of a guard by a thread that unwinds or does not. -/
def dropGuard (unwinding : Bool) (poisoned : Buf → Bool) (buf : Buf) : Buf → Bool :=
  Function.update poisoned buf (poisoned buf || unwinding)

/-- The threads that hold these guards unwind. -/
def unwind (poisoned : Buf → Bool) (guards : List ElemMut) : Buf → Bool :=
  guards.foldl (fun poisoned e => dropGuard true poisoned e.buf) poisoned

/-- `GlobalBuf::len`. -/
def len (s : Hosted V) (id : Nat) : Option Nat :=
  if s.poisoned (.global id) then none else some (s.run.launch.mem (.global id)).len

/-- `GlobalBuf::to_vec`. -/
def toVec (s : Hosted V) (id : Nat) : Option (List V) :=
  if s.poisoned (.global id) then none
  else
    let inst := s.run.launch.mem (.global id)
    some ((List.range inst.len).map inst.data)

variable [BEq V] (env : Env V) (kernel : BorrowKernel V)

/-- The buffer whose lock the thread in `slot` takes next. -/
def takes (s : Hosted V) (slot : Nat) : Option Buf :=
  match (s.run.launch.threads slot).pc with
  | .ready => match s.run.nextOp env kernel slot with
    | .len buf => some buf
    | _ => none
  | .atAccess m => some m.buf
  | _ => none

/-- The thread in `slot` is about to return from its kernel, which drops what it holds. -/
def returning (s : Hosted V) (slot : Nat) : Bool :=
  match (s.run.launch.threads slot).pc, s.run.nextOp env kernel slot with
  | .ready, .op .ret => true
  | _, _ => false

/-- The guards of the threads that unwind when the step of `slot` stops the launch. -/
def unwound (s : Hosted V) (slot : Nat) : List ElemMut :=
  if s.returning env kernel slot then s.run.guards.filter fun e => e.slot ≠ slot
  else s.run.guards

/-- The mutexes after what `checked_access` does with its own guard: an index out of range drops
it before the trap, arithmetic that panics unwinds through it. -/
def accessed (s : Hosted V) (slot : Nat) : Buf → Bool :=
  match (s.run.launch.threads slot).pc with
  | .atAccess m =>
      match (s.run.launch.checkedAccess env (s.run.launch.ctx env slot) m).1 with
      | .fault _ _ _ outOfBounds => dropGuard (!outOfBounds) s.poisoned m.buf
      | _ => s.poisoned
  | _ => s.poisoned

/-- One step of the launch, which ends in `run'`. -/
def steps (s : Hosted V) (slot : Nat) (run' : Borrowing V) : Hosted V where
  run := run'
  poisoned :=
    if run'.launch.sched.aborted then unwind (s.accessed env slot) (s.unwound env kernel slot)
    else s.accessed env slot

/-- The thread in `slot` panics on a poisoned lock. -/
def refused (s : Hosted V) (slot : Nat) : Hosted V :=
  let cx := s.run.launch.ctx env slot
  { run := { s.run with launch := s.run.launch.trap (.kernelPanic cx.block cx.thread poisonMessage) }
    poisoned := unwind s.poisoned s.run.guards }

/-- The thread in `slot` comes to a poisoned lock that nobody holds. -/
def refuses (s : Hosted V) (slot : Nat) : Bool :=
  (s.takes env kernel slot).any fun buf => !s.run.locked buf && s.poisoned buf

/-- One step; `none` once the launch is over or wedged. -/
def step (s : Hosted V) : Option (Hosted V) :=
  if s.run.launch.sched.aborted then none
  else match s.run.launch.sched.current with
    | some slot =>
        if s.refuses env kernel slot then some (s.refused env slot)
        else (s.run.step env kernel).map fun run' => s.steps env kernel slot run'
    | none => (s.run.step env kernel).map fun run' => { s with run := run' }

/-- The run of a kernel over buffers some of whose mutexes may be poisoned. -/
def launch (poisoned : Buf → Bool) : Machine (Hosted V) Unit where
  init := ⟨⟨Launch.init env, []⟩, poisoned⟩
  next := fun s => (s.step env kernel).map fun s' => ((), s')

end Hosted

end Riri
