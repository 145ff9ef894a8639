import Riri.Source.Kernel
import Riri.Source.Shadow

/-!
# Instrumented memory

Source: src/mem.rs. An instrumented array is its length, its elements, one shadow cell for
each, and the launch its shadow state belongs to.
-/
namespace Riri

variable {V : Type}

structure Instrumented (V : Type) where
  len : Nat
  data : Nat → V
  shadow : Nat → Cell
  launchId : Nat

namespace Instrumented

/-- `GlobalBuf::new`. -/
def ofData [Inhabited V] (data : List V) : Instrumented V :=
  ⟨data.length, fun i => data.getD i Inhabited.default, fun _ => Cell.initialised, 0⟩

/-- `GlobalBuf::uninit`, and a shared array as the first thread of a block creates it. -/
def uninit [Inhabited V] (len : Nat) : Instrumented V :=
  ⟨len, fun _ => Inhabited.default, fun _ => Cell.default, 0⟩

/-- `GlobalBuf::reset` keeps which elements are initialised, `SharedArray::reset` keeps
nothing. -/
def reset (buf : Buf) (m : Instrumented V) : Instrumented V :=
  match buf with
  | .global _ => { m with shadow := fun i => { Cell.default with init := (m.shadow i).init } }
  | .shared _ _ => { m with shadow := fun _ => Cell.default }

/-- The array as a launch sees it: reset when another launch touched it last. -/
def forLaunch (buf : Buf) (launchId : Nat) (m : Instrumented V) : Instrumented V :=
  if m.launchId ≠ launchId then { m.reset buf with launchId := launchId } else m

@[simp] theorem forLaunch_launchId (buf : Buf) (id : Nat) (m : Instrumented V) :
    (m.forLaunch buf id).launchId = id := by
  unfold forLaunch
  split
  · rfl
  next same => exact not_not.mp same

/-- An array the launch touched last is not reset. -/
theorem forLaunch_of_touched {id : Nat} {m : Instrumented V} (buf : Buf)
    (touched : m.launchId = id) : m.forLaunch buf id = m := by
  unfold forLaunch
  rw [if_neg (not_not.mpr touched)]

/-- A reset of a global buffer keeps the flags. -/
theorem forLaunch_init {buf : Buf} {id : Nat} {m : Instrumented V}
    (kept : (∃ b, buf = .global b) ∨ m.launchId = id) (i : Nat) :
    ((m.forLaunch buf id).shadow i).init = (m.shadow i).init := by
  rcases kept with ⟨b, rfl⟩ | same
  · unfold forLaunch
    split <;> rfl
  · simp [forLaunch, same]

theorem forLaunch_data (buf : Buf) (id : Nat) (m : Instrumented V) :
    (m.forLaunch buf id).data = m.data ∧ (m.forLaunch buf id).len = m.len := by
  unfold forLaunch
  split
  · cases buf <;> exact ⟨rfl, rfl⟩
  · exact ⟨rfl, rfl⟩

end Instrumented

/-- Which of the two cell updates an access makes. -/
def Cell.record (c : Cell) (acc : Access) (now : Clock) : Cell × Option Access :=
  match acc.kind with
  | .read => c.onRead acc now
  | .write | .atomic => c.onWrite acc now

/-- What an access pushes once it is done: a read of an element nothing wrote, then a race. -/
def accessReports (space : MemSpace) (index : Nat) (wasInit : Bool) (acc : Access)
    (conflict : Option Access) : List Diagnostic :=
  (if acc.kind ≠ .write ∧ !wasInit then [.uninitRead space index acc] else []) ++
    conflict.toList.map fun first => .dataRace space index first acc

/-- What one `checked_access` or `elem_mut` brings to the lock of a buffer: the launch it comes
from, what `ThreadCtx::access` returned for it, and what a release makes of the element's clock. -/
structure Call (V : Type) where
  launchId : Nat
  index : Nat
  act : MemAct V
  access : Access
  now : Clock
  release : Clock → Clock
  kind : access.kind = act.kind

/-- The cell a call leaves: the access is recorded, and an atomic also releases. -/
def Call.leaves (c : Call V) (cell : Cell) : Cell :=
  let recorded := (cell.record c.access c.now).1
  match c.act.ordering with
  | some _ => { recorded with release := c.release recorded.release }
  | none => recorded

/-- The buffer after a call that puts `new` into its element. -/
def Call.stored (c : Call V) (inst : Instrumented V) (new : V) : Instrumented V :=
  { inst with
    data := Function.update inst.data c.index new
    shadow := Function.update inst.shadow c.index (c.leaves (inst.shadow c.index)) }

/-- What a call does under the lock and reports after it. Arithmetic that panics leaves the lock
poisoned, and nobody gets the buffer again; an index out of range touches no element. -/
def Instrumented.call [BEq V] (buf : Buf) (space : MemSpace) (c : Call V) (m : Instrumented V) :
    Option (Instrumented V) × List Diagnostic :=
  let inst := m.forLaunch buf c.launchId
  if c.index ≥ inst.len then (some inst, [])
  else
    let cell := inst.shadow c.index
    match c.act.update (inst.data c.index) with
    | .error _ => (none, [])
    | .ok (new, _) =>
        (some (c.stored inst new),
          accessReports space c.index cell.init c.access (cell.record c.access c.now).2)

end Riri
