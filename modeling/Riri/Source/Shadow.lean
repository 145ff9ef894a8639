import Riri.Source.Diag
import Riri.Source.Sync

/-!
# Shadow cells

Source: src/shadow.rs. Per-element access history and the rule that decides whether two
recorded accesses are concurrent.
-/
namespace Riri

def MAX_READERS : Nat := 8

/-- Whether `a`, recorded earlier, is unordered with `b`, made now by a thread whose
clock is `now`. The tests come in the source's order. -/
def concurrent (a b : Access) (now : Clock) : Bool :=
  if a.block = b.block ∧ a.thread = b.thread then false
  else if a.kind = .atomic ∧ b.kind = .atomic then false
  else if now.get (key a.block a.thread) ≥ a.seq then false
  else if a.block ≠ b.block then true
  else if a.epoch ≠ b.epoch then false
  else if a.warp ≠ b.warp then true
  else a.warpEpoch = b.warpEpoch

/-- The ordering by barrier and warp epochs alone, which reads no clock. -/
def Access.unordered (a b : Access) : Prop :=
  ¬(a.block = b.block ∧ a.thread = b.thread) ∧
    (a.block ≠ b.block ∨
      (a.epoch = b.epoch ∧ (a.warp ≠ b.warp ∨ a.warpEpoch = b.warpEpoch)))

instance (a b : Access) : Decidable (a.unordered b) :=
  inferInstanceAs (Decidable (_ ∧ _))

theorem concurrent_iff (a b : Access) (now : Clock) :
    concurrent a b now = true ↔
      a.unordered b ∧ ¬(a.kind = .atomic ∧ b.kind = .atomic) ∧
        now.get (key a.block a.thread) < a.seq := by
  unfold concurrent Access.unordered
  by_cases same : a.block = b.block ∧ a.thread = b.thread
  · simp [same]
  · by_cases atomics : a.kind = .atomic ∧ b.kind = .atomic
    · simp [atomics]
    · by_cases seen : now.get (key a.block a.thread) ≥ a.seq
      · simp [same, atomics, seen, Nat.not_lt.mpr seen]
      · have unseen : now.get (key a.block a.thread) < a.seq := Nat.lt_of_not_le seen
        rw [if_neg same, if_neg atomics, if_neg seen, and_iff_left ⟨atomics, unseen⟩,
          and_iff_right same]
        by_cases block : a.block = b.block <;> by_cases epoch : a.epoch = b.epoch <;>
          by_cases warp : a.warp = b.warp <;> simp [block, epoch, warp]

/-- One element's history. -/
structure Cell where
  init : Bool
  lastWrite : Option Access
  readers : List Access
  release : Clock

namespace Cell

def default : Cell := ⟨false, none, [], ∅⟩

def initialised : Cell := { default with init := true }

/-- Records a read; also returns a concurrent earlier write, if any. -/
def onRead (c : Cell) (acc : Access) (now : Clock) : Cell × Option Access :=
  let conflict := c.lastWrite.filter fun w => concurrent w acc now
  let readers := c.readers.filter fun r => r.block ≠ acc.block ∨ r.epoch = acc.epoch
  let dup := readers.any fun r =>
    r.block = acc.block ∧ r.thread = acc.thread ∧ r.epoch = acc.epoch
  let readers := if !dup && readers.length < MAX_READERS then readers ++ [acc] else readers
  ({ c with readers := readers }, conflict)

/-- Records a write or atomic; also returns a concurrent earlier access, if any. -/
def onWrite (c : Cell) (acc : Access) (now : Clock) : Cell × Option Access :=
  let conflict := (c.lastWrite.filter fun w => concurrent w acc now).or
    (c.readers.find? fun r => concurrent r acc now)
  ({ c with lastWrite := some acc, readers := [], init := true }, conflict)

end Cell

end Riri
