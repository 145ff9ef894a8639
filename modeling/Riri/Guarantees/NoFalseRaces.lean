import Riri.Run.Barriers
import Riri.Run.Cells
import Riri.Run.Programs

/-!
# No false races

Whenever a race is raised, its two accesses are real, by different threads, not both atomic,
and the first does not happen before the second. The clocks being complete, an access that
happens before another has reached the other's clock by the time the two are compared.
-/
namespace Riri.Launch

variable {V : Type} [BEq V] {env : Env V}

/-- What a label that touched an element says of its thread and its operation. -/
theorem touched_at {n : Nat} {l : Label V} {cx : Ctx} {e : Buf × Nat} {acc : Access}
    (labelled : (run env).label n = some l) (touched : l.touched? = some (cx, e, acc)) :
    acc.block = cx.block ∧ acc.thread = cx.thread ∧
      key acc.block acc.thread = keyOf env cx.gid ∧
      (events env n).thread = some cx.gid ∧ VectorClock.NthOp (events env) cx.gid acc.seq n := by
  obtain ⟨slot, -, rfl, -, -, resumed⟩ := label_slot labelled (Label.ctx?_of_touched touched)
  obtain ⟨block, thread, seq, take, publish, event⟩ := resumed.touched touched
  have op : events env n = .op (((run env).state n).ctx env slot).gid take publish := by
    rw [events_of_label labelled, event]
  refine ⟨block, thread, by rw [block, thread, ctx_key], by rw [op]; rfl, ⟨take, publish, op⟩, ?_⟩
  rw [← view_run]
  exact seq.symm

/-- An access that happens before a later event is in that event's clock. -/
theorem seq_le_of_happensBefore {i j : Nat} {l : Label V} {cx : Ctx} {e : Buf × Nat} {acc : Access}
    {t : Nat} (labelled : (run env).label i = some l) (touched : l.touched? = some (cx, e, acc))
    (before : VectorClock.HappensBefore (events env) i j)
    (thread : (events env j).thread = some t) :
    acc.seq ≤ (((run env).state (j + 1)).sync.clock t).get (key acc.block acc.thread) := by
  obtain ⟨-, -, packed, own, op⟩ := touched_at labelled touched
  have covered := VectorClock.clock_le_of_reaches (barriers env)
    (Relation.TransGen.to_reflTransGen before) own thread cx.gid
  rw [packed]
  calc acc.seq ≤ (VectorClock.clocks (events env) (i + 1)).clock cx.gid cx.gid := op.le_clock
    _ ≤ (VectorClock.clocks (events env) (j + 1)).clock t cx.gid := covered
    _ = _ := by rw [← view_run]; rfl

/-- No false races: the first access of a raised race really was made earlier to the same
element by a different thread, the two are not both atomic, and the first does not happen
before the second. -/
theorem dataRace_real (env : Env V) {n : Nat} {sp : MemSpace} {ix : Nat} {first second : Access}
    (raised : .dataRace sp ix first second ∈ ((run env).state n).raised) :
    ∃ i j buf li lj cx cy, i < j ∧ j < n ∧ space env buf = sp ∧
      (run env).label i = some li ∧ li.touched? = some (cx, (buf, ix), first) ∧
      (run env).label j = some lj ∧ lj.touched? = some (cy, (buf, ix), second) ∧
      first.block = cx.block ∧ first.thread = cx.thread ∧
      second.block = cy.block ∧ second.thread = cy.thread ∧
      ¬ (cx.block = cy.block ∧ cx.thread = cy.thread) ∧
      ¬ (first.kind = .atomic ∧ second.kind = .atomic) ∧
      ¬ VectorClock.HappensBefore (events env) i j := by
  obtain ⟨j, lt, cy, m, old, labelled, rfl, rfl⟩ := raised_iff.mp raised
  have touched : (Label.access cy m second old (some first)).touched? =
      some (cy, (m.buf, m.index), second) := rfl
  obtain ⟨slot, -, here, -, -, resumed⟩ := label_slot labelled rfl
  obtain ⟨kept, races⟩ := Cell.conflict_kept resumed.conflict.symm
  obtain ⟨i, before, li, cx, labelled', touched'⟩ :=
    kept_accessed (e := (m.buf, m.index)) kept
  obtain ⟨block, thread, -⟩ := touched_at labelled' touched'
  obtain ⟨block', thread', -, own, -⟩ := touched_at labelled touched
  obtain ⟨⟨apart, -⟩, atomics, unseen⟩ := (concurrent_iff first second _).mp races
  refine ⟨i, j, m.buf, li, _, cx, cy, before, lt, rfl, labelled', touched', labelled, touched,
    block, thread, block', thread', ?_, atomics, fun ordered => ?_⟩
  · rwa [← block, ← thread, ← block', ← thread']
  · have seen := seq_le_of_happensBefore labelled' touched' ordered own
    omega

def colliding : Env Nat :=
  trial .twoThreads
    (fun thread => [.mem ⟨.global 0, 0, ⟨"kernel.rs", thread + 1, 1⟩, .write thread⟩]) [0, 0, 1, 1]

theorem dataRace_real_colliding :
    ∃ i j, i < j ∧ j < 5 ∧ ¬ VectorClock.HappensBefore (events colliding) i j := by
  have raised : .dataRace (.global "data") 0
      ⟨0, 0, 0, 0, 0, 1, .write, ⟨"kernel.rs", 1, 1⟩⟩
      ⟨0, 1, 0, 0, 0, 1, .write, ⟨"kernel.rs", 2, 1⟩⟩ ∈ ((run colliding).state 5).raised := by
    set_option maxRecDepth 100000 in decide +kernel
  obtain ⟨i, j, _, _, _, _, _, before, lt, -, -, -, -, -, -, -, -, -, -, -, unordered⟩ :=
    dataRace_real colliding raised
  exact ⟨i, j, before, lt, unordered⟩

end Riri.Launch
