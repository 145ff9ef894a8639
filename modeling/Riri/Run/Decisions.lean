import Riri.Sched.Decisions
import Riri.Run.Timeline

/-!
# Launches that differ in their decisions' source

A step consults the source of decisions only inside the scheduler. Two launches that differ
in that source alone take the same step as long as their schedulers pick alike.
-/
namespace Riri

open Scheduler (Alike)

variable {V : Type}

/-- The same launch with other sources of decisions. -/
def Env.choosing (env : Env V) (choicesOf : Nat → Choices) : Env V :=
  { env with choicesOf := choicesOf }

namespace Launch

def choosing (s : Launch V) (choices : Choices) : Launch V :=
  { s with sched := s.sched.choosing choices }

/-- A step ends alike under the second source. -/
def StepsAlike {g : Geometry} (alike : Alike g) (r r' : Label V × Launch V) : Prop :=
  ∃ c', r' = (r.1, r.2.choosing c') ∧ alike.corresponds r.2.sched.trace c'

variable [BEq V] {env : Env V} {other : Nat → Choices} {s : Launch V} {c : Choices}
  (alike : Alike (s.geometry env)) (corresponds : alike.corresponds s.sched.trace c)
include corresponds

omit [BEq V] in
theorem dispatch_choosing {cx : Ctx} {op : Op V}
    (about : alike.about (s.dispatch env cx op).2.sched.trace
      (s.dispatch env cx op).2.sched.traceComplete) :
    StepsAlike alike (s.dispatch env cx op)
      ((s.choosing c).dispatch (env.choosing other) cx op) := by
  cases op with
  | ret =>
    obtain ⟨c', same, kept⟩ := alike.finish cx.slot s.sched c corresponds about
    exact ⟨c', Prod.ext rfl (congrArg (s.choosing c).withSched same), kept⟩
  | panic message => exact ⟨c, rfl, corresponds⟩
  | fence ordering => exact ⟨c, rfl, corresponds⟩
  | syncThreads loc =>
    let joined : Launch V := { s with sync := s.sync.barrierArrive cx.gid cx.block }
    obtain ⟨c', same, kept⟩ := alike.barrier cx.slot loc s.sched c corresponds about
    exact ⟨c', Prod.ext rfl (congrArg ((joined.setPc cx.slot
      (.atBarrier (s.sched.barrierGen cx.waveBlock))).choosing c).withSched same), kept⟩
  | mem m =>
    obtain ⟨c', same, kept⟩ := alike.handOff s.sched c corresponds about
    exact ⟨c', Prod.ext rfl
      (congrArg ((s.setPc cx.slot (.atAccess m)).choosing c).withSched same), kept⟩
  | warp collective =>
    obtain ⟨c', same, kept⟩ := alike.handOff s.sched c corresponds about
    exact ⟨c', Prod.ext rfl
      (congrArg ((s.setPc cx.slot (.atCollective collective)).choosing c).withSched same), kept⟩

/-- An access reads nothing of the source of decisions. -/
theorem checkedAccess_choosing (cx : Ctx) (m : MemOp V) :
    StepsAlike alike (s.checkedAccess env cx m)
      ((s.choosing c).checkedAccess (env.choosing other) cx m) := by
  have same_mem : ((s.choosing c).mem m.buf).forLaunch m.buf (env.choosing other).id =
      (s.mem m.buf).forLaunch m.buf env.id := rfl
  unfold checkedAccess
  by_cases outside : m.index ≥ ((s.mem m.buf).forLaunch m.buf env.id).len
  · simp only [same_mem, outside, if_true]
    split <;> exact ⟨c, rfl, corresponds⟩
  · simp only [same_mem, outside, if_false]
    cases m.act.update (((s.mem m.buf).forLaunch m.buf env.id).data m.index) <;>
      exact ⟨c, rfl, corresponds⟩

omit [BEq V] in
theorem publish_choosing {cx : Ctx} {collective : Collective V}
    (about : alike.about (s.publish env cx collective).2.sched.trace
      (s.publish env cx collective).2.sched.traceComplete) :
    StepsAlike alike (s.publish env cx collective)
      ((s.choosing c).publish (env.choosing other) cx collective) := by
  have same_geometry : (s.choosing c).geometry (env.choosing other) = s.geometry env := rfl
  unfold publish at about ⊢
  simp only [same_geometry]
  cases checked : collective.laneProblem ((s.geometry env).validMask cx.warp) cx.lane with
  | some problem => exact ⟨c, rfl, corresponds⟩
  | none =>
    simp only [checked] at about
    obtain ⟨c', same, kept⟩ :=
      alike.warpRendezvous cx.slot (collective.wait .arrive) s.sched c corresponds about
    exact ⟨c', Prod.ext rfl (congrArg (((s.slotted env cx collective).setPc cx.slot
      (.arrived collective)).choosing c).withSched same), kept⟩

omit [BEq V] in
theorem exchange_choosing {cx : Ctx} {collective : Collective V}
    (about : alike.about (s.exchange env cx collective).2.sched.trace
      (s.exchange env cx collective).2.sched.traceComplete) :
    StepsAlike alike (s.exchange env cx collective)
      ((s.choosing c).exchange (env.choosing other) cx collective) := by
  have same_answer : collective.combine (env.choosing other).typeTag
      (env.choosing other).config.warpSize cx.lane
      ((s.choosing c).slots (warpIndex (env.choosing other) cx)) =
    collective.combine env.typeTag env.config.warpSize cx.lane (s.slots (warpIndex env cx)) := rfl
  unfold exchange at about ⊢
  rw [same_answer]
  cases combined : collective.combine env.typeTag env.config.warpSize cx.lane
      (s.slots (warpIndex env cx)) with
  | error message => exact ⟨c, rfl, corresponds⟩
  | ok result =>
    simp only [combined] at about
    obtain ⟨c', same, kept⟩ :=
      alike.warpRendezvous cx.slot (collective.wait .depart) s.sched c corresponds about
    exact ⟨c', Prod.ext rfl (congrArg (((s.report (laneReports cx collective result.2)).setPc
      cx.slot (.departed collective result.1)).choosing c).withSched same), kept⟩

/-- The thread that holds the turn does the same. -/
theorem resume_choosing {slot : Nat}
    (about : alike.about (s.resume env slot).2.sched.trace
      (s.resume env slot).2.sched.traceComplete) :
    StepsAlike alike (s.resume env slot) ((s.choosing c).resume (env.choosing other) slot) := by
  have same : ((s.choosing c).threads slot).pc = (s.threads slot).pc := rfl
  cases pc : (s.threads slot).pc <;> rw [pc] at same <;> simp only [resume, same, pc] at about ⊢
  case ready => exact dispatch_choosing alike corresponds about
  case atAccess m => exact checkedAccess_choosing alike corresponds _ m
  case atBarrier gen => exact ⟨c, rfl, corresponds⟩
  case atCollective c => exact publish_choosing alike corresponds about
  case arrived c => exact exchange_choosing alike corresponds about
  case departed _ answer => exact ⟨c, rfl, corresponds⟩

/-! ### The sources of later waves -/

section

omit corresponds

/-- A thread's step does not consult the sources of later waves. -/
theorem step_of_current {env : Env V} {other : Nat → Choices} {s : Launch V} {slot : Nat}
    (current : s.sched.current = some slot) : s.step (env.choosing other) = s.step env := by
  unfold step
  rw [current]
  rfl

/-- Nor does the end of the launch depend on them. -/
theorem step_of_over {env : Env V} {other : Nat → Choices} {s : Launch V} (ended : s.step env = none) :
    s.step (env.choosing other) = none := by
  cases current : s.sched.current with
  | some slot => exact (step_of_current current).trans ended
  | none =>
    cases stopped : s.sched.aborted with
    | true => simp [step, stopped]
    | false =>
      simp only [step, stopped, current, Bool.false_eq_true, if_false, ite_eq_right_iff,
        reduceCtorEq, imp_false] at ended ⊢
      exact ended

end

end Launch

end Riri
