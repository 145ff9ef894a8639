import Riri.Run.Departures
import Riri.Run.Programs

/-!
# Kernels of collectives

Every thread calls collectives of its warp, one after the other, and returns. Nobody comes to a
barrier and nobody traps: the masks pass the lane checks, and a group that is let go finds in
its slots what its lanes passed, all of one type.
-/
namespace Riri.Launch

open Scheduler (Mate)

variable {V : Type}

/-- Every thread runs a fixed list of collectives, with masks of existing lanes that contain the
caller, and returns. The values passed to one operation at one place are of one type. -/
structure Conversing (env : Env V) (calls : Nat → Nat → List (Collective V)) : Prop where
  kernel : env.kernel = .ofLists fun block thread => (calls block thread).map .warp
  checked : ∀ block thread c, c ∈ calls block thread → thread < env.config.threadsPerBlock →
    c.laneProblem ((env.config.geometry 0).validMask (thread / env.config.warpSize))
      (thread % env.config.warpSize) = none
  typed : ∀ block thread thread' c c', c ∈ calls block thread → c' ∈ calls block thread' →
    c.loc = c'.loc → c.exchange.op = c'.exchange.op → ∀ v w, c.exchange.own = some v →
      c'.exchange.own = some w → env.typeTag v = env.typeTag w

variable {env : Env V} {calls : Nat → Nat → List (Collective V)} {s s' : Launch V} {i me : Nat}

def callsOf (env : Env V) (calls : Nat → Nat → List (Collective V)) (s : Launch V) (i : Nat) :
    List (Collective V) := calls (s.ctx env i).block (s.ctx env i).thread

section

variable (conversing : Conversing env calls)
include conversing

theorem Conversing.nextOp_cases (s : Launch V) (i : Nat) :
    ((callsOf env calls s i).length ≤ (s.threads i).answers.length ∧ s.nextOp env i = .ret) ∨
      ((s.threads i).answers.length < (callsOf env calls s i).length ∧
        ∃ c ∈ callsOf env calls s i, s.nextOp env i = .warp c) := by
  have next : s.nextOp env i =
      ((callsOf env calls s i).map Op.warp).getD (s.threads i).answers.length .ret := by
    simp only [nextOp, conversing.kernel, Kernel.ofLists, callsOf]
  by_cases left : (s.threads i).answers.length < (callsOf env calls s i).length
  · refine .inr ⟨left, _, List.getElem_mem left, ?_⟩
    simp [next, List.getElem?_eq_getElem left]
  · refine .inl ⟨Nat.le_of_not_lt left, ?_⟩
    simp [next, List.getElem?_eq_none (Nat.le_of_not_lt left)]

theorem Conversing.not_atBarrier (standing : Standing env s) : s.sched.status i ≠ .atBarrier := by
  intro parked
  have asked := standing.asked i
  rw [(standing.settled i).pc_of_atBarrier parked] at asked
  obtain ⟨loc, op⟩ := asked
  rcases conversing.nextOp_cases s i with ⟨-, ret⟩ | ⟨-, c, -, call⟩
  · cases op.symm.trans ret
  · cases op.symm.trans call

theorem Conversing.mem_callsOf {c : Collective V} (call : s.nextOp env i = .warp c) :
    c ∈ callsOf env calls s i := by
  rcases conversing.nextOp_cases s i with ⟨-, ret⟩ | ⟨-, c', member, call'⟩
  · cases call.symm.trans ret
  · obtain rfl := Op.warp.inj (call.symm.trans call')
    exact member

/-- The calls pass the lane checks. -/
theorem Conversing.passes {c : Collective V} (call : s.nextOp env i = .warp c) :
    c.laneProblem ((s.geometry env).validMask ((s.geometry env).warpOf i))
      ((s.geometry env).laneOf i) = none :=
  conversing.checked _ _ c (conversing.mem_callsOf call) (Nat.mod_lt _ env.config.threads_pos)

end

/-! ### Groups that have been let go -/

/-- A lane let go from the first half of a collective is there with all its mates. -/
def Gathered (env : Env V) (s : Launch V) : Prop :=
  ∀ p c, (s.threads p).pc = .arrived c → s.sched.status p = .runnable →
    ∃ given : Nat → Collective V, given p = c ∧ Exchanging env given s p ∧
      ∀ q, Mate (s.geometry env) p c.mask q →
        (given q).mask = c.mask ∧ (given q).loc = c.loc ∧ (given q).exchange.op = c.exchange.op

theorem gathered_of_joined (joined : Joined env s) : Gathered env s := by
  intro p c pc free
  let given : Nat → Collective V := fun q => ((s.threads q).pc.collective?).getD c
  have own : given p = c := by simp [given, pc, Pc.collective?]
  have mates : ∀ q, Mate (s.geometry env) p c.mask q →
      (given q).wait .depart = c.wait .depart ∧ Departing s q (given q) := by
    intro q mate
    obtain ⟨theirs, agrees, departs⟩ := joined p c (.exchanging pc free) q mate
    have same : given q = theirs := by simp [given, departs.collective]
    rw [same]
    exact ⟨agrees, departs⟩
  refine ⟨given, own, ⟨by rw [own, pc], free, fun q mate => ?_⟩, fun q mate => ?_⟩
  · rw [own] at mate
    cases (mates q mate).2 with
    | exchanging inside runs => exact .inl ⟨inside, runs⟩
    | parked answer inside waits => exact .inr ⟨answer, inside, waits⟩
  · obtain ⟨-, mask, loc, op⟩ := WarpWait.mk.inj (mates q mate).1
    exact ⟨mask, loc, op⟩

variable [BEq V]

theorem gathered_run {n : Nat} (live : Live ((run env).state n)) :
    Gathered env ((run env).state n) := gathered_of_joined (joined_run live)

/-! ### What a thread does -/

/-- A step of a thread that calls collectives and returns. -/
inductive Talks (env : Env V) (s : Launch V) (me : Nat) : Launch V → Prop
  | finish (pc : (s.threads me).pc = .ready) (op : s.nextOp env me = .ret) :
      Talks env s me (s.withSched (Scheduler.finish (s.geometry env) me s.sched))
  | call (pc : (s.threads me).pc = .ready) (c : Collective V) (op : s.nextOp env me = .warp c) :
      Talks env s me ((s.setPc me (.atCollective c)).withSched
        (Scheduler.yieldNow (s.geometry env) s.sched))
  | publish (c : Collective V) (pc : (s.threads me).pc = .atCollective c) :
      Talks env s me (((s.slotted env (s.ctx env me) c).setPc me (.arrived c)).withSched
        (Scheduler.warpRendezvous (s.geometry env) me (c.wait .arrive) s.sched))
  | exchange (c : Collective V) (pc : (s.threads me).pc = .arrived c) (answer : Resp V)
      (problems : List LaneProblem)
      (combined : c.combine env.typeTag env.config.warpSize (s.ctx env me).lane
        (s.slots (warpIndex env (s.ctx env me))) = .ok (answer, problems)) :
      Talks env s me (((s.report (laneReports (s.ctx env me) c problems)).setPc me
        (.departed c answer)).withSched
          (Scheduler.warpRendezvous (s.geometry env) me (c.wait .depart) s.sched))
  | leave (c : Collective V) (answer : Resp V) (pc : (s.threads me).pc = .departed c answer) :
      Talks env s me (s.answer me answer)

omit [BEq V] in
/-- A group that has been let go finds in its slots what its lanes passed. -/
theorem Conversing.combines (conversing : Conversing env calls) (standing : Standing env s)
    (gathered : Gathered env s) (held : SlotsHeld env s) {c : Collective V}
    (pc : (s.threads me).pc = .arrived c) (free : s.sched.status me = .runnable) :
    ∃ answer problems, c.combine env.typeTag env.config.warpSize (s.ctx env me).lane
      (s.slots (warpIndex env (s.ctx env me))) = .ok (answer, problems) := by
  obtain ⟨given, rfl, together, agree⟩ := gathered me c pc free
  have asked := standing.asked me
  rw [pc] at asked
  have mine := conversing.mem_callsOf asked
  have listed : ∀ q, Mate (s.geometry env) me (given me).mask q →
      given q ∈ callsOf env calls s q := by
    intro q mate
    have theirs := standing.asked q
    rcases together.mates q mate with ⟨pc, -⟩ | ⟨a, pc, -⟩
    · rw [pc] at theirs
      exact conversing.mem_callsOf theirs
    · rw [pc] at theirs
      exact conversing.mem_callsOf theirs
  obtain ⟨existing, -⟩ := names_of_checked (conversing.passes asked)
  have slots := slots_of_exchanging held together
  have mates : ∀ lane < 32, (given me).mask.names lane = true →
      (s.geometry env).warpBase ((s.geometry env).blockOf me) ((s.geometry env).warpOf me) + lane =
          me ∨
        Mate (s.geometry env) me (given me).mask ((s.geometry env).warpBase
          ((s.geometry env).blockOf me) ((s.geometry env).warpOf me) + lane) := by
    intro lane small named
    obtain ⟨block, warp, here⟩ := (s.geometry env).of_warpBase_add ((s.geometry env).blockOf me)
      (existing lane small named)
    by_cases own : (s.geometry env).warpBase ((s.geometry env).blockOf me)
        ((s.geometry env).warpOf me) + lane = me
    · exact .inl own
    · exact .inr ⟨⟨block, warp⟩, by rwa [here], own⟩
  let exchanges : Nat → Exchange V := fun lane =>
    (given ((s.geometry env).warpBase ((s.geometry env).blockOf me)
      ((s.geometry env).warpOf me) + lane)).exchange
  have found : ∀ lane < 32, (given me).mask.names lane = true →
      s.slots (warpIndex env (s.ctx env me)) lane = some (exchanges lane).publishes :=
    fun lane small named => slots lane (existing lane small named) named
  obtain ⟨answer, problems, combined, -⟩ := Collective.combine_answers
    env.config.lanes_pos env.config.lanes_le (Nat.mod_lt _ env.config.lanes_pos) found
    (fun lane small named => by
      rcases mates lane small named with own | mate
      · exact congrArg (fun q => (given q).exchange.op) own
      · exact (agree _ mate).2.2)
    (fun lane small named v w theirs own => by
      rcases mates lane small named with self | mate
      · have same : exchanges lane = (given me).exchange :=
          congrArg (fun q => (given q).exchange) self
        rw [same] at theirs
        exact conversing.typed _ _ _ _ _ mine mine rfl rfl v w theirs own
      · obtain ⟨-, loc, op⟩ := agree _ mate
        have there := listed _ mate
        rw [callsOf, show (s.ctx env _).block = (s.ctx env me).block from
          congrArg (s.firstBlock + ·) mate.1.1] at there
        exact conversing.typed _ _ _ _ _ there mine loc op v w theirs own)
  exact ⟨answer, problems, combined⟩

/-- Nobody comes to a barrier, touches memory or traps. -/
theorem Conversing.talks (conversing : Conversing env calls) {l : Label V}
    (standing : Standing env s) (gathered : Gathered env s) (held : SlotsHeld env s)
    (running : s.sched.status me = .runnable) (resumed : Resumed env s me l s') :
    Talks env s me s' := by
  have asked := standing.asked me
  have ops : s.nextOp env me = .ret ∨ ∃ c, s.nextOp env me = .warp c := by
    rcases conversing.nextOp_cases s me with ⟨-, ret⟩ | ⟨-, c, -, call⟩
    · exact .inl ret
    · exact .inr ⟨c, call⟩
  cases resumed with
  | finish pc op => exact .finish pc op
  | yieldCollective pc c op => exact .call pc c op
  | publish c pc checked => exact .publish c pc
  | exchange c pc answer problems combined => exact .exchange c pc answer problems combined
  | leave c answer pc => exact .leave c answer pc
  | refuse c pc problem refused =>
    rw [pc] at asked
    cases refused.symm.trans (conversing.passes asked)
  | mistyped c pc message combined =>
    obtain ⟨answer, problems, fine⟩ := conversing.combines standing gathered held pc running
    cases combined.symm.trans fine
  | panic pc _ op | fence pc _ op | arrive pc _ op | yieldAccess pc _ op =>
    rcases ops with ret | ⟨c, call⟩
    · cases op.symm.trans ret
    · cases op.symm.trans call
  | access _ pc | overflow _ pc | miss _ pc | outOfBounds _ pc =>
    rw [pc] at asked
    rcases ops with ret | ⟨c, call⟩
    · cases asked.symm.trans ret
    · cases asked.symm.trans call
  | depart gen pc =>
    rw [pc] at asked
    obtain ⟨loc, op⟩ := asked
    rcases ops with ret | ⟨c, call⟩
    · cases op.symm.trans ret
    · cases op.symm.trans call

theorem Conversing.talks_run (conversing : Conversing env calls) {n : Nat} {l : Label V}
    (live : Live ((run env).state n)) (current : ((run env).state n).sched.current = some me)
    (resumed : Resumed env ((run env).state n) me l s') : Talks env ((run env).state n) me s' :=
  conversing.talks (standing_run live) (gathered_run live) (slotsHeld env live)
    ((wellFormed live).running current).2 resumed

end Riri.Launch
