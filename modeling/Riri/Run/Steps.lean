import Riri.Source.Launch
import Riri.Sched.Effects

/-!
# What one step of a launch can do

One constructor for each way a thread can use its turn, and for the steps that leave the
launch running the guards they passed. The invariants of a run are case analyses over
these; only this module unfolds the step.
-/
namespace Riri.Launch

open Scheduler (Turned)

variable {V : Type} [BEq V] (env : Env V)

def nextOp (s : Launch V) (slot : Nat) : Op V :=
  env.kernel (s.ctx env slot).block (s.ctx env slot).thread (s.threads slot).answers

/-- The clocks an access sees when it is counted: the acquire has landed already. -/
def acquired (s : Launch V) (cx : Ctx) (m : MemOp V) : SyncState :=
  match m.act.ordering with
  | some ordering =>
      s.sync.acquire cx.gid (((s.mem m.buf).forLaunch m.buf env.id).shadow m.index).release ordering
  | none => s.sync

def cellOf (s : Launch V) (buf : Buf) (index : Nat) : Cell :=
  ((s.mem buf).forLaunch buf env.id).shadow index

def accessOf (s : Launch V) (cx : Ctx) (m : MemOp V) : Access :=
  (s.access env cx (s.acquired env cx m) m.act.kind m.loc).1

def ticked (s : Launch V) (cx : Ctx) (m : MemOp V) : SyncState :=
  (s.acquired env cx m).tick cx.gid (key cx.block cx.thread)

def recorded (s : Launch V) (cx : Ctx) (m : MemOp V) : Cell × Option Access :=
  (s.cellOf env m.buf m.index).record (s.accessOf env cx m) ((s.ticked env cx m).clock cx.gid)

def published (s : Launch V) (cx : Ctx) (m : MemOp V) : Cell :=
  match m.act.ordering with
  | some ordering =>
      { (s.recorded env cx m).1 with
        release := (s.ticked env cx m).release cx.gid (s.recorded env cx m).1.release ordering }
  | none => (s.recorded env cx m).1

/-- The launch after an access that completed with `new` stored and `resp` returned. -/
def accessed (s : Launch V) (cx : Ctx) (m : MemOp V) (new : V) (resp : Resp V) : Launch V :=
  let inst := (s.mem m.buf).forLaunch m.buf env.id
  let stored := { inst with
    data := Function.update inst.data m.index new
    shadow := Function.update inst.shadow m.index (s.published env cx m) }
  let done : Launch V := { s with
    sync := s.ticked env cx m
    mem := Function.update s.mem m.buf stored }
  (done.report (accessReports (space env m.buf) m.index (s.cellOf env m.buf m.index).init
    (s.accessOf env cx m) (s.recorded env cx m).2)).answer cx.slot resp

def missed (s : Launch V) (cx : Ctx) (m : MemOp V) : Launch V :=
  { s with
    sync := s.sync.tick cx.gid (key cx.block cx.thread)
    mem := Function.update s.mem m.buf ((s.mem m.buf).forLaunch m.buf env.id) }

/-- The launch after an access whose arithmetic panicked: recorded, nothing stored. -/
def overflowed (s : Launch V) (cx : Ctx) (m : MemOp V) : Launch V :=
  let inst := (s.mem m.buf).forLaunch m.buf env.id
  { s with
    sync := s.ticked env cx m
    mem := Function.update s.mem m.buf { inst with
      shadow := Function.update inst.shadow m.index (s.recorded env cx m).1 } }

def slotted (s : Launch V) (cx : Ctx) (c : Collective V) : Launch V :=
  { s with
    slots := Function.update s.slots (warpIndex env cx)
      (Function.update (s.slots (warpIndex env cx)) cx.lane (some c.exchange.publishes)) }

def laneReports (cx : Ctx) (c : Collective V) (problems : List LaneProblem) : List Diagnostic :=
  problems.map fun problem =>
    .warpLaneError cx.block cx.warp c.exchange.op c.loc cx.lane c.mask problem

/-- The launch with the thread's clock joined into its block's and the thread inside the
barrier. -/
def barrierEntered (s : Launch V) (slot : Nat) : Launch V :=
  let cx := s.ctx env slot
  let joined : Launch V := { s with sync := s.sync.barrierArrive cx.gid cx.block }
  joined.setPc slot (.atBarrier (s.sched.barrierGen cx.waveBlock))

def turn (s : Launch V) (sched : Scheduler.State) : Launch V := { s with sched := sched }

/-- What the thread in `slot` does with the turn: one constructor for each way its step can
go, those that stop the launch included. -/
inductive Resumed (s : Launch V) (slot : Nat) : Label V → Launch V → Prop where
  | finish (pc : (s.threads slot).pc = .ready) (op : s.nextOp env slot = .ret) :
      Resumed s slot (.finish (s.ctx env slot))
        (s.withSched (Scheduler.finish (s.geometry env) slot s.sched))
  | panic (pc : (s.threads slot).pc = .ready) (message : String)
      (op : s.nextOp env slot = .panic message) :
      Resumed s slot (.panic (s.ctx env slot))
        (s.trap (.kernelPanic (s.ctx env slot).block (s.ctx env slot).thread message))
  | fence (pc : (s.threads slot).pc = .ready) (ordering : Ordering)
      (op : s.nextOp env slot = .fence ordering) :
      Resumed s slot (.fence (s.ctx env slot) ordering)
        ({ s with sync := s.sync.fence (s.ctx env slot).gid ordering }.answer slot .unit)
  | arrive (pc : (s.threads slot).pc = .ready) (loc : Location)
      (op : s.nextOp env slot = .syncThreads loc) :
      Resumed s slot (.arrive (s.ctx env slot) (s.sched.barrierGen (s.ctx env slot).waveBlock))
        ((s.barrierEntered env slot).withSched
          (Scheduler.barrier (s.geometry env) slot loc s.sched))
  | yieldAccess (pc : (s.threads slot).pc = .ready) (m : MemOp V)
      (op : s.nextOp env slot = .mem m) :
      Resumed s slot (.yield (s.ctx env slot))
        ((s.setPc slot (.atAccess m)).withSched (Scheduler.yieldNow (s.geometry env) s.sched))
  | yieldCollective (pc : (s.threads slot).pc = .ready) (c : Collective V)
      (op : s.nextOp env slot = .warp c) :
      Resumed s slot (.yield (s.ctx env slot))
        ((s.setPc slot (.atCollective c)).withSched
          (Scheduler.yieldNow (s.geometry env) s.sched))
  | access (m : MemOp V) (pc : (s.threads slot).pc = .atAccess m) (new : V) (resp : Resp V)
      (inside : m.index < ((s.mem m.buf).forLaunch m.buf env.id).len)
      (updated : m.act.update (((s.mem m.buf).forLaunch m.buf env.id).data m.index) =
        .ok (new, resp)) :
      Resumed s slot (.access (s.ctx env slot) m (s.accessOf env (s.ctx env slot) m)
          (((s.mem m.buf).forLaunch m.buf env.id).data m.index)
          (s.recorded env (s.ctx env slot) m).2)
        (s.accessed env (s.ctx env slot) m new resp)
  | overflow (m : MemOp V) (pc : (s.threads slot).pc = .atAccess m) (message : String)
      (inside : m.index < ((s.mem m.buf).forLaunch m.buf env.id).len)
      (updated : m.act.update (((s.mem m.buf).forLaunch m.buf env.id).data m.index) =
        .error message) :
      Resumed s slot
        (.fault (s.ctx env slot) m (s.accessOf env (s.ctx env slot) m) false)
        ((s.overflowed env (s.ctx env slot) m).trap
          (.kernelPanic (s.ctx env slot).block (s.ctx env slot).thread message))
  | miss (m : MemOp V) (pc : (s.threads slot).pc = .atAccess m) (f : V → V)
      (act : m.act = .elemMut true f)
      (outside : ((s.mem m.buf).forLaunch m.buf env.id).len ≤ m.index) :
      Resumed s slot
        (.fault (s.ctx env slot) m
          (s.access env (s.ctx env slot) s.sync m.act.kind m.loc).1 true)
        ((s.missed env (s.ctx env slot) m).answer slot (.elem none))
  | outOfBounds (m : MemOp V) (pc : (s.threads slot).pc = .atAccess m)
      (outside : ((s.mem m.buf).forLaunch m.buf env.id).len ≤ m.index) :
      Resumed s slot
        (.fault (s.ctx env slot) m
          (s.access env (s.ctx env slot) s.sync m.act.kind m.loc).1 true)
        ((s.missed env (s.ctx env slot) m).trap (.outOfBounds (space env m.buf) m.index
          ((s.mem m.buf).forLaunch m.buf env.id).len
          (s.access env (s.ctx env slot) s.sync m.act.kind m.loc).1))
  | depart (gen : Nat) (pc : (s.threads slot).pc = .atBarrier gen) :
      Resumed s slot (.depart (s.ctx env slot) gen)
        ({ s with sync := s.sync.barrierDepart (s.ctx env slot).gid (s.ctx env slot).block }.answer
          slot .unit)
  | refuse (c : Collective V) (pc : (s.threads slot).pc = .atCollective c)
      (problem : LaneProblem)
      (checked : c.laneProblem ((s.geometry env).validMask (s.ctx env slot).warp)
        (s.ctx env slot).lane = some problem) :
      Resumed s slot (.trap (s.ctx env slot))
        (s.trap (.warpLaneError (s.ctx env slot).block (s.ctx env slot).warp c.exchange.op c.loc
          (s.ctx env slot).lane c.mask problem))
  | publish (c : Collective V) (pc : (s.threads slot).pc = .atCollective c)
      (checked : c.laneProblem ((s.geometry env).validMask (s.ctx env slot).warp)
        (s.ctx env slot).lane = none) :
      Resumed s slot (.publish (s.ctx env slot) c)
        (((s.slotted env (s.ctx env slot) c).setPc slot (.arrived c)).withSched
          (Scheduler.warpRendezvous (s.geometry env) slot (c.wait .arrive) s.sched))
  | mistyped (c : Collective V) (pc : (s.threads slot).pc = .arrived c) (message : String)
      (combined : c.combine env.typeTag env.config.warpSize (s.ctx env slot).lane
        (s.slots (warpIndex env (s.ctx env slot))) = .error message) :
      Resumed s slot (.panic (s.ctx env slot))
        (s.trap (.kernelPanic (s.ctx env slot).block (s.ctx env slot).thread message))
  | exchange (c : Collective V) (pc : (s.threads slot).pc = .arrived c) (answer : Resp V)
      (problems : List LaneProblem)
      (combined : c.combine env.typeTag env.config.warpSize (s.ctx env slot).lane
        (s.slots (warpIndex env (s.ctx env slot))) = .ok (answer, problems)) :
      Resumed s slot (.exchange (s.ctx env slot) c answer)
        (((s.report (laneReports (s.ctx env slot) c problems)).setPc slot
          (.departed c answer)).withSched
            (Scheduler.warpRendezvous (s.geometry env) slot (c.wait .depart) s.sched))
  | leave (c : Collective V) (answer : Resp V) (pc : (s.threads slot).pc = .departed c answer) :
      Resumed s slot (.leave (s.ctx env slot) answer) (s.answer slot answer)

/-! ### Every step is one of these -/

theorem checkedAccess_resumed {s : Launch V} {slot : Nat} {m : MemOp V}
    (pc : (s.threads slot).pc = .atAccess m) :
    Resumed env s slot (s.checkedAccess env (s.ctx env slot) m).1
      (s.checkedAccess env (s.ctx env slot) m).2 := by
  by_cases outside : m.index ≥ ((s.mem m.buf).forLaunch m.buf env.id).len
  · simp only [checkedAccess, outside, if_true]
    split
    next f act => exact .miss m pc f act outside
    next => exact .outOfBounds m pc outside
  · have inside := Nat.lt_of_not_le outside
    cases updated : m.act.update (((s.mem m.buf).forLaunch m.buf env.id).data m.index) with
    | error message =>
      simp only [checkedAccess, outside, if_false, updated]
      exact .overflow m pc message inside updated
    | ok result =>
      simp only [checkedAccess, outside, if_false, updated]
      exact .access m pc result.1 result.2 inside updated

theorem dispatch_resumed {s : Launch V} {slot : Nat} (pc : (s.threads slot).pc = .ready)
    {op : Op V} (next : s.nextOp env slot = op) :
    Resumed env s slot (s.dispatch env (s.ctx env slot) op).1
      (s.dispatch env (s.ctx env slot) op).2 := by
  cases op with
  | ret => exact .finish pc next
  | panic message => exact .panic pc message next
  | fence ordering => exact .fence pc ordering next
  | syncThreads loc => exact .arrive pc loc next
  | mem m => exact .yieldAccess pc m next
  | warp c => exact .yieldCollective pc c next

theorem resume_resumed (s : Launch V) (slot : Nat) :
    Resumed env s slot (s.resume env slot).1 (s.resume env slot).2 := by
  unfold resume
  cases pc : (s.threads slot).pc with
  | ready => exact dispatch_resumed env pc rfl
  | atAccess m => exact checkedAccess_resumed env pc
  | atBarrier gen => exact .depart gen pc
  | atCollective c =>
    cases checked : c.laneProblem ((s.geometry env).validMask (s.ctx env slot).warp)
        (s.ctx env slot).lane with
    | some problem =>
      simp only [publish, checked]
      exact .refuse c pc problem checked
    | none =>
      simp only [publish, checked]
      exact .publish c pc checked
  | arrived c =>
    cases combined : c.combine env.typeTag env.config.warpSize (s.ctx env slot).lane
        (s.slots (warpIndex env (s.ctx env slot))) with
    | error message =>
      simp only [exchange, combined]
      exact .mistyped c pc message combined
    | ok result =>
      simp only [exchange, combined]
      exact .exchange c pc result.1 result.2 combined
  | departed c answer => exact .leave c answer pc

/-- The thread that holds the turn of a launch that runs takes the step. -/
theorem step_of_turn {s : Launch V} {slot : Nat} (running : s.sched.aborted = false)
    (current : s.sched.current = some slot) : s.step env = some (s.resume env slot) := by
  simp only [step, running, current, Bool.false_eq_true, if_false]

/-- The step of a thread at the start of an operation. -/
theorem step_of_ready {s : Launch V} {slot : Nat} {op : Op V} (running : s.sched.aborted = false)
    (current : s.sched.current = some slot) (pc : (s.threads slot).pc = .ready)
    (next : s.nextOp env slot = op) :
    s.step env = some (s.dispatch env (s.ctx env slot) op) := by
  simp only [step, running, current, resume, pc, Bool.false_eq_true, if_false]
  rw [← next]
  rfl

/-- The step of a thread past the schedule point of an access that completes. -/
theorem step_of_access {s : Launch V} {slot : Nat} {m : MemOp V} {new : V} {resp : Resp V}
    (running : s.sched.aborted = false) (current : s.sched.current = some slot)
    (pc : (s.threads slot).pc = .atAccess m)
    (inside : m.index < ((s.mem m.buf).forLaunch m.buf env.id).len)
    (updated : m.act.update (((s.mem m.buf).forLaunch m.buf env.id).data m.index) =
      .ok (new, resp)) :
    ∃ l, s.step env = some (l, s.accessed env (s.ctx env slot) m new resp) := by
  have outside : ¬ m.index ≥ ((s.mem m.buf).forLaunch m.buf env.id).len := Nat.not_le_of_lt inside
  simp only [step, running, current, resume, pc, Bool.false_eq_true, if_false, checkedAccess,
    outside, updated]
  exact ⟨_, rfl⟩

/-- What `step` does, without its nested tests. -/
theorem step_cases {s s' : Launch V} {l : Label V} (h : s.step env = some (l, s')) :
    s.sched.aborted = false ∧
      ((s.sched.current = none ∧
        s.firstBlock + env.config.waveBlocks s.firstBlock < env.config.blocks ∧
        l = .nextWave ∧ s' = s.nextWave env) ∨
      ∃ slot, s.sched.current = some slot ∧ Resumed env s slot l s') := by
  unfold step at h
  split at h
  · cases h
  next running =>
    refine ⟨by simpa using running, ?_⟩
    split at h
    next slot current =>
      have resumed := resume_resumed env s slot
      rw [Option.some.inj h] at resumed
      exact .inr ⟨slot, current, resumed⟩
    next current =>
      split at h
      next more =>
        obtain ⟨rfl, rfl⟩ := Prod.mk.inj (Option.some.inj h)
        exact .inl ⟨current, more, rfl, rfl⟩
      · cases h

/-! ### Steps after which the launch still runs -/

/-- The steps of the thread in `slot` after which the launch still runs. -/
inductive Moves (s : Launch V) (slot : Nat) : Label V → Launch V → Prop where
  | finish {sched : Scheduler.State} (pc : (s.threads slot).pc = .ready)
      (op : s.nextOp env slot = .ret)
      (unwanted : ∀ p wait, ¬ Scheduler.WaitsFor (s.geometry env) s.sched slot p wait)
      (alone : ∀ i, (s.geometry env).blockOf i = (s.geometry env).blockOf slot → i ≠ slot →
        s.sched.status i ≠ .atBarrier)
      (turned : Turned (s.geometry env) (Scheduler.finishMarked slot s.sched) sched ∨
        (sched = { Scheduler.finishMarked slot s.sched with current := none } ∧
          ∀ i < (s.geometry env).total,
            (Scheduler.finishMarked slot s.sched).status i = .finished)) :
      Moves s slot (.finish (s.ctx env slot)) (s.turn sched)
  | fence (pc : (s.threads slot).pc = .ready) (ordering : Ordering)
      (op : s.nextOp env slot = .fence ordering) :
      Moves s slot (.fence (s.ctx env slot) ordering)
        ({ s with sync := s.sync.fence (s.ctx env slot).gid ordering }.answer slot .unit)
  | arrive {sched : Scheduler.State} (pc : (s.threads slot).pc = .ready) (loc : Location)
      (op : s.nextOp env slot = .syncThreads loc)
      (alive : ∀ i, (s.geometry env).blockOf i = (s.geometry env).blockOf slot → i ≠ slot →
        s.sched.status i ≠ .finished)
      (waiting : ∃ i, (s.geometry env).blockOf i = (s.geometry env).blockOf slot ∧ i ≠ slot ∧
        s.sched.status i ≠ .atBarrier)
      (turned : Turned (s.geometry env)
        (Scheduler.barrierParked (s.geometry env) slot loc s.sched) sched) :
      Moves s slot (.arrive (s.ctx env slot) (s.sched.barrierGen (s.ctx env slot).waveBlock))
        ((s.barrierEntered env slot).turn sched)
  | release {sched : Scheduler.State} (pc : (s.threads slot).pc = .ready) (loc : Location)
      (op : s.nextOp env slot = .syncThreads loc)
      (everyone : ∀ i, (s.geometry env).blockOf i = (s.geometry env).blockOf slot → i ≠ slot →
        s.sched.status i = .atBarrier)
      (turned : Turned (s.geometry env)
        (Scheduler.barrierReleased (s.geometry env) slot s.sched) sched) :
      Moves s slot (.arrive (s.ctx env slot) (s.sched.barrierGen (s.ctx env slot).waveBlock))
        ((s.barrierEntered env slot).turn sched)
  | yieldAccess {sched : Scheduler.State} (pc : (s.threads slot).pc = .ready) (m : MemOp V)
      (op : s.nextOp env slot = .mem m) (turned : Turned (s.geometry env) s.sched sched) :
      Moves s slot (.yield (s.ctx env slot)) ((s.setPc slot (.atAccess m)).turn sched)
  | yieldCollective {sched : Scheduler.State} (pc : (s.threads slot).pc = .ready)
      (c : Collective V) (op : s.nextOp env slot = .warp c)
      (turned : Turned (s.geometry env) s.sched sched) :
      Moves s slot (.yield (s.ctx env slot)) ((s.setPc slot (.atCollective c)).turn sched)
  | access (m : MemOp V) (pc : (s.threads slot).pc = .atAccess m) (new : V) (resp : Resp V)
      (inside : m.index < ((s.mem m.buf).forLaunch m.buf env.id).len)
      (updated : m.act.update (((s.mem m.buf).forLaunch m.buf env.id).data m.index) =
        .ok (new, resp)) :
      Moves s slot (.access (s.ctx env slot) m (s.accessOf env (s.ctx env slot) m)
          (((s.mem m.buf).forLaunch m.buf env.id).data m.index)
          (s.recorded env (s.ctx env slot) m).2)
        (s.accessed env (s.ctx env slot) m new resp)
  | miss (m : MemOp V) (pc : (s.threads slot).pc = .atAccess m) (f : V → V)
      (act : m.act = .elemMut true f)
      (outside : ((s.mem m.buf).forLaunch m.buf env.id).len ≤ m.index) :
      Moves s slot
        (.fault (s.ctx env slot) m
          (s.access env (s.ctx env slot) s.sync m.act.kind m.loc).1 true)
        ((s.missed env (s.ctx env slot) m).answer slot (.elem none))
  | depart (gen : Nat) (pc : (s.threads slot).pc = .atBarrier gen) :
      Moves s slot (.depart (s.ctx env slot) gen)
        ({ s with sync := s.sync.barrierDepart (s.ctx env slot).gid (s.ctx env slot).block }.answer
          slot .unit)
  | publish {sched : Scheduler.State} (c : Collective V)
      (pc : (s.threads slot).pc = .atCollective c)
      (checked : c.laneProblem ((s.geometry env).validMask (s.ctx env slot).warp)
        (s.ctx env slot).lane = none)
      (alive : ∀ p, Scheduler.Mate (s.geometry env) slot c.mask p → s.sched.status p ≠ .finished)
      (agree : ∀ p other, ¬ Scheduler.Disagrees (s.geometry env) s.sched slot (c.wait .arrive) p other)
      (missing : ∃ p, Scheduler.Mate (s.geometry env) slot c.mask p ∧
        ¬ (s.sched.status p = .atWarp ∧ s.sched.warpWait p = some (c.wait .arrive)))
      (turned : Turned (s.geometry env)
        (Scheduler.rendezvousParked slot (c.wait .arrive) s.sched) sched) :
      Moves s slot (.publish (s.ctx env slot) c)
        (((s.slotted env (s.ctx env slot) c).setPc slot (.arrived c)).turn sched)
  | gather {sched : Scheduler.State} (c : Collective V)
      (pc : (s.threads slot).pc = .atCollective c)
      (checked : c.laneProblem ((s.geometry env).validMask (s.ctx env slot).warp)
        (s.ctx env slot).lane = none)
      (agree : ∀ p other, ¬ Scheduler.Disagrees (s.geometry env) s.sched slot (c.wait .arrive) p other)
      (everyone : ∀ p, Scheduler.Mate (s.geometry env) slot c.mask p →
        s.sched.status p = .atWarp ∧ s.sched.warpWait p = some (c.wait .arrive))
      (turned : Turned (s.geometry env)
        (Scheduler.rendezvousReleased (s.geometry env) slot (c.wait .arrive) s.sched) sched) :
      Moves s slot (.publish (s.ctx env slot) c)
        (((s.slotted env (s.ctx env slot) c).setPc slot (.arrived c)).turn sched)
  | exchange {sched : Scheduler.State} (c : Collective V) (pc : (s.threads slot).pc = .arrived c)
      (answer : Resp V) (problems : List LaneProblem)
      (combined : c.combine env.typeTag env.config.warpSize (s.ctx env slot).lane
        (s.slots (warpIndex env (s.ctx env slot))) = .ok (answer, problems))
      (alive : ∀ p, Scheduler.Mate (s.geometry env) slot c.mask p → s.sched.status p ≠ .finished)
      (agree : ∀ p other, ¬ Scheduler.Disagrees (s.geometry env) s.sched slot (c.wait .depart) p other)
      (missing : ∃ p, Scheduler.Mate (s.geometry env) slot c.mask p ∧
        ¬ (s.sched.status p = .atWarp ∧ s.sched.warpWait p = some (c.wait .depart)))
      (turned : Turned (s.geometry env)
        (Scheduler.rendezvousParked slot (c.wait .depart) s.sched) sched) :
      Moves s slot (.exchange (s.ctx env slot) c answer)
        (((s.report (laneReports (s.ctx env slot) c problems)).setPc slot
          (.departed c answer)).turn sched)
  | disperse {sched : Scheduler.State} (c : Collective V) (pc : (s.threads slot).pc = .arrived c)
      (answer : Resp V) (problems : List LaneProblem)
      (combined : c.combine env.typeTag env.config.warpSize (s.ctx env slot).lane
        (s.slots (warpIndex env (s.ctx env slot))) = .ok (answer, problems))
      (agree : ∀ p other, ¬ Scheduler.Disagrees (s.geometry env) s.sched slot (c.wait .depart) p other)
      (everyone : ∀ p, Scheduler.Mate (s.geometry env) slot c.mask p →
        s.sched.status p = .atWarp ∧ s.sched.warpWait p = some (c.wait .depart))
      (turned : Turned (s.geometry env)
        (Scheduler.rendezvousReleased (s.geometry env) slot (c.wait .depart) s.sched) sched) :
      Moves s slot (.exchange (s.ctx env slot) c answer)
        (((s.report (laneReports (s.ctx env slot) c problems)).setPc slot
          (.departed c answer)).turn sched)
  | leave (c : Collective V) (answer : Resp V) (pc : (s.threads slot).pc = .departed c answer) :
      Moves s slot (.leave (s.ctx env slot) answer) (s.answer slot answer)

omit [BEq V] in
theorem withSched_of_silent {s : Launch V} {r : Scheduler.Outcome} (silent : r.2 = []) :
    s.withSched r = s.turn r.1 := by
  simp [withSched, turn, silent]

/-- A step that leaves the launch running passed every guard on its way. -/
theorem Resumed.moves {s s' : Launch V} {slot : Nat} {l : Label V}
    (resumed : Resumed env s slot l s') (running : s.sched.aborted = false)
    (live : s'.sched.aborted = false) : Moves env s slot l s' := by
  cases resumed with
  | finish pc op =>
    obtain ⟨silent, unwanted, alone, turned⟩ := Scheduler.finish_live _ running live
    rw [withSched_of_silent silent]
    exact .finish pc op unwanted alone turned
  | fence pc ordering op => exact .fence pc ordering op
  | arrive pc loc op =>
    obtain ⟨silent, ⟨everyone, turned⟩ | ⟨⟨alive, waiting⟩, turned⟩⟩ :=
      Scheduler.barrier_live _ live
    all_goals rw [withSched_of_silent silent]
    · exact .release pc loc op everyone turned
    · exact .arrive pc loc op alive waiting turned
  | yieldAccess pc m op =>
    obtain ⟨turned, silent⟩ := Scheduler.yieldNow_live _ live
    rw [withSched_of_silent silent]
    exact .yieldAccess pc m op turned
  | yieldCollective pc c op =>
    obtain ⟨turned, silent⟩ := Scheduler.yieldNow_live _ live
    rw [withSched_of_silent silent]
    exact .yieldCollective pc c op turned
  | access m pc new resp inside updated => exact .access m pc new resp inside updated
  | miss m pc f act outside => exact .miss m pc f act outside
  | depart gen pc => exact .depart gen pc
  | publish c pc checked =>
    obtain ⟨silent, agree, ⟨everyone, turned⟩ | ⟨⟨alive, missing⟩, turned⟩⟩ :=
      Scheduler.warpRendezvous_live _ live
    all_goals rw [withSched_of_silent silent]
    · exact .gather c pc checked agree everyone turned
    · exact .publish c pc checked alive agree missing turned
  | exchange c pc answer problems combined =>
    obtain ⟨silent, agree, ⟨everyone, turned⟩ | ⟨⟨alive, missing⟩, turned⟩⟩ :=
      Scheduler.warpRendezvous_live _ live
    all_goals rw [withSched_of_silent silent]
    · exact .disperse c pc answer problems combined agree everyone turned
    · exact .exchange c pc answer problems combined alive agree missing turned
  | leave c answer pc => exact .leave c answer pc
  | _ => cases live

/-- A live step is the next wave or a move of the current thread. -/
theorem step_moves {s s' : Launch V} {l : Label V} (h : s.step env = some (l, s'))
    (live : s'.sched.aborted = false) :
    (s.sched.current = none ∧
      s.firstBlock + env.config.waveBlocks s.firstBlock < env.config.blocks ∧
      l = .nextWave ∧ s' = s.nextWave env) ∨
    ∃ slot, s.sched.current = some slot ∧ Moves env s slot l s' := by
  obtain ⟨running, waves | ⟨slot, current, resumed⟩⟩ := step_cases env h
  · exact .inl waves
  · exact .inr ⟨slot, current, resumed.moves env running live⟩

end Riri.Launch
