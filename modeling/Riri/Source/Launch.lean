import Riri.Source.Mem
import Riri.Source.Warp

/-!
# Launch

Source: src/launch.rs and src/ctx.rs. A launch is a machine whose step is what the thread
holding the turn does until it next hands the turn over, finishes an operation, or stops
the launch. Only that thread runs, so a step is atomic. Waves follow each other, each with
a scheduler of its own; clocks, memory and exchange slots outlive them.
-/
namespace Riri

/-- What `run_shared` admits: a non-empty grid and block, a warp size masks can hold, and
a wave that fits. `residentBlocks` is the clamped value. -/
structure Config where
  blocks : Nat
  threadsPerBlock : Nat
  warpSize : Nat
  residentBlocks : Nat
  blocks_pos : 0 < blocks
  threads_pos : 0 < threadsPerBlock
  lanes_pos : 0 < warpSize
  lanes_le : warpSize ≤ 32
  resident_pos : 0 < residentBlocks
  resident_le : residentBlocks ≤ blocks
  total_lt : blocks * threadsPerBlock < 2 ^ 32
  fits : residentBlocks * threadsPerBlock ≤ MAX_THREADS

namespace Config

/-- Blocks of the wave that starts at `firstBlock`. -/
def waveBlocks (c : Config) (firstBlock : Nat) : Nat := min c.residentBlocks (c.blocks - firstBlock)

/-- The sizes of that wave's scheduler. -/
def geometry (c : Config) (firstBlock : Nat) : Geometry where
  blocks := c.waveBlocks firstBlock
  threadsPerBlock := c.threadsPerBlock
  warpSize := c.warpSize
  threads_pos := c.threads_pos
  lanes_pos := c.lanes_pos
  lanes_le := c.lanes_le
  fits := (Nat.mul_le_mul_right _ (Nat.min_le_left _ _)).trans c.fits

end Config

/-- Everything a launch is a function of. `choicesOf` gives each wave its source of
decisions; `fresh` is the uniqueness of launch ids. -/
structure Env (V : Type) where
  config : Config
  kernel : Kernel V
  choicesOf : Nat → Choices
  id : Nat
  mem : Buf → Instrumented V
  bufferName : Nat → String
  typeTag : V → Nat
  fresh : ∀ buf, (mem buf).launchId ≠ id

/-- Where a simulated thread is inside its current operation. -/
inductive Pc (V : Type) where
  /-- About to ask the kernel for the next operation. -/
  | ready
  /-- Past the schedule point of an access. -/
  | atAccess (m : MemOp V)
  /-- Inside `Scheduler::barrier`, arrived at this generation. -/
  | atBarrier (gen : Nat)
  /-- Past the schedule point of a collective. -/
  | atCollective (c : Collective V)
  /-- Inside the first rendezvous of a collective. -/
  | arrived (c : Collective V)
  /-- Inside the second rendezvous, with the answer computed. -/
  | departed (c : Collective V) (answer : Resp V)

structure Thread (V : Type) where
  pc : Pc V
  answers : List (Resp V)

structure Launch (V : Type) where
  wave : Nat
  firstBlock : Nat
  sched : Scheduler.State
  threads : Nat → Thread V
  sync : SyncState
  mem : Buf → Instrumented V
  slots : Nat → Slots V
  /-- Everything passed to `Reporter::push`, in order. -/
  raised : List Diagnostic

/-- `ThreadCtx`: a slot of the wave as the launch numbers it. -/
structure Ctx where
  slot : Nat
  waveBlock : Nat
  block : Nat
  thread : Nat
  gid : Nat
  warp : Nat
  lane : Nat
  deriving DecidableEq, Repr

/-- What one step did, for statements about runs. -/
inductive Label (V : Type) where
  | finish (cx : Ctx)
  | panic (cx : Ctx)
  | trap (cx : Ctx)
  | fence (cx : Ctx) (ordering : Ordering)
  | yield (cx : Ctx)
  | arrive (cx : Ctx) (gen : Nat)
  | depart (cx : Ctx) (gen : Nat)
  | access (cx : Ctx) (m : MemOp V) (acc : Access) (old : V) (conflict : Option Access)
  /-- An access that counted as an operation but did not complete: out of bounds, or
  arithmetic that panicked. -/
  | fault (cx : Ctx) (m : MemOp V) (acc : Access) (outOfBounds : Bool)
  | publish (cx : Ctx) (c : Collective V)
  | exchange (cx : Ctx) (c : Collective V) (answer : Resp V)
  | leave (cx : Ctx) (answer : Resp V)
  | nextWave

namespace Launch

variable {V : Type} [BEq V] (env : Env V)

def geometry (s : Launch V) : Geometry := env.config.geometry s.firstBlock

/-- `run_thread`'s numbering of a slot. -/
def ctx (s : Launch V) (slot : Nat) : Ctx :=
  let tpb := env.config.threadsPerBlock
  let block := s.firstBlock + slot / tpb
  let thread := slot % tpb
  { slot := slot
    waveBlock := slot / tpb
    block := block
    thread := thread
    gid := block * tpb + thread
    warp := thread / env.config.warpSize
    lane := thread % env.config.warpSize }

def space : Buf → MemSpace
  | .global id => .global (env.bufferName id)
  | .shared block name => .shared block name

/-- Index of a thread's warp among the exchange slots of the whole launch. -/
def warpIndex (cx : Ctx) : Nat :=
  cx.block * ((env.config.threadsPerBlock + env.config.warpSize - 1) / env.config.warpSize) + cx.warp

def start (firstBlock wave : Nat) : Scheduler.State :=
  Scheduler.new (env.config.geometry firstBlock) (env.choicesOf wave)

def init : Launch V where
  wave := 0
  firstBlock := 0
  sched := start env 0 0
  threads := fun _ => ⟨.ready, []⟩
  sync := SyncState.new
  mem := env.mem
  slots := fun _ _ => none
  raised := []

/-- Moves on to the next wave, which only `run_shared`'s loop does. -/
def nextWave (s : Launch V) : Launch V :=
  let firstBlock := s.firstBlock + env.config.waveBlocks s.firstBlock
  { s with
    wave := s.wave + 1
    firstBlock := firstBlock
    sched := start env firstBlock (s.wave + 1)
    threads := fun _ => ⟨.ready, []⟩ }

def setPc (s : Launch V) (slot : Nat) (pc : Pc V) : Launch V :=
  { s with threads := Function.update s.threads slot { s.threads slot with pc := pc } }

/-- The operation returns `answer` to the kernel. -/
def answer (s : Launch V) (slot : Nat) (answer : Resp V) : Launch V :=
  { s with
    threads := Function.update s.threads slot
      { pc := .ready, answers := (s.threads slot).answers ++ [answer] } }

def report (s : Launch V) (ds : List Diagnostic) : Launch V := { s with raised := s.raised ++ ds }

/-- Installs what a scheduler operation left. -/
def withSched (s : Launch V) (r : Scheduler.Outcome) : Launch V :=
  { s with sched := r.1, raised := s.raised ++ r.2 }

/-- `ThreadCtx::trap`, and the handling of a panic in `run_thread`. -/
def trap (s : Launch V) (d : Diagnostic) : Launch V :=
  s.withSched (Scheduler.abort s.sched, [d])

/-- `ThreadCtx::access`: the access, the clock of the thread making it, and the clocks
after its operation was counted. -/
def access (s : Launch V) (cx : Ctx) (sync : SyncState) (kind : AccessKind) (loc : Location) :
    Access × Clock × SyncState :=
  let (epoch, warpEpoch) := Scheduler.epochs (s.geometry env) s.sched cx.waveBlock cx.warp
  let sync := sync.tick cx.gid (key cx.block cx.thread)
  ({ block := cx.block
     thread := cx.thread
     epoch := epoch
     warp := cx.warp
     warpEpoch := warpEpoch
     seq := sync.seq cx.gid
     kind := kind
     location := loc }, sync.clock cx.gid, sync)

/-- `checked_access` and `elem_mut` after their schedule point. -/
def checkedAccess (s : Launch V) (cx : Ctx) (m : MemOp V) : Label V × Launch V :=
  let inst := (s.mem m.buf).forLaunch m.buf env.id
  if m.index ≥ inst.len then
    let (acc, _, sync) := s.access env cx s.sync m.act.kind m.loc
    let s := { s with sync := sync, mem := Function.update s.mem m.buf inst }
    match m.act with
    | .elemMut true _ => (.fault cx m acc true, s.answer cx.slot (.elem none))
    | _ => (.fault cx m acc true, s.trap (.outOfBounds (space env m.buf) m.index inst.len acc))
  else
    let cell := inst.shadow m.index
    -- The acquire lands before the access is weighed against earlier ones.
    let sync := match m.act.ordering with
      | some ordering => s.sync.acquire cx.gid cell.release ordering
      | none => s.sync
    let (acc, now, sync) := s.access env cx sync m.act.kind m.loc
    let (recorded, conflict) := cell.record acc now
    let old := inst.data m.index
    match m.act.update old with
    | .error message =>
        let inst := { inst with shadow := Function.update inst.shadow m.index recorded }
        let s := { s with sync := sync, mem := Function.update s.mem m.buf inst }
        (.fault cx m acc false, s.trap (.kernelPanic cx.block cx.thread message))
    | .ok (new, resp) =>
        let recorded := match m.act.ordering with
          | some ordering =>
              { recorded with release := sync.release cx.gid recorded.release ordering }
          | none => recorded
        let inst := { inst with
          data := Function.update inst.data m.index new
          shadow := Function.update inst.shadow m.index recorded }
        let s := { s with sync := sync, mem := Function.update s.mem m.buf inst }
        (.access cx m acc old conflict,
          (s.report (accessReports (space env m.buf) m.index cell.init acc conflict)).answer
            cx.slot resp)

/-- `sync_threads_at` up to the barrier's hand-off. -/
def syncThreads (s : Launch V) (cx : Ctx) (loc : Location) : Label V × Launch V :=
  let gen := s.sched.barrierGen cx.waveBlock
  let s := { s with sync := s.sync.barrierArrive cx.gid cx.block }
  (.arrive cx gen,
    (s.setPc cx.slot (.atBarrier gen)).withSched
      (Scheduler.barrier (s.geometry env) cx.slot loc s.sched))

/-- `collective` from its schedule point to the first rendezvous. -/
def publish (s : Launch V) (cx : Ctx) (c : Collective V) : Label V × Launch V :=
  let g := s.geometry env
  match c.laneProblem (g.validMask cx.warp) cx.lane with
  | some problem =>
      (.trap cx, s.trap (.warpLaneError cx.block cx.warp c.exchange.op c.loc cx.lane c.mask problem))
  | none =>
      let index := warpIndex env cx
      let s := { s with
        slots := Function.update s.slots index
          (Function.update (s.slots index) cx.lane (some c.exchange.publishes)) }
      (.publish cx c,
        (s.setPc cx.slot (.arrived c)).withSched
          (Scheduler.warpRendezvous g cx.slot (c.wait .arrive) s.sched))

/-- `collective` between its two rendezvous, and into the second. -/
def exchange (s : Launch V) (cx : Ctx) (c : Collective V) : Label V × Launch V :=
  match c.combine env.typeTag env.config.warpSize cx.lane (s.slots (warpIndex env cx)) with
  | .error message => (.panic cx, s.trap (.kernelPanic cx.block cx.thread message))
  | .ok (answer, problems) =>
      let s := s.report (problems.map fun problem =>
        .warpLaneError cx.block cx.warp c.exchange.op c.loc cx.lane c.mask problem)
      (.exchange cx c answer,
        (s.setPc cx.slot (.departed c answer)).withSched
          (Scheduler.warpRendezvous (s.geometry env) cx.slot (c.wait .depart) s.sched))

/-- A thread at the start of an operation. -/
def dispatch (s : Launch V) (cx : Ctx) : Op V → Label V × Launch V
  | .ret => (.finish cx, s.withSched (Scheduler.finish (s.geometry env) cx.slot s.sched))
  | .panic message => (.panic cx, s.trap (.kernelPanic cx.block cx.thread message))
  | .fence ordering =>
      (.fence cx ordering,
        { s with sync := s.sync.fence cx.gid ordering }.answer cx.slot .unit)
  | .syncThreads loc => s.syncThreads env cx loc
  | .mem m =>
      (.yield cx,
        (s.setPc cx.slot (.atAccess m)).withSched (Scheduler.yieldNow (s.geometry env) s.sched))
  | .warp c =>
      (.yield cx,
        (s.setPc cx.slot (.atCollective c)).withSched
          (Scheduler.yieldNow (s.geometry env) s.sched))

/-- What the thread in `slot` does with the turn. -/
def resume (s : Launch V) (slot : Nat) : Label V × Launch V :=
  let cx := s.ctx env slot
  match (s.threads slot).pc with
  | .ready => s.dispatch env cx (env.kernel cx.block cx.thread (s.threads slot).answers)
  | .atAccess m => s.checkedAccess env cx m
  | .atBarrier gen =>
      (.depart cx gen,
        { s with sync := s.sync.barrierDepart cx.gid cx.block }.answer slot .unit)
  | .atCollective c => s.publish env cx c
  | .arrived c => s.exchange env cx c
  | .departed _ answer => (.leave cx answer, s.answer slot answer)

/-- One step of the launch; `none` once it is over. Without a current thread and without an
abort every thread of the wave has returned. -/
def step (s : Launch V) : Option (Label V × Launch V) :=
  if s.sched.aborted then none
  else match s.sched.current with
    | some slot => some (s.resume env slot)
    | none =>
        if s.firstBlock + env.config.waveBlocks s.firstBlock < env.config.blocks then
          some (.nextWave, s.nextWave env)
        else none

end Launch

end Riri
