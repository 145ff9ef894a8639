import Riri.Source.Poison

/-!
# Launches that share buffers

Source: `run_shared` of src/launch.rs as several host threads call it, and `GlobalBuf` of
src/mem.rs. A clone of a buffer is the same buffer, so launches that run one after another or at
once meet in its shadow state; their clocks are their own. What an array holds decides no race and
is left out. Arithmetic that panics poisons the lock, and no access to that buffer follows.
-/
namespace Riri

variable {V : Type}

/-- Where an array is: buffers are the host's, a `__shared__` array is one launch's. -/
inductive Place where
  | global (id : Nat)
  | shared (launch block : Nat) (name : String)
  deriving DecidableEq, Repr

def Buf.place (launch : Nat) : Buf → Place
  | .global id => .global id
  | .shared block name => .shared launch block name

theorem Buf.place_injective (launch : Nat) : Function.Injective (Buf.place launch) := by
  intro b b' same
  cases b <;> cases b' <;> simp_all [place]

/-- Two launches mean the same array only by a buffer. -/
theorem Buf.place_of_ne {launch other : Nat} {b b' : Buf} (ne : other ≠ launch)
    (same : b'.place other = b.place launch) : b' = b ∧ ∃ id, b = .global id := by
  cases b <;> cases b' <;> simp_all [place]

theorem Buf.place_of_shared {launch other block : Nat} {name : String} {b : Buf}
    (same : b.place other = .shared launch block name) : launch = other := by
  cases b <;> simp_all [place]

/-- What a thread brings to `checked_access` or `elem_mut`, with the epochs it is in. -/
structure Use (V : Type) where
  cx : Ctx
  epoch : Nat
  warpEpoch : Nat
  op : MemOp V

namespace Use

variable (u : Use V) (sync : SyncState) (cell : Cell)

/-- The clocks once the acquire has landed. -/
def acquired : SyncState :=
  match u.op.act.ordering with
  | some ordering => sync.acquire u.cx.gid cell.release ordering
  | none => sync

/-- The clocks once the access was counted. -/
def ticked : SyncState := (u.acquired sync cell).tick u.cx.gid (key u.cx.block u.cx.thread)

/-- `ThreadCtx::access`. -/
def access : Access where
  block := u.cx.block
  thread := u.cx.thread
  epoch := u.epoch
  warp := u.cx.warp
  warpEpoch := u.warpEpoch
  seq := (u.ticked sync cell).seq u.cx.gid
  kind := u.op.act.kind
  location := u.op.loc

/-- The cell once the access was recorded, and the conflict found. -/
def recorded : Cell × Option Access :=
  cell.record (u.access sync cell) ((u.ticked sync cell).clock u.cx.gid)

/-- The cell once the access also released. -/
def published : Cell :=
  match u.op.act.ordering with
  | some ordering =>
      { (u.recorded sync cell).1 with
        release := (u.ticked sync cell).release u.cx.gid (u.recorded sync cell).1.release ordering }
  | none => (u.recorded sync cell).1

/-- The race an access reports. -/
def races (space : Buf → MemSpace) : List Diagnostic :=
  (u.recorded sync cell).2.toList.map fun first =>
    .dataRace (space u.op.buf) u.op.index first (u.access sync cell)

end Use

/-- What a thread does to the clocks of its launch or to an array. -/
inductive HostOp (V : Type) where
  | use (u : Use V)
  | fence (gid : Nat) (ordering : Ordering)
  | arrive (gid block : Nat)
  | depart (gid block : Nat)
  | idle

/-- The element an operation names, in range or not. -/
def HostOp.element : HostOp V → Option (Buf × Nat)
  | .use u => some (u.op.buf, u.op.index)
  | _ => none

def HostOp.touches (id : Nat) (op : HostOp V) : Bool := op.element.any fun e => e.1 = .global id

/-- The clocks of every launch, and every array without what it holds. -/
structure HostState where
  sync : Nat → SyncState
  mem : Place → Instrumented Unit

namespace HostState

variable (s : HostState) (launch : Nat)

/-- An array as a launch sees it. -/
def inst (buf : Buf) : Instrumented Unit := (s.mem (buf.place launch)).forLaunch buf launch

/-- One element of it. -/
def cell (buf : Buf) (index : Nat) : Cell := (s.inst launch buf).shadow index

def withSync (sync : SyncState) : HostState := { s with sync := Function.update s.sync launch sync }

/-- An access under the lock of its array. Outside the array it still counts, and it still
resets. -/
def used (u : Use V) : HostState :=
  let inst := s.inst launch u.op.buf
  if u.op.index ≥ inst.len then
    { s.withSync launch ((s.sync launch).tick u.cx.gid (key u.cx.block u.cx.thread)) with
      mem := Function.update s.mem (u.op.buf.place launch) inst }
  else
    let cell := inst.shadow u.op.index
    let shadow := Function.update inst.shadow u.op.index (u.published (s.sync launch) cell)
    { s.withSync launch (u.ticked (s.sync launch) cell) with
      mem := Function.update s.mem (u.op.buf.place launch) { inst with shadow := shadow } }

/-- One operation of a launch. -/
def apply : HostOp V → HostState
  | .use u => s.used launch u
  | .fence gid ordering => s.withSync launch ((s.sync launch).fence gid ordering)
  | .arrive gid block => s.withSync launch ((s.sync launch).barrierArrive gid block)
  | .depart gid block => s.withSync launch ((s.sync launch).barrierDepart gid block)
  | .idle => s

/-- The races it reports. -/
def races (space : Buf → MemSpace) : HostOp V → List Diagnostic
  | .use u =>
      if u.op.index ≥ (s.inst launch u.op.buf).len then []
      else u.races (s.sync launch) (s.cell launch u.op.buf u.op.index) space
  | _ => []

end HostState

/-- Operations of launches in the order in which they happen. -/
abbrev HostRun (V : Type) := Nat → Nat × HostOp V

namespace HostRun

variable (h : HostRun V) (m : Place → Instrumented Unit)

/-- The clocks and arrays before operation `n`, from arrays `m`. -/
def after : Nat → HostState
  | 0 => ⟨fun _ => SyncState.new, m⟩
  | n + 1 => (after n).apply (h n).1 (h n).2

/-- The races operation `n` reports. -/
def races (space : Buf → MemSpace) (n : Nat) : List Diagnostic :=
  (h.after m n).races (h n).1 space (h n).2

/-- The run in which no other launch uses the buffer. -/
def alone (launch id : Nat) : HostRun V := fun n =>
  if (h n).1 ≠ launch ∧ (h n).2.touches id then ((h n).1, .idle) else h n

end HostRun

/-! ### Host threads -/

/-- An array without what it holds. -/
def Instrumented.erased (m : Instrumented V) : Instrumented Unit :=
  ⟨m.len, fun _ => (), m.shadow, m.launchId⟩

/-- What a step does to the clocks or to an array. One that panics in arithmetic leaves a poisoned
lock and a launch that is over. -/
def Label.hostOp : Label V → HostOp V
  | .access cx m acc _ _ | .fault cx m acc true => .use ⟨cx, acc.epoch, acc.warpEpoch, m⟩
  | .fence cx ordering => .fence cx.gid ordering
  | .arrive cx _ => .arrive cx.gid cx.block
  | .depart cx _ => .depart cx.gid cx.block
  | .fault _ _ _ false | .finish _ | .panic _ | .trap _ | .yield _ | .publish _ _ | .exchange _ _ _
  | .leave _ _ | .nextWave => .idle

/-- A launch for each host thread. `NEXT_LAUNCH_ID` counts them from one, and they mean the same
buffers. -/
structure HostEnv (V : Type) where
  env : Nat → Env V
  numbered : ∀ i, (env i).id = i + 1
  shared : ∀ i j id, (env i).mem (.global id) = (env j).mem (.global id)
  named : ∀ i j, (env i).bufferName = (env j).bufferName

/-- The launches of the host threads, and which locks of buffers are poisoned. -/
structure HostThreads (V : Type) where
  launch : Nat → Launch V
  poisoned : Nat → Bool

namespace HostThreads

variable [BEq V] (hosts : HostEnv V)

def init : HostThreads V := ⟨fun i => Launch.init (hosts.env i), fun _ => false⟩

/-- The thread of launch `i` that comes to a poisoned lock next. -/
def refused (s : HostThreads V) (i : Nat) : Option Ctx :=
  let launch := s.launch i
  if launch.sched.aborted then none
  else launch.sched.current.bind fun slot => match (launch.threads slot).pc with
    | .atAccess m => match m.buf with
      | .global id => if s.poisoned id then some (launch.ctx (hosts.env i) slot) else none
      | .shared _ _ => none
    | _ => none

/-- Launch `i` went on to `launch`; the buffers are the same for all. -/
def store (s : HostThreads V) (i : Nat) (launch : Launch V) : Nat → Launch V := fun j =>
  if j = i then launch
  else { s.launch j with
    mem := fun buf => match buf with
      | .global id => launch.mem (.global id)
      | .shared block name => (s.launch j).mem (.shared block name) }

/-- The locks after a step. -/
def poisons (s : HostThreads V) : Label V → Nat → Bool
  | .fault _ m _ false => match m.buf with
    | .global id => Function.update s.poisoned id true
    | .shared _ _ => s.poisoned
  | _ => s.poisoned

/-- One step of launch `i`. -/
def step (s : HostThreads V) (i : Nat) : Option (Label V × HostThreads V) :=
  match s.refused hosts i with
  | some cx =>
      let panicked := (s.launch i).trap (.kernelPanic cx.block cx.thread poisonMessage)
      some (.panic cx, ⟨s.store i panicked, s.poisoned⟩)
  | none => ((s.launch i).step (hosts.env i)).map fun r => (r.1, ⟨s.store i r.2, s.poisons r.1⟩)

/-- The host after `n` steps, each by the launch whose turn it is in `order`. -/
def state (order : Nat → Nat) : Nat → HostThreads V
  | 0 => init hosts
  | n + 1 => match (state order n).step hosts (order n) with
    | some r => r.2
    | none => state order n

/-- What the steps did, as operations. -/
def trace (order : Nat → Nat) : HostRun V := fun n =>
  ((hosts.env (order n)).id, match (state hosts order n).step hosts (order n) with
    | some r => r.1.hostOp
    | none => .idle)

/-- The arrays at the start, without what they hold. -/
def arrays : Place → Instrumented Unit
  | .global id => ((hosts.env 0).mem (.global id)).erased
  | .shared launch block name => ((hosts.env (launch - 1)).mem (.shared block name)).erased

end HostThreads

end Riri
