import Riri.Run.Steps

/-!
# What holds while a launch runs

The turn is with a runnable thread, and where a thread is inside its operation decides its
status.
-/
namespace Riri

/-- What a lane inside a collective waits for. -/
def Pc.waits {V : Type} : Pc V → Option WarpWait
  | .arrived c => some (c.wait .arrive)
  | .departed c _ => some (c.wait .depart)
  | .ready | .atAccess _ | .atBarrier _ | .atCollective _ => none

namespace Launch

open Scheduler (Turned Rests)

variable {V : Type} (env : Env V)

def Live (s : Launch V) : Prop := s.sched.aborted = false

/-! ### Fields that an update leaves alone -/

section

variable (s : Launch V) (slot i : Nat) (pc : Pc V) (a : Resp V) (ds : List Diagnostic)
  (sched : Scheduler.State)

@[simp] theorem setPc_firstBlock : (s.setPc slot pc).firstBlock = s.firstBlock := rfl
@[simp] theorem setPc_sched : (s.setPc slot pc).sched = s.sched := rfl
@[simp] theorem setPc_sync : (s.setPc slot pc).sync = s.sync := rfl
@[simp] theorem setPc_mem : (s.setPc slot pc).mem = s.mem := rfl
@[simp] theorem setPc_slots : (s.setPc slot pc).slots = s.slots := rfl
@[simp] theorem answer_firstBlock : (s.answer slot a).firstBlock = s.firstBlock := rfl
@[simp] theorem answer_sched : (s.answer slot a).sched = s.sched := rfl
@[simp] theorem answer_sync : (s.answer slot a).sync = s.sync := rfl
@[simp] theorem answer_mem : (s.answer slot a).mem = s.mem := rfl
@[simp] theorem answer_slots : (s.answer slot a).slots = s.slots := rfl
@[simp] theorem report_firstBlock : (s.report ds).firstBlock = s.firstBlock := rfl
@[simp] theorem report_sched : (s.report ds).sched = s.sched := rfl
@[simp] theorem report_threads : (s.report ds).threads = s.threads := rfl
@[simp] theorem report_sync : (s.report ds).sync = s.sync := rfl
@[simp] theorem report_mem : (s.report ds).mem = s.mem := rfl
@[simp] theorem report_slots : (s.report ds).slots = s.slots := rfl
@[simp] theorem turn_firstBlock : (s.turn sched).firstBlock = s.firstBlock := rfl
@[simp] theorem turn_sched : (s.turn sched).sched = sched := rfl
@[simp] theorem turn_threads : (s.turn sched).threads = s.threads := rfl
@[simp] theorem turn_sync : (s.turn sched).sync = s.sync := rfl
@[simp] theorem turn_mem : (s.turn sched).mem = s.mem := rfl
@[simp] theorem turn_slots : (s.turn sched).slots = s.slots := rfl

@[simp] theorem setPc_self : (s.setPc slot pc).threads slot = ⟨pc, (s.threads slot).answers⟩ :=
  Function.update_self ..

@[simp] theorem answer_self :
    (s.answer slot a).threads slot = ⟨.ready, (s.threads slot).answers ++ [a]⟩ :=
  Function.update_self ..

variable {slot i}

@[simp] theorem setPc_of_ne (h : i ≠ slot) : (s.setPc slot pc).threads i = s.threads i :=
  Function.update_of_ne h ..

@[simp] theorem answer_of_ne (h : i ≠ slot) : (s.answer slot a).threads i = s.threads i :=
  Function.update_of_ne h ..

end

/-! ### The invariant -/

def TurnTaken (s : Launch V) : Prop :=
  (∃ i < (s.geometry env).total, s.sched.current = some i ∧ s.sched.status i = .runnable) ∨
    (s.sched.current = none ∧ ∀ i < (s.geometry env).total, s.sched.status i = .finished)

/-- Where a thread is decides its status. Inside a barrier it is parked at the current
generation or let go from the one before. -/
def Settled (s : Launch V) (i : Nat) : Prop :=
  match (s.threads i).pc with
  | .ready =>
      s.sched.status i = .runnable ∨ (s.sched.status i = .finished ∧ s.nextOp env i = .ret)
  | .atAccess _ | .atCollective _ => s.sched.status i = .runnable
  | .atBarrier gen =>
      let now := s.sched.barrierGen ((s.geometry env).blockOf i)
      (s.sched.status i = .atBarrier ∧ gen = now) ∨ (s.sched.status i = .runnable ∧ gen + 1 = now)
  | .arrived c =>
      s.sched.status i = .runnable ∨
        (s.sched.status i = .atWarp ∧ s.sched.warpWait i = some (c.wait .arrive))
  | .departed c _ =>
      s.sched.status i = .runnable ∨
        (s.sched.status i = .atWarp ∧ s.sched.warpWait i = some (c.wait .depart))

/-- What holds of a launch that has not aborted. -/
structure WellFormed (s : Launch V) : Prop where
  inside : s.firstBlock < env.config.blocks
  turn : TurnTaken env s
  settled : ∀ i, Settled env s i

variable {env}

/-- A thread's standing depends on its own fields and its block's generation. -/
theorem Settled.congr {s s' : Launch V} {i : Nat} (h : Settled env s i)
    (block : s'.firstBlock = s.firstBlock) (thread : s'.threads i = s.threads i)
    (status : s'.sched.status i = s.sched.status i)
    (wait : s'.sched.warpWait i = s.sched.warpWait i)
    (gen : s'.sched.barrierGen ((s.geometry env).blockOf i) =
      s.sched.barrierGen ((s.geometry env).blockOf i)) : Settled env s' i := by
  have same_geometry : s'.geometry env = s.geometry env := by simp only [geometry, block]
  have same_op : s'.nextOp env i = s.nextOp env i := by simp only [nextOp, ctx, block, thread]
  unfold Settled at h ⊢
  rw [thread, status, wait, same_geometry, same_op, gen]
  exact h

theorem settled_of_ready {s : Launch V} {i : Nat} (pc : (s.threads i).pc = .ready)
    (running : s.sched.status i = .runnable) : Settled env s i := by
  unfold Settled
  rw [pc]
  exact .inl running

/-- A lane inside a collective is parked there or let go from there. -/
theorem settled_iff_of_waits {s : Launch V} {i : Nat} {wait : WarpWait}
    (waits : (s.threads i).pc.waits = some wait) :
    Settled env s i ↔ s.sched.status i = .runnable ∨
      (s.sched.status i = .atWarp ∧ s.sched.warpWait i = some wait) := by
  unfold Settled
  cases pc : (s.threads i).pc <;> simp_all [Pc.waits]

theorem Settled.pc_of_atBarrier {s : Launch V} {i : Nat} (h : Settled env s i)
    (parked : s.sched.status i = .atBarrier) :
    (s.threads i).pc = .atBarrier (s.sched.barrierGen ((s.geometry env).blockOf i)) := by
  unfold Settled at h
  cases pc : (s.threads i).pc <;> simp_all

theorem Settled.waits_of_atWarp {s : Launch V} {i : Nat} (h : Settled env s i)
    (parked : s.sched.status i = .atWarp) :
    ∃ wait, (s.threads i).pc.waits = some wait ∧ s.sched.warpWait i = some wait := by
  unfold Settled at h
  cases pc : (s.threads i).pc <;> simp_all [Pc.waits]

theorem Settled.ret_of_finished {s : Launch V} {i : Nat} (h : Settled env s i)
    (ended : s.sched.status i = .finished) :
    (s.threads i).pc = .ready ∧ s.nextOp env i = .ret := by
  unfold Settled at h
  cases pc : (s.threads i).pc <;> simp_all

theorem Settled.gen_of_atBarrier {s : Launch V} {i gen : Nat} (h : Settled env s i)
    (inside : (s.threads i).pc = .atBarrier gen) :
    (s.sched.status i = .atBarrier ∧ gen = s.sched.barrierGen ((s.geometry env).blockOf i)) ∨
      (s.sched.status i = .runnable ∧
        gen + 1 = s.sched.barrierGen ((s.geometry env).blockOf i)) := by
  unfold Settled at h
  rw [inside] at h
  exact h

theorem TurnTaken.of_turned {s s' : Launch V} {sched : Scheduler.State}
    (block : s'.firstBlock = s.firstBlock) (turned : Turned (s.geometry env) sched s'.sched) :
    TurnTaken env s' := by
  obtain ⟨i, hi, running, current⟩ := turned.chosen
  refine .inl ⟨i, ?_, current, ?_⟩
  · simpa only [geometry, block] using hi
  · rwa [turned.status]

/-- The thread holding the turn is runnable. -/
theorem WellFormed.running {s : Launch V} {slot : Nat} (wf : WellFormed env s)
    (current : s.sched.current = some slot) :
    slot < (s.geometry env).total ∧ s.sched.status slot = .runnable := by
  rcases wf.turn with ⟨i, hi, taken, running⟩ | ⟨nobody, -⟩
  · obtain rfl : slot = i := by
      rw [current] at taken
      exact Option.some.inj taken
    exact ⟨hi, running⟩
  · rw [current] at nobody
    cases nobody

/-- Who stays and keeps its status stands where it stood. -/
theorem settled_of_own {s s' : Launch V} {slot : Nat} (settled : ∀ i, Settled env s i)
    (block : s'.firstBlock = s.firstBlock) (gen : s'.sched.barrierGen = s.sched.barrierGen)
    (others : ∀ i, i ≠ slot → s'.threads i = s.threads i ∧
      s'.sched.status i = s.sched.status i ∧ s'.sched.warpWait i = s.sched.warpWait i)
    (own : Settled env s' slot) (i : Nat) : Settled env s' i := by
  by_cases mine : i = slot
  · rw [mine]
    exact own
  · obtain ⟨thread, status, wait⟩ := others i mine
    exact (settled i).congr block thread status wait (by rw [gen])

/-- A move that touches only its own thread and, in the scheduler, only that thread's
entries and the turn. -/
theorem WellFormed.of_own {s s' : Launch V} {slot : Nat} (wf : WellFormed env s)
    (block : s'.firstBlock = s.firstBlock) (turn : TurnTaken env s')
    (gen : s'.sched.barrierGen = s.sched.barrierGen)
    (others : ∀ i, i ≠ slot → s'.threads i = s.threads i ∧
      s'.sched.status i = s.sched.status i ∧ s'.sched.warpWait i = s.sched.warpWait i)
    (own : Settled env s' slot) : WellFormed env s' :=
  ⟨by rw [block]; exact wf.inside, turn, settled_of_own wf.settled block gen others own⟩

/-- A move that leaves the scheduler alone and its thread at the start of an operation. -/
theorem WellFormed.of_answer {s s' : Launch V} {slot : Nat} (wf : WellFormed env s)
    (current : s.sched.current = some slot) (block : s'.firstBlock = s.firstBlock)
    (sched : s'.sched = s.sched) (others : ∀ i, i ≠ slot → s'.threads i = s.threads i)
    (ready : (s'.threads slot).pc = .ready) : WellFormed env s' := by
  refine wf.of_own block ?_ (by rw [sched]) (fun i away => ⟨others i away, by rw [sched]; simp⟩) ?_
  · have same := wf.turn
    simp only [TurnTaken, geometry, block, sched] at same ⊢
    exact same
  · refine settled_of_ready ready ?_
    rw [sched]
    exact (wf.running current).2

/-- A barrier release lets go of a block whose threads are all inside it. -/
theorem settled_of_release {s s' : Launch V} {slot : Nat} (settled : ∀ i, Settled env s i)
    (block : s'.firstBlock = s.firstBlock)
    (others : ∀ i, i ≠ slot → s'.threads i = s.threads i)
    (own : (s'.threads slot).pc =
      .atBarrier (s.sched.barrierGen ((s.geometry env).blockOf slot)))
    (everyone : ∀ i, (s.geometry env).blockOf i = (s.geometry env).blockOf slot → i ≠ slot →
      s.sched.status i = .atBarrier)
    (rests : Rests s'.sched (Scheduler.barrierReleased (s.geometry env) slot s.sched)) (i : Nat) :
    Settled env s' i := by
  have same_geometry : s'.geometry env = s.geometry env := by simp only [geometry, block]
  by_cases mates : (s.geometry env).blockOf i = (s.geometry env).blockOf slot
  · have free : s'.sched.status i = .runnable := by
      rw [rests.status]
      simp [Scheduler.barrierReleased, Scheduler.setAll, Geometry.mem_blockRange, mates]
    have bumped : s'.sched.barrierGen ((s.geometry env).blockOf i) =
        s.sched.barrierGen ((s.geometry env).blockOf slot) + 1 := by
      rw [rests.barrierGen, mates]
      simp [Scheduler.barrierReleased]
    have inside : (s'.threads i).pc =
        .atBarrier (s.sched.barrierGen ((s.geometry env).blockOf slot)) := by
      by_cases mine : i = slot
      · rw [mine, own]
      · rw [others i mine, ← mates]
        exact (settled i).pc_of_atBarrier (everyone i mates mine)
    unfold Settled
    rw [inside]
    simp only
    rw [same_geometry, bumped]
    exact .inr ⟨free, rfl⟩
  · have mine : i ≠ slot := fun h => mates (by rw [h])
    refine (settled i).congr block (others i mine) ?_ ?_ ?_
    · rw [rests.status]
      simp [Scheduler.barrierReleased, Scheduler.setAll, Geometry.mem_blockRange, mates, mine]
    · rw [rests.warpWait]
      rfl
    · rw [rests.barrierGen]
      exact Function.update_of_ne mates ..

/-- The release of a rendezvous lets go of lanes parked in it. -/
theorem settled_of_rendezvous {s s' : Launch V} {slot : Nat} {wait : WarpWait}
    (settled : ∀ i, Settled env s i) (block : s'.firstBlock = s.firstBlock)
    (others : ∀ i, i ≠ slot → s'.threads i = s.threads i)
    (own : (s'.threads slot).pc.waits = some wait)
    (everyone : ∀ p, Scheduler.Mate (s.geometry env) slot wait.mask p →
      s.sched.status p = .atWarp ∧ s.sched.warpWait p = some wait)
    (rests : Rests s'.sched (Scheduler.rendezvousReleased (s.geometry env) slot wait s.sched))
    (i : Nat) : Settled env s' i := by
  by_cases member : i ∈ (s.geometry env).members ((s.geometry env).blockOf slot)
      ((s.geometry env).warpOf slot) wait.mask
  · have free : s'.sched.status i = .runnable := by
      rw [rests.status]
      simp [Scheduler.rendezvousReleased, Scheduler.setAll, member]
    by_cases mine : i = slot
    · have waits : (s'.threads i).pc.waits = some wait := by rw [mine, own]
      rw [settled_iff_of_waits waits]
      exact .inl free
    · obtain ⟨same_block, same_warp, named⟩ := (s.geometry env).mem_members.mp member
      have parked := everyone i ⟨⟨same_block, same_warp⟩, named, mine⟩
      obtain ⟨_, waits, -⟩ := (settled i).waits_of_atWarp parked.1
      rw [settled_iff_of_waits (by rw [others i mine, waits])]
      exact .inl free
  · have status : s'.sched.status i = Function.update s.sched.status slot .atWarp i := by
      rw [rests.status]
      simp [Scheduler.rendezvousReleased, Scheduler.setAll, member]
    have waits : s'.sched.warpWait i = Function.update s.sched.warpWait slot (some wait) i := by
      rw [rests.warpWait]
      simp [Scheduler.rendezvousReleased, Scheduler.setAll, member]
    by_cases mine : i = slot
    · subst mine
      rw [settled_iff_of_waits own]
      exact .inr ⟨by simp [status], by simp [waits]⟩
    · refine (settled i).congr block (others i mine) ?_ ?_ (by rw [rests.barrierGen]; rfl)
      · simp [status, mine]
      · simp [waits, mine]

/-- A lane that parks in a rendezvous waits there. -/
theorem WellFormed.of_parked {s s' : Launch V} {slot : Nat} {wait : WarpWait}
    (wf : WellFormed env s) (block : s'.firstBlock = s.firstBlock)
    (others : ∀ i, i ≠ slot → s'.threads i = s.threads i)
    (own : (s'.threads slot).pc.waits = some wait)
    (turned : Turned (s.geometry env) (Scheduler.rendezvousParked slot wait s.sched) s'.sched) :
    WellFormed env s' := by
  refine wf.of_own block (.of_turned block turned) turned.barrierGen
    (fun i h => ⟨others i h, ?_, ?_⟩) ?_
  · rw [turned.status]
    exact Function.update_of_ne h ..
  · rw [turned.warpWait]
    exact Function.update_of_ne h ..
  · rw [settled_iff_of_waits own, turned.status, turned.warpWait]
    exact .inr ⟨Function.update_self .., Function.update_self ..⟩

variable [BEq V]

theorem Moves.firstBlock {s s' : Launch V} {slot : Nat} {l : Label V} (move : Moves env s slot l s') :
    s'.firstBlock = s.firstBlock := by
  cases move <;> rfl

theorem Moves.others {s s' : Launch V} {slot i : Nat} {l : Label V} (move : Moves env s slot l s')
    (away : i ≠ slot) : s'.threads i = s.threads i := by
  cases move <;>
    simp [away, accessed, missed, slotted, barrierEntered, ctx, answer, setPc, report, turn]

/-- Every live move keeps the invariant. -/
theorem Moves.wellFormed {s s' : Launch V} {slot : Nat} {l : Label V} (wf : WellFormed env s)
    (current : s.sched.current = some slot) (move : Moves env s slot l s') :
    WellFormed env s' := by
  have running := wf.running current
  have away := fun i (h : i ≠ slot) => move.others h
  cases move with
  | finish pc op unwanted alone turned =>
    have standing : ∀ sched : Scheduler.State,
        sched.status = (Scheduler.finishMarked slot s.sched).status →
        sched.barrierGen = s.sched.barrierGen → sched.warpWait = s.sched.warpWait →
        TurnTaken env (s.turn sched) → WellFormed env (s.turn sched) := by
      intro sched status gen waits turn
      have own : Settled env (s.turn sched) slot := by
        unfold Settled
        simp only [turn_threads, pc]
        refine .inr ⟨?_, op⟩
        rw [turn_sched, status]
        exact Function.update_self ..
      refine wf.of_own rfl turn gen (fun i h => ⟨rfl, ?_, by rw [turn_sched, waits]⟩) own
      rw [turn_sched, status]
      exact Function.update_of_ne h ..
    rcases turned with turned | ⟨rfl, ended⟩
    · exact standing _ turned.status turned.barrierGen turned.warpWait (.of_turned rfl turned)
    · exact standing _ rfl rfl rfl (.inr ⟨rfl, ended⟩)
  | fence pc ordering op => exact wf.of_answer current rfl rfl away (by simp)
  | arrive pc loc op alive waiting turned =>
    refine wf.of_own rfl (.of_turned rfl turned) turned.barrierGen (fun i h => ⟨away i h, ?_, ?_⟩) ?_
    · rw [turn_sched, turned.status]
      exact Function.update_of_ne h ..
    · rw [turn_sched, turned.warpWait]
      rfl
    · unfold Settled
      simp only [turn_threads, barrierEntered, setPc_self, turn_sched]
      refine .inl ⟨?_, ?_⟩
      · rw [turned.status]
        exact Function.update_self ..
      · rw [turned.barrierGen]
        rfl
  | release pc loc op everyone turned =>
    refine ⟨wf.inside, .of_turned rfl turned,
      settled_of_release wf.settled rfl away ?_ everyone turned.rests⟩
    simp only [turn_threads, barrierEntered, setPc_self]
    rfl
  | yieldAccess pc m op turned =>
    refine wf.of_own rfl (.of_turned rfl turned) turned.barrierGen
      (fun i h => ⟨away i h, by rw [turn_sched, turned.status], by rw [turn_sched, turned.warpWait]⟩) ?_
    unfold Settled
    simp only [turn_threads, setPc_self, turn_sched, turned.status]
    exact running.2
  | yieldCollective pc c op turned =>
    refine wf.of_own rfl (.of_turned rfl turned) turned.barrierGen
      (fun i h => ⟨away i h, by rw [turn_sched, turned.status], by rw [turn_sched, turned.warpWait]⟩) ?_
    unfold Settled
    simp only [turn_threads, setPc_self, turn_sched, turned.status]
    exact running.2
  | access m pc new resp inside updated =>
    exact wf.of_answer current rfl rfl away (by simp [accessed, ctx])
  | miss m pc f act outside => exact wf.of_answer current rfl rfl away (by simp)
  | depart gen pc => exact wf.of_answer current rfl rfl away (by simp)
  | publish c pc checked alive agree missing turned =>
    exact wf.of_parked rfl away (by simp [Pc.waits]) turned
  | gather c pc checked agree everyone turned =>
    exact ⟨wf.inside, .of_turned rfl turned,
      settled_of_rendezvous wf.settled rfl away (by simp [Pc.waits]) everyone turned.rests⟩
  | exchange c pc answer problems combined alive agree missing turned =>
    exact wf.of_parked rfl away (by simp [Pc.waits]) turned
  | disperse c pc answer problems combined agree everyone turned =>
    exact ⟨wf.inside, .of_turned rfl turned,
      settled_of_rendezvous wf.settled rfl away (by simp [Pc.waits]) everyone turned.rests⟩
  | leave c answer pc => exact wf.of_answer current rfl rfl away (by simp)

end Launch

end Riri
