import Riri.Run.Standing
import Riri.Theory.Meeting

/-!
# Courses

A thread can keep others waiting at three kinds of operation: a barrier, a collective and its
return. Where the sequence of these does not depend on what threads read, a thread goes along a
fixed course, and the threads of a wave are agents that meet. A barrier or a collective has two
halves; the second half of a barrier is the thread's own way out.
-/
namespace Riri

variable {V : Type}

/-- What a thread does that others can wait for. -/
inductive Milestone where
  | barrier
  | collective (mask : Mask) (loc : Location) (op : WarpOp)
  | exit
  deriving DecidableEq

def Op.milestone? : Op V → Option Milestone
  | .ret => some .exit
  | .syncThreads _ => some .barrier
  | .warp c => some (.collective c.mask c.loc c.exchange.op)
  | .panic _ | .fence _ | .mem _ => none

/-- The milestones a thread has behind it, by the answers it has had. -/
def Kernel.milestones (kernel : Kernel V) (block thread : Nat) (answers : List (Resp V)) :
    List Milestone :=
  (List.range answers.length).filterMap fun k => (kernel block thread (answers.take k)).milestone?

/-- The milestones of every thread of a grid, by block and thread. -/
abbrev Course := Nat → Nat → Nat → Milestone

/-- Half of a milestone, with those it is shared with. -/
inductive Stage where
  | barrier (block : Nat)
  | past (slot : Nat)
  | half (block warp : Nat) (wait : WarpWait)
  | exit
  deriving DecidableEq

namespace Milestone

variable (g : Geometry) (i : Nat)

def first : Milestone → Stage
  | .barrier => .barrier (g.blockOf i)
  | .collective mask loc op => .half (g.blockOf i) (g.warpOf i) ⟨.arrive, mask, loc, op⟩
  | .exit => .exit

def second : Milestone → Stage
  | .barrier => .past i
  | .collective mask loc op => .half (g.blockOf i) (g.warpOf i) ⟨.depart, mask, loc, op⟩
  | .exit => .exit

end Milestone

/-- Who has to be there: nobody shares a return. -/
def Stage.members (g : Geometry) : Stage → Set Nat
  | .barrier block => {i | i < g.total ∧ g.blockOf i = block}
  | .past slot => {i | i < g.total ∧ i = slot}
  | .half block warp wait =>
      {i | i < g.total ∧ g.blockOf i = block ∧ g.warpOf i = warp ∧
        wait.mask.names (g.laneOf i) = true}
  | .exit => ∅

namespace Config

variable (c : Config) (course : Course) (firstBlock : Nat)

def courseAt (i : Nat) : Nat → Milestone :=
  course (firstBlock + i / c.threadsPerBlock) (i % c.threadsPerBlock)

/-- The threads of that wave along their courses. -/
def meeting : Meeting Nat Stage where
  seq i k :=
    let milestone := c.courseAt course firstBlock i (k / 2)
    if k % 2 = 0 then milestone.first (c.geometry firstBlock) i
    else milestone.second (c.geometry firstBlock) i
  members := Stage.members (c.geometry firstBlock)

variable {c course firstBlock} {i : Nat}

theorem seq_even (k : Nat) : (c.meeting course firstBlock).seq i (2 * k) =
    (c.courseAt course firstBlock i k).first (c.geometry firstBlock) i := by
  simp only [meeting, Nat.mul_mod_right, if_true, Nat.mul_div_cancel_left _ Nat.two_pos]

theorem seq_odd (k : Nat) : (c.meeting course firstBlock).seq i (2 * k + 1) =
    (c.courseAt course firstBlock i k).second (c.geometry firstBlock) i := by
  have odd : (2 * k + 1) % 2 = 1 := by omega
  have half : (2 * k + 1) / 2 = k := by omega
  simp only [meeting, odd, half, one_ne_zero, if_false]

/-- A thread has been at either half of a collective as often as at the collective. -/
theorem times_half {mask : Mask} {loc : Location} {op : WarpOp} (phase : Phase) (k : Nat) :
    (c.meeting course firstBlock).times i (.half ((c.geometry firstBlock).blockOf i)
        ((c.geometry firstBlock).warpOf i) ⟨phase, mask, loc, op⟩) (2 * k) =
      Nat.count (fun j => c.courseAt course firstBlock i j = .collective mask loc op) k := by
  induction k with
  | zero => rfl
  | succ k ih =>
    rw [show 2 * (k + 1) = 2 * k + 1 + 1 from rfl, Meeting.times_succ, Meeting.times_succ, ih,
      seq_even, seq_odd, Nat.count_succ]
    cases c.courseAt course firstBlock i k with
    | barrier | exit => simp [Milestone.first, Milestone.second]
    | collective mask' loc' op' => cases phase <;> simp [Milestone.first, Milestone.second]

/-- A thread at a half of a collective is that far into its milestone. -/
theorem of_seq_half {k block warp : Nat} {wait : WarpWait}
    (here : (c.meeting course firstBlock).seq i k = .half block warp wait) :
    c.courseAt course firstBlock i (k / 2) = .collective wait.mask wait.loc wait.op ∧
      ((wait.phase = .arrive ∧ k = 2 * (k / 2)) ∨ (wait.phase = .depart ∧ k = 2 * (k / 2) + 1)) := by
  simp only [meeting] at here
  split at here
  next even =>
    cases at_ : c.courseAt course firstBlock i (k / 2) with
    | collective mask loc op =>
      rw [at_] at here
      obtain ⟨-, -, rfl⟩ := Stage.half.inj here
      exact ⟨rfl, .inl ⟨rfl, by omega⟩⟩
    | barrier | exit =>
      rw [at_] at here
      cases here
  next odd =>
    cases at_ : c.courseAt course firstBlock i (k / 2) with
    | collective mask loc op =>
      rw [at_] at here
      obtain ⟨-, -, rfl⟩ := Stage.half.inj here
      exact ⟨rfl, .inr ⟨rfl, by omega⟩⟩
    | barrier | exit =>
      rw [at_] at here
      cases here

end Config

/-- How many halves of the milestone it is at a thread has behind it. -/
def Pc.halves (status : Status) : Pc V → Nat
  | .ready | .atAccess _ | .atCollective _ => 0
  | .atBarrier _ => if status = .atBarrier then 0 else 1
  | .arrived _ => if status = .atWarp then 0 else 1
  | .departed _ _ => if status = .atWarp then 1 else 2

theorem Kernel.milestones_concat (kernel : Kernel V) (block thread : Nat) (answers : List (Resp V))
    (a : Resp V) :
    kernel.milestones block thread (answers ++ [a]) =
      kernel.milestones block thread answers ++ (kernel block thread answers).milestone?.toList := by
  unfold Kernel.milestones
  rw [List.length_append, List.length_singleton, List.range_succ, List.filterMap_append]
  congr 1
  · refine List.filterMap_congr fun k member => ?_
    rw [List.take_append_of_le_length (List.mem_range.mp member).le]
  · rw [List.filterMap_cons, List.filterMap_nil, List.take_left]
    cases (kernel block thread answers).milestone? <;> rfl

/-- A lane that joins a half of a collective stays behind it while it is parked there. -/
theorem Joins.halves {g : Geometry} {i : Nat} {pc pc' : Pc V} {wait : WarpWait} (joins : Joins g i pc pc' wait) :
    pc'.halves .atWarp = pc.halves .runnable ∧ pc'.halves .runnable = pc.halves .runnable + 1 := by
  cases joins <;> exact ⟨rfl, rfl⟩

/-- A lane that is let go from a half of a collective has it behind it. -/
theorem Pc.halves_of_waits {pc : Pc V} {wait : WarpWait} (waits : pc.waits = some wait) :
    pc.halves .runnable = pc.halves .atWarp + 1 := by
  cases pc with
  | arrived | departed => rfl
  | _ => cases waits

namespace Launch

open Scheduler (Mate)

variable (env : Env V) (course : Course)

/-- The milestones a thread has behind it. -/
def behind (s : Launch V) (i : Nat) : List Milestone :=
  env.kernel.milestones (s.ctx env i).block (s.ctx env i).thread (s.threads i).answers

/-- These and the one it is at, if it is at one. -/
def asked (s : Launch V) (i : Nat) : List Milestone :=
  s.behind env i ++ (s.nextOp env i).milestone?.toList

/-- Every thread of the wave has asked for the milestones of its course so far. -/
def Along (s : Launch V) : Prop :=
  ∀ i < (s.geometry env).total, ∀ k m, (s.asked env i)[k]? = some m →
    course (s.ctx env i).block (s.ctx env i).thread k = m

def position (s : Launch V) (i : Nat) : Nat :=
  2 * (s.behind env i).length + (s.threads i).pc.halves (s.sched.status i)

/-- What the threads of the wave go along. -/
def meeting (s : Launch V) : Meeting Nat Stage := env.config.meeting course s.firstBlock

variable {env course} {s s' : Launch V} {i me : Nat}

theorem mem_barrier {block : Nat} :
    i ∈ (s.meeting env course).members (.barrier block) ↔
      i < (s.geometry env).total ∧ (s.geometry env).blockOf i = block := Iff.rfl

theorem mem_half {block warp : Nat} {wait : WarpWait} :
    i ∈ (s.meeting env course).members (.half block warp wait) ↔
      i < (s.geometry env).total ∧ (s.geometry env).blockOf i = block ∧
        (s.geometry env).warpOf i = warp ∧ wait.mask.names ((s.geometry env).laneOf i) = true :=
  Iff.rfl

/-! ### Where a thread is on its course -/

theorem Along.next (along : Along env course s) (inside : i < (s.geometry env).total)
    {m : Milestone} (op : (s.nextOp env i).milestone? = some m) :
    env.config.courseAt course s.firstBlock i (s.behind env i).length = m := by
  refine along i inside _ m ?_
  unfold asked
  rw [op, Option.toList_some, List.getElem?_concat_length]

theorem Along.first (along : Along env course s) (inside : i < (s.geometry env).total)
    {m : Milestone} (op : (s.nextOp env i).milestone? = some m) :
    (s.meeting env course).seq i (2 * (s.behind env i).length) = m.first (s.geometry env) i := by
  rw [meeting, Config.seq_even, along.next inside op]
  rfl

theorem Along.second (along : Along env course s) (inside : i < (s.geometry env).total)
    {m : Milestone} (op : (s.nextOp env i).milestone? = some m) :
    (s.meeting env course).seq i (2 * (s.behind env i).length + 1) =
      m.second (s.geometry env) i := by
  rw [meeting, Config.seq_odd, along.next inside op]
  rfl

/-- A lane parked at a collective is at that half of it. -/
theorem Standing.stage_of_parked (standing : Standing env s) (along : Along env course s)
    (inside : i < (s.geometry env).total) {wait : WarpWait} (parked : s.sched.status i = .atWarp)
    (waits : s.sched.warpWait i = some wait) :
    (s.meeting env course).seq i (s.position env i) =
      .half ((s.geometry env).blockOf i) ((s.geometry env).warpOf i) wait := by
  obtain ⟨w, at_wait, recorded⟩ := (standing.settled i).waits_of_atWarp parked
  obtain rfl := Option.some.inj (waits.symm.trans recorded)
  have op := standing.asked i
  unfold position
  cases pc : (s.threads i).pc with
  | arrived c =>
    rw [pc] at at_wait op
    obtain rfl := Option.some.inj at_wait
    rw [Pc.halves, if_pos parked, Nat.add_zero,
      along.first inside (by rw [show s.nextOp env i = .warp c from op]; rfl)]
    rfl
  | departed c answer =>
    rw [pc] at at_wait op
    obtain rfl := Option.some.inj at_wait
    rw [Pc.halves, if_pos parked,
      along.second inside (by rw [show s.nextOp env i = .warp c from op]; rfl)]
    rfl
  | _ =>
    rw [pc] at at_wait
    cases at_wait

theorem Standing.stage_of_waiting (standing : Standing env s) (along : Along env course s)
    (inside : i < (s.geometry env).total) (parked : s.sched.status i = .atBarrier) :
    (s.meeting env course).seq i (s.position env i) = .barrier ((s.geometry env).blockOf i) := by
  have pc := (standing.settled i).pc_of_atBarrier parked
  have op := standing.asked i
  rw [pc] at op
  obtain ⟨loc, op⟩ := op
  unfold position
  rw [pc, Pc.halves, if_pos parked, Nat.add_zero, along.first inside (by rw [op]; rfl)]
  rfl

theorem Standing.stage_of_returned (standing : Standing env s) (along : Along env course s)
    (inside : i < (s.geometry env).total) (returned : s.sched.status i = .finished) :
    (s.meeting env course).seq i (s.position env i) = .exit := by
  obtain ⟨pc, op⟩ := (standing.settled i).ret_of_finished returned
  unfold position
  rw [pc, Pc.halves, Nat.add_zero, along.first inside (by rw [op]; rfl)]
  rfl

/-- A lane about to park at a collective is at that half of it. -/
theorem Standing.stage_of_joins (standing : Standing env s) (along : Along env course s)
    (inside : me < (s.geometry env).total) (running : s.sched.status me = .runnable) {pc' : Pc V}
    {wait : WarpWait} (joins : Joins (s.geometry env) me (s.threads me).pc pc' wait) :
    (s.meeting env course).seq me (s.position env me) =
      .half ((s.geometry env).blockOf me) ((s.geometry env).warpOf me) wait := by
  have op := standing.asked me
  unfold position
  generalize (s.threads me).pc = pc at joins op
  cases joins with
  | arrive c checked =>
    rw [Pc.halves, Nat.add_zero,
      along.first inside (by rw [show s.nextOp env me = .warp c from op]; rfl)]
    rfl
  | depart c answer =>
    rw [Pc.halves, running, if_neg (by decide),
      along.second inside (by rw [show s.nextOp env me = .warp c from op]; rfl)]
    rfl

/-! ### Steps along the courses -/

theorem behind_congr (firstBlock : s'.firstBlock = s.firstBlock)
    (answers : (s'.threads i).answers = (s.threads i).answers) :
    s'.behind env i = s.behind env i := by
  simp only [behind, ctx, firstBlock, answers]

theorem position_congr (firstBlock : s'.firstBlock = s.firstBlock)
    (thread : s'.threads i = s.threads i) (status : s'.sched.status i = s.sched.status i) :
    s'.position env i = s.position env i := by
  unfold position
  rw [behind_congr firstBlock (by rw [thread]), thread, status]

theorem position_of_pc {pc' : Pc V} (firstBlock : s'.firstBlock = s.firstBlock)
    (thread : s'.threads i = ⟨pc', (s.threads i).answers⟩) :
    s'.position env i = 2 * (s.behind env i).length + pc'.halves (s'.sched.status i) := by
  unfold position
  rw [behind_congr firstBlock (by rw [thread]), thread]

/-- An answer puts the operation behind the thread. -/
theorem position_of_answer {a : Resp V} (firstBlock : s'.firstBlock = s.firstBlock)
    (thread : s'.threads i = ⟨.ready, (s.threads i).answers ++ [a]⟩) :
    s'.position env i = 2 * (s.asked env i).length := by
  unfold position asked behind nextOp
  rw [thread, Kernel.milestones_concat]
  simp only [ctx, firstBlock, Pc.halves, Nat.add_zero]

/-- Nobody moves but `me`, and only inside its half. -/
theorem position_of_own (firstBlock : s'.firstBlock = s.firstBlock)
    (others : ∀ j, j ≠ me → s'.threads j = s.threads j ∧ s'.sched.status j = s.sched.status j)
    (own : s'.position env me = s.position env me) : s'.position env = s.position env := by
  funext j
  by_cases mine : j = me
  · rw [mine, own]
  · exact position_congr firstBlock (others j mine).1 (others j mine).2

/-- A block that is let go is past the first half of its barrier. -/
theorem Standing.release_meets (standing : Standing env s) (along : Along env course s)
    (inside : me < (s.geometry env).total) (pc : (s.threads me).pc = .ready) {loc : Location}
    (op : s.nextOp env me = .syncThreads loc)
    (everyone : ∀ j, (s.geometry env).blockOf j = (s.geometry env).blockOf me → j ≠ me →
      s.sched.status j = .atBarrier)
    (stands : Stands s'
      (s.setPc me (.atBarrier (s.sched.barrierGen ((s.geometry env).blockOf me))))
      (Scheduler.barrierReleased (s.geometry env) me s.sched)) :
    (s.meeting env course).Moves (.barrier ((s.geometry env).blockOf me)) (s.position env)
      (s'.position env) := by
  have status : ∀ j, s'.sched.status j =
      if (s.geometry env).blockOf j = (s.geometry env).blockOf me then .runnable
      else s.sched.status j := by
    intro j
    rw [stands.rests.status]
    by_cases mates : (s.geometry env).blockOf j = (s.geometry env).blockOf me
    · simp [Scheduler.barrierReleased, Scheduler.setAll, (s.geometry env).mem_blockRange, mates]
    · have own : j ≠ me := fun same => mates (by rw [same])
      simp [Scheduler.barrierReleased, Scheduler.setAll, (s.geometry env).mem_blockRange, mates, own]
  have firstBlock : s'.firstBlock = s.firstBlock := stands.firstBlock
  have others : ∀ j, j ≠ me → s'.threads j = s.threads j := by
    intro j own
    rw [stands.threads, setPc_of_ne _ _ own]
  have mine : s.position env me = 2 * (s.behind env me).length := by
    rw [position, pc, Pc.halves, Nat.add_zero]
  have after : s'.position env me = 2 * (s.behind env me).length +
      Pc.halves (s'.sched.status me) (.atBarrier (V := V)
        (s.sched.barrierGen ((s.geometry env).blockOf me))) :=
    position_of_pc firstBlock (by rw [stands.threads, setPc_self])
  constructor
  · intro j member
    obtain ⟨exists_, mates⟩ := mem_barrier.mp member
    by_cases own : j = me
    · subst own
      rw [mine, along.first exists_ (by rw [op]; rfl)]
      rfl
    · rw [standing.stage_of_waiting along exists_ (everyone j mates own), mates]
  · intro j member
    obtain ⟨-, mates⟩ := mem_barrier.mp member
    have free : s'.sched.status j = .runnable := by rw [status, if_pos mates]
    by_cases own : j = me
    · subst own
      rw [after, free, mine]
      rfl
    · have parked := everyone j mates own
      have waits := (standing.settled j).pc_of_atBarrier parked
      unfold position
      rw [behind_congr firstBlock (by rw [others j own]), others j own, waits, free, parked]
      rfl
  · intro j outside
    have apart : (s.geometry env).blockOf j ≠ (s.geometry env).blockOf me := by
      intro mates
      refine outside (mem_barrier.mpr ⟨?_, mates⟩)
      exact (s.geometry env).lt_total_of_blockOf (by
        rw [mates]
        exact (s.geometry env).blockOf_lt inside)
    have own : j ≠ me := fun same => apart (by rw [same])
    exact position_congr firstBlock (others j own) (by rw [status, if_neg apart])

/-- A group that is let go is past that half of its collective. -/
theorem Standing.gather_meets (standing : Standing env s) (along : Along env course s)
    (inside : me < (s.geometry env).total) (running : s.sched.status me = .runnable) {pc' : Pc V}
    {wait : WarpWait} (joins : Joins (s.geometry env) me (s.threads me).pc pc' wait)
    (everyone : ∀ p, Mate (s.geometry env) me wait.mask p →
      s.sched.status p = .atWarp ∧ s.sched.warpWait p = some wait)
    (stands : Stands s' (s.setPc me pc')
      (Scheduler.rendezvousReleased (s.geometry env) me wait s.sched)) :
    (s.meeting env course).Moves
      (.half ((s.geometry env).blockOf me) ((s.geometry env).warpOf me) wait) (s.position env)
      (s'.position env) := by
  have firstBlock : s'.firstBlock = s.firstBlock := stands.firstBlock
  have others : ∀ j, j ≠ me → s'.threads j = s.threads j := by
    intro j own
    rw [stands.threads, setPc_of_ne _ _ own]
  have after : s'.position env me =
      2 * (s.behind env me).length + pc'.halves (s'.sched.status me) :=
    position_of_pc firstBlock (by rw [stands.threads, setPc_self])
  have member_iff : ∀ j, j ∈ (s.geometry env).members ((s.geometry env).blockOf me)
      ((s.geometry env).warpOf me) wait.mask ↔
      j ∈ (s.meeting env course).members
        (.half ((s.geometry env).blockOf me) ((s.geometry env).warpOf me) wait) := by
    intro j
    rw [(s.geometry env).mem_members, mem_half]
    refine ⟨fun member => ⟨?_, member⟩, And.right⟩
    refine (s.geometry env).lt_total_of_blockOf ?_
    rw [member.1]
    exact (s.geometry env).blockOf_lt inside
  have free : ∀ j, j ∈ (s.meeting env course).members
      (.half ((s.geometry env).blockOf me) ((s.geometry env).warpOf me) wait) →
      s'.sched.status j = .runnable := by
    intro j member
    rw [stands.rests.status]
    simp [Scheduler.rendezvousReleased, Scheduler.setAll, (member_iff j).mpr member]
  have mates : ∀ j, j ∈ (s.meeting env course).members
      (.half ((s.geometry env).blockOf me) ((s.geometry env).warpOf me) wait) → j ≠ me →
      s.sched.status j = .atWarp ∧ s.sched.warpWait j = some wait := by
    intro j member own
    obtain ⟨-, block, warp, named⟩ := mem_half.mp member
    exact everyone j ⟨⟨block, warp⟩, named, own⟩
  constructor
  · intro j member
    by_cases own : j = me
    · subst own
      exact standing.stage_of_joins along inside running joins
    · obtain ⟨exists_, block, warp, -⟩ := mem_half.mp member
      obtain ⟨parked, waits⟩ := mates j member own
      rw [standing.stage_of_parked along exists_ parked waits, block, warp]
  · intro j member
    by_cases own : j = me
    · subst own
      rw [after, free j member, joins.halves.2, position, running]
      rfl
    · obtain ⟨parked, waits⟩ := mates j member own
      obtain ⟨w, at_wait, -⟩ := (standing.settled j).waits_of_atWarp parked
      unfold position
      rw [behind_congr firstBlock (by rw [others j own]), others j own, free j member, parked,
        Pc.halves_of_waits at_wait]
      rfl
  · intro j outside
    have own : j ≠ me := by
      rintro rfl
      exact outside (mem_half.mpr ⟨inside, rfl, rfl, standing.names joins⟩)
    refine position_congr firstBlock (others j own) ?_
    rw [stands.rests.status]
    simp [Scheduler.rendezvousReleased, Scheduler.setAll, mt (member_iff j).mp outside, own]

/-- A step that moves its own thread alone, inside a half. -/
theorem position_of_stands {pc' : Pc V} {sched : Scheduler.State}
    (stands : Stands s' (s.setPc me pc') sched)
    (status : ∀ j, j ≠ me → sched.status j = s.sched.status j)
    (halves : pc'.halves (sched.status me) = (s.threads me).pc.halves (s.sched.status me)) :
    s'.position env = s.position env := by
  have firstBlock : s'.firstBlock = s.firstBlock := stands.firstBlock
  refine position_of_own firstBlock (fun j (own : j ≠ me) => ⟨?_, ?_⟩) ?_
  · rw [stands.threads, setPc_of_ne _ _ own]
  · rw [stands.rests.status, status j own]
  · rw [position_of_pc firstBlock (by rw [stands.threads, setPc_self]), stands.rests.status, halves]
    rfl

/-- A lane that leaves a collective has had both halves behind it. -/
theorem Standing.position_of_leave (standing : Standing env s)
    (running : s.sched.status me = .runnable) {c : Collective V} {a : Resp V}
    (pc : (s.threads me).pc = .departed c a) (stands : Stands s' (s.answer me a) s.sched) :
    s'.position env = s.position env := by
  have firstBlock : s'.firstBlock = s.firstBlock := stands.firstBlock
  have op := standing.asked me
  rw [pc] at op
  refine position_of_own firstBlock (fun j (own : j ≠ me) => ⟨?_, ?_⟩) ?_
  · rw [stands.threads, answer_of_ne _ _ own]
  · rw [stands.rests.status]
  · rw [position_of_answer firstBlock (by rw [stands.threads, answer_self]), Launch.asked,
      show s.nextOp env me = .warp c from op, position, pc, running]
    simp [Op.milestone?, Pc.halves, Nat.mul_add]

/-- A step takes its wave's threads past at most one half of a milestone, which its members
share. -/
theorem Shifts.meets (shifts : Shifts env s me s') (standing : Standing env s)
    (along : Along env course s) (inside : me < (s.geometry env).total)
    (running : s.sched.status me = .runnable) :
    s'.position env = s.position env ∨
      ∃ e, (s.meeting env course).Moves e (s.position env) (s'.position env) := by
  have firstBlock := shifts.firstBlock
  have others := fun j (own : j ≠ me) => shifts.others own
  cases shifts with
  | finish pc op stands =>
    have others : ∀ j, j ≠ me →
        s'.threads j = s.threads j ∧ s'.sched.status j = s.sched.status j := by
      intro j own
      refine ⟨others j own, ?_⟩
      rw [stands.rests.status]
      exact Function.update_of_ne own ..
    · refine .inl (position_of_own firstBlock others ?_)
      unfold position
      rw [behind_congr firstBlock (by rw [stands.threads]), stands.threads, pc]
      rfl
  | arrive pc loc op waiting stands =>
    refine .inl (position_of_stands stands (fun j own => Function.update_of_ne own ..) ?_)
    rw [show (Scheduler.barrierParked (s.geometry env) me loc s.sched).status me = .atBarrier from
      Function.update_self .., pc]
    rfl
  | release pc loc op everyone stands =>
    exact .inr ⟨_, standing.release_meets along inside pc op everyone stands⟩
  | access pc m op stands | collective pc c op stands =>
    refine .inl (position_of_stands stands (fun j own => rfl) ?_)
    rw [pc]
    rfl
  | answer a pc stands =>
    have others : ∀ j, j ≠ me →
        s'.threads j = s.threads j ∧ s'.sched.status j = s.sched.status j :=
      fun j own => ⟨others j own, by rw [stands.rests.status]⟩
    have after : s'.position env me = 2 * (s.asked env me).length :=
      position_of_answer firstBlock (by rw [stands.threads, answer_self])
    have op := standing.asked me
    rcases pc with ⟨pc, ordering, fence⟩ | ⟨m, pc⟩ | ⟨gen, pc⟩ | ⟨c, pc⟩
    · refine .inl (position_of_own firstBlock others ?_)
      rw [after, Launch.asked, fence, position, pc]
      simp [Op.milestone?, Pc.halves]
    · rw [pc] at op
      refine .inl (position_of_own firstBlock others ?_)
      rw [after, Launch.asked, show s.nextOp env me = .mem m from op, position, pc]
      simp [Op.milestone?, Pc.halves]
    · rw [pc] at op
      obtain ⟨loc, op⟩ := op
      have before : s.position env me = 2 * (s.behind env me).length + 1 := by
        rw [position, pc, running]
        rfl
      refine .inr ⟨.past me, ?_, ?_, ?_⟩
      · rintro j ⟨-, rfl⟩
        rw [before, along.second inside (by rw [op]; rfl)]
        rfl
      · rintro j ⟨-, rfl⟩
        rw [after, before, Launch.asked, op]
        simp [Op.milestone?, Nat.mul_add]
      · intro j outside
        have away : j ≠ me := by
          rintro rfl
          exact outside ⟨inside, rfl⟩
        exact position_congr firstBlock (others j away).1 (others j away).2
    · exact .inl (standing.position_of_leave running pc stands)
  | park joins missing stands =>
    refine .inl (position_of_stands stands (fun j own => Function.update_of_ne own ..) ?_)
    rw [show (Scheduler.rendezvousParked me _ s.sched).status me = .atWarp from
      Function.update_self .., joins.halves.1, running]
  | gather joins everyone stands =>
    exact .inr ⟨_, standing.gather_meets along inside running joins everyone stands⟩

/-- A thread that cannot run is where its status says. -/
theorem Standing.stage_of_idle (standing : Standing env s) (along : Along env course s)
    (inside : i < (s.geometry env).total) (idle : s.sched.status i ≠ .runnable) :
    (s.sched.status i = .finished ∧
        (s.meeting env course).seq i (s.position env i) = .exit) ∨
      (s.sched.status i = .atBarrier ∧ (s.meeting env course).seq i (s.position env i) =
        .barrier ((s.geometry env).blockOf i)) ∨
      ∃ wait, s.sched.status i = .atWarp ∧ s.sched.warpWait i = some wait ∧
        (s.meeting env course).seq i (s.position env i) =
          .half ((s.geometry env).blockOf i) ((s.geometry env).warpOf i) wait := by
  cases status : s.sched.status i with
  | runnable => exact absurd status idle
  | finished => exact .inl ⟨rfl, standing.stage_of_returned along inside status⟩
  | atBarrier => exact .inr (.inl ⟨rfl, standing.stage_of_waiting along inside status⟩)
  | atWarp =>
    obtain ⟨wait, -, waits⟩ := (standing.settled i).waits_of_atWarp status
    exact .inr (.inr ⟨wait, rfl, waits, standing.stage_of_parked along inside status waits⟩)

/-! ### Threads that cannot run, read off their courses -/

theorem Standing.returned_of_stage (standing : Standing env s) (along : Along env course s)
    (inside : i < (s.geometry env).total) (idle : s.sched.status i ≠ .runnable)
    (at_ : (s.meeting env course).seq i (s.position env i) = .exit) :
    s.sched.status i = .finished := by
  rcases standing.stage_of_idle along inside idle with ⟨gone, -⟩ | ⟨-, other⟩ | ⟨w, -, -, other⟩
  · exact gone
  · cases at_.symm.trans other
  · cases at_.symm.trans other

theorem Standing.waiting_of_stage (standing : Standing env s) (along : Along env course s)
    (inside : i < (s.geometry env).total) (idle : s.sched.status i ≠ .runnable) {block : Nat}
    (at_ : (s.meeting env course).seq i (s.position env i) = .barrier block) :
    s.sched.status i = .atBarrier := by
  rcases standing.stage_of_idle along inside idle with ⟨-, other⟩ | ⟨parked, -⟩ | ⟨w, -, -, other⟩
  · cases at_.symm.trans other
  · exact parked
  · cases at_.symm.trans other

theorem Standing.parked_of_stage (standing : Standing env s) (along : Along env course s)
    (inside : i < (s.geometry env).total) (idle : s.sched.status i ≠ .runnable) {block warp : Nat}
    {wait : WarpWait}
    (at_ : (s.meeting env course).seq i (s.position env i) = .half block warp wait) :
    s.sched.status i = .atWarp ∧ s.sched.warpWait i = some wait := by
  rcases standing.stage_of_idle along inside idle with
    ⟨-, other⟩ | ⟨-, other⟩ | ⟨w, parked, waits, other⟩
  · cases at_.symm.trans other
  · cases at_.symm.trans other
  · obtain ⟨-, -, rfl⟩ := Stage.half.inj (at_.symm.trans other)
    exact ⟨parked, waits⟩

/-- Where nobody can run nothing more can take place. -/
theorem Standing.stuck (standing : Standing env s) (along : Along env course s)
    (idle : ∀ i < (s.geometry env).total, s.sched.status i ≠ .runnable) :
    (s.meeting env course).Stuck (s.position env) := by
  rintro e ⟨i, member, here⟩
  have inside : i < (s.geometry env).total := by
    cases e with
    | barrier block => exact (mem_barrier.mp member).1
    | half block warp wait => exact (mem_half.mp member).1
    | past slot => exact member.1
    | exit => cases member
  have mates : ∀ j, (s.geometry env).blockOf j = (s.geometry env).blockOf i →
      j < (s.geometry env).total := by
    intro j block
    refine (s.geometry env).lt_total_of_blockOf ?_
    rw [block]
    exact (s.geometry env).blockOf_lt inside
  rcases standing.stage_of_idle along inside (idle i inside) with
    ⟨-, at_⟩ | ⟨parked, at_⟩ | ⟨wait, parked, waits, at_⟩
  · rw [← here, at_] at member
    cases member
  · obtain ⟨j, block, elsewhere⟩ := standing.waiting.barrier parked
    rw [← here, at_]
    exact ⟨j, mem_barrier.mpr ⟨mates j block, block⟩, fun there => elsewhere
      (standing.waiting_of_stage along (mates j block) (idle j (mates j block)) there)⟩
  · obtain ⟨p, mate, absent⟩ := standing.waiting.warp parked waits
    have exists_ := mates p mate.1.1
    rw [← here, at_]
    exact ⟨p, mem_half.mpr ⟨exists_, mate.1.1, mate.1.2, mate.2.1⟩, fun there => absent
      (standing.parked_of_stage along exists_ (idle p exists_) there)⟩

/-! ### Along a run -/

theorem reached_of_start (threads : ∀ i, s.threads i = ⟨.ready, []⟩) :
    (s.meeting env course).Reached (s.position env) := by
  have unmoved : s.position env = fun _ => 0 := by
    funext i
    unfold position behind
    rw [threads i]
    rfl
  rw [unmoved]
  exact .start

theorem Shifts.reached (shifts : Shifts env s me s') (standing : Standing env s)
    (along : Along env course s) (inside : me < (s.geometry env).total)
    (running : s.sched.status me = .runnable)
    (reached : (s.meeting env course).Reached (s.position env)) :
    (s'.meeting env course).Reached (s'.position env) := by
  have same : s'.meeting env course = s.meeting env course := by
    simp only [meeting, shifts.firstBlock]
  rw [same]
  rcases shifts.meets standing along inside running with stays | ⟨e, moves⟩
  · rw [stays]
    exact reached
  · exact .move reached moves

variable [BEq V]

/-- The threads of a wave are where meetings along their courses have led them. -/
theorem reached_run (along : ∀ n, Along env course ((run env).state n)) {n : Nat}
    (live : Live ((run env).state n)) :
    (((run env).state n).meeting env course).Reached (((run env).state n).position env) := by
  induction n with
  | zero => exact reached_of_start fun _ => rfl
  | succ n ih =>
    have before := ih (live_of_succ live)
    rcases (run env).step_cases n with ⟨l, -, moved⟩ | ⟨-, stays⟩
    · obtain ⟨earlier, ⟨-, -, -, next⟩ | ⟨slot, current, resumed⟩⟩ := step_cases env moved
      · rw [next]
        exact reached_of_start fun _ => rfl
      · rcases resumed.shifts with shifts | stops
        · have running := (wellFormed earlier).running current
          exact shifts.reached (standing_run earlier) (along n) running.1 running.2 before
        · exact absurd live stops.stopped
    · rw [stays]
      exact before

end Launch

end Riri
