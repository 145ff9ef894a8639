import Riri.Run.Collectives
import Riri.Sched.Groups
import Riri.Sched.Reports

/-!
# Where threads stand

What a step does to the threads, their statuses and what they wait for, whether or not the
launch goes on. A step that reports a divergence parks its thread like any other, so the
invariants here also hold of the state the report is made from.
-/
namespace Riri

/-- What is inside an operation is inside the one its kernel asked for. -/
def Pc.Asked {V : Type} (op : Op V) : Pc V → Prop
  | .ready => True
  | .atAccess m => op = .mem m
  | .atBarrier _ => ∃ loc, op = .syncThreads loc
  | .atCollective c | .arrived c | .departed c _ => op = .warp c

/-- Thread `i` joins a half of a collective: where it is before and after, and what it waits
for there. -/
inductive Joins {V : Type} (g : Geometry) (i : Nat) : Pc V → Pc V → WarpWait → Prop
  | arrive (c : Collective V)
      (checked : c.laneProblem (g.validMask (g.warpOf i)) (g.laneOf i) = none) :
      Joins g i (.atCollective c) (.arrived c) (c.wait .arrive)
  | depart (c : Collective V) (answer : Resp V) :
      Joins g i (.arrived c) (.departed c answer) (c.wait .depart)

theorem Joins.waits {V : Type} {g : Geometry} {i : Nat} {pc pc' : Pc V} {wait : WarpWait}
    (joins : Joins g i pc pc' wait) : pc'.waits = some wait := by
  cases joins <;> rfl

/-- A mask that passed the lane checks names existing lanes and the caller. -/
theorem names_of_checked {V : Type} {g : Geometry} {warp lane : Nat} {c : Collective V}
    (checked : c.laneProblem (g.validMask warp) lane = none) :
    (∀ l < 32, c.mask.names l = true → l < g.lanesIn warp) ∧ c.mask.names lane = true := by
  unfold Collective.laneProblem at checked
  split at checked
  · cases checked
  next contained =>
    split at checked
    · cases checked
    next own =>
      refine ⟨fun l h member => ?_, by simpa using own⟩
      have empty : c.mask &&& ~~~g.validMask warp = 0#32 := by simpa using contained
      have bit := congrArg (fun mask : Mask => mask.getLsbD l) empty
      rw [Mask.names_iff _ h] at member
      have valid : (g.validMask warp).getLsbD l = true := by simpa [h, member] using bit
      rw [← Mask.names_iff _ h, g.names_validMask h] at valid
      exact of_decide_eq_true valid

namespace Launch

open Scheduler (Rests Mate)

variable {V : Type} (env : Env V)

/-- `s'` has the threads of `s` and the statuses, waits and generations of `sched`. -/
structure Stands (s' s : Launch V) (sched : Scheduler.State) : Prop where
  firstBlock : s'.firstBlock = s.firstBlock
  threads : s'.threads = s.threads
  rests : Rests s'.sched sched

/-- What a step of the thread in `me` makes of where threads stand. -/
inductive Shifts (s : Launch V) (me : Nat) (s' : Launch V) : Prop
  | finish (pc : (s.threads me).pc = .ready) (op : s.nextOp env me = .ret)
      (stands : Stands s' s (Scheduler.finishMarked me s.sched))
  | arrive (pc : (s.threads me).pc = .ready) (loc : Location)
      (op : s.nextOp env me = .syncThreads loc)
      (waiting : ∃ i, (s.geometry env).blockOf i = (s.geometry env).blockOf me ∧ i ≠ me ∧
        s.sched.status i ≠ .atBarrier)
      (stands : Stands s'
        (s.setPc me (.atBarrier (s.sched.barrierGen ((s.geometry env).blockOf me))))
        (Scheduler.barrierParked (s.geometry env) me loc s.sched))
  | release (pc : (s.threads me).pc = .ready) (loc : Location)
      (op : s.nextOp env me = .syncThreads loc)
      (everyone : ∀ i, (s.geometry env).blockOf i = (s.geometry env).blockOf me → i ≠ me →
        s.sched.status i = .atBarrier)
      (stands : Stands s'
        (s.setPc me (.atBarrier (s.sched.barrierGen ((s.geometry env).blockOf me))))
        (Scheduler.barrierReleased (s.geometry env) me s.sched))
  | access (pc : (s.threads me).pc = .ready) (m : MemOp V) (op : s.nextOp env me = .mem m)
      (stands : Stands s' (s.setPc me (.atAccess m)) s.sched)
  | collective (pc : (s.threads me).pc = .ready) (c : Collective V)
      (op : s.nextOp env me = .warp c)
      (stands : Stands s' (s.setPc me (.atCollective c)) s.sched)
  | answer (a : Resp V)
      (pc : ((s.threads me).pc = .ready ∧ ∃ ordering, s.nextOp env me = .fence ordering) ∨
        (∃ m, (s.threads me).pc = .atAccess m) ∨ (∃ gen, (s.threads me).pc = .atBarrier gen) ∨
        ∃ c, (s.threads me).pc = .departed c a)
      (stands : Stands s' (s.answer me a) s.sched)
  | park {pc' : Pc V} {wait : WarpWait}
      (joins : Joins (s.geometry env) me (s.threads me).pc pc' wait)
      (missing : ∃ p, Mate (s.geometry env) me wait.mask p ∧
        ¬ (s.sched.status p = .atWarp ∧ s.sched.warpWait p = some wait))
      (stands : Stands s' (s.setPc me pc') (Scheduler.rendezvousParked me wait s.sched))
  | gather {pc' : Pc V} {wait : WarpWait}
      (joins : Joins (s.geometry env) me (s.threads me).pc pc' wait)
      (everyone : ∀ p, Mate (s.geometry env) me wait.mask p →
        s.sched.status p = .atWarp ∧ s.sched.warpWait p = some wait)
      (stands : Stands s' (s.setPc me pc')
        (Scheduler.rendezvousReleased (s.geometry env) me wait s.sched))

/-- The scheduler operation of a step of the thread in `me`, which is at `pc`: what it leaves
and reports. -/
inductive Operates (g : Geometry) (me : Nat) (pc : Pc V) (sched : Scheduler.State) :
    Scheduler.Outcome → Prop
  | none : Operates g me pc sched (sched, [])
  | abort : Operates g me pc sched (Scheduler.abort sched, [])
  | yield : Operates g me pc sched (Scheduler.yieldNow g sched)
  | barrier (loc : Location) : Operates g me pc sched (Scheduler.barrier g me loc sched)
  | rendezvous {pc' : Pc V} {wait : WarpWait} (joins : Joins g me pc pc' wait) :
      Operates g me pc sched (Scheduler.warpRendezvous g me wait sched)
  | finish : Operates g me pc sched (Scheduler.finish g me sched)

/-- What holds of where threads stand. -/
structure Standing (s : Launch V) : Prop where
  settled : ∀ i, Settled env s i
  asked : ∀ i, (s.threads i).pc.Asked (s.nextOp env i)
  named : ∀ i c, (s.threads i).pc.collective? = some c →
    c.mask.names ((s.geometry env).laneOf i) = true
  waiting : Scheduler.Waiting (s.geometry env) s.sched

variable {env} {s s' : Launch V} {me : Nat}

theorem Standing.op_of_atAccess (standing : Standing env s) {i : Nat} {m : MemOp V}
    (pc : (s.threads i).pc = .atAccess m) : s.nextOp env i = .mem m := by
  have asked := standing.asked i
  rwa [pc] at asked

theorem Shifts.firstBlock (shifts : Shifts env s me s') : s'.firstBlock = s.firstBlock := by
  cases shifts <;> rename_i stands <;> exact stands.firstBlock

theorem Shifts.geometry (shifts : Shifts env s me s') : s'.geometry env = s.geometry env := by
  simp only [Launch.geometry, shifts.firstBlock]

theorem Shifts.others (shifts : Shifts env s me s') {i : Nat} (away : i ≠ me) :
    s'.threads i = s.threads i := by
  cases shifts <;> rename_i stands <;> rw [stands.threads] <;> simp [away]

theorem nextOp_congr {i : Nat} (firstBlock : s'.firstBlock = s.firstBlock)
    (thread : s'.threads i = s.threads i) : s'.nextOp env i = s.nextOp env i := by
  simp only [nextOp, ctx, firstBlock, thread]

/-! ### The invariant -/

/-- A lane joins a collective whose mask names it. -/
theorem Standing.names (standing : Standing env s) {pc' : Pc V} {wait : WarpWait}
    (joins : Joins (s.geometry env) me (s.threads me).pc pc' wait) :
    wait.mask.names ((s.geometry env).laneOf me) = true := by
  cases at_ : (s.threads me).pc with
  | atCollective c =>
    rw [at_] at joins
    cases joins with
    | arrive _ checked => exact (names_of_checked checked).2
  | arrived c =>
    rw [at_] at joins
    cases joins with
    | depart _ answer => exact standing.named me c (by rw [at_]; rfl)
  | _ =>
    rw [at_] at joins
    cases joins

/-- A parked lane takes part in what it waits for. -/
theorem Standing.names_own (standing : Standing env s) {i : Nat} {wait : WarpWait}
    (parked : s.sched.status i = .atWarp) (waits : s.sched.warpWait i = some wait) :
    wait.mask.names ((s.geometry env).laneOf i) = true := by
  obtain ⟨w, inside, recorded⟩ := (standing.settled i).waits_of_atWarp parked
  obtain rfl := Option.some.inj (waits.symm.trans recorded)
  have named := standing.named i
  cases pc : (s.threads i).pc with
  | arrived c | departed c =>
    rw [pc] at inside
    cases inside
    exact named c (by rw [pc]; rfl)
  | _ =>
    rw [pc] at inside
    cases inside

theorem Shifts.waiting (shifts : Shifts env s me s') (standing : Standing env s) :
    Scheduler.Waiting (s'.geometry env) s'.sched := by
  rw [shifts.geometry]
  have before := standing.waiting
  cases shifts with
  | finish pc op stands => exact stands.rests.waiting (before.finishMarked me)
  | arrive pc loc op waiting stands => exact stands.rests.waiting (before.barrierParked loc waiting)
  | release pc loc op everyone stands => exact stands.rests.waiting (before.barrierReleased me)
  | access pc m op stands => exact stands.rests.waiting before
  | collective pc c op stands => exact stands.rests.waiting before
  | answer a pc stands => exact stands.rests.waiting before
  | park joins missing stands => exact stands.rests.waiting (before.rendezvousParked missing)
  | gather joins everyone stands =>
    exact stands.rests.waiting (before.rendezvousReleased (standing.names joins))

theorem Shifts.settled (shifts : Shifts env s me s') (standing : Standing env s)
    (running : s.sched.status me = .runnable) (i : Nat) : Settled env s' i := by
  have away := fun i (h : i ≠ me) => shifts.others h
  have firstBlock := shifts.firstBlock
  -- A thread that goes on without parking.
  have of_running : ∀ {t : Launch V}, Stands s' t s.sched →
      Settled env s' me → Settled env s' i := by
    intro t stands own
    exact settled_of_own standing.settled firstBlock stands.rests.barrierGen
      (fun j h => ⟨away j h, by rw [stands.rests.status], by rw [stands.rests.warpWait]⟩) own i
  have free : ∀ {t : Launch V}, Stands s' t s.sched → s'.sched.status me = .runnable := by
    intro t stands
    rw [stands.rests.status, running]
  cases shifts with
  | finish pc op stands =>
    refine settled_of_own standing.settled firstBlock stands.rests.barrierGen
      (fun j h => ⟨away j h, ?_, by rw [stands.rests.warpWait]; rfl⟩) ?_ i
    · rw [stands.rests.status]
      exact Function.update_of_ne h ..
    · unfold Settled
      rw [stands.threads, pc, nextOp_congr firstBlock (by rw [stands.threads])]
      refine .inr ⟨?_, op⟩
      rw [stands.rests.status]
      exact Function.update_self ..
  | arrive pc loc op waiting stands =>
    refine settled_of_own standing.settled firstBlock stands.rests.barrierGen
      (fun j h => ⟨away j h, ?_, by rw [stands.rests.warpWait]; rfl⟩) ?_ i
    · rw [stands.rests.status]
      exact Function.update_of_ne h ..
    · unfold Settled
      simp only [stands.threads, setPc_self, Launch.geometry, firstBlock]
      refine .inl ⟨?_, ?_⟩
      · rw [stands.rests.status]
        exact Function.update_self ..
      · rw [stands.rests.barrierGen]
        rfl
  | release pc loc op everyone stands =>
    exact settled_of_release standing.settled firstBlock away (by rw [stands.threads, setPc_self])
      everyone stands.rests i
  | access pc m op stands =>
    refine of_running stands ?_
    unfold Settled
    rw [stands.threads, setPc_self]
    exact free stands
  | collective pc c op stands =>
    refine of_running stands ?_
    unfold Settled
    rw [stands.threads, setPc_self]
    exact free stands
  | answer a pc stands =>
    exact of_running stands (settled_of_ready (by rw [stands.threads, answer_self]) (free stands))
  | @park pc' wait joins missing stands =>
    refine settled_of_own standing.settled firstBlock stands.rests.barrierGen
      (fun j h => ⟨away j h, ?_, ?_⟩) ?_ i
    · rw [stands.rests.status]
      exact Function.update_of_ne h ..
    · rw [stands.rests.warpWait]
      exact Function.update_of_ne h ..
    · have waits : (s'.threads me).pc.waits = some wait := by
        rw [stands.threads, setPc_self]
        exact joins.waits
      rw [settled_iff_of_waits waits, stands.rests.status, stands.rests.warpWait]
      exact .inr ⟨Function.update_self .., Function.update_self ..⟩
  | gather joins everyone stands =>
    refine settled_of_rendezvous standing.settled firstBlock away ?_ everyone stands.rests i
    rw [stands.threads, setPc_self]
    exact joins.waits

theorem Shifts.asked (shifts : Shifts env s me s') (standing : Standing env s) (i : Nat) :
    (s'.threads i).pc.Asked (s'.nextOp env i) := by
  by_cases own : i = me
  · subst own
    have before := standing.asked i
    have same_op : ∀ {pc' : Pc V}, s'.threads = (s.setPc i pc').threads →
        s'.nextOp env i = s.nextOp env i := by
      intro pc' threads
      simp only [nextOp, ctx, shifts.firstBlock, threads, setPc_self]
    have of_joins : ∀ {pc' : Pc V} {wait : WarpWait},
        Joins (s.geometry env) i (s.threads i).pc pc' wait →
        s'.threads = (s.setPc i pc').threads → (s'.threads i).pc.Asked (s'.nextOp env i) := by
      intro pc' wait joins threads
      rw [same_op threads, threads, setPc_self]
      generalize (s.threads i).pc = pc at joins before
      cases joins <;> exact before
    cases shifts with
    | finish pc op stands =>
      rw [stands.threads, pc]
      trivial
    | arrive pc loc op waiting stands =>
      rw [same_op stands.threads, stands.threads, setPc_self]
      exact ⟨loc, op⟩
    | release pc loc op everyone stands =>
      rw [same_op stands.threads, stands.threads, setPc_self]
      exact ⟨loc, op⟩
    | access pc m op stands =>
      rw [same_op stands.threads, stands.threads, setPc_self]
      exact op
    | collective pc c op stands =>
      rw [same_op stands.threads, stands.threads, setPc_self]
      exact op
    | answer a pc stands =>
      rw [stands.threads, answer_self]
      trivial
    | park joins missing stands => exact of_joins joins stands.threads
    | gather joins everyone stands => exact of_joins joins stands.threads
  · rw [nextOp_congr shifts.firstBlock (shifts.others own), shifts.others own]
    exact standing.asked i

theorem Shifts.named (shifts : Shifts env s me s') (standing : Standing env s) (i : Nat)
    (c : Collective V) (inside : (s'.threads i).pc.collective? = some c) :
    c.mask.names ((s'.geometry env).laneOf i) = true := by
  rw [shifts.geometry]
  by_cases own : i = me
  · subst own
    have of_joins : ∀ {pc' : Pc V} {wait : WarpWait},
        Joins (s.geometry env) i (s.threads i).pc pc' wait →
        s'.threads = (s.setPc i pc').threads → c.mask.names ((s.geometry env).laneOf i) = true := by
      intro pc' wait joins threads
      have names := standing.names joins
      rw [threads, setPc_self] at inside
      generalize (s.threads i).pc = pc at joins
      cases joins <;> cases inside <;> exact names
    cases shifts with
    | park joins missing stands => exact of_joins joins stands.threads
    | gather joins everyone stands => exact of_joins joins stands.threads
    | finish pc op stands =>
      rw [stands.threads, pc] at inside
      cases inside
    | answer a pc stands =>
      rw [stands.threads, answer_self] at inside
      cases inside
    | arrive pc loc op waiting stands | release pc loc op waiting stands
    | access pc op waiting stands | collective pc op waiting stands =>
      rw [stands.threads, setPc_self] at inside
      cases inside
  · rw [shifts.others own] at inside
    exact standing.named i c inside

theorem Shifts.standing (shifts : Shifts env s me s') (standing : Standing env s)
    (running : s.sched.status me = .runnable) : Standing env s' :=
  ⟨shifts.settled standing running, shifts.asked standing, shifts.named standing,
    shifts.waiting standing⟩

theorem standing_of_start {choices : Choices}
    (started : s.sched = Scheduler.new (s.geometry env) choices)
    (threads : ∀ i, s.threads i = ⟨.ready, []⟩) : Standing env s := by
  have rests : Rests s.sched (Scheduler.unstarted choices) := by
    rw [started]
    exact Scheduler.pickNext_rests _ _
  refine ⟨fun i => settled_of_ready (by rw [threads]) ?_, fun i => ?_, fun i c inside => ?_, ?_⟩
  · rw [rests.status]
    rfl
  · rw [threads]
    trivial
  · rw [threads] at inside
    cases inside
  · exact rests.waiting (Scheduler.unstarted_waiting choices)

/-! ### Along a run -/

variable [BEq V]

/-- A step is one scheduler operation, whatever else it reports before that. -/
theorem Resumed.operates {l : Label V} (resumed : Resumed env s me l s') :
    ∃ before r, Operates (s.geometry env) me (s.threads me).pc s.sched r ∧ s'.sched = r.1 ∧
      s'.raised = s.raised ++ (before ++ r.2) ∧ ∀ d ∈ before, d.schedBlock? = none := by
  have nothing : ∀ d ∈ ([] : List Diagnostic), d.schedBlock? = none := by
    intro d member
    cases member
  have single : ∀ {d : Diagnostic}, d.schedBlock? = none → ∀ e ∈ [d], e.schedBlock? = none := by
    intro d plain e member
    rwa [List.mem_singleton.mp member]
  cases resumed with
  | finish => exact ⟨[], _, .finish, rfl, rfl, nothing⟩
  | arrive pc loc => exact ⟨[], _, .barrier loc, rfl, rfl, nothing⟩
  | yieldAccess | yieldCollective => exact ⟨[], _, .yield, rfl, rfl, nothing⟩
  | publish c pc checked =>
    have joins : Joins (s.geometry env) me (s.threads me).pc (.arrived c) (c.wait .arrive) := by
      rw [pc]
      exact .arrive c checked
    exact ⟨[], _, .rendezvous joins, rfl, rfl, nothing⟩
  | exchange c pc answer problems combined =>
    have joins : Joins (s.geometry env) me (s.threads me).pc (.departed c answer)
        (c.wait .depart) := by
      rw [pc]
      exact .depart c answer
    refine ⟨laneReports (s.ctx env me) c problems, _, .rendezvous joins, rfl,
      List.append_assoc .., fun d member => ?_⟩
    obtain ⟨problem, -, rfl⟩ := List.mem_map.mp member
    rfl
  | access =>
    refine ⟨_, _, .none, rfl, congrArg (s.raised ++ ·) (List.append_nil _).symm, fun d member => ?_⟩
    rcases List.mem_append.mp member with uninit | race
    · split at uninit
      · rw [List.mem_singleton.mp uninit]
        rfl
      · cases uninit
    · obtain ⟨first, -, rfl⟩ := List.mem_map.mp race
      rfl
  | panic | overflow | outOfBounds | refuse | mistyped =>
    exact ⟨[_], _, .abort, rfl, rfl, single rfl⟩
  | fence | miss | depart | leave =>
    exact ⟨[], _, .none, rfl, (List.append_nil _).symm, nothing⟩

/-- The step stops the launch, the turn where it was, and reports no divergence. -/
structure Stops (s s' : Launch V) : Prop where
  stopped : ¬ Live s'
  current : s'.sched.current = s.sched.current
  plain : ∃ ds, s'.raised = s.raised ++ ds ∧ ∀ d ∈ ds, d.diverges = false

/-- Every step but one that traps or finds a lane that disagrees. -/
theorem Resumed.shifts {l : Label V} (resumed : Resumed env s me l s') :
    Shifts env s me s' ∨ Stops s s' := by
  have of_rendezvous : ∀ {t : Launch V} {pc' : Pc V} {wait : WarpWait} {before : List Diagnostic},
      s' = t.withSched (Scheduler.warpRendezvous (s.geometry env) me wait s.sched) →
      Joins (s.geometry env) me (s.threads me).pc pc' wait →
      t.firstBlock = s.firstBlock → t.threads = (s.setPc me pc').threads →
      t.raised = s.raised ++ before → (∀ d ∈ before, d.diverges = false) →
      Shifts env s me s' ∨ Stops s s' := by
    rintro t pc' wait before rfl joins firstBlock threads raised plain
    rcases Scheduler.warpRendezvous_rests (s.geometry env) me wait s.sched with
      ⟨everyone, rests⟩ | ⟨missing, rests⟩ | ⟨p, mask, failed⟩
    · exact .inl (.gather joins everyone ⟨firstBlock, threads, rests⟩)
    · exact .inl (.park joins missing ⟨firstBlock, threads, rests⟩)
    · obtain ⟨mismatch, failed, other⟩ : ∃ d, Scheduler.warpRendezvous (s.geometry env) me wait
          s.sched = Scheduler.fail (Scheduler.rendezvousParked me wait s.sched) d ∧
            d.diverges = false := ⟨_, failed, rfl⟩
      rw [failed]
      refine .inr ⟨by simp [Live, withSched, Scheduler.fail], rfl, before ++ [mismatch], ?_, ?_⟩
      · simp [withSched, Scheduler.fail, raised]
      · intro d member
        rcases List.mem_append.mp member with earlier | last
        · exact plain d earlier
        · rwa [List.mem_singleton.mp last]
  have of_trap : ∀ {t : Launch V} {d : Diagnostic}, s' = t.trap d → t.sched = s.sched →
      t.raised = s.raised → d.diverges = false → Shifts env s me s' ∨ Stops s s' := by
    rintro t d rfl sched raised plain
    refine .inr ⟨by simp [Live, trap, withSched, Scheduler.abort], ?_, [d], ?_, ?_⟩
    · rw [show (t.trap d).sched.current = t.sched.current from rfl, sched]
    · simp [trap, withSched, raised]
    · simpa using plain
  cases resumed with
  | finish pc op => exact .inl (.finish pc op ⟨rfl, rfl, Scheduler.finish_rests _ me s.sched⟩)
  | fence pc ordering op => exact .inl (.answer .unit (.inl ⟨pc, ordering, op⟩) ⟨rfl, rfl, .refl _⟩)
  | arrive pc loc op =>
    rcases Scheduler.barrier_rests (s.geometry env) me loc s.sched with
      ⟨everyone, rests⟩ | ⟨waiting, rests⟩
    · exact .inl (.release pc loc op everyone ⟨rfl, rfl, rests⟩)
    · exact .inl (.arrive pc loc op waiting ⟨rfl, rfl, rests⟩)
  | yieldAccess pc m op => exact .inl (.access pc m op ⟨rfl, rfl, Scheduler.handOff_rests _ _⟩)
  | yieldCollective pc c op =>
    exact .inl (.collective pc c op ⟨rfl, rfl, Scheduler.handOff_rests _ _⟩)
  | access m pc new resp =>
    exact .inl (.answer resp (.inr (.inl ⟨m, pc⟩)) ⟨rfl, rfl, .refl _⟩)
  | miss m pc => exact .inl (.answer _ (.inr (.inl ⟨m, pc⟩)) ⟨rfl, rfl, .refl _⟩)
  | depart gen pc => exact .inl (.answer _ (.inr (.inr (.inl ⟨gen, pc⟩))) ⟨rfl, rfl, .refl _⟩)
  | leave c answer pc => exact .inl (.answer _ (.inr (.inr (.inr ⟨c, pc⟩))) ⟨rfl, rfl, .refl _⟩)
  | publish c pc checked =>
    exact of_rendezvous rfl (by rw [pc]; exact .arrive c checked) rfl rfl
      (List.append_nil _).symm (by simp)
  | exchange c pc answer problems =>
    refine of_rendezvous rfl (by rw [pc]; exact .depart c answer) rfl rfl rfl fun d member => ?_
    obtain ⟨problem, -, rfl⟩ := List.mem_map.mp member
    rfl
  | panic | overflow | outOfBounds | refuse | mistyped => exact of_trap rfl rfl rfl rfl

theorem standing_run {n : Nat} (live : Live ((run env).state n)) :
    Standing env ((run env).state n) := by
  induction n with
  | zero => exact standing_of_start rfl fun _ => rfl
  | succ n ih =>
    have before := ih (live_of_succ live)
    rcases (run env).step_cases n with ⟨l, -, moved⟩ | ⟨-, stays⟩
    · obtain ⟨earlier, ⟨-, -, -, next⟩ | ⟨slot, current, resumed⟩⟩ := step_cases env moved
      · rw [next]
        exact standing_of_start rfl fun _ => rfl
      · rcases resumed.shifts with shifts | stops
        · exact shifts.standing before ((wellFormed earlier).running current).2
        · exact absurd live stops.stopped
    · rw [stays]
      exact before

end Launch

end Riri
