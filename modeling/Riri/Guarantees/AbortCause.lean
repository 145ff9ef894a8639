import Riri.Guarantees.Deduplication
import Riri.Guarantees.SchedulerProgress
import Riri.Sched.Reports
import Riri.Source.Explore

/-!
# Why a launch was cut short

A step stops the launch exactly if it pushes a fault. The report says so as long as the fault
finds room among the findings that were pushed before it.
-/
namespace Riri

/-- A lane problem that stops the launch: the lane takes part in nothing. -/
def LaneProblem.traps : LaneProblem → Bool
  | .callerNotInMask | .maskOutsideBlock _ => true
  | .sourceLaneNotInMask _ => false

def Diagnostic.trapped : Diagnostic → Bool
  | .dataRace .. | .uninitRead .. => false
  | .outOfBounds .. | .barrierDivergence .. | .warpDivergence .. | .warpMaskMismatch ..
  | .kernelPanic .. => true
  | .warpLaneError _ _ _ _ _ _ problem => problem.traps

theorem LaneProblem.traps_eq (p : LaneProblem) :
    p.traps = decide (p.kind ≠ "source-lane-not-in-mask") := by
  cases p <;> rfl

/-- Findings that are merged are alike in that. -/
theorem Diagnostic.trapped_of_dedupKey {d e : Diagnostic} (same : d.dedupKey = e.dedupKey) :
    d.trapped = e.trapped := by
  have kind := variant_of_dedupKey same
  cases d with
  | warpLaneError block warp op loc lane mask problem =>
    cases e with
    | warpLaneError block' warp' op' loc' lane' mask' problem' =>
      have key : "warplane" ++ problem.debug = "warplane" ++ problem'.debug := congrArg (·.1) same
      have name : problem.kind = problem'.kind :=
        LaneProblem.kind_of_debug ((String.append_right_inj "warplane").mp key)
      change problem.traps = problem'.traps
      rw [LaneProblem.traps_eq, LaneProblem.traps_eq, name]
    | _ => cases kind
  | _ => cases e <;> first | rfl | cases kind

theorem Diagnostic.trapped_of_schedBlock {d : Diagnostic} {block : Nat}
    (named : d.schedBlock? = some block) : d.trapped = true := by
  cases d <;> first | rfl | cases named

namespace Scheduler

variable {g : Geometry} {s : State} {me : Nat}

/-- What an operation leaves has aborted exactly if it reports a fault. -/
def Explained (r : Outcome) : Prop := r.1.aborted = true ↔ ∃ d ∈ r.2, d.trapped = true

theorem explained_of {r : Outcome} (sound : Sound g r.1 ([] ++ r.2)) (attributed : Attributed g me r)
    (silent : r.1.aborted = false → r.2 = []) : Explained r := by
  constructor
  · intro stopped
    have reports : r.2 ≠ [] := by
      rcases sound.inProgress with ⟨-, reports⟩ | ⟨live, -⟩ | ⟨live, -⟩
      · exact reports
      · rw [stopped] at live
        cases live
      · rw [stopped] at live
        cases live
    obtain ⟨d, member⟩ := List.exists_mem_of_ne_nil r.2 reports
    obtain ⟨i, -, -, named⟩ := attributed d member
    exact ⟨d, member, Diagnostic.trapped_of_schedBlock named⟩
  · rintro ⟨d, member, -⟩
    by_contra live
    rw [silent (by simpa using live)] at member
    cases member

section

variable (live : s.aborted = false) (waits : WaitsRecorded g s) (hme : me < g.total)
  (running : s.status me = .runnable)
include live waits

include hme running in
theorem yieldNow_explained : Explained (yieldNow g s) :=
  explained_of (handOff_sound g [] live waits hme (by simp [running])) (handOff_attributed me s)
    fun still => (yieldNow_live g still).2

include hme in
theorem barrier_explained (loc : Location) : Explained (barrier g me loc s) :=
  explained_of (barrier_sound g loc [] live waits hme) (barrier_attributed me loc s)
    fun still => (barrier_live g still).1

include hme in
theorem warpRendezvous_explained (wait : WarpWait) : Explained (warpRendezvous g me wait s) :=
  explained_of (warpRendezvous_sound g wait [] live waits hme) (warpRendezvous_attributed me wait s)
    fun still => (warpRendezvous_live g still).1

theorem finish_explained : Explained (finish g me s) :=
  explained_of (finish_sound g [] live waits) (finish_attributed me s)
    fun still => (finish_live g live still).1

end

end Scheduler

namespace Launch

variable {V : Type} [BEq V] {env : Env V}

/-- A step stops the launch exactly if one of the findings it pushes is a fault. -/
def Explains (s s' : Launch V) : Prop :=
  ∃ ds, s'.raised = s.raised ++ ds ∧ (s'.sched.aborted = true ↔ ∃ d ∈ ds, d.trapped = true)

omit [BEq V] in
theorem Explains.of_silent {s s' : Launch V} (live : Live s) (sched : s'.sched = s.sched)
    (raised : s'.raised = s.raised) : Explains s s' := by
  refine ⟨[], by simp [raised], ?_⟩
  rw [sched, show s.sched.aborted = false from live]
  simp

omit [BEq V] in
theorem Explains.of_trap {s s' : Launch V} {d : Diagnostic} (raised : s'.raised = s.raised)
    (trapped : d.trapped = true) : Explains s (s'.trap d) :=
  ⟨[d], by simp [trap, withSched, raised], by simp [trap, withSched, Scheduler.abort, trapped]⟩

omit [BEq V] in
/-- Findings pushed before a scheduler operation that are no faults. -/
theorem Explains.of_sched {s s' : Launch V} {ds : List Diagnostic} {r : Scheduler.Outcome}
    (raised : s'.raised = s.raised ++ ds) (plain : ∀ d ∈ ds, d.trapped = false)
    (explained : Scheduler.Explained r) : Explains s (s'.withSched r) := by
  refine ⟨ds ++ r.2, by simp [withSched, raised], ?_⟩
  constructor
  · intro stopped
    obtain ⟨d, member, trapped⟩ := explained.mp stopped
    exact ⟨d, List.mem_append_right ds member, trapped⟩
  · rintro ⟨d, member, trapped⟩
    refine explained.mpr ?_
    rcases List.mem_append.mp member with earlier | reported
    · rw [plain d earlier] at trapped
      cases trapped
    · exact ⟨d, reported, trapped⟩

omit [BEq V] in
/-- What a collective reports without stopping. -/
theorem plain_of_combine {typeTag : V → Nat} {warpSize lane : Nat} {slots : Slots V} {cx : Ctx}
    {c : Collective V} {answer : Resp V} {problems : List LaneProblem}
    (combined : c.combine typeTag warpSize lane slots = .ok (answer, problems)) :
    ∀ d ∈ laneReports cx c problems, d.trapped = false := by
  intro d member
  obtain ⟨problem, found, rfl⟩ := List.mem_map.mp member
  have shuffled : ∀ own src, shuffle typeTag c.exchange.op c.mask slots own src =
      .ok (answer, problems) → problem.traps = false := by
    intro own src result
    unfold shuffle at result
    split at result
    · cases result
      cases found
    · split at result
      · cases result
        obtain rfl := List.mem_singleton.mp found
        rfl
      · split at result
        · cases result
        · cases result
          cases found
  unfold Collective.combine at combined
  split at combined
  · exact shuffled _ _ combined
  · exact shuffled _ _ combined
  · exact shuffled _ _ combined
  · exact shuffled _ _ combined
  · split at combined
    · cases combined
    · cases combined
      cases found
  · cases combined
    cases found

/-- What an access reports without stopping. -/
theorem plain_of_access (space : MemSpace) (index : Nat) (wasInit : Bool) (acc : Access)
    (conflict : Option Access) :
    ∀ d ∈ accessReports space index wasInit acc conflict, d.trapped = false := by
  intro d member
  rcases List.mem_append.mp member with uninit | race
  · split at uninit
    · obtain rfl := List.mem_singleton.mp uninit
      rfl
    · cases uninit
  · obtain ⟨first, -, rfl⟩ := List.mem_map.mp race
    rfl

omit [BEq V] in
theorem WellFormed.waitsRecorded {s : Launch V} (wf : WellFormed env s) :
    Scheduler.WaitsRecorded (s.geometry env) s.sched := by
  intro i _ parked
  obtain ⟨wait, -, recorded⟩ := (wf.settled i).waits_of_atWarp parked
  exact ⟨wait, recorded⟩

theorem Resumed.explains {s s' : Launch V} {slot : Nat} {l : Label V}
    (resumed : Resumed env s slot l s') (live : Live s) (wf : WellFormed env s)
    (current : s.sched.current = some slot) : Explains s s' := by
  obtain ⟨inside, running⟩ := wf.running current
  have waits := wf.waitsRecorded
  have none_before : ∀ d ∈ ([] : List Diagnostic), d.trapped = false := fun d none => by cases none
  cases resumed with
  | finish => exact .of_sched (by simp) none_before (Scheduler.finish_explained live waits)
  | arrive pc loc =>
    exact .of_sched (by simp [barrierEntered, setPc]) none_before
      (Scheduler.barrier_explained live waits inside loc)
  | yieldAccess | yieldCollective =>
    exact .of_sched (by simp [setPc]) none_before
      (Scheduler.yieldNow_explained live waits inside running)
  | publish c =>
    exact .of_sched (by simp [setPc, slotted]) none_before
      (Scheduler.warpRendezvous_explained live waits inside _)
  | exchange c pc answer problems combined =>
    have raised : ((s.report (laneReports (s.ctx env slot) c problems)).setPc slot
        (.departed c answer)).raised = s.raised ++ laneReports (s.ctx env slot) c problems := rfl
    exact .of_sched raised (plain_of_combine combined)
      (Scheduler.warpRendezvous_explained live waits inside _)
  | panic | mistyped => exact .of_trap rfl rfl
  | overflow | outOfBounds => exact .of_trap rfl rfl
  | refuse c pc problem checked =>
    refine .of_trap rfl ?_
    unfold Collective.laneProblem at checked
    split at checked
    · cases checked
      rfl
    · split at checked
      · cases checked
        rfl
      · cases checked
  | fence | miss | depart | leave => exact .of_silent live rfl rfl
  | access m pc new resp =>
    let reports := accessReports (space env m.buf) m.index (s.cellOf env m.buf m.index).init
      (s.accessOf env (s.ctx env slot) m) (s.recorded env (s.ctx env slot) m).2
    refine ⟨reports, rfl, fun stopped => ?_, ?_⟩
    · rw [show (s.accessed env (s.ctx env slot) m new resp).sched.aborted = false from live] at stopped
      cases stopped
    · rintro ⟨d, member, trapped⟩
      rw [plain_of_access _ _ _ _ _ d member] at trapped
      cases trapped

/-- At every time of a run: the launch has been stopped exactly if a fault was pushed. -/
theorem aborted_iff_trapped (env : Env V) (n : Nat) :
    ((run env).state n).sched.aborted = true ↔ ∃ d ∈ ((run env).state n).raised, d.trapped = true := by
  induction n with
  | zero =>
    have live : Live (init env) := init_wellFormed.1
    constructor
    · intro stopped
      rw [show ((run env).state 0).sched.aborted = false from live] at stopped
      cases stopped
    · rintro ⟨d, none, -⟩
      cases none
  | succ n ih =>
    rcases (run env).step_cases n with ⟨l, -, moved⟩ | ⟨-, stays⟩
    · obtain ⟨live, ⟨-, more, -, next⟩ | ⟨slot, current, resumed⟩⟩ := step_cases env moved
      · have fresh : Live (((run env).state n).nextWave env) := (nextWave_wellFormed more).1
        rw [next, show (((run env).state n).nextWave env).sched.aborted =
          ((run env).state n).sched.aborted from fresh.trans live.symm]
        exact ih
      · obtain ⟨ds, raised, explained⟩ := resumed.explains live (wellFormed live) current
        have before : ¬ ∃ d ∈ ((run env).state n).raised, d.trapped = true := by
          rw [← ih, live]
          exact Bool.false_ne_true
        rw [explained, raised]
        constructor
        · rintro ⟨d, member, trapped⟩
          exact ⟨d, List.mem_append_right _ member, trapped⟩
        · rintro ⟨d, member, trapped⟩
          rcases List.mem_append.mp member with earlier | reported
          · exact absurd ⟨d, earlier, trapped⟩ before
          · exact ⟨d, reported, trapped⟩
    · rw [stays]
      exact ih

end Launch

namespace Reporter

theorem mem_of_mem_take {raised : List Diagnostic} {d : Diagnostic} (mem : d ∈ take raised) :
    d ∈ raised := by
  change d ∈ (after raised).kept at mem
  induction raised using List.reverseRecOn with
  | nil => cases mem
  | append_singleton raised e ih =>
    rw [after_concat, push] at mem
    split at mem
    · rcases List.mem_append.mp mem with earlier | last
      · exact List.mem_append_left _ (ih earlier)
      · exact List.mem_append_right _ last
    · exact List.mem_append_left _ (ih mem)

theorem take_length_le (raised : List Diagnostic) : (take raised).length ≤ MAX_DIAGNOSTICS := by
  change (after raised).kept.length ≤ MAX_DIAGNOSTICS
  induction raised using List.reverseRecOn with
  | nil => exact Nat.zero_le _
  | append_singleton raised e ih =>
    rw [after_concat, push]
    split
    next fresh => simpa using Nat.succ_le_of_lt fresh.1
    · exact ih

end Reporter

namespace Launch

variable {V : Type} [BEq V]

/-- A report that lists a fault is of a launch that was stopped, and the report of a launch that
was stopped lists a fault unless it is full. -/
theorem abort_reported (env : Env V) (n : Nat) :
    let report := ((run env).state n).replayed
    ((∃ d ∈ report.diagnostics, d.trapped = true) → report.aborted = true) ∧
    (report.aborted = true → (∃ d ∈ report.diagnostics, d.trapped = true) ∨
      report.diagnostics.length = MAX_DIAGNOSTICS) := by
  intro report
  constructor
  · rintro ⟨d, member, trapped⟩
    exact (aborted_iff_trapped env n).mpr ⟨d, Reporter.mem_of_mem_take member, trapped⟩
  · intro stopped
    obtain ⟨d, member, trapped⟩ := (aborted_iff_trapped env n).mp stopped
    rcases Nat.eq_or_lt_of_le (Reporter.take_length_le ((run env).state n).raised) with full | room
    · exact .inr full
    · obtain ⟨e, -, first, same⟩ := Reporter.exists_firstOf member
      rw [← Reporter.firstOf_take room] at first
      exact .inl ⟨e, List.mem_of_find?_eq_some first,
        (Diagnostic.trapped_of_dedupKey same).trans trapped⟩

/-- A thread that reads an uninitialised element on 64 lines and then past the end. -/
def noisy : Env Nat :=
  trial .oneThread
    (fun _ => ((List.range 64).map fun k => .mem ⟨.global 0, 0, ⟨"kernel.rs", k + 1, 5⟩, .read⟩) ++
      [.mem ⟨.global 0, 9, ⟨"kernel.rs", 65, 5⟩, .read⟩]) []

/-- The launch is stopped, and its report lists no fault. -/
theorem noisy_unexplained : (run noisy).Halted 130 ∧
    ((run noisy).state 130).replayed.aborted = true ∧
    ¬ ∃ d ∈ ((run noisy).state 130).replayed.diagnostics, d.trapped = true := by
  rw [Machine.Halted, ← Option.isNone_iff_eq_none]
  set_option maxRecDepth 100000 in decide +kernel

end Launch

end Riri
