import Riri.Sched.Groups
import Riri.Sched.Reports

/-!
# Where a divergence is found

A lane that is missing from a collective is reported in one of two ways. An operation reports it
early, as soon as it sees that some lane the mask names has returned, and the deadlock detector
reports it when nobody can run. While neither happens nobody waits for a lane that has returned.
-/
namespace Riri

/-- The findings that a lane is missing from a collective. -/
def Diagnostic.missesLane : Diagnostic → Bool
  | .warpDivergence .. => true
  | _ => false

/-- The findings that the lanes of a warp do not come together. -/
def Diagnostic.splitsWarp : Diagnostic → Bool
  | .warpDivergence .. | .warpMaskMismatch .. => true
  | _ => false

namespace Scheduler

/-- `d` is the divergence report of the parked lane `i`. -/
structure MadeFor (g : Geometry) (s : State) (i : Nat) (wait : WarpWait) (d : Diagnostic) :
    Prop where
  parked : s.status i = .atWarp
  waits : s.warpWait i = some wait
  report : d = .warpDivergence (g.blockOf i) (g.warpOf i) wait.op wait.mask
    (arrivedMask g s (g.blockOf i) (g.warpOf i) wait) wait.loc

/-- The detector stopped the launch with the reports it makes of this state. -/
structure Detected (g : Geometry) (r : Outcome) : Prop where
  idle : runnable g r.1 = []
  current : r.1.current = none
  aborted : r.1.aborted = true
  reports : r.2 = stuckReports g r.1

/-- Either the launch goes on without a report, or the detector stops it. -/
def Quiet (g : Geometry) (r : Outcome) : Prop := (r.1.aborted = false ∧ r.2 = []) ∨ Detected g r

/-- No parked lane waits for one that has returned. -/
def Promising (g : Geometry) (s : State) : Prop :=
  ∀ i wait p, s.status i = .atWarp → s.warpWait i = some wait → Mate g i wait.mask p →
    s.status p ≠ .finished

/-- `d` is the report of a lane that waits for one that has returned, or the detector's. -/
def Founded (g : Geometry) (s : State) (d : Diagnostic) : Prop :=
  (∃ i wait q, MadeFor g s i wait d ∧ Mate g i wait.mask q ∧ s.status q = .finished) ∨
    (runnable g s = [] ∧ Promising g s ∧ d ∈ stuckReports g s)

/-- An operation ends without an early report, or fails with one report. -/
inductive Verdict (g : Geometry) (r : Outcome) : Prop
  | quiet (quiet : Quiet g r) (promising : Promising g r.1)
  | early {d : Diagnostic} (failed : r.1.aborted = true) (report : r.2 = [d])
      (founded : d.missesLane = true → Founded g r.1 d)

variable {g : Geometry} {s s' : State} {me : Nat}

theorem stuckReports_congr (status : s'.status = s.status) (waits : s'.warpWait = s.warpWait)
    (locs : s'.barrierLoc = s.barrierLoc) : stuckReports g s' = stuckReports g s := by
  unfold stuckReports stuckWarp arrivedMask barrierReport waitingAt exitedFrom
  rw [status, waits, locs]

theorem runnable_congr (status : s'.status = s.status) : runnable g s' = runnable g s := by
  unfold runnable
  rw [status]

/-! ### What the detector reads -/

/-- A report reads the statuses of its block and what the parked lanes wait for. -/
theorem arrivedMask_congr {block warp : Nat} {wait : WarpWait}
    (agree : ∀ p, g.blockOf p = block →
      s'.status p = s.status p ∧ (s.status p = .atWarp → s'.warpWait p = s.warpWait p)) :
    arrivedMask g s' block warp wait = arrivedMask g s block warp wait := by
  unfold arrivedMask
  dsimp only
  congr 1
  refine List.filter_congr fun l member => ?_
  obtain ⟨status, waits⟩ := agree _ (g.of_warpBase_add block (List.mem_range.mp member)).1
  rw [status]
  by_cases parked : s.status (g.warpBase block warp + l) = .atWarp
  · rw [waits parked]
  · simp [parked]

theorem stuckWarp_congr {block warp : Nat}
    (agree : ∀ p, g.blockOf p = block →
      s'.status p = s.status p ∧ (s.status p = .atWarp → s'.warpWait p = s.warpWait p)) :
    stuckWarp g s' block warp = stuckWarp g s block warp := by
  have found : ((List.range (g.lanesIn warp)).find? fun l =>
        s'.status (g.warpBase block warp + l) = .atWarp) =
      (List.range (g.lanesIn warp)).find? fun l =>
        s.status (g.warpBase block warp + l) = .atWarp := by
    refine List.find?_congr fun l member => ?_
    rw [(agree _ (g.of_warpBase_add block (List.mem_range.mp member)).1).1]
  unfold stuckWarp
  dsimp only
  rw [found]
  cases first : (List.range (g.lanesIn warp)).find? fun l =>
      s.status (g.warpBase block warp + l) = .atWarp with
  | none => rfl
  | some lane =>
    have inside := List.mem_range.mp (List.mem_of_find?_eq_some first)
    have parked : s.status (g.warpBase block warp + lane) = .atWarp := by
      simpa using List.find?_some first
    have waits := (agree _ (g.of_warpBase_add block inside).1).2 parked
    simp only [Option.bind_eq_bind, Option.bind_some, waits, arrivedMask_congr agree]

/-- A missing lane the detector reports is reported for its warp. -/
theorem stuckWarp_of_mem {block warp : Nat} {op : WarpOp} {mask arrived : Mask} {loc : Location}
    (member : .warpDivergence block warp op mask arrived loc ∈ stuckReports g s) :
    block < g.blocks ∧
      stuckWarp g s block warp = some (.warpDivergence block warp op mask arrived loc) := by
  unfold stuckReports at member
  dsimp only at member
  split at member
  · obtain ⟨b, in_grid, in_block⟩ := List.mem_flatMap.mp member
    obtain ⟨w, -, found⟩ := List.mem_filterMap.mp in_block
    have same := found
    simp only [stuckWarp, Option.bind_eq_bind, Option.pure_def, Option.bind_eq_some_iff] at same
    obtain ⟨_, -, _, -, report⟩ := same
    cases report
    exact ⟨List.mem_range.mp in_grid, found⟩
  · obtain ⟨b, -, found⟩ := List.mem_filterMap.mp member
    split at found
    · cases found
    · cases found

/-! ### Hand-offs -/

theorem handOff_quiet (live : s.aborted = false) : Quiet g (handOff g s) := by
  by_cases empty : runnable g s = []
  · rw [handOff_stuck g empty]
    exact .inr ⟨(runnable_congr rfl).trans empty, rfl, rfl, (stuckReports_congr rfl rfl rfl).symm⟩
  · obtain ⟨turned, silent⟩ := handOff_turned g empty
    exact .inl ⟨turned.aborted.trans live, silent⟩

theorem handOffUnlessFailed_quiet (live : s.aborted = false) :
    Quiet g (handOffUnlessFailed g (s, [])) := by
  have handed : handOffUnlessFailed g (s, []) = handOff g s := by
    simp [handOffUnlessFailed, live]
  rw [handed]
  exact handOff_quiet live

/-- A thread that leaves nobody waiting for it hands the turn on, or was the last to. -/
theorem finish_of_unwanted (live : s.aborted = false)
    (enter : finishEnter g me s = (finishMarked me s, [])) : Quiet g (finish g me s) := by
  have still : (finishMarked me s).aborted = false := live
  unfold finish
  rw [enter]
  simp only [still, Bool.false_eq_true, if_false]
  by_cases empty : runnable g (finishMarked me s) = []
  · rw [pickNext_of_none g empty]
    split
    · exact .inr ⟨(runnable_congr rfl).trans empty, rfl, rfl,
        (stuckReports_congr rfl rfl rfl).symm⟩
    · exact .inl ⟨still, rfl⟩
  · have turned := pickNext_turned g empty
    obtain ⟨i, -, -, current⟩ := turned.chosen
    rw [if_neg (by simp [current])]
    exact .inl ⟨turned.aborted.trans still, rfl⟩

/-! ### Nobody waits for a lane that has returned -/

theorem Rests.promising (rests : Rests s' s) (h : Promising g s) : Promising g s' := by
  intro i wait p
  rw [rests.status, rests.warpWait]
  exact h i wait p

theorem unstarted_promising (choices : Choices) : Promising g (unstarted choices) := by
  intro i wait p parked
  cases parked

/-- Nobody parks and nobody returns. -/
theorem Promising.of_moved (h : Promising g s)
    (parked : ∀ i, s'.status i = .atWarp → s.status i = .atWarp ∧ s'.warpWait i = s.warpWait i)
    (returned : ∀ p, s'.status p = .finished → s.status p = .finished) : Promising g s' := by
  intro i wait p here waits mate gone
  obtain ⟨before, same⟩ := parked i here
  exact h i wait p before (same ▸ waits) mate (returned p gone)

theorem Promising.finishMarked (h : Promising g s)
    (unwanted : ∀ p wait, ¬ WaitsFor g s me p wait) : Promising g (finishMarked me s) := by
  intro i wait p parked waits mate gone
  have away : i ≠ me := by
    rintro rfl
    rw [show (Scheduler.finishMarked i s).status i = .finished from Function.update_self ..] at parked
    cases parked
  have before : s.status i = .atWarp := by
    rwa [show (Scheduler.finishMarked me s).status i = s.status i from
      Function.update_of_ne away ..] at parked
  by_cases mine : p = me
  · subst mine
    exact unwanted i wait ⟨⟨mate.1.1.symm, mate.1.2.symm⟩, away, before, waits, mate.2.1⟩
  · rw [show (Scheduler.finishMarked me s).status p = s.status p from
      Function.update_of_ne mine ..] at gone
    exact h i wait p before waits mate gone

theorem Promising.barrierParked (h : Promising g s) (loc : Location) :
    Promising g (barrierParked g me loc s) := by
  have theirs : ∀ i, (Scheduler.barrierParked g me loc s).status i =
      if i = me then .atBarrier else s.status i := by
    intro i
    simp [Scheduler.barrierParked, Function.update_apply]
  refine h.of_moved (fun i parked => ⟨?_, rfl⟩) fun p gone => ?_
  · rw [theirs] at parked
    split at parked
    · cases parked
    · exact parked
  · rw [theirs] at gone
    split at gone
    · cases gone
    · exact gone

theorem Promising.barrierReleased (h : Promising g s) : Promising g (barrierReleased g me s) := by
  have theirs : ∀ i, (Scheduler.barrierReleased g me s).status i =
      if g.blockOf i = g.blockOf me then .runnable else s.status i := by
    intro i
    by_cases mates : g.blockOf i = g.blockOf me
    · simp [Scheduler.barrierReleased, setAll, g.mem_blockRange, mates]
    · have own : i ≠ me := fun same => mates (by rw [same])
      simp [Scheduler.barrierReleased, setAll, g.mem_blockRange, mates, own]
  refine h.of_moved (fun i parked => ⟨?_, rfl⟩) fun p gone => ?_
  · rw [theirs] at parked
    split at parked
    · cases parked
    · exact parked
  · rw [theirs] at gone
    split at gone
    · cases gone
    · exact gone

theorem Promising.rendezvousParked {wait : WarpWait} (h : Promising g s)
    (alive : ∀ p, Mate g me wait.mask p → s.status p ≠ .finished) :
    Promising g (rendezvousParked me wait s) := by
  intro i w p parked waits mate gone
  have still : s.status p = .finished := by
    by_cases mine : p = me
    · rw [mine, show (Scheduler.rendezvousParked me wait s).status me = .atWarp from
        Function.update_self ..] at gone
      cases gone
    · rwa [show (Scheduler.rendezvousParked me wait s).status p = s.status p from
        Function.update_of_ne mine ..] at gone
  by_cases mine : i = me
  · subst mine
    rw [show (Scheduler.rendezvousParked i wait s).warpWait i = some wait from
      Function.update_self ..] at waits
    obtain rfl := Option.some.inj waits
    exact alive p mate still
  · rw [show (Scheduler.rendezvousParked me wait s).status i = s.status i from
      Function.update_of_ne mine ..] at parked
    rw [show (Scheduler.rendezvousParked me wait s).warpWait i = s.warpWait i from
      Function.update_of_ne mine ..] at waits
    exact h i w p parked waits mate still

theorem Promising.rendezvousReleased {wait : WarpWait} (h : Promising g s)
    (named : wait.mask.names (g.laneOf me) = true) :
    Promising g (rendezvousReleased g me wait s) := by
  have own : me ∈ g.members (g.blockOf me) (g.warpOf me) wait.mask :=
    g.mem_members.mpr ⟨rfl, rfl, named⟩
  have theirs : ∀ i, (Scheduler.rendezvousReleased g me wait s).status i =
      if i ∈ g.members (g.blockOf me) (g.warpOf me) wait.mask then .runnable else s.status i := by
    intro i
    by_cases member : i ∈ g.members (g.blockOf me) (g.warpOf me) wait.mask
    · simp [Scheduler.rendezvousReleased, setAll, member]
    · have away : i ≠ me := fun same => member (by rwa [same])
      simp [Scheduler.rendezvousReleased, setAll, member, away]
  refine h.of_moved (fun i parked => ?_) fun p gone => ?_
  · rw [theirs] at parked
    split at parked
    · cases parked
    next outside =>
      have away : i ≠ me := fun same => outside (by rwa [same])
      exact ⟨parked, by simp [Scheduler.rendezvousReleased, setAll, outside, away]⟩
  · rw [theirs] at gone
    split at gone
    · cases gone
    · exact gone

/-! ### What an operation reports -/

theorem handOff_verdict (live : s.aborted = false) (h : Promising g s) :
    Verdict g (handOff g s) := .quiet (handOff_quiet live) ((handOff_rests g s).promising h)

theorem barrier_verdict (loc : Location) (live : s.aborted = false) (h : Promising g s) :
    Verdict g (barrier g me loc s) := by
  have rests := handOffUnlessFailed_rests g (barrierEnter g me loc s)
  unfold barrier
  rcases barrierEnter_cases g me loc s with
    ⟨i, -, -, -, enter⟩ | ⟨-, enter⟩ | ⟨-, -, enter⟩
  · rw [enter, barrierDivergence, handOffUnlessFailed_fail]
    exact .early rfl rfl fun misses => by cases misses
  · rw [enter] at rests ⊢
    exact .quiet (handOffUnlessFailed_quiet live) (rests.promising h.barrierReleased)
  · rw [enter] at rests ⊢
    exact .quiet (handOffUnlessFailed_quiet live) (rests.promising (h.barrierParked loc))

theorem warpRendezvous_verdict {wait : WarpWait} (live : s.aborted = false) (h : Promising g s)
    (named : wait.mask.names (g.laneOf me) = true) : Verdict g (warpRendezvous g me wait s) := by
  have rests := handOffUnlessFailed_rests g (rendezvousEnter g me wait s)
  unfold warpRendezvous
  rcases rendezvousEnter_cases g me wait s with
    ⟨p, mate, finished, enter⟩ | ⟨-, p, other, -, enter⟩ | ⟨-, -, enter⟩ | ⟨alive, -, -, enter⟩
  · rw [enter, handOffUnlessFailed_fail]
    refine .early rfl rfl fun _ => .inl ⟨me, wait, p, ⟨?_, ?_, rfl⟩, mate, ?_⟩
    · exact Function.update_self ..
    · exact Function.update_self ..
    · exact (Function.update_of_ne mate.2.2 ..).trans finished
  · rw [enter, handOffUnlessFailed_fail]
    exact .early rfl rfl fun misses => by cases misses
  · rw [enter] at rests ⊢
    exact .quiet (handOffUnlessFailed_quiet live) (rests.promising (h.rendezvousReleased named))
  · rw [enter] at rests ⊢
    exact .quiet (handOffUnlessFailed_quiet live) (rests.promising (h.rendezvousParked alive))

theorem finish_verdict (live : s.aborted = false) (h : Promising g s) :
    Verdict g (finish g me s) := by
  have rests := finish_rests g me s
  rcases finishEnter_cases g me s with
    ⟨p, wait, ⟨warp, away, parked, waits, named⟩, enter⟩ | ⟨-, -, enter⟩ | ⟨unwanted, -, enter⟩
  · unfold finish
    rw [enter]
    refine .early rfl rfl fun _ => .inl ⟨p, wait, me, ⟨?_, waits, ?_⟩,
      ⟨⟨warp.1.symm, warp.2.symm⟩, named, away.symm⟩, Function.update_self ..⟩
    · exact (Function.update_of_ne away ..).trans parked
    · rw [warp.1, warp.2]
      rfl
  · unfold finish
    rw [enter]
    exact .early rfl rfl fun misses => by cases misses
  · exact .quiet (finish_of_unwanted live enter) (rests.promising (h.finishMarked unwanted))

/-! ### What kind of finding an operation makes -/

theorem diverges_of_stuckReports {d : Diagnostic} (member : d ∈ stuckReports g s) :
    d.diverges = true := by
  unfold stuckReports at member
  dsimp only at member
  split at member
  · obtain ⟨b, -, in_block⟩ := List.mem_flatMap.mp member
    obtain ⟨w, -, found⟩ := List.mem_filterMap.mp in_block
    simp only [stuckWarp, Option.bind_eq_bind, Option.pure_def, Option.bind_eq_some_iff] at found
    obtain ⟨_, -, _, -, report⟩ := found
    cases report
    rfl
  · obtain ⟨b, -, found⟩ := List.mem_filterMap.mp member
    split at found
    · cases found
    · cases found
      rfl

theorem Quiet.diverges {r : Outcome} (quiet : Quiet g r) {d : Diagnostic} (member : d ∈ r.2) :
    d.diverges = true := by
  rcases quiet with ⟨-, silent⟩ | detected
  · rw [silent] at member
    cases member
  · rw [detected.reports] at member
    exact diverges_of_stuckReports member

theorem finish_diverges (live : s.aborted = false) {d : Diagnostic}
    (member : d ∈ (finish g me s).2) : d.diverges = true := by
  have failing : ∀ t d', finishEnter g me s = fail t d' → d = d' := by
    intro t d' enter
    have failed : finish g me s = fail t d' := by simp [finish, enter, fail]
    rw [failed] at member
    exact List.mem_singleton.mp member
  rcases finishEnter_cases g me s with ⟨p, wait, -, enter⟩ | ⟨-, -, enter⟩ | ⟨-, -, enter⟩
  · rw [failing _ _ enter]
    rfl
  · rw [failing _ _ enter]
    rfl
  · have quiet : Quiet g (finish g me s) := finish_of_unwanted live enter
    exact quiet.diverges member

theorem barrier_diverges {loc : Location} (live : s.aborted = false) {d : Diagnostic}
    (member : d ∈ (barrier g me loc s).2) : d.diverges = true := by
  unfold barrier at member
  rcases barrierEnter_cases g me loc s with ⟨i, -, -, -, enter⟩ | ⟨-, enter⟩ | ⟨-, -, enter⟩
  · rw [enter, barrierDivergence, handOffUnlessFailed_fail] at member
    rw [List.mem_singleton.mp member]
    rfl
  · rw [enter] at member
    exact (handOffUnlessFailed_quiet (s := barrierReleased g me s) live).diverges member
  · rw [enter] at member
    exact (handOffUnlessFailed_quiet (s := barrierParked g me loc s) live).diverges member

/-- What is no divergence is a mismatch of two lanes that disagree. -/
theorem warpRendezvous_diverges {wait : WarpWait} (live : s.aborted = false) {d : Diagnostic}
    (member : d ∈ (warpRendezvous g me wait s).2) :
    d.diverges = true ∨ ∃ p other, Disagrees g s me wait p other ∧
      d = .warpMaskMismatch (g.blockOf me) (g.warpOf me) wait.op wait.loc (g.laneOf me) wait.mask
        (g.laneOf p) other.mask ∧
      (warpRendezvous g me wait s).1.warpWait me = some wait := by
  unfold warpRendezvous at member
  rcases rendezvousEnter_cases g me wait s with
    ⟨p, -, -, enter⟩ | ⟨-, p, other, disagrees, enter⟩ | ⟨-, -, enter⟩ | ⟨-, -, -, enter⟩
  · rw [enter, handOffUnlessFailed_fail] at member
    left
    rw [List.mem_singleton.mp member]
    rfl
  · rw [enter, handOffUnlessFailed_fail] at member
    refine .inr ⟨p, other, disagrees, List.mem_singleton.mp member, ?_⟩
    rw [warpRendezvous, enter, handOffUnlessFailed_fail]
    exact Function.update_self ..
  · rw [enter] at member
    exact .inl ((handOffUnlessFailed_quiet (s := rendezvousReleased g me wait s) live).diverges member)
  · rw [enter] at member
    exact .inl ((handOffUnlessFailed_quiet (s := rendezvousParked me wait s) live).diverges member)

end Scheduler

end Riri
