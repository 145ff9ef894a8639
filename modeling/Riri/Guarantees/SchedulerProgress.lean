import Riri.Sched.Effects

/-!
# The launch never wedges silently

Every exit path of every scheduler operation picks a runnable thread, ends the launch or
reports. The run below is any order of operations by whichever thread holds the turn, so it
covers every kernel; masks need not even have passed the lane checks.
-/
namespace Riri.Scheduler

variable (g : Geometry)

/-- What the thread holding the turn can do to the scheduler and the reporter. -/
inductive Action where
  | yield
  | barrier (loc : Location)
  | rendezvous (wait : WarpWait)
  | finish
  | report (d : Diagnostic)
  /-- A trap, a kernel panic or a lane error: the finding is pushed, then the launch aborts. -/
  | trap (d : Diagnostic)

def perform (me : Nat) (s : State) : Action → Outcome
  | .yield => yieldNow g s
  | .barrier loc => Scheduler.barrier g me loc s
  | .rendezvous wait => warpRendezvous g me wait s
  | .finish => Scheduler.finish g me s
  | .report d => (s, [d])
  | .trap d => (abort s, [d])

/-- Scheduler states between operations, with everything pushed to the reporter so far.
Nothing runs after an abort. -/
inductive Reachable (choices : Choices) : State → List Diagnostic → Prop where
  | new : Reachable choices (Scheduler.new g choices) []
  | act {s : State} {raised : List Diagnostic} {me : Nat} (a : Action)
      (before : Reachable choices s raised) (live : s.aborted = false)
      (turn : s.current = some me) :
      Reachable choices (perform g me s a).1 (raised ++ (perform g me s a).2)

/-- A lane parked at a collective has recorded what it waits for. -/
def WaitsRecorded (s : State) : Prop :=
  ∀ i < g.total, s.status i = .atWarp → ∃ wait, s.warpWait i = some wait

/-- Aborted with a reason, over, or running. -/
def InProgress (s : State) (raised : List Diagnostic) : Prop :=
  (s.aborted = true ∧ raised ≠ []) ∨
    (s.aborted = false ∧ s.current = none ∧ ∀ i < g.total, s.status i = .finished) ∨
    (s.aborted = false ∧ ∃ i < g.total, s.current = some i ∧ s.status i = .runnable)

/-- The invariant of a run: where it stands, and while it runs, recorded waits. -/
structure Sound (s : State) (raised : List Diagnostic) : Prop where
  waits : s.aborted = false → WaitsRecorded g s
  inProgress : InProgress g s raised

/-- A parked lane makes its warp reportable. -/
theorem stuckWarp_ne_none {s : State} {i : Nat} (waits : WaitsRecorded g s) (hi : i < g.total)
    (parked : s.status i = .atWarp) : stuckWarp g s (g.blockOf i) (g.warpOf i) ≠ none := by
  have here : g.warpBase (g.blockOf i) (g.warpOf i) + g.laneOf i = i := g.warpBase_add_laneOf i
  cases found : (List.range (g.lanesIn (g.warpOf i))).find? fun l =>
      s.status (g.warpBase (g.blockOf i) (g.warpOf i) + l) = .atWarp with
  | none =>
    have unparked := List.find?_eq_none.mp found (g.laneOf i)
      (List.mem_range.mpr (g.laneOf_lt_lanesIn i))
    simp [here, parked] at unparked
  | some first =>
    have first_parked := List.find?_some found
    have first_lane := List.mem_range.mp (List.mem_of_find?_eq_some found)
    have position := g.of_warpBase_add (g.blockOf i) first_lane
    have first_lt : g.warpBase (g.blockOf i) (g.warpOf i) + first < g.total :=
      g.lt_total_of_blockOf (by rw [position.1]; exact g.blockOf_lt hi)
    obtain ⟨wait, recorded⟩ := waits _ first_lt (by simpa using first_parked)
    simp [stuckWarp, found, recorded]

/-- A launch without a runnable thread but with a live one has something to report. -/
theorem stuckReports_ne_nil {s : State} {i : Nat} (waits : WaitsRecorded g s)
    (empty : runnable g s = []) (hi : i < g.total) (live : s.status i ≠ .finished) :
    stuckReports g s ≠ [] := by
  have block_mem : g.blockOf i ∈ List.range g.blocks := List.mem_range.mpr (g.blockOf_lt hi)
  unfold stuckReports
  dsimp only
  split
  next warps => exact warps
  next warps =>
    have no_warps : ((List.range g.blocks).flatMap fun block =>
        (List.range g.warpsPerBlock).filterMap fun warp => stuckWarp g s block warp) = [] := by
      by_contra some_warp
      exact warps some_warp
    have at_barrier : s.status i = .atBarrier := by
      cases status : s.status i with
      | runnable =>
        have member := (mem_runnable g).mpr ⟨hi, status⟩
        rw [empty] at member
        cases member
      | atBarrier => rfl
      | atWarp =>
        have silent := List.flatMap_eq_nil_iff.mp no_warps _ block_mem
        have absent := List.filterMap_eq_nil_iff.mp silent _ (List.mem_range.mpr (g.warpOf_lt i))
        exact absurd absent (stuckWarp_ne_none g waits hi status)
      | finished => exact absurd status live
    intro silent
    have reported := List.filterMap_eq_nil_iff.mp silent _ block_mem
    have waiting : waitingAt g s (g.blockOf i) ≠ 0 := by
      unfold waitingAt
      exact Nat.ne_of_gt (List.countP_pos_iff.mpr
        ⟨i, (g.mem_blockRange).mpr rfl, by simp [at_barrier]⟩)
    simp [waiting] at reported

theorem Turned.sound {s s' : State} {raised : List Diagnostic} (h : Turned g s s')
    (live : s.aborted = false) (waits : WaitsRecorded g s) : Sound g s' raised := by
  obtain ⟨i, hi, runnable, current⟩ := h.chosen
  refine ⟨fun _ j hj parked => ?_, .inr (.inr ⟨h.aborted.trans live, i, hi, current, ?_⟩)⟩
  · rw [h.status] at parked
    rw [h.warpWait]
    exact waits j hj parked
  · rw [h.status]
    exact runnable

theorem fail_sound (s : State) (d : Diagnostic) (raised : List Diagnostic) :
    Sound g (fail s d).1 (raised ++ (fail s d).2) :=
  ⟨fun live => (by cases live), .inl ⟨rfl, by simp [fail]⟩⟩

/-- A live thread handing off finds a runnable thread or reports the wedge. -/
theorem handOff_sound {s : State} {i : Nat} (raised : List Diagnostic) (live : s.aborted = false)
    (waits : WaitsRecorded g s) (hi : i < g.total) (alive : s.status i ≠ .finished) :
    Sound g (handOff g s).1 (raised ++ (handOff g s).2) := by
  by_cases empty : runnable g s = []
  · rw [handOff_stuck g empty]
    have reports := stuckReports_ne_nil g waits empty hi alive
    exact ⟨fun live => (by cases live), .inl ⟨rfl, by simp [reports]⟩⟩
  · obtain ⟨turned, silent⟩ := handOff_turned g empty
    exact turned.sound g live waits

/-- The same for an operation that first changed statuses. -/
theorem handOffUnlessFailed_sound {s : State} {i : Nat} (raised : List Diagnostic)
    (live : s.aborted = false) (waits : WaitsRecorded g s) (hi : i < g.total)
    (alive : s.status i ≠ .finished) :
    Sound g (handOffUnlessFailed g (s, [])).1 (raised ++ (handOffUnlessFailed g (s, [])).2) := by
  have handed : handOffUnlessFailed g (s, []) = ((handOff g s).1, (handOff g s).2) := by
    simp [handOffUnlessFailed, live]
  rw [handed]
  exact handOff_sound g raised live waits hi alive

theorem barrier_sound {s : State} {me : Nat} (loc : Location) (raised : List Diagnostic)
    (live : s.aborted = false) (waits : WaitsRecorded g s) (hme : me < g.total) :
    Sound g (barrier g me loc s).1 (raised ++ (barrier g me loc s).2) := by
  have keep : ∀ f : Nat → Status, (∀ i, f i = .atWarp → s.status i = .atWarp) →
      ∀ i < g.total, f i = .atWarp → ∃ wait, s.warpWait i = some wait :=
    fun f back i hi parked => waits i hi (back i parked)
  rcases barrierEnter_cases g me loc s with ⟨i, -, -, -, enter⟩ | ⟨-, enter⟩ | ⟨-, -, enter⟩
  · rw [barrier, enter, barrierDivergence, handOffUnlessFailed_fail]
    exact fail_sound g _ _ raised
  · rw [barrier, enter]
    refine handOffUnlessFailed_sound (s := barrierReleased g me s) g raised live ?_ hme ?_
    · refine keep (barrierReleased g me s).status fun i parked => ?_
      simp only [barrierReleased, setAll] at parked
      split at parked
      · cases parked
      · by_cases mine : i = me
        · simp [mine] at parked
        · simpa [mine] using parked
    · simp [barrierReleased, setAll, (g.mem_blockRange).mpr rfl]
  · rw [barrier, enter]
    refine handOffUnlessFailed_sound (s := barrierParked g me loc s) g raised live ?_ hme ?_
    · refine keep (barrierParked g me loc s).status fun i parked => ?_
      by_cases mine : i = me
      · simp [barrierParked, mine] at parked
      · simpa [barrierParked, mine] using parked
    · simp [barrierParked]

theorem rendezvousParked_waits {s : State} {me : Nat} {wait : WarpWait} (waits : WaitsRecorded g s) :
    WaitsRecorded g (rendezvousParked me wait s) := by
  intro i hi parked
  by_cases mine : i = me
  · exact ⟨wait, by simp [rendezvousParked, mine]⟩
  · simp only [rendezvousParked, Function.update_of_ne mine] at parked ⊢
    exact waits i hi parked

theorem rendezvousReleased_waits {s : State} {me : Nat} {wait : WarpWait}
    (waits : WaitsRecorded g s) : WaitsRecorded g (rendezvousReleased g me wait s) := by
  intro i hi parked
  simp only [rendezvousReleased, setAll] at parked ⊢
  split at parked
  · cases parked
  next outside =>
    rw [if_neg outside]
    exact rendezvousParked_waits g waits i hi parked

theorem warpRendezvous_sound {s : State} {me : Nat} (wait : WarpWait) (raised : List Diagnostic)
    (live : s.aborted = false) (waits : WaitsRecorded g s) (hme : me < g.total) :
    Sound g (warpRendezvous g me wait s).1 (raised ++ (warpRendezvous g me wait s).2) := by
  rcases rendezvousEnter_cases g me wait s with
    ⟨p, -, -, enter⟩ | ⟨-, p, other, -, enter⟩ | ⟨-, -, enter⟩ | ⟨-, -, -, enter⟩
  · rw [warpRendezvous, enter, handOffUnlessFailed_fail]
    exact fail_sound g _ _ raised
  · rw [warpRendezvous, enter, handOffUnlessFailed_fail]
    exact fail_sound g _ _ raised
  · rw [warpRendezvous, enter]
    refine handOffUnlessFailed_sound (s := rendezvousReleased g me wait s) g raised live
      (rendezvousReleased_waits g waits) hme ?_
    simp only [rendezvousReleased, setAll]
    split <;> simp
  · rw [warpRendezvous, enter]
    refine handOffUnlessFailed_sound (s := rendezvousParked me wait s) g raised live
      (rendezvousParked_waits g waits) hme ?_
    simp [rendezvousParked]

theorem finish_sound {s : State} {me : Nat} (raised : List Diagnostic) (live : s.aborted = false)
    (waits : WaitsRecorded g s) :
    Sound g (finish g me s).1 (raised ++ (finish g me s).2) := by
  unfold finish
  rcases finishEnter_cases g me s with ⟨p, wait, -, enter⟩ | ⟨-, -, enter⟩ | ⟨-, -, enter⟩
  · rw [enter]
    exact fail_sound g _ _ raised
  · rw [enter]
    exact fail_sound g _ _ raised
  · rw [enter]
    have still_live : (finishMarked me s).aborted = false := live
    have still_recorded : WaitsRecorded g (finishMarked me s) := by
      intro i hi parked
      by_cases mine : i = me
      · simp [finishMarked, mine] at parked
      · simp only [finishMarked, Function.update_of_ne mine] at parked
        exact waits i hi parked
    simp only [still_live, Bool.false_eq_true, if_false]
    by_cases empty : runnable g (finishMarked me s) = []
    · rw [pickNext_of_none g empty]
      by_cases ended : ∃ i < g.total, (finishMarked me s).status i ≠ .finished
      · obtain ⟨i, hi, alive⟩ := ended
        have reports := stuckReports_ne_nil g still_recorded empty hi alive
        rw [if_pos ⟨rfl, i, hi, alive⟩]
        refine ⟨fun live => (by cases live), .inl ⟨rfl, ?_⟩⟩
        intro silent
        exact reports (List.append_eq_nil_iff.mp silent).2
      · rw [if_neg fun both => ended both.2]
        refine ⟨fun _ => still_recorded, .inr (.inl ⟨still_live, rfl, fun i hi => ?_⟩)⟩
        by_contra alive
        exact ended ⟨i, hi, alive⟩
    · have turned := pickNext_turned g empty
      obtain ⟨i, -, -, current⟩ := turned.chosen
      rw [if_neg (by simp [current])]
      exact turned.sound g still_live still_recorded

theorem new_sound (choices : Choices) : Sound g (new g choices) [] := by
  have no_waits : WaitsRecorded g (unstarted choices) := fun i _ parked => (by cases parked)
  unfold new
  by_cases empty : runnable g (unstarted choices) = []
  · rw [pickNext_of_none g empty]
    refine ⟨fun _ => no_waits, .inr (.inl ⟨rfl, rfl, fun i hi => ?_⟩)⟩
    have member : i ∈ runnable g (unstarted choices) := (mem_runnable g).mpr ⟨hi, rfl⟩
    rw [empty] at member
    cases member
  · exact (pickNext_turned g empty).sound g rfl no_waits

theorem perform_sound {s : State} {raised : List Diagnostic} {me : Nat} (a : Action)
    (sound : Sound g s raised) (live : s.aborted = false) (turn : s.current = some me) :
    Sound g (perform g me s a).1 (raised ++ (perform g me s a).2) := by
  have waits := sound.waits live
  obtain ⟨hme, running⟩ : me < g.total ∧ s.status me = .runnable := by
    rcases sound.inProgress with ⟨stopped, -⟩ | ⟨-, nobody, -⟩ | ⟨-, i, hi, current, running⟩
    · rw [live] at stopped
      cases stopped
    · rw [turn] at nobody
      cases nobody
    · obtain rfl : me = i := by
        rw [turn] at current
        exact Option.some.inj current
      exact ⟨hi, running⟩
  cases a with
  | yield => exact handOff_sound g raised live waits hme (by simp [running])
  | barrier loc => exact barrier_sound g loc raised live waits hme
  | rendezvous wait => exact warpRendezvous_sound g wait raised live waits hme
  | finish => exact finish_sound g raised live waits
  | report d => exact ⟨fun _ => waits, .inr (.inr ⟨live, me, hme, turn, running⟩)⟩
  | trap d => exact ⟨fun live => (by cases live), .inl ⟨rfl, by simp [perform]⟩⟩

theorem Reachable.sound {choices : Choices} {s : State} {raised : List Diagnostic}
    (h : Reachable g choices s raised) : Sound g s raised := by
  induction h with
  | new => exact new_sound g choices
  | act a _ live turn ih => exact perform_sound g a ih live turn

/-- Between operations the launch has aborted with a finding already pushed, or is over, or
hands the turn to a runnable thread; a live thread is never left without one of the three. -/
theorem reachable_inProgress {choices : Choices} {s : State} {raised : List Diagnostic}
    (h : Reachable g choices s raised) :
    ((s.aborted = true ∧ raised ≠ []) ∨
      (s.current = none ∧ ∀ i < g.total, s.status i = .finished) ∨
      (s.aborted = false ∧ ∃ i < g.total, s.current = some i ∧ s.status i = .runnable)) ∧
    ¬ (s.aborted = false ∧ (∃ i < g.total, s.status i ≠ .finished) ∧
      ¬ ∃ i, s.current = some i ∧ s.status i = .runnable) := by
  have progress := (h.sound g).inProgress
  constructor
  · rcases progress with stopped | ⟨-, ended⟩ | running
    · exact .inl stopped
    · exact .inr (.inl ended)
    · exact .inr (.inr running)
  · rintro ⟨live, ⟨i, hi, alive⟩, idle⟩
    rcases progress with ⟨stopped, -⟩ | ⟨-, -, ended⟩ | ⟨-, j, -, current, running⟩
    · rw [live] at stopped
      cases stopped
    · exact alive (ended i hi)
    · exact idle ⟨j, current, running⟩

/-- Lane 0 waits at a barrier and lane 1 for lane 2 at a collective, and lane 2 has the turn. When
it comes to the barrier too, nobody can run and the launch ends with a report. -/
theorem reachable_inProgress_trio :
    let trio : Geometry := ⟨1, 3, 32, by decide, by decide, by decide, by decide⟩
    (∃ s raised, Reachable trio (.replay [] 0) s raised ∧
      (List.range 3).map s.status = [.atBarrier, .atWarp, .runnable] ∧
      ¬ (s.aborted = false ∧ (∃ i < trio.total, s.status i ≠ .finished) ∧
        ¬ ∃ i, s.current = some i ∧ s.status i = .runnable)) ∧
    ∃ s raised, Reachable trio (.replay [] 0) s raised ∧
      (List.range 3).map s.status = [.atBarrier, .atWarp, .atBarrier] ∧
      s.aborted = true ∧ raised ≠ [] := by
  intro trio
  have waiting : Reachable trio (.replay [] 0) _ _ :=
    .act (.barrier ⟨"kernel.rs", 3, 5⟩) .new (by decide +kernel)
      (show State.current _ = some 0 by decide +kernel)
  have parked : Reachable trio (.replay [] 0) _ _ :=
    .act (.rendezvous ⟨.arrive, 0b110#32, ⟨"kernel.rs", 4, 5⟩, .syncWarp⟩) waiting
      (by decide +kernel) (show State.current _ = some 1 by decide +kernel)
  have stuck : Reachable trio (.replay [] 0) _ _ :=
    .act (.barrier ⟨"kernel.rs", 3, 5⟩) parked (by decide +kernel)
      (show State.current _ = some 2 by decide +kernel)
  refine ⟨⟨_, _, parked, by decide +kernel, (reachable_inProgress trio parked).2⟩,
    _, _, stuck, by decide +kernel, ?_⟩
  exact (reachable_inProgress trio stuck).1.resolve_right (by decide +kernel)

end Riri.Scheduler
