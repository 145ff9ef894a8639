import Riri.Sched.Effects

/-!
# Whom the scheduler's findings are about

Every divergence and every mask mismatch names a block of the wave in which some thread is
parked the way the finding says. The threads involved are read off the state the operation
leaves, not off the finding's block.
-/
namespace Riri

/-- The block field of the findings the scheduler makes. -/
def Diagnostic.schedBlock? : Diagnostic → Option Nat
  | .barrierDivergence block _ _ _ | .warpDivergence block _ _ _ _ _
  | .warpMaskMismatch block _ _ _ _ _ _ _ => some block
  | .dataRace _ _ _ _ | .uninitRead _ _ _ | .outOfBounds _ _ _ _ | .warpLaneError _ _ _ _ _ _ _
  | .kernelPanic _ _ _ => none

/-- The findings that somebody waits in vain. -/
def Diagnostic.diverges : Diagnostic → Bool
  | .barrierDivergence .. | .warpDivergence .. => true
  | _ => false

theorem Diagnostic.schedBlock_of_diverges {d : Diagnostic} (diverges : d.diverges = true) :
    d.schedBlock? ≠ none := by
  cases d with
  | barrierDivergence | warpDivergence => simp [schedBlock?]
  | _ => cases diverges

namespace Scheduler

variable (g : Geometry)

/-- Thread `i` is one a finding describes, whatever block the finding names: it is parked the
way the finding says, and the counts and masks are those of its own block and warp. -/
def Involved (s : State) (i : Nat) : Diagnostic → Prop
  | .barrierDivergence _ waiting exited _ =>
      s.status i = .atBarrier ∧ waiting = waitingAt g s (g.blockOf i) ∧
        exited = exitedFrom g s (g.blockOf i)
  | .warpDivergence _ warp op mask arrived loc =>
      g.warpOf i = warp ∧ s.status i = .atWarp ∧ ∃ phase,
        s.warpWait i = some ⟨phase, mask, loc, op⟩ ∧
          arrived = arrivedMask g s (g.blockOf i) warp ⟨phase, mask, loc, op⟩
  | .warpMaskMismatch _ warp op loc lane mask _ _ =>
      g.warpOf i = warp ∧ g.laneOf i = lane ∧ s.status i = .atWarp ∧ ∃ phase,
        s.warpWait i = some ⟨phase, mask, loc, op⟩
  | _ => False

/-- What an operation of `me` reports is about a thread of the block it names. -/
def Attributed (me : Nat) (r : Outcome) : Prop :=
  ∀ d ∈ r.2, ∃ i, (me < g.total → i < g.total) ∧ Involved g r.1 i d ∧
    d.schedBlock? = some (g.blockOf i)

variable {g}

/-- Only statuses and warp waits are read. -/
theorem Involved.congr {s s' : State} {i : Nat} {d : Diagnostic} (involved : Involved g s i d)
    (status : s'.status = s.status) (waits : s'.warpWait = s.warpWait) : Involved g s' i d := by
  cases d with
  | barrierDivergence | warpDivergence | warpMaskMismatch =>
    simpa only [Involved, waitingAt, exitedFrom, arrivedMask, status, waits] using involved
  | _ => exact involved.elim

theorem Attributed.of_silent {me : Nat} {s : State} : Attributed g me (s, []) := by
  intro d member
  cases member

theorem fail_attributed {me i : Nat} {s : State} {d : Diagnostic}
    (inside : me < g.total → i < g.total) (involved : Involved g s i d)
    (named : d.schedBlock? = some (g.blockOf i)) : Attributed g me (fail s d) := by
  intro d' member
  obtain rfl := List.mem_singleton.mp member
  exact ⟨i, inside, involved.congr rfl rfl, named⟩

/-- A report on a block in which somebody waits is about that thread. -/
theorem barrierReport_involved {s : State} {i : Nat} (parked : s.status i = .atBarrier) :
    Involved g s i (barrierReport g s (g.blockOf i)) := ⟨parked, rfl, rfl⟩

theorem detectStuck_attributed (me : Nat) (s : State) : Attributed g me (detectStuck g s) := by
  intro d member
  simp only [detectStuck, stuckReports] at member
  split at member
  · obtain ⟨block, in_grid, member⟩ := List.mem_flatMap.mp member
    obtain ⟨warp, -, found⟩ := List.mem_filterMap.mp member
    simp only [stuckWarp, Option.bind_eq_bind, Option.pure_def, Option.bind_eq_some_iff] at found
    obtain ⟨first, lane, wait, waits, found⟩ := found
    have here := List.mem_range.mp (List.mem_of_find?_eq_some lane)
    have parked := List.find?_some lane
    obtain ⟨block_eq, warp_eq, -⟩ := g.of_warpBase_add block here
    have inside := g.lt_total_of_blockOf (by rw [block_eq]; exact List.mem_range.mp in_grid)
    cases found
    have involved : Involved g s (g.warpBase block warp + first) (.warpDivergence block warp
        wait.op wait.mask (arrivedMask g s block warp wait) wait.loc) :=
      ⟨warp_eq, of_decide_eq_true parked, wait.phase, waits, by rw [block_eq]⟩
    exact ⟨_, fun _ => inside, involved.congr rfl rfl, by rw [block_eq]; rfl⟩
  · obtain ⟨block, in_grid, found⟩ := List.mem_filterMap.mp member
    split at found
    · cases found
    next somebody =>
      obtain ⟨i, in_block, parked⟩ := List.countP_pos_iff.mp (Nat.pos_of_ne_zero somebody)
      obtain rfl := g.mem_blockRange.mp in_block
      have inside := g.lt_total_of_blockOf (List.mem_range.mp in_grid)
      cases found
      exact ⟨i, fun _ => inside,
        (barrierReport_involved (of_decide_eq_true parked)).congr rfl rfl, rfl⟩

theorem handOff_attributed (me : Nat) (s : State) : Attributed g me (handOff g s) := by
  unfold handOff
  dsimp only
  split
  · exact detectStuck_attributed me _
  · exact .of_silent

theorem handOffUnlessFailed_attributed {me : Nat} {r : Outcome} (first : Attributed g me r)
    (silent : r.1.aborted = false → r.2 = []) : Attributed g me (handOffUnlessFailed g r) := by
  unfold handOffUnlessFailed
  by_cases failed : r.1.aborted = true
  · rw [if_pos failed]
    exact first
  · rw [if_neg failed]
    dsimp only
    rw [silent (by simpa using failed), List.nil_append]
    exact handOff_attributed me _

theorem barrier_attributed (me : Nat) (loc : Location) (s : State) :
    Attributed g me (barrier g me loc s) := by
  unfold barrier
  rcases barrierEnter_cases g me loc s with ⟨i, -, -, -, enter⟩ | ⟨-, enter⟩ | ⟨-, -, enter⟩
  · rw [enter, barrierDivergence, handOffUnlessFailed_fail]
    exact fail_attributed id (barrierReport_involved (Function.update_self ..)) rfl
  · rw [enter]
    exact handOffUnlessFailed_attributed .of_silent fun _ => rfl
  · rw [enter]
    exact handOffUnlessFailed_attributed .of_silent fun _ => rfl

theorem warpRendezvous_attributed (me : Nat) (wait : WarpWait) (s : State) :
    Attributed g me (warpRendezvous g me wait s) := by
  have parked : (rendezvousParked me wait s).status me = .atWarp := Function.update_self ..
  have waits : (rendezvousParked me wait s).warpWait me = some wait := Function.update_self ..
  unfold warpRendezvous
  rcases rendezvousEnter_cases g me wait s with
    ⟨p, -, -, enter⟩ | ⟨-, p, other, -, enter⟩ | ⟨-, -, enter⟩ | ⟨-, -, -, enter⟩
  · rw [enter, handOffUnlessFailed_fail]
    exact fail_attributed id ⟨rfl, parked, wait.phase, waits, rfl⟩ rfl
  · rw [enter, handOffUnlessFailed_fail]
    exact fail_attributed id ⟨rfl, rfl, parked, wait.phase, waits⟩ rfl
  · rw [enter]
    exact handOffUnlessFailed_attributed .of_silent fun _ => rfl
  · rw [enter]
    exact handOffUnlessFailed_attributed .of_silent fun _ => rfl

theorem finish_attributed (me : Nat) (s : State) : Attributed g me (finish g me s) := by
  unfold finish
  rcases finishEnter_cases g me s with
    ⟨p, wait, waiting, enter⟩ | ⟨-, ⟨i, block, away, parked⟩, enter⟩ | ⟨-, -, enter⟩
  · obtain ⟨⟨block, warp⟩, away, parked, waits, -⟩ := waiting
    have still : (finishMarked me s).status p = .atWarp :=
      (Function.update_of_ne away ..).trans parked
    rw [enter]
    simp only [fail, if_true]
    refine fail_attributed (i := p) (fun inside => ?_) ⟨warp, still, wait.phase, waits, ?_⟩ ?_
    · exact g.lt_total_of_blockOf (by rw [block]; exact g.blockOf_lt inside)
    · rw [block]
    · rw [block]
      rfl
  · have still : (finishMarked me s).status i = .atBarrier :=
      (Function.update_of_ne away ..).trans parked
    rw [enter, ← block]
    simp only [barrierDivergence, fail, if_true]
    exact fail_attributed
      (fun inside => g.lt_total_of_blockOf (by rw [block]; exact g.blockOf_lt inside))
      (barrierReport_involved still) rfl
  · rw [enter]
    dsimp only
    split
    · exact .of_silent
    · split
      · exact detectStuck_attributed me _
      · exact .of_silent

end Scheduler

end Riri
