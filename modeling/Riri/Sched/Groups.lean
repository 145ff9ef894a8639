import Riri.Sched.Effects
import Riri.Warp.Answers

/-!
# Groups that wait

The arrival that completes a group of lanes or a block lets it go. So whoever is parked is
parked with somebody missing.
-/
namespace Riri.Scheduler

/-- Every group with a parked lane lacks one of its members, and every block with a thread at
its barrier lacks a thread there. -/
structure Waiting (g : Geometry) (s : State) : Prop where
  warp : ∀ {i wait}, s.status i = .atWarp → s.warpWait i = some wait →
    ∃ p, Mate g i wait.mask p ∧ ¬ (s.status p = .atWarp ∧ s.warpWait p = some wait)
  barrier : ∀ {i}, s.status i = .atBarrier →
    ∃ j, g.blockOf j = g.blockOf i ∧ s.status j ≠ .atBarrier

variable {g : Geometry} {s : State}

theorem Rests.waiting {s' : State} (rests : Rests s' s) (h : Waiting g s) : Waiting g s' := by
  constructor
  · intro i wait parked waits
    rw [rests.status] at parked ⊢
    rw [rests.warpWait] at waits ⊢
    exact h.warp parked waits
  · intro i parked
    rw [rests.status] at parked ⊢
    exact h.barrier parked

theorem unstarted_waiting (choices : Choices) : Waiting g (unstarted choices) := by
  constructor
  · intro i wait parked
    cases parked
  · intro i parked
    cases parked

/-- Who moves without parking at a collective completes no group. -/
theorem Waiting.warp_of_moved {s' : State} {me : Nat} (h : Waiting g s)
    (status : ∀ i, i ≠ me → s'.status i = s.status i)
    (waits : ∀ i, i ≠ me → s'.warpWait i = s.warpWait i) (elsewhere : s'.status me ≠ .atWarp)
    {i : Nat} {wait : WarpWait} (parked : s'.status i = .atWarp)
    (waiting : s'.warpWait i = some wait) :
    ∃ p, Mate g i wait.mask p ∧ ¬ (s'.status p = .atWarp ∧ s'.warpWait p = some wait) := by
  have away : i ≠ me := by
    rintro rfl
    exact elsewhere parked
  rw [status i away] at parked
  rw [waits i away] at waiting
  obtain ⟨p, mate, absent⟩ := h.warp parked waiting
  refine ⟨p, mate, ?_⟩
  by_cases moved : p = me
  · rw [moved]
    exact fun both => elsewhere both.1
  · rwa [status p moved, waits p moved]

/-- Who moves without parking at a barrier completes no block. -/
theorem Waiting.barrier_of_moved {s' : State} {me : Nat} (h : Waiting g s)
    (status : ∀ i, i ≠ me → s'.status i = s.status i) (elsewhere : s'.status me ≠ .atBarrier)
    {i : Nat} (parked : s'.status i = .atBarrier) :
    ∃ j, g.blockOf j = g.blockOf i ∧ s'.status j ≠ .atBarrier := by
  have away : i ≠ me := by
    rintro rfl
    exact elsewhere parked
  rw [status i away] at parked
  obtain ⟨j, block, absent⟩ := h.barrier parked
  refine ⟨j, block, ?_⟩
  by_cases moved : j = me
  · rwa [moved]
  · rwa [status j moved]

/-- A thread that leaves the kernel completes nothing. -/
theorem Waiting.finishMarked (h : Waiting g s) (me : Nat) : Waiting g (finishMarked me s) := by
  have mine : (Scheduler.finishMarked me s).status me = .finished := Function.update_self ..
  have theirs : ∀ i, i ≠ me → (Scheduler.finishMarked me s).status i = s.status i :=
    fun i away => Function.update_of_ne away ..
  constructor
  · exact h.warp_of_moved theirs (fun _ _ => rfl) (by simp [mine])
  · exact h.barrier_of_moved theirs (by simp [mine])

/-- A thread that parks at its barrier while somebody of the block is elsewhere. -/
theorem Waiting.barrierParked {me : Nat} (h : Waiting g s) (loc : Location)
    (waiting : ∃ i, g.blockOf i = g.blockOf me ∧ i ≠ me ∧ s.status i ≠ .atBarrier) :
    Waiting g (barrierParked g me loc s) := by
  have mine : (Scheduler.barrierParked g me loc s).status me = .atBarrier :=
    Function.update_self ..
  have theirs : ∀ i, i ≠ me → (Scheduler.barrierParked g me loc s).status i = s.status i :=
    fun i away => Function.update_of_ne away ..
  constructor
  · exact h.warp_of_moved theirs (fun _ _ => rfl) (by simp [mine])
  · intro i parked
    by_cases mates : g.blockOf i = g.blockOf me
    · obtain ⟨j, block, away, absent⟩ := waiting
      exact ⟨j, block.trans mates.symm, by rwa [theirs j away]⟩
    · have own : i ≠ me := fun same => mates (by rw [same])
      rw [theirs i own] at parked
      obtain ⟨j, block, absent⟩ := h.barrier parked
      have left : j ≠ me := fun same => mates (by rw [← block, same])
      exact ⟨j, block, by rwa [theirs j left]⟩

/-- A block that has arrived as a whole is let go, and no other block is touched. -/
theorem Waiting.barrierReleased (h : Waiting g s) (me : Nat) :
    Waiting g (barrierReleased g me s) := by
  have status : ∀ i, (Scheduler.barrierReleased g me s).status i =
      if g.blockOf i = g.blockOf me then .runnable else s.status i := by
    intro i
    by_cases mates : g.blockOf i = g.blockOf me
    · simp [Scheduler.barrierReleased, setAll, g.mem_blockRange, mates]
    · have own : i ≠ me := fun same => mates (by rw [same])
      simp [Scheduler.barrierReleased, setAll, g.mem_blockRange, mates, own]
  constructor
  · intro i wait parked waits
    rw [status] at parked
    split at parked
    · cases parked
    next other =>
      obtain ⟨p, mate, absent⟩ := h.warp parked waits
      refine ⟨p, mate, ?_⟩
      rw [status, if_neg (by rwa [mate.1.1])]
      exact absent
  · intro i parked
    rw [status] at parked
    split at parked
    · cases parked
    next other =>
      obtain ⟨j, block, absent⟩ := h.barrier parked
      refine ⟨j, block, ?_⟩
      rwa [status, if_neg (by rwa [block])]

/-- A lane that parks while one of its mates is elsewhere completes no group: a lane it could
complete a group of waits for the same mates. -/
theorem Waiting.rendezvousParked {me : Nat} {wait : WarpWait} (h : Waiting g s)
    (missing : ∃ p, Mate g me wait.mask p ∧ ¬ (s.status p = .atWarp ∧ s.warpWait p = some wait)) :
    Waiting g (rendezvousParked me wait s) := by
  have mine : (Scheduler.rendezvousParked me wait s).status me = .atWarp := Function.update_self ..
  have my_wait : (Scheduler.rendezvousParked me wait s).warpWait me = some wait :=
    Function.update_self ..
  have theirs : ∀ i, i ≠ me → (Scheduler.rendezvousParked me wait s).status i = s.status i :=
    fun i away => Function.update_of_ne away ..
  have their_wait : ∀ i, i ≠ me →
      (Scheduler.rendezvousParked me wait s).warpWait i = s.warpWait i :=
    fun i away => Function.update_of_ne away ..
  obtain ⟨q, mate_q, absent_q⟩ := missing
  have still_absent : ¬ ((Scheduler.rendezvousParked me wait s).status q = .atWarp ∧
      (Scheduler.rendezvousParked me wait s).warpWait q = some wait) := by
    rwa [theirs q mate_q.2.2, their_wait q mate_q.2.2]
  constructor
  · intro i w parked waits
    by_cases own : i = me
    · subst own
      rw [my_wait] at waits
      obtain rfl := Option.some.inj waits
      exact ⟨q, mate_q, still_absent⟩
    · rw [theirs i own] at parked
      rw [their_wait i own] at waits
      obtain ⟨p, mate, absent⟩ := h.warp parked waits
      by_cases left : p = me
      · by_cases same : w = wait
        · subst left same
          have other : q ≠ i := by
            rintro rfl
            exact absent_q ⟨parked, waits⟩
          exact ⟨q, ⟨⟨mate_q.1.1.trans mate.1.1, mate_q.1.2.trans mate.1.2⟩, mate_q.2.1, other⟩,
            still_absent⟩
        · refine ⟨p, mate, ?_⟩
          rw [left, my_wait]
          rintro ⟨-, waiting⟩
          exact same (Option.some.inj waiting).symm
      · exact ⟨p, mate, by rwa [theirs p left, their_wait p left]⟩
  · exact h.barrier_of_moved theirs (by simp [mine])

/-- A group that has arrived as a whole is let go. A lane that waits for one of its members
goes on waiting. -/
theorem Waiting.rendezvousReleased {me : Nat} {wait : WarpWait} (h : Waiting g s)
    (named : wait.mask.names (g.laneOf me) = true) : Waiting g (rendezvousReleased g me wait s) := by
  have own_member : me ∈ g.members (g.blockOf me) (g.warpOf me) wait.mask :=
    g.mem_members.mpr ⟨rfl, rfl, named⟩
  have status : ∀ i, (Scheduler.rendezvousReleased g me wait s).status i =
      if i ∈ g.members (g.blockOf me) (g.warpOf me) wait.mask then .runnable else s.status i := by
    intro i
    by_cases member : i ∈ g.members (g.blockOf me) (g.warpOf me) wait.mask
    · simp [Scheduler.rendezvousReleased, setAll, member]
    · have own : i ≠ me := fun same => member (by rwa [same])
      simp [Scheduler.rendezvousReleased, setAll, member, own]
  have their_wait : ∀ i, i ∉ g.members (g.blockOf me) (g.warpOf me) wait.mask →
      (Scheduler.rendezvousReleased g me wait s).warpWait i = s.warpWait i := by
    intro i outside
    have own : i ≠ me := fun same => outside (by rwa [same])
    simp [Scheduler.rendezvousReleased, setAll, outside, own]
  constructor
  · intro i w parked waits
    rw [status] at parked
    split at parked
    · cases parked
    next outside =>
      rw [their_wait i outside] at waits
      obtain ⟨p, mate, absent⟩ := h.warp parked waits
      refine ⟨p, mate, ?_⟩
      by_cases member : p ∈ g.members (g.blockOf me) (g.warpOf me) wait.mask
      · simp [status, member]
      · rwa [status, if_neg member, their_wait p member]
  · intro i parked
    rw [status] at parked
    split at parked
    · cases parked
    next outside =>
      obtain ⟨j, block, absent⟩ := h.barrier parked
      refine ⟨j, block, ?_⟩
      rw [status]
      split
      · simp
      · exact absent

/-! ### The lanes a report counts as arrived -/

theorem names_foldl_lanes {lanes : List Nat} (inside : ∀ l ∈ lanes, l < 32) (acc : Mask) {lane : Nat}
    (h : lane < 32) :
    (lanes.foldl (fun acc l => acc ||| (1#32 <<< l)) acc).names lane = true ↔
      acc.names lane = true ∨ lane ∈ lanes := by
  induction lanes generalizing acc with
  | nil => simp
  | cons l rest ih =>
    rw [List.foldl_cons, ih fun l' member => inside l' (List.mem_cons_of_mem l member),
      Mask.names_or _ _ h, Mask.names_lane (inside l List.mem_cons_self) h, List.mem_cons]
    simp only [Bool.or_eq_true, decide_eq_true_eq]
    tauto

/-- The lanes of the warp parked at that location in that phase, whatever they wait for. -/
theorem names_arrivedMask {block warp lane : Nat} {wait : WarpWait} (h : lane < 32) :
    (arrivedMask g s block warp wait).names lane = true ↔
      lane < g.lanesIn warp ∧ s.status (g.warpBase block warp + lane) = .atWarp ∧
        ∃ w, s.warpWait (g.warpBase block warp + lane) = some w ∧
          w.phase = wait.phase ∧ w.loc = wait.loc := by
  have nobody : Mask.names 0#32 lane = false := by
    rw [Mask.names_iff _ h]
    simp
  unfold arrivedMask
  rw [names_foldl_lanes (fun l member => ?_) _ h, nobody]
  · simp only [Bool.false_eq_true, false_or, List.mem_filter, List.mem_range, Option.any_eq_true,
      Bool.decide_and, Bool.and_eq_true, decide_eq_true_eq]
  · exact lt_of_lt_of_le (List.mem_range.mp (List.mem_of_mem_filter member)) (g.lanesIn_le warp)

/-- The same of a thread of the warp. -/
theorem names_arrivedMask_laneOf {i p : Nat} {wait : WarpWait} (same : g.SameWarp p i) :
    (arrivedMask g s (g.blockOf i) (g.warpOf i) wait).names (g.laneOf p) = true ↔
      s.status p = .atWarp ∧
        ∃ w, s.warpWait p = some w ∧ w.phase = wait.phase ∧ w.loc = wait.loc := by
  rw [names_arrivedMask (g.laneOf_lt p), ← same.1, ← same.2, g.warpBase_add_laneOf]
  exact and_iff_right (g.laneOf_lt_lanesIn p)

end Riri.Scheduler
