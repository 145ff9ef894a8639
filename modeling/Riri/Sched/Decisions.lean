import Riri.Sched.Effects

/-!
# Changing the source of decisions

An operation reads the source of decisions only where it picks the next thread. Two states
that differ in nothing else stay so through every operation, as long as they pick alike.
-/
namespace Riri.Scheduler

variable (g : Geometry)

/-- The same state with another source of decisions. -/
def State.choosing (s : State) (choices : Choices) : State := { s with choices := choices }

def Outcome.choosing (r : Outcome) (choices : Choices) : Outcome := (r.1.choosing choices, r.2)

/-- What it takes for two sources to decide alike: a correspondence between the decisions
recorded so far and the second source that a pick keeps, at least while the recording is one
the comparison is about. -/
structure Alike where
  corresponds : List UInt32 → Choices → Prop
  about : List UInt32 → Bool → Prop
  picks : ∀ (s : State) (c : Choices), corresponds s.trace c →
    about (pickNext g s).trace (pickNext g s).traceComplete →
    ∃ c', pickNext g (s.choosing c) = (pickNext g s).choosing c' ∧
      corresponds (pickNext g s).trace c'

variable {g}

/-- An operation does the same under both sources and keeps the correspondence. -/
def Alike.Keeps (alike : Alike g) (op : State → Outcome) : Prop :=
  ∀ (s : State) (c : Choices), alike.corresponds s.trace c →
    alike.about (op s).1.trace (op s).1.traceComplete →
    ∃ c', op (s.choosing c) = Outcome.choosing (op s) c' ∧ alike.corresponds (op s).1.trace c'

theorem pickNext_of_cons (g : Geometry) {s : State} {first : Nat} {rest : List Nat}
    (candidates : runnable g s = first :: rest) :
    pickNext g s = commit s (s.choices.choose s.current (first :: rest) first).1
      (s.choices.choose s.current (first :: rest) first).2 := by
  simp only [pickNext, candidates]

theorem commit_choosing (s : State) (chosen : Nat) (c c' c'' : Choices) :
    commit (s.choosing c) chosen c' = (commit s chosen c'').choosing c' := by
  unfold commit
  by_cases room : s.trace.length < MAX_TRACE <;> simp [State.choosing, room]

/-! ### Before the hand-off -/

/-- The part of an operation before its hand-off: no decision is made or recorded. -/
structure Undecided (enter : State → Outcome) : Prop where
  choosing : ∀ s c, enter (s.choosing c) = Outcome.choosing (enter s) c
  trace : ∀ s, (enter s).1.trace = s.trace
  current : ∀ s, (enter s).1.current = s.current

variable (g)

theorem barrierEnter_undecided (me : Nat) (loc : Location) : Undecided (barrierEnter g me loc) where
  choosing s c := by
    unfold barrierEnter
    dsimp only
    rw [apply_ite (Outcome.choosing · c), apply_ite (Outcome.choosing · c)]
    rfl
  trace s := by
    rcases barrierEnter_cases g me loc s with ⟨_, _, _, _, enter⟩ | ⟨_, enter⟩ | ⟨_, _, enter⟩ <;>
      rw [enter] <;> rfl
  current s := by
    rcases barrierEnter_cases g me loc s with ⟨_, _, _, _, enter⟩ | ⟨_, enter⟩ | ⟨_, _, enter⟩ <;>
      rw [enter] <;> rfl

theorem rendezvousEnter_undecided (me : Nat) (wait : WarpWait) :
    Undecided (rendezvousEnter g me wait) where
  choosing s c := by
    rw [rendezvousEnter_eq, rendezvousEnter_eq, apply_ite (Outcome.choosing · c)]
    refine if_congr Iff.rfl rfl ?_
    change (disagreeing g (rendezvousParked me wait s) me wait).elim _ _ = _
    cases disagreeing g (rendezvousParked me wait s) me wait with
    | some found => rfl
    | none =>
      simp only [Option.elim_none]
      rw [apply_ite (Outcome.choosing · c)]
      rfl
  trace s := by
    rcases rendezvousEnter_cases g me wait s with
      ⟨_, _, _, enter⟩ | ⟨_, _, _, _, enter⟩ | ⟨_, _, enter⟩ | ⟨_, _, _, enter⟩ <;>
      rw [enter] <;> rfl
  current s := by
    rcases rendezvousEnter_cases g me wait s with
      ⟨_, _, _, enter⟩ | ⟨_, _, _, _, enter⟩ | ⟨_, _, enter⟩ | ⟨_, _, _, enter⟩ <;>
      rw [enter] <;> rfl

theorem finishEnter_undecided (me : Nat) : Undecided (finishEnter g me) where
  choosing s c := by
    rw [finishEnter_eq, finishEnter_eq]
    change (waitingFor g (finishMarked me s) me).elim _ _ = _
    cases waitingFor g (finishMarked me s) me with
    | some wait => rfl
    | none =>
      simp only [Option.elim_none]
      rw [apply_ite (Outcome.choosing · c)]
      rfl
  trace s := by
    rcases finishEnter_cases g me s with ⟨_, _, _, enter⟩ | ⟨_, _, enter⟩ | ⟨_, _, enter⟩ <;>
      rw [enter] <;> rfl
  current s := by
    rcases finishEnter_cases g me s with ⟨_, _, _, enter⟩ | ⟨_, _, enter⟩ | ⟨_, _, enter⟩ <;>
      rw [enter] <;> rfl

/-! ### Every operation -/

section

variable {g} (alike : Alike g)
include alike

theorem Alike.handOff : alike.Keeps (handOff g) := by
  intro s c corresponds about
  unfold Scheduler.handOff at about ⊢
  have picked : alike.about (pickNext g s).trace (pickNext g s).traceComplete := by
    dsimp only at about
    split at about <;> exact about
  obtain ⟨c', same, kept⟩ := alike.picks s c corresponds picked
  refine ⟨c', ?_, ?_⟩
  · rw [same, apply_ite (Outcome.choosing · c')]
    rfl
  · dsimp only
    split <;> exact kept

theorem Alike.handOffUnlessFailed {enter : State → Outcome} (undecided : Undecided enter) :
    alike.Keeps fun s => handOffUnlessFailed g (enter s) := by
  intro s c corresponds about
  have entered : alike.corresponds (enter s).1.trace c := by
    rw [undecided.trace]
    exact corresponds
  dsimp only at about ⊢
  rw [undecided.choosing]
  unfold Scheduler.handOffUnlessFailed at about ⊢
  change ∃ c', (if (enter s).1.aborted = true then _ else _) = _ ∧ _
  by_cases failed : (enter s).1.aborted = true
  · simp only [if_pos failed] at about ⊢
    exact ⟨c, rfl, entered⟩
  · simp only [if_neg failed] at about ⊢
    obtain ⟨c', same, kept⟩ := alike.handOff (enter s).1 c entered about
    refine ⟨c', ?_, kept⟩
    change ((Scheduler.handOff g ((enter s).1.choosing c)).1, _) = _
    rw [show (Outcome.choosing (enter s) c).1 = (enter s).1.choosing c from rfl, same]
    rfl

theorem Alike.barrier (me : Nat) (loc : Location) : alike.Keeps (barrier g me loc) :=
  alike.handOffUnlessFailed (barrierEnter_undecided g me loc)

theorem Alike.warpRendezvous (me : Nat) (wait : WarpWait) :
    alike.Keeps (warpRendezvous g me wait) :=
  alike.handOffUnlessFailed (rendezvousEnter_undecided g me wait)

theorem Alike.finish (me : Nat) : alike.Keeps (finish g me) := by
  intro s c corresponds about
  have undecided := finishEnter_undecided g me
  have entered : alike.corresponds (finishEnter g me s).1.trace c := by
    rw [undecided.trace]
    exact corresponds
  unfold Scheduler.finish at about ⊢
  rw [undecided.choosing]
  generalize finishEnter g me s = r at *
  dsimp only at about ⊢
  change ∃ c', (if r.1.aborted = true then _ else _) = _ ∧ _
  by_cases failed : r.1.aborted = true
  · simp only [if_pos failed] at about ⊢
    exact ⟨c, rfl, entered⟩
  · simp only [if_neg failed] at about ⊢
    have picked : alike.about (pickNext g r.1).trace (pickNext g r.1).traceComplete := by
      split at about <;> exact about
    obtain ⟨c', same, kept⟩ := alike.picks r.1 c entered picked
    have again : pickNext g (Outcome.choosing r c).1 = (pickNext g r.1).choosing c' := same
    simp only [again]
    by_cases stuck : (pickNext g r.1).current = none ∧
        ∃ i < g.total, (pickNext g r.1).status i ≠ .finished
    · refine ⟨c', ?_, ?_⟩
      · rw [if_pos stuck]
        exact if_pos stuck
      · rw [if_pos stuck]
        exact kept
    · refine ⟨c', ?_, ?_⟩
      · rw [if_neg stuck]
        exact if_neg stuck
      · rw [if_neg stuck]
        exact kept

end

/-! ### One thread -/

/-- With one thread there is nothing to decide. -/
def Alike.ofSingle (single : g.total ≤ 1) : Alike g where
  corresponds _ _ := True
  about _ _ := True
  picks s c _ _ := by
    cases candidates : runnable g s with
    | nil =>
      refine ⟨c, ?_, trivial⟩
      rw [pickNext_of_none g candidates,
        pickNext_of_none g (show runnable g (s.choosing c) = [] from candidates)]
      rfl
    | cons first rest =>
      have only : ∀ choices : Choices, (choices.choose s.current (first :: rest) first).1 = first := by
        intro choices
        have picked := (mem_runnable g).mp
          (by rw [candidates]; exact choose_mem choices s.current first rest)
        have listed := (mem_runnable g (i := first)).mp (by rw [candidates]; exact List.mem_cons_self)
        omega
      refine ⟨(c.choose s.current (first :: rest) first).2, ?_, trivial⟩
      rw [pickNext_of_cons g candidates,
        pickNext_of_cons g (show runnable g (s.choosing c) = first :: rest from candidates)]
      change commit (s.choosing c) (c.choose s.current (first :: rest) first).1 _ = _
      rw [only, only]
      exact commit_choosing ..

end Riri.Scheduler
