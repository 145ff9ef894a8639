import Riri.Sched.Decisions

/-!
# How the turn passes

An operation leaves the turn where it is or picks the next thread, once, from the source of
decisions it found and among the threads that can run when it is done. A source that has
nothing left to say keeps the current thread, or takes the first one that can run.
-/
namespace Riri.Scheduler

variable (g : Geometry)

/-- How an operation that began in `s` left the turn in `s'`. -/
inductive TurnLeft (s s' : State) : Prop where
  | kept (current : s'.current = s.current) (choices : s'.choices = s.choices)
  | nobody (empty : runnable g s' = []) (current : s'.current = none)
      (choices : s'.choices = s.choices)
  | picked (first : Nat) (rest : List Nat) (candidates : runnable g s' = first :: rest)
      (current : s'.current = some (s.choices.choose s.current (first :: rest) first).1)
      (choices : s'.choices = (s.choices.choose s.current (first :: rest) first).2)

/-- Nobody who can keep the turn loses it, and a turn given up goes to the first thread that
can run. -/
def Orderly (s s' : State) : Prop :=
  s'.current = s.current ∨
    ((∀ i, s.current = some i → i ∉ runnable g s') ∧ s'.current = (runnable g s').head?)

variable {g}

theorem TurnLeft.congr {e s s' t : State} (left : TurnLeft g e s') (current : e.current = s.current)
    (choices : e.choices = s.choices) (current' : t.current = s'.current)
    (choices' : t.choices = s'.choices) (status : t.status = s'.status) : TurnLeft g s t := by
  have same : runnable g t = runnable g s' := by simp only [runnable, status]
  rcases left with ⟨kept, unused⟩ | ⟨empty, nobody, unused⟩ | ⟨first, rest, candidates, picked, used⟩
  · exact .kept (current'.trans (kept.trans current)) (choices'.trans (unused.trans choices))
  · exact .nobody (same.trans empty) (current'.trans nobody) (choices'.trans (unused.trans choices))
  · rw [current, choices] at picked used
    exact .picked first rest (same.trans candidates) (current'.trans picked) (choices'.trans used)

theorem pickNext_left (s : State) : TurnLeft g s (pickNext g s) := by
  cases candidates : runnable g s with
  | nil =>
    rw [pickNext_of_none g candidates]
    exact .nobody candidates rfl rfl
  | cons first rest =>
    have turned := pickNext_turned g (show runnable g s ≠ [] by simp [candidates])
    have same : runnable g (pickNext g s) = first :: rest := by
      rw [← candidates]
      simp only [runnable, turned.status]
    refine .picked first rest same ?_ ?_
    all_goals
      rw [pickNext_of_cons g candidates]
      unfold commit
      split <;> rfl

theorem handOff_left (s : State) : TurnLeft g s (handOff g s).1 := by
  unfold handOff
  dsimp only
  split
  · exact (pickNext_left s).congr rfl rfl rfl rfl rfl
  · exact pickNext_left s

theorem Undecided.choices {enter : State → Outcome} (undecided : Undecided enter) (s : State) :
    (enter s).1.choices = s.choices :=
  congrArg (fun r : Outcome => r.1.choices) (undecided.choosing s s.choices)

theorem Undecided.left {enter : State → Outcome} (undecided : Undecided enter) (s : State) :
    TurnLeft g s (handOffUnlessFailed g (enter s)).1 := by
  have current := undecided.current s
  have choices := undecided.choices s
  unfold handOffUnlessFailed
  split
  · exact .kept current choices
  · exact (handOff_left (enter s).1).congr current choices rfl rfl rfl

theorem barrier_left (me : Nat) (loc : Location) (s : State) :
    TurnLeft g s (barrier g me loc s).1 := (barrierEnter_undecided g me loc).left s

theorem warpRendezvous_left (me : Nat) (wait : WarpWait) (s : State) :
    TurnLeft g s (warpRendezvous g me wait s).1 := (rendezvousEnter_undecided g me wait).left s

theorem finish_left (me : Nat) (s : State) : TurnLeft g s (finish g me s).1 := by
  have current := (finishEnter_undecided g me).current s
  have choices := (finishEnter_undecided g me).choices s
  unfold finish
  dsimp only
  split
  · exact .kept current choices
  · split
    · exact (pickNext_left (finishEnter g me s).1).congr current choices rfl rfl rfl
    · exact (pickNext_left (finishEnter g me s).1).congr current choices rfl rfl rfl

/-! ### A plan that is spent -/

/-- An operation under a plan moves the cursor at most one entry on; it takes the turn from a
thread that could keep it only on the word of an entry. -/
theorem TurnLeft.orderly {s s' : State} {plan : List UInt32} {cursor : Nat}
    (left : TurnLeft g s s') (reading : s.choices = .replay plan cursor) :
    ∃ cursor', s'.choices = .replay plan cursor' ∧ cursor ≤ cursor' ∧
      (Orderly g s s' ∨ (cursor < plan.length ∧ cursor < cursor')) := by
  rcases left with ⟨kept, choices⟩ | ⟨empty, nobody, choices⟩ |
    ⟨first, rest, candidates, picked, choices⟩
  · exact ⟨cursor, choices.trans reading, le_rfl, .inl (.inl kept)⟩
  · refine ⟨cursor, choices.trans reading, le_rfl, .inl (.inr ⟨fun i _ => ?_, ?_⟩)⟩
    · rw [empty]
      exact List.not_mem_nil
    · rw [nobody, empty]
      rfl
  · rw [reading] at picked choices
    refine ⟨cursor + 1, choices, Nat.le_succ cursor, ?_⟩
    rcases Nat.lt_or_ge cursor plan.length with planned | spent
    · exact .inr ⟨planned, Nat.lt_succ_self cursor⟩
    · refine .inl ?_
      rw [Choices.choose, List.getElem?_eq_none spent] at picked
      cases holder : s.current with
      | none =>
        rw [holder] at picked
        refine .inr ⟨fun i taken => (by rw [holder] at taken; cases taken), ?_⟩
        rw [picked, candidates]
        rfl
      | some i =>
        rw [holder] at picked
        by_cases able : i ∈ first :: rest
        · refine .inl ?_
          rw [picked, holder]
          dsimp only
          rw [Option.filter_some, if_pos (List.contains_iff_mem.mpr able), Option.getD_some]
        · refine .inr ⟨fun j taken => ?_, ?_⟩
          · rw [holder] at taken
            rw [← Option.some.inj taken, candidates]
            exact able
          · have unable : ¬ (first :: rest).contains i = true :=
              fun listed => able (List.contains_iff_mem.mp listed)
            rw [picked, candidates]
            dsimp only
            rw [Option.filter_some, if_neg unable]
            rfl

end Riri.Scheduler
