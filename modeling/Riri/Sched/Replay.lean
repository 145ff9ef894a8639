import Riri.Sched.Decisions

/-!
# Reading decisions back

A recorded trace, read as a plan by a scheduler in the same state, makes the decisions it
recorded. The cursor is the number of decisions recorded so far: it moves exactly when one
is recorded, at the first choice of a run as at every later one, and not when nobody can run.
-/
namespace Riri.Scheduler

variable (g : Geometry) (plan : List UInt32)

/-- The same state with its decisions read from `plan`. -/
def State.retraced (s : State) : State := { s with choices := .replay plan s.trace.length }

/-- All decisions so far are recorded, and `plan` begins with them. -/
structure Follows (s : State) : Prop where
  trace : s.trace <+: plan
  complete : s.traceComplete = true

/-- `s'` may have recorded more. -/
structure Extends (s s' : State) : Prop where
  trace : s.trace <+: s'.trace
  complete : s'.traceComplete = true → s.traceComplete = true

variable {plan}

theorem Extends.refl (s : State) : Extends s s := ⟨List.prefix_rfl, id⟩

theorem Extends.trans {s t u : State} (h : Extends s t) (h' : Extends t u) : Extends s u :=
  ⟨h.trace.trans h'.trace, fun complete => h.complete (h'.complete complete)⟩

theorem Follows.of_extends {s s' : State} (h : Follows plan s') (earlier : Extends s s') :
    Follows plan s := ⟨earlier.trace.trans h.trace, earlier.complete h.complete⟩

/-! ### One decision -/

theorem choose_replay {cursor chosen : Nat} {runnable : List Nat} (previous : Option Nat)
    (first : Nat) (planned : plan[cursor]? = some (UInt32.ofNat chosen)) (small : chosen < 2 ^ 32)
    (member : chosen ∈ runnable) :
    (Choices.replay plan cursor).choose previous runnable first =
      (chosen, .replay plan (cursor + 1)) := by
  have same : (UInt32.ofNat chosen).toNat = chosen := by
    rw [UInt32.toNat_ofNat']
    exact Nat.mod_eq_of_lt small
  simp [Choices.choose, planned, same, member]

theorem pickNext_extends (s : State) : Extends s (pickNext g s) := by
  unfold pickNext
  split
  · exact ⟨List.prefix_rfl, id⟩
  · simp only [commit]
    split
    · exact ⟨List.prefix_append .., id⟩
    · exact ⟨List.prefix_rfl, fun complete => by cases complete⟩

/-- A decision that was recorded is made again. -/
theorem pickNext_retraced {s : State} (follows : Follows plan (pickNext g s)) :
    pickNext g (s.retraced plan) = (pickNext g s).retraced plan := by
  have same_runnable : runnable g (s.retraced plan) = runnable g s := rfl
  cases candidates : runnable g s with
  | nil =>
    rw [pickNext_of_none g candidates, pickNext_of_none g (same_runnable.trans candidates)]
    rfl
  | cons first rest =>
    rw [pickNext_of_cons g candidates] at follows ⊢
    rw [pickNext_of_cons g (same_runnable.trans candidates)]
    have member := choose_mem s.choices s.current first rest
    have inside : (s.choices.choose s.current (first :: rest) first).1 < g.total :=
      ((mem_runnable g).mp (by rw [candidates]; exact member)).1
    generalize s.choices.choose s.current (first :: rest) first = choice at *
    have room : s.trace.length < MAX_TRACE := by
      by_contra full
      have complete := follows.complete
      simp [commit, full] at complete
    have small : choice.1 < 2 ^ 32 := by
      have := g.fits
      have bound : MAX_THREADS < 2 ^ 32 := by decide
      unfold Geometry.total at inside
      omega
    obtain ⟨later, planned⟩ := follows.trace
    simp only [commit, room, if_true] at planned
    have here : plan[s.trace.length]? = some (UInt32.ofNat choice.1) := by simp [← planned]
    have again := choose_replay s.current first here small member
    simp only [State.retraced, again, commit, room, if_true, List.length_append,
      List.length_singleton]

/-- A recording and the plan that begins with it decide alike. -/
def Alike.ofRecording (plan : List UInt32) : Alike g where
  corresponds trace choices := choices = .replay plan trace.length
  about trace complete := trace <+: plan ∧ complete = true
  picks s c same about := by
    subst same
    exact ⟨_, pickNext_retraced g ⟨about.1, about.2⟩, rfl⟩

/-! ### Every operation -/

theorem handOff_extends (s : State) : Extends s (handOff g s).1 := by
  unfold handOff
  dsimp only
  split
  · exact (pickNext_extends g s).trans ⟨List.prefix_rfl, id⟩
  · exact pickNext_extends g s

theorem handOffUnlessFailed_extends (r : Outcome) : Extends r.1 (handOffUnlessFailed g r).1 := by
  unfold handOffUnlessFailed
  split
  · exact .refl _
  · exact handOff_extends g r.1

/-- What an operation does before its hand-off records nothing. -/
theorem barrierEnter_extends (me : Nat) (loc : Location) (s : State) :
    Extends s (barrierEnter g me loc s).1 := by
  rcases barrierEnter_cases g me loc s with ⟨_, _, _, _, enter⟩ | ⟨_, enter⟩ | ⟨_, _, enter⟩ <;>
    rw [enter] <;> exact ⟨List.prefix_rfl, id⟩

theorem rendezvousEnter_extends (me : Nat) (wait : WarpWait) (s : State) :
    Extends s (rendezvousEnter g me wait s).1 := by
  rcases rendezvousEnter_cases g me wait s with
    ⟨_, _, _, enter⟩ | ⟨_, _, _, _, enter⟩ | ⟨_, _, enter⟩ | ⟨_, _, _, enter⟩ <;>
    rw [enter] <;> exact ⟨List.prefix_rfl, id⟩

theorem finishEnter_extends (me : Nat) (s : State) : Extends s (finishEnter g me s).1 := by
  rcases finishEnter_cases g me s with ⟨_, _, _, enter⟩ | ⟨_, _, enter⟩ | ⟨_, _, enter⟩ <;>
    rw [enter] <;> exact ⟨List.prefix_rfl, id⟩

theorem barrier_extends (me : Nat) (loc : Location) (s : State) :
    Extends s (barrier g me loc s).1 :=
  (barrierEnter_extends g me loc s).trans (handOffUnlessFailed_extends g _)

theorem warpRendezvous_extends (me : Nat) (wait : WarpWait) (s : State) :
    Extends s (warpRendezvous g me wait s).1 :=
  (rendezvousEnter_extends g me wait s).trans (handOffUnlessFailed_extends g _)

theorem finish_extends (me : Nat) (s : State) : Extends s (finish g me s).1 := by
  have enter := finishEnter_extends g me s
  unfold finish
  dsimp only
  split
  · exact enter
  · split
    · exact (enter.trans (pickNext_extends g _)).trans ⟨List.prefix_rfl, id⟩
    · exact enter.trans (pickNext_extends g _)

end Riri.Scheduler
