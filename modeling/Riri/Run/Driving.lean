import Riri.Run.Decisions
import Riri.Run.Waves
import Riri.Sched.Replay

/-!
# Driving a launch

A plan can hand the turn to any runnable thread at every decision, however many were made
before, recorded or not. So whatever a thread can do next there is a plan that lets it.
-/
namespace Riri

namespace Scheduler

variable {g : Geometry}

def handed (s : State) (j : Nat) : State := commit s j s.choices

theorem handed_rests (s : State) (j : Nat) : Rests (handed s j) s := by
  unfold handed commit
  split <;> exact ⟨rfl, rfl, rfl, rfl, rfl⟩

@[simp] theorem handed_current (s : State) (j : Nat) : (handed s j).current = some j := by
  unfold handed commit
  split <;> rfl

@[simp] theorem handed_aborted (s : State) (j : Nat) : (handed s j).aborted = s.aborted := by
  unfold handed commit
  split <;> rfl

theorem lt_of_total {j : Nat} (inside : j < g.total) : j < 2 ^ 32 := by
  have fits := g.fits
  have bound : MAX_THREADS < 2 ^ 32 := by decide
  unfold Geometry.total at inside
  omega

/-- A plan that names a runnable thread gives it the turn. -/
theorem pickNext_planned {s : State} {plan : List UInt32} {cursor j : Nat} (inside : j < g.total)
    (free : s.status j = .runnable) (planned : plan[cursor]? = some (UInt32.ofNat j)) :
    pickNext g (s.choosing (.replay plan cursor)) =
      (handed s j).choosing (.replay plan (cursor + 1)) := by
  have member : j ∈ runnable g (s.choosing (.replay plan cursor)) :=
    (mem_runnable g).mpr ⟨inside, free⟩
  cases candidates : runnable g (s.choosing (.replay plan cursor)) with
  | nil =>
    rw [candidates] at member
    cases member
  | cons first rest =>
    rw [candidates] at member
    rw [pickNext_of_cons g candidates]
    change commit _ ((Choices.replay plan cursor).choose _ (first :: rest) first).1 _ = _
    rw [choose_replay _ first planned (lt_of_total inside) member]
    exact commit_choosing ..

theorem handOff_planned {s : State} {plan : List UInt32} {cursor j : Nat} (inside : j < g.total)
    (free : s.status j = .runnable) (planned : plan[cursor]? = some (UInt32.ofNat j)) :
    handOff g (s.choosing (.replay plan cursor)) =
      ((handed s j).choosing (.replay plan (cursor + 1)), []) := by
  unfold handOff
  simp only [pickNext_planned inside free planned]
  rw [if_neg]
  rw [show ((handed s j).choosing (.replay plan (cursor + 1))).current = (handed s j).current
    from rfl, handed_current]
  exact Option.some_ne_none j

/-- An operation that neither fails nor reports hands off whatever it leaves. -/
theorem handOffUnlessFailed_of_enter {enter : State → Outcome} (undecided : Undecided enter)
    {s u : State} (entered : enter s = (u, [])) (live : u.aborted = false) (c : Choices) :
    handOffUnlessFailed g (enter (s.choosing c)) = handOff g (u.choosing c) := by
  have still : (u.choosing c).aborted = false := live
  rw [undecided.choosing, entered]
  simp [handOffUnlessFailed, Outcome.choosing, still]

/-- A return hands the turn on like any other operation while somebody can go on. -/
theorem finish_of_enter {s u : State} {me : Nat} (entered : finishEnter g me s = (u, []))
    (live : u.aborted = false) (free : runnable g u ≠ []) (c : Choices) :
    finish g me (s.choosing c) = handOff g (u.choosing c) := by
  have still : (u.choosing c).aborted = false := live
  have turned := pickNext_turned g (show runnable g (u.choosing c) ≠ [] from free)
  obtain ⟨i, -, -, current⟩ := turned.chosen
  have taken : (pickNext g (u.choosing c)).current ≠ none := by simp [current]
  unfold finish handOff
  rw [(finishEnter_undecided g me).choosing, entered]
  simp [Outcome.choosing, still, taken]

end Scheduler

namespace Launch

variable {V : Type} [BEq V] {env : Env V} {s t : Launch V} {i j : Nat}

/-- Some plan has led the launch to `s` when it comes to its end, whatever it goes on with. -/
def Led (env : Env V) (s : Launch V) : Prop :=
  ∃ n plan, s.sched.choices = .replay plan plan.length ∧
    ∀ rest, (run (env.choosing fun _ => .replay (plan ++ rest) 0)).state n =
      s.choosing (.replay (plan ++ rest) plan.length)

/-- Such a state is one of a run. -/
theorem Led.state (led : Led env s) :
    ∃ n plan, (run (env.choosing fun _ => .replay plan 0)).state n = s := by
  obtain ⟨n, plan, choices, led⟩ := led
  refine ⟨n, plan, ?_⟩
  have here := led []
  rw [List.append_nil, ← choices] at here
  exact here

theorem step_choosing (live : Live s) (current : s.sched.current = some i) (c : Choices)
    (choicesOf : Nat → Choices) :
    (s.choosing c).step (env.choosing choicesOf) = some ((s.choosing c).resume env i) := by
  have running : (s.choosing c).sched.aborted = false := live
  have turn : (s.choosing c).sched.current = some i := current
  simp only [step, running, turn, Bool.false_eq_true, if_false]
  rfl

/-- Any thread can be the first. -/
theorem Led.start (inside : i < (env.config.geometry 0).total) :
    ∃ sched, Led env ((init env).turn sched) ∧ sched.current = some i ∧ sched.aborted = false ∧
      ∀ j, sched.status j = .runnable := by
  have fresh : ∀ c, (Scheduler.unstarted c).status i = .runnable := fun _ => rfl
  refine ⟨(Scheduler.handed (Scheduler.unstarted (.replay [] 0)) i).choosing
    (.replay [UInt32.ofNat i] 1), ⟨0, [UInt32.ofNat i], rfl, fun rest => ?_⟩, ?_, ?_, fun j => ?_⟩
  · have first : Scheduler.pickNext (env.config.geometry 0) ((Scheduler.unstarted
        (.replay [] 0)).choosing (.replay ([UInt32.ofNat i] ++ rest) 0)) =
          (Scheduler.handed (Scheduler.unstarted (.replay [] 0)) i).choosing
            (.replay ([UInt32.ofNat i] ++ rest) 1) :=
      Scheduler.pickNext_planned inside rfl rfl
    exact congrArg (fun sched => (init env).turn sched) first
  · exact Scheduler.handed_current ..
  · exact Scheduler.handed_aborted ..
  · exact congrFun (Scheduler.handed_rests (Scheduler.unstarted (.replay [] 0)) i).status j

/-- A step that ends in a hand-off can hand the turn to any runnable thread. -/
theorem Led.hand (led : Led env s) (live : Live s) (current : s.sched.current = some i)
    {u : Scheduler.State} (inside : j < (s.geometry env).total) (free : u.status j = .runnable)
    (resumes : ∀ c, ∃ l, (s.choosing c).resume env i =
      (l, t.withSched (Scheduler.handOff (s.geometry env) (u.choosing c)))) :
    ∃ sched, Led env (t.turn sched) ∧ sched.current = some j ∧ sched.aborted = u.aborted ∧
      Scheduler.Rests sched u := by
  obtain ⟨n, plan, -, led⟩ := led
  refine ⟨(Scheduler.handed u j).choosing
      (.replay (plan ++ [UInt32.ofNat j]) (plan ++ [UInt32.ofNat j]).length),
    ⟨n + 1, plan ++ [UInt32.ofNat j], rfl, fun rest => ?_⟩, ?_, ?_, ?_⟩
  · have here := led ([UInt32.ofNat j] ++ rest)
    rw [← List.append_assoc] at here
    obtain ⟨l, resumes⟩ := resumes (.replay (plan ++ [UInt32.ofNat j] ++ rest) plan.length)
    have planned : (plan ++ [UInt32.ofNat j] ++ rest)[plan.length]? = some (UInt32.ofNat j) := by
      simp
    rw [Scheduler.handOff_planned inside free planned] at resumes
    refine (run _).state_succ_of_next (a := l) ?_
    rw [here]
    refine (step_choosing live current _ _).trans ?_
    rw [resumes]
    simp [withSched, turn, choosing, Scheduler.State.choosing]
  · exact Scheduler.handed_current ..
  · exact Scheduler.handed_aborted ..
  · have rests := Scheduler.handed_rests u j
    exact ⟨rests.status, rests.barrierGen, rests.barrierLoc, rests.warpWait, rests.warpGen⟩

/-- A step without a hand-off leaves the turn with its thread. -/
theorem Led.stay (led : Led env s) (live : Live s) (current : s.sched.current = some i)
    (sched : t.sched = s.sched)
    (resumes : ∀ c, ∃ l, (s.choosing c).resume env i = (l, t.choosing c)) : Led env t := by
  obtain ⟨n, plan, choices, led⟩ := led
  refine ⟨n + 1, plan, by rw [sched, choices], fun rest => ?_⟩
  obtain ⟨l, resumes⟩ := resumes (.replay (plan ++ rest) plan.length)
  refine (run _).state_succ_of_next (a := l) ?_
  rw [led rest]
  refine (step_choosing live current _ _).trans ?_
  rw [resumes]

end Launch

end Riri
