import Riri.Run.Driving
import Riri.Run.Interleavings
import Riri.Run.Remaining

/-!
# Steering a launch through an interleaving

A plan can hand the turn to whoever has the next access to make. As long as somebody can go on
without the memory it goes first, which changes no interleaving, so a launch of which every block
is resident can be led through every order of accesses that some interleaving has.
-/
namespace Riri

open Interleaved (Web Scene)

namespace Scheduler

variable {g : Geometry} {s u : State} {me : Nat}

/-- The last return leaves nobody the turn. -/
theorem finish_of_last (entered : finishEnter g me s = (u, [])) (live : u.aborted = false)
    (ended : ∀ i < g.total, u.status i = .finished) (c : Choices) :
    finish g me (s.choosing c) = ({ u with current := none }.choosing c, []) := by
  have still : (u.choosing c).aborted = false := live
  have empty : runnable g (u.choosing c) = [] := by
    apply List.eq_nil_iff_forall_not_mem.mpr
    intro i member
    obtain ⟨inside, running⟩ := (mem_runnable g).mp member
    cases running.symm.trans (ended i inside)
  unfold finish
  rw [(finishEnter_undecided g me).choosing, entered]
  simp only [Outcome.choosing, still, Bool.false_eq_true, if_false, pickNext_of_none g empty]
  rw [if_neg]
  · simp [State.choosing, live]
  · intro both
    obtain ⟨i, inside, unfinished⟩ := both.2
    exact unfinished (ended i inside)

end Scheduler

namespace Launch

variable {V : Type} [BEq V] {env : Env V} {s t : Launch V} {i j : Nat} {l : Label V}
  {made : List (Nat × Nat)}

/-! ### Plans -/

/-- Some plan has led the launch to `s` with these accesses on the way, whatever it goes on with. -/
def Steered (env : Env V) (made : List (Nat × Nat)) (s : Launch V) : Prop :=
  ∃ n plan, s.sched.choices = .replay plan plan.length ∧
    ∀ rest, (run (env.choosing fun _ => .replay (plan ++ rest) 0)).state n =
        s.choosing (.replay (plan ++ rest) plan.length) ∧
      accessors (env.choosing fun _ => .replay (plan ++ rest) 0) n = made

/-- Such a state is one of a run. -/
theorem Steered.state (steered : Steered env made s) : ∃ n plan,
    (run (env.choosing fun _ => .replay plan 0)).state n = s ∧
      accessors (env.choosing fun _ => .replay plan 0) n = made := by
  obtain ⟨n, plan, choices, steered⟩ := steered
  have here := steered []
  rw [List.append_nil, ← choices] at here
  exact ⟨n, plan, here⟩

theorem Steered.numbered (steered : Steered env made s) : Numbered env s := by
  obtain ⟨n, plan, rfl, -⟩ := steered.state
  have there := Launch.numbered (env.choosing fun _ => .replay plan 0) n
  exact ⟨there.start, there.inside⟩

theorem Steered.standing (steered : Steered env made s) (live : Live s) : Standing env s := by
  obtain ⟨n, plan, rfl, -⟩ := steered.state
  have there := standing_run live
  exact ⟨there.settled, there.asked, there.named, there.waiting⟩

theorem Steered.wellFormed (steered : Steered env made s) (live : Live s) : WellFormed env s := by
  obtain ⟨n, plan, rfl, -⟩ := steered.state
  have there := Launch.wellFormed live
  exact ⟨there.inside, there.turn, there.settled⟩

/-- Any thread can be the first. -/
theorem Steered.start (inside : i < (env.config.geometry 0).total) :
    ∃ sched, Steered env [] ((init env).turn sched) ∧ sched.current = some i ∧
      sched.aborted = false := by
  refine ⟨(Scheduler.handed (Scheduler.unstarted (.replay [] 0)) i).choosing
    (.replay [UInt32.ofNat i] 1), ⟨0, [UInt32.ofNat i], rfl, fun rest => ⟨?_, rfl⟩⟩, ?_, ?_⟩
  · have first : Scheduler.pickNext (env.config.geometry 0) ((Scheduler.unstarted
        (.replay [] 0)).choosing (.replay ([UInt32.ofNat i] ++ rest) 0)) =
          (Scheduler.handed (Scheduler.unstarted (.replay [] 0)) i).choosing
            (.replay ([UInt32.ofNat i] ++ rest) 1) :=
      Scheduler.pickNext_planned inside rfl rfl
    exact congrArg (fun sched => (init env).turn sched) first
  · exact Scheduler.handed_current ..
  · exact Scheduler.handed_aborted ..

/-- A step that decides nothing. -/
theorem Steered.stay (steered : Steered env made s) (live : Live s)
    (current : s.sched.current = some i) (choices : t.sched.choices = s.sched.choices)
    (resumes : ∀ c, (s.choosing c).resume env i = (l, t.choosing c)) :
    Steered env (made ++ l.accessor?.toList) t := by
  obtain ⟨n, plan, here, steered⟩ := steered
  refine ⟨n + 1, plan, by rw [choices, here], fun rest => ?_⟩
  obtain ⟨there, so_far⟩ := steered rest
  have next : (run (env.choosing fun _ => .replay (plan ++ rest) 0)).next
      ((run (env.choosing fun _ => .replay (plan ++ rest) 0)).state n) =
        some (l, t.choosing (.replay (plan ++ rest) plan.length)) := by
    rw [there]
    refine (step_choosing live current _ _).trans ?_
    rw [resumes]
  refine ⟨(run _).state_succ_of_next next, ?_⟩
  rw [accessors_succ ((run _).label_of_next next), so_far]

/-- A step that ends in a hand-off can hand the turn to any runnable thread. -/
theorem Steered.hand (steered : Steered env made s) (live : Live s)
    (current : s.sched.current = some i) {u : Scheduler.State}
    (inside : j < (s.geometry env).total) (free : u.status j = .runnable)
    (resumes : ∀ c, (s.choosing c).resume env i =
      (l, t.withSched (Scheduler.handOff (s.geometry env) (u.choosing c)))) :
    ∃ sched, Steered env (made ++ l.accessor?.toList) (t.turn sched) ∧
      sched.current = some j ∧ Scheduler.Turned (s.geometry env) u sched := by
  obtain ⟨n, plan, -, steered⟩ := steered
  have rests := Scheduler.handed_rests u j
  refine ⟨(Scheduler.handed u j).choosing
      (.replay (plan ++ [UInt32.ofNat j]) (plan ++ [UInt32.ofNat j]).length),
    ⟨n + 1, plan ++ [UInt32.ofNat j], rfl, fun rest => ?_⟩, ?_, ?_⟩
  · obtain ⟨there, so_far⟩ := steered ([UInt32.ofNat j] ++ rest)
    rw [← List.append_assoc] at there so_far
    have planned : (plan ++ [UInt32.ofNat j] ++ rest)[plan.length]? = some (UInt32.ofNat j) := by
      simp
    have next : (run (env.choosing fun _ => .replay (plan ++ [UInt32.ofNat j] ++ rest) 0)).next
        ((run (env.choosing fun _ => .replay (plan ++ [UInt32.ofNat j] ++ rest) 0)).state n) =
          some (l, t.turn ((Scheduler.handed u j).choosing
            (.replay (plan ++ [UInt32.ofNat j] ++ rest) (plan.length + 1)))) := by
      rw [there]
      refine (step_choosing live current _ _).trans ?_
      rw [resumes, Scheduler.handOff_planned inside free planned]
      simp [withSched, turn]
    refine ⟨((run _).state_succ_of_next next).trans ?_, ?_⟩
    · simp [turn, choosing, Scheduler.State.choosing]
    · rw [accessors_succ ((run _).label_of_next next), so_far]
  · exact Scheduler.handed_current ..
  · exact ⟨⟨j, inside, free, Scheduler.handed_current ..⟩, rests.status, rests.barrierGen,
      rests.barrierLoc, rests.warpWait, rests.warpGen, Scheduler.handed_aborted ..⟩

/-! ### Who goes next -/

variable {left : List (Nat × Nat)} {most : Nat}
  {a final : Scene (Nat × Nat) (Buf × Nat) (V × Bool) (List (Resp V))}

/-- Without collectives a thread can go on, waits for its block, or has ended. -/
theorem Standing.status_cases (standing : Standing env s) (solo : Solo env) (j : Nat) :
    s.sched.status j = .runnable ∨
      (s.sched.status j = .atBarrier ∧
        env.program.web.waits (s.ctx env j).place (s.said env j)) ∨
      (s.sched.status j = .finished ∧
        env.program.web.ends (s.ctx env j).place (s.said env j)) := by
  have settled := standing.settled j
  have asked := standing.asked j
  cases status : s.sched.status j with
  | runnable => exact .inl rfl
  | atBarrier =>
    rw [settled.pc_of_atBarrier status] at asked
    refine .inr (.inl ⟨rfl, ?_⟩)
    rw [said_of_owed_nil (owed_nil settled (.inr status))]
    exact asked
  | finished =>
    obtain ⟨ready, op⟩ := settled.ret_of_finished status
    refine .inr (.inr ⟨rfl, ?_⟩)
    rw [said_of_ready ready]
    exact op
  | atWarp =>
    obtain ⟨wait, waits, -⟩ := settled.waits_of_atWarp status
    cases pc : (s.threads j).pc with
    | arrived c | departed c =>
      rw [pc] at asked
      exact absurd asked (solo _ _ _ c)
    | _ =>
      rw [pc] at waits
      cases waits

/-- What a thread past the schedule point of an access does next. -/
theorem Tracks.move_of_access (tracks : Tracks env s a) (standing : Standing env s)
    (inside : j < (s.geometry env).total) {m : MemOp V} (pc : (s.threads j).pc = .atAccess m)
    (bound : m.index < (env.mem m.buf).len) :
    ∃ e f, env.program.web.next (s.ctx env j).place (a.now (s.ctx env j).place) = .access e f := by
  have op : env.program.kernel (s.ctx env j).block (s.ctx env j).thread (s.threads j).answers =
    .mem m := standing.op_of_atAccess pc
  have bound' : m.index < (env.program.mem m.buf).len := bound
  rw [tracks.wave j inside, said_of_atAccess pc]
  show ∃ e f, env.program.move (s.ctx env j).block (s.ctx env j).thread _ = .access e f
  simp only [Program.move, op, bound', if_true]
  exact ⟨_, _, rfl⟩

/-- Where every block is resident every thread has a slot. -/
theorem exists_slot (resident : env.config.blocks ≤ env.config.residentBlocks)
    (first : s.firstBlock = 0) {k : Nat × Nat} (member : k ∈ env.program.web.members) :
    ∃ i < (s.geometry env).total, k = (s.ctx env i).place := by
  have in_grid : k.1 < env.config.blocks := member.1
  rcases place_cases member.2 s with early | here | late
  · rw [first] at early
    exact absurd early (Nat.not_lt_zero _)
  · exact here
  · rw [first, Config.waveBlocks] at late
    omega

/-- If slot `j` is about to use an element, that access is the next to be made. -/
def InTurn (env : Env V) (s : Launch V)
    (a : Scene (Nat × Nat) (Buf × Nat) (V × Bool) (List (Resp V))) (left : List (Nat × Nat))
    (j : Nat) : Prop :=
  ∀ m, (s.threads j).pc = .atAccess m → m.index < (env.mem m.buf).len →
    ∃ later a', left = (s.ctx env j).place :: later ∧
      env.program.web.Step a (some (s.ctx env j).place) a'

/-- While somebody can go on, somebody can without being early. -/
theorem Tracks.exists_due (tracks : Tracks env s a) (standing : Standing env s)
    (numbered : Numbered env s) (solo : Solo env)
    (resident : env.config.blocks ≤ env.config.residentBlocks) (first : s.firstBlock = 0)
    (runs : env.program.web.Runs a left final) (complete : env.program.web.Complete final)
    (free : ∃ j < (s.geometry env).total, s.sched.status j = .runnable) :
    ∃ j < (s.geometry env).total, s.sched.status j = .runnable ∧ InTurn env s a left j := by
  by_cases easy : ∃ j < (s.geometry env).total, s.sched.status j = .runnable ∧
      ∀ m, (s.threads j).pc = .atAccess m → ¬ m.index < (env.mem m.buf).len
  · obtain ⟨j, inside, running, elsewhere⟩ := easy
    exact ⟨j, inside, running, fun m pc bound => absurd bound (elsewhere m pc)⟩
  -- Now whoever can go on is about to use an element.
  have accesses : ∀ j < (s.geometry env).total, s.sched.status j = .runnable →
      ∃ e f, env.program.web.next (s.ctx env j).place (a.now (s.ctx env j).place) =
        .access e f := by
    intro j inside running
    by_contra none
    refine easy ⟨j, inside, running, fun m pc bound => ?_⟩
    exact none (tracks.move_of_access standing inside pc bound)
  have runnable_of : ∀ j < (s.geometry env).total,
      ¬ env.program.web.waits (s.ctx env j).place (a.now (s.ctx env j).place) →
      ¬ env.program.web.ends (s.ctx env j).place (a.now (s.ctx env j).place) →
      s.sched.status j = .runnable := by
    intro j inside awake going
    rw [tracks.wave j inside] at awake going
    rcases standing.status_cases solo j with running | ⟨-, waits⟩ | ⟨-, ends⟩
    · exact running
    · exact absurd waits awake
    · exact absurd ends going
  have quiet : ∀ t, ¬ env.program.web.Step a none t := by
    intro t silent
    cases silent with
    | inner member goes =>
      obtain ⟨j, inside, rfl⟩ := exists_slot resident first member
      have running := runnable_of j inside
        (fun waits => by rw [env.program.web.stop_of_waits waits] at goes; cases goes)
        (fun ends => by rw [env.program.web.stop_of_ends ends] at goes; cases goes)
      obtain ⟨e, f, access⟩ := accesses j inside running
      rw [goes] at access
      cases access
    | meet member everyone =>
      obtain ⟨j, inside, rfl⟩ := exists_slot resident first member
      -- Somebody of the block is not parked.
      obtain ⟨k, mates, unparked⟩ : ∃ k, (s.geometry env).blockOf k = (s.geometry env).blockOf j ∧
          s.sched.status k ≠ .atBarrier := by
        by_cases parked : s.sched.status j = .atBarrier
        · exact standing.waiting.barrier parked
        · exact ⟨j, rfl, parked⟩
      have there := lt_of_mates inside mates
      have waits := everyone _ (numbered.place_member there) (congrArg (s.firstBlock + ·) mates)
      rcases standing.status_cases solo k with running | ⟨parked, -⟩ | ⟨-, ends⟩
      · obtain ⟨e, f, access⟩ := accesses k there running
        rw [env.program.web.stop_of_waits waits] at access
        cases access
      · exact unparked parked
      · rw [tracks.wave k there] at waits
        exact env.program.web.not_waits ends waits
  rcases runs.of_quiet quiet with ⟨-, rfl⟩ | ⟨k, later, a', rfl, stepped, -⟩
  · obtain ⟨j, inside, running⟩ := free
    obtain ⟨e, f, access⟩ := accesses j inside running
    rw [env.program.web.stop_of_ends (complete _ (numbered.place_member inside))] at access
    cases access
  · have member := stepped.member
    obtain ⟨e, f, goes⟩ := stepped.next
    obtain ⟨j, inside, rfl⟩ := exists_slot resident first member
    have running := runnable_of j inside
      (fun waits => by rw [env.program.web.stop_of_waits waits] at goes; cases goes)
      (fun ends => by rw [env.program.web.stop_of_ends ends] at goes; cases goes)
    exact ⟨j, inside, running, fun _ _ _ => ⟨later, a', rfl, stepped⟩⟩

end Launch

end Riri
