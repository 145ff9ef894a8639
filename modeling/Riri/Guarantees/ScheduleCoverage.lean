import Riri.Run.Steering
import Mathlib.Data.Finset.Lattice.Fold

/-!
# The schedules of a launch are its interleavings

A launch that calls no collective and ends without a trap has made the accesses of an interleaving
of its threads, in its order, whatever its schedule and however many blocks are resident. Where
every block is resident nothing is missing: every order of accesses of an interleaving that comes
to an end is the order of a schedule, and some plan replays it.
-/
namespace Riri

open Interleaved (Web Scene)

variable {V : Type} [BEq V]

/-! ### How much a thread is told -/

section

variable {program : Program V} {order : List (Nat × Nat)}
  {a a' : Scene (Nat × Nat) (Buf × Nat) (V × Bool) (List (Resp V))}

/-- Nobody forgets what it was told. -/
theorem Program.step_length {i : Option (Nat × Nat)} (stepped : program.web.Step a i a')
    (k : Nat × Nat) : (a.now k).length ≤ (a'.now k).length := by
  cases stepped with
  | @inner i l member goes =>
    by_cases own : k = i
    · subst own
      have move : program.move k.1 k.2 (a.now k) = .inner l := goes
      have performed : (program.move k.1 k.2 (a.now k)).perform a.mem = some (l, a.mem) := by
        rw [move]
        rfl
      rw [Scene.move_self, Program.length_of_perform performed]
      exact Nat.le_succ _
    · rw [Scene.move_of_ne own]
  | @access i e f r member goes made =>
    by_cases own : k = i
    · subst own
      have move : program.move k.1 k.2 (a.now k) = .access e f := goes
      have performed : (program.move k.1 k.2 (a.now k)).perform a.mem =
          some (r.2, Function.update a.mem e r.1) := by
        rw [move, Phased.Move.perform, made]
        rfl
      rw [Scene.store_self, Program.length_of_perform performed]
      exact Nat.le_succ _
    · rw [Scene.store_of_ne own]
  | @meet i member everyone =>
    by_cases mates : program.web.team k = program.web.team i
    · rw [Scene.meet_of_team mates]
      simp [Program.web]
    · rw [Scene.meet_of_ne mates]

theorem Program.runs_length (runs : program.web.Runs a order a') (k : Nat × Nat) :
    (a.now k).length ≤ (a'.now k).length := by
  induction runs with
  | refl => exact Nat.le_refl _
  | step stepped _ ih => exact (Program.step_length stepped k).trans ih

end

namespace Launch

variable {env : Env V} {s t : Launch V} {i j : Nat} {l : Label V}
  {made left order : List (Nat × Nat)} {most : Nat}
  {a final : Scene (Nat × Nat) (Buf × Nat) (V × Bool) (List (Resp V))}

/-! ### On the way -/

/-- A plan has led the launch through the first accesses of an interleaving, with the turn at a
thread that can go on without being early. -/
structure Heading (env : Env V)
    (final : Scene (Nat × Nat) (Buf × Nat) (V × Bool) (List (Resp V)))
    (made left : List (Nat × Nat))
    (a : Scene (Nat × Nat) (Buf × Nat) (V × Bool) (List (Resp V))) (s : Launch V) (i : Nat) :
    Prop where
  steered : Steered env made s
  live : Live s
  first : s.firstBlock = 0
  current : s.sched.current = some i
  tracks : Tracks env s a
  runs : env.program.web.Runs a left final
  inTurn : InTurn env s a left i

structure Target (env : Env V)
    (final : Scene (Nat × Nat) (Buf × Nat) (V × Bool) (List (Resp V))) (most : Nat) : Prop where
  solo : Solo env
  resident : env.config.blocks ≤ env.config.residentBlocks
  complete : env.program.web.Complete final
  told : ∀ k ∈ env.program.web.members, (final.now k).length ≤ most

def Goes (env : Env V) (final : Scene (Nat × Nat) (Buf × Nat) (V × Bool) (List (Resp V)))
    (most : Nat) (order : List (Nat × Nat)) (s : Launch V) : Prop :=
  ∃ made left a t j, made ++ left = order ∧ Heading env final made left a t j ∧
    stepsLeft env most t < stepsLeft env most s

theorem Heading.slot (heading : Heading env final made left a s i) :
    i < (s.geometry env).total ∧ s.sched.status i = .runnable :=
  (heading.steered.wellFormed heading.live).running heading.current

/-- What a step leaves on the way. -/
theorem Heading.next (heading : Heading env final made left a s i) (target : Target env final most)
    (move : Moves env s i l t) (expected : ∀ k, l.accessor? = some k → ∃ later, left = k :: later) :
    ∃ left' a', (made ++ l.accessor?.toList) ++ left' = made ++ left ∧ Tracks env t a' ∧
      env.program.web.Runs a' left' final := by
  obtain ⟨inside, running⟩ := heading.slot
  have standing := heading.steered.standing heading.live
  rcases move.tracks target.solo heading.tracks heading.steered.numbered standing inside running
    with ⟨quiet, same⟩ | ⟨a', stepped, further⟩
  · refine ⟨left, a, ?_, same, heading.runs⟩
    simp [quiet]
  · cases accessor : l.accessor? with
    | none =>
      rw [accessor] at stepped
      exact ⟨left, a', by simp, further, heading.runs.of_silent target.complete stepped⟩
    | some k =>
      rw [accessor] at stepped
      obtain ⟨later, rfl⟩ := expected k accessor
      exact ⟨later, a', by simp, further, heading.runs.of_access stepped⟩

theorem Heading.stepsLeft_lt (heading : Heading env final made left a s i)
    (target : Target env final most) (move : Moves env s i l t) {left' : List (Nat × Nat)}
    {a' : Scene (Nat × Nat) (Buf × Nat) (V × Bool) (List (Resp V))} (tracks : Tracks env t a')
    (runs : env.program.web.Runs a' left' final) : stepsLeft env most t < stepsLeft env most s := by
  obtain ⟨inside, running⟩ := heading.slot
  refine move.stepsLeft_lt (heading.steered.standing heading.live) inside running
    (fun c => target.solo _ _ _ c) ?_
  have member := heading.steered.numbered.place_member inside
  have short := (Program.runs_length runs _).trans (target.told _ member)
  have same : t.geometry env = s.geometry env := by simp only [geometry, move.firstBlock]
  have now := tracks.wave i (by rw [same]; exact inside)
  rw [place_eq, move.firstBlock, ← place_eq] at now
  rw [now, said, List.length_append] at short
  omega

/-- A step that keeps the turn. -/
theorem Heading.stay (heading : Heading env final made left a s i) (target : Target env final most)
    (move : Moves env s i l t) (sched : t.sched = s.sched) (ready : (t.threads i).pc = .ready)
    (expected : ∀ k, l.accessor? = some k → ∃ later, left = k :: later)
    (resumes : ∀ c, (s.choosing c).resume env i = (l, t.choosing c)) :
    Goes env final most (made ++ left) s := by
  have steered := heading.steered.stay heading.live heading.current (by rw [sched]) resumes
  have live : Live t := by
    rw [Live, sched]
    exact heading.live
  obtain ⟨left', a', all, tracks, runs⟩ := heading.next target move expected
  refine ⟨_, left', a', t, i, all, ⟨steered, live, ?_, ?_, tracks, runs, ?_⟩,
    heading.stepsLeft_lt target move tracks runs⟩
  · rw [move.firstBlock, heading.first]
  · rw [sched, heading.current]
  · intro m pc
    rw [ready] at pc
    cases pc

/-- A step that hands the turn on while somebody can go on. -/
theorem Heading.hand (heading : Heading env final made left a s i) (target : Target env final most)
    {u : Scheduler.State} (quiet : l.accessor? = none) (live : u.aborted = false)
    (free : ∃ j < (s.geometry env).total, u.status j = .runnable)
    (moves : ∀ sched, Scheduler.Turned (s.geometry env) u sched → Moves env s i l (t.turn sched))
    (resumes : ∀ c, (s.choosing c).resume env i =
      (l, t.withSched (Scheduler.handOff (s.geometry env) (u.choosing c)))) :
    Goes env final most (made ++ left) s := by
  have expected : ∀ k, l.accessor? = some k → ∃ later, left = k :: later := by
    intro k accessor
    rw [quiet] at accessor
    cases accessor
  -- Where the threads are then does not depend on who gets the turn.
  obtain ⟨k, within, running⟩ := free
  obtain ⟨other, steered, -, turned⟩ :=
    heading.steered.hand heading.live heading.current within running resumes
  have first : (t.turn other).firstBlock = 0 := (moves _ turned).firstBlock.trans heading.first
  have same : (t.turn other).geometry env = s.geometry env := by
    simp only [geometry, (moves _ turned).firstBlock]
  obtain ⟨left', a', all, tracks, runs⟩ := heading.next target (moves _ turned) expected
  obtain ⟨j, inside, free, inTurn⟩ := tracks.exists_due
    (steered.standing (turned.aborted.trans live)) steered.numbered target.solo target.resident
    first runs target.complete ⟨k, by rw [same]; exact within, by rw [turn_sched, turned.status]; exact running⟩
  rw [same] at inside
  rw [turn_sched, turned.status] at free
  obtain ⟨sched, steered', current, turned'⟩ :=
    heading.steered.hand heading.live heading.current inside free resumes
  have tracks' : Tracks env (t.turn sched) a' := by
    refine tracks.congr rfl (fun _ => rfl) rfl fun i => ?_
    exact said_congr rfl (turned'.barrierGen.trans turned.barrierGen.symm)
  refine ⟨_, left', a', t.turn sched, j, all, ⟨steered', turned'.aborted.trans live, first, current,
    tracks', runs, inTurn⟩, heading.stepsLeft_lt target (moves _ turned') tracks' runs⟩

/-! ### Every step -/

theorem Heading.now (heading : Heading env final made left a s i) :
    a.now (s.ctx env i).place = s.said env i := heading.tracks.wave i heading.slot.1

theorem Heading.member (heading : Heading env final made left a s i)
    (inside : j < (s.geometry env).total) : (s.ctx env j).place ∈ env.program.web.members :=
  heading.steered.numbered.place_member inside

/-- Whoever stops without waiting has ended. -/
theorem Heading.ret_of_stop (heading : Heading env final made left a s i)
    (target : Target env final most) {op : Op V} (told : s.said env i = (s.threads i).answers)
    (asks : s.nextOp env i = op)
    (stops : env.program.web.next (s.ctx env i).place (s.said env i) = .stop)
    (awake : ∀ loc, op ≠ .syncThreads loc) : op = .ret := by
  have ends := heading.runs.ends target.complete (heading.member heading.slot.1)
    (by rw [heading.now]; exact stops) ?_
  · rw [heading.now, told] at ends
    exact asks.symm.trans ends
  · rw [heading.now, told]
    intro waits
    obtain ⟨loc, sync⟩ := waits
    exact awake loc (asks.symm.trans sync)

/-- Nobody of a block waits once somebody of it has ended. -/
theorem Heading.not_waits (heading : Heading env final made left a s i)
    (target : Target env final most) {j k : Nat} (inside : j < (s.geometry env).total)
    (mates : (s.geometry env).blockOf k = (s.geometry env).blockOf j)
    (ends : env.program.web.ends (s.ctx env k).place (s.said env k)) :
    ¬ env.program.web.waits (s.ctx env j).place (s.said env j) := by
  have there := lt_of_mates inside mates
  rw [← heading.tracks.wave j inside]
  refine heading.runs.not_waits target.complete (heading.member inside) (heading.member there)
    (congrArg (s.firstBlock + ·) mates) ?_
  rw [heading.tracks.wave k there]
  exact ends

theorem Heading.access (heading : Heading env final made left a s i)
    (target : Target env final most) {m : MemOp V} (pc : (s.threads i).pc = .atAccess m) :
    Goes env final most (made ++ left) s := by
  have fresh := Instrumented.forLaunch_data m.buf env.id (s.mem m.buf)
  have len := heading.tracks.len m.buf
  have asks := (heading.steered.standing heading.live).op_of_atAccess pc
  have op : env.program.kernel (s.ctx env i).block (s.ctx env i).thread (s.threads i).answers =
    .mem m := asks
  have told : s.said env i = (s.threads i).answers := said_of_atAccess pc
  by_cases bound : m.index < (env.mem m.buf).len
  · obtain ⟨later, a', rfl, stepped⟩ := heading.inTurn m pc bound
    cases stepped with
    | @access _ e f r member goes made =>
      rw [heading.now, told] at goes
      obtain ⟨m', op', -, rfl, rfl⟩ := Program.move_access goes
      obtain rfl : m = m' := Op.mem.inj (op.symm.trans op')
      rw [heading.tracks.mem] at made
      simp only [Option.map_eq_some_iff] at made
      obtain ⟨result, updated, rfl⟩ := made
      have value : m.act.update (((s.mem m.buf).forLaunch m.buf env.id).data m.index) =
          .ok result := by
        rw [fresh.1]
        cases act : m.act.update ((s.mem m.buf).data m.index) with
        | error message =>
          have same : m.act.update (s.memory env (m.buf, m.index)).1 = .error message := act
          rw [same] at updated
          cases updated
        | ok found =>
          have same : m.act.update (s.memory env (m.buf, m.index)).1 = .ok found := act
          rw [same] at updated
          cases updated
          rfl
      have inside : m.index < ((s.mem m.buf).forLaunch m.buf env.id).len := by
        rw [fresh.2, len]
        exact bound
      refine heading.stay target (.access m pc result.1 result.2 inside value) rfl
        (by simp [accessed, ctx]) ?_ ?_
      · intro k accessor
        cases accessor
        exact ⟨later, rfl⟩
      · intro c
        have same : ((s.choosing c).threads i).pc = .atAccess m := pc
        have in_range : ¬ m.index ≥ (((s.choosing c).mem m.buf).forLaunch m.buf env.id).len :=
          Nat.not_le_of_lt inside
        have value' : m.act.update
            ((((s.choosing c).mem m.buf).forLaunch m.buf env.id).data m.index) = .ok result := value
        simp only [resume, same, checkedAccess, in_range, if_false, value']
        rfl
  · have outside : ((s.mem m.buf).forLaunch m.buf env.id).len ≤ m.index := by
      rw [fresh.2, len]
      exact Nat.le_of_not_lt bound
    have beyond : ¬ m.index < (env.program.mem m.buf).len := bound
    by_cases checks : ∃ f, m.act = .elemMut true f
    · obtain ⟨f, act⟩ := checks
      refine heading.stay target (.miss m pc f act outside) rfl (by simp) ?_ ?_
      · intro k accessor
        cases accessor
      · intro c
        have same : ((s.choosing c).threads i).pc = .atAccess m := pc
        have out : m.index ≥ (((s.choosing c).mem m.buf).forLaunch m.buf env.id).len := outside
        simp only [resume, same, checkedAccess, out, if_true, act]
        rfl
    · have ret := heading.ret_of_stop target told asks ?_ ?_
      · cases ret
      · show env.program.move (s.ctx env i).block (s.ctx env i).thread _ = .stop
        rw [told]
        simp only [Program.move, op, beyond, if_false]
        split
        next f act => exact absurd ⟨f, act⟩ checks
        · rfl
      · intro loc same
        cases same

theorem Heading.arrive (heading : Heading env final made left a s i)
    (target : Target env final most) (ready : (s.threads i).pc = .ready) {loc : Location}
    (op : s.nextOp env i = .syncThreads loc) : Goes env final most (made ++ left) s := by
  have live := heading.live
  obtain ⟨inside, running⟩ := heading.slot
  have standing := heading.steered.standing live
  have waits : env.program.web.waits (s.ctx env i).place (s.said env i) := by
    rw [said_of_ready ready]
    exact ⟨loc, op⟩
  have resumes : ∀ {u : Scheduler.State},
      Scheduler.barrierEnter (s.geometry env) i loc s.sched = (u, []) → u.aborted = false →
      ∀ c, (s.choosing c).resume env i =
        (.arrive (s.ctx env i) (s.sched.barrierGen (s.ctx env i).waveBlock),
          (s.barrierEntered env i).withSched
            (Scheduler.handOff (s.geometry env) (u.choosing c))) := by
    intro u enter still c
    rw [← Scheduler.handOffUnlessFailed_of_enter
      (Scheduler.barrierEnter_undecided (s.geometry env) i loc) enter still c]
    have same : ((s.choosing c).threads i).pc = .ready := ready
    have next : env.kernel ((s.choosing c).ctx env i).block ((s.choosing c).ctx env i).thread
        ((s.choosing c).threads i).answers = .syncThreads loc := op
    simp only [resume, same, next, dispatch]
    rfl
  rcases Scheduler.barrierEnter_cases (s.geometry env) i loc s.sched with
    ⟨k, mates, away, ended, -⟩ | ⟨everyone, enter⟩ | ⟨alive, ⟨k, mates, away, missing⟩, enter⟩
  · rcases standing.status_cases target.solo k with goes | ⟨parked, -⟩ | ⟨-, ends⟩
    · cases goes.symm.trans ended
    · cases parked.symm.trans ended
    · exact absurd waits (heading.not_waits target inside mates ends)
  · refine heading.hand target (u := Scheduler.barrierReleased (s.geometry env) i s.sched)
      rfl live ⟨i, inside, ?_⟩ (fun sched turned => ?_) (resumes enter live)
    · simp [Scheduler.barrierReleased, Scheduler.setAll, Geometry.mem_blockRange]
    · exact .release ready loc op everyone turned
  · have there := lt_of_mates inside mates
    have free : s.sched.status k = .runnable := by
      rcases standing.status_cases target.solo k with goes | ⟨parked, -⟩ | ⟨ended, -⟩
      · exact goes
      · exact absurd parked missing
      · exact absurd ended (alive k mates away)
    refine heading.hand target (u := Scheduler.barrierParked (s.geometry env) i loc s.sched)
      rfl live ⟨k, there, ?_⟩ (fun sched turned => ?_) (resumes enter live)
    · exact (Function.update_of_ne away ..).trans free
    · exact .arrive ready loc op alive ⟨k, mates, away, missing⟩ turned

def Through (env : Env V) (final : Scene (Nat × Nat) (Buf × Nat) (V × Bool) (List (Resp V)))
    (order : List (Nat × Nat)) : Prop :=
  ∃ t, Steered env order t ∧ Live t ∧ t.firstBlock = 0 ∧ t.sched.current = none ∧
    Tracks env t final

theorem Heading.finish (heading : Heading env final made left a s i)
    (target : Target env final most) (ready : (s.threads i).pc = .ready)
    (op : s.nextOp env i = .ret) :
    Goes env final most (made ++ left) s ∨ Through env final (made ++ left) := by
  have live := heading.live
  obtain ⟨inside, running⟩ := heading.slot
  have standing := heading.steered.standing live
  have ends : env.program.web.ends (s.ctx env i).place (s.said env i) := by
    rw [said_of_ready ready]
    exact op
  have resumes : ∀ c, (s.choosing c).resume env i = (.finish (s.ctx env i),
      s.withSched (Scheduler.finish (s.geometry env) i (s.sched.choosing c))) := by
    intro c
    have same : ((s.choosing c).threads i).pc = .ready := ready
    have next : env.kernel ((s.choosing c).ctx env i).block ((s.choosing c).ctx env i).thread
        ((s.choosing c).threads i).answers = .ret := op
    simp only [resume, same, next, dispatch]
    rfl
  rcases Scheduler.finishEnter_cases (s.geometry env) i s.sched with
    ⟨p, wait, ⟨-, -, parked, -⟩, -⟩ | ⟨-, ⟨k, mates, away, parked⟩, -⟩ | ⟨unwanted, alone, enter⟩
  · rcases standing.status_cases target.solo p with goes | ⟨waiting, -⟩ | ⟨ended, -⟩
    · cases goes.symm.trans parked
    · cases waiting.symm.trans parked
    · cases ended.symm.trans parked
  · rcases standing.status_cases target.solo k with goes | ⟨-, waits⟩ | ⟨ended, -⟩
    · cases goes.symm.trans parked
    · exact absurd waits (heading.not_waits target (lt_of_mates inside mates) mates.symm ends)
    · cases ended.symm.trans parked
  · have kept : ∀ k, k ≠ i →
        (Scheduler.finishMarked i s.sched).status k = s.sched.status k :=
      fun k away => Function.update_of_ne away ..
    by_cases last : ∀ k < (s.geometry env).total,
        (Scheduler.finishMarked i s.sched).status k = .finished
    · right
      have move : Moves env s i (.finish (s.ctx env i))
          (s.turn { Scheduler.finishMarked i s.sched with current := none }) :=
        .finish ready op unwanted alone (.inr ⟨rfl, last⟩)
      have steered := heading.steered.stay live heading.current
        (l := .finish (s.ctx env i))
        (t := s.turn { Scheduler.finishMarked i s.sched with current := none }) rfl fun c => by
          rw [resumes, Scheduler.finish_of_last enter live last]
          simp [withSched, turn, choosing]
      obtain ⟨left', a', all, tracks, runs⟩ := heading.next target move
        (fun k accessor => by cases accessor)
      have done := steered.standing live
      obtain ⟨rfl, rfl⟩ := runs.of_complete (tracks.complete done.settled (by
        show env.config.blocks ≤ s.firstBlock + env.config.waveBlocks s.firstBlock
        have resident := target.resident
        rw [heading.first, Config.waveBlocks]
        omega) last)
      refine ⟨s.turn { Scheduler.finishMarked i s.sched with current := none }, ?_, live,
        heading.first, rfl, tracks⟩
      rw [← all, List.append_nil]
      exact steered
    · left
      push Not at last
      obtain ⟨j, there, unfinished⟩ := last
      have other : j ≠ i := by
        intro same
        subst same
        exact unfinished (Function.update_self ..)
      rw [kept j other] at unfinished
      obtain ⟨k, within, away, free⟩ : ∃ k < (s.geometry env).total, k ≠ i ∧
          s.sched.status k = .runnable := by
        rcases standing.status_cases target.solo j with goes | ⟨parked, waits⟩ | ⟨ended, -⟩
        · exact ⟨j, there, other, goes⟩
        · obtain ⟨k, mates, unparked⟩ := standing.waiting.barrier parked
          refine ⟨k, lt_of_mates there mates, ?_, ?_⟩
          · intro same
            subst same
            exact alone j mates.symm other parked
          · rcases standing.status_cases target.solo k with goes | ⟨parked', -⟩ | ⟨-, ends'⟩
            · exact goes
            · exact absurd parked' unparked
            · exact absurd waits (heading.not_waits target there mates ends')
        · exact absurd ended unfinished
      refine heading.hand target (u := Scheduler.finishMarked i s.sched) (t := s)
        (l := .finish (s.ctx env i)) rfl live ⟨k, within, (kept k away).trans free⟩ (fun sched turned => ?_) (fun c => ?_)
      · exact .finish ready op unwanted alone (.inl turned)
      · rw [resumes, Scheduler.finish_of_enter enter live]
        intro empty
        have member : k ∈ Scheduler.runnable (s.geometry env) (Scheduler.finishMarked i s.sched) :=
          (Scheduler.mem_runnable _).mpr ⟨within, (kept k away).trans free⟩
        rw [empty] at member
        cases member

/-- Whatever the thread that holds the turn is about to do, the launch gets further. -/
theorem Heading.step (heading : Heading env final made left a s i)
    (target : Target env final most) :
    Goes env final most (made ++ left) s ∨ Through env final (made ++ left) := by
  have live := heading.live
  obtain ⟨inside, running⟩ := heading.slot
  have asked := (heading.steered.standing live).asked i
  have no_collective : ∀ c, s.nextOp env i ≠ .warp c := fun c => target.solo _ _ _ c
  cases pc : (s.threads i).pc with
  | ready =>
    have told : s.said env i = (s.threads i).answers := said_of_ready pc
    have same : ∀ c, ((s.choosing c).threads i).pc = .ready := fun _ => pc
    cases op : s.nextOp env i with
    | ret => exact heading.finish target pc op
    | panic message =>
      have ret := heading.ret_of_stop target told op
        (Program.move_stop (by rw [told]; exact op) (.inr (.inl ⟨message, rfl⟩)))
        (fun loc same => by cases same)
      cases ret
    | fence ordering =>
      refine .inl (heading.stay target (.fence pc ordering op) rfl (by simp)
        (fun k accessor => by cases accessor) fun c => ?_)
      have next : env.kernel ((s.choosing c).ctx env i).block ((s.choosing c).ctx env i).thread
          ((s.choosing c).threads i).answers = .fence ordering := op
      simp only [resume, same, next, dispatch]
      rfl
    | syncThreads loc => exact .inl (heading.arrive target pc op)
    | mem m =>
      refine .inl (heading.hand target (u := s.sched) (t := s.setPc i (.atAccess m)) rfl live
        ⟨i, inside, running⟩ (fun sched turned => .yieldAccess pc m op turned) fun c => ?_)
      have next : env.kernel ((s.choosing c).ctx env i).block ((s.choosing c).ctx env i).thread
          ((s.choosing c).threads i).answers = .mem m := op
      simp only [resume, same, next, dispatch]
      rfl
    | warp c => exact absurd op (no_collective c)
  | atAccess m => exact .inl (heading.access target pc)
  | atBarrier gen =>
    refine .inl (heading.stay target (.depart gen pc) rfl (by simp)
      (fun k accessor => by cases accessor) fun c => ?_)
    have same : ((s.choosing c).threads i).pc = .atBarrier gen := pc
    simp only [resume, same]
    rfl
  | atCollective c | arrived c | departed c =>
    rw [pc] at asked
    exact absurd asked (no_collective c)

theorem Heading.through (target : Target env final most) (bound : Nat) :
    ∀ {made left : List (Nat × Nat)}
      {a : Scene (Nat × Nat) (Buf × Nat) (V × Bool) (List (Resp V))} {s : Launch V} {i : Nat},
      Heading env final made left a s i → stepsLeft env most s ≤ bound →
      Through env final (made ++ left) := by
  induction bound with
  | zero =>
    intro made left a s i heading small
    rcases heading.step target with ⟨made', left', a', t, j, all, further, less⟩ | through
    · omega
    · exact through
  | succ bound ih =>
    intro made left a s i heading small
    rcases heading.step target with ⟨made', left', a', t, j, all, further, less⟩ | through
    · rw [← all]
      exact ih further (by omega)
    · exact through

/-- Some plan leads a launch through every interleaving that comes to an end. -/
theorem through_of_runs (solo : Solo env)
    (resident : env.config.blocks ≤ env.config.residentBlocks)
    (runs : env.program.web.Runs env.program.begun order final)
    (complete : env.program.web.Complete final) : Through env final order := by
  have target : Target env final ((Finset.range env.config.blocks ×ˢ
      Finset.range env.config.threadsPerBlock).sup fun k => (final.now k).length) := by
    refine ⟨solo, resident, complete, fun k member => ?_⟩
    refine Finset.le_sup (f := fun k => (final.now k).length) ?_
    exact Finset.mem_product.mpr ⟨Finset.mem_range.mpr member.1, Finset.mem_range.mpr member.2⟩
  have inside : 0 < (env.config.geometry 0).total :=
    Nat.mul_pos (waveBlocks_pos env.config.blocks_pos) env.config.threads_pos
  obtain ⟨sched, steered, current, live⟩ := Steered.start inside
  have heading : Heading env final [] order env.program.begun ((init env).turn sched) 0 := by
    refine ⟨steered, live, rfl, current, ?_, runs, ?_⟩
    · exact (Tracks.start env).congr rfl (fun _ => rfl) rfl fun _ => rfl
    · intro m pc
      cases pc
  exact heading.through target _ le_rfl

/-- The scene a launch has come to at its end, whatever else happened. -/
theorem scene_of_halted (solo : Solo env) {n : Nat} (halted : (run env).Halted n)
    (live : Live ((run env).state n)) :
    ∃ final, env.program.web.Runs env.program.begun (accessors env n) final ∧
      env.program.web.Complete final ∧ final.mem = ((run env).state n).memory env := by
  obtain ⟨final, runs, tracks⟩ := tracks_run solo live
  obtain ⟨last, ended⟩ := over_of_halted halted live
  exact ⟨final, runs, tracks.complete (wellFormed live).settled last ended, tracks.mem⟩

/-- A thread has been told, when it returns, what the interleaving tells it. -/
theorem answers_of_finish (solo : Solo env) {n k : Nat} (halted : (run env).Halted n)
    (live : Live ((run env).state n)) {cx : Ctx} (finishes : (run env).label k = some (.finish cx))
    (runs : env.program.web.Runs env.program.begun (accessors env n) final)
    (complete : env.program.web.Complete final) :
    (((run env).state k).threads cx.slot).answers = final.now cx.place := by
  obtain ⟨d, rfl⟩ := Nat.exists_eq_add_of_lt ((run env).label_lt_of_halted halted finishes)
  have before : Live ((run env).state k) := live_of_label finishes
  obtain ⟨a, earlier, tracks⟩ := tracks_run solo before
  obtain ⟨order, final', same, later, tracks'⟩ := tracks_from solo tracks (d + 1) live
  obtain ⟨last, ended⟩ := over_of_halted halted live
  have all : env.program.web.Runs env.program.begun (accessors env (k + d + 1)) final' := by
    rw [show accessors env (k + d + 1) = accessors env k ++ order from same]
    exact earlier.trans later
  obtain rfl : final' = final :=
    all.unique (tracks'.complete (wellFormed live).settled last ended) runs complete
  obtain ⟨slot, current, rfl, inside, -, resumed⟩ := label_slot finishes rfl
  have now := tracks.wave slot inside
  generalize (run env).state (k + 1) = next at resumed
  cases resumed with
  | finish ready op =>
    rw [said_of_ready ready] at now
    have ends : env.program.web.ends (((run env).state k).ctx env slot).place
        (a.now (((run env).state k).ctx env slot).place) := by
      rw [now]
      exact op
    rw [later.still ((numbered env k).place_member inside) (env.program.web.stop_of_ends ends)
      (env.program.web.not_waits ends)]
    exact now.symm

/-- The schedules of a launch are the interleavings of its threads. A launch that calls no
collective and ends without a trap has made the accesses of a complete interleaving in its order,
and has left the memory and told its threads what that interleaving does. Where every block is
resident the order of any complete interleaving is that of a launch under some plan, which ends
without a trap and leaves the same memory. -/
theorem schedules_are_interleavings (solo : Solo env) :
    (∀ n, (run env).Halted n → Live ((run env).state n) →
      ∃ final, env.program.web.Runs env.program.begun (accessors env n) final ∧
        env.program.web.Complete final ∧ final.mem = ((run env).state n).memory env ∧
        ∀ k cx, (run env).label k = some (.finish cx) →
          (((run env).state k).threads cx.slot).answers = final.now cx.place) ∧
    (env.config.blocks ≤ env.config.residentBlocks →
      ∀ order final, env.program.web.Runs env.program.begun order final →
        env.program.web.Complete final →
        ∃ plan n, (run (env.choosing fun _ => .replay plan 0)).Halted n ∧
          Live ((run (env.choosing fun _ => .replay plan 0)).state n) ∧
          accessors (env.choosing fun _ => .replay plan 0) n = order ∧
          ((run (env.choosing fun _ => .replay plan 0)).state n).memory env = final.mem) := by
  constructor
  · intro n halted live
    obtain ⟨final, runs, complete, mem⟩ := scene_of_halted solo halted live
    exact ⟨final, runs, complete, mem, fun k cx finishes =>
      answers_of_finish solo halted live finishes runs complete⟩
  · intro resident order final runs complete
    obtain ⟨t, steered, live, first, nobody, tracks⟩ :=
      through_of_runs solo resident runs complete
    obtain ⟨n, plan, rfl, made⟩ := steered.state
    refine ⟨plan, n, ?_, live, made, tracks.mem.symm⟩
    have stopped : ((run (env.choosing fun _ => .replay plan 0)).state n).step
        (env.choosing fun _ => .replay plan 0) = none := by
      have whole : ¬ 0 + env.config.waveBlocks 0 < env.config.blocks := by
        rw [Config.waveBlocks]
        omega
      simp only [step, show _ = false from live, Bool.false_eq_true, if_false, nobody, first]
      exact if_neg whole
    exact stopped

theorem counter_fresh : ∀ _ : Buf, (Instrumented.ofData [0]).launchId ≠ 1 := by
  simp [Instrumented.ofData]

/-- Each of two threads reads an element and stores one more there. -/
def incrementing : Env Nat where
  config := .twoThreads
  kernel := fun _ _ answers => match answers with
    | [] => .mem ⟨.global 0, 0, ⟨"kernel.rs", 3, 13⟩, .read⟩
    | [.val v] => .mem ⟨.global 0, 0, ⟨"kernel.rs", 4, 5⟩, .write (v + 1)⟩
    | _ => .ret
  choicesOf := fun _ => .replay [] 0
  id := 1
  mem := fun _ => .ofData [0]
  bufferName := fun _ => "counter"
  typeTag := fun _ => 0
  fresh := counter_fresh

theorem incrementing_solo : Solo incrementing := by
  intro block thread answers c
  unfold incrementing
  dsimp only
  split <;> simp

def lostIncrement : Scene (Nat × Nat) (Buf × Nat) (Nat × Bool) (List (Resp Nat)) :=
  (((incrementing.program.begun.store (0, 0) [.val 0] (.global 0, 0) (0, true)).store
    (0, 1) [.val 0] (.global 0, 0) (0, true)).store
    (0, 0) [.val 0, .unit] (.global 0, 0) (1, true)).store
    (0, 1) [.val 0, .unit] (.global 0, 0) (1, true)

theorem lostIncrement_runs : incrementing.program.web.Runs incrementing.program.begun
    [(0, 0), (0, 1), (0, 0), (0, 1)] lostIncrement := by
  have first : (0, 0) ∈ incrementing.program.web.members := ⟨by decide, by decide⟩
  have second : (0, 1) ∈ incrementing.program.web.members := ⟨by decide, by decide⟩
  refine .step (.access (r := ((0, true), [.val 0])) first rfl rfl) ?_
  refine .step (.access (r := ((0, true), [.val 0])) second rfl rfl) ?_
  refine .step (.access (r := ((1, true), [.val 0, .unit])) first rfl rfl) ?_
  exact .step (.access (r := ((1, true), [.val 0, .unit])) second rfl rfl) (.refl _)

theorem lostIncrement_complete : incrementing.program.web.Complete lostIncrement := by
  intro k member
  have in_grid : k.1 < 1 := member.1
  have in_block : k.2 < 2 := member.2
  have block : k.1 = 0 := by omega
  have cases : k.2 = 0 ∨ k.2 = 1 := by omega
  cases cases with
  | inl thread =>
    rw [show k = (0, 0) from Prod.ext block thread]
    rfl
  | inr thread =>
    rw [show k = (0, 1) from Prod.ext block thread]
    rfl

/-- Some plan loses one of the two increments. -/
theorem schedules_are_interleavings_incrementing : ∃ plan n,
    (run (incrementing.choosing fun _ => .replay plan 0)).Halted n ∧
      ((run (incrementing.choosing fun _ => .replay plan 0)).state n).memory incrementing
        (.global 0, 0) = (1, true) := by
  obtain ⟨plan, n, halted, -, -, memory⟩ :=
    (schedules_are_interleavings incrementing_solo).2 (by decide) _ lostIncrement
      lostIncrement_runs lostIncrement_complete
  refine ⟨plan, n, halted, ?_⟩
  rw [memory]
  rfl

end Launch

end Riri
