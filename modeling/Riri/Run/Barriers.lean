import Riri.Run.Epochs
import Riri.Run.Clocks

/-!
# Barrier instances along a run

The arrivals and departures of a run follow the rules the vector-clock library asks of
barriers: generations only grow, everybody arrives before anybody leaves, and a thread
leaves every instance once, in order.
-/
namespace Riri.Launch

variable {V : Type} [BEq V] {env : Env V}

/-- An arrival is at its block's current generation. -/
theorem arrive_at {n gen : Nat} {cx : Ctx} (labelled : (run env).label n = some (.arrive cx gen)) :
    ∃ slot, cx = ((run env).state n).ctx env slot ∧
      ((run env).state n).sched.barrierGen ((((run env).state n).geometry env).blockOf slot) =
        gen := by
  obtain ⟨slot, -, rfl, -, -, resumed⟩ := label_slot labelled rfl
  generalize (run env).state (n + 1) = next at resumed
  cases resumed with
  | arrive pc loc op => exact ⟨slot, rfl, rfl⟩

/-- A departure is from the generation before the current one. -/
theorem depart_at {n gen : Nat} {cx : Ctx} (labelled : (run env).label n = some (.depart cx gen)) :
    ∃ slot, cx = ((run env).state n).ctx env slot ∧
      (((run env).state n).threads slot).pc = .atBarrier gen ∧
      ((run env).state n).sched.barrierGen ((((run env).state n).geometry env).blockOf slot) =
        gen + 1 ∧
      (((run env).state (n + 1)).threads slot).pc = .ready ∧
      ((run env).state (n + 1)).firstBlock = ((run env).state n).firstBlock ∧
      Live ((run env).state (n + 1)) := by
  obtain ⟨slot, -, rfl, -, running, resumed⟩ := label_slot labelled rfl
  have live := live_of_label labelled
  generalize moved : (run env).state (n + 1) = next at resumed ⊢
  cases resumed with
  | depart _ pc =>
    rcases ((wellFormed live).settled slot).gen_of_atBarrier pc with ⟨parked, -⟩ | ⟨-, gen_eq⟩
    · rw [running] at parked
      cases parked
    · exact ⟨slot, rfl, pc, gen_eq.symm, by simp, rfl, live⟩

/-- Threads of one wave with one global number are in one slot. -/
theorem slot_of_gid {i j si sj : Nat}
    (wave : ((run env).state j).firstBlock = ((run env).state i).firstBlock)
    (gid : (((run env).state i).ctx env si).gid = (((run env).state j).ctx env sj).gid) : si = sj := by
  have numbers : ∀ s : Launch V, ∀ slot, (s.ctx env slot).gid =
      s.firstBlock * env.config.threadsPerBlock + slot := by
    intro s slot
    simp only [ctx, Nat.add_mul, Nat.add_assoc, Nat.div_add_mod']
  rw [numbers, numbers, wave] at gid
  exact Nat.add_left_cancel gid

/-- A thread inside a barrier has arrived there. -/
theorem arrived_before {n slot gen : Nat} (live : Live ((run env).state n))
    (inside : (((run env).state n).threads slot).pc = .atBarrier gen) :
    ∃ i < n, (run env).label i = some (.arrive (((run env).state n).ctx env slot) gen) := by
  induction n with
  | zero => cases inside
  | succ n ih =>
    obtain ⟨wf, ⟨-, stays⟩ | ⟨-, -, -, next⟩ | ⟨me, l, labelled, -, move⟩⟩ := live_step live
    · rw [stays] at inside ⊢
      obtain ⟨i, lt, arrives⟩ := ih (live_of_succ live) inside
      exact ⟨i, Nat.lt_succ_of_lt lt, arrives⟩
    · rw [next] at inside
      cases inside
    · have same_ctx : ((run env).state (n + 1)).ctx env slot = ((run env).state n).ctx env slot := by
        simp only [ctx, move.firstBlock]
      rw [same_ctx]
      by_cases earlier : (((run env).state n).threads slot).pc = .atBarrier gen
      · obtain ⟨i, lt, arrives⟩ := ih (live_of_succ live) earlier
        exact ⟨i, Nat.lt_succ_of_lt lt, arrives⟩
      · obtain ⟨rfl, -⟩ := move.enters earlier inside
        exact ⟨n, Nat.lt_succ_self n, labelled⟩

def passed (env : Env V) (s : Launch V) (slot : Nat) : Nat :=
  match (s.threads slot).pc with
  | .atBarrier gen => gen
  | _ => s.sched.barrierGen ((s.geometry env).blockOf slot)

omit [BEq V] in
theorem passed_of_inside {s : Launch V} {slot gen : Nat}
    (inside : (s.threads slot).pc = .atBarrier gen) : passed env s slot = gen := by
  simp only [passed, inside]

omit [BEq V] in
theorem passed_of_outside {s : Launch V} {slot : Nat}
    (outside : ∀ gen, (s.threads slot).pc ≠ .atBarrier gen) :
    passed env s slot = s.sched.barrierGen ((s.geometry env).blockOf slot) := by
  unfold passed
  split
  next gen inside => exact absurd inside (outside gen)
  · rfl

/-- Leaving a barrier is the only way to have left one more. -/
theorem Moves.passed {s s' : Launch V} {me : Nat} {l : Label V} (wf : WellFormed env s)
    (current : s.sched.current = some me) (move : Moves env s me l s') (slot : Nat) :
    passed env s' slot ≤ passed env s slot ∨
      (l = .depart (s.ctx env slot) (passed env s slot) ∧
        passed env s' slot = passed env s slot + 1) := by
  have same_geometry : s'.geometry env = s.geometry env := by simp only [geometry, move.firstBlock]
  by_cases inside : ∃ gen, (s.threads slot).pc = .atBarrier gen
  · obtain ⟨gen, inside⟩ := inside
    rw [passed_of_inside inside]
    by_cases still : (s'.threads slot).pc = .atBarrier gen
    · exact .inl (passed_of_inside still).le
    · have left := move.leaves inside still
      refine .inr ⟨left, ?_⟩
      obtain rfl : slot = me := by
        by_contra other
        exact still (by rw [move.others other, inside])
      cases move with
      | depart gen' pc =>
        rw [passed_of_outside (by simp)]
        rcases (wf.settled slot).gen_of_atBarrier inside with ⟨parked, -⟩ | ⟨-, now⟩
        · rw [(wf.running current).2] at parked
          cases parked
        · exact now.symm
      | _ => cases left
  · push Not at inside
    rw [passed_of_outside inside]
    refine .inl ?_
    by_cases inside' : ∃ gen, (s'.threads slot).pc = .atBarrier gen
    · obtain ⟨gen, inside'⟩ := inside'
      rw [passed_of_inside inside']
      exact (move.enters (inside gen) inside').2.le
    · push Not at inside'
      rw [passed_of_outside inside', same_geometry]
      rcases move.barrierGen with stays | ⟨last, arrives, bumped⟩
      · rw [stays]
      · by_cases mates : (s.geometry env).blockOf slot = (s.geometry env).blockOf me
        · exact absurd ((move.released wf arrives last).2.2 slot mates) (inside' _)
        · rw [bumped, Function.update_of_ne mates]

omit [BEq V] in
/-- Nobody has passed anything in a wave that has just been set up. -/
theorem passed_of_start {s : Launch V} {firstBlock wave : Nat}
    (started : s.sched = start env firstBlock wave) (threads : ∀ i, s.threads i = ⟨.ready, []⟩)
    (slot : Nat) : Launch.passed env s slot = 0 := by
  rw [passed_of_outside (fun gen => by simp [threads]), started]
  exact congrFun (Scheduler.pickNext_rests _ _).barrierGen _

/-- A thread has left every instance it has passed. -/
theorem departed_before {n slot k : Nat} (live : Live ((run env).state n))
    (past : k < passed env ((run env).state n) slot) :
    ∃ i < n, (run env).label i = some (.depart (((run env).state n).ctx env slot) k) := by
  induction n with
  | zero =>
    have nothing := passed_of_start (s := (run env).state 0) rfl (fun _ => rfl) slot
    omega
  | succ n ih =>
    obtain ⟨wf, ⟨-, stays⟩ | ⟨-, -, -, next⟩ | ⟨me, l, labelled, current, move⟩⟩ := live_step live
    · rw [stays] at past ⊢
      obtain ⟨i, lt, departs⟩ := ih (live_of_succ live) past
      exact ⟨i, Nat.lt_succ_of_lt lt, departs⟩
    · rw [next] at past
      have nothing := passed_of_start (s := ((run env).state n).nextWave env) rfl (fun _ => rfl) slot
      omega
    · have same_ctx : ((run env).state (n + 1)).ctx env slot = ((run env).state n).ctx env slot := by
        simp only [ctx, move.firstBlock]
      rw [same_ctx]
      by_cases earlier : k < passed env ((run env).state n) slot
      · obtain ⟨i, lt, departs⟩ := ih (live_of_succ live) earlier
        exact ⟨i, Nat.lt_succ_of_lt lt, departs⟩
      · rcases move.passed wf current slot with unchanged | ⟨left, one_more⟩
        · omega
        · obtain rfl : k = passed env ((run env).state n) slot := by omega
          exact ⟨n, Nat.lt_succ_self n, by rw [labelled, left]⟩

theorem label_of_event {n : Nat} {e : VectorClock.Event Nat (Buf × Nat) Nat}
    (event : events env n = e) (busy : e ≠ .idle) :
    ∃ l, (run env).label n = some l ∧ l.event = e := by
  unfold events at event
  cases labelled : (run env).label n with
  | none =>
    rw [labelled] at event
    exact absurd event.symm busy
  | some l =>
    rw [labelled] at event
    exact ⟨l, rfl, event⟩

theorem label_of_arrive {n t b k : Nat} (event : events env n = .arrive t b k) :
    ∃ cx, (run env).label n = some (.arrive cx k) ∧ cx.gid = t ∧ cx.block = b := by
  obtain ⟨l, labelled, here⟩ := label_of_event event (by simp)
  cases l with
  | arrive cx gen =>
    obtain ⟨rfl, rfl, rfl⟩ := VectorClock.Event.arrive.inj here
    exact ⟨cx, labelled, rfl, rfl⟩
  | fault cx m acc outside => cases outside <;> cases here
  | _ => cases here

theorem label_of_depart {n t b k : Nat} (event : events env n = .depart t b k) :
    ∃ cx, (run env).label n = some (.depart cx k) ∧ cx.gid = t ∧ cx.block = b := by
  obtain ⟨l, labelled, here⟩ := label_of_event event (by simp)
  cases l with
  | depart cx gen =>
    obtain ⟨rfl, rfl, rfl⟩ := VectorClock.Event.depart.inj here
    exact ⟨cx, labelled, rfl, rfl⟩
  | fault cx m acc outside => cases outside <;> cases here
  | _ => cases here

/-- Generations between two labels of one block. -/
theorem barrierGen_le {i j sx sy : Nat} (le : i ≤ j) (live : Live ((run env).state j))
    (wave : ((run env).state j).firstBlock = ((run env).state i).firstBlock)
    (block : (((run env).state i).ctx env sx).block = (((run env).state j).ctx env sy).block) :
    ((run env).state i).sched.barrierGen ((((run env).state i).geometry env).blockOf sx) ≤
      ((run env).state j).sched.barrierGen ((((run env).state j).geometry env).blockOf sy) := by
  have same_geometry : ((run env).state j).geometry env = ((run env).state i).geometry env := by
    simp only [geometry, wave]
  rw [mates_of_block sx sy wave block, same_geometry]
  exact barrierGen_mono le live wave _

/-- A thread leaves an instance once. -/
theorem depart_once {i j gen : Nat} {cx cy : Ctx} (lt : i < j)
    (first : (run env).label i = some (.depart cx gen))
    (second : (run env).label j = some (.depart cy gen)) (gid : cx.gid = cy.gid)
    (block : cx.block = cy.block) : False := by
  have wave := sameWave lt.le first rfl second rfl block
  have live := live_of_label second
  obtain ⟨sx, rfl, -, gen_i, ready, next, -⟩ := depart_at first
  obtain ⟨sy, rfl, inside, gen_j, -⟩ := depart_at second
  obtain rfl := slot_of_gid wave gid
  -- Between the two departures the thread arrived again, at a generation already over.
  obtain ⟨k, low, high, -, now⟩ := exists_arrive lt live (wave.trans next.symm)
    (by rw [ready]; simp) inside
  have here := sameWave_between (Nat.le_of_succ_le low) high.le live wave
  have grown := barrierGen_mono (Nat.le_of_succ_le low) (live_of_le high.le live) here
    ((((run env).state i).geometry env).blockOf sx)
  simp only [geometry, next] at now
  simp only [geometry] at grown gen_i
  omega

/-- The barriers of a run follow the library's rules. -/
theorem barriers (env : Env V) : VectorClock.Barriers (events env) where
  ordered {i j t u b k l} first second le := by
    obtain ⟨cx, arrives, -, rfl⟩ := label_of_arrive first
    obtain ⟨cy, arrives', -, block⟩ := label_of_arrive second
    have wave := sameWave le arrives rfl arrives' rfl block.symm
    obtain ⟨sx, rfl, rfl⟩ := arrive_at arrives
    obtain ⟨sy, rfl, rfl⟩ := arrive_at arrives'
    exact barrierGen_le le (live_of_label arrives') wave block.symm
  complete {i j t u b k} first second := by
    obtain ⟨cx, arrives, -, rfl⟩ := label_of_arrive first
    obtain ⟨cy, departs, -, block⟩ := label_of_depart second
    by_contra late
    have le := Nat.le_of_not_lt late
    have wave := sameWave le departs rfl arrives rfl block
    obtain ⟨sx, rfl, gen⟩ := arrive_at arrives
    obtain ⟨sy, rfl, -, gen', -⟩ := depart_at departs
    have grown := barrierGen_le le (live_of_label arrives) wave block
    omega
  arrived {j t b k} departs := by
    obtain ⟨cx, labelled, rfl, rfl⟩ := label_of_depart departs
    obtain ⟨slot, rfl, inside, -⟩ := depart_at labelled
    obtain ⟨i, lt, arrives⟩ := arrived_before (live_of_label labelled) inside
    exact ⟨i, lt, events_of_label arrives⟩
  once {i j t b k} first second := by
    obtain ⟨cx, labelled, rfl, rfl⟩ := label_of_depart first
    obtain ⟨cy, labelled', gid, block⟩ := label_of_depart second
    rcases Nat.lt_trichotomy i j with lt | same | lt
    · exact (depart_once lt labelled labelled' gid.symm block.symm).elim
    · exact same
    · exact (depart_once lt labelled' labelled gid block).elim
  earlier {j t b k l} departs lt := by
    obtain ⟨cx, labelled, rfl, rfl⟩ := label_of_depart departs
    obtain ⟨slot, rfl, inside, -⟩ := depart_at labelled
    obtain ⟨i, before, left⟩ := departed_before (live_of_label labelled)
      (by rw [passed_of_inside inside]; exact lt)
    exact ⟨i, before, events_of_label left⟩

end Riri.Launch
