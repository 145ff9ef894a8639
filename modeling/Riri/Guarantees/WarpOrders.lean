import Riri.Guarantees.DivergenceAgreement
import Riri.Run.Conversations
import Riri.Run.Driving

/-!
# Every order of the calls is one of a schedule

The halves of the calls of a launch take place in some order. A schedule that brings the lanes
of one half together, one after the other, before it lets any other lane come to its own never
has two lanes parked for different things, so it is never stopped on the way.
-/
namespace Riri.Launch

open Scheduler (Mate)

variable {V : Type}

def courseOfCalls (calls : Nat → Nat → List (Collective V)) : Course :=
  courseOf fun block thread => (calls block thread).map Op.warp

theorem courseOfCalls_ne_barrier (calls : Nat → Nat → List (Collective V)) (block thread k : Nat) :
    courseOfCalls calls block thread k ≠ .barrier := by
  unfold courseOfCalls courseOf
  rw [List.filterMap_map]
  intro at_barrier
  cases found : ((calls block thread).filterMap (Op.milestone? ∘ Op.warp))[k]? with
  | none =>
    rw [found] at at_barrier
    cases at_barrier
  | some m =>
    rw [found] at at_barrier
    obtain ⟨c, -, same⟩ := List.mem_filterMap.mp (List.mem_of_getElem? found)
    cases same
    cases at_barrier

variable [BEq V] {env : Env V} {calls : Nat → Nat → List (Collective V)} {s : Launch V}
  {pos : Nat → Nat} {group : Set Nat} {wait w : WarpWait} {i k : Nat}

theorem Conversing.along (conversing : Conversing env calls) (n : Nat) :
    Along env (courseOfCalls calls) ((run env).state n) :=
  oblivious_ofLists conversing.kernel env.choicesOf n

omit [BEq V] in
theorem meeting_first {course : Course} (first : s.firstBlock = 0) :
    s.meeting env course = env.config.meeting course 0 := by
  rw [meeting, first]

/-- A schedule has led the wave to these positions, with the turn at `i` and exactly the lanes of
`group` parked, all for the same half. -/
structure Arranged (env : Env V) (pos : Nat → Nat) (group : Set Nat) (wait : WarpWait)
    (s : Launch V) (i : Nat) : Prop where
  led : Led env s
  live : Live s
  first : s.firstBlock = 0
  current : s.sched.current = some i
  position : s.position env = pos
  parked : ∀ j ∈ group, s.sched.status j = .atWarp ∧ s.sched.warpWait j = some wait
  free : ∀ j ∉ group, s.sched.status j = .runnable

theorem Arranged.geometry (arranged : Arranged env pos group wait s i) :
    s.geometry env = env.config.geometry 0 := by
  rw [Launch.geometry, arranged.first]

omit [BEq V] in
theorem Conversing.choosing (conversing : Conversing env calls) (choicesOf : Nat → Choices) :
    Conversing (env.choosing choicesOf) calls :=
  ⟨conversing.kernel, conversing.checked, conversing.typed⟩

theorem Conversing.charted (conversing : Conversing env calls) (led : Led env s) (live : Live s) :
    Charted env (courseOfCalls calls) s := by
  obtain ⟨n, plan, rfl⟩ := led.state
  exact (charted_run (conversing.choosing _).along live).of_choosing

theorem Arranged.inside (arranged : Arranged env pos group wait s i) :
    i < (s.geometry env).total := by
  obtain ⟨n, plan, rfl⟩ := arranged.led.state
  exact ((wellFormed arranged.live).running arranged.current).1

/-- A lane leaves a collective without giving up the turn. -/
theorem Arranged.leave (arranged : Arranged env pos group wait s i)
    (conversing : Conversing env calls) (away : i ∉ group)
    {c : Collective V} {a : Resp V} (pc : (s.threads i).pc = .departed c a) :
    Arranged env pos group wait (s.answer i a) i := by
  have charted := conversing.charted arranged.led arranged.live
  refine ⟨?_, arranged.live, arranged.first, arranged.current, ?_, arranged.parked, arranged.free⟩
  · refine arranged.led.stay arranged.live arranged.current rfl fun choices => ?_
    have same : ((s.choosing choices).threads i).pc = .departed c a := pc
    simp only [resume, same]
    exact ⟨_, rfl⟩
  · rw [← arranged.position]
    exact charted.standing.position_of_leave (arranged.free i away) pc ⟨rfl, rfl, .refl _⟩

/-- A lane at the start of a call is given the turn again past its schedule point. -/
theorem Arranged.call (arranged : Arranged env pos group wait s i) (away : i ∉ group)
    {c : Collective V} (pc : (s.threads i).pc = .ready) (op : s.nextOp env i = .warp c) :
    ∃ s', Arranged env pos group wait s' i ∧ (s'.threads i).pc = .atCollective c := by
  obtain ⟨sched, led, current, live, rests⟩ := arranged.led.hand (t := s.setPc i (.atCollective c))
    (u := s.sched) arranged.live arranged.current arranged.inside (arranged.free i away)
    fun choices => by
      have same : ((s.choosing choices).threads i).pc = .ready := pc
      have next : env.kernel ((s.choosing choices).ctx env i).block
          ((s.choosing choices).ctx env i).thread ((s.choosing choices).threads i).answers =
            .warp c := op
      simp only [resume, same, next, dispatch]
      exact ⟨_, rfl⟩
  refine ⟨_, ⟨led, live.trans arranged.live, arranged.first, current, ?_, fun j member => ?_,
    fun j outside => ?_⟩, by simp⟩
  · rw [← arranged.position]
    have stands : Stands ((s.setPc i (.atCollective c)).turn sched) (s.setPc i (.atCollective c))
        s.sched := ⟨rfl, rfl, rests⟩
    refine position_of_stands stands (fun _ _ => rfl) ?_
    rw [pc]
    rfl
  · rw [turn_sched, rests.status, rests.warpWait]
    exact arranged.parked j member
  · rw [turn_sched, rests.status]
    exact arranged.free j outside

/-- A lane that has come to a half of a collective can go up to the moment it parks. -/
theorem Arranged.approach (arranged : Arranged env pos group wait s i)
    (conversing : Conversing env calls) (away : i ∉ group) {block warp : Nat}
    (stage : (env.config.meeting (courseOfCalls calls) 0).seq i (pos i) = .half block warp w) :
    ∃ s' pc', Arranged env pos group wait s' i ∧
      Joins (s'.geometry env) i (s'.threads i).pc pc' w := by
  -- Where the lane has passed its schedule point it stands at the half of that call.
  have joining : ∀ {t : Launch V} {pc' : Pc V} {w' : WarpWait}, Arranged env pos group wait t i →
      Joins (t.geometry env) i (t.threads i).pc pc' w' →
      ∃ s' pc', Arranged env pos group wait s' i ∧
        Joins (s'.geometry env) i (s'.threads i).pc pc' w := by
    intro t pc' w' there joins
    have charted := conversing.charted there.led there.live
    have here := charted.standing.stage_of_joins charted.along there.inside (there.free i away) joins
    rw [meeting_first there.first, there.position, stage] at here
    obtain ⟨-, -, rfl⟩ := Stage.half.inj here
    exact ⟨t, pc', there, joins⟩
  have calling : ∀ {t : Launch V}, Arranged env pos group wait t i → (t.threads i).pc = .ready →
      ∃ s' pc', Arranged env pos group wait s' i ∧
        Joins (s'.geometry env) i (s'.threads i).pc pc' w := by
    intro t there pc
    have charted := conversing.charted there.led there.live
    rcases conversing.nextOp_cases t i with ⟨-, ret⟩ | ⟨-, c, -, call⟩
    · have here := charted.along.first there.inside (m := .exit) (by rw [ret]; rfl)
      have position : t.position env i = 2 * (t.behind env i).length := by
        rw [Launch.position, pc]
        rfl
      rw [← position, meeting_first there.first, there.position, stage] at here
      cases here
    · obtain ⟨t', there', pc'⟩ := there.call away pc call
      have charted' := conversing.charted there'.led there'.live
      have asked := charted'.standing.asked i
      rw [pc'] at asked
      have joins : Joins (t'.geometry env) i (t'.threads i).pc (.arrived c) (c.wait .arrive) := by
        rw [pc']
        exact .arrive c (conversing.passes asked)
      exact joining there' joins
  have charted := conversing.charted arranged.led arranged.live
  have asked := charted.standing.asked i
  cases pc : (s.threads i).pc with
  | ready => exact calling arranged pc
  | atCollective c =>
    rw [pc] at asked
    have joins : Joins (s.geometry env) i (s.threads i).pc (.arrived c) (c.wait .arrive) := by
      rw [pc]
      exact .arrive c (conversing.passes asked)
    exact joining arranged joins
  | arrived c =>
    have joins : Joins (s.geometry env) i (s.threads i).pc (.departed c .unit) (c.wait .depart) := by
      rw [pc]
      exact .depart c .unit
    exact joining arranged joins
  | departed c a =>
    have left := arranged.leave conversing away pc
    exact calling left (by simp)
  | atAccess m =>
    rw [pc] at asked
    rcases conversing.nextOp_cases s i with ⟨-, ret⟩ | ⟨-, c, -, call⟩
    · cases asked.symm.trans ret
    · cases asked.symm.trans call
  | atBarrier gen =>
    rw [pc] at asked
    obtain ⟨loc, op⟩ := asked
    rcases conversing.nextOp_cases s i with ⟨-, ret⟩ | ⟨-, c, -, call⟩
    · cases op.symm.trans ret
    · cases op.symm.trans call

/-- A lane that joins a half goes into its rendezvous, whatever the source of decisions. -/
theorem Arranged.rendezvous (arranged : Arranged env pos group wait s i)
    (conversing : Conversing env calls) (away : i ∉ group) {pc' : Pc V}
    (joins : Joins (s.geometry env) i (s.threads i).pc pc' w) :
    ∃ (t : Launch V) (pc'' : Pc V), t.firstBlock = s.firstBlock ∧
      t.threads = (s.setPc i pc'').threads ∧ (∃ ds, t.raised = s.raised ++ ds) ∧
      Joins (s.geometry env) i (s.threads i).pc pc'' w ∧
      ∀ choices, ∃ l, (s.choosing choices).resume env i = (l, t.withSched
        (Scheduler.warpRendezvous (s.geometry env) i w (s.sched.choosing choices))) := by
  cases pc : (s.threads i).pc with
  | atCollective c =>
    rw [pc] at joins
    cases joins with
    | arrive _ checked =>
      refine ⟨(s.slotted env (s.ctx env i) c).setPc i (.arrived c), .arrived c, rfl, rfl,
        ⟨[], (List.append_nil _).symm⟩, .arrive c checked, fun choices => ?_⟩
      have same : ((s.choosing choices).threads i).pc = .atCollective c := pc
      have passes : c.laneProblem (((s.choosing choices).geometry env).validMask
          ((s.choosing choices).ctx env i).warp) ((s.choosing choices).ctx env i).lane = none :=
        checked
      simp only [resume, same, publish, passes]
      exact ⟨_, rfl⟩
  | arrived c =>
    rw [pc] at joins
    cases joins with
    | depart _ _ =>
      have free := arranged.free i away
      obtain ⟨answer, problems, combined⟩ : ∃ answer problems, c.combine env.typeTag
          env.config.warpSize (s.ctx env i).lane (s.slots (warpIndex env (s.ctx env i))) =
            .ok (answer, problems) := by
        obtain ⟨n, plan, rfl⟩ := arranged.led.state
        exact (conversing.choosing _).combines (standing_run arranged.live)
          (gathered_run arranged.live) (slotsHeld _ arranged.live) pc free
      refine ⟨(s.report (laneReports (s.ctx env i) c problems)).setPc i (.departed c answer),
        .departed c answer, rfl, rfl, ⟨_, rfl⟩, .depart c answer, fun choices => ?_⟩
      have same : ((s.choosing choices).threads i).pc = .arrived c := pc
      have fine : c.combine env.typeTag env.config.warpSize ((s.choosing choices).ctx env i).lane
          ((s.choosing choices).slots (warpIndex env ((s.choosing choices).ctx env i))) =
            .ok (answer, problems) := combined
      simp only [resume, same, exchange, fine]
      exact ⟨_, rfl⟩
  | _ =>
    rw [pc] at joins
    cases joins

/-- It parks while somebody its mask names is elsewhere, and lets the group go otherwise: nobody
has returned, and nobody is parked for anything else. -/
theorem Arranged.enters (arranged : Arranged env pos group w s i) :
    ((∀ p, Mate (s.geometry env) i w.mask p → p ∈ group) ∧
        Scheduler.rendezvousEnter (s.geometry env) i w s.sched =
          (Scheduler.rendezvousReleased (s.geometry env) i w s.sched, [])) ∨
      ((∃ p, Mate (s.geometry env) i w.mask p ∧ p ∉ group) ∧
        Scheduler.rendezvousEnter (s.geometry env) i w s.sched =
          (Scheduler.rendezvousParked i w s.sched, [])) := by
  rcases Scheduler.rendezvousEnter_cases (s.geometry env) i w s.sched with
    ⟨p, -, finished, -⟩ | ⟨-, p, other, ⟨-, -, here, waits, -, -, masks, -⟩, -⟩ |
    ⟨-, everyone, enter⟩ | ⟨-, -, ⟨p, mate, absent⟩, enter⟩
  · by_cases member : p ∈ group
    · cases finished.symm.trans (arranged.parked p member).1
    · cases finished.symm.trans (arranged.free p member)
  · by_cases member : p ∈ group
    · obtain rfl := Option.some.inj (waits.symm.trans (arranged.parked p member).2)
      exact absurd rfl masks
    · cases here.symm.trans (arranged.free p member)
  · refine .inl ⟨fun p mate => ?_, enter⟩
    by_contra outside
    cases (everyone p mate).1.symm.trans (arranged.free p outside)
  · exact .inr ⟨⟨p, mate, fun member => absent (arranged.parked p member)⟩, enter⟩

/-- The lane parks, and the turn goes to any lane that is not parked. -/
theorem Arranged.park (arranged : Arranged env pos group w s i) (conversing : Conversing env calls)
    (away : i ∉ group) {pc' : Pc V} (joins : Joins (s.geometry env) i (s.threads i).pc pc' w)
    (absent : ∃ p, Mate (s.geometry env) i w.mask p ∧ p ∉ group)
    (inside : k < (s.geometry env).total) (next : k ∉ insert i group) :
    ∃ s', Arranged env pos (insert i group) w s' k := by
  obtain ⟨t, pc'', firstBlock, threads, -, joins, resumes⟩ :=
    arranged.rendezvous conversing away joins
  rcases arranged.enters with ⟨everyone, -⟩ | ⟨-, enter⟩
  · obtain ⟨p, mate, outside⟩ := absent
    exact absurd (everyone p mate) outside
  have elsewhere : ∀ j, j ≠ i →
      (Scheduler.rendezvousParked i w s.sched).status j = s.sched.status j ∧
        (Scheduler.rendezvousParked i w s.sched).warpWait j = s.sched.warpWait j :=
    fun j other => ⟨Function.update_of_ne other .., Function.update_of_ne other ..⟩
  have outside : ∀ j, j ∉ insert i group →
      (Scheduler.rendezvousParked i w s.sched).status j = .runnable := by
    intro j out
    rw [(elsewhere j fun same => out (.inl same)).1]
    exact arranged.free j fun member => out (.inr member)
  obtain ⟨sched, led, current, live, rests⟩ := arranged.led.hand (t := t)
    (u := Scheduler.rendezvousParked i w s.sched) arranged.live arranged.current inside
    (outside k next) fun choices => by
      obtain ⟨l, resumes⟩ := resumes choices
      refine ⟨l, ?_⟩
      rw [resumes, Scheduler.warpRendezvous, Scheduler.handOffUnlessFailed_of_enter
        (Scheduler.rendezvousEnter_undecided _ i w) enter arranged.live]
  refine ⟨t.turn sched, led, live.trans arranged.live, firstBlock.trans arranged.first, current,
    ?_, ?_, fun j out => ?_⟩
  · rw [← arranged.position]
    have stands : Stands (t.turn sched) (s.setPc i pc'') (Scheduler.rendezvousParked i w s.sched) :=
      ⟨firstBlock, threads, rests⟩
    refine position_of_stands stands (fun j other => (elsewhere j other).1) ?_
    rw [show (Scheduler.rendezvousParked i w s.sched).status i = .atWarp from
      Function.update_self .., joins.halves.1, arranged.free i away]
  · rintro j (rfl | member)
    · rw [turn_sched, rests.status, rests.warpWait]
      exact ⟨Function.update_self .., Function.update_self ..⟩
    · have other : j ≠ i := fun same => away (same ▸ member)
      rw [turn_sched, rests.status, rests.warpWait, (elsewhere j other).1, (elsewhere j other).2]
      exact arranged.parked j member
  · rw [turn_sched, rests.status]
    exact outside j out

/-- The last lane of the group lets it go, and the turn goes to any lane. -/
theorem Arranged.release (arranged : Arranged env pos group w s i)
    (conversing : Conversing env calls) (away : i ∉ group) {pc' : Pc V}
    (joins : Joins (s.geometry env) i (s.threads i).pc pc' w)
    (whole : ∀ p, Mate (s.geometry env) i w.mask p ↔ p ∈ group)
    (inside : k < (s.geometry env).total) :
    ∃ s' pos', Arranged env pos' ∅ w s' k ∧
      (env.config.meeting (courseOfCalls calls) 0).Moves
        (.half ((s.geometry env).blockOf i) ((s.geometry env).warpOf i) w) pos pos' := by
  have charted := conversing.charted arranged.led arranged.live
  obtain ⟨t, pc'', firstBlock, threads, -, joins, resumes⟩ :=
    arranged.rendezvous conversing away joins
  rcases arranged.enters with ⟨-, enter⟩ | ⟨⟨p, mate, outside⟩, -⟩
  swap
  · exact absurd ((whole p).mp mate) outside
  have named := charted.standing.names joins
  have free : ∀ j, (Scheduler.rendezvousReleased (s.geometry env) i w s.sched).status j =
      .runnable := by
    intro j
    by_cases member : j ∈ (s.geometry env).members ((s.geometry env).blockOf i)
        ((s.geometry env).warpOf i) w.mask
    · simp [Scheduler.rendezvousReleased, Scheduler.setAll, member]
    · have other : j ≠ i := by
        rintro rfl
        exact member ((s.geometry env).mem_members.mpr ⟨rfl, rfl, named⟩)
      have out : j ∉ group := by
        intro inside
        obtain ⟨⟨block, warp⟩, names, -⟩ := (whole j).mpr inside
        exact member ((s.geometry env).mem_members.mpr ⟨block, warp, names⟩)
      simp [Scheduler.rendezvousReleased, Scheduler.setAll, member, other, arranged.free j out]
  obtain ⟨sched, led, current, live, rests⟩ := arranged.led.hand (t := t)
    (u := Scheduler.rendezvousReleased (s.geometry env) i w s.sched) arranged.live arranged.current
    inside (free k) fun choices => by
      obtain ⟨l, resumes⟩ := resumes choices
      refine ⟨l, ?_⟩
      rw [resumes, Scheduler.warpRendezvous, Scheduler.handOffUnlessFailed_of_enter
        (Scheduler.rendezvousEnter_undecided _ i w) enter arranged.live]
  have stands : Stands (t.turn sched) (s.setPc i pc'')
      (Scheduler.rendezvousReleased (s.geometry env) i w s.sched) := ⟨firstBlock, threads, rests⟩
  have moves := charted.standing.gather_meets charted.along arranged.inside (arranged.free i away)
    joins (fun p mate => arranged.parked p ((whole p).mp mate)) stands
  rw [meeting_first arranged.first, arranged.position] at moves
  refine ⟨t.turn sched, _, ⟨led, live.trans arranged.live, firstBlock.trans arranged.first, current,
    rfl, fun j none => none.elim, fun j _ => ?_⟩, moves⟩
  rw [turn_sched, rests.status]
  exact free j

/-- The lanes of a half that have all come to it are brought together one after the other. -/
theorem Arranged.bring (conversing : Conversing env calls) {block warp : Nat}
    (present : ∀ j ∈ (env.config.meeting (courseOfCalls calls) 0).members (.half block warp w),
      (env.config.meeting (courseOfCalls calls) 0).seq j (pos j) = .half block warp w)
    (inside : k < (env.config.geometry 0).total) (rest : List Nat) :
    ∀ me group s, Arranged env pos group w s me → (me :: rest).Nodup → me ∉ group →
      (∀ j ∈ rest, j ∉ group) →
      (∀ j, j ∈ (env.config.meeting (courseOfCalls calls) 0).members (.half block warp w) ↔
        j ∈ group ∨ j = me ∨ j ∈ rest) →
      ∃ s' pos', Arranged env pos' ∅ w s' k ∧
        (env.config.meeting (courseOfCalls calls) 0).Moves (.half block warp w) pos pos' := by
  induction rest with
  | nil =>
    intro me group s arranged _ away _ members
    have own := (members me).mpr (.inr (.inl rfl))
    obtain ⟨s₁, pc', arranged, joins⟩ := arranged.approach conversing away (present me own)
    have same := arranged.geometry
    obtain ⟨-, rfl, rfl, -⟩ := own
    have whole : ∀ p, Mate (s₁.geometry env) me w.mask p ↔ p ∈ group := by
      intro p
      rw [same]
      constructor
      · rintro ⟨⟨block, warp⟩, named, other⟩
        have exists_ : p < (env.config.geometry 0).total := by
          refine (env.config.geometry 0).lt_total_of_blockOf ?_
          rw [block]
          exact (env.config.geometry 0).blockOf_lt (same ▸ arranged.inside)
        rcases (members p).mp ⟨exists_, block, warp, named⟩ with member | rfl | none
        · exact member
        · exact absurd rfl other
        · cases none
      · intro member
        obtain ⟨-, block, warp, named⟩ := (members p).mpr (.inl member)
        exact ⟨⟨block, warp⟩, named, fun me_ => away (me_ ▸ member)⟩
    have released := arranged.release conversing away joins whole (same ▸ inside)
    rwa [same] at released
  | cons r rest ih =>
    intro me group s arranged distinct away others members
    have own := (members me).mpr (.inr (.inl rfl))
    have theirs := (members r).mpr (.inr (.inr List.mem_cons_self))
    obtain ⟨fresh, distinct⟩ := List.nodup_cons.mp distinct
    have apart : r ≠ me := fun same => fresh (same ▸ List.mem_cons_self)
    obtain ⟨s₁, pc', arranged, joins⟩ := arranged.approach conversing away (present me own)
    have same := arranged.geometry
    have next : r ∉ insert me group := by
      rintro (mine | member)
      · exact apart mine
      · exact others r List.mem_cons_self member
    obtain ⟨s₂, arranged⟩ := arranged.park conversing away joins
      ⟨r, same ▸ ⟨⟨theirs.2.1.trans own.2.1.symm, theirs.2.2.1.trans own.2.2.1.symm⟩,
        theirs.2.2.2, apart⟩, others r List.mem_cons_self⟩ (same ▸ theirs.1) next
    refine ih r (insert me group) s₂ arranged distinct next (fun j member => ?_) fun j => ?_
    · rintro (rfl | parked)
      · exact fresh (List.mem_cons_of_mem _ member)
      · exact others j (List.mem_cons_of_mem _ member) parked
    · rw [members j, List.mem_cons, Set.mem_insert_iff]
      tauto

omit [BEq V] in
/-- What the calls of a thread come to is a half of a collective of its own warp, or the end. -/
theorem seq_calls (c : Config) (calls : Nat → Nat → List (Collective V)) (i k : Nat) :
    (c.meeting (courseOfCalls calls) 0).seq i k = .exit ∨
      ∃ w, (c.meeting (courseOfCalls calls) 0).seq i k =
        .half ((c.geometry 0).blockOf i) ((c.geometry 0).warpOf i) w := by
  have milestone : c.courseAt (courseOfCalls calls) 0 i (k / 2) ≠ .barrier :=
    courseOfCalls_ne_barrier calls _ _ _
  simp only [Config.meeting]
  cases here : c.courseAt (courseOfCalls calls) 0 i (k / 2) with
  | barrier => exact absurd here milestone
  | exit => exact .inl (by split <;> rfl)
  | collective mask loc op =>
    right
    split
    · exact ⟨_, rfl⟩
    · exact ⟨_, rfl⟩

/-- Whatever order the calls can take place in is one of a schedule. -/
theorem Conversing.arranged_of_reached (conversing : Conversing env calls)
    (reached : (env.config.meeting (courseOfCalls calls) 0).Reached pos) :
    ∀ w k, k < (env.config.geometry 0).total → ∃ s, Arranged env pos ∅ w s k := by
  classical
  induction reached with
  | start =>
    intro w k inside
    obtain ⟨sched, led, current, live, free⟩ := Led.start inside
    refine ⟨_, led, live, rfl, current, ?_, fun j none => none.elim, fun j _ => free j⟩
    funext j
    rfl
  | @move pos pos' e reached moves ih =>
    intro w k inside
    let group := (List.range (env.config.geometry 0).total).filter fun j =>
      j ∈ (env.config.meeting (courseOfCalls calls) 0).members e
    have listed : ∀ j, j ∈ group ↔
        j ∈ (env.config.meeting (courseOfCalls calls) 0).members e := by
      intro j
      rw [List.mem_filter, List.mem_range, decide_eq_true_eq]
      refine and_iff_right_of_imp fun member => ?_
      cases e with
      | exit => cases member
      | _ => exact member.1
    have distinct : group.Nodup := List.nodup_range.filter _
    clear_value group
    cases group with
    | nil =>
      have same : pos' = pos := by
        funext j
        exact moves.others j fun member => by cases (listed j).mpr member
      rw [same]
      exact ih w k inside
    | cons first rest =>
      have own := (listed first).mp List.mem_cons_self
      have here := moves.present first own
      rcases seq_calls env.config calls first (pos first) with at_exit | ⟨w', at_half⟩
      · rw [at_exit] at here
        subst here
        cases own
      · rw [at_half] at here
        subst here
        obtain ⟨s, arranged⟩ := ih w' first own.1
        obtain ⟨s', after, arranged', moves'⟩ := Arranged.bring conversing
          moves.present inside rest first ∅ s arranged distinct (Set.notMem_empty _)
          (fun j _ => Set.notMem_empty j) fun j => by
            rw [← listed j, List.mem_cons]
            exact (or_iff_right (Set.notMem_empty j)).symm
        have same : pos' = after := by
          funext j
          by_cases member : j ∈ (env.config.meeting (courseOfCalls calls) 0).members
              (.half ((env.config.geometry 0).blockOf first) ((env.config.geometry 0).warpOf first) w')
          · rw [moves.moved j member, moves'.moved j member]
          · rw [moves.others j member, moves'.others j member]
        rw [same]
        exact ⟨s', { arranged' with parked := fun j none => none.elim }⟩

/-! ### Lanes that return -/

variable {lanes gone : Set Nat}

/-- A schedule has led the wave to where these lanes have their calls behind them, with the turn
at `i` and exactly the threads of `gone` back from the kernel. -/
structure Returning (env : Env V) (calls : Nat → Nat → List (Collective V)) (lanes gone : Set Nat)
    (s : Launch V) (i : Nat) : Prop where
  led : Led env s
  live : Live s
  first : s.firstBlock = 0
  current : s.sched.current = some i
  ended : ∀ j ∈ gone, s.sched.status j = .finished
  free : ∀ j ∉ gone, s.sched.status j = .runnable
  exits : ∀ j ∈ lanes,
    (env.config.meeting (courseOfCalls calls) 0).seq j (s.position env j) = .exit

theorem Arranged.returning (arranged : Arranged env pos ∅ wait s i)
    (exits : ∀ j ∈ lanes, (env.config.meeting (courseOfCalls calls) 0).seq j (pos j) = .exit) :
    Returning env calls lanes ∅ s i where
  led := arranged.led
  live := arranged.live
  first := arranged.first
  current := arranged.current
  ended _ member := member.elim
  free := arranged.free
  exits := by
    rw [arranged.position]
    exact exits

theorem Returning.inside (returning : Returning env calls lanes gone s i) :
    i < (s.geometry env).total := by
  have live := returning.live
  have current := returning.current
  obtain ⟨n, plan, rfl⟩ := returning.led.state
  exact ((wellFormed live).running current).1

/-- A lane with its calls behind it comes to its return without giving up the turn. -/
theorem Returning.ready (returning : Returning env calls lanes gone s i)
    (conversing : Conversing env calls) (lane : i ∈ lanes) (stays : i ∉ gone) :
    ∃ s', Returning env calls lanes gone s' i ∧ (s'.threads i).pc = .ready ∧
      s'.nextOp env i = .ret := by
  have charted := conversing.charted returning.led returning.live
  have asked := charted.standing.asked i
  have running := returning.free i stays
  have exits := returning.exits i lane
  have returns : ∀ {t : Launch V}, Returning env calls lanes gone t i →
      (t.threads i).pc = .ready → t.nextOp env i = .ret := by
    intro t there pc
    rcases conversing.nextOp_cases t i with ⟨-, ret⟩ | ⟨-, c, -, call⟩
    · exact ret
    · have along := (conversing.charted there.led there.live).along
      have here := along.first there.inside (m := .collective c.mask c.loc c.exchange.op)
        (by rw [call]; rfl)
      have position : t.position env i = 2 * (t.behind env i).length := by
        rw [Launch.position, pc]
        rfl
      rw [← position, meeting_first there.first, there.exits i lane] at here
      cases here
  have outside : ∀ {pc' : Pc V} {w' : WarpWait},
      ¬ Joins (s.geometry env) i (s.threads i).pc pc' w' := by
    intro pc' w' joins
    have here := charted.standing.stage_of_joins charted.along returning.inside running joins
    rw [meeting_first returning.first, exits] at here
    cases here
  cases pc : (s.threads i).pc with
  | ready => exact ⟨s, returning, pc, returns returning pc⟩
  | departed c a =>
    have left : Returning env calls lanes gone (s.answer i a) i := by
      refine ⟨?_, returning.live, returning.first, returning.current, returning.ended,
        returning.free, ?_⟩
      · refine returning.led.stay returning.live returning.current rfl fun choices => ?_
        have same : ((s.choosing choices).threads i).pc = .departed c a := pc
        simp only [resume, same]
        exact ⟨_, rfl⟩
      · rw [charted.standing.position_of_leave running pc ⟨rfl, rfl, .refl _⟩]
        exact returning.exits
    exact ⟨_, left, by simp, returns left (by simp)⟩
  | atCollective c =>
    rw [pc] at asked outside
    exact absurd (.arrive c (conversing.passes asked)) outside
  | arrived c =>
    rw [pc] at outside
    exact absurd (.depart c .unit) outside
  | atAccess m =>
    rw [pc] at asked
    rcases conversing.nextOp_cases s i with ⟨-, ret⟩ | ⟨-, c, -, call⟩
    · cases asked.symm.trans ret
    · cases asked.symm.trans call
  | atBarrier gen =>
    rw [pc] at asked
    obtain ⟨loc, op⟩ := asked
    rcases conversing.nextOp_cases s i with ⟨-, ret⟩ | ⟨-, c, -, call⟩
    · cases op.symm.trans ret
    · cases op.symm.trans call

/-- It returns, and the turn goes to any thread that has not. -/
theorem Returning.return (returning : Returning env calls lanes gone s i) (stays : i ∉ gone)
    (pc : (s.threads i).pc = .ready) (op : s.nextOp env i = .ret)
    (inside : k < (s.geometry env).total) (next : k ∉ insert i gone) :
    ∃ s', Returning env calls lanes (insert i gone) s' k := by
  have elsewhere : ∀ j, j ≠ i →
      (Scheduler.finishMarked i s.sched).status j = s.sched.status j :=
    fun j other => Function.update_of_ne other ..
  have free : ∀ j ∉ insert i gone, (Scheduler.finishMarked i s.sched).status j = .runnable := by
    intro j outside
    rw [elsewhere j fun same => outside (.inl same)]
    exact returning.free j fun member => outside (.inr member)
  -- Nobody is parked whom the return could strand.
  have unparked : ∀ j, s.sched.status j = .finished ∨ s.sched.status j = .runnable := by
    intro j
    by_cases member : j ∈ gone
    · exact .inl (returning.ended j member)
    · exact .inr (returning.free j member)
  have enter : Scheduler.finishEnter (s.geometry env) i s.sched =
      (Scheduler.finishMarked i s.sched, []) := by
    rcases Scheduler.finishEnter_cases (s.geometry env) i s.sched with
      ⟨p, wait, ⟨-, -, parked, -⟩, -⟩ | ⟨-, ⟨j, -, -, parked⟩, -⟩ | ⟨-, -, enter⟩
    · rcases unparked p with ended | running
      · cases parked.symm.trans ended
      · cases parked.symm.trans running
    · rcases unparked j with ended | running
      · cases parked.symm.trans ended
      · cases parked.symm.trans running
    · exact enter
  have someone : Scheduler.runnable (s.geometry env) (Scheduler.finishMarked i s.sched) ≠ [] :=
    List.ne_nil_of_mem ((Scheduler.mem_runnable _).mpr ⟨inside, free k next⟩)
  obtain ⟨sched, led, current, live, rests⟩ := returning.led.hand (t := s)
    (u := Scheduler.finishMarked i s.sched) returning.live returning.current inside (free k next)
    fun choices => by
      have same : ((s.choosing choices).threads i).pc = .ready := pc
      have returns : env.kernel ((s.choosing choices).ctx env i).block
          ((s.choosing choices).ctx env i).thread ((s.choosing choices).threads i).answers =
            .ret := op
      simp only [resume, same, returns, dispatch]
      exact ⟨_, congrArg (Prod.mk _ ∘ s.withSched)
        (Scheduler.finish_of_enter enter returning.live someone choices)⟩
  refine ⟨s.turn sched, led, live.trans returning.live, returning.first, current, ?_, fun j out => ?_,
    ?_⟩
  · rintro j (rfl | member)
    · rw [turn_sched, rests.status]
      exact Function.update_self ..
    · rw [turn_sched, rests.status, elsewhere j fun same => stays (same ▸ member)]
      exact returning.ended j member
  · rw [turn_sched, rests.status]
    exact free j out
  · have position : (s.turn sched).position env = s.position env := by
      refine position_of_own rfl (fun j (own : j ≠ i) => ⟨rfl, ?_⟩) ?_
      · rw [turn_sched, rests.status, elsewhere j own]
      · simp only [Launch.position, show ((s.turn sched).threads i).pc = .ready from pc, pc]
        rfl
    rw [position]
    exact returning.exits

/-- One after the other the lanes return, the last of them in the next step. -/
theorem Returning.all (conversing : Conversing env calls) (rest : List Nat) :
    ∀ me gone s, Returning env calls lanes gone s me → (me :: rest).Nodup → me ∉ gone →
      (∀ j ∈ rest, j ∉ gone ∧ j < (env.config.geometry 0).total) →
      (∀ j ∈ lanes, j ∈ gone ∨ j = me ∨ j ∈ rest) → me ∈ lanes → (∀ j ∈ rest, j ∈ lanes) →
      ∃ gone' s' i, Returning env calls lanes gone' s' i ∧ (s'.threads i).pc = .ready ∧
        s'.nextOp env i = .ret ∧ ∀ j ∈ lanes, j ∈ gone' ∨ j = i := by
  induction rest with
  | nil =>
    intro me gone s returning _ stays _ covered own _
    obtain ⟨s', ready, pc, op⟩ := returning.ready conversing own stays
    refine ⟨gone, s', me, ready, pc, op, fun j member => ?_⟩
    simpa using covered j member
  | cons r rest ih =>
    intro me gone s returning distinct stays others covered own lanes
    obtain ⟨fresh, distinct⟩ := List.nodup_cons.mp distinct
    obtain ⟨s₁, ready, pc, op⟩ := returning.ready conversing own stays
    obtain ⟨away, inside⟩ := others r List.mem_cons_self
    have apart : ∀ j ∈ r :: rest, j ∉ insert me gone := by
      rintro j member (rfl | early)
      · exact fresh member
      · exact (others j member).1 early
    have exists_ : r < (s₁.geometry env).total := by
      rw [Launch.geometry, ready.first]
      exact inside
    obtain ⟨s₂, returning⟩ := ready.return stays pc op exists_ (apart r List.mem_cons_self)
    refine ih r (insert me gone) s₂ returning distinct (apart r List.mem_cons_self)
      (fun j member => ⟨apart j (List.mem_cons_of_mem _ member),
        (others j (List.mem_cons_of_mem _ member)).2⟩) (fun j member => ?_)
      (lanes r List.mem_cons_self) fun j member => lanes j (List.mem_cons_of_mem _ member)
    have before := covered j member
    simp only [List.mem_cons] at before
    simp only [Set.mem_insert_iff]
    tauto

end Riri.Launch
