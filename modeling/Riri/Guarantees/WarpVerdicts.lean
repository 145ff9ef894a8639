import Riri.Guarantees.AbortCause
import Riri.Guarantees.WarpOrders
import Riri.Guarantees.WaveCoverage

/-!
# Who parks first and the verdict on a warp

The check of a collective's mask looks at the lanes that are parked when another lane comes. A
group with one mask can come and go before a lane with another mask is there, or meet it, and
only in the second case a mismatch is reported. So there are warps that end well under one
schedule and are reported under another: those whose lanes can all make their calls although on
the way two of them can be at one place with masks that disagree about one of them. All others
have one verdict.
-/
namespace Riri

/-- How many steps into its call a lane is. -/
def Pc.taken {V : Type} : Pc V → Nat
  | .ready | .atAccess _ | .atBarrier _ => 0
  | .atCollective _ => 1
  | .arrived _ => 2
  | .departed _ _ => 3

/-- The warp whose lanes a finding says do not come together. -/
def Diagnostic.split? : Diagnostic → Option (Nat × Nat)
  | .warpDivergence block warp .. | .warpMaskMismatch block warp .. => some (block, warp)
  | _ => none

namespace Config

variable (c : Config) (course : Course) (block warp : Nat)

def lanes : Set Nat :=
  {i | i < (c.geometry 0).total ∧ (c.geometry 0).blockOf i = block ∧ (c.geometry 0).warpOf i = warp}

/-- In some order of the milestones the lanes of the warp come to their ends. -/
def Completable : Prop :=
  ∃ x, (c.meeting course 0).Reached x ∧
    ∀ i ∈ c.lanes block warp, (c.meeting course 0).seq i (x i) = .exit

/-- In some order of the milestones two lanes of the warp come to the same place at the same time
with different masks, one of which names the other lane. -/
def Clashes : Prop :=
  ∃ x i j wait other, (c.meeting course 0).Reached x ∧ i ∈ c.lanes block warp ∧
    j ∈ c.lanes block warp ∧
    (c.meeting course 0).seq i (x i) = .half block warp wait ∧
    (c.meeting course 0).seq j (x j) = .half block warp other ∧
    other.phase = wait.phase ∧ other.loc = wait.loc ∧ other.mask ≠ wait.mask ∧
    other.mask.names ((c.geometry 0).laneOf i) = true

end Config

namespace Launch

open Scheduler (Mate MadeFor Founded)

variable {V : Type} [BEq V]

variable (env : Env V) (block warp : Nat)

/-- A lane of the warp is reported missing, or two of its lanes disagree about who takes part. -/
def Reported : Prop := ∃ n d, RaisedAt env n d ∧ d.split? = some (block, warp)

def Returned : Prop :=
  ∀ i ∈ env.config.lanes block warp, ∃ n, ReturnsAt env block (i % env.config.threadsPerBlock) n

/-- All lanes of the warp return, and no such report is made of it. -/
def Completes : Prop := ¬ Reported env block warp ∧ Returned env block warp

/-- The report of another warp has stopped the launch before there was a verdict on this one. -/
def CutShort : Prop :=
  ¬ Reported env block warp ∧ ¬ Returned env block warp ∧
    ∃ other, other ≠ (block, warp) ∧ Reported env other.1 other.2

/-- The verdict on the warp is the same under every schedule that is not cut short. -/
def SameVerdict : Prop :=
  (∀ choicesOf, Completes (env.choosing choicesOf) block warp ∨
      CutShort (env.choosing choicesOf) block warp) ∨
    ∀ choicesOf, Reported (env.choosing choicesOf) block warp ∨
      CutShort (env.choosing choicesOf) block warp

variable {env} {block warp} {calls : Nat → Nat → List (Collective V)}

/-! ### Every run comes to an end -/

/-- What a thread has left to do: four steps for each call, less those it has taken, and one to
return. -/
def leftOf (env : Env V) (calls : Nat → Nat → List (Collective V)) (s : Launch V) (i : Nat) :
    Nat :=
  4 * ((callsOf env calls s i).length - (s.threads i).answers.length) +
    (if s.sched.status i = .finished then 0 else 1) - (s.threads i).pc.taken

variable {s s' : Launch V} {i me : Nat}

omit [BEq V] in
theorem leftOf_eq {t : Thread V} (firstBlock : s'.firstBlock = s.firstBlock)
    (thread : s'.threads i = t) : leftOf env calls s' i =
      4 * ((callsOf env calls s i).length - t.answers.length) +
        (if s'.sched.status i = .finished then 0 else 1) - t.pc.taken := by
  have same : callsOf env calls s' i = callsOf env calls s i := by
    simp only [callsOf, ctx, firstBlock]
  rw [leftOf, same, thread]

omit [BEq V] in
theorem leftOf_le (firstBlock : s'.firstBlock = s.firstBlock) (thread : s'.threads i = s.threads i)
    (ended : s.sched.status i = .finished → s'.sched.status i = .finished) :
    leftOf env calls s' i ≤ leftOf env calls s i := by
  rw [leftOf_eq firstBlock thread, leftOf]
  refine Nat.sub_le_sub_right (Nat.add_le_add_left ?_ _) _
  split
  · exact Nat.zero_le _
  next awake => rw [if_neg fun before => awake (ended before)]

omit [BEq V] in
/-- Every step of a thread takes it on. -/
theorem Talks.leftOf_lt (conversing : Conversing env calls) (standing : Standing env s)
    (running : s.sched.status me = .runnable) (talks : Talks env s me s') :
    leftOf env calls s' me < leftOf env calls s me := by
  have asked := standing.asked me
  have before : leftOf env calls s me = 4 * ((callsOf env calls s me).length -
      (s.threads me).answers.length) + (if s.sched.status me = .finished then 0 else 1) -
      (s.threads me).pc.taken := leftOf_eq rfl rfl
  rw [running, if_neg (by decide)] at before
  have some_left : ∀ c, s.nextOp env me = .warp c →
      (s.threads me).answers.length < (callsOf env calls s me).length := by
    intro c call
    rcases conversing.nextOp_cases s me with ⟨-, ret⟩ | ⟨left, -⟩
    · cases call.symm.trans ret
    · exact left
  cases talks with
  | finish pc op =>
    have gone : (s.withSched (Scheduler.finish (s.geometry env) me s.sched)).sched.status me =
        .finished :=
      (congrFun (Scheduler.finish_rests (s.geometry env) me s.sched).status me).trans
        (Function.update_self ..)
    rw [pc] at before
    refine lt_of_eq_of_lt (leftOf_eq (s := s) (t := s.threads me) rfl rfl) ?_
    rw [if_pos gone, before, pc]
    exact Nat.lt_succ_self _
  | call pc c op =>
    rw [pc] at before
    refine lt_of_eq_of_lt (leftOf_eq (s := s) rfl (setPc_self ..)) ?_
    rw [before]
    simp only [Pc.taken]
    split <;> omega
  | publish c pc =>
    rw [pc] at before asked
    have left := some_left c asked
    refine lt_of_eq_of_lt (leftOf_eq (s := s) (t := ⟨.arrived c, (s.threads me).answers⟩) rfl
      (setPc_self ..)) ?_
    rw [before]
    simp only [Pc.taken]
    split <;> omega
  | exchange c pc answer problems combined =>
    rw [pc] at before asked
    have left := some_left c asked
    refine lt_of_eq_of_lt (leftOf_eq (s := s)
      (t := ⟨.departed c answer, (s.threads me).answers⟩) rfl (setPc_self ..)) ?_
    rw [before]
    simp only [Pc.taken]
    split <;> omega
  | leave c answer pc =>
    rw [pc] at before asked
    have left := some_left c asked
    refine lt_of_eq_of_lt (leftOf_eq (s := s) rfl (answer_self ..)) ?_
    rw [before]
    simp only [Pc.taken, List.length_append, List.length_singleton]
    split <;> omega

theorem Conversing.halts (conversing : Conversing env calls)
    (single : env.config.blocks ≤ env.config.residentBlocks) : ∃ n, (run env).Halted n := by
  refine (run env).exists_halted
    (fun s => ∑ i ∈ Finset.range (env.config.geometry 0).total, leftOf env calls s i) fun n => ?_
  rcases (run env).step_cases n with ⟨l, -, moved⟩ | ⟨silent, -⟩
  · right
    obtain ⟨me, current, resumed⟩ := next_single single (firstBlock_single single n) moved
    have live := (step_cases env moved).1
    have running := (wellFormed live).running current
    by_cases stopped : ((run env).state (n + 1)).sched.aborted = true
    · left
      change ((run env).state (n + 1)).step env = none
      simp only [step, stopped, if_true]
    · right
      have move := resumed.moves env live (by simpa using stopped)
      refine Finset.sum_lt_sum (fun i _ => ?_) ⟨me, ?_, ?_⟩
      · by_cases own : i = me
        · rw [own]
          exact ((conversing.talks_run live current resumed).leftOf_lt conversing
            (standing_run live) running.2).le
        · refine leftOf_le move.firstBlock (move.others own) fun ended => ?_
          rcases move.woken own with kept | ⟨-, parked⟩ | ⟨-, wait, mate, -, everyone⟩
          · rw [kept, ended]
          · cases ended.symm.trans parked
          · cases ended.symm.trans (everyone i mate).1
      · have total := running.1
        simp only [geometry, firstBlock_single single n] at total
        exact Finset.mem_range.mpr total
      · exact (conversing.talks_run live current resumed).leftOf_lt conversing
          (standing_run live) running.2
  · exact .inl ((run env).label_eq_none_iff.mp silent)

/-! ### What is reported -/

/-- A finding in the list was raised at some time. -/
theorem raisedAt_of_mem {n : Nat} {d : Diagnostic} (member : d ∈ ((run env).state n).raised) :
    ∃ k, RaisedAt env k d := by
  induction n with
  | zero => cases member
  | succ n ih =>
    rcases (run env).step_cases n with ⟨l, -, moved⟩ | ⟨-, stays⟩
    · obtain ⟨live, ⟨-, -, -, next⟩ | ⟨slot, current, resumed⟩⟩ := step_cases env moved
      · rw [next] at member
        exact ih member
      · obtain ⟨own, grown, -⟩ := resumed.raised ((wellFormed live).running current).1
        rw [grown] at member
        rcases List.mem_append.mp member with earlier | pushed
        · exact ih earlier
        · exact ⟨n, own, grown, pushed⟩
    · rw [stays] at member
      exact ih member

omit [BEq V] in
/-- What a step reports: that lanes do not come together, or nothing that stops the launch. -/
theorem Talks.reports (talks : Talks env s me s') (conversing : Conversing env calls)
    (standing : Standing env s) (live : Live s) :
    ∃ ds, s'.raised = s.raised ++ ds ∧ ∀ d ∈ ds, d.trapped = false ∨ d.diverges = true ∨
      (d.split? = some ((s.geometry env).blockOf me, (s.geometry env).warpOf me) ∧
        ∃ wait pc' p other, Joins (s.geometry env) me (s.threads me).pc pc' wait ∧
          Scheduler.Disagrees (s.geometry env) s.sched me wait p other) := by
  have asked := standing.asked me
  have of_rendezvous : ∀ {pc' : Pc V} {wait : WarpWait} {d : Diagnostic},
      Joins (s.geometry env) me (s.threads me).pc pc' wait →
      d ∈ (Scheduler.warpRendezvous (s.geometry env) me wait s.sched).2 →
      d.trapped = false ∨ d.diverges = true ∨
        (d.split? = some ((s.geometry env).blockOf me, (s.geometry env).warpOf me) ∧
          ∃ wait pc' p other, Joins (s.geometry env) me (s.threads me).pc pc' wait ∧
            Scheduler.Disagrees (s.geometry env) s.sched me wait p other) := by
    intro pc' wait d joins member
    rcases Scheduler.warpRendezvous_diverges live member with
      diverges | ⟨p, other, disagrees, rfl, -⟩
    · exact .inr (.inl diverges)
    · exact .inr (.inr ⟨rfl, wait, pc', p, other, joins, disagrees⟩)
  cases talks with
  | finish pc op =>
    exact ⟨_, rfl, fun d member => .inr (.inl (Scheduler.finish_diverges live member))⟩
  | call pc c op =>
    have quiet : Scheduler.Quiet (s.geometry env) (Scheduler.yieldNow (s.geometry env) s.sched) :=
      Scheduler.handOff_quiet live
    exact ⟨_, rfl, fun d member => .inr (.inl (quiet.diverges member))⟩
  | publish c pc =>
    rw [pc] at asked
    have joins : Joins (s.geometry env) me (s.threads me).pc (.arrived c) (c.wait .arrive) := by
      rw [pc]
      exact .arrive c (conversing.passes asked)
    exact ⟨_, rfl, fun d member => of_rendezvous joins member⟩
  | exchange c pc answer problems combined =>
    have joins : Joins (s.geometry env) me (s.threads me).pc (.departed c answer)
        (c.wait .depart) := by
      rw [pc]
      exact .depart c answer
    refine ⟨laneReports (s.ctx env me) c problems ++ _, List.append_assoc .., fun d member => ?_⟩
    rcases List.mem_append.mp member with plain | own
    · exact .inl (plain_of_combine combined d plain)
    · exact of_rendezvous joins own
  | leave c answer pc => exact ⟨[], (List.append_nil _).symm, fun d none => by cases none⟩

theorem diverges_of_missesLane {d : Diagnostic} (misses : d.missesLane = true) :
    d.diverges = true := by
  cases d with
  | warpDivergence => rfl
  | _ => cases misses

theorem trapped_of_split {d : Diagnostic} (splits : d.split? = some (block, warp)) :
    d.trapped = true := by
  cases d <;> first | rfl | cases splits

/-- What stops a launch is a report that lanes do not come together. -/
theorem Conversing.split_of_raised (conversing : Conversing env calls) {n : Nat} {d : Diagnostic}
    (raised : RaisedAt env n d) (trapped : d.trapped = true) :
    ∃ block warp, d.split? = some (block, warp) := by
  obtain ⟨me, l, live, current, resumed⟩ := resumed_of_raised raised
  have standing := standing_run live
  obtain ⟨ds, grown, kinds⟩ := (conversing.talks_run live current resumed).reports conversing
    standing live
  have member : d ∈ ds := by
    obtain ⟨pushed, here, member⟩ := raised
    rwa [List.append_cancel_left (here.symm.trans grown)] at member
  rcases kinds d member with plain | diverges | ⟨splits, -⟩
  · cases plain.symm.trans trapped
  · cases d with
    | warpDivergence => exact ⟨_, _, rfl⟩
    | barrierDivergence =>
      obtain ⟨i, -, involved, -⟩ := namesWaveBlock raised (Diagnostic.schedBlock_of_diverges rfl)
      obtain ⟨_, -, -, shifts, standing'⟩ := shifts_of_raised raised rfl
      exact absurd involved.1 (conversing.not_atBarrier standing')
    | _ => cases diverges
  · exact ⟨_, _, splits⟩

theorem Conversing.reported_of_aborted (conversing : Conversing env calls) {n : Nat}
    (stopped : ¬ Live ((run env).state n)) : ∃ block warp, Reported env block warp := by
  obtain ⟨d, member, trapped⟩ := (aborted_iff_trapped env n).mp (by simpa [Live] using stopped)
  obtain ⟨k, raised⟩ := raisedAt_of_mem member
  obtain ⟨block, warp, splits⟩ := conversing.split_of_raised raised trapped
  exact ⟨block, warp, k, d, raised, splits⟩

omit [BEq V] in
/-- A lane of a launch of one wave is a thread of the grid. -/
theorem block_lt_of_lane (single : env.config.blocks ≤ env.config.residentBlocks) {i : Nat}
    (lane : i ∈ env.config.lanes block warp) : block < env.config.blocks := by
  have inside := (env.config.geometry 0).blockOf_lt lane.1
  rw [lane.2.1] at inside
  have blocks : (env.config.geometry 0).blocks = env.config.blocks := waveBlocks_single single
  rwa [blocks] at inside

/-- Every run comes to a verdict on every warp, unless the report of another one cuts it short. -/
theorem Conversing.settles (conversing : Conversing env calls)
    (single : env.config.blocks ≤ env.config.residentBlocks) (block warp : Nat) :
    Completes env block warp ∨ Reported env block warp ∨ CutShort env block warp := by
  by_cases reported : Reported env block warp
  · exact .inr (.inl reported)
  by_cases returned : Returned env block warp
  · exact .inl ⟨reported, returned⟩
  refine .inr (.inr ⟨reported, returned, ?_⟩)
  obtain ⟨n, halted⟩ := conversing.halts single
  have stopped : ¬ Live ((run env).state n) := by
    intro live
    refine returned fun i lane => ?_
    obtain ⟨k, returns, -⟩ := returns_of_halted halted live (block_lt_of_lane single lane)
      (Nat.mod_lt i env.config.threads_pos)
    exact ⟨k, returns⟩
  obtain ⟨block', warp', other⟩ := conversing.reported_of_aborted stopped
  refine ⟨(block', warp'), ?_, other⟩
  intro same
  obtain ⟨rfl, rfl⟩ := Prod.mk.inj same
  exact reported other

/-! ### Programs with one verdict -/

omit [BEq V] in
theorem stopped_of_exit {course : Course} {x : Nat → Nat} {i : Nat}
    (exit : (env.config.meeting course 0).seq i (x i) = .exit) :
    (env.config.meeting course 0).Stopped x i := by
  intro member
  rw [exit] at member
  cases member

omit [BEq V] in
/-- Where all lanes of a warp can return none of them waits for one that has. -/
theorem Charted.not_founded {course : Course} {x : Nat → Nat} {t : Launch V} {d : Diagnostic}
    {wait : WarpWait} (charted : Charted env course t) (first : t.firstBlock = 0)
    (hx : (env.config.meeting course 0).Reached x)
    (exits : ∀ i ∈ env.config.lanes block warp, (env.config.meeting course 0).seq i (x i) = .exit)
    (founded : Founded (t.geometry env) t.sched d)
    (made : MadeFor (t.geometry env) t.sched i wait d) (lane : i ∈ env.config.lanes block warp) :
    False := by
  have meets : t.meeting env course = env.config.meeting course 0 := meeting_first first
  have level : ∀ j ∈ env.config.lanes block warp, t.position env j ≤ x j := by
    intro j member
    have reached := charted.reached
    rw [meets] at reached
    exact reached.le_of_stopped (stopped_of_exit (exits j member))
  have same : t.geometry env = env.config.geometry 0 := by rw [geometry, first]
  have inside : i < (t.geometry env).total := same ▸ lane.1
  have waits := charted.standing.stage_of_parked charted.along inside made.parked made.waits
  rw [← meets] at hx exits
  rcases founded with ⟨j, wait', q, made', mate, gone⟩ | ⟨nobody, -, -⟩
  · obtain ⟨block', warp', -⟩ := Diagnostic.warpDivergence.inj (made.report.symm.trans made'.report)
    have inside' : j < (t.geometry env).total := by
      refine (t.geometry env).lt_total_of_blockOf ?_
      rw [← block']
      exact (t.geometry env).blockOf_lt inside
    have lane' : j ∈ env.config.lanes block warp := by
      rw [same] at inside' block' warp'
      exact ⟨inside', block'.symm.trans lane.2.1, warp'.symm.trans lane.2.2⟩
    have waits' := charted.standing.stage_of_parked charted.along inside' made'.parked made'.waits
    have own := charted.standing.names_own made'.parked made'.waits
    have member := mem_of_mate course inside' mate
    have lane_q : q ∈ env.config.lanes block warp := by
      have here := mem_half.mp member
      rw [same] at here
      exact ⟨here.1, here.2.1.trans lane'.2.1, here.2.2.1.trans lane'.2.2⟩
    have stays := (hx.eq_of_waits charted.reached (level j lane') (level q lane_q)
      (mem_half.mpr ⟨inside', rfl, rfl, own⟩) member waits'
      (charted.stopped (mem_half.mp member).1 gone)).1
    rw [← stays, exits j lane'] at waits'
    cases waits'
  · have idle := charted.standing.stuck charted.along (idle_of_runnable nobody)
    have ahead := hx.le_of_stuck charted.reached idle
    rw [le_antisymm (level i lane) (ahead i), exits i lane] at waits
    cases waits

omit [BEq V] in
/-- Two lanes that disagree stand where the courses of the calls clash. -/
theorem Charted.clashes {course : Course} (charted : Charted env course s) (first : s.firstBlock = 0)
    (lane : me ∈ env.config.lanes block warp) (running : s.sched.status me = .runnable)
    {pc' : Pc V} {wait other : WarpWait} {p : Nat}
    (joins : Joins (s.geometry env) me (s.threads me).pc pc' wait)
    (disagrees : Scheduler.Disagrees (s.geometry env) s.sched me wait p other) :
    env.config.Clashes course block warp := by
  obtain ⟨mates, -, parked, waits, phase, loc, masks, named⟩ := disagrees
  have same : s.geometry env = env.config.geometry 0 := by rw [geometry, first]
  have inside : me < (s.geometry env).total := same ▸ lane.1
  have exists_ : p < (s.geometry env).total := by
    refine (s.geometry env).lt_total_of_blockOf ?_
    rw [mates.1]
    exact (s.geometry env).blockOf_lt inside
  have mine := charted.standing.stage_of_joins charted.along inside running joins
  have theirs := charted.standing.stage_of_parked charted.along exists_ parked waits
  have reached := charted.reached
  rw [meeting_first first] at mine theirs reached
  rw [same] at *
  have lane' : p ∈ env.config.lanes block warp :=
    ⟨exists_, mates.1.trans lane.2.1, mates.2.trans lane.2.2⟩
  rw [lane.2.1, lane.2.2] at mine
  rw [lane'.2.1, lane'.2.2] at theirs
  rcases named with named | named
  · exact ⟨_, p, me, other, wait, reached, lane', lane, theirs, mine, phase.symm, loc.symm,
      masks.symm, named⟩
  · exact ⟨_, me, p, wait, other, reached, lane, lane', mine, theirs, phase, loc, masks, named⟩

/-- Threads do not go back. -/
theorem position_le {course : Course} (along : ∀ n, Along env course ((run env).state n))
    (single : env.config.blocks ≤ env.config.residentBlocks) {n k : Nat} (le : n ≤ k)
    (live : Live ((run env).state k)) :
    ((run env).state n).position env ≤ ((run env).state k).position env := by
  induction le with
  | refl => exact le_rfl
  | @step k le ih =>
    have before := live_of_succ live
    refine (ih before).trans ?_
    rcases (run env).step_cases k with ⟨l, -, moved⟩ | ⟨-, stays⟩
    · obtain ⟨me, current, resumed⟩ := next_single single (firstBlock_single single k) moved
      have running := (wellFormed before).running current
      rcases resumed.shifts with shifts | stops
      · rcases shifts.meets (standing_run before) (along k) running.1 running.2 with
          stays | ⟨e, moves⟩
        · exact stays.ge
        · intro i
          by_cases member : i ∈ (((run env).state k).meeting env course).members e
          · rw [moves.moved i member]
            exact Nat.le_succ _
          · exact (moves.others i member).ge
      · exact absurd live stops.stopped
    · rw [stays]

/-- A lane that returns has come to the end of its course. -/
theorem exit_of_returns {course : Course} (along : ∀ n, Along env course ((run env).state n))
    (single : env.config.blocks ≤ env.config.residentBlocks) {n i : Nat}
    (lane : i ∈ env.config.lanes block warp)
    (returns : ReturnsAt env block (i % env.config.threadsPerBlock) n) :
    Live ((run env).state n) ∧
      (env.config.meeting course 0).seq i (((run env).state n).position env i) = .exit := by
  obtain ⟨cx, labelled, here, there⟩ := returns
  have first := firstBlock_single single n
  obtain ⟨slot, current, resumed⟩ := next_single single first ((run env).next_of_label labelled)
  have live := live_of_label labelled
  have running := (wellFormed live).running current
  generalize finishes : Label.finish cx = l at resumed
  generalize (run env).state (n + 1) = after at resumed
  cases resumed with
  | finish pc op =>
    obtain rfl := Label.finish.inj finishes
    have same : slot = i := by
      simp only [ctx, first, Nat.zero_add] at here there
      rw [← Nat.div_add_mod slot env.config.threadsPerBlock, here, there, ← lane.2.1]
      exact Nat.div_add_mod i env.config.threadsPerBlock
    subst same
    have stage := (along n).first running.1 (m := .exit) (by rw [op]; rfl)
    have position : ((run env).state n).position env slot =
        2 * (((run env).state n).behind env slot).length := by
      rw [Launch.position, pc]
      rfl
    rw [← position, meeting_first first] at stage
    exact ⟨live, stage⟩
  | _ => cases finishes

section

variable (conversing : Conversing env calls)
  (single : env.config.blocks ≤ env.config.residentBlocks)
include conversing single

/-- A lane that has come to the end of its course stays there. -/
theorem Conversing.exit_later {n k i : Nat} (le : n ≤ k) (live : Live ((run env).state k))
    (exit : (env.config.meeting (courseOfCalls calls) 0).seq i
      (((run env).state n).position env i) = .exit) :
    (env.config.meeting (courseOfCalls calls) 0).seq i
      (((run env).state k).position env i) = .exit := by
  have reached := (charted_run conversing.along live).reached
  rw [meeting_first (firstBlock_single single k)] at reached
  have same : ((run env).state k).position env i = ((run env).state n).position env i :=
    le_antisymm (reached.le_of_stopped (stopped_of_exit exit))
      (position_le conversing.along single le live i)
  rw [same, exit]

/-- What the lanes of a warp complete in one run can be completed. -/
theorem Conversing.completable (completes : Completes env block warp) :
    env.config.Completable (courseOfCalls calls) block warp := by
  classical
  have returned := completes.2
  choose time returns using returned
  let lanes := (Finset.range (env.config.geometry 0).total).filter
    (· ∈ env.config.lanes block warp)
  have listed : ∀ i, i ∈ lanes ↔ i ∈ env.config.lanes block warp := by
    intro i
    simp only [lanes, Finset.mem_filter, Finset.mem_range]
    exact and_iff_right_of_imp fun lane => lane.1
  rcases lanes.eq_empty_or_nonempty with empty | some_lane
  · refine ⟨_, .start, fun i lane => ?_⟩
    rw [← listed, empty] at lane
    exact absurd lane (Finset.notMem_empty i)
  -- The lanes are all at their ends when the last of them returns.
  obtain ⟨last, -, latest⟩ := Finset.exists_max_image lanes.attach
    (fun i => time i.1 ((listed i.1).mp i.2)) (Finset.attach_nonempty_iff.mpr some_lane)
  obtain ⟨live, -⟩ := exit_of_returns conversing.along single ((listed last.1).mp last.2)
    (returns last.1 ((listed last.1).mp last.2))
  have reached := (charted_run conversing.along live).reached
  rw [meeting_first (firstBlock_single single _)] at reached
  refine ⟨_, reached, fun i lane => ?_⟩
  have before := latest ⟨i, (listed i).mpr lane⟩ (Finset.mem_attach ..)
  exact conversing.exit_later single before live
    (exit_of_returns conversing.along single lane (returns i lane)).2

/-- A report that lanes do not come together is about a warp of the launch: a lane of it is
parked, or comes to where another one is. -/
theorem Conversing.split_cases {n : Nat} {d : Diagnostic} (raised : RaisedAt env n d)
    (splits : d.split? = some (block, warp)) :
    (∃ i wait, i ∈ env.config.lanes block warp ∧ d.missesLane = true ∧
      MadeFor (((run env).state (n + 1)).geometry env) ((run env).state (n + 1)).sched i wait d) ∨
    ∃ me wait pc' p other, Live ((run env).state n) ∧ me ∈ env.config.lanes block warp ∧
      ((run env).state n).sched.status me = .runnable ∧
      Joins (((run env).state n).geometry env) me (((run env).state n).threads me).pc pc' wait ∧
      Scheduler.Disagrees (((run env).state n).geometry env) ((run env).state n).sched me wait p
        other := by
  obtain ⟨me, l, live, current, resumed⟩ := resumed_of_raised raised
  have running := (wellFormed live).running current
  obtain ⟨ds, grown, kinds⟩ := (conversing.talks_run live current resumed).reports conversing
    (standing_run live) live
  have member : d ∈ ds := by
    obtain ⟨pushed, here, member⟩ := raised
    rwa [List.append_cancel_left (here.symm.trans grown)] at member
  have geometry : ∀ k, ((run env).state k).geometry env = env.config.geometry 0 := by
    intro k
    rw [Launch.geometry, firstBlock_single single k]
  rcases kinds d member with plain | diverges | ⟨named, wait, pc', p, other, joins, disagrees⟩
  · cases plain.symm.trans (trapped_of_split splits)
  · cases d with
    | warpDivergence b w =>
      obtain ⟨i, wait, inside, made⟩ := madeFor_of_raised raised
      obtain ⟨block', warp', -⟩ := Diagnostic.warpDivergence.inj made.report
      obtain ⟨rfl, rfl⟩ : b = block ∧ w = warp := Prod.mk.inj (Option.some.inj splits)
      refine .inl ⟨i, wait, ?_, rfl, made⟩
      rw [geometry] at inside block' warp'
      exact ⟨inside, block'.symm, warp'.symm⟩
    | barrierDivergence => cases splits
    | _ => cases diverges
  · refine .inr ⟨me, wait, pc', p, other, live, ?_, running.2, joins, disagrees⟩
    obtain ⟨block', warp'⟩ := Prod.mk.inj (Option.some.inj (named.symm.trans splits))
    have inside := running.1
    rw [geometry] at inside block' warp'
    exact ⟨inside, block', warp'⟩

/-- Nothing cuts short the verdict on a warp that is alone in its launch. -/
theorem Conversing.not_cutShort
    (alone : ∀ i < (env.config.geometry 0).total, i ∈ env.config.lanes block warp) :
    ¬ CutShort env block warp := by
  rintro ⟨-, -, other, apart, n, d, raised, splits⟩
  have own : ∀ i ∈ env.config.lanes other.1 other.2, other = (block, warp) := by
    intro i lane
    have here := alone i lane.1
    exact Prod.ext (lane.2.1.symm.trans here.2.1) (lane.2.2.symm.trans here.2.2)
  rcases conversing.split_cases single raised splits with
    ⟨i, -, lane, -⟩ | ⟨me, -, -, -, -, -, lane, -⟩
  · exact apart (own i lane)
  · exact apart (own me lane)

/-- Where the lanes of a warp can make their calls only those that disagree are reported. -/
theorem Conversing.disagrees_of_raised {x : Nat → Nat}
    (hx : (env.config.meeting (courseOfCalls calls) 0).Reached x)
    (exits : ∀ i ∈ env.config.lanes block warp,
      (env.config.meeting (courseOfCalls calls) 0).seq i (x i) = .exit)
    {n : Nat} {d : Diagnostic} (raised : RaisedAt env n d) (splits : d.split? = some (block, warp)) :
    ∃ me wait pc' p other, Live ((run env).state n) ∧ me ∈ env.config.lanes block warp ∧
      ((run env).state n).sched.status me = .runnable ∧
      Joins (((run env).state n).geometry env) me (((run env).state n).threads me).pc pc' wait ∧
      Scheduler.Disagrees (((run env).state n).geometry env) ((run env).state n).sched me wait p
        other := by
  rcases conversing.split_cases single raised splits with ⟨i, wait, lane, misses, made⟩ | disagrees
  · have charted := charted_of_raised conversing.along raised (diverges_of_missesLane misses)
    exact (charted.not_founded (firstBlock_single single (n + 1)) hx exits
      (founded_of_raised raised misses) made lane).elim
  · exact disagrees

/-- Where the lanes of a warp can make their calls and masks never disagree, nothing is
reported of it. -/
theorem Conversing.not_reported
    (completable : env.config.Completable (courseOfCalls calls) block warp)
    (agree : ¬ env.config.Clashes (courseOfCalls calls) block warp) :
    ¬ Reported env block warp := by
  rintro ⟨n, d, raised, splits⟩
  obtain ⟨x, hx, exits⟩ := completable
  obtain ⟨me, wait, pc', p, other, live, lane, running, joins, disagrees⟩ :=
    conversing.disagrees_of_raised single hx exits raised splits
  exact agree ((charted_run conversing.along live).clashes (firstBlock_single single n)
    lane running joins disagrees)

end

/-- Lanes that have returned with the launch still running. -/
theorem returned_of_finished (single : env.config.blocks ≤ env.config.residentBlocks) {n : Nat}
    (live : Live ((run env).state n))
    (ended : ∀ i ∈ env.config.lanes block warp, ((run env).state n).sched.status i = .finished) :
    Returned env block warp := by
  intro i lane
  obtain ⟨k, -, -, labelled⟩ := (returned_of_live live).1 i (ended i lane)
  refine ⟨k, _, labelled, ?_, rfl⟩
  simp only [ctx, firstBlock_single single k, Nat.zero_add]
  exact lane.2.1

/-! ### Programs with two -/

section

variable (conversing : Conversing env calls)
  (single : env.config.blocks ≤ env.config.residentBlocks)
include conversing single

/-- Where the lanes of a warp can make their calls some schedule lets them. -/
theorem Conversing.exists_completes
    (completable : env.config.Completable (courseOfCalls calls) block warp) :
    ∃ choicesOf, Completes (env.choosing choicesOf) block warp := by
  classical
  obtain ⟨x, hx, exits⟩ := completable
  by_cases none : ∀ i, i ∉ env.config.lanes block warp
  · refine ⟨env.choicesOf, ?_, fun i lane => absurd lane (none i)⟩
    rintro ⟨n, d, raised, splits⟩
    obtain ⟨me, -, -, -, -, -, lane, -⟩ :=
      (conversing.choosing env.choicesOf).disagrees_of_raised single hx exits raised splits
    exact none me lane
  push Not at none
  obtain ⟨first, lane⟩ := none
  let others := (List.range (env.config.geometry 0).total).filter fun i =>
    i ∈ env.config.lanes block warp ∧ i ≠ first
  have listed : ∀ i, i ∈ others ↔ i ∈ env.config.lanes block warp ∧ i ≠ first := by
    intro i
    simp only [others, List.mem_filter, List.mem_range, decide_eq_true_eq]
    exact and_iff_right_of_imp fun member => member.1.1
  have distinct : others.Nodup := List.nodup_range.filter _
  obtain ⟨s, arranged⟩ := conversing.arranged_of_reached hx ⟨.arrive, 0, ⟨"", 0, 0⟩, .syncWarp⟩
    first lane.1
  obtain ⟨gone, s', i, returning, pc, op, covered⟩ := Returning.all conversing others first ∅ s
    (arranged.returning exits)
    (List.nodup_cons.mpr ⟨fun member => ((listed first).mp member).2 rfl, distinct⟩)
    (Set.notMem_empty first) (fun j member => ⟨Set.notMem_empty j, ((listed j).mp member).1.1⟩)
    (fun j member => by
      by_cases same : j = first
      · exact .inr (.inl same)
      · exact .inr (.inr ((listed j).mpr ⟨member, same⟩)))
    lane fun j member => ((listed j).mp member).1
  obtain ⟨n, plan, here⟩ := returning.led.state
  refine ⟨fun _ => .replay plan 0, ?_⟩
  have conversing' := conversing.choosing fun _ => .replay plan 0
  have front : ∀ k, ((run (env.choosing fun _ => .replay plan 0)).state k).firstBlock = 0 := by
    intro k
    apply firstBlock_single
    exact single
  constructor
  · rintro ⟨k, d, raised, splits⟩
    obtain ⟨me, wait, pc', p, other, live, lane, running, joins, -⟩ :=
      conversing'.disagrees_of_raised single hx exits raised splits
    rcases Nat.lt_or_ge k n with before | after
    · -- A report stops the launch, which is live at `n`.
      have stopped : ((run (env.choosing fun _ => .replay plan 0)).state (k + 1)).sched.aborted =
          true := by
        refine (aborted_iff_trapped _ (k + 1)).mpr ⟨d, ?_, trapped_of_split splits⟩
        obtain ⟨pushed, grown, member⟩ := raised
        rw [grown]
        exact List.mem_append_right _ member
      have still : Live ((run (env.choosing fun _ => .replay plan 0)).state (k + 1)) :=
        live_of_le before (here ▸ returning.live)
      cases stopped.symm.trans still
    · -- From `n` on every lane of the warp has its calls behind it.
      have exit := conversing'.exit_later single after live
        (i := me) (by rw [here]; exact returning.exits me lane)
      have charted := charted_run conversing'.along live
      have inside : me < (((run (env.choosing fun _ => .replay plan 0)).state k).geometry
          (env.choosing fun _ => .replay plan 0)).total := by
        rw [geometry, front k]
        exact lane.1
      have stage := charted.standing.stage_of_joins charted.along inside running joins
      rw [meeting_first (front k), exit] at stage
      cases stage
  · intro j lane
    have numbered : ∀ k, (((run (env.choosing fun _ => .replay plan 0)).state k).ctx
        (env.choosing fun _ => .replay plan 0) j).block = block := by
      intro k
      simp only [ctx, front k, Nat.zero_add]
      exact lane.2.1
    rcases covered j lane with early | rfl
    · have ended : ((run (env.choosing fun _ => .replay plan 0)).state n).sched.status j =
          .finished := by
        rw [here]
        exact returning.ended j early
      obtain ⟨k, -, -, labelled⟩ := (returned_of_live (here ▸ returning.live)).1 j ended
      exact ⟨k, _, labelled, numbered k, rfl⟩
    · have returns := step_of_ready (env.choosing fun _ => .replay plan 0) returning.live
        returning.current pc op
      rw [← here] at returns
      exact ⟨n, _, (run _).label_of_next returns, numbered n, rfl⟩

omit single in
/-- Where masks disagree on the way some schedule finds it. -/
theorem Conversing.exists_reported
    (clashes : env.config.Clashes (courseOfCalls calls) block warp) :
    ∃ choicesOf, Reported (env.choosing choicesOf) block warp := by
  obtain ⟨x, i, j, wait, other, reached, lane, lane', at_i, at_j, phase, loc, masks, named⟩ :=
    clashes
  have apart : i ≠ j := by
    rintro rfl
    obtain ⟨-, -, same⟩ := Stage.half.inj (at_i.symm.trans at_j)
    exact masks (by rw [same])
  have mates : (env.config.geometry 0).SameWarp j i :=
    ⟨lane'.2.1.trans lane.2.1.symm, lane'.2.2.trans lane.2.2.symm⟩
  -- The lane whose mask names the other parks first.
  obtain ⟨s₀, arranged⟩ := conversing.arranged_of_reached reached other j lane'.1
  obtain ⟨s₁, pc', arranged, joins⟩ := arranged.approach conversing (Set.notMem_empty j) at_j
  obtain ⟨s₂, arranged⟩ := arranged.park conversing (Set.notMem_empty j) joins
    ⟨i, arranged.geometry ▸ ⟨⟨mates.1.symm, mates.2.symm⟩, named, apart⟩, Set.notMem_empty i⟩
    (arranged.geometry ▸ lane.1) (by simpa using apart)
  have away : i ∉ insert j (∅ : Set Nat) := by simpa using apart
  obtain ⟨s, pc'', arranged, joins⟩ := arranged.approach conversing away at_i
  obtain ⟨t, -, -, -, ⟨ds, raised⟩, -, resumes⟩ := arranged.rendezvous conversing away joins
  have parked := arranged.parked j (.inl rfl)
  have disagrees : Scheduler.Disagrees (s.geometry env) s.sched i wait j other := by
    rw [arranged.geometry]
    exact ⟨mates, apart.symm, parked.1, parked.2, phase, loc, masks, .inr named⟩
  have nobody : ∀ p, s.sched.status p ≠ .finished := by
    intro p gone
    by_cases member : p ∈ insert j (∅ : Set Nat)
    · cases gone.symm.trans (arranged.parked p member).1
    · cases gone.symm.trans (arranged.free p member)
  obtain ⟨n, plan, here⟩ := arranged.led.state
  obtain ⟨l, resumed⟩ := resumes s.sched.choices
  refine ⟨fun _ => .replay plan 0, n, ?_⟩
  have next : (run (env.choosing fun _ => .replay plan 0)).state (n + 1) = t.withSched
      (Scheduler.warpRendezvous (s.geometry env) i wait s.sched) := by
    refine (run _).state_succ_of_next (a := l) ?_
    rw [here]
    exact (step_choosing arranged.live arranged.current s.sched.choices _).trans
      (congrArg some resumed)
  rcases Scheduler.rendezvousEnter_cases (s.geometry env) i wait s.sched with
    ⟨p, -, gone, -⟩ | ⟨-, p, theirs, -, enter⟩ | ⟨agree, -, -⟩ | ⟨-, agree, -⟩
  · exact absurd gone (nobody p)
  · rw [Scheduler.warpRendezvous, enter, Scheduler.handOffUnlessFailed_fail] at next
    refine ⟨_, ⟨ds ++ _, ?_, List.mem_append_right ds (List.mem_singleton_self (.warpMaskMismatch
      ((s.geometry env).blockOf i) ((s.geometry env).warpOf i) wait.op wait.loc
      ((s.geometry env).laneOf i) wait.mask ((s.geometry env).laneOf p) theirs.mask))⟩, ?_⟩
    · rw [next, here, ← List.append_assoc, ← raised]
      rfl
    · rw [arranged.geometry, ← lane.2.1, ← lane.2.2]
      rfl
  · exact absurd disagrees (agree j other)
  · exact absurd disagrees (agree j other)

end

/-- The verdict on the calls of a warp is the same under every schedule exactly if its lanes cannot
all make them, or masks never disagree on the way. No schedule is cut short where there is no other
warp. -/
theorem sameVerdict_iff (env : Env V) (calls : Nat → Nat → List (Collective V))
    (conversing : Conversing env calls)
    (single : env.config.blocks ≤ env.config.residentBlocks) (block warp : Nat) :
    (SameVerdict env block warp ↔ ¬ env.config.Completable (courseOfCalls calls) block warp ∨
      ¬ env.config.Clashes (courseOfCalls calls) block warp) ∧
    ((∀ i < (env.config.geometry 0).total, i ∈ env.config.lanes block warp) →
      ∀ choicesOf, ¬ CutShort (env.choosing choicesOf) block warp) := by
  refine ⟨?_, fun alone choicesOf => (conversing.choosing choicesOf).not_cutShort single alone⟩
  have settles := fun choicesOf => (conversing.choosing choicesOf).settles single block warp
  constructor
  · intro same
    by_contra both
    push Not at both
    obtain ⟨choicesOf, completes⟩ := conversing.exists_completes single both.1
    obtain ⟨choicesOf', reported⟩ := conversing.exists_reported both.2
    rcases same with always | always
    · rcases always choicesOf' with completes' | cut
      · exact completes'.1 reported
      · exact cut.1 reported
    · rcases always choicesOf with reported' | cut
      · exact completes.1 reported'
      · exact cut.2.1 completes.2
  · intro condition
    by_cases completable : env.config.Completable (courseOfCalls calls) block warp
    · have agree := condition.resolve_left fun stuck => stuck completable
      refine .inl fun choicesOf => ?_
      have silent := (conversing.choosing choicesOf).not_reported single completable agree
      rcases settles choicesOf with completes | reported | cut
      · exact .inl completes
      · exact absurd reported silent
      · exact .inr cut
    · refine .inr fun choicesOf => ?_
      rcases settles choicesOf with completes | verdict
      · exact absurd ((conversing.choosing choicesOf).completable single completes) completable
      · exact verdict

/-- What lanes 0 and 1 call together, and then lanes 1 and 2, at one place. -/
def crossCalls (thread : Nat) : List (Collective Nat) :=
  let call (mask : Mask) : Collective Nat := ⟨mask, ⟨"kernel.rs", 7, 5⟩, .syncWarp⟩
  if thread = 0 then [call 0b011] else if thread = 1 then [call 0b011, call 0b110]
  else if thread = 2 then [call 0b110] else []

/-- The same next to a warp whose lane 0 waits for a lane that returns at once. -/
def crowdCalls (thread : Nat) : List (Collective Nat) :=
  if thread = 4 then [⟨0b011, ⟨"kernel.rs", 9, 5⟩, .syncWarp⟩] else crossCalls thread

def crossing : Env Nat :=
  trial .threeThreads (fun thread => (crossCalls thread).map .warp) []

theorem twoWarps_lanes_pos : 0 < 4 := by decide

def twoWarps : Config :=
  { Config.single 8 (by decide) (by decide) with
    warpSize := 4
    lanes_pos := twoWarps_lanes_pos
    lanes_le := by decide }

def crowded : Env Nat := trial twoWarps (fun thread => (crowdCalls thread).map .warp) []

theorem crossCalls_bare {thread : Nat} {c : Collective Nat} (member : c ∈ crossCalls thread) :
    c.exchange.own = none := by
  unfold crossCalls at member
  split_ifs at member <;> simp only [List.mem_cons, List.not_mem_nil, or_false] at member
  · rw [member]; rfl
  · rcases member with rfl | rfl <;> rfl
  · rw [member]; rfl

theorem crossing_conversing : Conversing crossing fun _ => crossCalls where
  kernel := rfl
  checked := by
    intro _ thread c member inside
    have lanes : ∀ thread < 3, ∀ c ∈ crossCalls thread,
        c.laneProblem ((crossing.config.geometry 0).validMask (thread / 32)) (thread % 32) = none := by
      decide
    exact lanes thread inside c member
  typed := by
    intro _ thread thread' c c' member member' _ _ v w passes
    cases (crossCalls_bare member).symm.trans passes

theorem crowded_conversing : Conversing crowded fun _ => crowdCalls where
  kernel := rfl
  checked := by
    intro _ thread c member inside
    have lanes : ∀ thread < 8, ∀ c ∈ crowdCalls thread,
        c.laneProblem ((crowded.config.geometry 0).validMask (thread / 4)) (thread % 4) = none := by
      decide
    exact lanes thread inside c member
  typed := by
    intro _ thread thread' c c' member member' _ _ v w passes
    have bare : c.exchange.own = none := by
      unfold crowdCalls at member
      split_ifs at member
      · rw [List.mem_singleton.mp member]
        rfl
      · exact crossCalls_bare member
    cases bare.symm.trans passes

/-- A launch that stops with no such report raised has none. -/
theorem not_reported_of_halted {N : Nat} (halted : (run env).Halted N)
    (silent : ∀ n ≤ N, ∀ d ∈ ((run env).state n).raised, d.split? ≠ some (block, warp)) :
    ¬ Reported env block warp := by
  rintro ⟨n, d, ⟨pushed, grown, member⟩, splits⟩
  have raised : d ∈ ((run env).state (n + 1)).raised := by
    rw [grown]
    exact List.mem_append_right _ member
  rcases Nat.le_total (n + 1) N with before | after
  · exact silent (n + 1) before d raised splits
  · rw [((run env).halted_mono halted after).2] at raised
    exact silent N le_rfl d raised splits

/-- One schedule lets the lanes return, another one has them reported. -/
theorem not_sameVerdict {choicesOf choicesOf' : Nat → Choices}
    (completes : Completes (env.choosing choicesOf) block warp)
    (reported : Reported (env.choosing choicesOf') block warp) : ¬ SameVerdict env block warp := by
  rintro (always | always)
  · rcases always choicesOf' with completes' | cut
    · exact completes'.1 reported
    · exact cut.1 reported
  · rcases always choicesOf with reported' | cut
    · exact completes.1 reported'
    · exact cut.2.1 completes.2

theorem crowded_divided : ¬ SameVerdict crowded 0 0 := by
  have silent : ¬ Reported (crowded.choosing fun _ => .replay [] 0) 0 0 := by
    refine not_reported_of_halted (N := 23) ?_ ?_
    · rw [Machine.Halted, ← Option.isNone_iff_eq_none]
      set_option maxRecDepth 100000 in decide +kernel
    · set_option maxRecDepth 100000 in decide +kernel
  have ended : ∀ i < (crowded.config.geometry 0).total, (crowded.config.geometry 0).warpOf i = 0 →
      ((run (crowded.choosing fun _ => .replay [] 0)).state 20).sched.status i = .finished := by
    set_option maxRecDepth 100000 in decide +kernel
  have live : ((run (crowded.choosing fun _ => .replay [] 0)).state 20).sched.aborted = false := by
    set_option maxRecDepth 100000 in decide +kernel
  have returned : Returned (crowded.choosing fun _ => .replay [] 0) 0 0 :=
    returned_of_finished (by decide) live fun i lane => ended i lane.1 lane.2.2
  have reported : Reported (crowded.choosing fun _ => .replay [2, 2, 1, 1] 0) 0 0 :=
    ⟨3, .warpMaskMismatch 0 0 .syncWarp ⟨"kernel.rs", 7, 5⟩ 1 0b011 2 0b110,
      ⟨[_], by set_option maxRecDepth 100000 in decide +kernel, List.mem_singleton_self _⟩, rfl⟩
  exact not_sameVerdict ⟨silent, returned⟩ reported

/-- The first warp has two verdicts, next to a second one that never completes. So its lanes can
make their calls, and clash on the way. -/
theorem sameVerdict_iff_crowded :
    crowded.config.Completable (courseOfCalls fun _ => crowdCalls) 0 0 ∧
      crowded.config.Clashes (courseOfCalls fun _ => crowdCalls) 0 0 := by
  have exact_condition :=
    (sameVerdict_iff crowded (fun _ => crowdCalls) crowded_conversing (by decide) 0 0).1
  have divided := exact_condition.not.mp crowded_divided
  rwa [not_or, not_not, not_not] at divided

/-- The lanes have made their calls where lane 0 comes first, and are reported where lane 2 has
parked before lane 1 comes to its first call. -/
theorem crossing_divided : Conversing crossing (fun _ => crossCalls) ∧ ¬ SameVerdict crossing 0 0 := by
  refine ⟨crossing_conversing, ?_⟩
  have silent : ¬ Reported (crossing.choosing fun _ => .replay [] 0) 0 0 := by
    refine not_reported_of_halted (N := 20) ?_ ?_
    · rw [Machine.Halted, ← Option.isNone_iff_eq_none]
      set_option maxRecDepth 100000 in decide +kernel
    · set_option maxRecDepth 100000 in decide +kernel
  have ended : ∀ i < (crossing.config.geometry 0).total,
      ((run (crossing.choosing fun _ => .replay [] 0)).state 20).sched.status i = .finished := by
    set_option maxRecDepth 100000 in decide +kernel
  have live : ((run (crossing.choosing fun _ => .replay [] 0)).state 20).sched.aborted = false := by
    set_option maxRecDepth 100000 in decide +kernel
  have returned : Returned (crossing.choosing fun _ => .replay [] 0) 0 0 :=
    returned_of_finished (by decide) live fun i lane => ended i lane.1
  have reported : Reported (crossing.choosing fun _ => .replay [2, 2, 1, 1] 0) 0 0 :=
    ⟨3, .warpMaskMismatch 0 0 .syncWarp ⟨"kernel.rs", 7, 5⟩ 1 0b011 2 0b110,
      ⟨[_], by set_option maxRecDepth 100000 in decide +kernel, List.mem_singleton_self _⟩, rfl⟩
  exact not_sameVerdict ⟨silent, returned⟩ reported

end Launch

end Riri
