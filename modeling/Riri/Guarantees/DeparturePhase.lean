import Riri.Guarantees.DivergenceReports
import Riri.Guarantees.WarpExchange

/-!
# The departure phase never fails

Whoever is let go from the first half of a collective goes straight on to the second, so lanes
that wait there wait for lanes that come. Neither the early checks nor the deadlock detector ever
find somebody missing from a second half, whatever other groups of the warp are doing.
-/
namespace Riri.Launch

open Scheduler (Mate MadeFor Involved)

variable {V : Type}

structure RaisedFor (g : Geometry) (s : Scheduler.State) (i : Nat) (wait : WarpWait)
    (d : Diagnostic) : Prop where
  parked : s.status i = .atWarp
  waits : s.warpWait i = some wait
  involved : Involved g s i d
  block : d.schedBlock? = some (g.blockOf i)

/-- The members of a mask between the two halves: on the way to the second or parked in it, and
one of them can run. -/
structure Underway (given : Nat → Collective V) (group : Nat → Prop) (s : Launch V) : Prop where
  members : ∀ p, group p →
    ((s.threads p).pc = .arrived (given p) ∧ s.sched.status p = .runnable) ∨
      ∃ answer, (s.threads p).pc = .departed (given p) answer ∧ s.sched.status p = .atWarp ∧
        s.sched.warpWait p = some ((given p).wait .depart)
  able : ∃ p, group p ∧ s.sched.status p = .runnable

variable {env : Env V} {s s' : Launch V} {me i : Nat} {wait : WarpWait}

/-! ### Whom the findings are about -/

/-- No report of a missing lane is that of a lane in a second half: its mates have been let go
from the first half like itself, and one of them can run. -/
theorem phase_of_founded (standing : Standing env s) (joined : Joined env s) {d : Diagnostic}
    (founded : Scheduler.Founded (s.geometry env) s.sched d)
    (made : MadeFor (s.geometry env) s.sched i wait d) : wait.phase = .arrive := by
  cases phase : wait.phase with
  | arrive => rfl
  | depart =>
    exfalso
    obtain ⟨own, rfl, departs⟩ := standing.departing made.parked made.waits phase
    rcases founded with ⟨j, other, q, theirs, mate, gone⟩ | ⟨nobody, -, member⟩
    · obtain ⟨block, warp, -, mask, -⟩ :=
        Diagnostic.warpDivergence.inj (made.report.symm.trans theirs.report)
      have away : q ≠ i := by
        rintro rfl
        cases gone.symm.trans made.parked
      rw [← mask] at mate
      obtain ⟨_, -, left⟩ := joined i own departs q
        ⟨⟨mate.1.1.trans block.symm, mate.1.2.trans warp.symm⟩, mate.2.1, away⟩
      rcases left.status with free | parked
      · cases gone.symm.trans free
      · cases gone.symm.trans parked
    · obtain ⟨p, _, near, -, -, free⟩ := exists_exchanging standing joined departs
      rw [made.report] at member
      have in_grid := (Scheduler.stuckWarp_of_mem member).1
      have inside : p < (s.geometry env).total :=
        (s.geometry env).lt_total_of_blockOf (by rw [near.1.1]; exact in_grid)
      have listed := (Scheduler.mem_runnable (s.geometry env)).mpr ⟨inside, free⟩
      rw [nobody] at listed
      cases listed

theorem RaisedFor.madeFor {g : Geometry} {sched : Scheduler.State} {d : Diagnostic}
    (raised : RaisedFor g sched i wait d) (misses : d.missesLane = true) :
    MadeFor g sched i wait d := by
  cases d with
  | warpDivergence block warp op mask arrived loc =>
    obtain ⟨rfl, -, phase, waits, rfl⟩ := raised.involved
    obtain rfl := Option.some.inj (raised.waits.symm.trans waits)
    obtain rfl := Option.some.inj raised.block
    exact ⟨raised.parked, raised.waits, rfl⟩
  | _ => cases misses

variable [BEq V]

/-- What a step reports: nothing of the scheduler's, a divergence, or that two lanes disagree
about the half its thread joins. -/
theorem Resumed.reports {l : Label V} (resumed : Resumed env s me l s') (live : Live s) :
    ∃ ds, s'.raised = s.raised ++ ds ∧ ∀ d ∈ ds, d.schedBlock? = none ∨ d.diverges = true ∨
      ∃ wait pc' p other, Joins (s.geometry env) me (s.threads me).pc pc' wait ∧
        Scheduler.Disagrees (s.geometry env) s.sched me wait p other ∧
        d = .warpMaskMismatch ((s.geometry env).blockOf me) ((s.geometry env).warpOf me) wait.op
          wait.loc ((s.geometry env).laneOf me) wait.mask ((s.geometry env).laneOf p) other.mask ∧
        s'.sched.warpWait me = some wait := by
  obtain ⟨before, r, operates, sched, grown, plain⟩ := resumed.operates
  refine ⟨_, grown, fun d member => ?_⟩
  rcases List.mem_append.mp member with other | own
  · exact .inl (plain d other)
  refine .inr ?_
  cases operates with
  | none | abort => cases own
  | yield => exact .inl ((Scheduler.handOff_quiet live).diverges own)
  | barrier loc => exact .inl (Scheduler.barrier_diverges live own)
  | finish => exact .inl (Scheduler.finish_diverges live own)
  | @rendezvous pc' wait joins =>
    refine (Scheduler.warpRendezvous_diverges live own).imp_right ?_
    rintro ⟨p, other, disagrees, same, waits⟩
    exact ⟨wait, pc', p, other, joins, disagrees, same, by rw [sched, waits]⟩

/-- A finding that lanes do not come together is made for a lane in a first half. -/
theorem phase_of_raised {n : Nat} {d : Diagnostic} (raised : RaisedAt env n d)
    (made : RaisedFor (((run env).state (n + 1)).geometry env) ((run env).state (n + 1)).sched
      i wait d) : wait.phase = .arrive := by
  obtain ⟨me, l, live, current, resumed⟩ := resumed_of_raised raised
  have running := ((wellFormed live).running current).2
  have standing := standing_run live
  have joined := joined_run live
  cases misses : d.missesLane with
  | true =>
    have diverges : d.diverges = true := by
      cases d <;> first | rfl | cases misses
    obtain ⟨me, -, current, shifts, after⟩ := shifts_of_raised raised diverges
    exact phase_of_founded after
      (shifts.joined standing ((wellFormed live).running current).2 joined)
      (founded_of_raised raised misses) (made.madeFor misses)
  | false =>
    obtain ⟨pushed, grown, member⟩ := raised
    obtain ⟨ds, same, kinds⟩ := resumed.reports live
    obtain rfl := List.append_cancel_left (grown.symm.trans same)
    have same_geometry : ((run env).state (n + 1)).geometry env = ((run env).state n).geometry env := by
      simp only [geometry, resumed.wave.2]
    have block := made.block
    have involved := made.involved
    rw [same_geometry] at block involved
    rcases kinds d member with plain | diverges | ⟨at_, pc', p, other, joins, disagrees, rfl, waits⟩
    · cases plain.symm.trans block
    · cases d with
      | barrierDivergence =>
        have at_barrier := involved.1
        cases at_barrier.symm.trans made.parked
      | warpDivergence => cases misses
      | _ => cases diverges
    · -- A mismatch is that of the arriving lane itself.
      obtain ⟨warp, lane, -⟩ := involved
      have mine : i = me := (((run env).state n).geometry env).eq_of_laneOf
        ⟨(Option.some.inj block).symm, warp⟩ lane
      subst mine
      obtain rfl := Option.some.inj (made.waits.symm.trans waits)
      generalize at_ : (((run env).state n).threads i).pc = pc at joins
      cases joins with
      | arrive => rfl
      | depart c answer =>
        exfalso
        have agree := depart_agrees standing joined (.exchanging at_ running)
        exact agree p other disagrees

/-! ### The members of an instance -/

section

variable {k : Nat} {cx : Ctx} {c : Collective V} (gathers : Gathers env k cx c)
include gathers

/-- Members that depart are on the way or parked, and one of them can run. -/
theorem Gathers.underway_of_departing {given : Nat → Collective V} {n : Nat}
    (live : Live ((run env).state n))
    (wave : ((run env).state n).firstBlock = ((run env).state k).firstBlock)
    (passed : ∀ q, Member env ((run env).state k) cx.slot c.mask q →
      (((run env).state (k + 1)).threads q).pc = .arrived (given q))
    (departing : ∀ q, Member env ((run env).state k) cx.slot c.mask q →
      Departing ((run env).state n) q (given q)) :
    Underway given (Member env ((run env).state k) cx.slot c.mask) ((run env).state n) := by
  refine ⟨fun p member => ?_, ?_⟩
  · cases departing p member with
    | exchanging pc free => exact .inl ⟨pc, free⟩
    | parked answer pc waits =>
      exact .inr ⟨answer, pc, waits, (standing_run live).depart_wait pc waits⟩
  · have own := gathers.checked.2
    obtain ⟨p, _, near, -, -, free⟩ :=
      exists_exchanging (standing_run live) (joined_run live) (departing cx.slot own)
    have same_geometry : ((run env).state n).geometry env = ((run env).state k).geometry env := by
      simp only [geometry, wave]
    unfold Member at near
    rw [same_geometry, show (given cx.slot).mask = c.mask from
      congrArg WarpWait.mask (gathers.agree passed own)] at near
    exact ⟨p, near, free⟩

/-- A member that takes a step before its group has been let go joins the second half, and the
launch goes on. -/
theorem Gathers.steps_on {given : Nat → Collective V}
    (passed : ∀ q, Member env ((run env).state k) cx.slot c.mask q →
      (((run env).state (k + 1)).threads q).pc = .arrived (given q))
    (types : ∀ p q, Member env ((run env).state k) cx.slot c.mask p →
      Member env ((run env).state k) cx.slot c.mask q → ∀ v w,
        (given p).exchange.own = some v → (given q).exchange.own = some w →
          env.typeTag v = env.typeTag w)
    {n p : Nat} {l : Label V} (labelled : (run env).label n = some l)
    (wave : ((run env).state n).firstBlock = ((run env).state k).firstBlock)
    (departing : ∀ q, Member env ((run env).state k) cx.slot c.mask q →
      Departing ((run env).state n) q (given q))
    (member : Member env ((run env).state k) cx.slot c.mask p)
    (thread : l.ctx? = some (((run env).state k).ctx env p)) :
    Live ((run env).state (n + 1)) ∧
      ∃ answer, l = .exchange (((run env).state k).ctx env p) (given p) answer := by
  have live := live_of_label labelled
  obtain ⟨slot, current, here, inside, free, resumed⟩ := label_slot labelled thread
  obtain rfl : slot = p := (congrArg Ctx.slot here).symm
  have pc : (((run env).state n).threads slot).pc = .arrived (given slot) := by
    cases departing slot member with
    | exchanging pc => exact pc
    | parked _ _ waits => cases free.symm.trans waits
  have together := gathers.together passed wave departing member pc free
  obtain ⟨answer, problems, combined, -⟩ := gathers.reads passed types live wave member together
  have moved := resume_of_label labelled current
  simp only [resume, pc, exchange, combined] at moved
  obtain ⟨rfl, next⟩ := Prod.mk.inj moved
  rw [here]
  refine ⟨?_, answer, rfl⟩
  rw [← next]
  exact (depart_live (standing_run live) (joined_run live) live inside pc free).1

end

/-- The departure phase never fails. Once the members of a mask have been let go together from
the first half of a collective, then as long as the launch runs each of them is on its way to
the second half of it or parked there, and one of them can run, until all of them are let go
together; if they passed values of one type, no step of theirs stops the launch. So lanes are
found not to come together only in a first half. -/
theorem departure_never_fails (env : Env V) :
    (∀ k cx c, Gathers env k cx c →
      let s := (run env).state k
      let group := Member env s cx.slot c.mask
      ∃ given : Nat → Collective V,
        (∀ p, group p → (((run env).state (k + 1)).threads p).pc = .arrived (given p) ∧
          (given p).wait .depart = c.wait .depart) ∧
        (∀ n, k < n → Live ((run env).state n) →
          (∃ m, k < m ∧ m < n ∧ Disperses env m group given) ∨
            Underway given group ((run env).state n)) ∧
        ((∀ p q, group p → group q → ∀ v w, (given p).exchange.own = some v →
            (given q).exchange.own = some w → env.typeTag v = env.typeTag w) →
          ∀ n l p, k < n → (∀ m, k < m → m < n → ¬ Disperses env m group given) →
            (run env).label n = some l → group p → l.ctx? = some (s.ctx env p) →
            Live ((run env).state (n + 1)) ∧
              ∃ answer, l = .exchange (s.ctx env p) (given p) answer)) ∧
    ∀ n d, RaisedAt env n d → d.splitsWarp = true →
      (∃ i wait, RaisedFor (((run env).state (n + 1)).geometry env)
        ((run env).state (n + 1)).sched i wait d) ∧
      ∀ i wait, RaisedFor (((run env).state (n + 1)).geometry env)
        ((run env).state (n + 1)).sched i wait d → wait.phase = .arrive := by
  refine ⟨fun k cx c gathers => ?_, fun n d raised splits => ⟨?_, ?_⟩⟩
  · intro s group
    let given : Nat → Collective V := fun p =>
      ((((run env).state (k + 1)).threads p).pc.collective?).getD c
    have passed : ∀ p, group p →
        (((run env).state (k + 1)).threads p).pc = .arrived (given p) := by
      intro p member
      obtain ⟨own, pc, -⟩ := gathers.released member
      simp [given, pc, Pc.collective?]
    refine ⟨given, fun p member => ⟨passed p member, gathers.agree passed member⟩, ?_, ?_⟩
    · intro n later live
      refine (gathers.underway passed later live).imp_right ?_
      rintro ⟨wave, departing⟩
      exact gathers.underway_of_departing live wave passed departing
    · intro types n l p later silent labelled member thread
      rcases gathers.underway passed later (live_of_label labelled) with
        ⟨m, after, until_, disperses⟩ | ⟨wave, departing⟩
      · exact absurd disperses (silent m after until_)
      · exact gathers.steps_on passed types labelled wave departing member thread
  · obtain ⟨i, -, involved, named⟩ := namesWaveBlock raised
      (by cases d <;> first | (intro none; cases none; done) | cases splits)
    cases d with
    | warpDivergence =>
      obtain ⟨-, parked, phase, waits, -⟩ := id involved
      exact ⟨i, _, parked, waits, involved, named⟩
    | warpMaskMismatch =>
      obtain ⟨-, -, parked, phase, waits⟩ := id involved
      exact ⟨i, _, parked, waits, involved, named⟩
    | _ => cases splits
  · intro i wait made
    exact phase_of_raised raised made

/-- Two lanes that swap their values are let go from the second half together. -/
theorem departure_never_fails_swapping :
    ∃ m, 3 < m ∧ m < 6 ∧ ∃ given, Disperses swapping m
      (Member swapping ((run swapping).state 3)
        (((run swapping).state 3).ctx swapping 1).slot 3#32) given := by
  obtain ⟨given, -, reached, -⟩ := (departure_never_fails swapping).1 3 _ _ swapping_gathers
  have ended : ((run swapping).state 6).sched.aborted = false ∧
      ((run swapping).state 6).sched.status 0 = .runnable ∧
      ((run swapping).state 6).sched.status 1 = .runnable := by
    set_option maxRecDepth 100000 in decide +kernel
  have gone : (((run swapping).state 6).threads 0).pc.waits.map WarpWait.phase = some .depart := by
    set_option maxRecDepth 100000 in decide +kernel
  rcases reached 6 (by decide) ended.1 with ⟨m, after, until_, disperses⟩ | underway
  · exact ⟨m, after, until_, given, disperses⟩
  · rcases underway.members 0 ⟨⟨rfl, rfl⟩, by decide⟩ with ⟨pc, -⟩ | ⟨answer, -, parked, -⟩
    · rw [pc] at gone
      cases gone
    · cases ended.2.1.symm.trans parked

end Riri.Launch
