import Riri.Run.Standing

/-!
# Between the halves of a collective

The members of a mask are let go from the first half of a collective together, and depart
together: until the last of them has joined the second half each of them is on its way there or
parked in it, whatever other groups of the warp do. So nobody in a second half waits for a lane
that does not come.
-/
namespace Riri.Launch

open Scheduler (Mate Rests)

variable {V : Type}

/-- Let go from the first half of `c` and not yet from the second. -/
inductive Departing (s : Launch V) (i : Nat) (c : Collective V) : Prop
  | exchanging (pc : (s.threads i).pc = .arrived c) (free : s.sched.status i = .runnable)
  | parked (answer : Resp V) (pc : (s.threads i).pc = .departed c answer)
      (waits : s.sched.status i = .atWarp)

/-- A lane departs in company of its mates, from one collective. -/
def Joined (env : Env V) (s : Launch V) : Prop :=
  ∀ i c, Departing s i c → ∀ p, Mate (s.geometry env) i c.mask p →
    ∃ own, own.wait .depart = c.wait .depart ∧ Departing s p own

def Member (env : Env V) (s : Launch V) (slot : Nat) (mask : Mask) (p : Nat) : Prop :=
  (s.geometry env).SameWarp p slot ∧ mask.names ((s.geometry env).laneOf p) = true

structure Begins (env : Env V) (s : Launch V) (me : Nat) (c : Collective V) (s' : Launch V) :
    Prop where
  fresh : ∀ p, Member env s me c.mask p → ∀ own, ¬ Departing s p own
  joined : ∀ p, Member env s me c.mask p →
    ∃ own, own.wait .depart = c.wait .depart ∧ Departing s' p own
  others : ∀ p, ¬ Member env s me c.mask p → ∀ own, Departing s' p own ↔ Departing s p own

/-- The last lane of a group joins the second half, in which all others are parked, and the
group is let go. -/
structure Ends (env : Env V) (s : Launch V) (me : Nat) (c : Collective V) (s' : Launch V) :
    Prop where
  last : (s.threads me).pc = .arrived c
  named : Member env s me c.mask me
  waiting : ∀ p, Mate (s.geometry env) me c.mask p →
    s.sched.status p = .atWarp ∧ s.sched.warpWait p = some (c.wait .depart)
  released : ∀ p, Member env s me c.mask p → ∃ own answer,
    own.wait .depart = c.wait .depart ∧ Departing s p own ∧
      (s'.threads p).pc = .departed own answer ∧ s'.sched.status p = .runnable
  others : ∀ p, ¬ Member env s me c.mask p → ∀ own, Departing s' p own ↔ Departing s p own

/-- What a step makes of the lanes that depart. -/
inductive Departures (env : Env V) (s : Launch V) (me : Nat) (s' : Launch V) : Prop
  | same (same : ∀ i c, Departing s' i c ↔ Departing s i c)
  | begins {c : Collective V} (begins : Begins env s me c s')
  | ends {c : Collective V} (ends : Ends env s me c s')

variable {env : Env V} {s s' : Launch V} {me i : Nat} {c : Collective V}

theorem Departing.collective (h : Departing s i c) : (s.threads i).pc.collective? = some c := by
  cases h with
  | exchanging pc | parked _ pc => rw [pc]; rfl

theorem Departing.unique {own : Collective V} (h : Departing s i c) (other : Departing s i own) :
    c = own := Option.some.inj (h.collective.symm.trans other.collective)

theorem Departing.status (h : Departing s i c) :
    s.sched.status i = .runnable ∨ s.sched.status i = .atWarp := by
  cases h with
  | exchanging _ free => exact .inl free
  | parked _ _ waits => exact .inr waits

theorem departing_congr (thread : s'.threads i = s.threads i)
    (status : s'.sched.status i = s.sched.status i) : Departing s' i c ↔ Departing s i c := by
  have one_way : ∀ {a b : Launch V}, b.threads i = a.threads i →
      b.sched.status i = a.sched.status i → Departing a i c → Departing b i c := by
    intro a b thread status h
    cases h with
    | exchanging pc free => exact .exchanging (by rw [thread, pc]) (status.trans free)
    | parked answer pc waits => exact .parked answer (by rw [thread, pc]) (status.trans waits)
  exact ⟨one_way thread.symm status.symm, one_way thread status⟩

/-- Who runs outside a collective, or has been let go from the second half, does not depart. -/
theorem not_departing_of_running (free : s.sched.status i = .runnable)
    (away : ∀ c, (s.threads i).pc ≠ .arrived c) : ¬ Departing s i c := by
  intro h
  cases h with
  | exchanging pc => exact away c pc
  | parked _ _ waits =>
    rw [free] at waits
    cases waits

theorem not_departing_of_outside (outside : (s.threads i).pc.collective? = none) :
    ¬ Departing s i c := by
  intro h
  rw [h.collective] at outside
  cases outside

/-! ### What one step makes of the lanes that depart -/

/-- A lane parked in a second half departs from there. -/
theorem Standing.departing (standing : Standing env s) (parked : s.sched.status i = .atWarp)
    {wait : WarpWait} (waits : s.sched.warpWait i = some wait) (phase : wait.phase = .depart) :
    ∃ own, own.wait .depart = wait ∧ Departing s i own := by
  obtain ⟨at_, inside, here⟩ := (standing.settled i).waits_of_atWarp parked
  obtain rfl := Option.some.inj (here.symm.trans waits)
  cases pc : (s.threads i).pc with
  | departed own answer =>
    rw [pc] at inside
    exact ⟨own, Option.some.inj inside, .parked answer pc parked⟩
  | arrived own =>
    rw [pc] at inside
    rw [← Option.some.inj inside] at phase
    cases phase
  | _ =>
    rw [pc] at inside
    cases inside

/-- A lane parked in a first half does not depart. -/
theorem Standing.not_departing (standing : Standing env s) (parked : s.sched.status i = .atWarp)
    {wait : WarpWait} (waits : s.sched.warpWait i = some wait) (phase : wait.phase = .arrive) :
    (∃ own, own.wait .arrive = wait ∧ (s.threads i).pc = .arrived own) ∧ ¬ Departing s i c := by
  obtain ⟨at_, inside, here⟩ := (standing.settled i).waits_of_atWarp parked
  obtain rfl := Option.some.inj (here.symm.trans waits)
  cases pc : (s.threads i).pc with
  | departed own answer =>
    rw [pc] at inside
    rw [← Option.some.inj inside] at phase
    cases phase
  | arrived own =>
    rw [pc] at inside
    refine ⟨⟨own, Option.some.inj inside, rfl⟩, fun h => ?_⟩
    cases h with
    | exchanging _ free =>
      rw [parked] at free
      cases free
    | parked _ other =>
      rw [pc] at other
      cases other
  | _ =>
    rw [pc] at inside
    cases inside

/-- What a lane parked in a second half waits for. -/
theorem Standing.depart_wait (standing : Standing env s) {answer : Resp V}
    (pc : (s.threads i).pc = .departed c answer) (parked : s.sched.status i = .atWarp) :
    s.sched.warpWait i = some (c.wait .depart) := by
  obtain ⟨wait, inside, here⟩ := (standing.settled i).waits_of_atWarp parked
  rw [pc] at inside
  exact here.trans inside.symm

/-- Only its own thread moves, in or out of no collective. -/
theorem Departures.of_own (others : ∀ i, i ≠ me → s'.threads i = s.threads i ∧
      s'.sched.status i = s.sched.status i)
    (own : ∀ c, Departing s' me c ↔ Departing s me c) : Departures env s me s' := by
  refine .same fun i c => ?_
  by_cases mine : i = me
  · rw [mine]
    exact own c
  · exact departing_congr (others i mine).1 (others i mine).2

theorem mem_members_iff {mask : Mask} {p : Nat} :
    p ∈ (s.geometry env).members ((s.geometry env).blockOf me) ((s.geometry env).warpOf me) mask ↔
      Member env s me mask p := by
  rw [(s.geometry env).mem_members, ← and_assoc]
  rfl

/-- Who is let go from a rendezvous is runnable, all others are as they were. -/
theorem rendezvousReleased_status {g : Geometry} {sched : Scheduler.State} {wait : WarpWait}
    (named : wait.mask.names (g.laneOf me) = true) (p : Nat) :
    (Scheduler.rendezvousReleased g me wait sched).status p =
      if p ∈ g.members (g.blockOf me) (g.warpOf me) wait.mask then .runnable
      else sched.status p := by
  by_cases member : p ∈ g.members (g.blockOf me) (g.warpOf me) wait.mask
  · simp [Scheduler.rendezvousReleased, Scheduler.setAll, member]
  · have away : p ≠ me := by
      rintro rfl
      exact member (g.mem_members.mpr ⟨rfl, rfl, named⟩)
    simp [Scheduler.rendezvousReleased, Scheduler.setAll, member, away]

theorem Shifts.departures (shifts : Shifts env s me s') (standing : Standing env s)
    (running : s.sched.status me = .runnable) : Departures env s me s' := by
  cases shifts with
  | finish pc op stands =>
    have idle : ∀ t : Launch V, t.threads = s.threads → ∀ c, ¬ Departing t me c := by
      intro t threads c
      exact not_departing_of_outside (by rw [threads, pc]; rfl)
    refine .of_own (fun i away => ⟨by rw [stands.threads], ?_⟩)
      fun c => iff_of_false (idle s' stands.threads c) (idle s rfl c)
    rw [stands.rests.status]
    exact Function.update_of_ne away ..
  | arrive pc loc op waiting stands =>
    refine .of_own (fun i away => ⟨by rw [stands.threads]; simp [away], ?_⟩) fun c =>
      iff_of_false (not_departing_of_outside ?_) (not_departing_of_outside (by rw [pc]; rfl))
    · rw [stands.rests.status]
      exact Function.update_of_ne away ..
    · rw [stands.threads, setPc_self]
      rfl
  | release pc loc op everyone stands =>
    refine .same fun i c => ?_
    by_cases mates : (s.geometry env).blockOf i = (s.geometry env).blockOf me
    · -- The block was inside the barrier and still is.
      refine iff_of_false (not_departing_of_outside ?_) (not_departing_of_outside ?_)
      · rw [stands.threads]
        by_cases mine : i = me
        · rw [mine, setPc_self]
          rfl
        · rw [setPc_of_ne _ _ mine, (standing.settled i).pc_of_atBarrier (everyone i mates mine)]
          rfl
      · by_cases mine : i = me
        · rw [mine, pc]
          rfl
        · rw [(standing.settled i).pc_of_atBarrier (everyone i mates mine)]
          rfl
    · have away : i ≠ me := fun same => mates (by rw [same])
      refine departing_congr (by rw [stands.threads]; simp [away]) ?_
      rw [stands.rests.status]
      simp [Scheduler.barrierReleased, Scheduler.setAll, Geometry.mem_blockRange, mates, away]
  | access pc m op stands =>
    refine .of_own (fun i away => ⟨by rw [stands.threads]; simp [away], by rw [stands.rests.status]⟩)
      fun c => iff_of_false (not_departing_of_outside ?_)
        (not_departing_of_outside (by rw [pc]; rfl))
    rw [stands.threads, setPc_self]
    rfl
  | collective pc c op stands =>
    refine .of_own (fun i away => ⟨by rw [stands.threads]; simp [away], by rw [stands.rests.status]⟩)
      fun c => iff_of_false (not_departing_of_outside ?_)
        (not_departing_of_outside (by rw [pc]; rfl))
    rw [stands.threads, setPc_self]
    rfl
  | answer a pc stands =>
    refine .of_own (fun i away => ⟨by rw [stands.threads]; simp [away], by rw [stands.rests.status]⟩)
      fun c => iff_of_false (not_departing_of_outside ?_)
        (not_departing_of_running running fun c inside => ?_)
    · rw [stands.threads, answer_self]
      rfl
    · rw [inside] at pc
      simp at pc
  | @park pc' wait joins missing stands =>
    refine .of_own (fun i away => ⟨by rw [stands.threads]; simp [away], ?_⟩) fun own => ?_
    · rw [stands.rests.status]
      exact Function.update_of_ne away ..
    · have parked : s'.sched.status me = .atWarp := by
        rw [stands.rests.status]
        exact Function.update_self ..
      have inside : (s'.threads me).pc = pc' := by rw [stands.threads, setPc_self]
      generalize at_ : (s.threads me).pc = pc at joins
      cases joins with
      | arrive c checked =>
        refine iff_of_false (fun h => ?_) (not_departing_of_outside (by rw [at_]; rfl))
        cases h with
        | exchanging _ free =>
          rw [parked] at free
          cases free
        | parked _ other =>
          rw [inside] at other
          cases other
      | depart c answer =>
        have before : Departing s me c := .exchanging at_ running
        have after : Departing s' me c := .parked answer inside parked
        constructor
        · intro h
          rw [← after.unique h]
          exact before
        · intro h
          rw [← before.unique h]
          exact after
  | @gather pc' wait joins everyone stands =>
    have named := standing.names joins
    have status := fun p => (congrFun stands.rests.status p).trans
      (rendezvousReleased_status named p)
    have others : ∀ p, ¬ Member env s me wait.mask p →
        ∀ own, Departing s' p own ↔ Departing s p own := by
      intro p outside own
      have away : p ≠ me := by
        rintro rfl
        exact outside ⟨⟨rfl, rfl⟩, named⟩
      refine departing_congr (by rw [stands.threads]; simp [away]) ?_
      rw [status]
      exact if_neg fun member => outside (mem_members_iff.mp member)
    have free : ∀ p, Member env s me wait.mask p → s'.sched.status p = .runnable := by
      intro p member
      rw [status]
      exact if_pos (mem_members_iff.mpr member)
    have mate : ∀ p, Member env s me wait.mask p → p ≠ me →
        Mate (s.geometry env) me wait.mask p := fun p member away =>
      ⟨member.1, member.2, away⟩
    have inside : (s'.threads me).pc = pc' := by rw [stands.threads, setPc_self]
    have others_pc : ∀ p, p ≠ me → (s'.threads p).pc = (s.threads p).pc := fun p away => by
      rw [stands.threads, setPc_of_ne _ _ away]
    generalize at_ : (s.threads me).pc = pc at joins
    cases joins with
    | arrive c checked =>
      refine .begins (c := c) ⟨fun p member own => ?_, fun p member => ?_, others⟩
      · by_cases mine : p = me
        · exact not_departing_of_outside (by rw [mine, at_]; rfl)
        · obtain ⟨parked, waits⟩ := everyone p (mate p member mine)
          exact (standing.not_departing parked waits rfl).2
      · by_cases mine : p = me
        · subst mine
          exact ⟨c, rfl, .exchanging inside (free p member)⟩
        · obtain ⟨parked, waits⟩ := everyone p (mate p member mine)
          obtain ⟨⟨own, same, pc⟩, -⟩ := standing.not_departing (c := c) parked waits rfl
          obtain ⟨-, mask, loc, op⟩ := WarpWait.mk.inj same
          refine ⟨own, ?_, .exchanging ((others_pc p mine).trans pc) (free p member)⟩
          unfold Collective.wait
          rw [mask, loc, op]
    | depart c answer =>
      refine .ends (c := c) ⟨at_, ⟨⟨rfl, rfl⟩, named⟩, everyone, fun p member => ?_,
        others⟩
      by_cases mine : p = me
      · subst mine
        exact ⟨c, answer, rfl, .exchanging at_ running, inside, free p member⟩
      · obtain ⟨parked, waits⟩ := everyone p (mate p member mine)
        obtain ⟨own, same, departing⟩ := standing.departing parked waits rfl
        cases departing with
        | exchanging _ runs =>
          rw [parked] at runs
          cases runs
        | parked theirs pc waits =>
          exact ⟨own, theirs, same, .parked theirs pc waits, (others_pc p mine).trans pc,
            free p member⟩

/-! ### Who departs has company -/

theorem Departures.joined (departures : Departures env s me s') (standing : Standing env s)
    (same : s'.geometry env = s.geometry env) (joined : Joined env s) : Joined env s' := by
  intro i c departs p mate
  rw [same] at mate
  cases departures with
  | same keeps =>
    obtain ⟨own, agrees, theirs⟩ := joined i c ((keeps i c).mp departs) p mate
    exact ⟨own, agrees, (keeps p own).mpr theirs⟩
  | @begins c' begins =>
    by_cases member : Member env s me c'.mask i
    · obtain ⟨own, agrees, mine⟩ := begins.joined i member
      obtain rfl := mine.unique departs
      have mask : own.mask = c'.mask := congrArg WarpWait.mask agrees
      rw [mask] at mate
      obtain ⟨theirs, others, departing⟩ := begins.joined p
        ⟨⟨mate.1.1.trans member.1.1, mate.1.2.trans member.1.2⟩, mate.2.1⟩
      exact ⟨theirs, others.trans agrees.symm, departing⟩
    · obtain ⟨own, agrees, theirs⟩ := joined i c ((begins.others i member c).mp departs) p mate
      -- A lane that departs already is not in a group that begins to.
      have outside : ¬ Member env s me c'.mask p := fun inside => begins.fresh p inside own theirs
      exact ⟨own, agrees, (begins.others p outside own).mpr theirs⟩
  | @ends c' ends =>
    by_cases member : Member env s me c'.mask i
    · obtain ⟨own, answer, -, -, pc, free⟩ := ends.released i member
      refine absurd departs (not_departing_of_running free fun other inside => ?_)
      rw [pc] at inside
      cases inside
    · have before := (ends.others i member c).mp departs
      obtain ⟨own, agrees, theirs⟩ := joined i c before p mate
      refine ⟨own, agrees, (ends.others p (fun inside => member ?_) own).mpr theirs⟩
      -- A mate in the group would have the group's mask, and so would this lane.
      obtain ⟨own', -, same_wait, departing, -⟩ := ends.released p inside
      obtain rfl := departing.unique theirs
      have mask : c.mask = c'.mask := congrArg WarpWait.mask (agrees.symm.trans same_wait)
      have warp := inside.1
      refine ⟨⟨mate.1.1.symm.trans warp.1, mate.1.2.symm.trans warp.2⟩, ?_⟩
      rw [← mask]
      exact standing.named i c before.collective

theorem joined_of_ready (ready : ∀ i, (s.threads i).pc = .ready) : Joined env s := by
  intro i c departs
  exact absurd departs (not_departing_of_outside (by rw [ready]; rfl))

theorem Shifts.joined (shifts : Shifts env s me s') (standing : Standing env s)
    (running : s.sched.status me = .runnable) (joined : Joined env s) : Joined env s' :=
  (shifts.departures standing running).joined standing shifts.geometry joined

variable [BEq V]

theorem joined_run {n : Nat} (live : Live ((run env).state n)) : Joined env ((run env).state n) := by
  induction n with
  | zero => exact joined_of_ready fun _ => rfl
  | succ n ih =>
    have before := ih (live_of_succ live)
    rcases (run env).step_cases n with ⟨l, -, moved⟩ | ⟨-, stays⟩
    · obtain ⟨earlier, ⟨-, -, -, next⟩ | ⟨slot, current, resumed⟩⟩ := step_cases env moved
      · rw [next]
        exact joined_of_ready fun _ => rfl
      · rcases resumed.shifts with shifts | stops
        · exact shifts.joined (standing_run earlier) ((wellFormed earlier).running current).2 before
        · exact absurd live stops.stopped
    · rw [stays]
      exact before

/-! ### A second half lacks only lanes that are on their way -/

omit [BEq V] in
/-- While lanes depart, one of the group is still to join the second half, and can. -/
theorem exists_exchanging (standing : Standing env s) (joined : Joined env s)
    (departs : Departing s i c) : ∃ p own, Member env s i c.mask p ∧
      own.wait .depart = c.wait .depart ∧ (s.threads p).pc = .arrived own ∧
      s.sched.status p = .runnable := by
  cases departs with
  | exchanging pc free =>
    exact ⟨i, c, ⟨⟨rfl, rfl⟩, standing.named i c (by rw [pc]; rfl)⟩, rfl, pc, free⟩
  | parked answer pc waits =>
    obtain ⟨p, mate, absent⟩ := standing.waiting.warp waits (standing.depart_wait pc waits)
    obtain ⟨own, agrees, theirs⟩ := joined i c (.parked answer pc waits) p mate
    cases theirs with
    | exchanging inside free => exact ⟨p, own, ⟨mate.1, mate.2.1⟩, agrees, inside, free⟩
    | parked theirs inside parked =>
      refine absurd ⟨parked, ?_⟩ absent
      rw [← agrees]
      exact standing.depart_wait inside parked

omit [BEq V] in
/-- Whoever is parked in the second half at the same place departs with this lane, or has no
business with it. -/
theorem depart_agrees (standing : Standing env s) (joined : Joined env s)
    (departs : Departing s me c) (p : Nat) (other : WarpWait) :
    ¬ Scheduler.Disagrees (s.geometry env) s.sched me (c.wait .depart) p other := by
  rintro ⟨warp, away, parked, waits, phase, -, mask, claims⟩
  obtain ⟨own, rfl, theirs⟩ := standing.departing parked waits phase
  refine mask ?_
  rcases claims with named | named
  · obtain ⟨own', agrees, departing⟩ := joined me c departs p ⟨warp, named, away⟩
    obtain rfl := departing.unique theirs
    exact congrArg WarpWait.mask agrees
  · obtain ⟨own', agrees, departing⟩ :=
      joined p own theirs me ⟨⟨warp.1.symm, warp.2.symm⟩, named, away.symm⟩
    obtain rfl := departing.unique departs
    exact (congrArg WarpWait.mask agrees).symm

omit [BEq V] in
/-- Joining the second half fails for no lane that was let go from the first. -/
theorem depart_live (standing : Standing env s) (joined : Joined env s) (live : Live s)
    (inside : me < (s.geometry env).total) (pc : (s.threads me).pc = .arrived c)
    (free : s.sched.status me = .runnable) :
    (Scheduler.warpRendezvous (s.geometry env) me (c.wait .depart) s.sched).1.aborted = false ∧
      (Scheduler.warpRendezvous (s.geometry env) me (c.wait .depart) s.sched).2 = [] := by
  have departs : Departing s me c := .exchanging pc free
  have goes_on : ∀ (t : Scheduler.State) (p : Nat), t.aborted = false →
      p < (s.geometry env).total → t.status p = .runnable →
      (Scheduler.handOffUnlessFailed (s.geometry env) (t, [])).1.aborted = false ∧
        (Scheduler.handOffUnlessFailed (s.geometry env) (t, [])).2 = [] := by
    intro t p running bound can
    have somebody : Scheduler.runnable (s.geometry env) t ≠ [] :=
      List.ne_nil_of_mem ((Scheduler.mem_runnable _).mpr ⟨bound, can⟩)
    obtain ⟨turned, silent⟩ := Scheduler.handOff_turned _ somebody
    simp only [Scheduler.handOffUnlessFailed, running, Bool.false_eq_true, if_false, silent]
    exact ⟨turned.aborted.trans running, rfl⟩
  unfold Scheduler.warpRendezvous
  rcases Scheduler.rendezvousEnter_cases (s.geometry env) me (c.wait .depart) s.sched with
    ⟨p, mate, finished, -⟩ | ⟨-, p, other, disagrees, -⟩ | ⟨-, -, enter⟩ | ⟨-, -, missing, enter⟩
  · obtain ⟨own, -, theirs⟩ := joined me c departs p mate
    rcases theirs.status with runs | parked
    · rw [finished] at runs
      cases runs
    · rw [finished] at parked
      cases parked
  · exact absurd disagrees (depart_agrees standing joined departs p other)
  · rw [enter]
    refine goes_on _ me live inside ?_
    rw [rendezvousReleased_status (standing.named me c departs.collective)]
    exact if_pos (mem_members_iff.mpr ⟨⟨rfl, rfl⟩, standing.named me c departs.collective⟩)
  · obtain ⟨p, mate, absent⟩ := missing
    obtain ⟨own, agrees, theirs⟩ := joined me c departs p mate
    rw [enter]
    cases theirs with
    | exchanging _ runs =>
      refine goes_on _ p live ?_ ((Function.update_of_ne mate.2.2 ..).trans runs)
      exact (s.geometry env).lt_total_of_blockOf
        (by rw [mate.1.1]; exact (s.geometry env).blockOf_lt inside)
    | parked answer at_ parked =>
      refine absurd ⟨parked, ?_⟩ absent
      rw [← agrees]
      exact standing.depart_wait at_ parked

end Riri.Launch
