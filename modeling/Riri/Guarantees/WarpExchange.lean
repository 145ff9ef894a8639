import Riri.Run.Departures
import Riri.Run.Programs
import Riri.Warp.Answers

/-!
# Warp exchange under every interleaving

When the last lane of a mask arrives at a collective, all its members are let go together.
Whatever runs in between, the value each of them then reads is computed from what its
mask-mates passed to this instance: nobody leaves the second half before the last of them has
read the slots.
-/
namespace Riri.Launch

open Scheduler (Mate)

variable {V : Type} [BEq V] {env : Env V}

/-- At time `k` the last lane of `c`'s mask arrives, and all its members are let go. -/
structure Gathers (env : Env V) (k : Nat) (cx : Ctx) (c : Collective V) : Prop where
  arrives : (run env).label k = some (.publish cx c)
  live : Live ((run env).state (k + 1))
  everyone : ∀ p, Mate (((run env).state k).geometry env) cx.slot c.mask p →
    ((run env).state k).sched.status p = .atWarp ∧
      ((run env).state k).sched.warpWait p = some (c.wait .arrive)

/-- At time `n` the last lane of a group joins the second half, in which all others are parked,
and all of them are let go. -/
structure Disperses (env : Env V) (n : Nat) (group : Nat → Prop) (given : Nat → Collective V) :
    Prop where
  last : ∃ p answer, group p ∧
    (run env).label n = some (.exchange (((run env).state n).ctx env p) (given p) answer) ∧
    ∀ q, group q → q ≠ p → ((run env).state n).sched.status q = .atWarp ∧
      ((run env).state n).sched.warpWait q = some ((given q).wait .depart)
  released : ∀ p, group p → ∃ answer,
    (((run env).state (n + 1)).threads p).pc = .departed (given p) answer ∧
      ((run env).state (n + 1)).sched.status p = .runnable

/-- A live step from between the two halves reads the slots. -/
theorem label_of_arrived {n slot : Nat} {l : Label V} {c : Collective V}
    (labelled : (run env).label n = some l)
    (current : ((run env).state n).sched.current = some slot)
    (pc : (((run env).state n).threads slot).pc = .arrived c)
    (live : Live ((run env).state (n + 1))) :
    ∃ answer, l = .exchange (((run env).state n).ctx env slot) c answer := by
  have resumed := resume_of_label labelled current
  simp only [resume, pc, exchange] at resumed
  split at resumed
  · rw [← (Prod.mk.inj resumed).2] at live
    cases live
  next answer problems _ => exact ⟨answer, (Prod.mk.inj resumed).1.symm⟩

/-! ### The group when it is let go -/

section

variable {k : Nat} {cx : Ctx} {c : Collective V} (gathers : Gathers env k cx c)
include gathers

/-- The step that lets the group go. -/
theorem Gathers.move : ∃ slot, cx = ((run env).state k).ctx env slot ∧
    WellFormed env ((run env).state k) ∧ ((run env).state k).sched.current = some slot ∧
    Moves env ((run env).state k) slot (.publish cx c) ((run env).state (k + 1)) := by
  obtain ⟨wf, ⟨idle, -⟩ | ⟨wave, -⟩ | ⟨slot, l, labelled, current, move⟩⟩ := live_step gathers.live
  · rw [gathers.arrives] at idle
    cases idle
  · rw [gathers.arrives] at wave
    cases wave
  · obtain rfl : l = .publish cx c := Option.some.inj (labelled.symm.trans gathers.arrives)
    have here := move.label_ctx
    exact ⟨slot, Option.some.inj here, wf, current, move⟩

/-- All members are inside their call of this collective, let go, with masks, places and
operations that agree. -/
theorem Gathers.released {p : Nat} (member : Member env ((run env).state k) cx.slot c.mask p) :
    ∃ own : Collective V, (((run env).state (k + 1)).threads p).pc = .arrived own ∧
      own.mask = c.mask ∧ own.loc = c.loc ∧ own.exchange.op = c.exchange.op ∧
      ((run env).state (k + 1)).sched.status p = .runnable := by
  obtain ⟨slot, rfl, wf, current, move⟩ := gathers.move
  have everyone := gathers.everyone
  generalize (run env).state (k + 1) = next at move
  cases move with
  | publish _ pc checked alive agree missing turned =>
    obtain ⟨q, mate, absent⟩ := missing
    exact absurd (everyone q mate) absent
  | gather _ pc checked agree _ turned =>
    exact released_of_gather wf.settled everyone turned member.1 member.2

theorem Gathers.checked :
    (∀ l < 32, c.mask.names l = true → l < (((run env).state k).geometry env).lanesIn cx.warp) ∧
      Member env ((run env).state k) cx.slot c.mask cx.slot := by
  obtain ⟨slot, rfl, -, -, move⟩ := gathers.move
  generalize (run env).state (k + 1) = next at move
  cases move with
  | publish _ pc checked | gather _ pc checked =>
    obtain ⟨inside, own⟩ := names_of_checked checked
    exact ⟨inside, ⟨rfl, rfl⟩, own⟩

/-- The wave the group is in has not moved on at a later step of one of its members. -/
theorem Gathers.sameWave {j p : Nat} {l : Label V}
    (member : Member env ((run env).state k) cx.slot c.mask p) (later : k < j)
    (labelled : (run env).label j = some l)
    (thread : l.ctx? = some (((run env).state k).ctx env p)) :
    ((run env).state j).firstBlock = ((run env).state k).firstBlock := by
  obtain ⟨slot, rfl, -⟩ := gathers.move
  refine Launch.sameWave later.le gathers.arrives rfl labelled thread ?_
  exact congrArg (((run env).state k).firstBlock + ·) member.1.1.symm

/-- What each member passed agrees with the last arrival's call. -/
theorem Gathers.agree {given : Nat → Collective V}
    (passed : ∀ q, Member env ((run env).state k) cx.slot c.mask q →
      (((run env).state (k + 1)).threads q).pc = .arrived (given q))
    {p : Nat} (member : Member env ((run env).state k) cx.slot c.mask p) :
    (given p).wait .depart = c.wait .depart := by
  obtain ⟨own, pc, mask, loc, op, -⟩ := gathers.released member
  rw [passed p member] at pc
  obtain rfl : given p = own := by simpa using pc
  unfold Collective.wait
  rw [mask, loc, op]

/-- A group that is let go from a second half with one of the members in it is all the members. -/
theorem Gathers.disperses {given : Nat → Collective V}
    (passed : ∀ q, Member env ((run env).state k) cx.slot c.mask q →
      (((run env).state (k + 1)).threads q).pc = .arrived (given q))
    {n me p : Nat} {l : Label V} {own : Collective V}
    (wave : ((run env).state n).firstBlock = ((run env).state k).firstBlock)
    (departing : ∀ q, Member env ((run env).state k) cx.slot c.mask q →
      Departing ((run env).state n) q (given q))
    (live : Live ((run env).state (n + 1))) (labelled : (run env).label n = some l)
    (current : ((run env).state n).sched.current = some me)
    (ends : Ends env ((run env).state n) me own ((run env).state (n + 1)))
    (member : Member env ((run env).state k) cx.slot c.mask p)
    (inside : Member env ((run env).state n) me own.mask p) :
    Disperses env n (Member env ((run env).state k) cx.slot c.mask) given := by
  have same_geometry : ((run env).state n).geometry env = ((run env).state k).geometry env := by
    simp only [geometry, wave]
  have running := ((wellFormed (live_of_succ live)).running current).2
  have mask : own.mask = c.mask := by
    obtain ⟨theirs, answer, agrees, departs, -⟩ := ends.released p inside
    obtain rfl := departs.unique (departing p member)
    exact congrArg WarpWait.mask (agrees.symm.trans (gathers.agree passed member))
  have group : ∀ q, Member env ((run env).state k) cx.slot c.mask q ↔
      Member env ((run env).state n) me own.mask q := by
    intro q
    unfold Member at member inside ⊢
    rw [same_geometry] at inside ⊢
    rw [mask]
    constructor
    · rintro ⟨warp, named⟩
      exact ⟨⟨warp.1.trans (member.1.1.symm.trans inside.1.1),
        warp.2.trans (member.1.2.symm.trans inside.1.2)⟩, named⟩
    · rintro ⟨warp, named⟩
      exact ⟨⟨warp.1.trans (inside.1.1.symm.trans member.1.1),
        warp.2.trans (inside.1.2.symm.trans member.1.2)⟩, named⟩
  have last := (group me).mpr ends.named
  obtain rfl : own = given me := by
    have departs : Departing ((run env).state n) me own := .exchanging ends.last running
    exact departs.unique (departing me last)
  obtain ⟨answer, rfl⟩ := label_of_arrived labelled current ends.last live
  refine ⟨⟨me, answer, last, labelled, fun q theirs other => ?_⟩, fun q theirs => ?_⟩
  · have warp := (group q).mp theirs
    rw [gathers.agree passed theirs, ← gathers.agree passed last]
    exact ends.waiting q ⟨warp.1, warp.2, other⟩
  · obtain ⟨own', answer, -, departs, pc, free⟩ := ends.released q ((group q).mp theirs)
    obtain rfl := departs.unique (departing q theirs)
    exact ⟨answer, pc, free⟩

/-- A wave in which lanes depart goes on. -/
theorem Gathers.current_ne_none {given : Nat → Collective V} {n : Nat}
    (wave : ((run env).state n).firstBlock = ((run env).state k).firstBlock)
    (departing : ∀ q, Member env ((run env).state k) cx.slot c.mask q →
      Departing ((run env).state n) q (given q)) (live : Live ((run env).state n)) :
    ((run env).state n).sched.current ≠ none := by
  intro nobody
  rcases (wellFormed live).turn with ⟨i, -, taken, -⟩ | ⟨-, ended⟩
  · rw [nobody] at taken
    cases taken
  · obtain ⟨slot, here, -, turn, -⟩ := gathers.move
    have inside : cx.slot < (((run env).state n).geometry env).total := by
      rw [geometry, wave, here]
      exact ((wellFormed (live_of_label gathers.arrives)).running turn).1
    rcases (departing cx.slot gathers.checked.2).status with free | parked
    · rw [ended _ inside] at free
      cases free
    · rw [ended _ inside] at parked
      cases parked

/-- The members depart until the last of them has joined the second half and all are let go. -/
theorem Gathers.underway {given : Nat → Collective V}
    (passed : ∀ q, Member env ((run env).state k) cx.slot c.mask q →
      (((run env).state (k + 1)).threads q).pc = .arrived (given q))
    {n : Nat} (later : k < n) (live : Live ((run env).state n)) :
    (∃ m, k < m ∧ m < n ∧ Disperses env m (Member env ((run env).state k) cx.slot c.mask) given) ∨
      ((run env).state n).firstBlock = ((run env).state k).firstBlock ∧
        ∀ p, Member env ((run env).state k) cx.slot c.mask p →
          Departing ((run env).state n) p (given p) := by
  induction n, later using Nat.le_induction with
  | base =>
    refine .inr ⟨?_, fun p member => ?_⟩
    · obtain ⟨_, -, -, -, move⟩ := gathers.move
      exact move.firstBlock
    · obtain ⟨-, -, -, -, -, free⟩ := gathers.released member
      exact .exchanging (passed p member) free
  | succ n low ih =>
    have before := live_of_succ live
    rcases ih before with ⟨m, after, until_, disperses⟩ | ⟨wave, departing⟩
    · exact .inl ⟨m, after, Nat.lt_succ_of_lt until_, disperses⟩
    rcases (run env).step_cases n with ⟨l, labelled, moved⟩ | ⟨-, stays⟩
    · obtain ⟨-, ⟨nobody, -⟩ | ⟨me, current, resumed⟩⟩ := step_cases env moved
      · exact absurd nobody (gathers.current_ne_none wave departing before)
      obtain shifts | stops := resumed.shifts
      · have next : ((run env).state (n + 1)).firstBlock = ((run env).state k).firstBlock :=
          shifts.firstBlock.trans wave
        have running := ((wellFormed before).running current).2
        rcases shifts.departures (standing_run before) running with
          same | @⟨own, begins⟩ | @⟨own, ends⟩
        · exact .inr ⟨next, fun p member => (same p _).mpr (departing p member)⟩
        · refine .inr ⟨next, fun p member => (begins.others p ?_ _).mpr (departing p member)⟩
          exact fun inside => begins.fresh p inside _ (departing p member)
        · by_cases meets : ∃ p, Member env ((run env).state k) cx.slot c.mask p ∧
            Member env ((run env).state n) me own.mask p
          · obtain ⟨p, member, inside⟩ := meets
            exact .inl ⟨n, low, Nat.lt_succ_self n,
              gathers.disperses passed wave departing live labelled current ends member inside⟩
          · refine .inr ⟨next, fun p member => (ends.others p ?_ _).mpr (departing p member)⟩
            exact fun inside => meets ⟨p, member, inside⟩
      · exact absurd live stops.stopped
    · rw [stays]
      exact .inr ⟨wave, departing⟩

/-- A member that has not read the slots yet is there with all its mates. -/
theorem Gathers.together {given : Nat → Collective V}
    (passed : ∀ q, Member env ((run env).state k) cx.slot c.mask q →
      (((run env).state (k + 1)).threads q).pc = .arrived (given q))
    {j p : Nat} (wave : ((run env).state j).firstBlock = ((run env).state k).firstBlock)
    (departing : ∀ q, Member env ((run env).state k) cx.slot c.mask q →
      Departing ((run env).state j) q (given q))
    (member : Member env ((run env).state k) cx.slot c.mask p)
    (pc : (((run env).state j).threads p).pc = .arrived (given p))
    (free : ((run env).state j).sched.status p = .runnable) :
    Exchanging env given ((run env).state j) p := by
  refine ⟨pc, free, fun q mate => ?_⟩
  rw [show ((run env).state j).geometry env = ((run env).state k).geometry env by
    simp only [geometry, wave], show (given p).mask = c.mask from
    congrArg WarpWait.mask (gathers.agree passed member)] at mate
  have theirs : Member env ((run env).state k) cx.slot c.mask q :=
    ⟨⟨mate.1.1.trans member.1.1, mate.1.2.trans member.1.2⟩, mate.2.1⟩
  cases departing q theirs with
  | exchanging inside runs => exact .inl ⟨inside, runs⟩
  | parked answer inside waits => exact .inr ⟨answer, inside, waits⟩

/-- Until a member takes its next step, its group stays together. -/
theorem Gathers.exchanging {given : Nat → Collective V}
    (passed : ∀ q, Member env ((run env).state k) cx.slot c.mask q →
      (((run env).state (k + 1)).threads q).pc = .arrived (given q))
    {j p : Nat} {l : Label V} (member : Member env ((run env).state k) cx.slot c.mask p)
    (later : k < j) (labelled : (run env).label j = some l)
    (thread : l.ctx? = some (((run env).state k).ctx env p))
    (first : ∀ i, k < i → i < j → ∀ l', (run env).label i = some l' →
      l'.ctx? ≠ some (((run env).state k).ctx env p)) :
    Exchanging env given ((run env).state j) p := by
  have wave := gathers.sameWave member later labelled thread
  have live := live_of_label labelled
  -- It has not moved, so its group has not been let go.
  have stays : ∀ n, k < n → n ≤ j → (((run env).state n).threads p).pc = .arrived (given p) := by
    intro n low high
    have start : ((run env).state (k + 1)).firstBlock = ((run env).state k).firstBlock :=
      sameWave_between (Nat.le_succ k) later live wave
    have here : ((run env).state n).firstBlock = ((run env).state k).firstBlock :=
      sameWave_between low.le high live wave
    have same_ctx : ((run env).state (k + 1)).ctx env p = ((run env).state k).ctx env p := by
      simp only [ctx, start]
    rw [thread_between p low (live_of_le high live) (here.trans start.symm), passed p member]
    intro i after until_ l' labelled'
    rw [same_ctx]
    exact first i after (Nat.lt_of_lt_of_le until_ high) l' labelled'
  have departing : ∀ q, Member env ((run env).state k) cx.slot c.mask q →
      Departing ((run env).state j) q (given q) := by
    rcases gathers.underway passed later live with ⟨m, after, until_, disperses⟩ | ⟨-, departing⟩
    · obtain ⟨answer, pc, -⟩ := disperses.released p member
      rw [stays (m + 1) (Nat.lt_succ_of_lt after) until_] at pc
      cases pc
    · exact departing
  have free : ((run env).state j).sched.status p = .runnable := by
    cases departing p member with
    | exchanging _ free => exact free
    | parked _ pc =>
      rw [stays j later le_rfl] at pc
      cases pc
  exact gathers.together passed wave departing member (stays j later le_rfl) free

/-- What the members passed is what the slots of one that reads them hold. -/
theorem Gathers.reads {given : Nat → Collective V}
    (passed : ∀ q, Member env ((run env).state k) cx.slot c.mask q →
      (((run env).state (k + 1)).threads q).pc = .arrived (given q))
    (types : ∀ p q, Member env ((run env).state k) cx.slot c.mask p →
      Member env ((run env).state k) cx.slot c.mask q → ∀ v w,
        (given p).exchange.own = some v → (given q).exchange.own = some w →
          env.typeTag v = env.typeTag w)
    {j p : Nat} (live : Live ((run env).state j))
    (wave : ((run env).state j).firstBlock = ((run env).state k).firstBlock)
    (member : Member env ((run env).state k) cx.slot c.mask p)
    (together : Exchanging env given ((run env).state j) p) :
    ∃ answer problems, (given p).combine env.typeTag env.config.warpSize
        (((run env).state j).ctx env p).lane
        (((run env).state j).slots (warpIndex env (((run env).state j).ctx env p))) =
          .ok (answer, problems) ∧
      (given p).exchange.Answers env.config.warpSize ((((run env).state k).geometry env).laneOf p)
        c.mask (fun lane => (given ((((run env).state k).geometry env).warpBase
          ((((run env).state k).geometry env).blockOf p)
          ((((run env).state k).geometry env).warpOf p) + lane)).exchange.publishes)
        answer problems := by
  have same_geometry : ((run env).state j).geometry env = ((run env).state k).geometry env := by
    simp only [geometry, wave]
  obtain ⟨contained, -⟩ := gathers.checked
  have agree : ∀ q, Member env ((run env).state k) cx.slot c.mask q →
      (given q).mask = c.mask ∧ (given q).loc = c.loc ∧ (given q).exchange.op = c.exchange.op := by
    intro q here
    obtain ⟨-, mask, loc, op⟩ := WarpWait.mk.inj (gathers.agree passed here)
    exact ⟨mask, loc, op⟩
  -- The members are the existing lanes the mask names.
  have warp : (((run env).state k).geometry env).warpOf p = cx.warp := by
    obtain ⟨slot, rfl, -⟩ := gathers.move
    exact member.1.2
  have lanes : ∀ lane < 32, c.mask.names lane = true → lane <
      (((run env).state k).geometry env).lanesIn
        ((((run env).state k).geometry env).warpOf p) := by
    intro lane small named
    rw [warp]
    exact contained lane small named
  have members : ∀ lane < 32, c.mask.names lane = true →
      Member env ((run env).state k) cx.slot c.mask ((((run env).state k).geometry env).warpBase
        ((((run env).state k).geometry env).blockOf p)
        ((((run env).state k).geometry env).warpOf p) + lane) := by
    intro lane small named
    obtain ⟨block, same_warp, here⟩ := (((run env).state k).geometry env).of_warpBase_add
      ((((run env).state k).geometry env).blockOf p) (lanes lane small named)
    exact ⟨⟨block.trans member.1.1, same_warp.trans member.1.2⟩,
      (congrArg (fun l => c.mask.names l) here).trans named⟩
  have mask := (agree p member).1
  rw [← mask]
  refine Collective.combine_answers env.config.lanes_pos env.config.lanes_le
    (Nat.mod_lt _ env.config.lanes_pos) ?_ ?_ ?_
  · intro lane small named
    have slots := slots_of_exchanging (slotsHeld env live) together lane
    rw [same_geometry] at slots
    rw [mask] at named
    exact slots (lanes lane small named) (mask ▸ named)
  · intro lane small named
    rw [mask] at named
    rw [(agree _ (members lane small named)).2.2, (agree p member).2.2]
  · intro lane small named v w theirs own
    rw [mask] at named
    exact types _ p (members lane small named) member v w theirs own

end

/-! ### What a member reads -/

/-- Warp exchange is correct under every interleaving. When a collective's members are let go
together, each of them is inside one call of it; if those calls pass values of one type, the
next step of each member computes its answer from exactly what the members passed to this
instance, reports the lane problem it has to, and that answer is what the call returns. -/
theorem exchange_correct (env : Env V) {k : Nat} {cx : Ctx} {c : Collective V}
    (gathers : Gathers env k cx c) :
    let s := (run env).state k
    let g := s.geometry env
    ∃ given : Nat → Collective V,
      (∀ p, Member env s cx.slot c.mask p →
        (((run env).state (k + 1)).threads p).pc = .arrived (given p) ∧
          (given p).mask = c.mask ∧ (given p).loc = c.loc ∧
          (given p).exchange.op = c.exchange.op) ∧
      ((∀ p q, Member env s cx.slot c.mask p → Member env s cx.slot c.mask q → ∀ v w,
          (given p).exchange.own = some v → (given q).exchange.own = some w →
            env.typeTag v = env.typeTag w) →
        ∀ p, Member env s cx.slot c.mask p → ∀ j l, k < j → (run env).label j = some l →
          l.ctx? = some (s.ctx env p) →
          (∀ i, k < i → i < j → ∀ l', (run env).label i = some l' →
            l'.ctx? ≠ some (s.ctx env p)) →
          ∃ answer problems, l = .exchange (s.ctx env p) (given p) answer ∧
            (given p).exchange.Answers env.config.warpSize (g.laneOf p) c.mask
              (fun lane => (given (g.warpBase (g.blockOf p) (g.warpOf p) + lane)).exchange.publishes)
              answer problems ∧
            (∃ ds, ((run env).state (j + 1)).raised = ((run env).state j).raised ++
              laneReports (s.ctx env p) (given p) problems ++ ds) ∧
            ∀ j' l', j < j' → (run env).label j' = some l' → l'.ctx? = some (s.ctx env p) →
              (∀ i, j < i → i < j' → ∀ l'', (run env).label i = some l'' →
                l''.ctx? ≠ some (s.ctx env p)) →
              l' = .leave (s.ctx env p) answer) := by
  intro s g
  let given : Nat → Collective V := fun p =>
    ((((run env).state (k + 1)).threads p).pc.collective?).getD c
  have passed : ∀ p, Member env s cx.slot c.mask p →
      (((run env).state (k + 1)).threads p).pc = .arrived (given p) ∧
        (given p).mask = c.mask ∧ (given p).loc = c.loc ∧
        (given p).exchange.op = c.exchange.op := by
    intro p member
    obtain ⟨own, pc, mask, loc, op, -⟩ := gathers.released member
    have same : given p = own := by simp [given, pc, Pc.collective?]
    rw [same]
    exact ⟨pc, mask, loc, op⟩
  refine ⟨given, passed, fun types p member j l later labelled thread first => ?_⟩
  have together := gathers.exchanging (fun q here => (passed q here).1) member later labelled thread first
  have wave := gathers.sameWave member later labelled thread
  have same_ctx : ((run env).state j).ctx env p = s.ctx env p := by simp only [s, ctx, wave]
  obtain ⟨slot, current, here, -⟩ := label_slot labelled thread
  obtain rfl : slot = p := by
    have slots := congrArg Ctx.slot here
    exact slots.symm
  obtain ⟨answer, problems, combined, answers⟩ := gathers.reads (fun q here => (passed q here).1)
    types (live_of_label labelled) wave member together
  have pc := together.pc
  have done : l = .exchange (s.ctx env slot) (given slot) answer ∧
      (((run env).state (j + 1)).threads slot).pc = .departed (given slot) answer ∧
      ∃ ds, ((run env).state (j + 1)).raised = ((run env).state j).raised ++
        laneReports (s.ctx env slot) (given slot) problems ++ ds := by
    have resumed := resume_of_label labelled current
    simp only [resume, pc, exchange, combined] at resumed
    obtain ⟨rfl, next⟩ := Prod.mk.inj resumed
    rw [← same_ctx, ← next]
    exact ⟨rfl, by simp [withSched, ctx], _, rfl⟩
  refine ⟨answer, problems, done.1, answers, done.2.2, fun j' l' later' labelled' thread' silent => ?_⟩
  -- The lane is inside the second half with its answer until it steps again.
  have wave' := gathers.sameWave member (later.trans later') labelled' thread'
  have live' := live_of_label labelled'
  have next_wave : ((run env).state (j + 1)).firstBlock = s.firstBlock :=
    sameWave_between (later.le.trans (Nat.le_succ j)) later' live' wave'
  have next_ctx : ((run env).state (j + 1)).ctx env slot = s.ctx env slot := by
    simp only [ctx, next_wave]
  have stays := thread_between slot later' live' (wave'.trans next_wave.symm)
    fun n low high l'' here => by
      rw [next_ctx]
      exact silent n low high l'' here
  obtain ⟨slot', current', here', -⟩ := label_slot labelled' thread'
  obtain rfl : slot' = slot := (congrArg Ctx.slot here').symm
  have inside : (((run env).state j').threads slot').pc = .departed (given slot') answer := by
    rw [stays, done.2.1]
  have left := resume_of_label labelled' current'
  simp only [resume, inside] at left
  rw [here']
  exact (Prod.mk.inj left).1.symm

def Label.published? : Label V → Option (Ctx × Collective V)
  | .publish cx c => some (cx, c)
  | _ => none

omit [BEq V] in
theorem Label.publish_of_published {l : Label V} {cx : Ctx} {c : Collective V}
    (published : Label.published? l = some (cx, c)) : l = .publish cx c := by
  cases l <;> cases published
  rfl

def swapping : Env Nat :=
  trial .twoThreads
    (fun thread => [.warp ⟨3#32, ⟨"kernel.rs", 1, 1⟩, .shflXor 1 (thread + 5)⟩]) [0, 0, 1, 1, 1, 0]

theorem swapping_gathers : Gathers swapping 3 (((run swapping).state 3).ctx swapping 1)
    ⟨3#32, ⟨"kernel.rs", 1, 1⟩, .shflXor 1 6⟩ := by
  have published : ((run swapping).label 3).bind Label.published? =
      some (((run swapping).state 3).ctx swapping 1,
        ⟨3#32, ⟨"kernel.rs", 1, 1⟩, .shflXor 1 6⟩) := by
    set_option maxRecDepth 100000 in decide +kernel
  obtain ⟨l, labelled, here⟩ := Option.bind_eq_some_iff.mp published
  obtain rfl := Label.publish_of_published here
  have parked : ((run swapping).state 3).sched.status 0 = .atWarp ∧
      ((run swapping).state 3).sched.warpWait 0 =
        some ⟨.arrive, 3#32, ⟨"kernel.rs", 1, 1⟩, .shflXorSync⟩ ∧
      ((run swapping).state 4).sched.aborted = false := by
    set_option maxRecDepth 100000 in decide +kernel
  refine ⟨labelled, parked.2.2, fun p mate => ?_⟩
  obtain rfl : p = 0 := by
    have block : p / 2 = 0 := mate.1.1
    have other : p ≠ 1 := mate.2.2
    omega
  exact ⟨parked.1, parked.2.1⟩

theorem exchange_correct_swapping :
    ∃ c answer, (run swapping).label 4 =
      some (.exchange (((run swapping).state 3).ctx swapping 1) c answer) := by
  obtain ⟨given, -, exchanges⟩ := exchange_correct swapping swapping_gathers
  have next : ((run swapping).label 4).bind Label.ctx? =
      some (((run swapping).state 3).ctx swapping 1) := by
    set_option maxRecDepth 100000 in decide +kernel
  obtain ⟨l, labelled, thread⟩ := Option.bind_eq_some_iff.mp next
  obtain ⟨answer, -, rfl, -⟩ := exchanges (fun _ _ _ _ _ _ _ _ => rfl) 1 ⟨⟨rfl, rfl⟩, by decide⟩ 4 l
    (by decide) labelled thread (fun i low high => by omega)
  exact ⟨given 1, answer, labelled⟩

end Riri.Launch
