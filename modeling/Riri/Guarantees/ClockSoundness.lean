import Riri.Run.Barriers
import Riri.Guarantees.AtomicDirection
import Riri.Run.Programs

/-!
# Clock soundness in the presence of barriers

A block's clock is never cleared, so a thread that reaches the next barrier while a
block-mate is still leaving the previous one hands that mate news the mate has not
synchronised with. As long as such an arrival brings nothing the block does not know yet,
whatever a clock covers happens before its owner's current point.
-/
namespace Riri.Launch

variable {V : Type} [BEq V] {env : Env V}

omit [BEq V] in
/-- If some block-mate of `slot` has been let go from a barrier and has not left it, then the
block already knows all that `slot` knows. -/
def BringsNoNews (env : Env V) (s : Launch V) (slot : Nat) : Prop :=
  (∃ i gen, (s.geometry env).blockOf i = (s.geometry env).blockOf slot ∧
      s.sched.status i = .runnable ∧ (s.threads i).pc = .atBarrier gen) →
    entries env (s.sync.clock (s.ctx env slot).gid) ≤
      entries env (s.sync.block (s.ctx env slot).block)

/-- The step at time `n`, if it is an arrival at a barrier, brings no news to a barrier that
a block-mate is still leaving. -/
def CleanArrival (env : Env V) (n : Nat) : Prop :=
  ∀ cx gen, (run env).label n = some (.arrive cx gen) →
    BringsNoNews env ((run env).state n) cx.slot

/-- A thread is inside the instance it has just arrived at. -/
theorem inside_of_arrive {n gen : Nat} {cx : Ctx}
    (labelled : (run env).label n = some (.arrive cx gen))
    (live : Live ((run env).state (n + 1))) :
    ∃ slot, cx = ((run env).state (n + 1)).ctx env slot ∧
      (((run env).state (n + 1)).threads slot).pc = .atBarrier gen := by
  obtain ⟨-, ⟨idle, -⟩ | ⟨wave, -⟩ | ⟨slot, l, here, -, move⟩⟩ := live_step live
  · rw [labelled] at idle
    cases idle
  · rw [labelled] at wave
    cases wave
  · obtain rfl : l = .arrive cx gen := Option.some.inj (here.symm.trans labelled)
    generalize (run env).state (n + 1) = next at move
    cases move with
    | arrive pc loc op alive waiting turned | release pc loc op everyone turned =>
      exact ⟨slot, rfl, by simp [barrierEntered]⟩

/-- A thread that has arrived at an instance and not left it is inside it. -/
theorem inside_of_owes {n k u l : Nat} {cx : Ctx}
    (labelled : (run env).label n = some (.arrive cx k))
    (owes : VectorClock.Owes (events env) u cx.block l n) :
    ∃ i, (((run env).state n).geometry env).blockOf i =
        (((run env).state n).geometry env).blockOf cx.slot ∧
      (((run env).state n).threads i).pc = .atBarrier l := by
  obtain ⟨⟨i, lt, arrives⟩, stays⟩ := owes
  obtain ⟨cy, arrived, rfl, block⟩ := label_of_arrive arrives
  have live := live_of_label labelled
  have wave := sameWave lt.le arrived rfl labelled rfl block
  have next := sameWave_between (Nat.le_succ i) lt live wave
  obtain ⟨mate, rfl, inside⟩ := inside_of_arrive arrived (live_of_le lt live)
  obtain ⟨slot, -, rfl, -⟩ := label_slot labelled rfl
  refine ⟨mate, ?_, ?_⟩
  · have mates := mates_of_block mate slot (wave.trans next.symm) block
    simp only [geometry, wave, next] at mates ⊢
    exact mates
  · by_contra left
    obtain ⟨d, -, before, departs⟩ := exists_depart lt live (wave.trans next.symm) inside left
    exact stays d before (by rw [events_of_label departs, Label.event, block])

/-- A clean arrival brings no news to an earlier instance that somebody is still inside. -/
theorem CleanArrival.clean {n : Nat} (arrival : CleanArrival env n) :
    VectorClock.Clean (events env) n := by
  intro t b k u l event owes older
  obtain ⟨cx, labelled, rfl, rfl⟩ := label_of_arrive event
  obtain ⟨mate, mates, inside⟩ := inside_of_owes labelled owes
  have wf := wellFormed (live_of_label labelled)
  obtain ⟨slot, rfl, now⟩ := arrive_at labelled
  -- The mate is inside an instance that is over, so it has been let go.
  have free : ((run env).state n).sched.status mate = .runnable := by
    rcases (wf.settled mate).gen_of_atBarrier inside with ⟨-, current⟩ | ⟨free, -⟩
    · rw [mates] at current
      have same : (((run env).state n).ctx env slot).slot = slot := rfl
      rw [same, now] at current
      omega
    · exact free
  have known := arrival _ _ labelled ⟨mate, l, mates, free, inside⟩
  rw [← view_run]
  exact known

/-- The clocks at time `n` are sound for a history of events: where a thread has an entry for
another, that operation happens before some event of its own. -/
def SoundAt (env : Env V) (h : Nat → VectorClock.Event Nat (Buf × Nat) Nat) (n : Nat) : Prop :=
  ∀ s f m, s ≠ f → 1 ≤ m → m ≤ (((run env).state n).sync.clock s).get (keyOf env f) →
    ∃ p q, VectorClock.NthOp h f m p ∧ q < n ∧ (h q).thread = some s ∧
      VectorClock.HappensBefore h p q

theorem soundAt_of_clean {h : Nat → VectorClock.Event Nat (Buf × Nat) Nat} {n : Nat}
    (rules : VectorClock.Barriers h) (clean : ∀ k < n, VectorClock.Clean h k)
    (clocks : view env ((run env).state n) = VectorClock.clocks h n) : SoundAt env h n := by
  intro s f m other pos le
  obtain ⟨p, op, q, lt, thread, path⟩ :=
    (VectorClock.sound_of_clean rules clean).clock s f m pos (by rw [← clocks]; exact le)
  refine ⟨p, q, op, lt, thread, ?_⟩
  rcases Relation.reflTransGen_iff_eq_or_transGen.mp path with rfl | before
  · obtain ⟨⟨take, publish, event⟩, -⟩ := op
    rw [event] at thread
    exact absurd (Option.some.inj thread).symm other
  · exact before

theorem directedBarriers (env : Env V) : VectorClock.Barriers (directedEvents env) :=
  (barriers env).congr (directedEvents_barrier env).1 (directedEvents_barrier env).2

/-- Clock soundness. As long as nobody brings news to a barrier that a block-mate is still
leaving, the clocks are sound for the history of all accesses by their orderings; and as long
as loads also publish nothing and stores take on nothing, for the history in which only
writes publish and only reads take on. -/
theorem clock_sound (env : Env V) {n : Nat} (clean : ∀ k < n, CleanArrival env k) :
    SoundAt env (events env) n ∧
      ((∀ k < n, NothingToMove env k) → SoundAt env (directedEvents env) n) := by
  refine ⟨soundAt_of_clean (barriers env) (fun k lt => (clean k lt).clean) (view_run n),
    fun nothing => ?_⟩
  refine soundAt_of_clean (directedBarriers env) (fun k lt t b inst u l arrives owes older => ?_)
    (view_directed nothing)
  obtain ⟨⟨i, before, arrived⟩, stays⟩ := owes
  have owes : VectorClock.Owes (events env) u b l k :=
    ⟨⟨i, before, (directedEvents_barrier env).1.mp arrived⟩,
      fun j earlier departs => stays j earlier ((directedEvents_barrier env).2.mpr departs)⟩
  have known := (clean k lt).clean t b inst u l ((directedEvents_barrier env).1.mp arrives) owes older
  rw [← view_run] at known
  rw [← view_directed fun j earlier => nothing j (earlier.trans lt)]
  exact known

def Pc.gen? {V : Type} : Pc V → Option Nat
  | .atBarrier gen => some gen
  | _ => none

def Label.arrival? {V : Type} : Label V → Option Ctx
  | .arrive cx _ => some cx
  | _ => none

/-- Nobody brings news where nobody is leaving. -/
theorem cleanArrival_of_nobody_leaving {n : Nat}
    (nobody : ∀ cx ∈ ((run env).label n).bind Label.arrival?,
      ∀ i ∈ (((run env).state n).geometry env).blockRange
        ((((run env).state n).geometry env).blockOf cx.slot),
      ((run env).state n).sched.status i = .runnable →
        Pc.gen? (((run env).state n).threads i).pc = none) : CleanArrival env n := by
  rintro cx gen labelled ⟨i, inst, mates, free, inside⟩
  have outside := nobody cx (by rw [labelled]; rfl) i
    (((((run env).state n).geometry env).mem_blockRange).mpr mates) free
  rw [inside] at outside
  cases outside

/-- Thread 0 reads, both pass a barrier, and thread 1 has the read in its clock. -/
def synchronised : Env Nat :=
  trial .twoThreads
    (fun thread =>
      let sync : Op Nat := .syncThreads ⟨"kernel.rs", 2, 1⟩
      if thread = 0 then [.mem ⟨.global 0, 0, ⟨"kernel.rs", 1, 1⟩, .read⟩, sync] else [sync])
    [0, 0, 1, 1]

theorem clock_sound_synchronised :
    1 ≤ (((run synchronised).state 5).sync.clock 1).get (keyOf synchronised 0) ∧
      SoundAt synchronised (events synchronised) 5 := by
  have clean : ∀ k < 5, CleanArrival synchronised k := fun k lt =>
    cleanArrival_of_nobody_leaving (by
      revert k
      set_option maxRecDepth 100000 in decide +kernel)
  exact ⟨by set_option maxRecDepth 100000 in decide +kernel, (clock_sound synchronised clean).1⟩

/-! ### A thread that is overtaken inside a barrier -/

/-- Thread 0 passes a barrier, reads, and is at the next barrier before thread 1 has left the
first. -/
def overtaken : Env Nat :=
  trial .twoThreads
    (fun thread =>
      let sync : Op Nat := .syncThreads ⟨"kernel.rs", 1, 1⟩
      if thread = 0 then [sync, .mem ⟨.global 0, 0, ⟨"kernel.rs", 2, 1⟩, .read⟩, sync]
      else [sync, sync])
    [0, 1, 0, 0, 1]

def overtakenHistory : List (VectorClock.Event Nat (Buf × Nat) Nat) :=
  [.arrive 0 0 0, .arrive 1 0 0, .depart 0 0 0, .idle, .op 0 none none, .arrive 0 0 1,
    .depart 1 0 0]

/-- Thread 1's clock covers the read, which nothing orders before it. -/
theorem not_soundAt_of_overtaken {h : Nat → VectorClock.Event Nat (Buf × Nat) Nat}
    (rules : VectorClock.Barriers h) (history : ∀ k < 7, h k = overtakenHistory.getD k .idle) :
    ¬ SoundAt overtaken h 7 := by
  intro sound
  have covered : 1 ≤ (((run overtaken).state 7).sync.clock 1).get (keyOf overtaken 0) := by
    set_option maxRecDepth 100000 in decide +kernel
  obtain ⟨p, q, ⟨⟨take, publish, op⟩, -⟩, lt, thread, before⟩ :=
    sound 1 0 1 (by decide) le_rfl covered
  -- Nothing leaves the read and thread 0's second arrival before time 7.
  have closed : ∀ {i j}, VectorClock.Edge h i j → (i = 4 ∨ i = 5 ∨ 7 ≤ i) →
      (j = 4 ∨ j = 5 ∨ 7 ≤ j) := by
    intro i j e start
    have forward := e.lt rules
    by_contra out
    obtain rfl : j = 6 := by omega
    have read : h 4 = .op 0 none none := history 4 (by decide)
    have arrival : h 5 = .arrive 0 0 1 := history 5 (by decide)
    have departure : h 6 = .depart 1 0 0 := history 6 (by decide)
    have own : ∃ e, h i = e ∧ e.thread = some 0 ∧ (∀ u b, e ≠ .arrive u b 0) ∧
        (∀ u take c release, e ≠ .op u take (some (c, release))) ∧
        ∀ u acquire, e ≠ .fence u acquire true := by
      obtain rfl | rfl : i = 4 ∨ i = 5 := by omega
      · exact ⟨_, read, rfl, by simp, by simp, by simp⟩
      · exact ⟨_, arrival, rfl, by simp, by simp, by simp⟩
    obtain ⟨_, rfl, zero, elsewhere, silent, unfenced⟩ := own
    cases e with
    | program _ first second =>
      rw [zero] at first
      rw [departure] at second
      cases first
      cases second
    | barrier arrives departs =>
      rw [departure] at departs
      cases departs
      exact elsewhere _ _ arrives
    | sync publishes takes _ =>
      obtain ⟨_, _, _, op, ⟨rfl, -⟩ | ⟨-, _, fence⟩⟩ := publishes
      · exact silent _ _ _ _ op
      · exact unfenced _ _ fence
  have ends := before.closed closed
  have early := before.lt rules
  have ops : ∀ k < 7, k ≠ 4 → ∀ take publish,
      overtakenHistory.getD k .idle ≠ .op 0 take publish := by
    intro k inside other take publish
    obtain rfl | rfl | rfl | rfl | rfl | rfl :
        k = 0 ∨ k = 1 ∨ k = 2 ∨ k = 3 ∨ k = 5 ∨ k = 6 := by omega
    all_goals simp [overtakenHistory]
  obtain rfl : p = 4 := by
    by_contra other
    rw [history p (early.trans lt)] at op
    exact ops p (early.trans lt) other _ _ op
  rcases ends (.inl rfl) with rfl | rfl | late
  · omega
  · rw [history 5 (by decide)] at thread
    cases thread
  · omega

/-- With two barriers a clock can run ahead of what happened before. -/
theorem overtaken_unsound :
    ¬ SoundAt overtaken (events overtaken) 7 ∧ ¬ SoundAt overtaken (directedEvents overtaken) 7 :=
  ⟨not_soundAt_of_overtaken (barriers _) (by
      set_option maxRecDepth 100000 in decide +kernel),
    not_soundAt_of_overtaken (directedBarriers _) (by
      set_option maxRecDepth 100000 in decide +kernel)⟩

end Riri.Launch
