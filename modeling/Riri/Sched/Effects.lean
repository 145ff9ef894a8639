import Riri.Sched.Geometry

/-!
# What each scheduler operation can do

One case lemma for each operation of src/sched.rs, with every guard of the branch taken.
The hand-off is separate: it changes whose turn it is, or finds nobody to run.
-/
namespace Riri.Scheduler

variable (g : Geometry)

/-- `s'` is `s` with the turn handed to a runnable thread and nothing else changed but the
record of decisions. -/
structure Turned (s s' : State) : Prop where
  chosen : ∃ i < g.total, s.status i = .runnable ∧ s'.current = some i
  status : s'.status = s.status
  barrierGen : s'.barrierGen = s.barrierGen
  barrierLoc : s'.barrierLoc = s.barrierLoc
  warpWait : s'.warpWait = s.warpWait
  warpGen : s'.warpGen = s.warpGen
  aborted : s'.aborted = s.aborted

theorem mem_runnable {s : State} {i : Nat} :
    i ∈ runnable g s ↔ i < g.total ∧ s.status i = .runnable := by
  simp [runnable]

private theorem getD_filter_mem (previous : Option Nat) (first : Nat) (rest : List Nat) :
    (previous.filter fun p => (first :: rest).contains p).getD first ∈ first :: rest := by
  cases kept : previous.filter fun p => (first :: rest).contains p with
  | none => simp
  | some p =>
    have present := (Option.filter_eq_some_iff.mp kept).2
    simpa using present

private theorem getD_mod_mem (first : Nat) (rest : List Nat) (k : Nat) :
    (first :: rest).getD (k % (first :: rest).length) first ∈ first :: rest := by
  have bound : k % (first :: rest).length < (first :: rest).length := Nat.mod_lt _ (by simp)
  rw [List.getD_eq_getElem?_getD, List.getElem?_eq_getElem bound]
  exact List.getElem_mem bound

/-- Whatever the source of decisions, the choice is one of the runnable threads. -/
theorem choose_mem (choices : Choices) (previous : Option Nat) (first : Nat) (rest : List Nat) :
    (choices.choose previous (first :: rest) first).1 ∈ first :: rest := by
  cases choices with
  | random rng => exact getD_mod_mem first rest _
  | replay plan cursor =>
    simp only [Choices.choose]
    split
    next gid _ =>
      split
      next present => exact List.mem_of_elem_eq_true present
      next => exact getD_filter_mem previous first rest
    next => exact getD_filter_mem previous first rest

theorem pickNext_of_none {s : State} (h : runnable g s = []) :
    pickNext g s = { s with current := none } := by
  simp [pickNext, h]

theorem pickNext_turned {s : State} (h : runnable g s ≠ []) : Turned g s (pickNext g s) := by
  cases hr : runnable g s with
  | nil => exact absurd hr h
  | cons first rest =>
    have member := choose_mem s.choices s.current first rest
    rw [← hr] at member
    have spec := (mem_runnable g).mp member
    rw [hr] at spec
    unfold pickNext
    simp only [hr, commit]
    split <;> exact ⟨⟨_, spec.1, spec.2, rfl⟩, rfl, rfl, rfl, rfl, rfl, rfl⟩

/-- The state and reports when a live thread hands off and nobody can run. -/
theorem handOff_stuck {s : State} (h : runnable g s = []) :
    handOff g s = ({ s with current := none, aborted := true }, stuckReports g s) := by
  simp only [handOff, pickNext_of_none g h, if_true, detectStuck]
  rfl

theorem handOff_turned {s : State} (h : runnable g s ≠ []) :
    Turned g s (handOff g s).1 ∧ (handOff g s).2 = [] := by
  have turned := pickNext_turned g h
  obtain ⟨i, -, -, current⟩ := turned.chosen
  have some_current : (pickNext g s).current ≠ none := by simp [current]
  simp only [handOff, some_current, if_false]
  exact ⟨turned, trivial⟩

/-- A hand-off that did not abort the launch found somebody to run. -/
theorem handOff_live {s : State} (live : (handOff g s).1.aborted = false) :
    Turned g s (handOff g s).1 ∧ (handOff g s).2 = [] := by
  apply handOff_turned
  intro empty
  rw [handOff_stuck g empty] at live
  cases live

/-- A thread that can run gives up the turn for a moment only. -/
theorem yieldNow_goes {s : State} {me : Nat} (live : s.aborted = false) (inside : me < g.total)
    (running : s.status me = .runnable) : (yieldNow g s).1.aborted = false := by
  have free : runnable g s ≠ [] := by
    intro empty
    have member : me ∈ runnable g s := (mem_runnable g).mpr ⟨inside, running⟩
    rw [empty] at member
    cases member
  exact (handOff_turned g free).1.aborted.trans live

theorem handOffUnlessFailed_live {r : Outcome}
    (live : (handOffUnlessFailed g r).1.aborted = false) :
    r.1.aborted = false ∧ Turned g r.1 (handOffUnlessFailed g r).1 ∧
      (handOffUnlessFailed g r).2 = r.2 := by
  unfold handOffUnlessFailed at live ⊢
  by_cases failed : r.1.aborted = true
  · simp [failed] at live
  · simp only [failed, if_false, Bool.false_eq_true] at live ⊢
    obtain ⟨turned, silent⟩ := handOff_live g live
    exact ⟨trivial, turned, by simp [silent]⟩

/-! ### Barriers -/

/-- The arriving thread parked. -/
def barrierParked (me : Nat) (loc : Location) (s : State) : State :=
  { s with
    status := Function.update s.status me .atBarrier
    barrierLoc := Function.update s.barrierLoc (g.blockOf me)
      (some ((s.barrierLoc (g.blockOf me)).getD loc)) }

/-- The arriving thread was the last, and the whole block is let go. -/
def barrierReleased (me : Nat) (s : State) : State :=
  { s with
    status := setAll (Function.update s.status me .atBarrier) (g.blockRange (g.blockOf me)) .runnable
    barrierGen := Function.update s.barrierGen (g.blockOf me) (s.barrierGen (g.blockOf me) + 1)
    barrierLoc := Function.update s.barrierLoc (g.blockOf me) none }

theorem barrierEnter_cases (me : Nat) (loc : Location) (s : State) :
    (∃ i, g.blockOf i = g.blockOf me ∧ i ≠ me ∧ s.status i = .finished ∧
      barrierEnter g me loc s = barrierDivergence g (barrierParked g me loc s) (g.blockOf me)) ∨
    ((∀ i, g.blockOf i = g.blockOf me → i ≠ me → s.status i = .atBarrier) ∧
      barrierEnter g me loc s = (barrierReleased g me s, [])) ∨
    ((∀ i, g.blockOf i = g.blockOf me → i ≠ me → s.status i ≠ .finished) ∧
      (∃ i, g.blockOf i = g.blockOf me ∧ i ≠ me ∧ s.status i ≠ .atBarrier) ∧
      barrierEnter g me loc s = (barrierParked g me loc s, [])) := by
  have enter : barrierEnter g me loc s =
      if (g.blockRange (g.blockOf me)).any fun i => (barrierParked g me loc s).status i = .finished then
        barrierDivergence g (barrierParked g me loc s) (g.blockOf me)
      else if (g.blockRange (g.blockOf me)).all fun i =>
          (barrierParked g me loc s).status i = .atBarrier then
        ({ barrierParked g me loc s with
          status := setAll (barrierParked g me loc s).status (g.blockRange (g.blockOf me)) .runnable
          barrierGen := Function.update s.barrierGen (g.blockOf me) (s.barrierGen (g.blockOf me) + 1)
          barrierLoc := Function.update (barrierParked g me loc s).barrierLoc (g.blockOf me) none }, [])
      else (barrierParked g me loc s, []) := rfl
  have mine : (barrierParked g me loc s).status me = .atBarrier := Function.update_self ..
  have theirs : ∀ i, i ≠ me → (barrierParked g me loc s).status i = s.status i :=
    fun i h => Function.update_of_ne h ..
  by_cases exited : ∃ i, g.blockOf i = g.blockOf me ∧ i ≠ me ∧ s.status i = .finished
  · obtain ⟨i, block, other, finished⟩ := exited
    refine .inl ⟨i, block, other, finished, ?_⟩
    rw [enter, if_pos]
    refine List.any_eq_true.mpr ⟨i, (g.mem_blockRange).mpr block, ?_⟩
    simp [theirs i other, finished]
  · have nobody : ¬ (g.blockRange (g.blockOf me)).any fun i =>
        (barrierParked g me loc s).status i = .finished := by
      rw [List.any_eq_true]
      rintro ⟨i, member, finished⟩
      have block := (g.mem_blockRange).mp member
      have finished := of_decide_eq_true finished
      by_cases other : i = me
      · subst other
        rw [mine] at finished
        cases finished
      · exact exited ⟨i, block, other, by rwa [theirs i other] at finished⟩
    rw [enter, if_neg nobody]
    by_cases everyone : ∀ i, g.blockOf i = g.blockOf me → i ≠ me → s.status i = .atBarrier
    · refine .inr (.inl ⟨everyone, ?_⟩)
      rw [if_pos]
      · simp [barrierParked, barrierReleased]
      · rw [List.all_eq_true]
        intro i member
        by_cases other : i = me
        · simp [other, mine]
        · simp [theirs i other, everyone i ((g.mem_blockRange).mp member) other]
    · refine .inr (.inr ⟨?_, ?_, ?_⟩)
      · exact fun i block other finished => exited ⟨i, block, other, finished⟩
      · push Not at everyone
        exact everyone
      · rw [if_neg]
        rw [List.all_eq_true]
        intro all_parked
        apply everyone
        intro i block other
        have parked := all_parked i ((g.mem_blockRange).mpr block)
        simpa [theirs i other] using parked

/-! ### Warp collectives -/

/-- The arriving lane parked. -/
def rendezvousParked (me : Nat) (wait : WarpWait) (s : State) : State :=
  { s with
    status := Function.update s.status me .atWarp
    warpWait := Function.update s.warpWait me (some wait) }

/-- The arriving lane was the last, and the members are let go. -/
def rendezvousReleased (me : Nat) (wait : WarpWait) (s : State) : State :=
  let members := g.members (g.blockOf me) (g.warpOf me) wait.mask
  let index := g.warpGenIndex (g.blockOf me) (g.warpOf me)
  { s with
    status := setAll (Function.update s.status me .atWarp) members .runnable
    warpWait := setAll (Function.update s.warpWait me (some wait)) members none
    warpGen :=
      if wait.phase = .depart ∧ wait.mask = g.validMask (g.warpOf me) then
        Function.update s.warpGen index (s.warpGen index + 1)
      else s.warpGen }

/-- A member of `wait`'s mask in the warp of `me`, other than `me`. -/
def Mate (me : Nat) (mask : Mask) (p : Nat) : Prop :=
  g.SameWarp p me ∧ mask.names (g.laneOf p) ∧ p ≠ me

/-- A parked lane of the same warp that disagrees about who takes part. -/
def Disagrees (s : State) (me : Nat) (wait : WarpWait) (p : Nat) (other : WarpWait) : Prop :=
  g.SameWarp p me ∧ p ≠ me ∧ s.status p = .atWarp ∧ s.warpWait p = some other ∧
    other.phase = wait.phase ∧ other.loc = wait.loc ∧ other.mask ≠ wait.mask ∧
    (wait.mask.names (g.laneOf p) ∨ other.mask.names (g.laneOf me))

/-- What the scan for disagreeing lanes makes of `p`. -/
def disagreement (s : State) (me : Nat) (wait : WarpWait) (p : Nat) : Option (Nat × WarpWait) :=
  if p = me ∨ s.status p ≠ .atWarp then none
  else match s.warpWait p with
    | none => none
    | some other =>
        if other.phase ≠ wait.phase ∨ other.loc ≠ wait.loc ∨ other.mask = wait.mask then none
        else if wait.mask.names (g.laneOf p) ∨ other.mask.names (g.laneOf me) then
          some (g.laneOf p, other)
        else none

theorem disagreement_eq_none {s : State} {me p : Nat} {wait : WarpWait}
    (warp : g.SameWarp p me) :
    disagreement g s me wait p = none ↔ ∀ other, ¬ Disagrees g s me wait p other := by
  unfold disagreement
  constructor
  · rintro found other ⟨-, away, parked, waits, phase, loc, mask, claims⟩
    simp [away, parked, waits, phase, loc, mask, claims] at found
  · intro h
    by_cases here : p = me ∨ s.status p ≠ .atWarp
    · simp [here]
    · rw [if_neg here]
      have away : p ≠ me := fun he => here (.inl he)
      have parked : s.status p = .atWarp := by
        by_contra hn
        exact here (.inr hn)
      cases waits : s.warpWait p with
      | none => rfl
      | some other =>
        by_cases apart : other.phase ≠ wait.phase ∨ other.loc ≠ wait.loc ∨ other.mask = wait.mask
        · simp [apart]
        · by_cases claims : wait.mask.names (g.laneOf p) ∨ other.mask.names (g.laneOf me)
          · push Not at apart
            exact absurd ⟨warp, away, parked, waits, apart.1, apart.2.1, apart.2.2, claims⟩
              (h other)
          · simp [apart, claims]

theorem disagreeing_eq_none {s : State} {me : Nat} {wait : WarpWait} :
    disagreeing g s me wait = none ↔ ∀ p other, ¬ Disagrees g s me wait p other := by
  have scan : disagreeing g s me wait = none ↔
      ∀ p, g.blockOf p = g.blockOf me → g.warpOf p = g.warpOf me →
        disagreement g s me wait p = none := by
    rw [← g.findSome_lanes_eq_none]
    unfold disagreeing disagreement
    rw [g.locate_eq]
    have bodies : ∀ l ∈ List.range (g.lanesIn (g.warpOf me)),
        g.laneOf (g.warpBase (g.blockOf me) (g.warpOf me) + l) = l :=
      fun l hl => (g.of_warpBase_add _ (List.mem_range.mp hl)).2.2
    simp only [List.findSome?_eq_none_iff]
    constructor <;> intro h l hl
    · rw [bodies l hl]
      exact h l hl
    · have found := h l hl
      rw [bodies l hl] at found
      exact found
  rw [scan]
  constructor
  · rintro h p other disagrees
    exact (disagreement_eq_none g disagrees.1).mp (h p disagrees.1.1 disagrees.1.2) other disagrees
  · intro h p block warp
    exact (disagreement_eq_none g ⟨block, warp⟩).mpr (h p)

theorem disagreeing_eq_some {s : State} {me l : Nat} {wait other : WarpWait}
    (h : disagreeing g s me wait = some (l, other)) :
    ∃ p, g.laneOf p = l ∧ Disagrees g s me wait p other := by
  unfold disagreeing at h
  rw [g.locate_eq] at h
  obtain ⟨lane, hlane, found⟩ := List.exists_of_findSome?_eq_some h
  have position := g.of_warpBase_add (g.blockOf me) (List.mem_range.mp hlane)
  refine ⟨g.warpBase (g.blockOf me) (g.warpOf me) + lane, ?_⟩
  dsimp only at found
  split at found
  · cases found
  next here =>
    push Not at here
    split at found
    · cases found
    next found_wait waits =>
      split at found
      · cases found
      next apart =>
        push Not at apart
        split at found
        next claims =>
          obtain ⟨rfl, rfl⟩ : lane = l ∧ found_wait = other := by simpa using found
          refine ⟨position.2.2, ⟨position.1, position.2.1⟩, here.1, here.2, waits, apart.1, apart.2.1,
            apart.2.2, ?_⟩
          rw [position.2.2]
          exact claims
        · cases found

theorem rendezvousEnter_eq (me : Nat) (wait : WarpWait) (s : State) :
    rendezvousEnter g me wait s =
      if (g.members (g.blockOf me) (g.warpOf me) wait.mask).any fun p =>
          (rendezvousParked me wait s).status p = .finished then
        fail (rendezvousParked me wait s) (.warpDivergence (g.blockOf me) (g.warpOf me) wait.op
          wait.mask (arrivedMask g (rendezvousParked me wait s) (g.blockOf me) (g.warpOf me) wait)
          wait.loc)
      else (disagreeing g (rendezvousParked me wait s) me wait).elim
        (if (g.members (g.blockOf me) (g.warpOf me) wait.mask).all fun p =>
            (rendezvousParked me wait s).status p = .atWarp ∧
              (rendezvousParked me wait s).warpWait p = some wait then
          (rendezvousReleased g me wait s, [])
        else (rendezvousParked me wait s, []))
        fun found => fail (rendezvousParked me wait s) (.warpMaskMismatch (g.blockOf me)
          (g.warpOf me) wait.op wait.loc (g.laneOf me) wait.mask found.1 found.2.mask) := by
  refine if_congr Iff.rfl rfl ?_
  simp only [rendezvousParked]
  generalize disagreeing g _ me wait = found
  cases found <;> rfl

theorem rendezvousEnter_cases (me : Nat) (wait : WarpWait) (s : State) :
    (∃ p, Mate g me wait.mask p ∧ s.status p = .finished ∧
      rendezvousEnter g me wait s = fail (rendezvousParked me wait s)
        (.warpDivergence (g.blockOf me) (g.warpOf me) wait.op wait.mask
          (arrivedMask g (rendezvousParked me wait s) (g.blockOf me) (g.warpOf me) wait) wait.loc)) ∨
    ((∀ p, Mate g me wait.mask p → s.status p ≠ .finished) ∧
      ∃ p other, Disagrees g s me wait p other ∧
        rendezvousEnter g me wait s = fail (rendezvousParked me wait s)
          (.warpMaskMismatch (g.blockOf me) (g.warpOf me) wait.op wait.loc (g.laneOf me) wait.mask
            (g.laneOf p) other.mask)) ∨
    ((∀ p other, ¬ Disagrees g s me wait p other) ∧
      (∀ p, Mate g me wait.mask p → s.status p = .atWarp ∧ s.warpWait p = some wait) ∧
      rendezvousEnter g me wait s = (rendezvousReleased g me wait s, [])) ∨
    ((∀ p, Mate g me wait.mask p → s.status p ≠ .finished) ∧
      (∀ p other, ¬ Disagrees g s me wait p other) ∧
      (∃ p, Mate g me wait.mask p ∧ ¬ (s.status p = .atWarp ∧ s.warpWait p = some wait)) ∧
      rendezvousEnter g me wait s = (rendezvousParked me wait s, [])) := by
  have mine : (rendezvousParked me wait s).status me = .atWarp := Function.update_self ..
  have my_wait : (rendezvousParked me wait s).warpWait me = some wait := Function.update_self ..
  have theirs : ∀ i, i ≠ me → (rendezvousParked me wait s).status i = s.status i :=
    fun i h => Function.update_of_ne h ..
  have their_wait : ∀ i, i ≠ me → (rendezvousParked me wait s).warpWait i = s.warpWait i :=
    fun i h => Function.update_of_ne h ..
  have same_disagree : ∀ p other, Disagrees g (rendezvousParked me wait s) me wait p other ↔
      Disagrees g s me wait p other := by
    intro p other
    unfold Disagrees
    constructor <;> rintro ⟨warp, away, rest⟩ <;> refine ⟨warp, away, ?_⟩
    · rwa [theirs p away, their_wait p away] at rest
    · rwa [theirs p away, their_wait p away]
  have mate_iff : ∀ p, p ∈ g.members (g.blockOf me) (g.warpOf me) wait.mask ∧ p ≠ me ↔
      Mate g me wait.mask p := by
    intro p
    rw [g.mem_members]
    constructor
    · rintro ⟨⟨block, warp, named⟩, away⟩
      exact ⟨⟨block, warp⟩, named, away⟩
    · rintro ⟨⟨block, warp⟩, named, away⟩
      exact ⟨⟨block, warp, named⟩, away⟩
  by_cases exited : ∃ p, Mate g me wait.mask p ∧ s.status p = .finished
  · obtain ⟨p, mate, finished⟩ := exited
    refine .inl ⟨p, mate, finished, ?_⟩
    rw [rendezvousEnter_eq, if_pos]
    refine List.any_eq_true.mpr ⟨p, ((mate_iff p).mpr mate).1, ?_⟩
    simp [theirs p mate.2.2, finished]
  · have alive : ∀ p, Mate g me wait.mask p → s.status p ≠ .finished :=
      fun p mate finished => exited ⟨p, mate, finished⟩
    have nobody : ¬ (g.members (g.blockOf me) (g.warpOf me) wait.mask).any fun p =>
        (rendezvousParked me wait s).status p = .finished := by
      rw [List.any_eq_true]
      rintro ⟨p, member, finished⟩
      have finished := of_decide_eq_true finished
      by_cases away : p = me
      · subst away
        rw [mine] at finished
        cases finished
      · exact alive p ((mate_iff p).mp ⟨member, away⟩) (by rwa [theirs p away] at finished)
    rw [rendezvousEnter_eq, if_neg nobody]
    cases scan : disagreeing g (rendezvousParked me wait s) me wait with
    | some found =>
      obtain ⟨l, other⟩ := found
      obtain ⟨p, rfl, disagrees⟩ := disagreeing_eq_some g scan
      exact .inr (.inl ⟨alive, p, other, (same_disagree p other).mp disagrees, rfl⟩)
    | none =>
      have agree : ∀ p other, ¬ Disagrees g s me wait p other := fun p other disagrees =>
        (disagreeing_eq_none g).mp scan p other ((same_disagree p other).mpr disagrees)
      by_cases complete : ∀ p, Mate g me wait.mask p →
          s.status p = .atWarp ∧ s.warpWait p = some wait
      · refine .inr (.inr (.inl ⟨agree, complete, ?_⟩))
        rw [Option.elim_none, if_pos]
        rw [List.all_eq_true]
        intro p member
        by_cases away : p = me
        · simp [away, mine, my_wait]
        · have parked := complete p ((mate_iff p).mp ⟨member, away⟩)
          simp [theirs p away, their_wait p away, parked]
      · refine .inr (.inr (.inr ⟨alive, agree, ?_, ?_⟩))
        · push Not at complete
          obtain ⟨p, mate, absent⟩ := complete
          exact ⟨p, mate, fun both => absent both.1 both.2⟩
        · rw [Option.elim_none, if_neg]
          rw [List.all_eq_true]
          intro everyone
          apply complete
          intro p mate
          have parked := everyone p ((mate_iff p).mpr mate).1
          simpa [theirs p mate.2.2, their_wait p mate.2.2] using parked

/-! ### Exit -/

def finishMarked (me : Nat) (s : State) : State :=
  { s with status := Function.update s.status me .finished }

/-- A parked warp-mate whose mask names `me`. -/
def WaitsFor (s : State) (me p : Nat) (wait : WarpWait) : Prop :=
  g.SameWarp p me ∧ p ≠ me ∧ s.status p = .atWarp ∧ s.warpWait p = some wait ∧
    wait.mask.names (g.laneOf me)

/-- The wait of `p`, if it waits for `me`. -/
def demand (s : State) (me p : Nat) : Option WarpWait :=
  if s.status p ≠ .atWarp then none
  else match s.warpWait p with
    | none => none
    | some wait => if wait.mask.names (g.laneOf me) then some wait else none

theorem finishEnter_eq (me : Nat) (s : State) :
    finishEnter g me s =
      (waitingFor g (finishMarked me s) me).elim
        (if (g.blockRange (g.blockOf me)).any fun i =>
            (finishMarked me s).status i = .atBarrier then
          barrierDivergence g (finishMarked me s) (g.blockOf me)
        else (finishMarked me s, []))
        fun wait => fail (finishMarked me s) (.warpDivergence (g.blockOf me) (g.warpOf me) wait.op
          wait.mask (arrivedMask g (finishMarked me s) (g.blockOf me) (g.warpOf me) wait)
          wait.loc) := by
  unfold finishEnter
  simp only [finishMarked]
  generalize waitingFor g _ me = found
  cases found <;> rfl

theorem finishEnter_cases (me : Nat) (s : State) :
    (∃ p wait, WaitsFor g s me p wait ∧
      finishEnter g me s = fail (finishMarked me s)
        (.warpDivergence (g.blockOf me) (g.warpOf me) wait.op wait.mask
          (arrivedMask g (finishMarked me s) (g.blockOf me) (g.warpOf me) wait) wait.loc)) ∨
    ((∀ p wait, ¬ WaitsFor g s me p wait) ∧
      (∃ i, g.blockOf i = g.blockOf me ∧ i ≠ me ∧ s.status i = .atBarrier) ∧
      finishEnter g me s = barrierDivergence g (finishMarked me s) (g.blockOf me)) ∨
    ((∀ p wait, ¬ WaitsFor g s me p wait) ∧
      (∀ i, g.blockOf i = g.blockOf me → i ≠ me → s.status i ≠ .atBarrier) ∧
      finishEnter g me s = (finishMarked me s, [])) := by
  have mine : (finishMarked me s).status me = .finished := Function.update_self ..
  have theirs : ∀ i, i ≠ me → (finishMarked me s).status i = s.status i :=
    fun i h => Function.update_of_ne h ..
  rw [finishEnter_eq]
  cases scan : waitingFor g (finishMarked me s) me with
  | some wait =>
    left
    unfold waitingFor at scan
    rw [g.locate_eq] at scan
    obtain ⟨lane, hlane, found⟩ := List.exists_of_findSome?_eq_some scan
    have position := g.of_warpBase_add (g.blockOf me) (List.mem_range.mp hlane)
    dsimp only at found
    split at found
    · cases found
    next parked =>
      have parked : (finishMarked me s).status (g.warpBase (g.blockOf me) (g.warpOf me) + lane) =
          .atWarp := by simpa using parked
      have away : g.warpBase (g.blockOf me) (g.warpOf me) + lane ≠ me := by
        intro here
        rw [here, mine] at parked
        cases parked
      split at found
      · cases found
      next found_wait waits =>
        split at found
        next named =>
          obtain rfl : found_wait = wait := by simpa using found
          refine ⟨_, found_wait, ⟨⟨position.1, position.2.1⟩, away, ?_, waits, named⟩, rfl⟩
          rwa [theirs _ away] at parked
        · cases found
  | none =>
    right
    have unwanted : ∀ p wait, ¬ WaitsFor g s me p wait := by
      rintro p wait ⟨⟨block, warp⟩, away, parked, waits, named⟩
      have none_found : ∀ q, g.blockOf q = g.blockOf me → g.warpOf q = g.warpOf me →
          demand g (finishMarked me s) me q = none :=
        g.findSome_lanes_eq_none.mp scan
      have found := none_found p block warp
      have their_wait : (finishMarked me s).warpWait p = some wait := waits
      simp [demand, theirs p away, parked, their_wait, named] at found
    by_cases waiting : ∃ i, g.blockOf i = g.blockOf me ∧ i ≠ me ∧ s.status i = .atBarrier
    · obtain ⟨i, block, away, parked⟩ := waiting
      refine .inl ⟨unwanted, ⟨i, block, away, parked⟩, ?_⟩
      rw [Option.elim_none, if_pos]
      refine List.any_eq_true.mpr ⟨i, (g.mem_blockRange).mpr block, ?_⟩
      simp [theirs i away, parked]
    · refine .inr ⟨unwanted, fun i block away parked => waiting ⟨i, block, away, parked⟩, ?_⟩
      rw [Option.elim_none, if_neg]
      rw [List.any_eq_true]
      rintro ⟨i, member, parked⟩
      have parked := of_decide_eq_true parked
      by_cases away : i = me
      · subst away
        rw [mine] at parked
        cases parked
      · exact waiting ⟨i, (g.mem_blockRange).mp member, away, by rwa [theirs i away] at parked⟩

/-! ### Operations that leave the launch running -/

theorem handOffUnlessFailed_fail (s : State) (d : Diagnostic) :
    handOffUnlessFailed g (fail s d) = fail s d := by
  simp [handOffUnlessFailed, fail]

theorem yieldNow_live {s : State} (live : (yieldNow g s).1.aborted = false) :
    Turned g s (yieldNow g s).1 ∧ (yieldNow g s).2 = [] := handOff_live g live

theorem barrier_live {me : Nat} {loc : Location} {s : State}
    (live : (barrier g me loc s).1.aborted = false) :
    (barrier g me loc s).2 = [] ∧
      ((∀ i, g.blockOf i = g.blockOf me → i ≠ me → s.status i = .atBarrier) ∧
          Turned g (barrierReleased g me s) (barrier g me loc s).1 ∨
        ((∀ i, g.blockOf i = g.blockOf me → i ≠ me → s.status i ≠ .finished) ∧
          ∃ i, g.blockOf i = g.blockOf me ∧ i ≠ me ∧ s.status i ≠ .atBarrier) ∧
          Turned g (barrierParked g me loc s) (barrier g me loc s).1) := by
  unfold barrier at live ⊢
  obtain ⟨entered, turned, silent⟩ := handOffUnlessFailed_live g live
  rcases barrierEnter_cases g me loc s with
    ⟨i, -, -, -, enter⟩ | ⟨everyone, enter⟩ | ⟨alive, waiting, enter⟩
  · rw [enter] at entered
    cases entered
  · rw [enter] at turned silent ⊢
    exact ⟨silent, .inl ⟨everyone, turned⟩⟩
  · rw [enter] at turned silent ⊢
    exact ⟨silent, .inr ⟨⟨alive, waiting⟩, turned⟩⟩

theorem warpRendezvous_live {me : Nat} {wait : WarpWait} {s : State}
    (live : (warpRendezvous g me wait s).1.aborted = false) :
    (warpRendezvous g me wait s).2 = [] ∧ (∀ p other, ¬ Disagrees g s me wait p other) ∧
      ((∀ p, Mate g me wait.mask p → s.status p = .atWarp ∧ s.warpWait p = some wait) ∧
          Turned g (rendezvousReleased g me wait s) (warpRendezvous g me wait s).1 ∨
        ((∀ p, Mate g me wait.mask p → s.status p ≠ .finished) ∧
          ∃ p, Mate g me wait.mask p ∧ ¬ (s.status p = .atWarp ∧ s.warpWait p = some wait)) ∧
          Turned g (rendezvousParked me wait s) (warpRendezvous g me wait s).1) := by
  unfold warpRendezvous at live ⊢
  obtain ⟨entered, turned, silent⟩ := handOffUnlessFailed_live g live
  rcases rendezvousEnter_cases g me wait s with
    ⟨p, -, -, enter⟩ | ⟨-, p, other, -, enter⟩ | ⟨agree, everyone, enter⟩ |
    ⟨alive, agree, missing, enter⟩
  · rw [enter] at entered
    cases entered
  · rw [enter] at entered
    cases entered
  · rw [enter] at turned silent ⊢
    exact ⟨silent, agree, .inl ⟨everyone, turned⟩⟩
  · rw [enter] at turned silent ⊢
    exact ⟨silent, agree, .inr ⟨⟨alive, missing⟩, turned⟩⟩

/-- A thread returned and the launch goes on, or it was the last. -/
theorem finish_live {me : Nat} {s : State} (running : s.aborted = false)
    (live : (finish g me s).1.aborted = false) :
    (finish g me s).2 = [] ∧ (∀ p wait, ¬ WaitsFor g s me p wait) ∧
      (∀ i, g.blockOf i = g.blockOf me → i ≠ me → s.status i ≠ .atBarrier) ∧
      (Turned g (finishMarked me s) (finish g me s).1 ∨
        (finish g me s).1 = { finishMarked me s with current := none } ∧
          ∀ i < g.total, (finishMarked me s).status i = .finished) := by
  have marked_live : (finishMarked me s).aborted = false := running
  unfold finish at live ⊢
  rcases finishEnter_cases g me s with
    ⟨p, wait, -, enter⟩ | ⟨-, -, enter⟩ | ⟨unwanted, alone, enter⟩
  · simp [enter, fail] at live
  · simp [enter, barrierDivergence, fail] at live
  · simp only [enter, marked_live, Bool.false_eq_true, if_false] at live ⊢
    by_cases empty : runnable g (finishMarked me s) = []
    · rw [pickNext_of_none g empty] at live ⊢
      by_cases ended : ∃ i < g.total, (finishMarked me s).status i ≠ .finished
      · rw [if_pos ⟨rfl, ended⟩] at live
        cases live
      · rw [if_neg fun both => ended both.2]
        refine ⟨rfl, unwanted, alone, .inr ⟨by simp [marked_live], fun i hi => ?_⟩⟩
        by_contra alive
        exact ended ⟨i, hi, alive⟩
    · have turned := pickNext_turned g empty
      obtain ⟨i, -, -, current⟩ := turned.chosen
      rw [if_neg (by simp [current])]
      exact ⟨rfl, unwanted, alone, .inl turned⟩

/-! ### What an operation leaves, whether or not it failed -/

/-- `s'` is `s` but for the turn, the record of decisions and the abort flag. -/
structure Rests (s' s : State) : Prop where
  status : s'.status = s.status
  barrierGen : s'.barrierGen = s.barrierGen
  barrierLoc : s'.barrierLoc = s.barrierLoc
  warpWait : s'.warpWait = s.warpWait
  warpGen : s'.warpGen = s.warpGen

theorem Rests.refl (s : State) : Rests s s := ⟨rfl, rfl, rfl, rfl, rfl⟩

theorem Turned.rests {s s' : State} (turned : Turned g s s') : Rests s' s :=
  ⟨turned.status, turned.barrierGen, turned.barrierLoc, turned.warpWait, turned.warpGen⟩

theorem pickNext_rests (s : State) : Rests (pickNext g s) s := by
  by_cases empty : runnable g s = []
  · rw [pickNext_of_none g empty]
    exact ⟨rfl, rfl, rfl, rfl, rfl⟩
  · exact (pickNext_turned g empty).rests

theorem handOff_rests (s : State) : Rests (handOff g s).1 s := by
  by_cases empty : runnable g s = []
  · rw [handOff_stuck g empty]
    exact ⟨rfl, rfl, rfl, rfl, rfl⟩
  · exact (handOff_turned g empty).1.rests

theorem fail_rests (s : State) (d : Diagnostic) : Rests (fail s d).1 s := ⟨rfl, rfl, rfl, rfl, rfl⟩

theorem handOffUnlessFailed_rests (r : Outcome) : Rests (handOffUnlessFailed g r).1 r.1 := by
  unfold handOffUnlessFailed
  split
  · exact ⟨rfl, rfl, rfl, rfl, rfl⟩
  · exact handOff_rests g r.1

theorem finish_rests (me : Nat) (s : State) : Rests (finish g me s).1 (finishMarked me s) := by
  unfold finish
  rcases finishEnter_cases g me s with ⟨p, wait, -, enter⟩ | ⟨-, -, enter⟩ | ⟨-, -, enter⟩
  · rw [enter]
    exact fail_rests _ _
  · rw [enter]
    exact fail_rests _ _
  · rw [enter]
    have picked := pickNext_rests g (finishMarked me s)
    dsimp only
    split
    · exact ⟨rfl, rfl, rfl, rfl, rfl⟩
    · split
      · exact ⟨picked.status, picked.barrierGen, picked.barrierLoc, picked.warpWait, picked.warpGen⟩
      · exact picked

/-- The last arrival lets its block go, any other parks. -/
theorem barrier_rests (me : Nat) (loc : Location) (s : State) :
    ((∀ i, g.blockOf i = g.blockOf me → i ≠ me → s.status i = .atBarrier) ∧
        Rests (barrier g me loc s).1 (barrierReleased g me s)) ∨
      ((∃ i, g.blockOf i = g.blockOf me ∧ i ≠ me ∧ s.status i ≠ .atBarrier) ∧
        Rests (barrier g me loc s).1 (barrierParked g me loc s)) := by
  have rests := handOffUnlessFailed_rests g (barrierEnter g me loc s)
  unfold barrier
  rcases barrierEnter_cases g me loc s with
    ⟨i, block, away, finished, enter⟩ | ⟨everyone, enter⟩ | ⟨-, waiting, enter⟩
  · rw [enter, barrierDivergence, handOffUnlessFailed_fail]
    exact .inr ⟨⟨i, block, away, by simp [finished]⟩, fail_rests _ _⟩
  · rw [enter] at rests ⊢
    exact .inl ⟨everyone, rests⟩
  · rw [enter] at rests ⊢
    exact .inr ⟨waiting, rests⟩

/-- The last arrival lets its group go, any other parks, or finds a lane that disagrees. -/
theorem warpRendezvous_rests (me : Nat) (wait : WarpWait) (s : State) :
    ((∀ p, Mate g me wait.mask p → s.status p = .atWarp ∧ s.warpWait p = some wait) ∧
        Rests (warpRendezvous g me wait s).1 (rendezvousReleased g me wait s)) ∨
      ((∃ p, Mate g me wait.mask p ∧ ¬ (s.status p = .atWarp ∧ s.warpWait p = some wait)) ∧
        Rests (warpRendezvous g me wait s).1 (rendezvousParked me wait s)) ∨
      ∃ p other, warpRendezvous g me wait s = fail (rendezvousParked me wait s)
        (.warpMaskMismatch (g.blockOf me) (g.warpOf me) wait.op wait.loc (g.laneOf me) wait.mask
          (g.laneOf p) other) := by
  have rests := handOffUnlessFailed_rests g (rendezvousEnter g me wait s)
  unfold warpRendezvous
  rcases rendezvousEnter_cases g me wait s with
    ⟨p, mate, finished, enter⟩ | ⟨-, p, other, -, enter⟩ | ⟨-, everyone, enter⟩ |
    ⟨-, -, missing, enter⟩
  · rw [enter, handOffUnlessFailed_fail]
    exact .inr (.inl ⟨⟨p, mate, by simp [finished]⟩, fail_rests _ _⟩)
  · rw [enter, handOffUnlessFailed_fail]
    exact .inr (.inr ⟨p, other.mask, rfl⟩)
  · rw [enter] at rests ⊢
    exact .inl ⟨everyone, rests⟩
  · rw [enter] at rests ⊢
    exact .inr (.inl ⟨missing, rests⟩)

theorem finish_barrierGen (me : Nat) (s : State) :
    (finish g me s).1.barrierGen = s.barrierGen := (finish_rests g me s).barrierGen

/-- The last arrival of a block lets it go, whatever its location. -/
theorem barrier_last {me : Nat} {s : State} (loc : Location) (live : s.aborted = false)
    (inside : me < g.total)
    (everyone : ∀ i, g.blockOf i = g.blockOf me → i ≠ me → s.status i = .atBarrier) :
    Turned g (barrierReleased g me s) (barrier g me loc s).1 := by
  have enter : barrierEnter g me loc s = (barrierReleased g me s, []) := by
    rcases barrierEnter_cases g me loc s with
      ⟨i, block, away, finished, -⟩ | ⟨-, enter⟩ | ⟨-, ⟨i, block, away, unparked⟩, -⟩
    · rw [everyone i block away] at finished
      cases finished
    · exact enter
    · exact absurd (everyone i block away) unparked
  have running : (barrierReleased g me s).aborted = false := live
  have free : runnable g (barrierReleased g me s) ≠ [] := by
    intro empty
    have member : me ∈ runnable g (barrierReleased g me s) :=
      (mem_runnable g).mpr ⟨inside, by simp [barrierReleased, setAll, g.mem_blockRange]⟩
    rw [empty] at member
    cases member
  unfold barrier handOffUnlessFailed
  rw [enter]
  simp only [running, Bool.false_eq_true, if_false]
  exact (handOff_turned g free).1

/-- A barrier moves no warp's generation and no other block's. -/
theorem barrier_gens (me : Nat) (loc : Location) (s : State) :
    (barrier g me loc s).1.warpGen = s.warpGen ∧
      ∀ block, block ≠ g.blockOf me → (barrier g me loc s).1.barrierGen block = s.barrierGen block := by
  unfold barrier
  rw [(handOffUnlessFailed_rests g _).barrierGen, (handOffUnlessFailed_rests g _).warpGen]
  rcases barrierEnter_cases g me loc s with ⟨i, -, -, -, enter⟩ | ⟨-, enter⟩ | ⟨-, -, enter⟩ <;>
    rw [enter]
  · exact ⟨rfl, fun _ _ => rfl⟩
  · exact ⟨rfl, fun block other => Function.update_of_ne other ..⟩
  · exact ⟨rfl, fun _ _ => rfl⟩

/-- A rendezvous moves no block's generation, no other warp's, and its own warp's only when
its mask is the full one. -/
theorem warpRendezvous_gens (me : Nat) (wait : WarpWait) (s : State) :
    (warpRendezvous g me wait s).1.barrierGen = s.barrierGen ∧
      ∀ index, index ≠ g.warpGenIndex (g.blockOf me) (g.warpOf me) ∨
          wait.mask ≠ g.validMask (g.warpOf me) →
        (warpRendezvous g me wait s).1.warpGen index = s.warpGen index := by
  unfold warpRendezvous
  rw [(handOffUnlessFailed_rests g _).barrierGen, (handOffUnlessFailed_rests g _).warpGen]
  rcases rendezvousEnter_cases g me wait s with
    ⟨p, -, -, enter⟩ | ⟨-, p, other, -, enter⟩ | ⟨-, -, enter⟩ | ⟨-, -, -, enter⟩ <;>
    rw [enter]
  · exact ⟨rfl, fun _ _ => rfl⟩
  · exact ⟨rfl, fun _ _ => rfl⟩
  · refine ⟨rfl, fun index apart => ?_⟩
    simp only [rendezvousReleased]
    split
    next full =>
      rcases apart with other | partial_
      · exact Function.update_of_ne other ..
      · exact absurd full.2 partial_
    · rfl
  · exact ⟨rfl, fun _ _ => rfl⟩

end Riri.Scheduler
