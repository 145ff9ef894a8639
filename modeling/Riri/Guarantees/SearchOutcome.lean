import Riri.Guarantees.ReplayFidelity
import Riri.Guarantees.SeedIndependence
import Riri.Guarantees.ShrinkQuality
import Riri.Guarantees.ShrinkTermination

/-!
# What a search returns

A launch that reads its decisions from a complete recording reproduces the finding, so the test
a shrink begins with can fail for lack of budget only. A search whose budget is zero never makes
that test and calls the kernel unreproducible all the same; any other budget pays for it, and
what comes out at the end of the budget is the best schedule that was seen to reproduce.
-/
namespace Riri.Explore

variable {runOnce : RunOnce} {trace : List UInt32}

/-- A schedule to prefer: shorter, or as long with as few switches. -/
def NoWorse (p q : List UInt32) : Prop :=
  p.length < q.length ∨ p.length = q.length ∧ switches p ≤ switches q

theorem NoWorse.refl (p : List UInt32) : NoWorse p p := .inr ⟨rfl, le_rfl⟩

theorem NoWorse.trans {p q r : List UInt32} (h : NoWorse p q) (h' : NoWorse q r) : NoWorse p r := by
  unfold NoWorse at *
  omega

/-- A schedule that reproduced, and no schedule that did is better. -/
structure Best (runOnce : RunOnce) (plan : List UInt32) (s : Spent) : Prop where
  tried : Tried runOnce plan true s
  least : ∀ p ∈ s.replayed, runOnce p = some true → NoWorse plan p

/-- What a test adds to the replays. -/
theorem replayed_of_reproduces {plan p : List UInt32} {found : Bool} {s s' : Spent}
    (answer : reproduces runOnce plan s = some (found, s')) (mem : p ∈ s'.replayed) :
    p ∈ s.replayed ∨ p = plan ∧ runOnce p = some found := by
  unfold reproduces at answer
  split at answer
  next spent =>
    obtain ⟨rfl, rfl⟩ := Prod.mk.inj (Option.some.inj answer)
    exact .inl mem
  next left =>
    obtain ⟨found', ran, same⟩ := Option.map_eq_some_iff.mp answer
    obtain ⟨rfl, rfl⟩ := Prod.mk.inj same
    rcases List.mem_append.mp mem with earlier | last
    · exact .inl earlier
    · obtain rfl := List.mem_singleton.mp last
      exact .inr ⟨rfl, ran⟩

/-- A schedule that does not reproduce changes nothing. -/
theorem Best.missed {plan candidate : List UInt32} {s s' : Spent} (best : Best runOnce plan s)
    (answer : reproduces runOnce candidate s = some (false, s')) : Best runOnce plan s' := by
  refine ⟨best.tried.later (reproduces_spec answer).1, fun p mem found => ?_⟩
  rcases replayed_of_reproduces answer mem with earlier | ⟨-, lost⟩
  · exact best.least p earlier found
  · rw [lost] at found
    cases found

/-- One that reproduces and is no worse takes its place. -/
theorem Best.improved {plan candidate : List UInt32} {s s' : Spent} (best : Best runOnce plan s)
    (answer : reproduces runOnce candidate s = some (true, s')) (better : NoWorse candidate plan) :
    Best runOnce candidate s' := by
  refine ⟨(reproduces_spec answer).2.1 rfl, fun p mem found => ?_⟩
  rcases replayed_of_reproduces answer mem with earlier | ⟨rfl, -⟩
  · exact better.trans (best.least p earlier found)
  · exact .refl p

theorem noWorse_take {k hi : Nat} (lt : k < hi) (le : hi ≤ trace.length) :
    NoWorse (trace.take k) (trace.take hi) := by
  refine .inl ?_
  simp only [List.length_take]
  omega

theorem double_best {lo step : Nat} {pos : 0 < step} {s : Spent} {lo' hi' : Nat} {s' : Spent}
    (answer : double runOnce trace lo step pos s = some (lo', hi', s'))
    (best : Best runOnce trace s) : Best runOnce (trace.take hi') s' ∧ hi' ≤ trace.length := by
  fun_induction double runOnce trace lo step pos s with
  | case1 => cases answer
  | case2 lo step pos s more s₁ found =>
    obtain ⟨rfl, rfl, rfl⟩ : lo = lo' ∧ step = hi' ∧ s₁ = s' := by simpa using answer
    have shorter := noWorse_take more (le_refl trace.length)
    rw [List.take_length] at shorter
    exact ⟨best.improved found shorter, Nat.le_of_lt more⟩
  | case3 lo step pos s more s₁ found ih => exact ih answer (best.missed found)
  | case4 lo step pos s more =>
    obtain ⟨rfl, rfl, rfl⟩ : lo = lo' ∧ trace.length = hi' ∧ s = s' := by simpa using answer
    exact ⟨by rwa [List.take_length], le_rfl⟩

theorem bisect_best {lo hi : Nat} {s : Spent} {hi' : Nat} {s' : Spent}
    (answer : bisect runOnce trace lo hi s = some (hi', s')) (le : hi ≤ trace.length)
    (best : Best runOnce (trace.take hi) s) : Best runOnce (trace.take hi') s' := by
  fun_induction bisect runOnce trace lo hi s with
  | case1 => cases answer
  | case2 lo hi s more mid s₁ found ih =>
    have below : mid < hi := by omega
    exact ih answer (by omega) (best.improved found (noWorse_take below le))
  | case3 lo hi s more mid s₁ found ih => exact ih answer le (best.missed found)
  | case4 lo hi s more =>
    obtain ⟨rfl, rfl⟩ : hi = hi' ∧ s = s' := by simpa using answer
    exact best

theorem dropSwitches_best {i : Nat} {plan plan' : List UInt32} {s s' : Spent}
    (answer : dropSwitches runOnce i plan s = some (plan', s')) (pos : 0 < i)
    (best : Best runOnce plan s) : Best runOnce plan' s' := by
  fun_induction dropSwitches runOnce i plan s with
  | case1 | case6 =>
    obtain ⟨rfl, rfl⟩ := Prod.mk.inj (Option.some.inj answer)
    exact best
  | case2 i plan s more rest same ih => exact ih answer (by omega) best
  | case3 => cases answer
  | case4 i plan s more rest other candidate s₁ found ih =>
    have fewer := switches_set_le plan i pos more
    exact ih answer (by omega) (best.improved found (.inr ⟨List.length_set .., fewer⟩))
  | case5 i plan s more rest other candidate s₁ found ih =>
    exact ih answer (by omega) (best.missed found)

/-- What a shrink returns is the best it saw, whenever its budget ran out. -/
theorem best_of_shrunk {minimise : Bool} {budget : Nat} {diagnostics : List Diagnostic}
    {complete : Bool} {plan : List UInt32} {s : Spent}
    (shrinks : Shrinks runOnce trace minimise budget diagnostics complete (.minimised plan) s) :
    Best runOnce plan s := by
  have first : ∀ {s₁}, reproduces runOnce trace ⟨budget, []⟩ = some (true, s₁) →
      Best runOnce trace s₁ := by
    intro s₁ whole
    refine ⟨(reproduces_spec whole).2.1 rfl, fun p mem found => ?_⟩
    rcases replayed_of_reproduces whole mem with earlier | ⟨rfl, -⟩
    · cases earlier
    · exact .refl p
  cases shrinks with
  | unplanned whole empty dropped =>
    have better : NoWorse [] trace := by
      cases trace with
      | nil => exact .refl []
      | cons => exact .inl (Nat.succ_pos _)
    exact dropSwitches_best dropped Nat.one_pos ((first whole).improved empty better)
  | cut whole empty doubled bisected dropped =>
    obtain ⟨best, le⟩ := double_best doubled ((first whole).missed empty)
    exact dropSwitches_best dropped Nat.one_pos (bisect_best bisected le best)

end Riri.Explore

namespace Riri.Explore

variable {runAll : RunAll} {base : LaunchConfig}

def seeded (base : LaunchConfig) (i : Nat) : LaunchConfig :=
  base.withSeed (base.seed + UInt64.ofNat i)

def ranSeed (runAll : RunAll) (base : LaunchConfig) (i : Nat) : Option Ran :=
  runAll (seeded base i) (.random ⟨(seeded base i).seed⟩)

/-- Seed `i` is the first whose launch reports something. -/
structure FirstFailing (runAll : RunAll) (base : LaunchConfig) (i : Nat) (ran : Ran) : Prop where
  answer : ranSeed runAll base i = some ran
  dirty : ran.diagnostics ≠ []
  clean : ∀ j < i, ∃ earlier, ranSeed runAll base j = some earlier ∧ earlier.diagnostics = []

def failureOf (base : LaunchConfig) (i : Nat) (ran : Ran) (shrunk : Shrink) : Exploration :=
  ⟨i + 1, some ⟨(seeded base i).seed, ran.diagnostics, shrunk, ran.trace.length⟩⟩

def shrinkSeed (runAll : RunAll) (base : LaunchConfig) (minimise : Bool) (budget : Nat) (i : Nat)
    (ran : Ran) : Option (Shrink × Spent) :=
  shrinkSpending (contains runAll (seeded base i) (target ran.diagnostics)) ran.trace minimise budget
    ran.diagnostics ran.complete

variable {minimise : Bool} {budget : Nat}

/-- One turn of the loop. -/
theorem searchFrom_succ (left i : Nat) :
    searchFrom runAll base minimise budget (left + 1) i =
      match ranSeed runAll base i with
      | none => none
      | some ran =>
          if ran.diagnostics = [] then searchFrom runAll base minimise budget left (i + 1)
          else (shrinkSeed runAll base minimise budget i ran).map fun r => failureOf base i ran r.1 := by
  rw [searchFrom]
  unfold shrinkSeed
  simp only [shrink, Option.map_map]
  rfl

/-- The loop stops at the first failing seed. -/
theorem searchFrom_firstFailing {left i k : Nat} {ran : Ran}
    (failing : FirstFailing runAll base k ran) (low : i ≤ k) (high : k < i + left) :
    searchFrom runAll base minimise budget left i =
      (shrinkSeed runAll base minimise budget k ran).map fun r => failureOf base k ran r.1 := by
  induction left generalizing i with
  | zero => omega
  | succ left ih =>
    rw [searchFrom_succ]
    rcases Nat.eq_or_lt_of_le low with rfl | later
    · simp only [failing.answer, if_neg failing.dirty]
    · obtain ⟨earlier, answer, clean⟩ := failing.clean i later
      simp only [answer, if_pos clean]
      exact ih later (by omega)

/-- A failure a search reports is that of the first failing seed. -/
theorem firstFailing_of_searchFrom {left i : Nat} {e : Exploration} {f : Failure}
    (answer : searchFrom runAll base minimise budget left i = some e) (failed : e.failure = some f)
    (before : ∀ j < i, ∃ earlier, ranSeed runAll base j = some earlier ∧ earlier.diagnostics = []) :
    ∃ k ran r, k < i + left ∧ FirstFailing runAll base k ran ∧
      shrinkSeed runAll base minimise budget k ran = some r ∧ e = failureOf base k ran r.1 := by
  induction left generalizing i with
  | zero =>
    obtain rfl := Option.some.inj answer
    cases failed
  | succ left ih =>
    rw [searchFrom_succ] at answer
    cases ranHere : ranSeed runAll base i with
    | none => simp [ranHere] at answer
    | some ran =>
      simp only [ranHere] at answer
      by_cases clean : ran.diagnostics = []
      · rw [if_pos clean] at answer
        obtain ⟨k, found, r, lt, rest⟩ := ih answer fun j lt => by
          rcases Nat.lt_succ_iff_lt_or_eq.mp lt with earlier | rfl
          · exact before j earlier
          · exact ⟨ran, ranHere, clean⟩
        exact ⟨k, found, r, by omega, rest⟩
      · rw [if_neg clean] at answer
        obtain ⟨r, shrunk, rfl⟩ := Option.map_eq_some_iff.mp answer
        exact ⟨i, ran, r, by omega, ⟨ranHere, clean, before⟩, shrunk, rfl⟩

end Riri.Explore

namespace Riri.Launch

open Explore (Best FirstFailing Shrinks contains failureOf ranSeed seeded shrinkSeed)

variable {V : Type} [BEq V] {env : Env V}

/-- A launch of one wave depends on no source of decisions but the first. -/
theorem choosing_single (single : env.config.blocks ≤ env.config.residentBlocks)
    {other : Nat → Choices} (begin : other 0 = env.choicesOf 0) (n : Nat) :
    (run (env.choosing other)).state n = (run env).state n := by
  induction n with
  | zero => exact init_choosing begin
  | succ n ih =>
    rcases (run env).step_cases n with ⟨l, -, moved⟩ | ⟨idle, stays⟩
    · obtain ⟨slot, current, -⟩ := next_single single (firstBlock_single single n) moved
      refine (run (env.choosing other)).state_succ_of_next (a := l) ?_
      rw [ih]
      exact (step_of_current current).trans moved
    · have stopped : ((run env).state n).step env = none := (run env).label_eq_none_iff.mp idle
      have stopped' : (run (env.choosing other)).Halted n := by
        change (((run (env.choosing other)).state n).step (env.choosing other)) = none
        rw [ih]
        exact step_of_over stopped
      rw [(run (env.choosing other)).state_succ_of_halted stopped', ih, stays]

/-- `run_once` of a search: it launches the kernel over buffers as `env` has them and hands back
the report and the recording; it hangs where the launch does. -/
structure Launches (base : LaunchConfig) (env : Env V) (runAll : RunAll) : Prop where
  returns : ∀ seed choices ran, runAll (base.withSeed seed) choices = some ran →
    ∃ n, (run (env.choosing ((base.withSeed seed).choicesOf choices))).Halted n ∧
      ran = ((run (env.choosing ((base.withSeed seed).choicesOf choices))).state n).ran base
  hangs : ∀ seed choices, runAll (base.withSeed seed) choices = none →
    ∀ n, ¬ (run (env.choosing ((base.withSeed seed).choicesOf choices))).Halted n

theorem exists_launches (base : LaunchConfig) (env : Env V) : ∃ runAll, Launches base env runAll := by
  classical
  refine ⟨fun config choices =>
    if ends : ∃ n, (run (env.choosing (config.choicesOf choices))).Halted n then
      some (((run (env.choosing (config.choicesOf choices))).state ends.choose).ran base)
    else none, ?_, ?_⟩
  · intro seed choices ran answer
    split at answer
    next ends => exact ⟨ends.choose, ends.choose_spec, (Option.some.inj answer).symm⟩
    next => cases answer
  · intro seed choices answer n halted
    rw [dif_pos ⟨n, halted⟩] at answer
    cases answer

theorem Launches.eq {base : LaunchConfig} {runAll : RunAll} (launches : Launches base env runAll)
    {seed : UInt64} {choices : Choices} {n : Nat}
    (halted : (run (env.choosing ((base.withSeed seed).choicesOf choices))).Halted n) :
    runAll (base.withSeed seed) choices =
      some (((run (env.choosing ((base.withSeed seed).choicesOf choices))).state n).ran base) := by
  cases answer : runAll (base.withSeed seed) choices with
  | none => exact absurd halted (launches.hangs seed choices answer n)
  | some ran =>
    obtain ⟨m, halted', rfl⟩ := launches.returns seed choices ran answer
    rcases Nat.le_total n m with le | le
    · rw [((run _).halted_mono halted le).2]
    · rw [((run _).halted_mono halted' le).2]

/-- A complete recording replays to the same findings. -/
theorem Launches.replays {base : LaunchConfig} {runAll : RunAll}
    (accepted : base.checked = some env.config) (launches : Launches base env runAll)
    {seed : UInt64} {choices : Choices} {ran : Ran}
    (answer : runAll (base.withSeed seed) choices = some ran) (complete : ran.complete = true) :
    ∃ again, runAll (base.withSeed seed) (.replay ran.trace 0) = some again ∧
      again.diagnostics = ran.diagnostics := by
  obtain ⟨n, halted, rfl⟩ := launches.returns seed choices ran answer
  have one_wave : base.waves = 1 := by
    by_contra many
    simp [Launch.ran, recording, many] at complete
  have single := (waves_eq_one_iff accepted).mp one_wave
  simp only [Launch.ran, recording, if_pos one_wave] at complete
  let first := env.choosing ((base.withSeed seed).choicesOf choices)
  let trace := ((run first).state n).sched.trace
  have follows : Scheduler.Follows trace ((run first).state n).sched := ⟨List.prefix_rfl, complete⟩
  let other := (base.withSeed seed).choicesOf (.replay trace 0)
  have begin : other 0 = (first.replaying trace).choicesOf 0 := rfl
  have alike : (run (env.choosing other)).state n = (run (first.replaying trace)).state n :=
    @choosing_single V _ (first.replaying trace) single other begin n
  have states : (run (first.replaying trace)).state n = ((run first).state n).retraced trace :=
    @state_retraced V _ first trace single n n halted follows le_rfl
  have stopped : ((run (first.replaying trace)).state n).step (first.replaying trace) = none :=
    (run _).label_eq_none_iff.mp
      ((@label_retraced V _ first trace single n n halted follows le_rfl).trans
        ((run first).label_eq_none_iff.mpr halted))
  have halted' : (run (env.choosing other)).Halted n := by
    change ((run (env.choosing other)).state n).step ((first.replaying trace).choosing other) = none
    rw [alike]
    exact step_of_over stopped
  have recorded : (((run first).state n).ran base).trace = trace := by
    simp [Launch.ran, recording, one_wave, trace]
  refine ⟨((run (env.choosing other)).state n).ran base, ?_, ?_⟩
  · rw [recorded]
    exact launches.eq halted'
  · rw [alike, states]
    rfl

/-- What may be said of a failure a search reports: the kernel is not called unreproducible, and a
minimised schedule is the best one that was seen to reproduce, at worst the recording. -/
def Honest (runAll : RunAll) (base : LaunchConfig) (minimise : Bool) (budget : Nat)
    (f : Failure) : Prop :=
  match f.shrink with
  | .notReproducible => False
  | .disabled => minimise = false
  | .traceTruncated =>
      ∃ ran, runAll (base.withSeed f.seed) (.random ⟨f.seed⟩) = some ran ∧ ran.complete = false
  | .minimised plan =>
      ∃ s, Best (contains runAll (base.withSeed f.seed) (Explore.target f.report)) plan s ∧
        s.replayed.length ≤ budget ∧ plan.length ≤ f.decisions

theorem contains_target {diagnostics : List Diagnostic} (dirty : diagnostics ≠ []) :
    Report.contains diagnostics (Explore.target diagnostics) = true := by
  cases diagnostics with
  | nil => exact absurd rfl dirty
  | cons d rest => simp [Report.contains, Explore.target]

/-- Without a budget the recording is not replayed at all. -/
theorem shrink_unpaid {runOnce : Explore.RunOnce} {trace : List UInt32}
    {diagnostics : List Diagnostic} (dirty : diagnostics ≠ []) :
    Explore.shrinkSpending runOnce trace true 0 diagnostics true =
      some (.notReproducible, ⟨0, []⟩) := by
  simp [Explore.shrinkSpending, Explore.reproduces, dirty]

/-- A shrink that calls a kernel unreproducible replayed the recording unless it could not pay. -/
theorem replayed_of_lost {runOnce : Explore.RunOnce} {trace : List UInt32} {minimise : Bool}
    {budget : Nat} {diagnostics : List Diagnostic} {complete : Bool} {s : Explore.Spent}
    (answer : Explore.shrinkSpending runOnce trace minimise budget diagnostics complete =
      some (.notReproducible, s)) :
    (trace ∈ s.replayed ∧ runOnce trace = some false) ↔ budget ≠ 0 := by
  cases Explore.shrinks_of_answer answer with
  | lost on all whole =>
    constructor
    · rintro ⟨mem, -⟩ rfl
      obtain ⟨-, rfl⟩ := Prod.mk.inj (Option.some.inj whole)
      cases mem
    · intro paid
      unfold Explore.reproduces at whole
      rw [if_neg paid] at whole
      obtain ⟨found, ran, same⟩ := Option.map_eq_some_iff.mp whole
      obtain ⟨rfl, rfl⟩ := Prod.mk.inj same
      exact ⟨by simp, ran⟩

/-- The shrink of a recorded launch, unless it has nothing to spend. -/
theorem honest_of_shrunk {base : LaunchConfig} {runAll : RunAll}
    (accepted : base.checked = some env.config) (launches : Launches base env runAll)
    {minimise : Bool} {budget k : Nat} {ran : Ran} {r : Shrink × Explore.Spent}
    (failing : FirstFailing runAll base k ran)
    (shrunk : shrinkSeed runAll base minimise budget k ran = some r)
    (paid : ¬ (budget = 0 ∧ minimise = true ∧ ran.complete = true)) :
    Honest runAll base minimise budget ⟨(seeded base k).seed, ran.diagnostics, r.1,
      ran.trace.length⟩ := by
  obtain ⟨outcome, s⟩ := r
  have shrinks := Explore.shrinks_of_answer shrunk
  change Honest runAll base minimise budget ⟨_, _, outcome, _⟩
  cases outcome with
  | minimised plan =>
    have minimal := Explore.minimal_of_shrunk shrinks
    exact ⟨s, Explore.best_of_shrunk shrinks, minimal.paid, minimal.shorter⟩
  | disabled =>
    cases shrinks with
    | off off =>
      change minimise = false
      exact off
    | clean none => exact absurd none failing.dirty
  | traceTruncated =>
    cases shrinks with
    | truncated _ incomplete => exact ⟨ran, failing.answer, incomplete⟩
  | notReproducible =>
    obtain ⟨on, complete⟩ : minimise = true ∧ ran.complete = true := by
      cases shrinks with
      | lost on all => exact ⟨on, all⟩
    have lost := ((replayed_of_lost shrunk).mpr fun unpaid => paid ⟨unpaid, on, complete⟩).2
    obtain ⟨again, replayed, same⟩ := launches.replays accepted failing.answer complete
    have found := contains_target failing.dirty
    unfold contains at lost
    rw [show runAll (seeded base k) (.replay ran.trace 0) = some again from replayed,
      Option.map_some, same, found] at lost
    cases lost

/-- A search is honest about the kernel unless it may not replay: with no budget it calls a failing
seed unreproducible without a replay, if it is to minimise and the recording is complete. Any
shrink that gives this answer replayed the recording in vain exactly if it had a budget. -/
theorem search_honest (base : LaunchConfig) (env : Env V) (accepted : base.checked = some env.config)
    (runAll : RunAll) (launches : Launches base env runAll) (seeds : Nat) (minimise : Bool)
    (budget : Nat) :
    ((∀ e f, Explore.search runAll base seeds minimise budget = some e → e.failure = some f →
        Honest runAll base minimise budget f) ↔
      ¬ (budget = 0 ∧ minimise = true ∧
        ∃ i ran, i < seeds ∧ FirstFailing runAll base i ran ∧ ran.complete = true)) ∧
    ∀ runOnce trace diagnostics complete s,
      Explore.shrinkSpending runOnce trace minimise budget diagnostics complete =
        some (.notReproducible, s) →
      ((trace ∈ s.replayed ∧ runOnce trace = some false) ↔ budget ≠ 0) := by
  refine ⟨⟨?_, ?_⟩, fun _ _ _ _ _ => replayed_of_lost⟩
  · rintro honest ⟨rfl, rfl, i, ran, lt, failing, complete⟩
    have shrunk : shrinkSeed runAll base true 0 i ran = some (.notReproducible, ⟨0, []⟩) := by
      unfold shrinkSeed
      rw [complete]
      exact shrink_unpaid failing.dirty
    have answer : Explore.search runAll base seeds true 0 =
        some (failureOf base i ran .notReproducible) := by
      unfold Explore.search
      rw [Explore.searchFrom_firstFailing failing (Nat.zero_le i) (by omega), shrunk]
      rfl
    exact honest _ _ answer rfl
  · intro paid e f answer failed
    obtain ⟨k, ran, r, lt, failing, shrunk, rfl⟩ :=
      Explore.firstFailing_of_searchFrom answer failed fun j none => absurd none (Nat.not_lt_zero j)
    obtain rfl := Option.some.inj failed
    exact honest_of_shrunk accepted launches failing shrunk fun ⟨unpaid, on, complete⟩ =>
      paid ⟨unpaid, on, k, ran, by omega, failing, complete⟩

/-- The first seed fails, and its recording is shrunk to two decisions. -/
theorem search_honest_early : ∃ runAll, Launches pairSeeded early runAll ∧
    ∃ e f, Explore.search runAll pairSeeded 1 true 256 = some e ∧ e.failure = some f ∧
      f.shrink = .minimised [0, 1] ∧ Honest runAll pairSeeded true 256 f := by
  obtain ⟨runAll, launches⟩ := exists_launches pairSeeded early
  obtain ⟨halted, recording, dirty⟩ := early_recorded
  let ran : Ran := ⟨((run earlySeeded).state 8).replayed.diagnostics, [0, 1, 1, 0, 0], true⟩
  have answer : runAll (pairSeeded.withSeed 8) (.random ⟨8⟩) = some ran := by
    rw [show ran = ((run earlySeeded).state 8).ran pairSeeded by rw [Launch.ran, recording]; rfl]
    exact launches.eq halted
  have failing : FirstFailing runAll pairSeeded 0 ran :=
    ⟨answer, dirty, fun j none => absurd none (Nat.not_lt_zero j)⟩
  have told : ∀ replay ∈ [([0, 1, 1, 0, 0], true), ([], false), ([0], false), ([0, 1], true),
      ([0, 0], false)], contains runAll (pairSeeded.withSeed 8) earlyTarget replay.1 =
        some replay.2 := by
    intro replay mem
    obtain ⟨ended, found⟩ := early_replays replay mem
    have launched : runAll (pairSeeded.withSeed 8) (.replay replay.1 0) = _ := launches.eq ended
    rw [contains, launched, ← found]
    rfl
  simp only [List.forall_mem_cons, List.not_mem_nil, false_imp_iff, implies_true, and_true] at told
  obtain ⟨whole, empty, one, two, edited⟩ := told
  have shrunk : shrinkSeed runAll pairSeeded true 256 0 ran =
      some (.minimised [0, 1], ⟨251, [[0, 1, 1, 0, 0], [], [0], [0, 1], [0, 0]]⟩) :=
    early_shrunk whole empty one two edited
  have found : Explore.search runAll pairSeeded 1 true 256 =
      some (failureOf pairSeeded 0 ran (.minimised [0, 1])) := by
    unfold Explore.search
    rw [Explore.searchFrom_firstFailing failing le_rfl Nat.one_pos, shrunk]
    rfl
  refine ⟨runAll, launches, _, _, found, rfl, rfl, ?_⟩
  exact (search_honest pairSeeded early (Option.some_get pair_admitted).symm runAll launches 1 true
    256).1.mpr (fun unpaid => by cases unpaid.1) _ _ found rfl

/-- A race is found at the first seed, its recording replays to the same race, and a search with no
budget calls the kernel unreproducible. -/
theorem handoff_slandered : ∃ runAll, Launches pair handoff runAll ∧
    ∃ e f, Explore.search runAll pair 1 true 0 = some e ∧ e.failure = some f ∧
      f.shrink = .notReproducible ∧
      contains runAll (pair.withSeed f.seed) (Explore.target f.report) [1, 1, 0, 1, 0, 0] =
        some true ∧
      Explore.shrinkSpending (contains runAll (pair.withSeed f.seed) (Explore.target f.report))
        [1, 1, 0, 1, 0, 0] true 0 f.report true = some (.notReproducible, ⟨0, []⟩) := by
  obtain ⟨runAll, launches⟩ := exists_launches pair handoff
  obtain ⟨halted, recording, dirty⟩ := handoff_recorded
  let ran : Ran := ⟨((run handoffSeeded).state 10).replayed.diagnostics, [1, 1, 0, 1, 0, 0], true⟩
  have answer : runAll (pair.withSeed 1) (.random ⟨1⟩) = some ran := by
    rw [show ran = ((run handoffSeeded).state 10).ran pair by rw [Launch.ran, recording]; rfl]
    exact launches.eq halted
  have failing : FirstFailing runAll pair 0 ran :=
    ⟨answer, dirty, fun j none => absurd none (Nat.not_lt_zero j)⟩
  have shrunk : shrinkSeed runAll pair true 0 0 ran = some (.notReproducible, ⟨0, []⟩) :=
    shrink_unpaid dirty
  obtain ⟨again, replayed, same⟩ :=
    launches.replays (Option.some_get pair_admitted).symm answer rfl
  refine ⟨runAll, launches, failureOf pair 0 ran .notReproducible, _, ?_, rfl, rfl, ?_, ?_⟩
  · unfold Explore.search
    rw [Explore.searchFrom_firstFailing failing le_rfl Nat.one_pos, shrunk]
    rfl
  · change (runAll (pair.withSeed 1) (.replay [1, 1, 0, 1, 0, 0] 0)).map _ = _
    rw [replayed, Option.map_some, same]
    exact congrArg some (contains_target dirty)
  · exact shrink_unpaid dirty

end Riri.Launch
