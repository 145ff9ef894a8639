import Riri.Source.Admission

/-!
# Explore

Source: `replay` and `Explore::shrink` of src/explore.rs. A launch `env` stands for a kernel
and the buffers it captures; what is replayed is that launch with its decisions taken from a
schedule. A replay need not come to an end, so the test a shrink repeats is a partial
function: `none` is a replay that never returns, and then neither does the shrink.
-/
namespace Riri

variable {V : Type}

namespace LaunchConfig

def withSeed (config : LaunchConfig) (seed : UInt64) : LaunchConfig := { config with seed := seed }

/-- `replay`: the decisions of the launch come from `plan`. -/
def replay (config : LaunchConfig) (plan : List UInt32) (env : Env V) : Env V :=
  { env with choicesOf := config.choicesOf (.replay plan 0) }

end LaunchConfig

/-- What a launch hands back, less the seed, and what it leaves in the buffers. -/
structure Replayed (V : Type) where
  diagnostics : List Diagnostic
  aborted : Bool
  contents : Buf → Nat → V

def Launch.replayed (s : Launch V) : Replayed V where
  diagnostics := Reporter.take s.raised
  aborted := s.sched.aborted
  contents := fun buf => (s.mem buf).data

/-- The recording `run_shared` returns: only a launch of one wave has one. -/
def Launch.recording (config : LaunchConfig) (s : Launch V) : List UInt32 × Bool :=
  if config.waves = 1 then (s.sched.trace, s.sched.traceComplete) else ([], false)

/-- `Shrink`. -/
inductive Shrink where
  | minimised (plan : List UInt32)
  | disabled
  | traceTruncated
  | notReproducible
  deriving DecidableEq, Repr

namespace Explore

/-- The replays left, and the plans replayed so far. -/
structure Spent where
  budget : Nat
  replayed : List (List UInt32)

/-- `run_once`, reduced to whether the report contains the target. -/
abbrev RunOnce := List UInt32 → Option Bool

variable (runOnce : RunOnce) (trace : List UInt32)

/-- The closure of `shrink`: a spent budget counts as not reproduced. -/
def reproduces (plan : List UInt32) (s : Spent) : Option (Bool × Spent) :=
  if s.budget = 0 then some (false, s)
  else (runOnce plan).map fun found => (found, ⟨s.budget - 1, s.replayed ++ [plan]⟩)

/-- `while step < n`: the last prefix that failed and the first that reproduced. -/
def double (lo step : Nat) (pos : 0 < step) (s : Spent) : Option (Nat × Nat × Spent) :=
  if step < trace.length then
    match reproduces runOnce (trace.take step) s with
    | none => none
    | some (true, s) => some (lo, step, s)
    | some (false, s) => double step (step * 2) (Nat.mul_pos pos Nat.two_pos) s
  else some (lo, trace.length, s)
termination_by trace.length - step

/-- `while lo + 1 < hi`. -/
def bisect (lo hi : Nat) (s : Spent) : Option (Nat × Spent) :=
  if lo + 1 < hi then
    let mid := lo + (hi - lo) / 2
    match reproduces runOnce (trace.take mid) s with
    | none => none
    | some (true, s) => bisect lo mid s
    | some (false, s) => bisect mid hi s
  else some (hi, s)
termination_by hi - lo

/-- `for i in 1..plan.len()`: lets the previous thread keep running where that still
reproduces. -/
def dropSwitches (i : Nat) (plan : List UInt32) (s : Spent) : Option (List UInt32 × Spent) :=
  if i < plan.length then
    if s.budget = 0 then some (plan, s)
    else if plan.getD i 0 = plan.getD (i - 1) 0 then dropSwitches (i + 1) plan s
    else
      let candidate := plan.set i (plan.getD (i - 1) 0)
      match reproduces runOnce candidate s with
      | none => none
      | some (true, s) => dropSwitches (i + 1) candidate s
      | some (false, s) => dropSwitches (i + 1) plan s
  else some (plan, s)
termination_by plan.length - i
decreasing_by all_goals simp_all; omega

/-- `Explore::shrink`, with the replays it made. -/
def shrinkSpending (minimise : Bool) (budget : Nat) (diagnostics : List Diagnostic)
    (complete : Bool) : Option (Shrink × Spent) :=
  let s : Spent := ⟨budget, []⟩
  if !minimise then some (.disabled, s)
  else if !complete then some (.traceTruncated, s)
  else if diagnostics = [] then some (.disabled, s)
  else
    match reproduces runOnce trace s with
    | none => none
    | some (false, s) => some (.notReproducible, s)
    | some (true, s) =>
      match reproduces runOnce [] s with
      | none => none
      | some (true, s) =>
        (dropSwitches runOnce 1 [] s).map fun done => (.minimised done.1, done.2)
      | some (false, s) =>
        match double runOnce trace 0 1 Nat.one_pos s with
        | none => none
        | some (lo, hi, s) =>
          match bisect runOnce trace lo hi s with
          | none => none
          | some (hi, s) =>
            (dropSwitches runOnce 1 (trace.take hi) s).map fun done => (.minimised done.1, done.2)

/-- `Explore::shrink`. -/
def shrink (minimise : Bool) (budget : Nat) (diagnostics : List Diagnostic) (complete : Bool) :
    Option Shrink :=
  (shrinkSpending runOnce trace minimise budget diagnostics complete).map Prod.fst

end Explore

/-- `Schedule::switches`: how often the turn passes to a different thread. -/
def switches (plan : List UInt32) : Nat :=
  (plan.zip plan.tail).countP fun w => w.1 ≠ w.2

/-- What a run hands back: the findings, the recording and whether it is complete. -/
structure Ran where
  diagnostics : List Diagnostic
  trace : List UInt32
  complete : Bool

/-- What `run` hands back to a search. -/
def Launch.ran (config : LaunchConfig) (s : Launch V) : Ran :=
  ⟨Reporter.take s.raised, (s.recording config).1, (s.recording config).2⟩

/-- The `run_once` of a search. -/
abbrev RunAll := LaunchConfig → Choices → Option Ran

structure Failure where
  seed : UInt64
  report : List Diagnostic
  shrink : Shrink
  decisions : Nat

structure Exploration where
  seedsTried : Nat
  failure : Option Failure

namespace Explore

/-- The test a shrink repeats: `run_once(config, choices).0.contains(&target)`. -/
def contains (runAll : RunAll) (config : LaunchConfig) (target : String) : RunOnce := fun plan =>
  (runAll config (.replay plan 0)).map fun ran => Report.contains ran.diagnostics target

/-- `report.diagnostics.first()`, as it is looked for. -/
def target (diagnostics : List Diagnostic) : String := (diagnostics.map (·.fingerprint)).headI

/-- `for i in 0..self.seeds`, from seed `i` on. -/
def searchFrom (runAll : RunAll) (base : LaunchConfig) (minimise : Bool) (budget : Nat) :
    (left i : Nat) → Option Exploration
  | 0, i => some ⟨i, none⟩
  | left + 1, i =>
      let config := base.withSeed (base.seed + UInt64.ofNat i)
      match runAll config (.random ⟨config.seed⟩) with
      | none => none
      | some ran =>
          if ran.diagnostics = [] then searchFrom runAll base minimise budget left (i + 1)
          else
            (shrink (contains runAll config (target ran.diagnostics)) ran.trace minimise budget
              ran.diagnostics ran.complete).map fun shrunk =>
                ⟨i + 1, some ⟨config.seed, ran.diagnostics, shrunk, ran.trace.length⟩⟩

/-- `Explore::search`. -/
def search (runAll : RunAll) (base : LaunchConfig) (seeds : Nat) (minimise : Bool) (budget : Nat) :
    Option Exploration := searchFrom runAll base minimise budget seeds 0

end Explore

end Riri
