import Riri.Guarantees.BlockNumbering
import Riri.Run.Findings

/-!
# What a warp divergence says

The lanes a report counts as arrived are those parked at its location in its phase, whatever
mask and operation they wait with, while a collective is complete when whole wait records
agree. Where all lanes of the warp parked at that location in that phase wait with one mask
and one operation, somebody is missing from the report and nobody too many is in it.
-/
namespace Riri

namespace Scheduler

variable {g : Geometry}

/-- Who is parked in the warp of `i` where `wait` is, in the same phase, waits for the same. -/
def Undivided (g : Geometry) (s : State) (i : Nat) (wait : WarpWait) : Prop :=
  ∀ p, g.SameWarp p i → s.status p = .atWarp → ∀ w, s.warpWait p = some w →
    w.phase = wait.phase → w.loc = wait.loc → w = wait

/-- A divergence report counts some lanes of its mask as arrived but not all, no others, and
only lanes parked at the collective it names. -/
def SelfConsistent (g : Geometry) (s : State) : Diagnostic → Prop
  | .warpDivergence block warp op mask arrived loc =>
      (∃ l < 32, arrived.names l = true) ∧
      (∀ l < 32, arrived.names l = true → mask.names l = true) ∧
      (∃ l < 32, mask.names l = true ∧ arrived.names l = false) ∧
      ∃ phase, ∀ l < 32, arrived.names l = true → l < g.lanesIn warp ∧
        s.status (g.warpBase block warp + l) = .atWarp ∧
        s.warpWait (g.warpBase block warp + l) = some ⟨phase, mask, loc, op⟩
  | _ => True

/-- The reported lane has arrived. -/
theorem MadeFor.own {s : State} {i : Nat} {wait : WarpWait} {d : Diagnostic}
    (made : MadeFor g s i wait d) :
    (arrivedMask g s (g.blockOf i) (g.warpOf i) wait).names (g.laneOf i) = true :=
  (names_arrivedMask_laneOf ⟨rfl, rfl⟩).mpr ⟨made.parked, wait, made.waits, rfl, rfl⟩

/-- Lanes parked there for something else are counted. -/
theorem MadeFor.undivided {s : State} {i : Nat} {wait : WarpWait} {d : Diagnostic}
    (made : MadeFor g s i wait d) (consistent : SelfConsistent g s d) : Undivided g s i wait := by
  obtain ⟨-, -, -, phase, exact_wait⟩ : SelfConsistent g s (.warpDivergence _ _ _ _ _ _) := by
    rw [← made.report]
    exact consistent
  have parked_at : ∀ p, g.SameWarp p i →
      (arrivedMask g s (g.blockOf i) (g.warpOf i) wait).names (g.laneOf p) = true →
      s.warpWait p = some ⟨phase, wait.mask, wait.loc, wait.op⟩ := by
    intro p same arrived
    have waits := (exact_wait _ (g.laneOf_lt p) arrived).2.2
    rwa [← same.1, ← same.2, g.warpBase_add_laneOf] at waits
  have own := Option.some.inj (made.waits.symm.trans (parked_at i ⟨rfl, rfl⟩ made.own))
  intro p same parked w waits at_phase at_loc
  have arrived : (arrivedMask g s (g.blockOf i) (g.warpOf i) wait).names (g.laneOf p) = true :=
    (names_arrivedMask_laneOf same).mpr ⟨parked, w, waits, at_phase, at_loc⟩
  have other := Option.some.inj (waits.symm.trans (parked_at p same arrived))
  exact other.trans own.symm

end Scheduler

namespace Launch

open Scheduler (MadeFor Founded Undivided SelfConsistent)

variable {V : Type} {env : Env V}

/-- Where lanes do not mix, a report is consistent: the group it is about lacks somebody. -/
theorem Standing.selfConsistent {s : Launch V} (standing : Standing env s) {i : Nat}
    {wait : WarpWait} {d : Diagnostic} (made : MadeFor (s.geometry env) s.sched i wait d)
    (undivided : Undivided (s.geometry env) s.sched i wait) :
    SelfConsistent (s.geometry env) s.sched d := by
  have at_wait : ∀ l < 32, (Scheduler.arrivedMask (s.geometry env) s.sched
      ((s.geometry env).blockOf i) ((s.geometry env).warpOf i) wait).names l = true →
      l < (s.geometry env).lanesIn ((s.geometry env).warpOf i) ∧
        s.sched.status ((s.geometry env).warpBase ((s.geometry env).blockOf i)
          ((s.geometry env).warpOf i) + l) = .atWarp ∧
        s.sched.warpWait ((s.geometry env).warpBase ((s.geometry env).blockOf i)
          ((s.geometry env).warpOf i) + l) = some wait := by
    intro l h arrived
    obtain ⟨inside, parked, w, waits, phase, loc⟩ := (Scheduler.names_arrivedMask h).mp arrived
    obtain ⟨block, warp, -⟩ := (s.geometry env).of_warpBase_add ((s.geometry env).blockOf i) inside
    obtain rfl := undivided _ ⟨block, warp⟩ parked w waits phase loc
    exact ⟨inside, parked, waits⟩
  rw [made.report]
  refine ⟨⟨_, (s.geometry env).laneOf_lt i, made.own⟩, ?_, ?_, wait.phase, at_wait⟩
  · intro l h arrived
    obtain ⟨inside, parked, waits⟩ := at_wait l h arrived
    have named := standing.names_own parked waits
    rwa [((s.geometry env).of_warpBase_add _ inside).2.2] at named
  · obtain ⟨p, mate, absent⟩ := standing.waiting.warp made.parked made.waits
    refine ⟨_, (s.geometry env).laneOf_lt p, mate.2.1, ?_⟩
    rw [← Bool.not_eq_true, Scheduler.names_arrivedMask_laneOf mate.1]
    rintro ⟨parked, w, waits, phase, loc⟩
    obtain rfl := undivided p mate.1 parked w waits phase loc
    exact absent ⟨parked, waits⟩

variable [BEq V]

/-- A step that reports a divergence leaves its thread parked, or returned, like any other. -/
theorem shifts_of_raised {n : Nat} {d : Diagnostic} (raised : RaisedAt env n d)
    (diverges : d.diverges = true) :
    ∃ me, Live ((run env).state n) ∧ ((run env).state n).sched.current = some me ∧
      Shifts env ((run env).state n) me ((run env).state (n + 1)) ∧
      Standing env ((run env).state (n + 1)) := by
  obtain ⟨me, l, live, current, resumed⟩ := resumed_of_raised raised
  obtain ⟨pushed, grown, member⟩ := raised
  rcases resumed.shifts with shifts | ⟨-, -, ds, raised, plain⟩
  · exact ⟨me, live, current, shifts,
      shifts.standing (standing_run live) ((wellFormed live).running current).2⟩
  · obtain rfl := List.append_cancel_left (grown.symm.trans raised)
    rw [plain d member] at diverges
    cases diverges

/-- Every divergence report is that of a lane of its warp. -/
theorem madeFor_of_raised {n : Nat} {block warp : Nat} {op : WarpOp} {mask arrived : Mask}
    {loc : Location} (raised : RaisedAt env n (.warpDivergence block warp op mask arrived loc)) :
    ∃ i wait, i < (((run env).state (n + 1)).geometry env).total ∧
      MadeFor (((run env).state (n + 1)).geometry env) ((run env).state (n + 1)).sched i wait
        (.warpDivergence block warp op mask arrived loc) := by
  obtain ⟨i, inside, ⟨rfl, parked, phase, waits, rfl⟩, named⟩ :=
    namesWaveBlock raised (Diagnostic.schedBlock_of_diverges rfl)
  obtain rfl := Option.some.inj named
  exact ⟨i, ⟨phase, mask, loc, op⟩, inside, parked, waits, rfl⟩

theorem founded_of_raised {n : Nat} {d : Diagnostic} (raised : RaisedAt env n d)
    (misses : d.missesLane = true) :
    Founded (((run env).state (n + 1)).geometry env) ((run env).state (n + 1)).sched d := by
  obtain ⟨me, l, live, current, resumed⟩ := resumed_of_raised raised
  obtain ⟨pushed, grown, member⟩ := raised
  obtain ⟨ds, finds⟩ := resumed.finds live (standing_run live) (promising_run live)
  obtain rfl := List.append_cancel_left (grown.symm.trans finds.raised)
  have same : ((run env).state (n + 1)).geometry env = ((run env).state n).geometry env := by
    simp only [Launch.geometry, resumed.wave.2]
  rw [same]
  exact finds.founded d member misses

/-- Every report of a run is consistent exactly if, whenever one is made, the lanes of the warp
parked at the reported place in the reported phase all wait for the reported collective. -/
theorem selfConsistent_iff (env : Env V) :
    (∀ n d, RaisedAt env n d →
      SelfConsistent (((run env).state (n + 1)).geometry env) ((run env).state (n + 1)).sched d) ↔
    ∀ n d i wait, RaisedAt env n d →
      MadeFor (((run env).state (n + 1)).geometry env) ((run env).state (n + 1)).sched i wait d →
      Undivided (((run env).state (n + 1)).geometry env) ((run env).state (n + 1)).sched i wait := by
  constructor
  · intro consistent n d i wait raised made
    exact made.undivided (consistent n d raised)
  · intro undivided n d raised
    cases d with
    | warpDivergence block warp op mask arrived loc =>
      obtain ⟨i, wait, -, made⟩ := madeFor_of_raised raised
      obtain ⟨-, -, -, -, standing⟩ := shifts_of_raised raised rfl
      exact standing.selfConsistent made (undivided n _ i wait raised made)
    | _ => trivial

/-- Two pairs of lanes call one shuffle; lane 1 returns instead. -/
def pairs : Env Nat :=
  trial .fourThreads
    (fun thread => if thread = 1 then [] else
      [.warp ⟨if thread < 2 then 0b0011 else 0b1100, ⟨"kernel.rs", 7, 5⟩, .shfl 0 1⟩])
    [0, 0, 2, 2, 1]

/-- The report on lanes 0 and 1 counts lane 2, which their mask does not name. -/
theorem pairs_inconsistent : ¬ ∀ n d, RaisedAt pairs n d →
    SelfConsistent (((run pairs).state (n + 1)).geometry pairs)
      ((run pairs).state (n + 1)).sched d := by
  intro consistent
  have raised : RaisedAt pairs 4 (.warpDivergence 0 0 .shflSync 0b0011 0b0101 ⟨"kernel.rs", 7, 5⟩) :=
    ⟨[_], by set_option maxRecDepth 100000 in decide +kernel, List.mem_singleton_self _⟩
  obtain ⟨-, inside, -⟩ := consistent 4 _ raised
  have named := inside 2 (by decide) (by decide)
  cases named

end Launch

end Riri
