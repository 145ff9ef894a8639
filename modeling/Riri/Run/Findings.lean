import Riri.Run.Standing
import Riri.Run.Waves
import Riri.Sched.Detector

/-!
# What stops a run

A live launch never has a lane parked for one that has returned. So a lane is reported missing
either by the step that makes it so or by the deadlock detector.
-/
namespace Riri.Launch

open Scheduler (Promising Founded Verdict)

variable {V : Type} {env : Env V}

/-- What a step reports of missing lanes, and that nobody is left waiting for a returned lane. -/
structure Finds (env : Env V) (s s' : Launch V) (ds : List Diagnostic) : Prop where
  raised : s'.raised = s.raised ++ ds
  promising : Live s' → Promising (s.geometry env) s'.sched
  founded : ∀ d ∈ ds, d.missesLane = true → Founded (s.geometry env) s'.sched d

theorem Finds.of_verdict {s s' t : Launch V} {before : List Diagnostic} {r : Scheduler.Outcome}
    (verdict : Verdict (s.geometry env) r) (sched : s' = t.withSched r)
    (raised : t.raised = s.raised ++ before) (plain : ∀ d ∈ before, d.missesLane = false) :
    Finds env s s' (before ++ r.2) := by
  subst sched
  refine ⟨by simp [withSched, raised], fun live => ?_, fun d member misses => ?_⟩
  · cases verdict with
    | quiet quiet promising => exact promising
    | early failed => exact absurd (show r.1.aborted = false from live) (by simp [failed])
  · rcases List.mem_append.mp member with earlier | own
    · rw [plain d earlier] at misses
      cases misses
    · cases verdict with
      | quiet quiet promising =>
        rcases quiet with ⟨-, silent⟩ | detected
        · rw [silent] at own
          cases own
        · exact .inr ⟨detected.idle, promising, detected.reports ▸ own⟩
      | early failed report founded =>
        rw [report] at own
        obtain rfl := List.mem_singleton.mp own
        exact founded misses

/-- A step that leaves the scheduler alone and reports no missing lane. -/
theorem Finds.of_same {s s' : Launch V} {ds : List Diagnostic} (h : Promising (s.geometry env) s.sched)
    (raised : s'.raised = s.raised ++ ds) (sched : s'.sched = s.sched)
    (plain : ∀ d ∈ ds, d.missesLane = false) : Finds env s s' ds := by
  refine ⟨raised, fun _ => by rwa [sched], fun d member misses => ?_⟩
  rw [plain d member] at misses
  cases misses

theorem Finds.of_trap {s t : Launch V} {d : Diagnostic} (raised : t.raised = s.raised)
    (plain : d.missesLane = false) : Finds env s (t.trap d) [d] := by
  refine ⟨by simp [trap, withSched, raised], fun live => ?_, fun e member misses => ?_⟩
  · cases live
  · rw [List.mem_singleton.mp member, plain] at misses
    cases misses

theorem missesLane_of_accessReports {space : MemSpace} {index : Nat} {wasInit : Bool} {acc : Access}
    {conflict : Option Access} {d : Diagnostic}
    (member : d ∈ accessReports space index wasInit acc conflict) : d.missesLane = false := by
  rcases List.mem_append.mp member with uninit | race
  · split at uninit
    · rw [List.mem_singleton.mp uninit]
      rfl
    · cases uninit
  · obtain ⟨first, -, rfl⟩ := List.mem_map.mp race
    rfl

variable [BEq V]

theorem Resumed.finds {s s' : Launch V} {me : Nat} {l : Label V} (resumed : Resumed env s me l s')
    (live : Live s) (standing : Standing env s) (h : Promising (s.geometry env) s.sched) :
    ∃ ds, Finds env s s' ds := by
  have nothing : ∀ d ∈ ([] : List Diagnostic), d.missesLane = false := by
    intro d none
    cases none
  have named : ∀ {c : Collective V} {phase : Phase},
      c.mask.names ((s.geometry env).laneOf me) = true →
      Verdict (s.geometry env)
        (Scheduler.warpRendezvous (s.geometry env) me (c.wait phase) s.sched) :=
    fun names => Scheduler.warpRendezvous_verdict live h names
  cases resumed with
  | finish pc op =>
    exact ⟨_, .of_verdict (Scheduler.finish_verdict live h) rfl (List.append_nil _).symm nothing⟩
  | arrive pc loc op =>
    exact ⟨_, .of_verdict (Scheduler.barrier_verdict loc live h) rfl (List.append_nil _).symm nothing⟩
  | yieldAccess | yieldCollective =>
    exact ⟨_, .of_verdict (Scheduler.handOff_verdict live h) rfl (List.append_nil _).symm nothing⟩
  | publish c pc checked =>
    exact ⟨_, .of_verdict (named (names_of_checked checked).2) rfl (List.append_nil _).symm nothing⟩
  | exchange c pc answer problems =>
    refine ⟨_, .of_verdict (named (standing.named me c (by rw [pc]; rfl))) rfl rfl
      fun d member => ?_⟩
    obtain ⟨problem, -, rfl⟩ := List.mem_map.mp member
    rfl
  | access m pc new resp =>
    exact ⟨_, .of_same h rfl rfl fun d member => missesLane_of_accessReports member⟩
  | fence | miss | depart | leave => exact ⟨_, .of_same h (List.append_nil _).symm rfl nothing⟩
  | panic | overflow | outOfBounds | refuse | mistyped => exact ⟨_, .of_trap rfl rfl⟩

omit [BEq V] in
theorem promising_of_start {s : Launch V} {choices : Choices}
    (started : s.sched = Scheduler.new (s.geometry env) choices) :
    Promising (s.geometry env) s.sched := by
  have rests : Scheduler.Rests s.sched (Scheduler.unstarted choices) := by
    rw [started]
    exact Scheduler.pickNext_rests _ _
  exact rests.promising (Scheduler.unstarted_promising choices)

theorem promising_run {n : Nat} (live : Live ((run env).state n)) :
    Promising (((run env).state n).geometry env) ((run env).state n).sched := by
  induction n with
  | zero => exact promising_of_start rfl
  | succ n ih =>
    have before := ih (live_of_succ live)
    rcases (run env).step_cases n with ⟨l, -, moved⟩ | ⟨-, stays⟩
    · obtain ⟨earlier, ⟨-, -, -, next⟩ | ⟨slot, current, resumed⟩⟩ := step_cases env moved
      · rw [next]
        exact promising_of_start rfl
      · obtain ⟨ds, finds⟩ := resumed.finds earlier (standing_run earlier) before
        have same : ((run env).state (n + 1)).geometry env = ((run env).state n).geometry env := by
          simp only [Launch.geometry, resumed.wave.2]
        rw [same]
        exact finds.promising live
    · rw [stays]
      exact before

end Riri.Launch
