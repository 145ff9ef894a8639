import Riri.Guarantees.RaceNeedsWrite
import Riri.Run.PhaseCourse

/-!
# What kernels in phases find

Run by itself, a thread of a kernel in phases also says what its accesses report. That an access
meets no conflict is a matter of its phase: a record by another thread that is not ordered before
it belongs to the same phase of the same block, or to another block, and both only read.
-/
namespace Riri

variable {V : Type}

/-- Operations that `ThreadCtx::access` counts. -/
def Op.isMem : Op V → Bool
  | .mem _ => true
  | .ret | .panic _ | .fence _ | .syncThreads _ | .warp _ => false

namespace Program

variable (program : Program V)

def accesses (block thread : Nat) (answers : List (Resp V)) : Nat :=
  (List.range answers.length).countP fun j =>
    (program.kernel block thread (answers.take j)).isMem

/-- What its next access reports: that it reads an element nothing was stored to. -/
def finding (block p thread : Nat) (answers : List (Resp V)) (mem : Buf × Nat → V × Bool) :
    Option Diagnostic :=
  match program.kernel block thread answers with
  | .mem m =>
      if m.index < (program.mem m.buf).len ∧ m.act.kind ≠ .write ∧
          (mem (m.buf, m.index)).2 = false then
        some (.uninitRead (program.space m.buf) m.index
          { block := block
            thread := thread
            epoch := p
            warp := thread / program.warpSize
            warpEpoch := 0
            seq := program.accesses block thread answers + 1
            kind := m.act.kind
            location := m.loc })
      else none
  | .ret | .panic _ | .fence _ | .syncThreads _ | .warp _ => none

/-- One more answer, and one more access if it answers one. -/
theorem accesses_append (block thread : Nat) (answers : List (Resp V)) (a : Resp V) :
    program.accesses block thread (answers ++ [a]) =
      program.accesses block thread answers + (program.kernel block thread answers).isMem.toNat := by
  have earlier : (List.range answers.length).countP (fun j =>
      (program.kernel block thread ((answers ++ [a]).take j)).isMem) =
        program.accesses block thread answers := by
    apply List.countP_congr
    intro j member
    rw [List.take_append_of_le_length (List.mem_range.mp member).le]
  rw [accesses, List.length_append, List.length_singleton, List.range_succ, List.countP_append,
    earlier, List.countP_singleton, List.take_left' rfl]
  cases (program.kernel block thread answers).isMem <;> rfl

end Program

def Phasing.Allows (phasing : Phasing) (e : Buf × Nat) (a : Access) : Prop :=
  e ∈ phasing.sight a.block ∧
    (phasing.owner a.block a.epoch e = some a.thread ∨
      phasing.owner a.block a.epoch e = none ∧ a.kind = .read)

/-- Two allowed accesses that the epochs do not order both read. -/
theorem Phasing.Fits.both_read [BEq V] {phasing : Phasing} {program : Program V}
    (fits : phasing.Fits program) {e : Buf × Nat} {a b : Access} (first : phasing.Allows e a)
    (second : phasing.Allows e b) (unordered : a.unordered b) : a.kind = .read ∧ b.kind = .read := by
  obtain ⟨seen, own⟩ := first
  obtain ⟨seen', own'⟩ := second
  obtain ⟨apart, elsewhere⟩ := unordered
  by_cases block : a.block = b.block
  · have epoch : a.epoch = b.epoch := by
      cases elsewhere with
      | inl other => exact absurd block other
      | inr same => exact same.1
    rw [← block, ← epoch] at own'
    cases own with
    | inl mine =>
      cases own' with
      | inl theirs =>
        rw [mine] at theirs
        exact absurd ⟨block, Option.some.inj theirs⟩ apart
      | inr read =>
        rw [mine] at read
        cases read.1
    | inr read =>
      cases own' with
      | inl theirs =>
        rw [read.1] at theirs
        cases theirs
      | inr read' => exact ⟨read.2, read'.2⟩
  · -- Both blocks see the element, so it is nobody's home.
    have homeless : phasing.home e = none := by
      rcases seen with home | homeless
      · rcases seen' with home' | homeless
        · rw [home] at home'
          exact absurd (Option.some.inj home') block
        · exact homeless
      · exact homeless
    have unowned : ∀ block p thread, phasing.owner block p e ≠ some thread := by
      intro block p thread owned
      have home := (fits.owned block p e thread owned).1
      rw [homeless] at home
      cases home
    exact ⟨(own.resolve_left (unowned _ _ _)).2, (own'.resolve_left (unowned _ _ _)).2⟩

namespace Launch

variable [BEq V] {env : Env V} {phasing : Phasing}

/-! ### Accesses are counted -/

omit [BEq V] in
theorem ctx_gid (s : Launch V) (i : Nat) :
    (s.ctx env i).gid = s.firstBlock * env.config.threadsPerBlock + i := by
  show (s.firstBlock + i / env.config.threadsPerBlock) * env.config.threadsPerBlock +
    i % env.config.threadsPerBlock = _
  rw [Nat.add_mul, Nat.add_assoc, Nat.div_add_mod']

/-- The operation counts of the threads of the wave and of those still to come, and the epochs of
warps that call no collective. -/
structure Counted (env : Env V) (s : Launch V) : Prop where
  own : ∀ i < (s.geometry env).total, s.sync.seq (s.ctx env i).gid =
    env.program.accesses (s.firstBlock + i / env.config.threadsPerBlock)
      (i % env.config.threadsPerBlock) (s.threads i).answers
  later : ∀ gid, s.firstBlock * env.config.threadsPerBlock + (s.geometry env).total ≤ gid →
    s.sync.seq gid = 0
  warps : ∀ index, s.sched.warpGen index = 0

/-- A step answers its thread and counts the access it made, or neither. -/
theorem Moves.counts {s s' : Launch V} {i : Nat} {l : Label V} (move : Moves env s i l s')
    (asked : (s.threads i).pc.Asked (s.nextOp env i)) :
    ((s'.threads i).answers = (s.threads i).answers ∧ s'.sync.seq = s.sync.seq) ∨
      ∃ a, (s'.threads i).answers = (s.threads i).answers ++ [a] ∧
        s'.sync.seq = Function.update s.sync.seq (s.ctx env i).gid
          (s.sync.seq (s.ctx env i).gid + (s.nextOp env i).isMem.toNat) := by
  have still : ∀ op : Op V, op.isMem = false → s.sync.seq = Function.update s.sync.seq
      (s.ctx env i).gid (s.sync.seq (s.ctx env i).gid + op.isMem.toNat) := by
    intro op other
    simp [other]
  cases move with
  | finish => exact .inl ⟨rfl, rfl⟩
  | arrive | release => exact .inl ⟨by simp [barrierEntered, ctx], rfl⟩
  | yieldAccess | yieldCollective => exact .inl ⟨by simp, rfl⟩
  | publish | gather | exchange | disperse => exact .inl ⟨by simp [slotted, report, ctx], rfl⟩
  | fence pc ordering op =>
    refine .inr ⟨.unit, by simp, ?_⟩
    rw [op]
    exact (SyncState.fence_seq ..).trans (still (.fence ordering) rfl)
  | access m pc new resp =>
    rw [pc] at asked
    refine .inr ⟨resp, by simp [accessed, ctx], ?_⟩
    rw [show s.nextOp env i = .mem m from asked]
    show Function.update _ _ _ = _
    rw [(acquired_rest env s i m).1]
    rfl
  | miss m pc =>
    rw [pc] at asked
    refine .inr ⟨.elem none, by simp [missed, ctx], ?_⟩
    rw [show s.nextOp env i = .mem m from asked]
    rfl
  | depart gen pc =>
    rw [pc] at asked
    obtain ⟨loc, op⟩ := asked
    refine .inr ⟨.unit, by simp, ?_⟩
    rw [op]
    exact still (.syncThreads loc) rfl
  | leave c answer pc =>
    rw [pc] at asked
    refine .inr ⟨answer, by simp, ?_⟩
    rw [show s.nextOp env i = .warp c from asked]
    exact still (.warp c) rfl

theorem Moves.counted {s s' : Launch V} {i : Nat} {l : Label V} (move : Moves env s i l s')
    (counted : Counted env s) (asked : (s.threads i).pc.Asked (s.nextOp env i))
    (inside : i < (s.geometry env).total) (other : ∀ c, s.nextOp env i ≠ .warp c) :
    Counted env s' := by
  have same : s'.geometry env = s.geometry env := by simp only [geometry, move.firstBlock]
  have gid : ∀ j, (s'.ctx env j).gid = (s.ctx env j).gid := by
    intro j
    rw [ctx_gid, ctx_gid, move.firstBlock]
  constructor
  · intro j within
    rw [same] at within
    have before := counted.own j within
    rw [gid, move.firstBlock]
    by_cases mine : j = i
    · subst mine
      rcases move.counts asked with ⟨answers, seq⟩ | ⟨a, answers, seq⟩
      · rw [answers, seq]
        exact before
      · rw [answers, seq, Function.update_self, before, Program.accesses_append, nextOp_eq]
    · rw [move.others mine, ← before]
      rcases move.counts asked with ⟨-, seq⟩ | ⟨a, -, seq⟩
      · rw [seq]
      · rw [seq, Function.update_of_ne]
        rw [ctx_gid, ctx_gid]
        omega
  · intro g later
    rw [same, move.firstBlock] at later
    have before := counted.later g later
    rcases move.counts asked with ⟨-, seq⟩ | ⟨a, -, seq⟩
    · rw [seq]
      exact before
    · rw [seq, Function.update_of_ne, before]
      rw [ctx_gid]
      omega
  · intro index
    rcases move.warpGen with stays | ⟨c, a, -, rfl, -⟩
    · rw [stays]
      exact counted.warps index
    · cases move with
      | exchange _ pc | disperse _ pc =>
        rw [pc] at asked
        exact absurd asked (other c)

omit [BEq V] in
theorem counted_of_start {s : Launch V} {firstBlock wave : Nat} (block : s.firstBlock = firstBlock)
    (threads : ∀ i, s.threads i = ⟨.ready, []⟩) (sched : s.sched = start env firstBlock wave)
    (unused : ∀ gid, firstBlock * env.config.threadsPerBlock ≤ gid → s.sync.seq gid = 0) :
    Counted env s := by
  constructor
  · intro i _
    rw [threads, unused]
    · rfl
    · rw [ctx_gid, block]
      exact Nat.le_add_right ..
  · intro gid later
    rw [block] at later
    exact unused gid ((Nat.le_add_right ..).trans later)
  · intro index
    rw [sched]
    exact congrFun (Scheduler.pickNext_rests (env.config.geometry firstBlock)
      (Scheduler.unstarted (env.choicesOf wave))).warpGen index

theorem counted_run (fits : phasing.Fits env.program) (n : Nat) :
    Counted env ((run env).state n) := by
  induction n with
  | zero => exact counted_of_start rfl (fun _ => rfl) rfl (fun _ _ => rfl)
  | succ n ih =>
    obtain ⟨live, course⟩ := onCourse_run fits n
    have goes := (onCourse_run fits (n + 1)).1
    rcases (run env).step_cases n with ⟨l, labelled, moved⟩ | ⟨-, stays⟩
    · obtain ⟨-, ⟨-, -, -, next⟩ | ⟨slot, current, resumed⟩⟩ := step_cases env moved
      · rw [next]
        refine counted_of_start rfl (fun _ => rfl) rfl ?_
        intro gid later
        have shifted : ((run env).state n).firstBlock * env.config.threadsPerBlock +
            (((run env).state n).geometry env).total =
              (((run env).state n).nextWave env).firstBlock * env.config.threadsPerBlock :=
          (Nat.add_mul ..).symm
        apply ih.later gid
        rw [shifted]
        exact later
      · obtain ⟨inside, -⟩ := (wellFormed live).running current
        have standing := standing_run live
        exact (resumed.moves env live goes).counted ih (standing.asked slot) inside
          (course.no_collective fits (numbered env n) standing inside)
    · rw [stays]
      exact ih

/-! ### Accesses meet no conflict -/

/-- Whoever touches an element does what its phase allows. -/
theorem touched_allowed (fits : phasing.Fits env.program) {n : Nat} {l : Label V} {cx : Ctx}
    {e : Buf × Nat} {acc : Access} (labelled : (run env).label n = some l)
    (touched : l.touched? = some (cx, e, acc)) : phasing.Allows e acc := by
  obtain ⟨slot, current, -, inside, -, resumed⟩ :=
    label_slot labelled (Label.ctx?_of_touched touched)
  obtain ⟨live, course⟩ := onCourse_run fits n
  have move := resumed.moves env live (onCourse_run fits (n + 1)).1
  obtain ⟨done, inPhase⟩ := course.inside _ (inWave inside)
  obtain ⟨view, ran, -⟩ := inPhase.together.thread _ (mod_lt env slot)
  generalize (run env).state (n + 1) = next at move
  cases move with
  | access m pc new resp bound updated =>
    obtain ⟨-, rfl, rfl⟩ : _ = cx ∧ (m.buf, m.index) = e ∧ _ = acc := by
      simpa [Label.touched?] using touched
    rw [slotAt_self, said_of_atAccess pc] at ran
    rw [(Instrumented.forLaunch_data m.buf env.id _).2, course.len] at bound
    have in_grid := (numbered env n).inGrid inside
    have op := (standing_run live).op_of_atAccess pc
    rw [nextOp_eq] at op
    have more := fits.lt_of_mem in_grid inPhase.phase (mod_lt env slot)
      (inPhase.within _ (mod_lt env slot)) ran op
    obtain ⟨seen, allowed⟩ := fits.uses _ in_grid _ inPhase.phase _ (mod_lt env slot) _ more _ ran m
      op bound
    refine ⟨seen, ?_⟩
    cases allowed with
    | inl mine => exact .inl mine
    | inr read => exact .inr ⟨read.1, congrArg MemAct.kind read.2⟩
  | _ => cases touched

/-- No access of a kernel in phases meets a conflict. -/
theorem no_conflict (fits : phasing.Fits env.program) {n : Nat} {cx : Ctx} {m : MemOp V}
    {acc : Access} {old : V} {found : Option Access}
    (labelled : (run env).label n = some (.access cx m acc old found)) : found = none := by
  cases found with
  | none => rfl
  | some first =>
    have second := touched_allowed fits (e := (m.buf, m.index)) labelled rfl
    obtain ⟨slot, -, -, -, -, resumed⟩ := label_slot labelled rfl
    have met := resumed.conflict
    obtain ⟨kept, races⟩ := Cell.conflict_kept met.symm
    obtain ⟨i, -, l, cx', labelled', touched'⟩ := kept_accessed (e := (m.buf, m.index)) kept
    have earlier := touched_allowed fits labelled' touched'
    obtain ⟨reads, reads'⟩ := fits.both_read earlier second ((concurrent_iff _ _ _).mp races).1
    -- A read is weighed against the last write only.
    rw [Cell.record_read reads'] at met
    obtain ⟨last, -⟩ := Option.filter_eq_some_iff.mp met.symm
    exact absurd reads ((sorted_run env n (m.buf, m.index)).lastWrite first last)

end Launch

end Riri
