import Riri.Run.Timeline

/-!
# Barrier and warp generations along a run

Which steps move a generation, which put a thread inside a barrier and which take it out,
and what that says about two times of one wave.
-/
namespace Riri.Launch

open Scheduler (Turned)

variable {V : Type} [BEq V] {env : Env V}

/-- `slot` is the last of its block to reach a barrier: all the others are parked at it. -/
def LastToArrive (env : Env V) (s : Launch V) (slot : Nat) : Prop :=
  ∀ i, (s.geometry env).blockOf i = (s.geometry env).blockOf slot → i ≠ slot →
    s.sched.status i = .atBarrier

/-- `slot` is the last of its warp to leave a collective: every other existing lane is
parked in its second half. -/
def LastToDepart (env : Env V) (s : Launch V) (slot : Nat) (c : Collective V) : Prop :=
  c.mask = (s.geometry env).validMask ((s.geometry env).warpOf slot) ∧
    ∀ i, (s.geometry env).SameWarp i slot → i ≠ slot →
      s.sched.status i = .atWarp ∧ s.sched.warpWait i = some (c.wait .depart)

/-- Only the last arrival of a block moves its generation. -/
theorem Moves.barrierGen {s s' : Launch V} {slot : Nat} {l : Label V}
    (move : Moves env s slot l s') :
    s'.sched.barrierGen = s.sched.barrierGen ∨
      (LastToArrive env s slot ∧
        l = .arrive (s.ctx env slot) (s.sched.barrierGen ((s.geometry env).blockOf slot)) ∧
        s'.sched.barrierGen = Function.update s.sched.barrierGen ((s.geometry env).blockOf slot)
          (s.sched.barrierGen ((s.geometry env).blockOf slot) + 1)) := by
  cases move with
  | finish _ _ _ _ turned =>
    rcases turned with turned | ⟨rfl, -⟩
    · exact .inl turned.barrierGen
    · exact .inl rfl
  | arrive _ _ _ _ _ turned => exact .inl turned.barrierGen
  | release _ _ _ everyone turned => exact .inr ⟨everyone, rfl, turned.barrierGen⟩
  | yieldAccess _ _ _ turned => exact .inl turned.barrierGen
  | yieldCollective _ _ _ turned => exact .inl turned.barrierGen
  | publish _ _ _ _ _ _ turned => exact .inl turned.barrierGen
  | gather _ _ _ _ _ turned => exact .inl turned.barrierGen
  | exchange _ _ _ _ _ _ _ _ turned => exact .inl turned.barrierGen
  | disperse _ _ _ _ _ _ _ turned => exact .inl turned.barrierGen
  | _ => exact .inl rfl

omit [BEq V] in
/-- The last lane of a full warp to leave finds every existing lane parked. -/
theorem lastToDepart_of_everyone {s : Launch V} {slot : Nat} {c : Collective V}
    (full : c.mask = (s.geometry env).validMask ((s.geometry env).warpOf slot))
    (everyone : ∀ p, Scheduler.Mate (s.geometry env) slot c.mask p →
      s.sched.status p = .atWarp ∧ s.sched.warpWait p = some (c.wait .depart)) :
    LastToDepart env s slot c := by
  refine ⟨full, fun i warp away => everyone i ⟨warp, ?_, away⟩⟩
  rw [full, (s.geometry env).names_validMask ((s.geometry env).laneOf_lt i), ← warp.2]
  exact decide_eq_true ((s.geometry env).laneOf_lt_lanesIn i)

/-- Only the last lane to leave a full-mask collective moves its warp's generation. -/
theorem Moves.warpGen {s s' : Launch V} {slot : Nat} {l : Label V}
    (move : Moves env s slot l s') :
    s'.sched.warpGen = s.sched.warpGen ∨
      ∃ c a, LastToDepart env s slot c ∧ l = .exchange (s.ctx env slot) c a ∧
        s'.sched.warpGen = Function.update s.sched.warpGen
          ((s.geometry env).warpGenIndex ((s.geometry env).blockOf slot)
            ((s.geometry env).warpOf slot))
          (s.sched.warpGen ((s.geometry env).warpGenIndex ((s.geometry env).blockOf slot)
            ((s.geometry env).warpOf slot)) + 1) := by
  cases move with
  | finish _ _ _ _ turned =>
    rcases turned with turned | ⟨rfl, -⟩
    · exact .inl turned.warpGen
    · exact .inl rfl
  | arrive _ _ _ _ _ turned => exact .inl turned.warpGen
  | release _ _ _ _ turned => exact .inl turned.warpGen
  | yieldAccess _ _ _ turned => exact .inl turned.warpGen
  | yieldCollective _ _ _ turned => exact .inl turned.warpGen
  | publish _ _ _ _ _ _ turned => exact .inl turned.warpGen
  | gather _ _ _ _ _ turned => exact .inl turned.warpGen
  | exchange _ _ _ _ _ _ _ _ turned => exact .inl turned.warpGen
  | disperse c _ a _ _ _ everyone turned =>
    by_cases full : c.mask = (s.geometry env).validMask ((s.geometry env).warpOf slot)
    · refine .inr ⟨c, a, lastToDepart_of_everyone full everyone, rfl, ?_⟩
      rw [turn_sched, turned.warpGen]
      exact if_pos ⟨rfl, full⟩
    · refine .inl ?_
      rw [turn_sched, turned.warpGen]
      exact if_neg fun both => full both.2
  | _ => exact .inl rfl

/-- The last arrival of a block moves its generation and finds everybody inside. -/
theorem Moves.released {s s' : Launch V} {slot gen : Nat} {l : Label V} {cx : Ctx}
    (wf : WellFormed env s) (move : Moves env s slot l s') (arrives : l = .arrive cx gen)
    (last : LastToArrive env s slot) :
    gen = s.sched.barrierGen ((s.geometry env).blockOf slot) ∧
      s'.sched.barrierGen ((s.geometry env).blockOf slot) = gen + 1 ∧
      ∀ i, (s.geometry env).blockOf i = (s.geometry env).blockOf slot →
        (s'.threads i).pc = .atBarrier gen := by
  cases move with
  | arrive _ _ _ _ waiting _ =>
    obtain ⟨i, mates, away, unparked⟩ := waiting
    exact absurd (last i mates away) unparked
  | release _ _ _ _ turned =>
    obtain ⟨-, rfl⟩ := Label.arrive.inj arrives
    refine ⟨rfl, ?_, fun i mates => ?_⟩
    · rw [turn_sched, turned.barrierGen]
      exact Function.update_self ..
    · by_cases mine : i = slot
      · subst mine
        simp only [turn_threads, barrierEntered, setPc_self]
      · simp only [turn_threads, barrierEntered, setPc_of_ne _ _ mine]
        have inside := (wf.settled i).pc_of_atBarrier (last i mates mine)
        rw [mates] at inside
        exact inside
  | _ => cases arrives

/-- The last departure of a full warp moves its generation. -/
theorem Moves.warpReleased {s s' : Launch V} {slot : Nat} {l : Label V} {cx : Ctx}
    {c : Collective V} {a : Resp V} (move : Moves env s slot l s') (leaves : l = .exchange cx c a)
    (last : LastToDepart env s slot c) :
    s'.sched.warpGen ((s.geometry env).warpGenIndex ((s.geometry env).blockOf slot)
        ((s.geometry env).warpOf slot)) =
      s.sched.warpGen ((s.geometry env).warpGenIndex ((s.geometry env).blockOf slot)
        ((s.geometry env).warpOf slot)) + 1 := by
  cases move with
  | exchange _ _ _ _ _ _ _ missing _ =>
    obtain ⟨-, rfl, -⟩ := Label.exchange.inj leaves
    obtain ⟨p, ⟨warp, -, away⟩, absent⟩ := missing
    exact absurd (last.2 p warp away) absent
  | disperse _ _ _ _ _ _ _ turned =>
    obtain ⟨-, rfl, -⟩ := Label.exchange.inj leaves
    rw [turn_sched, turned.warpGen]
    simp only [Scheduler.rendezvousReleased]
    rw [if_pos ⟨rfl, last.1⟩]
    exact Function.update_self ..
  | _ => cases leaves

/-- A thread gets inside a barrier by arriving. -/
theorem Moves.enters {s s' : Launch V} {slot i gen : Nat} {l : Label V}
    (move : Moves env s slot l s') (outside : (s.threads i).pc ≠ .atBarrier gen)
    (inside : (s'.threads i).pc = .atBarrier gen) :
    l = .arrive (s.ctx env i) gen ∧
      gen = s.sched.barrierGen ((s.geometry env).blockOf i) := by
  by_cases mine : i = slot
  · subst mine
    cases move with
    | arrive _ _ _ _ _ _ | release _ _ _ _ _ =>
      simp only [turn_threads, barrierEntered, setPc_self, Pc.atBarrier.injEq] at inside
      subst inside
      exact ⟨rfl, rfl⟩
    | _ => simp_all [accessed, missed, ctx]
  · rw [move.others mine] at inside
    exact absurd inside outside

/-- A thread gets out of a barrier by leaving it. -/
theorem Moves.leaves {s s' : Launch V} {slot i gen : Nat} {l : Label V}
    (move : Moves env s slot l s') (inside : (s.threads i).pc = .atBarrier gen)
    (outside : (s'.threads i).pc ≠ .atBarrier gen) : l = .depart (s.ctx env i) gen := by
  by_cases mine : i = slot
  · subst mine
    cases move <;> simp_all
  · rw [move.others mine] at outside
    exact absurd inside outside

/-! ### Two times of one wave -/

section

variable {i j : Nat} (le : i ≤ j) (live : Live ((run env).state j))
  (same : ((run env).state j).firstBlock = ((run env).state i).firstBlock)
include le live same

theorem barrierGen_mono (block : Nat) :
    ((run env).state i).sched.barrierGen block ≤ ((run env).state j).sched.barrierGen block := by
  refine wave_induction (R := fun s t => s.sched.barrierGen block ≤ t.sched.barrierGen block)
    (fun _ => le_rfl) (fun _ _ _ => Nat.le_trans) (fun n slot l _ _ _ move => ?_) le live same
  rcases move.barrierGen with stays | ⟨-, -, bumped⟩
  · rw [stays]
  · rw [bumped, Function.update_apply]
    split
    next h => rw [h]; exact Nat.le_succ _
    · exact le_rfl

theorem warpGen_mono (index : Nat) :
    ((run env).state i).sched.warpGen index ≤ ((run env).state j).sched.warpGen index := by
  refine wave_induction (R := fun s t => s.sched.warpGen index ≤ t.sched.warpGen index)
    (fun _ => le_rfl) (fun _ _ _ => Nat.le_trans) (fun n slot l _ _ _ move => ?_) le live same
  rcases move.warpGen with stays | ⟨-, -, -, -, bumped⟩
  · rw [stays]
  · rw [bumped, Function.update_apply]
    split
    next h => rw [h]; exact Nat.le_succ _
    · exact le_rfl

/-- The step of one wave at which something stops holding. -/
theorem exists_move {P : Launch V → Prop} (first : P ((run env).state i))
    (last : ¬ P ((run env).state j)) :
    ∃ k slot l, i ≤ k ∧ k < j ∧ P ((run env).state k) ∧ ¬ P ((run env).state (k + 1)) ∧
      ((run env).state k).firstBlock = ((run env).state i).firstBlock ∧
      (run env).label k = some l ∧
      Moves env ((run env).state k) slot l ((run env).state (k + 1)) := by
  obtain ⟨k, low, high, before, after⟩ := (run env).exists_change le first last
  have here := sameWave_between low high.le live same
  have next := sameWave_between (Nat.le_succ_of_le low) high live same
  rcases wave_step (live_of_le high live) (next.trans here.symm) with
    ⟨-, stays⟩ | ⟨slot, l, labelled, -, move⟩
  · rw [stays] at after
    exact absurd before after
  · exact ⟨k, slot, l, low, high, before, after, here, labelled, move⟩

/-- A thread outside a barrier instance and later inside it arrived in between. -/
theorem exists_arrive {slot gen : Nat}
    (outside : (((run env).state i).threads slot).pc ≠ .atBarrier gen)
    (inside : (((run env).state j).threads slot).pc = .atBarrier gen) :
    ∃ k, i ≤ k ∧ k < j ∧
      (run env).label k = some (.arrive (((run env).state i).ctx env slot) gen) ∧
      gen = ((run env).state k).sched.barrierGen
        ((((run env).state i).geometry env).blockOf slot) := by
  obtain ⟨k, _, l, low, high, before, after, wave, labelled, move⟩ :=
    exists_move le live same (P := fun s => (s.threads slot).pc ≠ .atBarrier gen) outside
      (not_not.mpr inside)
  obtain ⟨rfl, now⟩ := move.enters before (not_not.mp after)
  refine ⟨k, low, high, ?_, ?_⟩
  · rw [labelled]
    simp only [ctx, wave]
  · simpa only [geometry, wave] using now

/-- A thread inside a barrier instance and later outside it left in between. -/
theorem exists_depart {slot gen : Nat}
    (inside : (((run env).state i).threads slot).pc = .atBarrier gen)
    (outside : (((run env).state j).threads slot).pc ≠ .atBarrier gen) :
    ∃ k, i ≤ k ∧ k < j ∧
      (run env).label k = some (.depart (((run env).state i).ctx env slot) gen) := by
  obtain ⟨k, _, l, low, high, before, after, wave, labelled, move⟩ :=
    exists_move le live same (P := fun s => (s.threads slot).pc = .atBarrier gen) inside outside
  obtain rfl := move.leaves before after
  refine ⟨k, low, high, ?_⟩
  rw [labelled]
  simp only [ctx, wave]

end

end Riri.Launch
