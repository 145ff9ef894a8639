import Riri.Run.Timeline

/-!
# Collectives along a run

Whose exchange slot is whose, what a slot holds while its lane is inside a collective, which
steps let a parked thread go, and what holds of a group from the moment it is let go from its
first rendezvous until one of its lanes has read the slots.
-/
namespace Riri

def Pc.collective? {V : Type} : Pc V → Option (Collective V)
  | .arrived c | .departed c _ => some c
  | _ => none

namespace Launch

open Scheduler (Mate)

variable {V : Type} {env : Env V}

def slotOf (env : Env V) (s : Launch V) (i : Nat) : Option (SlotValue V) :=
  s.slots (warpIndex env (s.ctx env i)) (s.ctx env i).lane

theorem warpIndex_eq (s : Launch V) (i : Nat) : warpIndex env (s.ctx env i) =
    (s.firstBlock + (s.geometry env).blockOf i) * (s.geometry env).warpsPerBlock +
      (s.geometry env).warpOf i := rfl

/-- Threads of one wave have slots of their own. -/
theorem slot_injective {s : Launch V} {i j : Nat}
    (index : warpIndex env (s.ctx env i) = warpIndex env (s.ctx env j))
    (lane : (s.ctx env i).lane = (s.ctx env j).lane) : i = j := by
  rw [warpIndex_eq, warpIndex_eq, Nat.add_mul, Nat.add_mul, Nat.add_assoc, Nat.add_assoc] at index
  exact (s.geometry env).eq_of_laneOf
    ((s.geometry env).sameWarp_of_warpGenIndex (Nat.add_left_cancel index)) lane

theorem slotOf_slotted (s : Launch V) (i : Nat) (c : Collective V) (j : Nat) :
    slotOf env (s.slotted env (s.ctx env i) c) j =
      if j = i then some c.exchange.publishes else slotOf env s j := by
  have same : slotOf env (s.slotted env (s.ctx env i) c) j =
      Function.update s.slots (warpIndex env (s.ctx env i))
        (Function.update (s.slots (warpIndex env (s.ctx env i))) (s.ctx env i).lane
          (some c.exchange.publishes)) (warpIndex env (s.ctx env j)) (s.ctx env j).lane := rfl
  rw [same]
  by_cases mine : j = i
  · subst mine
    simp
  · rw [if_neg mine]
    by_cases index : warpIndex env (s.ctx env j) = warpIndex env (s.ctx env i)
    · have lane : (s.ctx env j).lane ≠ (s.ctx env i).lane := fun lane =>
        mine (slot_injective index lane)
      rw [slotOf, index, Function.update_self, Function.update_of_ne lane]
    · rw [slotOf, Function.update_of_ne index]

variable [BEq V]

/-! ### What a slot holds -/

/-- A lane inside a collective has its value in its slot. -/
def SlotsHeld (env : Env V) (s : Launch V) : Prop :=
  ∀ i c, (s.threads i).pc.collective? = some c → slotOf env s i = some c.exchange.publishes

theorem Moves.slots {s s' : Launch V} {me : Nat} {l : Label V} (move : Moves env s me l s') :
    (∃ c, s'.slots = (s.slotted env (s.ctx env me) c).slots ∧
        (s'.threads me).pc.collective? = some c) ∨
      (s'.slots = s.slots ∧ ∀ c, (s'.threads me).pc.collective? = some c →
        (s.threads me).pc.collective? = some c) := by
  cases move with
  | publish c | gather c => exact .inl ⟨c, rfl, by simp [Pc.collective?]⟩
  | exchange c pc | disperse c pc =>
    refine .inr ⟨rfl, fun c' here => ?_⟩
    rw [pc]
    simpa [Pc.collective?] using here
  | finish pc => exact .inr ⟨rfl, fun c here => here⟩
  | _ => exact .inr ⟨rfl, fun c here => by simp [Pc.collective?, accessed, ctx, barrierEntered] at here⟩

theorem Moves.slotsHeld {s s' : Launch V} {me : Nat} {l : Label V} (held : SlotsHeld env s)
    (move : Moves env s me l s') : SlotsHeld env s' := by
  have same_ctx : ∀ i, s'.ctx env i = s.ctx env i := fun i => by simp only [ctx, move.firstBlock]
  intro i c here
  rcases move.slots with ⟨c', slots, mine⟩ | ⟨slots, kept⟩
  · have written : slotOf env s' i = slotOf env (s.slotted env (s.ctx env me) c') i := by
      simp only [slotOf, slots, same_ctx]
      rfl
    rw [written, slotOf_slotted]
    split
    next own =>
      subst own
      rw [here] at mine
      rw [Option.some.inj mine]
    next other =>
      rw [move.others other] at here
      exact held i c here
  · have unchanged : slotOf env s' i = slotOf env s i := by simp only [slotOf, slots, same_ctx]
    rw [unchanged]
    by_cases own : i = me
    · subst own
      exact held i c (kept c here)
    · rw [move.others own] at here
      exact held i c here

theorem slotsHeld (env : Env V) {n : Nat} (live : Live ((run env).state n)) :
    SlotsHeld env ((run env).state n) := by
  induction n with
  | zero =>
    intro i c here
    cases here
  | succ n ih =>
    obtain ⟨-, ⟨-, stays⟩ | ⟨-, -, -, next⟩ | ⟨me, l, -, -, move⟩⟩ := live_step live
    · rw [stays]
      exact ih (live_of_succ live)
    · rw [next]
      intro i c here
      cases here
    · exact move.slotsHeld (ih (live_of_succ live))

/-! ### Who is let go -/

/-- What a step does to another thread's status: nothing, or it lets it go from a barrier or
from a rendezvous all of whose other members are parked there; from a first half only as the
last lane publishes its value. -/
theorem Moves.woken {s s' : Launch V} {me i : Nat} {l : Label V} (move : Moves env s me l s')
    (away : i ≠ me) :
    s'.sched.status i = s.sched.status i ∨
      (s'.sched.status i = .runnable ∧ s.sched.status i = .atBarrier) ∨
      (s'.sched.status i = .runnable ∧ ∃ wait, Mate (s.geometry env) me wait.mask i ∧
        (wait.phase = .arrive → ∃ c, l = .publish (s.ctx env me) c) ∧
        ∀ p, Mate (s.geometry env) me wait.mask p →
          s.sched.status p = .atWarp ∧ s.sched.warpWait p = some wait) := by
  have released : ∀ {sched : Scheduler.State} {wait : WarpWait},
      Scheduler.Turned (s.geometry env)
        (Scheduler.rendezvousReleased (s.geometry env) me wait s.sched) sched →
      (wait.phase = .arrive → ∃ c, l = .publish (s.ctx env me) c) →
      (∀ p, Mate (s.geometry env) me wait.mask p →
        s.sched.status p = .atWarp ∧ s.sched.warpWait p = some wait) →
      sched.status i = s.sched.status i ∨ (sched.status i = .runnable ∧
        ∃ wait, Mate (s.geometry env) me wait.mask i ∧
          (wait.phase = .arrive → ∃ c, l = .publish (s.ctx env me) c) ∧
          ∀ p, Mate (s.geometry env) me wait.mask p →
            s.sched.status p = .atWarp ∧ s.sched.warpWait p = some wait) := by
    intro sched wait turned first everyone
    rw [turned.status]
    simp only [Scheduler.rendezvousReleased, Scheduler.setAll]
    split
    next member =>
      obtain ⟨block, warp, named⟩ := (s.geometry env).mem_members.mp member
      exact .inr ⟨rfl, wait, ⟨⟨block, warp⟩, named, away⟩, first, everyone⟩
    · exact .inl (Function.update_of_ne away ..)
  cases move with
  | finish pc op unwanted alone turned =>
    left
    rcases turned with turned | ⟨rfl, -⟩
    · rw [turn_sched, turned.status]
      exact Function.update_of_ne away ..
    · exact Function.update_of_ne away ..
  | arrive pc loc op alive waiting turned =>
    left
    rw [turn_sched, turned.status]
    exact Function.update_of_ne away ..
  | release pc loc op everyone turned =>
    rw [turn_sched, turned.status]
    simp only [Scheduler.barrierReleased, Scheduler.setAll, Geometry.mem_blockRange]
    split
    next mates => exact .inr (.inl ⟨rfl, everyone i mates away⟩)
    · exact .inl (Function.update_of_ne away ..)
  | yieldAccess pc m op turned => exact .inl (by rw [turn_sched, turned.status])
  | yieldCollective pc c op turned => exact .inl (by rw [turn_sched, turned.status])
  | publish c pc checked alive agree missing turned =>
    left
    rw [turn_sched, turned.status]
    exact Function.update_of_ne away ..
  | exchange c pc answer problems combined alive agree missing turned =>
    left
    rw [turn_sched, turned.status]
    exact Function.update_of_ne away ..
  | gather c pc checked agree everyone turned =>
    exact (released turned (fun _ => ⟨c, rfl⟩) everyone).imp_right .inr
  | disperse c pc answer problems combined agree everyone turned =>
    exact (released turned (fun arrives => by cases arrives) everyone).imp_right .inr
  | _ => exact .inl rfl

/-! ### A group that has been let go from its first rendezvous -/

/-- `p` has been let go from the first half of the collective `given p` and has not read the
slots yet; each of its mates is at the same point or parked in the second half. -/
structure Exchanging (env : Env V) (given : Nat → Collective V) (s : Launch V) (p : Nat) :
    Prop where
  pc : (s.threads p).pc = .arrived (given p)
  free : s.sched.status p = .runnable
  mates : ∀ q, Mate (s.geometry env) p (given p).mask q →
    ((s.threads q).pc = .arrived (given q) ∧ s.sched.status q = .runnable) ∨
      ∃ a, (s.threads q).pc = .departed (given q) a ∧ s.sched.status q = .atWarp

omit [BEq V] in
/-- When the last lane of a mask arrives all members are let go inside their calls, with masks,
places and operations that agree. -/
theorem released_of_gather {s : Launch V} {me p : Nat} {c : Collective V} {sched : Scheduler.State}
    (settled : ∀ i, Settled env s i)
    (everyone : ∀ p, Mate (s.geometry env) me c.mask p →
      s.sched.status p = .atWarp ∧ s.sched.warpWait p = some (c.wait .arrive))
    (turned : Scheduler.Turned (s.geometry env)
      (Scheduler.rendezvousReleased (s.geometry env) me (c.wait .arrive) s.sched) sched)
    (warp : (s.geometry env).SameWarp p me)
    (named : c.mask.names ((s.geometry env).laneOf p) = true) :
    ∃ own : Collective V, ((((s.slotted env (s.ctx env me) c).setPc me (.arrived c)).turn
        sched).threads p).pc = .arrived own ∧
      own.mask = c.mask ∧ own.loc = c.loc ∧ own.exchange.op = c.exchange.op ∧
      sched.status p = .runnable := by
  have woken : p ∈ (s.geometry env).members ((s.geometry env).blockOf me)
      ((s.geometry env).warpOf me) c.mask :=
    (s.geometry env).mem_members.mpr ⟨warp.1, warp.2, named⟩
  have running : sched.status p = .runnable := by
    rw [turned.status]
    exact if_pos woken
  by_cases mine : p = me
  · subst mine
    exact ⟨c, by simp, rfl, rfl, rfl, running⟩
  · obtain ⟨parked, waiting⟩ := everyone p ⟨warp, named, mine⟩
    obtain ⟨wait, waits, here⟩ := (settled p).waits_of_atWarp parked
    obtain rfl : wait = c.wait .arrive := Option.some.inj (here.symm.trans waiting)
    cases inside : (s.threads p).pc with
    | arrived own =>
      rw [inside] at waits
      have agreed : own.wait .arrive = c.wait .arrive := Option.some.inj waits
      obtain ⟨-, mask, loc, op⟩ := WarpWait.mk.inj agreed
      refine ⟨own, ?_, mask, loc, op, running⟩
      simp [slotted, setPc_of_ne _ _ mine, inside]
    | _ =>
      rw [inside] at waits
      cases waits

omit [BEq V] in
/-- The lanes of a mask find in their slots what they passed. -/
theorem slots_of_exchanging {given : Nat → Collective V} {s : Launch V} {p : Nat}
    (held : SlotsHeld env s) (together : Exchanging env given s p) (lane : Nat)
    (inside : lane < (s.geometry env).lanesIn ((s.geometry env).warpOf p))
    (named : (given p).mask.names lane = true) :
    s.slots (warpIndex env (s.ctx env p)) lane =
      some (given ((s.geometry env).warpBase ((s.geometry env).blockOf p)
        ((s.geometry env).warpOf p) + lane)).exchange.publishes := by
  obtain ⟨block, warp, here⟩ := (s.geometry env).of_warpBase_add ((s.geometry env).blockOf p) inside
  generalize (s.geometry env).warpBase ((s.geometry env).blockOf p)
    ((s.geometry env).warpOf p) + lane = q at *
  have slot : slotOf env s q = s.slots (warpIndex env (s.ctx env p)) lane := by
    have index : warpIndex env (s.ctx env q) = warpIndex env (s.ctx env p) := by
      rw [warpIndex_eq, warpIndex_eq, block, warp]
    rw [slotOf, index]
    exact congrArg _ here
  rw [← slot]
  by_cases own : q = p
  · rw [own]
    exact held p _ (by rw [together.pc]; rfl)
  · have mate : Mate (s.geometry env) p (given p).mask q := ⟨⟨block, warp⟩, by rw [here]; exact named, own⟩
    rcases together.mates q mate with ⟨pc, -⟩ | ⟨a, pc, -⟩
    · exact held q _ (by rw [pc]; rfl)
    · exact held q _ (by rw [pc]; rfl)

end Launch

end Riri
