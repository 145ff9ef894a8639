import Riri.Run.Epochs
import Riri.Run.Programs

/-!
# Epoch stamps mean what the concurrency rule assumes

Two accesses of one block carry different barrier epochs exactly when a full release of that
block's barrier lies between them, and two accesses of one warp and epoch carry different
warp epochs exactly when a full-mask collective of that warp was released in between.
-/
namespace Riri

/-- The access a label made, whether or not the operation then completed. -/
def Label.made? {V : Type} : Label V → Option (Ctx × Access)
  | .access cx _ acc _ _ | .fault cx _ acc _ => some (cx, acc)
  | _ => none

namespace Launch

variable {V : Type} [BEq V] {env : Env V}

/-- At time `k` the last thread of `block` arrives at its barrier, all its block-mates being
parked there. -/
def BarrierReleased (env : Env V) (k block gen : Nat) : Prop :=
  ∃ cx, (run env).label k = some (.arrive cx gen) ∧ cx.block = block ∧
    LastToArrive env ((run env).state k) cx.slot

/-- At time `k` the last lane of a warp leaves a collective whose mask is the warp's valid
mask, every other existing lane being parked in its departure. -/
def WarpReleased (env : Env V) (k block warp : Nat) : Prop :=
  ∃ cx c a, (run env).label k = some (.exchange cx c a) ∧ cx.block = block ∧ cx.warp = warp ∧
    LastToDepart env ((run env).state k) cx.slot c

def stamps (env : Env V) (n waveBlock warp : Nat) : Nat × Nat :=
  Scheduler.epochs (((run env).state n).geometry env) ((run env).state n).sched waveBlock warp

/-- An access is made past its schedule point and stamped with the current generations. -/
theorem Resumed.made {s s' : Launch V} {slot : Nat} {l : Label V} {cx : Ctx} {acc : Access}
    (resumed : Resumed env s slot l s') (made : l.made? = some (cx, acc)) :
    (∃ m, (s.threads slot).pc = .atAccess m) ∧ cx = s.ctx env slot ∧
      acc.block = cx.block ∧ acc.thread = cx.thread ∧ acc.warp = cx.warp ∧
      (acc.epoch, acc.warpEpoch) = Scheduler.epochs (s.geometry env) s.sched
        ((s.geometry env).blockOf slot) ((s.geometry env).warpOf slot) := by
  cases resumed with
  | access m pc _ _ _ _ | overflow m pc _ _ _ | miss m pc _ _ _ | outOfBounds m pc _ =>
    obtain ⟨rfl, rfl⟩ := Prod.mk.inj (Option.some.inj made)
    exact ⟨⟨m, pc⟩, rfl, rfl, rfl, rfl, rfl⟩
  | _ => cases made

theorem Label.ctx?_of_made {V : Type} {l : Label V} {cx : Ctx} {acc : Access}
    (made : l.made? = some (cx, acc)) : l.ctx? = some cx := by
  cases l <;> cases made <;> rfl

/-- The state an access is made in. -/
theorem access_at {n : Nat} {l : Label V} {cx : Ctx} {acc : Access}
    (labelled : (run env).label n = some l) (made : l.made? = some (cx, acc)) :
    ∃ slot, cx = ((run env).state n).ctx env slot ∧
      (∃ m, (((run env).state n).threads slot).pc = .atAccess m) ∧
      acc.block = cx.block ∧ acc.thread = cx.thread ∧ acc.warp = cx.warp ∧
      (acc.epoch, acc.warpEpoch) = stamps env n
        ((((run env).state n).geometry env).blockOf slot)
        ((((run env).state n).geometry env).warpOf slot) := by
  obtain ⟨slot, -, rfl, -, -, resumed⟩ := label_slot labelled (Label.ctx?_of_made made)
  obtain ⟨past, -, rest⟩ := resumed.made made
  exact ⟨slot, rfl, past, rest⟩

/-- What a full release at time `k` does, when the launch goes on. -/
theorem released_at {k gen : Nat} {cz : Ctx} (live : Live ((run env).state (k + 1)))
    (arrives : (run env).label k = some (.arrive cz gen))
    (last : LastToArrive env ((run env).state k) cz.slot) :
    ∃ slot, cz = ((run env).state k).ctx env slot ∧
      ((run env).state k).sched.barrierGen
        ((((run env).state k).geometry env).blockOf slot) = gen ∧
      ((run env).state (k + 1)).sched.barrierGen
        ((((run env).state k).geometry env).blockOf slot) = gen + 1 := by
  obtain ⟨slot, current, rfl, -, -, -⟩ := label_slot arrives rfl
  obtain ⟨wf, ⟨idle, -⟩ | ⟨wave, -⟩ | ⟨slot', l, labelled, current', move⟩⟩ := live_step live
  · rw [arrives] at idle
    cases idle
  · rw [arrives] at wave
    cases wave
  · obtain rfl : slot = slot' := Option.some.inj (current.symm.trans current')
    obtain rfl : _ = l := Option.some.inj (arrives.symm.trans labelled)
    obtain ⟨gen_eq, bumped, -⟩ := move.released wf rfl last
    exact ⟨slot, rfl, gen_eq.symm, bumped⟩

/-- The same for a full-mask collective. -/
theorem warpReleased_at {k : Nat} {cz : Ctx} {c : Collective V} {a : Resp V}
    (live : Live ((run env).state (k + 1)))
    (leaves : (run env).label k = some (.exchange cz c a))
    (last : LastToDepart env ((run env).state k) cz.slot c) :
    ∃ slot index, cz = ((run env).state k).ctx env slot ∧
      index = (((run env).state k).geometry env).warpGenIndex
        ((((run env).state k).geometry env).blockOf slot)
        ((((run env).state k).geometry env).warpOf slot) ∧
      ((run env).state (k + 1)).sched.warpGen index =
        ((run env).state k).sched.warpGen index + 1 := by
  obtain ⟨slot, current, rfl, -, -, -⟩ := label_slot leaves rfl
  obtain ⟨-, ⟨idle, -⟩ | ⟨wave, -⟩ | ⟨slot', l, labelled, current', move⟩⟩ := live_step live
  · rw [leaves] at idle
    cases idle
  · rw [leaves] at wave
    cases wave
  · obtain rfl : slot = slot' := Option.some.inj (current.symm.trans current')
    obtain rfl : _ = l := Option.some.inj (leaves.symm.trans labelled)
    exact ⟨slot, _, rfl, rfl, move.warpReleased rfl last⟩

/-- Two accesses of one block, `x` at time `i` by the thread in slot `sx` and `y` at time `j`
by the one in `sy`, in terms of the generations. -/
structure Stamped (env : Env V) (i j sx sy : Nat) (x y : Access) : Prop where
  wave : ((run env).state j).firstBlock = ((run env).state i).firstBlock
  mates : (((run env).state i).geometry env).blockOf sx =
    (((run env).state i).geometry env).blockOf sy
  block : x.block = ((run env).state i).firstBlock + (((run env).state i).geometry env).blockOf sx
  warps : x.warp = (((run env).state i).geometry env).warpOf sx ∧
    y.warp = (((run env).state i).geometry env).warpOf sy
  outside : ∀ gen, (((run env).state i).threads sx).pc ≠ .atBarrier gen ∧
    (((run env).state j).threads sy).pc ≠ .atBarrier gen
  first : (x.epoch, x.warpEpoch) = stamps env i
    ((((run env).state i).geometry env).blockOf sx) ((((run env).state i).geometry env).warpOf sx)
  second : (y.epoch, y.warpEpoch) = stamps env j
    ((((run env).state i).geometry env).blockOf sx) ((((run env).state i).geometry env).warpOf sy)

section

variable {i j : Nat} {lx ly : Label V} {cx cy : Ctx} {x y : Access} (lt : i < j)
  (hx : (run env).label i = some lx) (mx : lx.made? = some (cx, x))
  (hy : (run env).label j = some ly) (my : ly.made? = some (cy, y)) (block : x.block = y.block)
include lt hx mx hy my block

theorem stamped_of_made : ∃ sx sy, cx = ((run env).state i).ctx env sx ∧
    cy = ((run env).state j).ctx env sy ∧ Stamped env i j sx sy x y := by
  obtain ⟨sx, rfl, ⟨mx', atx⟩, bx, -, wx, stampx⟩ := access_at hx mx
  obtain ⟨sy, rfl, ⟨my', aty⟩, by_, -, wy, stampy⟩ := access_at hy my
  have blocks : (((run env).state i).ctx env sx).block = (((run env).state j).ctx env sy).block :=
    bx.symm.trans (block.trans by_)
  have wave := sameWave lt.le hx (Label.ctx?_of_made mx) hy (Label.ctx?_of_made my) blocks
  have mates := mates_of_block sx sy wave blocks
  have same_geometry : ((run env).state j).geometry env = ((run env).state i).geometry env := by
    simp only [geometry, wave]
  rw [same_geometry, ← mates] at stampy
  exact ⟨sx, sy, rfl, rfl, wave, mates, bx, ⟨wx, wy⟩, fun gen => by simp [atx, aty], stampx, stampy⟩

end

section

variable {i j sx sy k : Nat} {x y : Access} (stamped : Stamped env i j sx sy x y)
  (live : Live ((run env).state j)) (low : i ≤ k) (high : k ≤ j)
include stamped live low high

theorem Stamped.wave_at : ((run env).state k).firstBlock = ((run env).state i).firstBlock :=
  sameWave_between low high live stamped.wave

theorem Stamped.geometry_at :
    ((run env).state k).geometry env = ((run env).state i).geometry env := by
  simp only [geometry, stamped.wave_at live low high]

/-- Generations of a block along the stretch. -/
theorem Stamped.epoch_le (block : Nat) :
    ((run env).state i).sched.barrierGen block ≤ ((run env).state k).sched.barrierGen block ∧
      ((run env).state k).sched.barrierGen block ≤ ((run env).state j).sched.barrierGen block :=
  ⟨barrierGen_mono low (live_of_le high live) (stamped.wave_at live low high) block,
    barrierGen_mono high live (stamped.wave.trans (stamped.wave_at live low high).symm) block⟩

theorem Stamped.warpEpoch_le (index : Nat) :
    ((run env).state i).sched.warpGen index ≤ ((run env).state k).sched.warpGen index ∧
      ((run env).state k).sched.warpGen index ≤ ((run env).state j).sched.warpGen index :=
  ⟨warpGen_mono low (live_of_le high live) (stamped.wave_at live low high) index,
    warpGen_mono high live (stamped.wave.trans (stamped.wave_at live low high).symm) index⟩

end

section

variable {i j sx sy : Nat} {x y : Access} (stamped : Stamped env i j sx sy x y) (le : i ≤ j)
  (live : Live ((run env).state j))
include stamped le live

/-- A generation that moved was moved by a full release, with `x`'s thread arriving before it
and `y`'s thread leaving after it. -/
theorem Stamped.released (differ : x.epoch ≠ y.epoch) :
    ∃ k gen a d, i ≤ a ∧ a ≤ k ∧ k < d ∧ d < j ∧ BarrierReleased env k x.block gen ∧
      (run env).label a = some (.arrive (((run env).state i).ctx env sx) gen) ∧
      (run env).label d = some (.depart (((run env).state j).ctx env sy) gen) := by
  have epochx := (Prod.mk.inj stamped.first).1
  have epochy := (Prod.mk.inj stamped.second).1
  obtain ⟨k, slot, l, low, high, before, after, here, labelled, move⟩ :=
    exists_move le live stamped.wave (P := fun s => s.sched.barrierGen
      ((((run env).state i).geometry env).blockOf sx) = x.epoch) epochx.symm
      (fun same => differ (same.symm.trans epochy.symm))
  have wf := wellFormed (live_of_le high.le live)
  rcases move.barrierGen with stays | ⟨last, rfl, bumped⟩
  · rw [stays] at after
    exact absurd before after
  have here_block : (((run env).state k).geometry env).blockOf slot =
      (((run env).state i).geometry env).blockOf sx := by
    by_contra other
    rw [bumped, Function.update_of_ne (Ne.symm other)] at after
    exact after before
  obtain ⟨-, -, inside⟩ := move.released wf rfl last
  rw [here_block, stamped.geometry_at live low high.le] at inside
  rw [here_block] at labelled
  have wave_next := stamped.wave_at live (Nat.le_succ_of_le low) high
  obtain ⟨a, ia, ak, arrives, -⟩ := exists_arrive (Nat.le_succ_of_le low)
    (live_of_le high live) wave_next (stamped.outside _).1 (inside sx rfl)
  obtain ⟨d, kd, dj, departs⟩ := exists_depart high live (stamped.wave.trans wave_next.symm)
    (inside sy stamped.mates.symm) (stamped.outside _).2
  refine ⟨k, _, a, d, ia, Nat.le_of_lt_succ ak, kd, dj, ⟨_, labelled, ?_, last⟩, arrives, ?_⟩
  · rw [stamped.block, ← here, ← here_block]
    rfl
  · rw [departs]
    simp only [ctx, wave_next, stamped.wave]

omit le in
/-- A full release in between moves the generation. -/
theorem Stamped.epoch_ne {k gen : Nat} (low : i ≤ k) (high : k < j)
    (released : BarrierReleased env k x.block gen) : x.epoch ≠ y.epoch := by
  obtain ⟨cz, arrives, blockz, last⟩ := released
  obtain ⟨slot, rfl, gen_eq, bumped⟩ := released_at (live_of_le high live) arrives last
  have here_block := mates_of_block sx slot (stamped.wave_at live low high.le)
    (stamped.block.symm.trans blockz.symm)
  rw [stamped.geometry_at live low high.le, ← here_block] at gen_eq bumped
  have before := (stamped.epoch_le live low high.le
    ((((run env).state i).geometry env).blockOf sx)).1
  have after := (stamped.epoch_le live (Nat.le_succ_of_le low) high
    ((((run env).state i).geometry env).blockOf sx)).2
  have epochx : x.epoch = _ := (Prod.mk.inj stamped.first).1
  have epochy : y.epoch = _ := (Prod.mk.inj stamped.second).1
  simp only [bumped, gen_eq] at before after
  rw [epochx, epochy]
  omega

/-- A warp generation that moved was moved by a full-mask collective. -/
theorem Stamped.warpReleased (warp : x.warp = y.warp) (differ : x.warpEpoch ≠ y.warpEpoch) :
    ∃ k, i ≤ k ∧ k < j ∧ WarpReleased env k x.block x.warp := by
  have same_warp : (((run env).state i).geometry env).warpOf sy =
      (((run env).state i).geometry env).warpOf sx := by
    rw [← stamped.warps.1, ← stamped.warps.2, warp]
  have epochx := (Prod.mk.inj stamped.first).2
  have epochy := (Prod.mk.inj stamped.second).2
  rw [same_warp] at epochy
  obtain ⟨k, slot, l, low, high, before, after, here, labelled, move⟩ :=
    exists_move le live stamped.wave (P := fun s => s.sched.warpGen
      ((((run env).state i).geometry env).warpGenIndex
        ((((run env).state i).geometry env).blockOf sx)
        ((((run env).state i).geometry env).warpOf sx)) = x.warpEpoch) epochx.symm
      (fun same => differ (same.symm.trans (by
        rw [epochy, ← stamped.geometry_at live le le_rfl])))
  rcases move.warpGen with stays | ⟨c, a, last, rfl, bumped⟩
  · rw [stays] at after
    exact absurd before after
  have here_warp : (((run env).state i).geometry env).SameWarp sx slot := by
    apply (((run env).state i).geometry env).sameWarp_of_warpGenIndex
    by_contra other
    rw [stamped.geometry_at live low high.le] at bumped
    rw [bumped, Function.update_of_ne other] at after
    exact after before
  refine ⟨k, low, high, _, c, a, labelled, ?_, ?_, last⟩
  · rw [stamped.block, ← here, here_warp.1]
    simp only [ctx, geometry, Geometry.blockOf, here]
    rfl
  · rw [stamped.warps.1, here_warp.2]
    rfl

/-- A full-mask collective in between moves the warp generation. -/
theorem Stamped.warpEpoch_ne (warp : x.warp = y.warp) {k : Nat} (low : i ≤ k) (high : k < j)
    (released : WarpReleased env k x.block x.warp) : x.warpEpoch ≠ y.warpEpoch := by
  obtain ⟨cz, c, a, leaves, blockz, warpz, last⟩ := released
  obtain ⟨slot, index, rfl, hindex, bumped⟩ := warpReleased_at (live_of_le high live) leaves last
  have here_block := mates_of_block sx slot (stamped.wave_at live low high.le)
    (stamped.block.symm.trans blockz.symm)
  have here_warp : (((run env).state i).geometry env).warpOf slot =
      (((run env).state i).geometry env).warpOf sx := warpz.trans stamped.warps.1
  rw [stamped.geometry_at live low high.le, ← here_block, here_warp] at hindex
  have before := (stamped.warpEpoch_le live low high.le index).1
  have after := (stamped.warpEpoch_le (k := k + 1) live (Nat.le_succ_of_le low) high index).2
  have epochx : x.warpEpoch = ((run env).state i).sched.warpGen index := by
    rw [hindex]
    exact (Prod.mk.inj stamped.first).2
  have epochy : y.warpEpoch = ((run env).state j).sched.warpGen index := by
    rw [hindex, ← stamped.warps.1, warp, stamped.warps.2,
      ← stamped.geometry_at live le le_rfl]
    exact (Prod.mk.inj stamped.second).2
  rw [epochx, epochy]
  omega

end

/-- The scheduler after a collective's step is what a rendezvous at its mask left. -/
theorem Resumed.collective {s s' : Launch V} {slot : Nat} {l : Label V} {cz : Ctx}
    {c : Collective V} (resumed : Resumed env s slot l s')
    (which : l = .publish cz c ∨ ∃ a, l = .exchange cz c a) :
    s'.firstBlock = s.firstBlock ∧ ∃ wait : WarpWait, wait.mask = c.mask ∧
      s'.sched = (Scheduler.warpRendezvous (s.geometry env) slot wait s.sched).1 := by
  cases resumed with
  | publish c' pc checked =>
    obtain ⟨-, rfl⟩ : s.ctx env slot = cz ∧ c' = c := by simpa using which
    exact ⟨rfl, _, rfl, rfl⟩
  | exchange c' pc answer problems combined =>
    obtain ⟨-, rfl⟩ : s.ctx env slot = cz ∧ c' = c := by simpa using which
    exact ⟨rfl, _, rfl, rfl⟩
  | _ => simp at which

/-- The scheduler after an arrival is what the barrier left. -/
theorem Resumed.arrive_sched {s s' : Launch V} {slot gen : Nat} {cz : Ctx}
    (resumed : Resumed env s slot (.arrive cz gen) s') :
    s'.firstBlock = s.firstBlock ∧ ∃ loc,
      s'.sched = (Scheduler.barrier (s.geometry env) slot loc s.sched).1 := by
  cases resumed with
  | arrive pc loc op => exact ⟨rfl, loc, rfl⟩

/-- A collective with a partial mask or of another warp leaves the stamps of `slot` alone. -/
theorem stamps_of_collective {n slot : Nat} {l : Label V} {cz : Ctx} {c : Collective V}
    (labelled : (run env).label n = some l)
    (which : l = .publish cz c ∨ ∃ a, l = .exchange cz c a)
    (apart : c.mask ≠ (((run env).state n).geometry env).validMask cz.warp ∨
      ¬ (((run env).state n).geometry env).SameWarp slot cz.slot) :
    stamps env (n + 1) ((((run env).state n).geometry env).blockOf slot)
        ((((run env).state n).geometry env).warpOf slot) =
      stamps env n ((((run env).state n).geometry env).blockOf slot)
        ((((run env).state n).geometry env).warpOf slot) := by
  have thread : l.ctx? = some cz := by
    rcases which with rfl | ⟨_, rfl⟩ <;> rfl
  obtain ⟨me, -, rfl, -, -, resumed⟩ := label_slot labelled thread
  obtain ⟨wave, wait, mask, sched⟩ := resumed.collective which
  have gens := Scheduler.warpRendezvous_gens (((run env).state n).geometry env) me wait
    ((run env).state n).sched
  have same_geometry : ((run env).state (n + 1)).geometry env =
      ((run env).state n).geometry env := by simp only [geometry, wave]
  simp only [stamps, Scheduler.epochs, same_geometry]
  rw [sched, gens.1, gens.2]
  rcases apart with partial_ | elsewhere
  · exact .inr (by rw [mask]; exact partial_)
  · exact .inl fun same => elsewhere
      ((((run env).state n).geometry env).sameWarp_of_warpGenIndex same)

/-- A barrier of another block leaves the stamps of `slot` alone. -/
theorem stamps_of_arrive {n slot gen : Nat} {cz : Ctx}
    (labelled : (run env).label n = some (.arrive cz gen))
    (elsewhere : (((run env).state n).geometry env).blockOf slot ≠ cz.waveBlock) :
    stamps env (n + 1) ((((run env).state n).geometry env).blockOf slot)
        ((((run env).state n).geometry env).warpOf slot) =
      stamps env n ((((run env).state n).geometry env).blockOf slot)
        ((((run env).state n).geometry env).warpOf slot) := by
  obtain ⟨me, -, rfl, -, -, resumed⟩ := label_slot labelled rfl
  obtain ⟨wave, loc, sched⟩ := resumed.arrive_sched
  have gens := Scheduler.barrier_gens (((run env).state n).geometry env) me loc
    ((run env).state n).sched
  have same_geometry : ((run env).state (n + 1)).geometry env =
      ((run env).state n).geometry env := by simp only [geometry, wave]
  simp only [stamps, Scheduler.epochs, same_geometry]
  rw [sched, gens.1, gens.2 _ elsewhere]

/-- Stamps mean what the concurrency rule assumes. Two accesses of one block have different
epochs exactly when a full release of its barrier lies between, after the first one's thread
arrived there and before the second one's thread left; two accesses of one warp in one epoch
have different warp epochs exactly when a full-mask collective was released with every
existing lane in its departure. Partial masks, other warps and other blocks move nothing. -/
theorem stamps_exact (env : Env V) :
    (∀ i j lx ly cx cy x y, i < j →
      (run env).label i = some lx → lx.made? = some (cx, x) →
      (run env).label j = some ly → ly.made? = some (cy, y) →
      x.block = y.block → x.thread ≠ y.thread →
      (x.epoch ≠ y.epoch ↔ ∃ k gen a d, i < a ∧ a ≤ k ∧ k < d ∧ d < j ∧
        BarrierReleased env k x.block gen ∧ (run env).label a = some (.arrive cx gen) ∧
        (run env).label d = some (.depart cy gen)) ∧
      (x.warp = y.warp → x.epoch = y.epoch →
        (x.warpEpoch ≠ y.warpEpoch ↔ ∃ k, i < k ∧ k < j ∧ WarpReleased env k x.block x.warp))) ∧
    (∀ n slot l cz, (run env).label n = some l →
      (∃ c, (l = .publish cz c ∨ ∃ a, l = .exchange cz c a) ∧
          (c.mask ≠ (((run env).state n).geometry env).validMask cz.warp ∨
            ¬ (((run env).state n).geometry env).SameWarp slot cz.slot)) ∨
        (∃ gen, l = .arrive cz gen ∧
          (((run env).state n).geometry env).blockOf slot ≠ cz.waveBlock) →
      stamps env (n + 1) ((((run env).state n).geometry env).blockOf slot)
          ((((run env).state n).geometry env).warpOf slot) =
        stamps env n ((((run env).state n).geometry env).blockOf slot)
          ((((run env).state n).geometry env).warpOf slot)) := by
  refine ⟨fun i j lx ly cx cy x y lt hx mx hy my block _ => ?_,
    fun n slot l cz labelled apart => ?_⟩
  · have live := live_of_label hy
    obtain ⟨sx, sy, rfl, rfl, stamped⟩ := stamped_of_made lt hx mx hy my block
    -- The step at `i` is the access itself, so whatever lies between comes after it.
    have after_x : ∀ k l, (run env).label k = some l → l.made? = none → i ≤ k → i < k := by
      intro k l labelled unmade low
      refine lt_of_le_of_ne low fun same => ?_
      subst same
      obtain rfl : lx = l := Option.some.inj (hx.symm.trans labelled)
      rw [unmade] at mx
      cases mx
    refine ⟨⟨fun differ => ?_, ?_⟩, fun warp _ => ⟨fun differ => ?_, ?_⟩⟩
    · obtain ⟨k, gen, a, d, ia, ak, kd, dj, released, arrives, departs⟩ :=
        stamped.released lt.le live differ
      exact ⟨k, gen, a, d, after_x a _ arrives rfl ia, ak, kd, dj, released, arrives, departs⟩
    · rintro ⟨k, gen, a, d, ia, ak, kd, dj, released, -, -⟩
      exact stamped.epoch_ne live (by omega) (by omega) released
    · obtain ⟨k, low, high, released⟩ := stamped.warpReleased lt.le live warp differ
      obtain ⟨cz, c, a, leaves, rest⟩ := released
      exact ⟨k, after_x k _ leaves rfl low, high, cz, c, a, leaves, rest⟩
    · rintro ⟨k, low, high, released⟩
      exact stamped.warpEpoch_ne lt.le live warp low.le high released
  · rcases apart with ⟨c, which, apart⟩ | ⟨gen, rfl, elsewhere⟩
    · exact stamps_of_collective labelled which apart
    · exact stamps_of_arrive labelled elsewhere

def phased : Env Nat :=
  trial .twoThreads
    (fun thread =>
      let sync : Op Nat := .syncThreads ⟨"kernel.rs", 2, 1⟩
      let read : Op Nat := .mem ⟨.global 0, 0, ⟨"kernel.rs", 1, 1⟩, .read⟩
      if thread = 0 then [read, sync] else [sync, read])
    [0, 0, 1, 1, 1]

theorem stamps_exact_phased : ∃ k gen, 1 < k ∧ k < 6 ∧ BarrierReleased phased k 0 gen := by
  have reads : ((run phased).label 1).bind Label.made? =
        some (((run phased).state 1).ctx phased 0, ⟨0, 0, 0, 0, 0, 1, .read, ⟨"kernel.rs", 1, 1⟩⟩) ∧
      ((run phased).label 6).bind Label.made? =
        some (((run phased).state 6).ctx phased 1, ⟨0, 1, 1, 0, 0, 1, .read, ⟨"kernel.rs", 1, 1⟩⟩) := by
    set_option maxRecDepth 100000 in decide +kernel
  obtain ⟨lx, hx, mx⟩ := Option.bind_eq_some_iff.mp reads.1
  obtain ⟨ly, hy, my⟩ := Option.bind_eq_some_iff.mp reads.2
  obtain ⟨k, gen, a, d, ia, ak, kd, dj, released, -⟩ :=
    ((stamps_exact phased).1 1 6 lx ly _ _ _ _ (by decide) hx mx hy my rfl (by decide)).1.mp (by decide)
  exact ⟨k, gen, by omega, by omega, released⟩

end Launch

end Riri
