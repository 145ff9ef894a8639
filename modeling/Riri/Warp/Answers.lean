import Riri.Source.Warp

/-!
# What a collective answers

The answer of each collective as a statement about the values its mask-mates passed, and the
proof that the exchange computes it whenever the member lanes' slots hold those values.
-/
namespace Riri

variable {V : Type}

/-- The lane whose value a shuffle asks for, if there is one. -/
def Exchange.ReadsFrom (warpSize lane : Nat) : Exchange V → Nat → Prop
  | .shfl srcLane _, src => src = srcLane % warpSize
  | .shflUp delta _, src => src + delta = lane
  | .shflDown delta _, src => src = lane + delta ∧ src < warpSize
  | .shflXor laneMask _, src => src = lane ^^^ laneMask ∧ src < warpSize
  | .vote _ _ _, _ | .syncWarp, _ => False

/-- The value a shuffle passes for its own lane. -/
def Exchange.own : Exchange V → Option V
  | .shfl _ v | .shflUp _ v | .shflDown _ v | .shflXor _ v => some v
  | .vote _ _ _ | .syncWarp => none

/-- A member lane voted yes. -/
def SaidYes (mask : Mask) (given : Nat → SlotValue V) (lane : Nat) : Prop :=
  mask.names lane = true ∧ given lane = .pred true

/-- What a shuffle answers: the source lane's value if the source is a member, the lane's own
value and a report if it is not, and the lane's own value if there is no source. -/
def ShuffleAnswers (warpSize lane : Nat) (mask : Mask) (x : Exchange V) (own : V)
    (given : Nat → SlotValue V) (answer : Resp V) (problems : List LaneProblem) : Prop :=
  (∃ src v, x.ReadsFrom warpSize lane src ∧ mask.names src = true ∧ given src = .value v ∧
    answer = .val v ∧ problems = []) ∨
  (∃ src, x.ReadsFrom warpSize lane src ∧ mask.names src = false ∧
    answer = .val own ∧ problems = [.sourceLaneNotInMask src]) ∨
  ((∀ src, ¬ x.ReadsFrom warpSize lane src) ∧ answer = .val own ∧ problems = [])

/-- What a vote answers. -/
def VoteAnswers (mask : Mask) (given : Nat → SlotValue V) : Vote → Resp V → Prop
  | .ballot, answer => ∃ ballot : Mask, answer = .lanes ballot ∧
      ∀ lane < 32, ballot.names lane = true ↔ SaidYes mask given lane
  | .any, answer => ∃ b, answer = .flag b ∧ (b = true ↔ ∃ lane < 32, SaidYes mask given lane)
  | .all, answer => ∃ b, answer = .flag b ∧
      (b = true ↔ ∀ lane < 32, mask.names lane = true → SaidYes mask given lane)

/-- The answer of a collective on one lane, from what the lanes of its mask passed. -/
def Exchange.Answers (warpSize lane : Nat) (mask : Mask) (given : Nat → SlotValue V)
    (answer : Resp V) (problems : List LaneProblem) (x : Exchange V) : Prop :=
  match x with
  | .shfl _ own | .shflUp _ own | .shflDown _ own | .shflXor _ own =>
      ShuffleAnswers warpSize lane mask x own given answer problems
  | .vote _ how _ => VoteAnswers mask given how answer ∧ problems = []
  | .syncWarp => answer = .unit ∧ problems = []

theorem Exchange.sourceLane_eq_some {warpSize lane src : Nat} {x : Exchange V} :
    x.sourceLane warpSize lane = some src ↔ x.ReadsFrom warpSize lane src := by
  cases x with
  | shfl srcLane v => simp [sourceLane, ReadsFrom, eq_comm]
  | shflUp delta v =>
    simp only [sourceLane, ReadsFrom]
    split
    · simp only [Option.some.injEq]
      omega
    · simp only [reduceCtorEq, false_iff]
      omega
  | shflDown delta v | shflXor laneMask v =>
    simp only [sourceLane, ReadsFrom, Option.filter_eq_some_iff, Option.some.injEq, decide_eq_true_eq]
    constructor <;> rintro ⟨rfl, inside⟩ <;> exact ⟨rfl, inside⟩
  | vote | syncWarp => simp [sourceLane, ReadsFrom]

/-- A shuffle reads a lane that exists. -/
theorem Exchange.lt_of_readsFrom {warpSize lane src : Nat} {x : Exchange V} (pos : 0 < warpSize)
    (inside : lane < warpSize) (reads : x.ReadsFrom warpSize lane src) : src < warpSize := by
  cases x with
  | shfl srcLane v =>
    rw [reads]
    exact Nat.mod_lt _ pos
  | shflUp delta v =>
    have here : src + delta = lane := reads
    omega
  | shflDown delta v | shflXor laneMask v => exact reads.2
  | vote | syncWarp => cases reads

/-! ### Collectives of one name pass values of one kind -/

theorem Exchange.publishes_of_own {x y : Exchange V} {v : V} (same : y.op = x.op)
    (own : x.own = some v) : ∃ w, y.publishes = .value w ∧ y.own = some w := by
  cases y with
  | vote shim how b =>
    cases x <;> cases shim <;> cases how <;> simp [op, Exchange.own] at same own
  | syncWarp => cases x <;> simp [op, Exchange.own] at same own
  | _ => exact ⟨_, rfl, rfl⟩

theorem Exchange.publishes_of_vote {y : Exchange V} {shim b : Bool} {how : Vote}
    (same : y.op = (Exchange.vote shim how b : Exchange V).op) : ∃ b', y.publishes = .pred b' := by
  cases y with
  | vote _ _ b' => exact ⟨b', rfl⟩
  | _ => cases shim <;> cases how <;> simp [op] at same

/-! ### Ballots -/

theorem Mask.names_or (a b : Mask) {lane : Nat} (h : lane < 32) :
    (a ||| b).names lane = (a.names lane || b.names lane) := by
  rw [Mask.names_iff _ h, Mask.names_iff _ h, Mask.names_iff _ h, BitVec.getLsbD_or]

theorem Mask.names_lane {l lane : Nat} (hl : l < 32) (h : lane < 32) :
    Mask.names (1#32 <<< l) lane = decide (lane = l) := by
  have bit : Mask.names (1#32 <<< l) lane = (BitVec.twoPow 32 l).getLsbD lane :=
    Mask.names_iff _ h
  rw [bit, BitVec.getLsbD_twoPow]
  simp [hl, eq_comm]

/-- The scan collects exactly the member lanes that said yes. -/
theorem ballotFrom_ok (op : WarpOp) {mask : Mask} {slots : Slots V} {given : Nat → SlotValue V}
    (held : ∀ lane < 32, mask.names lane = true → slots lane = some (given lane))
    (votes : ∀ lane < 32, mask.names lane = true → ∃ b, given lane = .pred b)
    (lanes : List Nat) (inside : ∀ lane ∈ lanes, lane < 32) (acc : Mask) :
    ∃ ballot, ballotFrom op mask slots lanes acc = .ok ballot ∧
      ∀ lane < 32, ballot.names lane = true ↔
        acc.names lane = true ∨ (lane ∈ lanes ∧ SaidYes mask given lane) := by
  induction lanes generalizing acc with
  | nil => exact ⟨acc, rfl, fun lane _ => by simp⟩
  | cons l rest ih =>
    have hl := inside l List.mem_cons_self
    have rest_inside : ∀ lane ∈ rest, lane < 32 := fun lane h => inside lane (List.mem_cons_of_mem _ h)
    by_cases member : mask.names l = true
    · obtain ⟨b, vote⟩ := votes l hl member
      obtain ⟨ballot, scanned, names⟩ := ih rest_inside (if b then acc ||| (1#32 <<< l) else acc)
      refine ⟨ballot, ?_, fun lane h => ?_⟩
      · simp [ballotFrom, member, lanesGetBool, held l hl member, vote, scanned]
      · rw [names lane h]
        cases b with
        | false =>
          have silent : ¬ SaidYes mask given l := by simp [SaidYes, vote]
          simp only [Bool.false_eq_true, if_false, List.mem_cons]
          constructor
          · rintro (old | ⟨later, yes⟩)
            · exact .inl old
            · exact .inr ⟨.inr later, yes⟩
          · rintro (old | ⟨rfl | later, yes⟩)
            · exact .inl old
            · exact absurd yes silent
            · exact .inr ⟨later, yes⟩
        | true =>
          have yes : SaidYes mask given l := ⟨member, vote⟩
          simp only [if_true, Mask.names_or _ _ h, Mask.names_lane hl h, Bool.or_eq_true,
            decide_eq_true_eq, List.mem_cons]
          constructor
          · rintro ((old | rfl) | ⟨later, said⟩)
            · exact .inl old
            · exact .inr ⟨.inl rfl, yes⟩
            · exact .inr ⟨.inr later, said⟩
          · rintro (old | ⟨rfl | later, said⟩)
            · exact .inl (.inl old)
            · exact .inl (.inr rfl)
            · exact .inr ⟨later, said⟩
    · obtain ⟨ballot, scanned, names⟩ := ih rest_inside acc
      refine ⟨ballot, by simp [ballotFrom, member, scanned], fun lane h => ?_⟩
      rw [names lane h, List.mem_cons]
      constructor
      · rintro (old | ⟨later, yes⟩)
        · exact .inl old
        · exact .inr ⟨.inr later, yes⟩
      · rintro (old | ⟨rfl | later, yes⟩)
        · exact .inl old
        · exact absurd yes.1 member
        · exact .inr ⟨later, yes⟩

theorem Vote.reduce_answers {mask ballot : Mask} {given : Nat → SlotValue V} (how : Vote)
    (names : ∀ lane < 32, ballot.names lane = true ↔ SaidYes mask given lane) :
    VoteAnswers mask given how (how.reduce mask ballot) := by
  have zero : ∀ lane < 32, Mask.names 0#32 lane = false := fun lane h => by
    rw [Mask.names_iff _ h]
    simp
  cases how with
  | ballot => exact ⟨ballot, rfl, names⟩
  | any =>
    refine ⟨_, rfl, ?_⟩
    simp only [bne_iff_ne, ne_eq]
    constructor
    · intro nonzero
      by_contra nobody
      push Not at nobody
      refine nonzero (Mask.ext_names fun lane h => ?_)
      rw [zero lane h, Bool.eq_false_iff]
      exact fun here => nobody lane h ((names lane h).mp here)
    · rintro ⟨lane, h, yes⟩ empty
      have here := (names lane h).mpr yes
      rw [empty, zero lane h] at here
      cases here
  | all =>
    refine ⟨_, rfl, ?_⟩
    simp only [beq_iff_eq]
    constructor
    · rintro rfl lane h member
      exact (names lane h).mp member
    · intro everyone
      refine Mask.ext_names fun lane h => Bool.eq_iff_iff.mpr ?_
      rw [names lane h]
      exact ⟨fun yes => yes.1, everyone lane h⟩

/-! ### The exchange -/

/-- A shuffle that finds its members' values in the slots answers as it should. -/
theorem shuffle_answers {typeTag : V → Nat} {op : WarpOp} {mask : Mask} {slots : Slots V} {own : V}
    {warpSize lane : Nat} {x : Exchange V} {given : Nat → SlotValue V}
    (held : ∀ src, x.ReadsFrom warpSize lane src → mask.names src = true →
      ∃ v, slots src = some (given src) ∧ given src = .value v ∧ typeTag v = typeTag own) :
    ∃ answer problems,
      shuffle typeTag op mask slots own (x.sourceLane warpSize lane) = .ok (answer, problems) ∧
        ShuffleAnswers warpSize lane mask x own given answer problems := by
  cases source : x.sourceLane warpSize lane with
  | none =>
    refine ⟨_, _, rfl, .inr (.inr ⟨fun src reads => ?_, rfl, rfl⟩)⟩
    rw [Exchange.sourceLane_eq_some.mpr reads] at source
    cases source
  | some src =>
    have reads := Exchange.sourceLane_eq_some.mp source
    cases member : mask.names src with
    | false =>
      exact ⟨_, _, by simp [shuffle, member], .inr (.inl ⟨src, reads, member, rfl, rfl⟩)⟩
    | true =>
      obtain ⟨v, slot, value, typed⟩ := held src reads member
      refine ⟨.val v, [], ?_, .inl ⟨src, v, reads, member, value, rfl, rfl⟩⟩
      simp [shuffle, member, lanesGet, slot, value, typed]

/-- With every member's value in its slot, and those of one type, the exchange answers as it
should and never panics. -/
theorem Collective.combine_answers {typeTag : V → Nat} {warpSize lane : Nat} {c : Collective V}
    {slots : Slots V} {given : Nat → Exchange V} (pos : 0 < warpSize) (fits : warpSize ≤ 32)
    (inside : lane < warpSize)
    (held : ∀ l < 32, c.mask.names l = true → slots l = some (given l).publishes)
    (ops : ∀ l < 32, c.mask.names l = true → (given l).op = c.exchange.op)
    (types : ∀ l < 32, c.mask.names l = true → ∀ v w, (given l).own = some v →
      c.exchange.own = some w → typeTag v = typeTag w) :
    ∃ answer problems, c.combine typeTag warpSize lane slots = .ok (answer, problems) ∧
      c.exchange.Answers warpSize lane c.mask (fun l => (given l).publishes) answer problems := by
  have values : ∀ own, c.exchange.own = some own → ∀ src,
      c.exchange.ReadsFrom warpSize lane src → c.mask.names src = true →
      ∃ v, slots src = some (given src).publishes ∧ (given src).publishes = .value v ∧
        typeTag v = typeTag own := by
    intro own passes src reads member
    have small : src < 32 := (Exchange.lt_of_readsFrom pos inside reads).trans_le fits
    obtain ⟨v, publishes, theirs⟩ := Exchange.publishes_of_own (ops src small member) passes
    exact ⟨v, held src small member, publishes, types src small member v own theirs passes⟩
  obtain ⟨mask, loc, x⟩ := c
  cases x with
  | shfl _ v | shflUp _ v | shflDown _ v | shflXor _ v => exact shuffle_answers (values v rfl)
  | vote shim how b =>
    have votes : ∀ l < 32, mask.names l = true → ∃ b, (given l).publishes = .pred b :=
      fun l h member => Exchange.publishes_of_vote (ops l h member)
    obtain ⟨ballot, scanned, names⟩ := ballotFrom_ok (Exchange.vote shim how b : Exchange V).op
      held votes (List.range 32) (fun l h => List.mem_range.mp h) 0#32
    refine ⟨how.reduce mask ballot, [], by simp only [combine, scanned],
      Vote.reduce_answers how fun l h => ?_, rfl⟩
    rw [names l h, Mask.names_iff _ h]
    simp [h]
  | syncWarp => exact ⟨.unit, [], rfl, rfl, rfl⟩

end Riri
