import Riri.Mir.Values
import Mathlib.Order.Compare
import Mathlib.Data.Int.Order.Basic

/-!
# The other scalar operators of the interpreter

Division, remainder, shifts, comparisons, complement, negation and casts work on 128 zero-extended
bits and mask what they leave. Each of them is the operation of two's complement on the integers
its operands denote, for every kind the interpreter builds.
-/
namespace Riri.Mir

/-- An integer has nothing set above its width. -/
def Value.Canonical : Value → Prop
  | .int raw kind => kind.Canonical raw
  | .uninit | .bool _ | .aggregate _ => True

/-- What the operators do with operands of a kind. -/
structure ScalarsAsRust (ty : Ty) (k : IntKind) : Prop where
  div : ∀ left right, k.Canonical left → k.Canonical right → right ≠ 0#128 →
    binary .div (.int left k) (.int right k) =
      .ok (.int (k.encode ((k.val left).tdiv (k.val right))) k, false)
  rem : ∀ left right, k.Canonical left → k.Canonical right → right ≠ 0#128 →
    binary .rem (.int left k) (.int right k) =
      .ok (.int (k.encode ((k.val left).tmod (k.val right))) k, false)
  shl : ∀ op ∈ [BinOp.shl, .shlUnchecked], ∀ ty' k' left right, intKind ty' = some k' →
    k.Canonical left → k'.Canonical right → ∃ flag, binary op (.int left k) (.int right k') =
      .ok (.int (k.encode (k.val left * 2 ^ (k'.val right % k.bits).toNat)) k, flag)
  /-- The quotient is rounded down: the shift is arithmetic where the kind is signed. -/
  shr : ∀ op ∈ [BinOp.shr, .shrUnchecked], ∀ ty' k' left right, intKind ty' = some k' →
    k.Canonical left → k'.Canonical right → ∃ flag, binary op (.int left k) (.int right k') =
      .ok (.int (k.encode (k.val left / 2 ^ (k'.val right % k.bits).toNat)) k, flag)
  compare : ∀ left right, k.Canonical left → k.Canonical right →
    ∀ op holds, (op, holds) ∈ [(BinOp.eq, decide (k.val left = k.val right)),
      (.ne, decide (k.val left ≠ k.val right)), (.lt, decide (k.val left < k.val right)),
      (.le, decide (k.val left ≤ k.val right)), (.gt, decide (k.val left > k.val right)),
      (.ge, decide (k.val left ≥ k.val right))] →
    binary op (.int left k) (.int right k) = .ok (.bool holds, false)
  not : ∀ raw, k.Canonical raw → unary .not (.int raw k) = .ok (.int (k.encode (-k.val raw - 1)) k)
  neg : ∀ raw, k.Canonical raw → unary .neg (.int raw k) = .ok (.int (k.encode (-k.val raw)) k)
  cast : ∀ ty' k' raw, intKind ty' = some k' → k.Canonical raw →
    cast (.int raw k) ty' = .ok (.int (k'.encode (k.val raw)) k')
  /-- What is left of an integer: the one in range that is congruent to it. -/
  encode : ∀ z, k.Canonical (k.encode z) ∧ k.Represents (k.val (k.encode z)) ∧
    (2 : Int) ^ k.bits ∣ k.val (k.encode z) - z
  widen : ∀ ty' k' raw, intKind ty' = some k' → k.bits ≤ k'.bits → k.Canonical raw →
    ∃ wide, Mir.cast (.int raw k) ty' = .ok wide ∧ Mir.cast wide ty = .ok (.int raw k)

structure MakesCanonical : Prop where
  binary : ∀ op lhs rhs value flag, binary op lhs rhs = .ok (value, flag) → value.Canonical
  unary : ∀ op value value', unary op value = .ok value' → value'.Canonical
  cast : ∀ value ty value', cast value ty = .ok value' → value'.Canonical

variable {k k' : IntKind} {left right raw : BitVec 128} {z : Int}

/-! ### What the operators make is canonical -/

theorem canonical_ofInt (raw : BitVec 128) (k : IntKind) : (Value.ofInt raw k).Canonical := by
  change k.truncate (k.truncate raw) = k.truncate raw
  rw [IntKind.truncate, IntKind.truncate, BitVec.and_assoc, BitVec.and_self]

theorem canonical_of_binaryInts {op : BinOp} {value : Value} {flag : Bool}
    (made : binaryInts op k left right = .ok (value, flag)) : value.Canonical := by
  cases op
  case div | rem =>
    simp only [binaryInts] at made
    split at made
    · cases made
    · obtain ⟨rfl, -⟩ := Prod.mk.inj (Except.ok.inj made)
      exact canonical_ofInt _ _
  case cmp | offset => cases made
  case eq | ne | lt | le | gt | ge =>
    obtain ⟨rfl, -⟩ := Prod.mk.inj (Except.ok.inj made)
    trivial
  all_goals
    obtain ⟨rfl, -⟩ := Prod.mk.inj (Except.ok.inj made)
    exact canonical_ofInt _ _

theorem canonical_of_binaryBools {op : BinOp} {a b : Bool} {value : Value} {flag : Bool}
    (made : binaryBools op a b = .ok (value, flag)) : value.Canonical := by
  cases op
  case eq | ne | bitAnd | bitOr | bitXor =>
    obtain ⟨rfl, -⟩ := Prod.mk.inj (Except.ok.inj made)
    trivial
  all_goals cases made

/-- Two values an operator takes are two bools or two integers. -/
theorem binary_cases {op : BinOp} {lhs rhs : Value} {result : Value × Bool}
    (made : binary op lhs rhs = .ok result) :
    (∃ a b, binaryBools op a b = .ok result) ∨
      ∃ left k right k', lhs = .int left k ∧ rhs = .int right k' ∧
        binaryInts op k left right = .ok result := by
  cases lhs with
  | int left k =>
    cases rhs with
    | int right k' =>
      refine .inr ⟨left, k, right, k', rfl, rfl, ?_⟩
      simp only [binary, Value.asInt, bind, Except.bind] at made
      split at made
      · cases made
      · exact made
    | _ => cases made
  | bool a =>
    cases rhs with
    | bool b => exact .inl ⟨a, b, made⟩
    | _ => cases made
  | _ => cases made

theorem makesCanonical : MakesCanonical where
  binary := by
    intro op lhs rhs value flag made
    rcases binary_cases made with ⟨a, b, bools⟩ | ⟨left, k, right, -, -, -, ints⟩
    · exact canonical_of_binaryBools bools
    · exact canonical_of_binaryInts ints
  unary := by
    intro op value value' made
    cases op with
    | not =>
      cases value with
      | bool b =>
        obtain rfl := Except.ok.inj made
        trivial
      | int raw k =>
        obtain rfl := Except.ok.inj made
        exact canonical_ofInt _ _
      | _ => cases made
    | neg =>
      cases value with
      | int raw k =>
        obtain rfl := Except.ok.inj made
        exact canonical_ofInt _ _
      | _ => cases made
    | ptrMetadata => cases made
  cast := by
    intro value ty value' made
    unfold cast at made
    split at made
    · cases made
    · cases value with
      | bool b =>
        obtain rfl := Except.ok.inj made
        exact canonical_ofInt _ _
      | int raw source =>
        obtain rfl := Except.ok.inj made
        exact canonical_ofInt _ _
      | _ => cases made

/-! ### Operators on two integers -/

theorem binary_of_shift {op : BinOp} (shift : op.shift = true) (k k' : IntKind)
    (left right : BitVec 128) :
    binary op (.int left k) (.int right k') = binaryInts op k left right := by
  simp [binary, Value.asInt, bind, Except.bind, shift]

theorem binary_of_ints (op : BinOp) (k : IntKind) (left right : BitVec 128) :
    binary op (.int left k) (.int right k) = binaryInts op k left right := by
  simp [binary, Value.asInt, bind, Except.bind]

namespace IntKind

/-- A 128-bit result that is `z` leaves `z` at the width. -/
theorem Sized.ofInt_of_eq (sized : k.Sized) (result : raw = BitVec.ofInt 128 z) :
    Value.ofInt raw k = .int (k.encode z) k := by
  refine sized.ofInt ?_
  rw [result, TwosComplement.setWidth_ofInt sized.le]

theorem Sized.div (sized : k.Sized) (first : k.Canonical left) (second : k.Canonical right) :
    Value.ofInt (if k.signed then (k.asSigned left).sdiv (k.asSigned right) else left / right) k =
      .int (k.encode ((k.val left).tdiv (k.val right))) k := by
  cases signed : k.signed with
  | true =>
    refine sized.ofInt_of_eq (BitVec.eq_of_toInt_eq ?_)
    rw [if_pos rfl, BitVec.toInt_sdiv, sized.val_asSigned signed, sized.val_asSigned signed,
      BitVec.toInt_ofInt]
  | false =>
    refine sized.ofInt_of_eq (BitVec.eq_of_toNat_eq ?_)
    rw [if_neg Bool.false_ne_true, sized.val_of_canonical signed first,
      sized.val_of_canonical signed second, ← Int.ofNat_tdiv, BitVec.ofInt_natCast,
      BitVec.toNat_ofNat, BitVec.toNat_udiv,
      Nat.mod_eq_of_lt ((Nat.div_le_self ..).trans_lt left.isLt)]

theorem Sized.rem (sized : k.Sized) (first : k.Canonical left) (second : k.Canonical right) :
    Value.ofInt (if k.signed then (k.asSigned left).srem (k.asSigned right) else left % right) k =
      .int (k.encode ((k.val left).tmod (k.val right))) k := by
  cases signed : k.signed with
  | true =>
    refine sized.ofInt_of_eq ?_
    rw [if_pos rfl, ← sized.val_asSigned signed, ← sized.val_asSigned signed, ← BitVec.toInt_srem,
      BitVec.ofInt_toInt]
  | false =>
    refine sized.ofInt_of_eq (BitVec.eq_of_toNat_eq ?_)
    rw [if_neg Bool.false_ne_true, sized.val_of_canonical signed first,
      sized.val_of_canonical signed second, ← Int.ofNat_tmod, BitVec.ofInt_natCast,
      BitVec.toNat_ofNat, BitVec.toNat_umod,
      Nat.mod_eq_of_lt ((Nat.mod_le ..).trans_lt left.isLt)]

/-- Comparing as the kind does is comparing the integers. -/
theorem Sized.order (sized : k.Sized) (first : k.Canonical left) (second : k.Canonical right) :
    (if k.signed then compare (k.asSigned left).toInt (k.asSigned right).toInt
      else compare left.toNat right.toNat) = compare (k.val left) (k.val right) := by
  cases signed : k.signed with
  | true => rw [if_pos rfl, sized.val_asSigned signed, sized.val_asSigned signed]
  | false =>
    rw [if_neg Bool.false_ne_true, sized.val_of_canonical signed first,
      sized.val_of_canonical signed second]
    rcases Nat.lt_trichotomy left.toNat right.toNat with less | same | more
    · rw [compare_lt_iff_lt.mpr less, compare_lt_iff_lt.mpr (Int.ofNat_lt.mpr less)]
    · rw [compare_eq_iff_eq.mpr same, compare_eq_iff_eq.mpr (congrArg Nat.cast same)]
    · rw [compare_gt_iff_gt.mpr more, compare_gt_iff_gt.mpr (Int.ofNat_lt.mpr more)]

/-! ### Shifts -/

/-- Reading the bits back modulo a power of two. -/
theorem Sized.val_emod (sized : k.Sized) (canonical : k.Canonical raw) :
    k.val raw % 2 ^ k.bits = raw.toNat := by
  have same := congrArg BitVec.toNat (setWidth_eq_val (k := k) raw)
  have nonneg : 0 ≤ k.val raw % (2 ^ k.bits : Nat) :=
    Int.emod_nonneg _ (by exact_mod_cast (Nat.two_pow_pos _).ne')
  rw [sized.toNat_of_canonical canonical, BitVec.toNat_ofInt] at same
  rw [same, Int.toNat_of_nonneg nonneg]
  norm_cast

/-- The amount of a shift: the raw bits tell it modulo the width. -/
theorem amount_eq {ty ty' : Ty} (built : intKind ty = some k) (built' : intKind ty' = some k')
    (canonical : k'.Canonical right) :
    (right % BitVec.ofNat 128 k.bits).toNat = (k'.val right % k.bits).toNat := by
  have bits := bits_of_built built
  have bits' := bits_of_built built'
  have small : k.bits < 2 ^ 128 := by omega
  have divides : (k.bits : Int) ∣ 2 ^ k'.bits := by
    have low : k.bits ∣ 2 ^ 7 := by
      rcases bits with h | h | h | h | h <;> rw [h] <;> decide
    have high : 2 ^ 7 ∣ 2 ^ k'.bits := Nat.pow_dvd_pow 2 (by omega)
    exact_mod_cast low.trans high
  rw [BitVec.toNat_umod, BitVec.toNat_ofNat, Nat.mod_eq_of_lt small,
    ← Int.emod_emod_of_dvd _ divides, (sized_of_built built').val_emod canonical]
  norm_cast

theorem Sized.shl (sized : k.Sized) (left : BitVec 128) (n : Nat) :
    Value.ofInt (left <<< n) k = .int (k.encode (k.val left * 2 ^ n)) k := by
  have power : BitVec.twoPow 128 n = BitVec.ofInt 128 (2 ^ n) := by
    refine BitVec.eq_of_toNat_eq ?_
    rw [BitVec.toNat_twoPow]
    norm_cast
  refine sized.ofInt ?_
  rw [BitVec.shiftLeft_eq_mul_twoPow, power]
  exact TwosComplement.wraps_mul.setWidth sized.le (setWidth_eq_val left)
    (TwosComplement.setWidth_ofInt sized.le _)

theorem Sized.shr (sized : k.Sized) (n : Nat) (canonical : k.Canonical left) :
    Value.ofInt (if k.signed then (k.asSigned left).sshiftRight n else left >>> n) k =
      .int (k.encode (k.val left / 2 ^ n)) k := by
  cases signed : k.signed with
  | true =>
    refine sized.ofInt_of_eq ?_
    have shifted := BitVec.toInt_sshiftRight (x := k.asSigned left) (n := n)
    rw [sized.val_asSigned signed, Int.shiftRight_eq_div_pow, Nat.cast_pow, Nat.cast_ofNat] at shifted
    rw [if_pos rfl, ← shifted, BitVec.ofInt_toInt]
  | false =>
    have quotient : (left.toNat : Int) / 2 ^ n = (left.toNat / 2 ^ n : Nat) := by norm_cast
    refine sized.ofInt_of_eq (BitVec.eq_of_toNat_eq ?_)
    rw [if_neg Bool.false_ne_true, sized.val_of_canonical signed canonical, quotient,
      BitVec.ofInt_natCast, BitVec.toNat_ofNat, BitVec.toNat_ushiftRight, Nat.shiftRight_eq_div_pow,
      Nat.mod_eq_of_lt ((Nat.div_le_self ..).trans_lt left.isLt)]

/-! ### Complement, negation, casts -/

theorem Sized.not (sized : k.Sized) (raw : BitVec 128) :
    Value.ofInt (~~~raw) k = .int (k.encode (-k.val raw - 1)) k := by
  have complement : ~~~raw = BitVec.ofInt 128 (-1) - raw := by
    rw [BitVec.not_eq_neg_add, BitVec.ofInt_neg, BitVec.sub_eq_add_neg, BitVec.sub_eq_add_neg,
      BitVec.add_comm]
    rfl
  refine sized.ofInt ?_
  rw [complement, show -k.val raw - 1 = -1 - k.val raw by omega]
  exact TwosComplement.wraps_sub.setWidth sized.le (TwosComplement.setWidth_ofInt sized.le _)
    (setWidth_eq_val raw)

theorem Sized.neg (sized : k.Sized) (raw : BitVec 128) :
    Value.ofInt (-raw) k = .int (k.encode (-k.val raw)) k := by
  refine sized.ofInt ?_
  rw [BitVec.setWidth_neg_of_le sized.le, setWidth_eq_val (k := k), BitVec.ofInt_neg]

/-- What is left of an integer that bits of another kind denote. -/
theorem Sized.cast (sized : k.Sized) (sized' : k'.Sized) (canonical : k.Canonical raw) :
    Value.ofInt (if k.signed then k.asSigned raw else raw) k' = .int (k'.encode (k.val raw)) k' := by
  refine sized'.ofInt_of_eq ?_
  cases signed : k.signed with
  | true => rw [if_pos rfl, ← sized.val_asSigned signed, BitVec.ofInt_toInt]
  | false =>
    rw [if_neg Bool.false_ne_true, sized.val_of_canonical signed canonical, BitVec.ofInt_natCast,
      BitVec.ofNat_toNat, BitVec.setWidth_eq]

/-- The integer that is left is congruent. -/
theorem Sized.dvd_val_encode (sized : k.Sized) (z : Int) :
    (2 : Int) ^ k.bits ∣ k.val (k.encode z) - z := by
  have same : k.val (k.encode z) % 2 ^ k.bits = z % 2 ^ k.bits := by
    have low : BitVec.ofInt k.bits (k.val (k.encode z)) = BitVec.ofInt k.bits z := by
      rw [← setWidth_eq_val, encode, TwosComplement.setWidth_encode sized.le]
    exact TwosComplement.emod_of_ofInt low
  exact Int.dvd_of_emod_eq_zero (by rw [Int.sub_emod, same, Int.sub_self, Int.zero_emod])

/-- Congruent integers leave the same. -/
theorem encode_congr {z z' : Int} (dvd : (2 : Int) ^ k.bits ∣ z - z') : k.encode z = k.encode z' := by
  have same := Int.emod_eq_emod_iff_emod_sub_eq_zero.mpr (Int.emod_eq_zero_of_dvd dvd)
  rw [IntKind.encode, IntKind.encode, TwosComplement.encode, TwosComplement.encode, same]

/-- An integer in range is left as it is. -/
theorem Sized.encode_val (sized : k.Sized) (canonical : k.Canonical raw) :
    k.encode (k.val raw) = raw := by
  rw [IntKind.encode, TwosComplement.encode, sized.val_emod canonical, BitVec.ofInt_natCast,
    BitVec.ofNat_toNat, BitVec.setWidth_eq]

end IntKind

theorem cast_of_built {ty : Ty} (built : intKind ty = some k') (raw : BitVec 128) (k : IntKind) :
    cast (.int raw k) ty = .ok (.ofInt (if k.signed then k.asSigned raw else raw) k') := by
  simp only [cast, built]

/-- A wider kind keeps every integer, so casting back gives what was cast. -/
theorem cast_cast {ty ty' : Ty} (built : intKind ty = some k) (built' : intKind ty' = some k')
    (wider : k.bits ≤ k'.bits) (canonical : k.Canonical raw) :
    ∃ wide, cast (.int raw k) ty' = .ok wide ∧ cast wide ty = .ok (.int raw k) := by
  have sized := IntKind.sized_of_built built
  have sized' := IntKind.sized_of_built built'
  refine ⟨.int (k'.encode (k.val raw)) k', ?_, ?_⟩
  · rw [cast_of_built built', sized.cast sized' canonical]
  · have narrower : (2 : Int) ^ k.bits ∣ 2 ^ k'.bits := by
      exact_mod_cast Nat.pow_dvd_pow 2 wider
    rw [cast_of_built built, sized'.cast sized (sized'.canonical_encode _),
      IntKind.encode_congr (narrower.trans (sized'.dvd_val_encode _)), sized.encode_val canonical]

/-- The operators do as Rust's on every kind the interpreter builds. -/
theorem scalars_as_rust {ty : Ty} (built : intKind ty = some k) :
    ScalarsAsRust ty k ∧ MakesCanonical := by
  have sized := IntKind.sized_of_built built
  refine ⟨?_, makesCanonical⟩
  constructor
  case div =>
    intro left right first second nonzero
    rw [binary_of_ints]
    simp only [binaryInts, if_neg nonzero, sized.div first second]
  case rem =>
    intro left right first second nonzero
    rw [binary_of_ints]
    simp only [binaryInts, if_neg nonzero, sized.rem first second]
  case shl =>
    intro op member ty' k' left right built' _ canonical'
    rw [← IntKind.amount_eq built built' canonical']
    simp only [List.mem_cons, List.not_mem_nil, or_false] at member
    rcases member with rfl | rfl
    all_goals
      rw [binary_of_shift rfl]
      simp only [binaryInts, sized.shl]
      exact ⟨_, rfl⟩
  case shr =>
    intro op member ty' k' left right built' canonical canonical'
    rw [← IntKind.amount_eq built built' canonical']
    simp only [List.mem_cons, List.not_mem_nil, or_false] at member
    rcases member with rfl | rfl
    all_goals
      rw [binary_of_shift rfl]
      simp only [binaryInts, sized.shr _ canonical]
      exact ⟨_, rfl⟩
  case compare =>
    intro left right first second op holds member
    have same : (left == right) = decide (k.val left = k.val right) := by
      rw [Bool.eq_iff_iff, beq_iff_eq, decide_eq_true_eq]
      exact ⟨fun same => by rw [same], sized.eq_of_val_eq first second⟩
    have order := sized.order first second
    have less : (Ord.compare (k.val left) (k.val right) == .lt) =
        decide (k.val left < k.val right) := by
      rw [Bool.eq_iff_iff, beq_iff_eq, decide_eq_true_eq, compare_lt_iff_lt]
    have more : (Ord.compare (k.val left) (k.val right) == .gt) =
        decide (k.val left > k.val right) := by
      rw [Bool.eq_iff_iff, beq_iff_eq, decide_eq_true_eq, compare_gt_iff_gt]
    simp only [List.mem_cons, List.not_mem_nil, or_false, Prod.mk.injEq] at member
    rw [binary_of_ints]
    rcases member with ⟨rfl, rfl⟩ | ⟨rfl, rfl⟩ | ⟨rfl, rfl⟩ | ⟨rfl, rfl⟩ | ⟨rfl, rfl⟩ | ⟨rfl, rfl⟩
    · simp only [binaryInts, same]
    · simp only [binaryInts, bne, same, decide_not]
    · simp only [binaryInts, order, less]
    · simp only [binaryInts, order, more, ← decide_not, Int.not_lt, gt_iff_lt]
    · simp only [binaryInts, order, more]
    · simp only [binaryInts, order, less, ← decide_not, Int.not_lt, ge_iff_le]
  case not =>
    intro raw _
    exact congrArg Except.ok (sized.not raw)
  case neg =>
    intro raw _
    exact congrArg Except.ok (sized.neg raw)
  case cast =>
    intro ty' k' raw built' canonical
    rw [cast_of_built built', sized.cast (IntKind.sized_of_built built') canonical]
  case encode =>
    exact fun z => ⟨sized.canonical_encode z, IntKind.represents_val _, sized.dvd_val_encode z⟩
  case widen =>
    exact fun ty' k' raw built' wider canonical => cast_cast built built' wider canonical

theorem scalars_as_rust_i128 : ScalarsAsRust (.int .i128) ⟨128, true⟩ ∧ MakesCanonical :=
  scalars_as_rust (show intKind (.int .i128) = some ⟨128, true⟩ from rfl)

end Riri.Mir
