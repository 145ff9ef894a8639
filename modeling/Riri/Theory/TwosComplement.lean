import Mathlib.Data.Nat.Bitwise
import Mathlib.Tactic.Zify

/-!
# Narrow numbers in a wide register

A register of `n` bits that holds a number of `w` bits zero-extended: cutting it down with a
mask, extending its sign by masking, and what a number of any size leaves in it.
-/
namespace Riri.TwosComplement

variable {n w : Nat}

/-- The low `w` bits of a register, the others zero. -/
def lowBits (w : Nat) (x : BitVec n) : BitVec n := (x.setWidth w).setWidth n

/-- The register that holds `z` modulo `2 ^ w`. -/
def encode (n w : Nat) (z : Int) : BitVec n := BitVec.ofInt n (z % 2 ^ w)

theorem setWidth_ofInt (le : w ≤ n) (z : Int) : (BitVec.ofInt n z).setWidth w = BitVec.ofInt w z := by
  refine BitVec.eq_of_toInt_eq ?_
  rw [← BitVec.signExtend_eq_setWidth_of_le _ le, BitVec.toInt_signExtend_eq_toInt_bmod_of_le _ le,
    BitVec.toInt_ofInt, BitVec.toInt_ofInt]
  exact Int.bmod_bmod_of_dvd (Nat.pow_dvd_pow 2 le)

/-- Integers that leave the same bits are congruent. -/
theorem emod_of_ofInt {z z' : Int} (same : BitVec.ofInt w z = BitVec.ofInt w z') :
    z % 2 ^ w = z' % 2 ^ w := by
  have pos : ((2 ^ w : Nat) : Int) ≠ 0 := by exact_mod_cast (Nat.two_pow_pos w).ne'
  have cast : (2 : Int) ^ w = (2 ^ w : Nat) := by norm_cast
  have here := congrArg BitVec.toNat same
  rw [BitVec.toNat_ofInt, BitVec.toNat_ofInt] at here
  rw [cast, ← Int.toNat_of_nonneg (Int.emod_nonneg z pos), here,
    Int.toNat_of_nonneg (Int.emod_nonneg z' pos)]

theorem encode_eq (le : w ≤ n) (z : Int) : encode n w z = (BitVec.ofInt w z).setWidth n := by
  have small : 2 ^ w ≤ 2 ^ n := Nat.pow_le_pow_right (by decide) le
  have pos : ((2 ^ w : Nat) : Int) ≠ 0 := by exact_mod_cast (Nat.two_pow_pos w).ne'
  refine BitVec.eq_of_toNat_eq ?_
  rw [encode, BitVec.toNat_ofInt, BitVec.toNat_setWidth, BitVec.toNat_ofInt]
  have cast : (2 : Int) ^ w = (2 ^ w : Nat) := by norm_cast
  rw [cast]
  have nonneg := Int.emod_nonneg z pos
  have lt := Int.emod_lt_of_pos z (Int.natCast_pos.mpr (Nat.two_pow_pos w))
  rw [Int.emod_eq_of_lt nonneg (by omega), Nat.mod_eq_of_lt (by omega)]

/-- What is left of a register whose low bits are those of `z`. -/
theorem lowBits_eq_encode (le : w ≤ n) {x : BitVec n} {z : Int}
    (low : x.setWidth w = BitVec.ofInt w z) : lowBits w x = encode n w z := by
  rw [encode_eq le, lowBits, low]

theorem setWidth_encode (le : w ≤ n) (z : Int) : (encode n w z).setWidth w = BitVec.ofInt w z := by
  rw [encode_eq le, BitVec.setWidth_setWidth_of_le _ le, BitVec.setWidth_eq]

theorem lowBits_encode (le : w ≤ n) (z : Int) : lowBits w (encode n w z) = encode n w z :=
  lowBits_eq_encode le (setWidth_encode le z)

/-! ### Masks -/

theorem toNat_mask (lt : w < n) : ((1#n <<< w) - 1#n).toNat = 2 ^ w - 1 := by
  have pos : 1 ≤ 2 ^ w := Nat.one_le_two_pow
  have small : 2 ^ w < 2 ^ n := Nat.pow_lt_pow_right (by decide) lt
  have one : 1 % 2 ^ n = 1 := Nat.mod_eq_of_lt (by omega)
  have shifted : (1#n <<< w).toNat = 2 ^ w := by
    rw [BitVec.toNat_shiftLeft, BitVec.toNat_ofNat, one, Nat.one_shiftLeft, Nat.mod_eq_of_lt small]
  have le : 1#n ≤ 1#n <<< w := by
    rw [BitVec.le_def, shifted, BitVec.toNat_ofNat, one]
    exact pos
  rw [BitVec.toNat_sub_of_le le, shifted, BitVec.toNat_ofNat, one]

theorem getLsbD_mask (lt : w < n) (i : Nat) : ((1#n <<< w) - 1#n).getLsbD i = decide (i < w) := by
  rw [BitVec.getLsbD, toNat_mask lt, Nat.testBit_two_pow_sub_one]

theorem and_mask (lt : w < n) (x : BitVec n) : x &&& ((1#n <<< w) - 1#n) = lowBits w x := by
  have small : x.toNat % 2 ^ w < 2 ^ n :=
    (Nat.mod_lt _ (Nat.two_pow_pos w)).trans (Nat.pow_lt_pow_right (by decide) lt)
  refine BitVec.eq_of_toNat_eq ?_
  rw [lowBits, BitVec.toNat_and, toNat_mask lt, Nat.and_two_pow_sub_one_eq_mod,
    BitVec.toNat_setWidth, BitVec.toNat_setWidth, Nat.mod_eq_of_lt small]

/-! ### Signs -/

/-- The sign bit, found by masking. -/
theorem lowBits_and_sign (le : w ≤ n) (pos : 0 < w) (x : BitVec n) :
    lowBits w x &&& (1#n <<< (w - 1)) ≠ 0#n ↔ (x.setWidth w).msb = true := by
  have top : w - 1 < w := Nat.sub_lt pos Nat.one_pos
  have msb : (x.setWidth w).msb = x.getLsbD (w - 1) := by
    rw [BitVec.msb_eq_getLsbD_last, BitVec.getLsbD_setWidth, decide_eq_true top, Bool.true_and]
  rw [msb]
  constructor
  · intro nonzero
    by_contra low
    refine nonzero (BitVec.eq_of_getLsbD_eq fun i inside => ?_)
    rw [BitVec.getLsbD_and, BitVec.getLsbD_zero]
    by_cases same : i = w - 1
    · rw [same, lowBits, BitVec.getLsbD_setWidth, BitVec.getLsbD_setWidth, Bool.eq_false_iff.mpr low]
      simp
    · have elsewhere : (1#n <<< (w - 1)).getLsbD i = false := by
        rw [BitVec.getLsbD_shiftLeft]
        simp
        omega
      rw [elsewhere, Bool.and_false]
  · intro high zero
    have here := congrArg (fun y : BitVec n => y.getLsbD (w - 1)) zero
    simp [lowBits, high] at here
    omega

/-- The sign, extended by masking. -/
theorem lowBits_or_not_mask (lt : w < n) {x : BitVec n} (msb : (x.setWidth w).msb = true) :
    lowBits w x ||| ~~~((1#n <<< w) - 1#n) = (x.setWidth w).signExtend n := by
  ext i inside
  rw [← BitVec.getLsbD_eq_getElem, ← BitVec.getLsbD_eq_getElem, BitVec.getLsbD_or,
    BitVec.getLsbD_not, getLsbD_mask lt, BitVec.getLsbD_signExtend, msb, lowBits]
  by_cases low : i < w <;> simp [low, inside]

theorem lowBits_of_msb {x : BitVec n} (msb : (x.setWidth w).msb = false) :
    lowBits w x = (x.setWidth w).signExtend n :=
  (BitVec.signExtend_eq_setWidth_of_msb_false msb).symm

/-! ### Operations that wrap -/

/-- An operation of every width that computes the exact result modulo two to the width. -/
structure Wraps (f : ∀ n, BitVec n → BitVec n → BitVec n) (exact : Int → Int → Int) : Prop where
  ofInt : ∀ n a b, f n (BitVec.ofInt n a) (BitVec.ofInt n b) = BitVec.ofInt n (exact a b)

theorem wraps_add : Wraps (fun _ x y => x + y) (· + ·) := ⟨fun _ a b => (BitVec.ofInt_add a b).symm⟩

theorem wraps_sub : Wraps (fun _ x y => x - y) (· - ·) := by
  refine ⟨fun n a b => ?_⟩
  rw [BitVec.sub_eq_add_neg, ← BitVec.ofInt_neg, ← BitVec.ofInt_add, ← Int.sub_eq_add_neg]

theorem wraps_mul : Wraps (fun _ x y => x * y) (· * ·) := ⟨fun _ a b => (BitVec.ofInt_mul a b).symm⟩

variable {f : ∀ n, BitVec n → BitVec n → BitVec n} {exact : Int → Int → Int}

theorem Wraps.of_toInt (wraps : Wraps f exact) (x y : BitVec n) :
    f n x y = BitVec.ofInt n (exact x.toInt y.toInt) := by
  rw [← wraps.ofInt, BitVec.ofInt_toInt, BitVec.ofInt_toInt]

theorem Wraps.of_toNat (wraps : Wraps f exact) (x y : BitVec n) :
    f n x y = BitVec.ofInt n (exact x.toNat y.toNat) := by
  rw [← wraps.ofInt, BitVec.ofInt_natCast, BitVec.ofInt_natCast, BitVec.ofNat_toNat,
    BitVec.ofNat_toNat, BitVec.setWidth_eq, BitVec.setWidth_eq]

/-- Its low bits are those of the operation on the low bits. -/
theorem Wraps.setWidth (wraps : Wraps f exact) (le : w ≤ n) {x y : BitVec n} {a b : Int}
    (first : x.setWidth w = BitVec.ofInt w a) (second : y.setWidth w = BitVec.ofInt w b) :
    (f n x y).setWidth w = BitVec.ofInt w (exact a b) := by
  have low : ∀ z : BitVec n, BitVec.ofInt w z.toInt = z.setWidth w := fun z => by
    rw [← setWidth_ofInt le, BitVec.ofInt_toInt]
  rw [wraps.of_toInt, setWidth_ofInt le, ← wraps.ofInt, low, low, first, second, wraps.ofInt]

/-! ### Numbers that fit -/

theorem toInt_setWidth (le : w ≤ n) (x : BitVec n) : (x.setWidth w).toInt = x.toInt.bmod (2 ^ w) := by
  rw [← BitVec.signExtend_eq_setWidth_of_le _ le, BitVec.toInt_signExtend_eq_toInt_bmod_of_le _ le]

/-- An integer between the bounds of a signed number of `w` bits is that number. -/
theorem bmod_eq_self_iff (pos : 0 < w) {z : Int} :
    z.bmod (2 ^ w) = z ↔ -2 ^ (w - 1) ≤ z ∧ z < 2 ^ (w - 1) := by
  have double : ((2 ^ w : Nat) : Int) = 2 * 2 ^ (w - 1) := by
    have := Nat.two_pow_pred_add_two_pow_pred pos
    zify at this
    push_cast
    omega
  have some_bits : 0 < 2 ^ w := Nat.two_pow_pos w
  constructor
  · intro same
    have low := Int.le_bmod (x := z) some_bits
    have high := Int.bmod_lt (x := z) some_bits
    omega
  · rintro ⟨low, high⟩
    exact Int.bmod_eq_of_le_mul_two (by omega) (by omega)

end Riri.TwosComplement
