import Riri.Mir.Values
import Mathlib.Algebra.Order.Ring.Abs
import Mathlib.Tactic.NormNum

/-!
# Checked arithmetic of the interpreter

`binary` adds, subtracts and multiplies at 128 bits and masks. The value is right at every width.
The flag compares the 128-bit result with what is left of it, so it needs room above the number:
up to 64 bits the 128-bit result tells the exact one, but at 128 bits nothing is above it and the
flag is never set.
-/
namespace Riri.Mir

open TwosComplement (Wraps lowBits)

def BinOp.exact : BinOp → Option (Int → Int → Int)
  | .add | .addUnchecked => some (· + ·)
  | .sub | .subUnchecked => some (· - ·)
  | .mul | .mulUnchecked => some (· * ·)
  | _ => none

/-- The value is the exact result modulo two to the width, and the flag says whether that result
is out of range. -/
def CheckedAsRust (op : BinOp) (exact : Int → Int → Int) (k : IntKind) (left right : BitVec 128) :
    Prop :=
  ∃ flag, binary op (.int left k) (.int right k) =
      .ok (.int (k.encode (exact (k.val left) (k.val right))) k, flag) ∧
    (flag = true ↔ ¬ k.Represents (exact (k.val left) (k.val right)))

variable {op : BinOp} {exact : Int → Int → Int} {k : IntKind} {left right : BitVec 128}

/-- Each of them is one wrapping operation, made on the signed and on the raw operands. -/
theorem binary_of_exact (known : op.exact = some exact) :
    ∃ f : ∀ n, BitVec n → BitVec n → BitVec n, Wraps f exact ∧ ∀ k left right,
      binary op (.int left k) (.int right k) =
        .ok (checked k (f 128 (k.asSigned left) (k.asSigned right)) left right (f 128)) := by
  have same : ∀ (op : BinOp) k left right, binary op (.int left k) (.int right k) =
      binaryInts op k left right := by
    intro op k left right
    simp [binary, Value.asInt, bind, Except.bind]
  cases op with
  | add | addUnchecked =>
    obtain rfl := Option.some.inj known
    exact ⟨_, TwosComplement.wraps_add, fun k left right => same _ k left right⟩
  | sub | subUnchecked =>
    obtain rfl := Option.some.inj known
    exact ⟨_, TwosComplement.wraps_sub, fun k left right => same _ k left right⟩
  | mul | mulUnchecked =>
    obtain rfl := Option.some.inj known
    exact ⟨_, TwosComplement.wraps_mul, fun k left right => same _ k left right⟩
  | _ => cases known

/-- Two signed operands of 64 bits leave the exact result in 128. -/
theorem exact_signed (known : op.exact = some exact) {a b : Int} (low : -2 ^ 63 ≤ a)
    (high : a < 2 ^ 63) (low' : -2 ^ 63 ≤ b) (high' : b < 2 ^ 63) :
    -2 ^ 127 ≤ exact a b ∧ exact a b < 2 ^ 127 := by
  cases op with
  | add | addUnchecked | sub | subUnchecked =>
    obtain rfl := Option.some.inj known
    dsimp only
    omega
  | mul | mulUnchecked =>
    obtain rfl := Option.some.inj known
    have small : |a * b| ≤ 2 ^ 63 * 2 ^ 63 := by
      rw [abs_mul]
      exact mul_le_mul (abs_le.mpr ⟨low, high.le⟩) (abs_le.mpr ⟨low', high'.le⟩) (abs_nonneg b)
        (by norm_num)
    obtain ⟨above, below⟩ := abs_le.mp small
    dsimp only
    omega
  | _ => cases known

/-- Two unsigned operands of 64 bits leave it there too, but for a difference below zero. -/
theorem exact_unsigned (known : op.exact = some exact) {a b : Int} (low : 0 ≤ a)
    (high : a < 2 ^ 64) (low' : 0 ≤ b) (high' : b < 2 ^ 64) :
    -2 ^ 64 < exact a b ∧ exact a b < 2 ^ 128 := by
  cases op with
  | add | addUnchecked | sub | subUnchecked =>
    obtain rfl := Option.some.inj known
    dsimp only
    omega
  | mul | mulUnchecked =>
    obtain rfl := Option.some.inj known
    have nonneg : 0 ≤ a * b := mul_nonneg low low'
    have small : a * b ≤ (2 ^ 64 - 1) * (2 ^ 64 - 1) := by
      refine mul_le_mul (by omega) (by omega) low' (by norm_num)
    dsimp only
    omega
  | _ => cases known

namespace IntKind

/-! ### The flag -/

/-- A signed number fits if nothing is lost when it is cut down and extended again. -/
theorem Sized.fits_signed (sized : k.Sized) (signed : k.signed = true) (raw : BitVec 128) :
    k.fits raw = true ↔ k.Represents raw.toInt := by
  rw [fits, if_pos signed, beq_iff_eq, Represents, if_pos signed, ← BitVec.toInt_inj,
    sized.toInt_asSigned, TwosComplement.toInt_setWidth sized.le,
    TwosComplement.bmod_eq_self_iff sized.pos]

/-- An unsigned result stays what it was exactly if it is below the bound. -/
theorem Sized.truncate_eq_iff (sized : k.Sized) (raw : BitVec 128) :
    k.truncate raw = raw ↔ raw.toNat < 2 ^ k.bits := by
  have small : (raw.setWidth k.bits).toNat < 2 ^ k.bits := (raw.setWidth k.bits).isLt
  rw [sized.truncate, lowBits, ← BitVec.toNat_inj, BitVec.toNat_setWidth,
    Nat.mod_eq_of_lt (small.trans_le (Nat.pow_le_pow_right (by decide) sized.le)),
    BitVec.toNat_setWidth]
  constructor
  · intro same
    rw [← same]
    exact Nat.mod_lt _ (Nat.two_pow_pos _)
  · exact Nat.mod_eq_of_lt

/-- The second comparison of an unsigned result adds nothing to the first. -/
theorem Sized.fitsUnsigned_of_truncate (sized : k.Sized) (left right : BitVec 128)
    (f : BitVec 128 → BitVec 128 → BitVec 128) (same : k.truncate (f left right) = f left right) :
    fitsUnsigned k left right (f left right) f = true := by
  unfold fitsUnsigned
  split
  · rfl
  next narrow =>
    have bound : (f left right).toNat < 2 ^ k.bits := (sized.truncate_eq_iff _).mp same
    have mask : k.mask.toNat = 2 ^ k.bits - 1 := by
      rw [mask, if_neg narrow, TwosComplement.toNat_mask (Nat.lt_of_not_le narrow)]
    simp only [same, beq_self_eq_true, Bool.true_and, BitVec.ule, mask, decide_eq_true_eq]
    omega

theorem Sized.flag_unsigned (sized : k.Sized) (unsigned : k.signed = false) (s : BitVec 128)
    (f : BitVec 128 → BitVec 128 → BitVec 128) :
    (checked k s left right f).2 = true ↔ ¬ (f left right).toNat < 2 ^ k.bits := by
  rw [← sized.truncate_eq_iff]
  simp only [checked, unsigned, Bool.false_eq_true, if_false, Bool.or_eq_true, bne_iff_ne,
    Bool.not_eq_true']
  constructor
  · rintro (lost | outside) same
    · exact lost same
    · exact Bool.false_ne_true (outside.symm.trans
        (sized.fitsUnsigned_of_truncate left right f same))
  · exact .inl

theorem Sized.flag_signed (sized : k.Sized) (signed : k.signed = true) (s : BitVec 128)
    (f : BitVec 128 → BitVec 128 → BitVec 128) :
    (checked k s left right f).2 = true ↔ ¬ k.Represents s.toInt := by
  rw [← sized.fits_signed signed]
  simp [checked, signed]

/-- Nothing is above 128 bits, and nothing is flagged. -/
theorem Sized.flag_wide (sized : k.Sized) (wide : k.bits = 128) (s : BitVec 128)
    (f : BitVec 128 → BitVec 128 → BitVec 128) : (checked k s left right f).2 = false := by
  rw [Bool.eq_false_iff]
  cases signed : k.signed with
  | false =>
    rw [ne_eq, sized.flag_unsigned signed, not_not, wide]
    exact (f left right).isLt
  | true =>
    rw [ne_eq, sized.flag_signed signed, not_not, Represents, if_pos signed, wide]
    exact ⟨BitVec.le_toInt s, BitVec.toInt_lt⟩

/-- Up to 64 bits the flag tells whether the exact result is out of range. -/
theorem Sized.flag_narrow (sized : k.Sized) (narrow : k.bits ≤ 64) (first : k.Canonical left)
    (second : k.Canonical right) (known : op.exact = some exact)
    {f : ∀ n, BitVec n → BitVec n → BitVec n} (wraps : Wraps f exact) :
    (checked k (f 128 (k.asSigned left) (k.asSigned right)) left right (f 128)).2 = true ↔
      ¬ k.Represents (exact (k.val left) (k.val right)) := by
  cases signed : k.signed with
  | true =>
    have bound : (2 : Int) ^ (k.bits - 1) ≤ 2 ^ 63 := by
      exact_mod_cast Nat.pow_le_pow_right (n := 2) (by decide) (show k.bits - 1 ≤ 63 by omega)
    have inside : ∀ raw, -2 ^ 63 ≤ k.val raw ∧ k.val raw < 2 ^ 63 := by
      intro raw
      have own := represents_val (k := k) raw
      rw [Represents, if_pos signed] at own
      omega
    obtain ⟨low, high⟩ := exact_signed known (inside left).1 (inside left).2 (inside right).1
      (inside right).2
    rw [sized.flag_signed signed, wraps.of_toInt, sized.val_asSigned signed,
      sized.val_asSigned signed, BitVec.toInt_ofInt,
      (TwosComplement.bmod_eq_self_iff (by decide)).mpr ⟨low, high⟩]
  | false =>
    have bound : (2 : Int) ^ k.bits ≤ 2 ^ 64 := by
      exact_mod_cast Nat.pow_le_pow_right (n := 2) (by decide) narrow
    have inside : ∀ raw, 0 ≤ k.val raw ∧ k.val raw < 2 ^ 64 := by
      intro raw
      have own := represents_val (k := k) raw
      rw [Represents, if_neg (by simp [signed])] at own
      omega
    obtain ⟨low, high⟩ := exact_unsigned known (inside left).1 (inside left).2 (inside right).1
      (inside right).2
    rw [sized.flag_unsigned signed, wraps.of_toNat, ← sized.val_of_canonical signed first,
      ← sized.val_of_canonical signed second, Represents, if_neg (by simp [signed]),
      BitVec.toNat_ofInt]
    have cast : ((2 ^ k.bits : Nat) : Int) = 2 ^ k.bits := by norm_cast
    generalize exact (k.val left) (k.val right) = z at *
    generalize (2 : Int) ^ k.bits = bound at *
    omega

end IntKind

/-- The operators that can overflow do as Rust's exactly if the kind is not 128 bits wide or the
exact result is in its range. -/
theorem checked_exactly {ty : Ty} (built : intKind ty = some k) (known : op.exact = some exact)
    (first : k.Canonical left) (second : k.Canonical right) :
    CheckedAsRust op exact k left right ↔
      (k.bits = 128 → k.Represents (exact (k.val left) (k.val right))) := by
  have sized := IntKind.sized_of_built built
  obtain ⟨f, wraps, applied⟩ := binary_of_exact known
  have low : (f 128 left right).setWidth k.bits =
      BitVec.ofInt k.bits (exact (k.val left) (k.val right)) :=
    wraps.setWidth sized.le (IntKind.setWidth_eq_val left) (IntKind.setWidth_eq_val right)
  have value : (checked k (f 128 (k.asSigned left) (k.asSigned right)) left right (f 128)).1 =
      .int (k.encode (exact (k.val left) (k.val right))) k := sized.ofInt low
  have asRust : CheckedAsRust op exact k left right ↔
      ((checked k (f 128 (k.asSigned left) (k.asSigned right)) left right (f 128)).2 = true ↔
        ¬ k.Represents (exact (k.val left) (k.val right))) := by
    rw [CheckedAsRust, applied]
    constructor
    · rintro ⟨flag, same, means⟩
      rw [← means, congrArg Prod.snd (Except.ok.inj same)]
    · intro means
      exact ⟨_, congrArg Except.ok (Prod.ext value rfl), means⟩
  rw [asRust]
  rcases IntKind.bits_of_built built with narrow | narrow | narrow | narrow | wide
  case inr.inr.inr.inr =>
    rw [sized.flag_wide wide]
    simp [wide]
  all_goals
    refine iff_of_true (sized.flag_narrow (by omega) first second known wraps) fun wide => ?_
    omega

/-- 250 and 10 do not fit in eight bits, and that is flagged. -/
theorem checked_exactly_u8 : CheckedAsRust .add (· + ·) ⟨8, false⟩ 250#128 10#128 :=
  (checked_exactly (show intKind (.uint .u8) = some ⟨8, false⟩ from rfl)
    (show BinOp.add.exact = some (· + ·) from rfl) (by decide) (by decide)).mpr (by decide)

/-- The largest `u128` and 1 make 0, and nothing is flagged. -/
theorem checked_not_as_rust : ¬ ∀ ty k op exact left right, intKind ty = some k →
    BinOp.exact op = some exact → k.Canonical left → k.Canonical right →
      CheckedAsRust op exact k left right := by
  intro always
  obtain ⟨flag, same, means⟩ := always (.uint .u128) ⟨128, false⟩ .add (· + ·)
    (BitVec.allOnes 128) 1#128 rfl rfl (by decide) (by decide)
  have unflagged : binary .add (.int (BitVec.allOnes 128) ⟨128, false⟩) (.int 1#128 ⟨128, false⟩) =
      .ok (.int 0#128 ⟨128, false⟩, false) := by rfl
  rw [unflagged] at same
  rw [← (Prod.mk.inj (Except.ok.inj same)).2] at means
  exact Bool.false_ne_true (means.mpr (by decide))

end Riri.Mir
