import Riri.Source.Mir
import Riri.Theory.TwosComplement

/-!
# What the bits of a kind denote

The interpreter keeps a number zero-extended in 128 bits and masks it to its width. Here its
masks are read as two's complement: what a raw value denotes, which integers a kind has room
for, and what an operation leaves of any integer.
-/
namespace Riri.Mir

open TwosComplement (lowBits)

namespace IntKind

variable (k : IntKind)

/-- The integer some bits of this kind denote. -/
def val (raw : BitVec 128) : Int :=
  if k.signed then (raw.setWidth k.bits).toInt else (raw.setWidth k.bits).toNat

/-- Nothing is set above the width. -/
def Canonical (raw : BitVec 128) : Prop := k.truncate raw = raw

/-- The canonical bits of `z` modulo two to the width. -/
def encode (z : Int) : BitVec 128 := TwosComplement.encode 128 k.bits z

/-- The kind has room for `z`. -/
def Represents (z : Int) : Prop :=
  if k.signed then -2 ^ (k.bits - 1) ≤ z ∧ z < 2 ^ (k.bits - 1) else 0 ≤ z ∧ z < 2 ^ k.bits

instance (z : Int) : Decidable (k.Represents z) := by
  unfold Represents
  exact inferInstance

instance (raw : BitVec 128) : Decidable (k.Canonical raw) :=
  inferInstanceAs (Decidable (k.truncate raw = raw))

/-- The widths of the kinds the interpreter builds. -/
theorem bits_of_built {ty : Ty} {k : IntKind} (built : intKind ty = some k) :
    k.bits = 8 ∨ k.bits = 16 ∨ k.bits = 32 ∨ k.bits = 64 ∨ k.bits = 128 := by
  rcases ty with uint | int | debug
  · cases uint <;> obtain rfl := Option.some.inj built <;> decide
  · cases int <;> obtain rfl := Option.some.inj built <;> decide
  · cases built

/-- A width the masks are made for. -/
structure Sized : Prop where
  pos : 0 < k.bits
  le : k.bits ≤ 128

theorem sized_of_built {ty : Ty} {k : IntKind} (built : intKind ty = some k) : k.Sized := by
  have bits := bits_of_built built
  constructor <;> omega

variable {k} {raw : BitVec 128}

/-! ### Masks -/

theorem Sized.truncate (sized : k.Sized) (raw : BitVec 128) : k.truncate raw = lowBits k.bits raw := by
  unfold IntKind.truncate mask
  split
  next wide =>
    have full : k.bits = 128 := Nat.le_antisymm sized.le wide
    rw [BitVec.and_allOnes, lowBits, full, BitVec.setWidth_eq, BitVec.setWidth_eq]
  next narrow => exact TwosComplement.and_mask (Nat.lt_of_not_le narrow) raw

theorem Sized.asSigned (sized : k.Sized) (raw : BitVec 128) :
    k.asSigned raw = (raw.setWidth k.bits).signExtend 128 := by
  unfold IntKind.asSigned
  simp only [sized.truncate]
  split
  next wide =>
    have full : k.bits = 128 := Nat.le_antisymm sized.le wide
    rw [lowBits, full, BitVec.setWidth_eq, BitVec.setWidth_eq, BitVec.signExtend_eq]
  next narrow =>
    have lt : k.bits < 128 := Nat.lt_of_not_le narrow
    split
    next negative =>
      have msb := (TwosComplement.lowBits_and_sign sized.le sized.pos raw).mp negative
      rw [mask, if_neg narrow, TwosComplement.lowBits_or_not_mask lt msb]
    next positive =>
      refine TwosComplement.lowBits_of_msb (Bool.eq_false_iff.mpr fun msb => positive ?_)
      exact (TwosComplement.lowBits_and_sign sized.le sized.pos raw).mpr msb

theorem Sized.toInt_asSigned (sized : k.Sized) (raw : BitVec 128) :
    (k.asSigned raw).toInt = (raw.setWidth k.bits).toInt := by
  rw [sized.asSigned, BitVec.toInt_signExtend_of_le sized.le]

/-! ### Bits and the integers they denote -/

theorem val_of_signed (signed : k.signed = true) (raw : BitVec 128) :
    k.val raw = (raw.setWidth k.bits).toInt := if_pos signed

theorem val_of_unsigned (unsigned : k.signed = false) (raw : BitVec 128) :
    k.val raw = (raw.setWidth k.bits).toNat := if_neg (by simp [unsigned])

/-- The low bits are those of the integer. -/
theorem setWidth_eq_val (raw : BitVec 128) : raw.setWidth k.bits = BitVec.ofInt k.bits (k.val raw) := by
  unfold val
  split
  · rw [BitVec.ofInt_toInt]
  · rw [BitVec.ofInt_natCast, BitVec.ofNat_toNat, BitVec.setWidth_eq]

theorem Sized.val_asSigned (sized : k.Sized) (signed : k.signed = true) (raw : BitVec 128) :
    (k.asSigned raw).toInt = k.val raw := by
  rw [sized.toInt_asSigned, val_of_signed signed]

theorem Sized.toNat_of_canonical (sized : k.Sized) (canonical : k.Canonical raw) :
    (raw.setWidth k.bits).toNat = raw.toNat := by
  have small : (raw.setWidth k.bits).toNat < 2 ^ 128 :=
    (raw.setWidth k.bits).isLt.trans_le (Nat.pow_le_pow_right (by decide) sized.le)
  have same := congrArg BitVec.toNat ((sized.truncate raw).symm.trans canonical)
  rwa [lowBits, BitVec.toNat_setWidth, Nat.mod_eq_of_lt small] at same

theorem Sized.val_of_canonical (sized : k.Sized) (unsigned : k.signed = false)
    (canonical : k.Canonical raw) : k.val raw = raw.toNat := by
  rw [val_of_unsigned unsigned, sized.toNat_of_canonical canonical]

/-- What a value made from these bits is. -/
theorem Sized.ofInt (sized : k.Sized) {z : Int} (low : raw.setWidth k.bits = BitVec.ofInt k.bits z) :
    Value.ofInt raw k = .int (k.encode z) k := by
  rw [Value.ofInt, sized.truncate, TwosComplement.lowBits_eq_encode sized.le low]
  rfl

theorem Sized.canonical_encode (sized : k.Sized) (z : Int) : k.Canonical (k.encode z) := by
  rw [Canonical, sized.truncate, encode, TwosComplement.lowBits_encode sized.le]

/-- Operands of a kind denote integers it has room for. -/
theorem represents_val (raw : BitVec 128) : k.Represents (k.val raw) := by
  unfold Represents val
  split
  · exact ⟨BitVec.le_toInt _, BitVec.toInt_lt⟩
  · exact ⟨Int.natCast_nonneg _, by exact_mod_cast (raw.setWidth k.bits).isLt⟩

theorem Sized.eq_of_val_eq (sized : k.Sized) {left right : BitVec 128} (first : k.Canonical left)
    (second : k.Canonical right) (same : k.val left = k.val right) : left = right := by
  refine BitVec.eq_of_toNat_eq ?_
  rw [← sized.toNat_of_canonical first, ← sized.toNat_of_canonical second,
    setWidth_eq_val (k := k) left, setWidth_eq_val (k := k) right, same]

end IntKind

end Riri.Mir
