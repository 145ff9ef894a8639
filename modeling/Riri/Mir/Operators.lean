import Riri.Guarantees.CheckedArithmetic
import Riri.Guarantees.ScalarOperators
import Riri.Mir.Semantics

/-!
# The operators and what they mean

Each operator of the interpreter, on values that stand for data, makes the value that stands for
what the operator means on them, or fails where it has no meaning; where it means a panic, it fails
with that message.
-/
namespace Riri.Mir

/-- A kind the interpreter builds. -/
def IntKind.Built (k : IntKind) : Prop := ∃ ty, intKind ty = some k

/-- A value stands for a datum: its integers have kinds the interpreter builds and nothing above
their width, and nothing in it is unset. -/
inductive Value.Denotes : Value → Datum → Prop where
  | bool (b : Bool) : Denotes (.bool b) (.bool b)
  | int {raw : BitVec 128} {k : IntKind} (built : k.Built) (canonical : k.Canonical raw) :
      Denotes (.int raw k) (.int (k.val raw) k)
  | tuple {parts : List Value} {data : List Datum} (each : List.Forall₂ Denotes parts data) :
      Denotes (.aggregate parts) (.tuple data)

/-- The text of a failure: the message of a panic or of what is not supported, anything for what has
no meaning. -/
inductive Tells : String → Fault → Prop where
  | panic (message : String) : Tells message (.panic message)
  | unsupported (message : String) : Tells message (.unsupported message)
  | stuck (text : String) : Tells text .stuck

abbrev Agrees {α β : Type} (R : α → β → Prop) : Except String α → Except Fault β → Prop :=
  Except.Agree Tells R

/-- Results of the operators that also say whether they left the range. -/
def DenotesFlagged (v : Value × Bool) (d : Datum × Bool) : Prop := v.1.Denotes d.1 ∧ v.2 = d.2

variable {k k' : IntKind} {left right raw : BitVec 128} {op : BinOp}

theorem agrees_stuck {α β : Type} {R : α → β → Prop} (text : String) :
    Agrees R (.error text) (.error .stuck) := .error (.stuck text)

theorem agrees_unsupported {α β : Type} {R : α → β → Prop} (message : String) :
    Agrees R (.error message) (.error (.unsupported message)) := .error (.unsupported message)

namespace IntKind

theorem Built.sized (built : k.Built) : k.Sized := by
  obtain ⟨ty, kind⟩ := built
  exact sized_of_built kind

theorem Built.bits (built : k.Built) :
    k.bits = 8 ∨ k.bits = 16 ∨ k.bits = 32 ∨ k.bits = 64 ∨ k.bits = 128 := by
  obtain ⟨ty, kind⟩ := built
  exact bits_of_built kind

theorem Sized.val_encode (sized : k.Sized) (z : Int) : k.val (k.encode z) = k.wrap z := by
  unfold val wrap
  rw [encode, TwosComplement.setWidth_encode sized.le, BitVec.toInt_ofInt, BitVec.toNat_ofInt]
  split
  · rfl
  · rw [Int.toNat_of_nonneg (Int.emod_nonneg _ (by exact_mod_cast (Nat.two_pow_pos _).ne'))]
    norm_cast

theorem Sized.val_truncate (sized : k.Sized) (raw : BitVec 128) :
    k.val (k.truncate raw) = k.val raw := by
  have low : (k.truncate raw).setWidth k.bits = raw.setWidth k.bits := by
    rw [sized.truncate, TwosComplement.lowBits,
      BitVec.setWidth_setWidth_of_le _ sized.le, BitVec.setWidth_eq]
  rw [val, val, low]

theorem Sized.val_eq_zero_iff (sized : k.Sized) (canonical : k.Canonical raw) :
    k.val raw = 0 ↔ raw = 0#128 := by
  have zero : k.val 0#128 = 0 := by simp [val]
  have canonical_zero : k.Canonical 0#128 := BitVec.zero_and
  constructor
  · exact fun same => sized.eq_of_val_eq canonical canonical_zero (same.trans zero.symm)
  · rintro rfl
    exact zero

/-- An amount is too far exactly if its raw bits are: the bits of a negative one are no smaller
than any width. -/
theorem Built.tooFar_eq (built : k.Built) (built' : k'.Built) (canonical : k'.Canonical right) :
    (BitVec.ofNat 128 k.bits).ule right = k.tooFar (k'.val right) := by
  have bits := built.bits
  have bits' := built'.bits
  have sized' := built'.sized
  have own : (right.setWidth k'.bits).toNat = right.toNat := sized'.toNat_of_canonical canonical
  have width : (BitVec.ofNat 128 k.bits).toNat = k.bits := by
    rw [BitVec.toNat_ofNat, Nat.mod_eq_of_lt]
    omega
  rw [BitVec.ule, width, tooFar]
  refine decide_eq_decide.mpr ?_
  unfold val
  split
  · rw [BitVec.toInt_eq_toNat_cond, own]
    have bound : right.toNat < 2 ^ k'.bits := own ▸ (right.setWidth k'.bits).isLt
    rcases bits' with h | h | h | h | h <;> rw [h] at bound ⊢ <;> split <;> omega
  · rw [own]
    omega

end IntKind

theorem denotes_ofInt (built : k.Built) (raw : BitVec 128) :
    (Value.ofInt raw k).Denotes (.int (k.val raw) k) := by
  rw [← built.sized.val_truncate]
  exact .int built (canonical_ofInt raw k)

theorem denotes_encode (built : k.Built) (z : Int) :
    (Value.int (k.encode z) k).Denotes (.wrapped z k) := by
  rw [Datum.wrapped, ← built.sized.val_encode]
  exact .int built (built.sized.canonical_encode z)

/-! ### Binary operators -/

/-- The operators that can leave the range. -/
theorem ints_of_exact {exact : Int → Int → Int} (known : op.exact = some exact) (built : k.Built)
    (first : k.Canonical left) (second : k.Canonical right) :
    Agrees DenotesFlagged (binaryInts op k left right)
      (.ok (.wrapped (exact (k.val left) (k.val right)) k,
        k.overflowSeen (exact (k.val left) (k.val right)))) := by
  have sized := built.sized
  obtain ⟨f, wraps, applied⟩ := binary_of_exact known
  have low : (f 128 left right).setWidth k.bits =
      BitVec.ofInt k.bits (exact (k.val left) (k.val right)) :=
    wraps.setWidth sized.le (IntKind.setWidth_eq_val left) (IntKind.setWidth_eq_val right)
  rw [← binary_of_ints, applied]
  refine .ok ⟨?_, ?_⟩
  · change (Value.ofInt (f 128 left right) k).Denotes _
    rw [sized.ofInt low]
    exact denotes_encode built _
  · rw [IntKind.overflowSeen, IntKind.overflows]
    by_cases narrow : k.bits ≤ 64
    · rw [decide_eq_true narrow, Bool.true_and, Bool.eq_iff_iff,
        sized.flag_narrow narrow first second known wraps]
      simp
    · have wide : k.bits = 128 := by
        have := built.bits
        omega
      rw [sized.flag_wide wide, decide_eq_false narrow, Bool.false_and]

theorem ints_bitwise (f : ∀ n, BitVec n → BitVec n → BitVec n) (built : k.Built)
    (low : (f 128 left right).setWidth k.bits =
      f k.bits (left.setWidth k.bits) (right.setWidth k.bits)) :
    Agrees DenotesFlagged (.ok (.ofInt (f 128 left right) k, false))
      (.ok (.int (k.bitwise (f k.bits) (k.val left) (k.val right)) k, false)) := by
  refine .ok ⟨?_, rfl⟩
  have same : k.bitwise (f k.bits) (k.val left) (k.val right) = k.val (f 128 left right) := by
    rw [IntKind.bitwise, ← IntKind.setWidth_eq_val left, ← IntKind.setWidth_eq_val right, ← low]
    rfl
  change (Value.ofInt (f 128 left right) k).Denotes _
  rw [same]
  exact denotes_ofInt built _

theorem ints_divide {exact : Int → Int → Int} {message : String} {raw : BitVec 128}
    (built : k.Built) (second : k.Canonical right)
    (quotient : Value.ofInt raw k = .int (k.encode (exact (k.val left) (k.val right))) k) :
    Agrees DenotesFlagged
      (if right = 0#128 then .error message else .ok (.ofInt raw k, false))
      (if k.val right = 0 then .error (.panic message)
        else .ok (.wrapped (exact (k.val left) (k.val right)) k, false)) := by
  by_cases zero : right = 0#128
  · rw [if_pos zero, if_pos ((built.sized.val_eq_zero_iff second).mpr zero)]
    exact .error (.panic message)
  · rw [if_neg zero, if_neg (mt (built.sized.val_eq_zero_iff second).mp zero), quotient]
    exact .ok ⟨denotes_encode built _, rfl⟩

theorem ints_compare {p : Prop} [Decidable p] {b : Bool} (same : b = decide p) :
    Agrees DenotesFlagged (.ok (.bool b, false)) (.ok (.bool (decide p), false)) :=
  .ok ⟨by rw [same]; exact .bool _, rfl⟩

/-- A shift takes an amount of any kind. -/
theorem ints_shift (built : k.Built) (built' : k'.Built) (first : k.Canonical left)
    (second : k'.Canonical right) (shift : op.shift = true) :
    Agrees DenotesFlagged (binaryInts op k left right)
      (Datum.ints IntKind.overflowSeen k (k.val left) (k'.val right) op) := by
  obtain ⟨ty, kind⟩ := id built
  obtain ⟨ty', kind'⟩ := id built'
  have sized := built.sized
  cases op with
  | shl | shlUnchecked =>
    simp only [binaryInts, Datum.ints, built.tooFar_eq built' second,
      IntKind.amount_eq kind kind' second, sized.shl]
    exact .ok ⟨denotes_encode built _, rfl⟩
  | shr | shrUnchecked =>
    simp only [binaryInts, Datum.ints, built.tooFar_eq built' second,
      IntKind.amount_eq kind kind' second, sized.shr _ first]
    exact .ok ⟨denotes_encode built _, rfl⟩
  | _ => cases shift

/-- Operators on two integers of one kind. -/
theorem ints_agree (op : BinOp) (built : k.Built) (first : k.Canonical left)
    (second : k.Canonical right) :
    Agrees DenotesFlagged (binaryInts op k left right)
      (Datum.ints IntKind.overflowSeen k (k.val left) (k.val right) op) := by
  have sized := built.sized
  have same : (left == right) = decide (k.val left = k.val right) := by
    rw [Bool.eq_iff_iff, beq_iff_eq, decide_eq_true_eq]
    exact ⟨fun same => by rw [same], sized.eq_of_val_eq first second⟩
  have order := sized.order first second
  have less : (compare (k.val left) (k.val right) == .lt) = decide (k.val left < k.val right) := by
    rw [Bool.eq_iff_iff, beq_iff_eq, decide_eq_true_eq, compare_lt_iff_lt]
  have more : (compare (k.val left) (k.val right) == .gt) = decide (k.val left > k.val right) := by
    rw [Bool.eq_iff_iff, beq_iff_eq, decide_eq_true_eq, compare_gt_iff_gt]
  cases op with
  | add | addUnchecked | sub | subUnchecked | mul | mulUnchecked =>
    exact ints_of_exact rfl built first second
  | div => exact ints_divide built second (sized.div first second)
  | rem => exact ints_divide built second (sized.rem first second)
  | bitAnd => exact ints_bitwise (fun _ x y => x &&& y) built BitVec.setWidth_and
  | bitOr => exact ints_bitwise (fun _ x y => x ||| y) built BitVec.setWidth_or
  | bitXor => exact ints_bitwise (fun _ x y => x ^^^ y) built BitVec.setWidth_xor
  | shl | shlUnchecked | shr | shrUnchecked => exact ints_shift built built first second rfl
  | eq => exact ints_compare same
  | ne => exact ints_compare (by rw [bne, same, decide_not])
  | lt =>
    simp only [binaryInts, order]
    exact ints_compare less
  | gt =>
    simp only [binaryInts, order]
    exact ints_compare more
  | le =>
    simp only [binaryInts, order]
    exact ints_compare (by rw [more, ← decide_not, decide_eq_decide, gt_iff_lt, Int.not_lt])
  | ge =>
    simp only [binaryInts, order]
    exact ints_compare (by rw [less, ← decide_not, decide_eq_decide, Int.not_lt, ge_iff_le])
  | cmp | offset => exact agrees_unsupported _

theorem bools_agree (op : BinOp) (a b : Bool) :
    Agrees DenotesFlagged (binaryBools op a b) (Datum.bools a b op) := by
  cases op with
  | eq | ne | bitAnd | bitOr | bitXor => exact .ok ⟨.bool _, rfl⟩
  | _ => exact agrees_stuck _

theorem binary_agree (op : BinOp) {v w : Value} {d e : Datum} (first : v.Denotes d)
    (second : w.Denotes e) :
    Agrees DenotesFlagged (binary op v w) (Datum.binary IntKind.overflowSeen op d e) := by
  cases first with
  | bool a =>
    cases second with
    | bool b => exact bools_agree op a b
    | int | tuple => exact agrees_stuck _
  | @int left k built first =>
    cases second with
    | @int right k' built' second =>
      change Agrees _ (if !op.shift && k != k' then .error _ else binaryInts op k left right)
        (if op.shift ∨ k = k' then
            Datum.ints IntKind.overflowSeen k (k.val left) (k'.val right) op
          else .error .stuck)
      cases shift : op.shift with
      | true => exact ints_shift built built' first second shift
      | false =>
        by_cases same : k = k'
        · subst same
          simpa using ints_agree op built first second
        · simp only [Bool.not_false, Bool.true_and, bne_iff_ne, ne_eq, same, not_false_eq_true,
            if_true, Bool.false_eq_true, or_self, if_false]
          exact agrees_stuck _
    | bool | tuple => exact agrees_stuck _
  | tuple each => cases second <;> exact agrees_stuck _

/-! ### Unary operators and casts -/

theorem unary_agree (op : UnOp) {v : Value} {d : Datum} (denotes : v.Denotes d) :
    Agrees Value.Denotes (unary op v) (Datum.unary op d) := by
  cases op with
  | not =>
    cases denotes with
    | bool b => exact .ok (.bool _)
    | @int raw k built canonical =>
      refine .ok ?_
      rw [built.sized.not]
      exact denotes_encode built _
    | tuple => exact agrees_stuck _
  | neg =>
    cases denotes with
    | @int raw k built canonical =>
      change Agrees _ (.ok (Value.ofInt (-raw) k)) _
      rw [built.sized.neg]
      exact .ok (denotes_encode built _)
    | bool | tuple => exact agrees_stuck _
  | ptrMetadata => exact agrees_unsupported _

theorem cast_agree (ty : Ty) {v : Value} {d : Datum} (denotes : v.Denotes d) :
    Agrees Value.Denotes (cast v ty) (d.cast ty) := by
  unfold cast Datum.cast
  cases kind : intKind ty with
  | none => exact agrees_unsupported _
  | some k' =>
    have built' : k'.Built := ⟨ty, kind⟩
    cases denotes with
    | bool b =>
      refine .ok ?_
      rw [built'.sized.ofInt_of_eq (z := if b then 1 else 0) (by cases b <;> rfl)]
      exact denotes_encode built' _
    | @int raw k built canonical =>
      refine .ok ?_
      rw [built.sized.cast built'.sized canonical]
      exact denotes_encode built' _
    | tuple => exact agrees_stuck _

end Riri.Mir
