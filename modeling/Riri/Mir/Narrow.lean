import Riri.Mir.Semantics

/-!
# Bodies without 128-bit integers

A body gets the kinds of its integers from its constants and its casts. Where none of them has 128
bits no integer of a run ever has, and the overflow flags the interpreter computes are Rust's.
-/
namespace Riri.Mir

def IntKind.narrow (k : IntKind) : Bool := decide (k.bits ≤ 64)

def Ty.narrow (ty : Ty) : Bool := (intKind ty).all IntKind.narrow

def Const.narrow : Const → Bool
  | .allocated (.scalar ty) _ => ty.narrow
  | .allocated .bool _ | .other _ => true

def Operand.narrow : Operand → Bool
  | .constant konst => konst.narrow
  | .copy _ | .move _ | .runtimeChecks _ => true

def Rvalue.narrow : Rvalue → Bool
  | .use o | .unaryOp _ o => o.narrow
  | .binaryOp _ lhs rhs | .checkedBinaryOp _ lhs rhs => lhs.narrow && rhs.narrow
  | .cast o ty => o.narrow && ty.narrow
  | .aggregate operands => operands.all Operand.narrow
  | .copyForDeref _ | .other _ => true

def Statement.narrow : Statement → Bool
  | .assign _ rv => rv.narrow
  | _ => true

/-- No constant of the body and no cast in it has a type of 128 bits. -/
def Body.narrow (body : Body) : Bool := body.blocks.all fun bb => bb.statements.all Statement.narrow

/-- No integer in it has 128 bits. -/
inductive Datum.Narrow : Datum → Prop where
  | bool (b : Bool) : Narrow (.bool b)
  | int (z : Int) {k : IntKind} (narrow : k.narrow = true) : Narrow (.int z k)
  | tuple {parts : List Datum} (each : ∀ d ∈ parts, Narrow d) : Narrow (.tuple parts)

def Store.Narrow (store : Store) : Prop :=
  ∀ (i : Nat) (d : Datum), store[i]? = some (some d) → d.Narrow

/-- Two computations that fail alike or return the same, of which `P` holds. -/
abbrev Same {α : Type} (P : α → Prop) : Except Fault α → Except Fault α → Prop :=
  Except.Agree Eq fun a b => a = b ∧ P a

variable {d e : Datum} {store : Store} {ty : Ty} {k : IntKind}

theorem Same.ok {α : Type} {P : α → Prop} {a : α} (holds : P a) : Same P (.ok a) (.ok a) :=
  Except.Agree.ok ⟨rfl, holds⟩

theorem Same.swap {α : Type} {P : α → Prop} {x y : Except Fault α} (same : Same P x y) :
    Same P y x := by
  cases same with
  | @ok a b both =>
    obtain ⟨rfl, holds⟩ := both
    exact Except.Agree.ok ⟨rfl, holds⟩
  | error fault => exact Except.Agree.error fault.symm

theorem Same.error {α : Type} (P : α → Prop) (fault : Fault) : Same P (.error fault) (.error fault) :=
  Except.Agree.error rfl

theorem Same.of_each {α : Type} {P : α → Prop} {xs ys : List α}
    (each : List.Forall₂ (fun a b => a = b ∧ P a) xs ys) : xs = ys ∧ ∀ a ∈ xs, P a := by
  induction each with
  | nil => exact ⟨rfl, fun a member => (List.not_mem_nil member).elim⟩
  | cons here _ ih =>
    obtain ⟨rfl, holds⟩ := here
    obtain ⟨rfl, rest⟩ := ih
    exact ⟨rfl, List.forall_mem_cons.mpr ⟨holds, rest⟩⟩

/-! ### Places and operands -/

theorem Ty.narrow_kind (narrow : ty.narrow = true) (kind : intKind ty = some k) : k.narrow = true := by
  rw [Ty.narrow, kind] at narrow
  exact narrow

namespace Datum.Narrow

theorem project (narrow : d.Narrow) (projection : Projection) :
    Same Datum.Narrow (d.project projection) (d.project projection) := by
  cases projection with
  | other debug => cases narrow <;> exact Same.error _ _
  | field index =>
    cases narrow with
    | bool | int => exact Same.error _ _
    | @tuple parts each =>
      cases here : parts[index]? with
      | none =>
        simp only [Datum.project, here]
        exact Same.error _ _
      | some part =>
        simp only [Datum.project, here]
        exact Same.ok (each part (List.mem_of_getElem? here))

theorem cast (narrow : ty.narrow = true) : Same Datum.Narrow (d.cast ty) (d.cast ty) := by
  unfold Datum.cast
  cases kind : intKind ty with
  | none => exact Same.error _ _
  | some k =>
    cases d with
    | bool | int => exact Same.ok (.int _ (Ty.narrow_kind narrow kind))
    | tuple => exact Same.error _ _

theorem unary (narrow : d.Narrow) (op : UnOp) :
    Same Datum.Narrow (Datum.unary op d) (Datum.unary op d) := by
  cases narrow with
  | bool b =>
    cases op with
    | not => exact Same.ok (.bool _)
    | neg | ptrMetadata => exact Same.error _ _
  | int z narrow =>
    cases op with
    | not | neg => exact Same.ok (.int _ narrow)
    | ptrMetadata => exact Same.error _ _
  | tuple each => cases op <;> exact Same.error _ _

/-- Below 128 bits the interpreter's flags are Rust's. -/
theorem overflowSeen_eq (narrow : k.narrow = true) (z : Int) : k.overflowSeen z = k.overflows z := by
  rw [IntKind.overflowSeen, ← IntKind.narrow, narrow, Bool.true_and]

theorem ints (narrow : k.narrow = true) (a b : Int) (op : BinOp) :
    Same (fun result => Datum.Narrow result.1) (Datum.ints IntKind.overflows k a b op)
      (Datum.ints IntKind.overflowSeen k a b op) := by
  cases op with
  | add | addUnchecked | sub | subUnchecked | mul | mulUnchecked =>
    simp only [Datum.ints, overflowSeen_eq narrow]
    exact Same.ok (.int _ narrow)
  | div | rem =>
    simp only [Datum.ints]
    split
    · exact Same.error _ _
    · exact Same.ok (.int _ narrow)
  | bitAnd | bitOr | bitXor | shl | shlUnchecked | shr | shrUnchecked =>
    exact Same.ok (.int _ narrow)
  | eq | ne | lt | le | gt | ge => exact Same.ok (.bool _)
  | cmp | offset => exact Same.error _ _

theorem binary (first : d.Narrow) (second : e.Narrow) (op : BinOp) :
    Same (fun result => Datum.Narrow result.1) (Datum.binary IntKind.overflows op d e)
      (Datum.binary IntKind.overflowSeen op d e) := by
  cases first with
  | bool a =>
    cases second with
    | bool b =>
      cases op with
      | eq | ne | bitAnd | bitOr | bitXor => exact Same.ok (.bool _)
      | _ => exact Same.error _ _
    | int | tuple => exact Same.error _ _
  | @int a k narrow =>
    cases second with
    | int b narrow' =>
      simp only [Datum.binary]
      split
      · exact ints narrow _ _ op
      · exact Same.error _ _
    | bool | tuple => exact Same.error _ _
  | tuple => cases second <;> exact Same.error _ _

end Datum.Narrow

namespace Store.Narrow

theorem load (narrow : store.Narrow) (place : Place) :
    Same Datum.Narrow (store.load place) (store.load place) := by
  unfold Store.load
  cases here : store[place.base]? with
  | none => exact Same.error _ _
  | some slot =>
    cases slot with
    | none => exact Same.error _ _
    | some d =>
      refine Except.Agree.foldlM place.projection ?_ ⟨rfl, narrow _ _ here⟩
      rintro p - c _ ⟨rfl, narrow⟩
      exact narrow.project p

theorem operand (narrow : store.Narrow) {o : Operand} (fits : o.narrow = true) :
    Same Datum.Narrow (store.operand o) (store.operand o) := by
  cases o with
  | copy place | move place => exact narrow.load place
  | runtimeChecks overflowChecks => exact Same.ok (.bool _)
  | constant konst =>
    rcases konst with ⟨_ | ty, readUint⟩ | debug
    · cases readUint with
      | error why => exact Same.error _ _
      | ok raw => exact Same.ok (.bool _)
    · simp only [Store.operand, Const.meaning]
      cases kind : intKind ty with
      | none => exact Same.error _ _
      | some k =>
        cases readUint with
        | error why => exact Same.error _ _
        | ok raw => exact Same.ok (.int _ (Ty.narrow_kind fits kind))
    · exact Same.error _ _

/-! ### Statements -/

theorem rvalue (narrow : store.Narrow) {rv : Rvalue} (fits : rv.narrow = true) :
    Same Datum.Narrow (store.rvalue IntKind.overflows rv)
      (store.rvalue IntKind.overflowSeen rv) := by
  cases rv with
  | use o => exact narrow.operand fits
  | binaryOp op lhs rhs =>
    obtain ⟨left, right⟩ := Bool.and_eq_true_iff.mp fits
    refine (narrow.operand left).bind ?_
    rintro d _ ⟨rfl, first⟩
    refine (narrow.operand right).bind ?_
    rintro e _ ⟨rfl, second⟩
    refine (first.binary second op).bind ?_
    rintro result _ ⟨rfl, holds⟩
    exact Same.ok holds
  | checkedBinaryOp op lhs rhs =>
    obtain ⟨left, right⟩ := Bool.and_eq_true_iff.mp fits
    refine (narrow.operand left).bind ?_
    rintro d _ ⟨rfl, first⟩
    refine (narrow.operand right).bind ?_
    rintro e _ ⟨rfl, second⟩
    refine (first.binary second op).bind ?_
    rintro result _ ⟨rfl, holds⟩
    refine Same.ok (.tuple ?_)
    simp only [List.forall_mem_cons, List.not_mem_nil, false_imp_iff, implies_true, and_true]
    exact ⟨holds, .bool _⟩
  | unaryOp op o =>
    refine (narrow.operand fits).bind ?_
    rintro d _ ⟨rfl, holds⟩
    exact holds.unary op
  | cast o ty =>
    obtain ⟨operand, target⟩ := Bool.and_eq_true_iff.mp fits
    refine (narrow.operand operand).bind ?_
    rintro d _ ⟨rfl, -⟩
    exact Datum.Narrow.cast target
  | aggregate operands =>
    refine (Except.Agree.mapM operands fun o member =>
      narrow.operand (List.all_eq_true.mp fits o member)).bind ?_
    intro parts parts' each
    obtain ⟨rfl, narrow⟩ := Same.of_each each
    exact Same.ok (.tuple narrow)
  | copyForDeref place => exact narrow.load place
  | other debug => exact Same.error _ _

theorem set (narrow : store.Narrow) (i : Nat) (holds : d.Narrow) :
    Store.Narrow (store.set i (some d)) := by
  intro j e here
  rw [List.getElem?_set] at here
  split at here
  · split at here
    · obtain rfl := Option.some.inj (Option.some.inj here)
      exact holds
    · cases here
  · exact narrow _ _ here

theorem assign (narrow : store.Narrow) (place : Place) (holds : d.Narrow) :
    Same Store.Narrow (store.assign place d) (store.assign place d) := by
  unfold Store.assign
  split
  · exact Same.ok (narrow.set _ holds)
  next parts index here _ =>
    split
    · refine Same.ok (narrow.set _ (.tuple ?_))
      intro e member
      cases narrow _ _ here with
      | tuple each =>
        rcases List.mem_or_eq_of_mem_set member with old | rfl
        · exact each e old
        · exact holds
    · exact Same.error _ _
  all_goals exact Same.error _ _

theorem statement (narrow : store.Narrow) {st : Statement} (fits : st.narrow = true) :
    Same Store.Narrow (store.statement IntKind.overflows st)
      (store.statement IntKind.overflowSeen st) := by
  cases st with
  | assign place rv =>
    refine (narrow.rvalue fits).bind ?_
    rintro d _ ⟨rfl, holds⟩
    exact narrow.assign place holds
  | other debug => exact Same.error _ _
  | _ => exact Same.ok narrow

end Store.Narrow

end Riri.Mir
