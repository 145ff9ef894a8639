import Riri.Mir.Narrow
import Riri.Mir.Operators

/-!
# The interpreter computes what a body means

The interpreter keeps every scalar as 128 bits and masks what it makes of them, for at most a
million blocks. Against the meaning of a body, which has integers and no limit, every run agrees:
where the body ends within the limit the interpreter ends the same way, and where it does not the
interpreter gives up. That is Rust's meaning but for the overflow flags at 128 bits.
-/
namespace Riri.Mir

/-- A local as the interpreter has it, and as the meaning has it. -/
inductive Slot : Value → Option Datum → Prop where
  | unset : Slot .uninit none
  | set {v : Value} {d : Datum} (denotes : v.Denotes d) : Slot v (some d)

abbrev Holds : List Value → Store → Prop := List.Forall₂ Slot

variable {locals : List Value} {store : Store}

/-! ### Places -/

theorem project_agree (projection : Projection) {v : Value} {d : Datum} (denotes : v.Denotes d) :
    Agrees Value.Denotes (Interp.project v projection) (d.project projection) := by
  cases projection with
  | other debug => cases denotes <;> exact agrees_unsupported _
  | field index =>
    cases denotes with
    | tuple each =>
      simp only [Interp.project, Datum.project]
      rcases each.lookup index with ⟨left, right⟩ | ⟨x, y, left, right, denotes⟩
      · rw [left, right]
        exact agrees_stuck _
      · rw [left, right]
        exact .ok denotes
    | bool | int => exact agrees_stuck _

/-- Nothing can be taken of a local that is not set. -/
theorem foldlM_project_uninit (projection : List Projection) :
    projection = [] ∨ ∃ text, projection.foldlM Interp.project .uninit = .error text := by
  cases projection with
  | nil => exact .inl rfl
  | cons p rest => cases p <;> exact .inr ⟨_, rfl⟩

theorem load_agree (holds : Holds locals store) (place : Place) :
    Agrees Value.Denotes (Interp.load locals place) (store.load place) := by
  unfold Interp.load Store.load
  rcases holds.lookup place.base with ⟨left, right⟩ | ⟨v, d, left, right, slot⟩
  · rw [left, right]
    exact agrees_stuck _
  · rw [left, right]
    cases slot with
    | unset =>
      rcases foldlM_project_uninit place.projection with none | ⟨text, fails⟩
      · simp only [none, List.foldlM_nil]
        exact agrees_stuck _
      · simp only [fails]
        exact agrees_stuck _
    | @set v d denotes =>
      have taken : Agrees Value.Denotes (place.projection.foldlM Interp.project v)
          (place.projection.foldlM Datum.project d) :=
        Except.Agree.foldlM place.projection (fun p _ v d => project_agree p) denotes
      change Agrees _ (_ >>= _) (place.projection.foldlM Datum.project d)
      rw [← bind_pure (place.projection.foldlM Datum.project d)]
      refine taken.bind fun w e denotes => ?_
      cases denotes with
      | bool b => exact .ok (.bool b)
      | int built canonical => exact .ok (.int built canonical)
      | tuple each => exact .ok (.tuple each)

theorem store_agree (holds : Holds locals store) (place : Place) {v : Value} {d : Datum}
    (denotes : v.Denotes d) :
    Agrees Holds (Interp.store locals place v) (store.assign place d) := by
  unfold Interp.store Store.assign
  rcases holds.lookup place.base with ⟨left, right⟩ | ⟨old, was, left, right, slot⟩
  · rw [left, right]
    exact agrees_stuck _
  rw [left, right]
  rcases place.projection with _ | ⟨_ | _, _ | _⟩
  · exact .ok (holds.set _ (.set denotes))
  · cases slot with
    | unset => exact agrees_stuck _
    | set whole =>
      cases whole with
      | @tuple parts data each =>
        simp only [each.length_eq]
        split
        · exact .ok (holds.set _ (.set (.tuple (each.set _ denotes))))
        · exact agrees_stuck _
      | bool | int => exact agrees_stuck _
  all_goals
    cases slot with
    | unset => exact agrees_unsupported _
    | set whole => cases whole <;> exact agrees_unsupported _

/-! ### Statements and terminators -/

theorem constant_agree (konst : Const) :
    Agrees Value.Denotes (Interp.constant konst) konst.meaning := by
  rcases konst with ⟨_ | ty, readUint⟩ | debug
  · cases readUint with
    | error why => exact agrees_unsupported why
    | ok raw => exact .ok (.bool _)
  · cases kind : intKind ty with
    | none =>
      simp only [Interp.constant, Const.meaning, kind]
      exact agrees_unsupported _
    | some k =>
      simp only [Interp.constant, Const.meaning, kind]
      cases readUint with
      | error why => exact agrees_unsupported why
      | ok raw => exact .ok (denotes_ofInt ⟨ty, kind⟩ raw)
  · exact agrees_unsupported _

theorem operand_agree (holds : Holds locals store) (o : Operand) :
    Agrees Value.Denotes (Interp.operand locals o) (store.operand o) := by
  cases o with
  | copy place | move place => exact load_agree holds place
  | constant konst => exact constant_agree konst
  | runtimeChecks overflowChecks => exact .ok (.bool _)

theorem rvalue_agree (holds : Holds locals store) (rv : Rvalue) :
    Agrees Value.Denotes (Interp.rvalue locals rv) (store.rvalue IntKind.overflowSeen rv) := by
  cases rv with
  | use o => exact operand_agree holds o
  | binaryOp op lhs rhs =>
    refine (operand_agree holds lhs).bind fun v d first => ?_
    refine (operand_agree holds rhs).bind fun w e second => ?_
    exact (binary_agree op first second).bind fun _ _ result => .ok result.1
  | checkedBinaryOp op lhs rhs =>
    refine (operand_agree holds lhs).bind fun v d first => ?_
    refine (operand_agree holds rhs).bind fun w e second => ?_
    refine (binary_agree op first second).bind fun x y result => .ok ?_
    rw [result.2]
    exact .tuple (.cons result.1 (.cons (.bool _) .nil))
  | unaryOp op o => exact (operand_agree holds o).bind fun v d denotes => unary_agree op denotes
  | cast o ty => exact (operand_agree holds o).bind fun v d denotes => cast_agree ty denotes
  | aggregate operands =>
    refine (Except.Agree.mapM operands fun o _ => operand_agree holds o).bind ?_
    exact fun parts data each => .ok (.tuple each)
  | copyForDeref place => exact load_agree holds place
  | other debug => exact agrees_unsupported _

theorem statement_agree (holds : Holds locals store) (st : Statement) :
    Agrees Holds (Interp.statement locals st) (store.statement IntKind.overflowSeen st) := by
  cases st with
  | assign place rv =>
    exact (rvalue_agree holds rv).bind fun v d denotes => store_agree holds place denotes
  | other debug => exact agrees_unsupported _
  | _ => exact .ok holds

/-- What selects an arm is what the bits denote modulo two to the width. -/
theorem discriminant_agree {v : Value} {d : Datum} (denotes : v.Denotes d) :
    Agrees (fun raw z => (raw.toNat : Int) = z) v.discriminant d.discriminant := by
  cases denotes with
  | bool b => cases b <;> exact .ok rfl
  | int built canonical => exact .ok (built.sized.val_emod canonical).symm
  | tuple each => exact agrees_stuck _

theorem terminator_agree (holds : Holds locals store) (t : Terminator) :
    Agrees Eq (Interp.terminator locals t) (store.terminator t) := by
  cases t with
  | goto target | «return» => exact .ok rfl
  | switchInt discr branches otherwise =>
    refine (operand_agree holds discr).bind fun v d denotes => ?_
    refine (discriminant_agree denotes).bind fun raw z same => .ok ?_
    have arms : (fun branch : BitVec 128 × Nat => branch.1 == raw) =
        fun branch => decide ((branch.1.toNat : Int) = z) := by
      funext branch
      rw [← same, Bool.eq_iff_iff, beq_iff_eq, decide_eq_true_eq, Nat.cast_inj, BitVec.toNat_inj]
    rw [arms]
  | assert cond expected target msg =>
    refine (operand_agree holds cond).bind fun v d denotes => ?_
    cases denotes with
    | bool held =>
      change Agrees Eq (if held != expected then _ else _) (if held = expected then _ else _)
      by_cases same : held = expected
      · rw [if_neg (by simp [same]), if_pos same]
        exact .ok rfl
      · rw [if_pos (by simpa using same), if_neg same]
        exact .error (.panic _)
    | int | tuple => exact agrees_stuck _
  | call func | other debug => exact agrees_unsupported _
  | unreachable => exact .error (.panic _)

/-! ### Runs -/

/-- The interpreter's loop, as a flowchart over its locals. -/
def Body.interpreted (body : Body) : Flowchart Nat (List Value) Value String where
  block := fun l locals => (body.blocks[l]?).elim
    (.error ("jumped to bb" ++ toString l ++ ", which does not exist")) (Interp.basicBlock locals)
  result := fun locals => locals.headD .uninit

def gaveUp : String := "gave up after " ++ toString STEP_LIMIT ++ " steps"

theorem execute_eq (body : Body) (left block : Nat) (locals : List Value) :
    Interp.execute body left block locals = body.interpreted.run gaveUp left block locals := by
  induction left generalizing block locals with
  | zero => rfl
  | succ left ih =>
    simp only [Interp.execute, Flowchart.run, Body.interpreted]
    cases body.blocks[block]? with
    | none => rfl
    | some bb =>
      simp only [Option.elim_some]
      cases Interp.basicBlock locals bb with
      | error text => rfl
      | ok after =>
        obtain ⟨locals', target⟩ := after
        cases target with
        | none => rfl
        | some block' => exact ih block' locals'

theorem blocks_agree (body : Body) (l : Nat) (locals : List Value) (store : Store)
    (holds : Holds locals store) :
    Agrees (fun a b => Holds a.1 b.1 ∧ a.2 = b.2) (body.interpreted.block l locals)
      ((body.meaning IntKind.overflowSeen).block l store) := by
  simp only [Body.interpreted, Body.meaning]
  cases body.blocks[l]? with
  | none => exact agrees_stuck _
  | some bb =>
    refine Except.Agree.bind (Except.Agree.foldlM bb.statements
      (fun st _ locals store holds => statement_agree holds st) holds) fun locals store holds => ?_
    exact (terminator_agree holds bb.terminator).bind fun _ _ same => .ok ⟨holds, same⟩

theorem results_agree (body : Body) (locals : List Value) (store : Store)
    (holds : Holds locals store) :
    Slot (body.interpreted.result locals) ((body.meaning IntKind.overflowSeen).result store) := by
  cases holds with
  | nil => exact .unset
  | cons slot _ => exact slot

/-- A loop that adds one to a `u8` from 250 on, as the compiler checks it. -/
def climbing : Body where
  blocks :=
    [⟨[.assign ⟨1, [], "[]"⟩ (.use (.constant (.allocated (.scalar (.uint .u8)) (.ok 250))))], .goto 1⟩,
      ⟨[.assign ⟨2, [], "[]"⟩ (.checkedBinaryOp .add (.copy ⟨1, [], "[]"⟩)
          (.constant (.allocated (.scalar (.uint .u8)) (.ok 1))))],
        .assert (.move ⟨2, [.field 1], "[Field(1, bool)]"⟩) false 2
          ⟨some "attempt to add with overflow", "Overflow(Add, ..)"⟩⟩,
      ⟨[.assign ⟨1, [], "[]"⟩ (.use (.move ⟨2, [.field 0], "[Field(0, u8)]"⟩))], .goto 1⟩]
  locals := 3
  locals_pos := Nat.succ_pos 2

end Riri.Mir
