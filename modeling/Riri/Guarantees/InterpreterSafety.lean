import Riri.Guarantees.InterpreterMeaning
import Mathlib.Data.Finset.Insert
import Mathlib.Tactic.IntervalCases

/-!
# Checked bodies do not go wrong

The compiler hands over bodies whose operands have the types their operators want and whose locals
are set before they are read. A certificate of that is a shape for each local and, for each block,
the locals that are set when control comes to it. A body that has one never ends in a failure of
the interpreter's own: it returns a value of the return place's shape, or fails with what one of
its own operations says, or is given up.
-/
namespace Riri.Mir

inductive Shape where
  | bool
  | int (kind : IntKind)
  | tuple (parts : List Shape)

inductive Datum.HasShape : Datum → Shape → Prop where
  | bool (b : Bool) : HasShape (.bool b) .bool
  | int (z : Int) (k : IntKind) : HasShape (.int z k) (.int k)
  | tuple {parts : List Datum} {shapes : List Shape} (each : List.Forall₂ HasShape parts shapes) :
      HasShape (.tuple parts) (.tuple shapes)

namespace Shape

def project : Shape → Projection → Option Shape
  | .tuple parts, .field index => parts[index]?
  | _, _ => none

def binary (op : BinOp) : Shape → Shape → Option Shape
  | .bool, .bool => if op ∈ [.eq, .ne, .bitAnd, .bitOr, .bitXor] then some .bool else none
  | .int k, .int k' =>
    if op.shift then some (.int k)
    else if k ≠ k' ∨ op ∈ [.cmp, .offset] then none
    else if op ∈ [.eq, .ne, .lt, .le, .gt, .ge] then some .bool
    else some (.int k)
  | _, _ => none

def unary : UnOp → Shape → Option Shape
  | .not, .bool => some .bool
  | .not, .int k | .neg, .int k => some (.int k)
  | _, _ => none

def cast (ty : Ty) : Shape → Option Shape
  | .bool | .int _ => (intKind ty).map .int
  | .tuple _ => none

end Shape

def Place.shape (shapes : List Shape) (place : Place) : Option Shape := do
  let shape ← shapes[place.base]?
  place.projection.foldlM Shape.project shape

def Const.shape : Const → Option Shape
  | .allocated .bool (.ok _) => some .bool
  | .allocated (.scalar ty) (.ok _) => (intKind ty).map .int
  | _ => none

namespace Operand

def shape (shapes : List Shape) : Operand → Option Shape
  | .copy place | .move place => place.shape shapes
  | .constant konst => konst.shape
  | .runtimeChecks _ => some .bool

def reads : Operand → List Nat
  | .copy place | .move place => [place.base]
  | .constant _ | .runtimeChecks _ => []

end Operand

namespace Rvalue

def shape (shapes : List Shape) : Rvalue → Option Shape
  | .use o => o.shape shapes
  | .binaryOp op lhs rhs => do
    let lhs ← lhs.shape shapes
    let rhs ← rhs.shape shapes
    Shape.binary op lhs rhs
  | .checkedBinaryOp op lhs rhs => do
    let lhs ← lhs.shape shapes
    let rhs ← rhs.shape shapes
    let result ← Shape.binary op lhs rhs
    return .tuple [result, .bool]
  | .unaryOp op o => do
    let o ← o.shape shapes
    Shape.unary op o
  | .cast o ty => do
    let o ← o.shape shapes
    Shape.cast ty o
  | .aggregate operands => do
    let parts ← operands.mapM (Operand.shape shapes)
    return .tuple parts
  | .copyForDeref place => place.shape shapes
  | .other _ => none

def reads : Rvalue → List Nat
  | .use o | .unaryOp _ o | .cast o _ => o.reads
  | .binaryOp _ lhs rhs | .checkedBinaryOp _ lhs rhs => lhs.reads ++ rhs.reads
  | .aggregate operands => operands.flatMap Operand.reads
  | .copyForDeref place => [place.base]
  | .other _ => []

def op? : Rvalue → Option BinOp
  | .binaryOp op _ _ | .checkedBinaryOp op _ _ => some op
  | _ => none

end Rvalue

namespace Statement

def sets (init : Finset Nat) : Statement → Finset Nat
  | .assign place _ => insert place.base init
  | _ => init

/-- A statement the interpreter has a meaning for: it reads what is set, and stores a value of the
shape its place has. A field can be stored in a local that is set. -/
def Fits (shapes : List Shape) (init : Finset Nat) : Statement → Prop
  | .assign place rv =>
    (∀ i ∈ rv.reads, i ∈ init) ∧
      (∃ shape, rv.shape shapes = some shape ∧ place.shape shapes = some shape) ∧
      (place.projection = [] ∨ place.base ∈ init ∧ ∃ index, place.projection = [.field index])
  | .other _ => False
  | _ => True

end Statement

namespace Terminator

def targets : Terminator → List Nat
  | .goto target | .assert _ _ target _ => [target]
  | .switchInt _ branches otherwise => otherwise :: branches.map Prod.snd
  | _ => []

/-- What a terminator looks at is set and has a shape it can look at, and a return finds the return
place set. -/
def Fits (shapes : List Shape) (init : Finset Nat) : Terminator → Prop
  | .goto _ | .unreachable => True
  | .return => 0 ∈ init
  | .switchInt discr _ _ =>
    (∀ i ∈ discr.reads, i ∈ init) ∧
      (discr.shape shapes = some .bool ∨ ∃ k, discr.shape shapes = some (.int k))
  | .assert cond _ _ _ => (∀ i ∈ cond.reads, i ∈ init) ∧ cond.shape shapes = some .bool
  | .call _ | .other _ => False

end Terminator

namespace BasicBlock

/-- The locals that are set before each statement fit it, and those set at the end the terminator. -/
def Fits (shapes : List Shape) (terminator : Terminator) : Finset Nat → List Statement → Prop
  | init, [] => terminator.Fits shapes init
  | init, st :: rest => st.Fits shapes init ∧ Fits shapes terminator (st.sets init) rest

def leaves (init : Finset Nat) (bb : BasicBlock) : Finset Nat :=
  bb.statements.foldl Statement.sets init

end BasicBlock

/-- What the compiler has checked of a body: the shape of each local, and which are set where
control comes to a block. -/
structure Certificate (body : Body) where
  shapes : List Shape
  entry : Nat → Finset Nat
  length : shapes.length = body.locals
  start : entry 0 = ∅
  first : 0 < body.blocks.length
  fits : ∀ {l : Nat} {bb : BasicBlock}, body.blocks[l]? = some bb →
    BasicBlock.Fits shapes bb.terminator (entry l) bb.statements
  jumps : ∀ {l : Nat} {bb : BasicBlock} {target : Nat}, body.blocks[l]? = some bb → target ∈ bb.terminator.targets →
    target < body.blocks.length ∧ entry target ⊆ bb.leaves (entry l)

/-- What a body's own operations say when they stop it. -/
inductive Body.Says (body : Body) : String → Prop where
  | divides {bb : BasicBlock} {place : Place} {rv : Rvalue} (block : bb ∈ body.blocks)
      (st : .assign place rv ∈ bb.statements) (op : rv.op? = some .div) :
      Says body "division by zero"
  | remains {bb : BasicBlock} {place : Place} {rv : Rvalue} (block : bb ∈ body.blocks)
      (st : .assign place rv ∈ bb.statements) (op : rv.op? = some .rem) :
      Says body "remainder by zero"
  | asserts {bb : BasicBlock} {cond : Operand} {expected : Bool} {target : Nat}
      {msg : AssertMessage} (block : bb ∈ body.blocks)
      (terminator : bb.terminator = .assert cond expected target msg) : Says body msg.why
  | unreachable {bb : BasicBlock} (block : bb ∈ body.blocks)
      (terminator : bb.terminator = .unreachable) : Says body "reached unreachable"

def Fault.Within (messages : String → Prop) : Fault → Prop
  | .panic message => messages message
  | .unsupported _ | .stuck => False

/-- The store has a value of its shape for each local that is set, and no other value elsewhere. -/
structure Store.Typed (shapes : List Shape) (init : Finset Nat) (store : Store) : Prop where
  length : store.length = shapes.length
  shaped : ∀ {i : Nat} {d : Datum} {shape : Shape}, store[i]? = some (some d) →
    shapes[i]? = some shape → d.HasShape shape
  set : ∀ {i : Nat}, i ∈ init → i < shapes.length → ∃ d, store[i]? = some (some d)

variable {shapes : List Shape} {init : Finset Nat} {store : Store} {P : Fault → Prop}
  {shape : Shape} {d e : Datum} {flag : IntKind → Int → Bool}

/-! ### Places and operands -/

theorem Datum.HasShape.project {projection : Projection} {inner : Shape} (has : d.HasShape shape)
    (known : shape.project projection = some inner) :
    (d.project projection).Satisfies P fun part => part.HasShape inner := by
  cases has with
  | bool | int => cases known
  | tuple each =>
    cases projection with
    | other => cases known
    | field index =>
      rcases each.lookup index with ⟨-, none⟩ | ⟨x, y, here, there, has⟩
      · cases none.symm.trans known
      · obtain rfl := Option.some.inj (there.symm.trans known)
        simp only [Datum.project, here]
        exact has

theorem Datum.HasShape.projects {projection : List Projection} {inner : Shape}
    (has : d.HasShape shape) (known : projection.foldlM Shape.project shape = some inner) :
    (projection.foldlM Datum.project d).Satisfies P fun part => part.HasShape inner := by
  induction projection generalizing d shape with
  | nil =>
    obtain rfl := Option.some.inj known
    exact has
  | cons p rest ih =>
    rw [List.foldlM_cons] at known ⊢
    obtain ⟨next, first, known⟩ := Option.bind_eq_some_iff.mp known
    exact (has.project first).bind fun part has => ih has known

namespace Store.Typed

theorem load (typed : store.Typed shapes init) {place : Place} (known : place.shape shapes = some shape)
    (set : place.base ∈ init) :
    (store.load place).Satisfies P fun d => d.HasShape shape := by
  obtain ⟨whole, base, inner⟩ := Option.bind_eq_some_iff.mp known
  obtain ⟨d, here⟩ := typed.set set (List.getElem?_eq_some_iff.mp base).1
  simp only [Store.load, here]
  exact (typed.shaped here base).projects inner

theorem operand (typed : store.Typed shapes init) {o : Operand} (known : o.shape shapes = some shape)
    (set : ∀ i ∈ o.reads, i ∈ init) :
    (store.operand o).Satisfies P fun d => d.HasShape shape := by
  cases o with
  | copy place | move place => exact typed.load known (set _ (by simp [Operand.reads]))
  | constant konst =>
    rcases konst with ⟨_ | ty, _ | raw⟩ | debug
    · cases known
    · obtain rfl := Option.some.inj known
      exact .bool _
    · cases known
    · obtain ⟨k, kind, rfl⟩ := Option.map_eq_some_iff.mp known
      simp only [Store.operand, Const.meaning, kind]
      exact .int _ k
    · cases known
  | runtimeChecks overflowChecks =>
    obtain rfl := Option.some.inj known
    exact .bool _

end Store.Typed

/-! ### Operators -/

theorem Datum.HasShape.binary {op : BinOp} {left right : Shape} (first : d.HasShape left)
    (second : e.HasShape right) (known : Shape.binary op left right = some shape)
    (divides : op = .div → P (.panic "division by zero"))
    (remains : op = .rem → P (.panic "remainder by zero")) :
    (Datum.binary flag op d e).Satisfies P fun result => result.1.HasShape shape := by
  cases first with
  | bool a =>
    cases second with
    | bool b =>
      cases op <;> first
        | (obtain rfl := Option.some.inj known; exact .bool _)
        | cases known
    | int | tuple => cases known
  | int x k =>
    cases second with
    | int y k' =>
      cases op
      case shl | shlUnchecked | shr | shrUnchecked =>
        obtain rfl := Option.some.inj known
        exact .int _ k
      case cmp | offset => simp [Shape.binary, BinOp.shift] at known
      all_goals
        by_cases same : k = k'
        · subst same
          simp [Shape.binary, BinOp.shift] at known
          subst known
          simp only [Datum.binary, Datum.ints, or_true, if_true]
          first
            | exact .int _ k
            | exact .bool _
            | (split
               · first | exact divides rfl | exact remains rfl
               · exact .int _ k)
        · simp [Shape.binary, BinOp.shift, same] at known
    | bool | tuple => cases known
  | tuple => cases second <;> cases known

theorem Datum.HasShape.unary {op : UnOp} {inner : Shape} (has : d.HasShape inner)
    (known : Shape.unary op inner = some shape) :
    (Datum.unary op d).Satisfies P fun result => result.HasShape shape := by
  cases has <;> cases op <;> first
    | (obtain rfl := Option.some.inj known; constructor)
    | cases known

theorem Datum.HasShape.cast {ty : Ty} {inner : Shape} (has : d.HasShape inner)
    (known : Shape.cast ty inner = some shape) :
    (d.cast ty).Satisfies P fun result => result.HasShape shape := by
  unfold Datum.cast
  cases has with
  | bool b | int z k =>
    obtain ⟨k', kind, rfl⟩ := Option.map_eq_some_iff.mp known
    rw [kind]
    exact .int _ k'
  | tuple => cases known

/-! ### Statements -/

namespace Store.Typed

theorem operands (typed : store.Typed shapes init) {os : List Operand} {parts : List Shape}
    (known : os.mapM (Operand.shape shapes) = some parts)
    (set : ∀ i ∈ os.flatMap Operand.reads, i ∈ init) :
    (os.mapM store.operand).Satisfies P fun data => List.Forall₂ Datum.HasShape data parts := by
  induction os generalizing parts with
  | nil =>
    obtain rfl := Option.some.inj known
    exact .nil
  | cons o os ih =>
    rw [List.mapM_cons] at known ⊢
    obtain ⟨first, here, known⟩ := Option.bind_eq_some_iff.mp known
    obtain ⟨rest, there, known⟩ := Option.bind_eq_some_iff.mp known
    obtain rfl := Option.some.inj known
    refine (typed.operand here fun i member => set i (by simp [member])).bind fun d has => ?_
    refine (ih there fun i member => set i ?_).bind fun data each => .cons has each
    rw [List.flatMap_cons]
    exact List.mem_append_right _ member

theorem rvalue (typed : store.Typed shapes init) {rv : Rvalue} (known : rv.shape shapes = some shape)
    (set : ∀ i ∈ rv.reads, i ∈ init)
    (divides : rv.op? = some .div → P (.panic "division by zero"))
    (remains : rv.op? = some .rem → P (.panic "remainder by zero")) :
    (store.rvalue flag rv).Satisfies P fun d => d.HasShape shape := by
  cases rv with
  | use o => exact typed.operand known set
  | binaryOp op lhs rhs =>
    obtain ⟨left, first, known⟩ := Option.bind_eq_some_iff.mp known
    obtain ⟨right, second, known⟩ := Option.bind_eq_some_iff.mp known
    refine (typed.operand first fun i member => set i (List.mem_append_left _ member)).bind
      fun d one => ?_
    refine (typed.operand second fun i member => set i (List.mem_append_right _ member)).bind
      fun e other => ?_
    exact (one.binary other known (fun same => divides (congrArg some same))
      fun same => remains (congrArg some same)).bind fun result has => has
  | checkedBinaryOp op lhs rhs =>
    obtain ⟨left, first, known⟩ := Option.bind_eq_some_iff.mp known
    obtain ⟨right, second, known⟩ := Option.bind_eq_some_iff.mp known
    obtain ⟨inner, operator, known⟩ := Option.bind_eq_some_iff.mp known
    obtain rfl := Option.some.inj known
    refine (typed.operand first fun i member => set i (List.mem_append_left _ member)).bind
      fun d one => ?_
    refine (typed.operand second fun i member => set i (List.mem_append_right _ member)).bind
      fun e other => ?_
    refine (one.binary other operator (fun same => divides (congrArg some same))
      fun same => remains (congrArg some same)).bind fun result has => ?_
    exact .tuple (.cons has (.cons (.bool _) .nil))
  | unaryOp op o =>
    obtain ⟨inner, first, known⟩ := Option.bind_eq_some_iff.mp known
    exact (typed.operand first set).bind fun d has => has.unary known
  | cast o ty =>
    obtain ⟨inner, first, known⟩ := Option.bind_eq_some_iff.mp known
    exact (typed.operand first set).bind fun d has => has.cast known
  | aggregate os =>
    obtain ⟨parts, each, known⟩ := Option.bind_eq_some_iff.mp known
    obtain rfl := Option.some.inj known
    exact (typed.operands each set).bind fun data has => .tuple has
  | copyForDeref place => exact typed.load known (set _ (by simp [Rvalue.reads]))
  | other => cases known

/-- Replacing the value of a local by one of its shape sets the local. -/
theorem replaced (typed : store.Typed shapes init) {i : Nat} (known : shapes[i]? = some shape)
    (has : d.HasShape shape) : Store.Typed shapes (insert i init) (store.set i (some d)) where
  length := by rw [List.length_set, typed.length]
  shaped := by
    intro j e shape' here there
    rw [List.getElem?_set] at here
    split at here
    next same =>
      subst same
      obtain rfl := Option.some.inj (known.symm.trans there)
      split at here
      · obtain rfl := Option.some.inj (Option.some.inj here)
        exact has
      · cases here
    · exact typed.shaped here there
  set := by
    intro j member inside
    rw [List.getElem?_set]
    split
    next same =>
      subst same
      rw [if_pos (typed.length ▸ inside)]
      exact ⟨d, rfl⟩
    next other => exact typed.set (Finset.mem_of_mem_insert_of_ne member (Ne.symm other)) inside

theorem assign (typed : store.Typed shapes init) {place : Place}
    (known : place.shape shapes = some shape) (has : d.HasShape shape)
    (target : place.projection = [] ∨
      place.base ∈ init ∧ ∃ index, place.projection = [.field index]) :
    (store.assign place d).Satisfies P fun after => after.Typed shapes (insert place.base init) := by
  obtain ⟨whole, base, inner⟩ := Option.bind_eq_some_iff.mp known
  have inside := (List.getElem?_eq_some_iff.mp base).1
  rcases target with plain | ⟨set, index, field⟩
  · rw [plain] at inner
    obtain rfl := Option.some.inj inner
    obtain ⟨old, here⟩ : ∃ old, store[place.base]? = some old :=
      ⟨_, List.getElem?_eq_getElem (typed.length ▸ inside)⟩
    simp only [Store.assign, here, plain]
    exact typed.replaced base has
  · obtain ⟨old, here⟩ := typed.set set inside
    have shaped := typed.shaped here base
    rw [field] at inner
    cases shaped with
    | bool | int => cases inner
    | @tuple parts inners each =>
      obtain ⟨part, found, inner⟩ := Option.bind_eq_some_iff.mp inner
      obtain rfl := Option.some.inj inner
      have within : index < parts.length := by
        rw [each.length_eq]
        exact (List.getElem?_eq_some_iff.mp found).1
      simp only [Store.assign, here, field, if_pos within]
      refine typed.replaced base (.tuple ?_)
      obtain ⟨same, rfl⟩ := List.getElem?_eq_some_iff.mp found
      have updated := each.set index has
      rwa [List.set_getElem_self] at updated

theorem statement (typed : store.Typed shapes init) {st : Statement} (fits : st.Fits shapes init)
    (divides : ∀ place rv, st = .assign place rv → rv.op? = some .div →
      P (.panic "division by zero"))
    (remains : ∀ place rv, st = .assign place rv → rv.op? = some .rem →
      P (.panic "remainder by zero")) :
    (store.statement flag st).Satisfies P fun after => after.Typed shapes (st.sets init) := by
  cases st with
  | assign place rv =>
    obtain ⟨set, ⟨shape, value, known⟩, target⟩ := fits
    exact (typed.rvalue value set (divides place rv rfl) (remains place rv rfl)).bind
      fun d has => typed.assign known has target
  | other => cases fits
  | _ => exact typed

theorem statements (typed : store.Typed shapes init) {terminator : Terminator}
    {sts : List Statement} (fits : BasicBlock.Fits shapes terminator init sts)
    (divides : ∀ place rv, .assign place rv ∈ sts → rv.op? = some .div →
      P (.panic "division by zero"))
    (remains : ∀ place rv, .assign place rv ∈ sts → rv.op? = some .rem →
      P (.panic "remainder by zero")) :
    (sts.foldlM (Store.statement flag) store).Satisfies P fun after =>
      after.Typed shapes (sts.foldl Statement.sets init) ∧
        terminator.Fits shapes (sts.foldl Statement.sets init) := by
  induction sts generalizing store init with
  | nil => exact ⟨typed, fits⟩
  | cons st rest ih =>
    rw [List.foldlM_cons, List.foldl_cons]
    refine (typed.statement fits.1 (fun place rv same => divides place rv (by simp [same]))
      fun place rv same => remains place rv (by simp [same])).bind fun after typed => ?_
    exact ih typed fits.2 (fun place rv member => divides place rv (List.mem_cons_of_mem _ member))
      fun place rv member => remains place rv (List.mem_cons_of_mem _ member)

theorem terminator (typed : store.Typed shapes init) {t : Terminator} (fits : t.Fits shapes init)
    (asserts : ∀ cond expected target msg, t = .assert cond expected target msg → P (.panic msg.why))
    (unreachable : t = .unreachable → P (.panic "reached unreachable")) :
    (store.terminator t).Satisfies P fun target =>
      (∀ l, target = some l → l ∈ t.targets) ∧ (target = none → 0 ∈ init) := by
  cases t with
  | goto target =>
    exact ⟨fun l same => by simp [Terminator.targets, Option.some.inj same], fun none => by cases none⟩
  | «return» => exact ⟨fun l some => by (cases some), fun _ => fits⟩
  | switchInt discr branches otherwise =>
    obtain ⟨set, known⟩ := fits
    have discriminant : (store.operand discr >>= Datum.discriminant).Satisfies P fun _ => True := by
      rcases known with known | ⟨k, known⟩
      · refine (typed.operand known set).bind fun d has => ?_
        cases has
        trivial
      · refine (typed.operand known set).bind fun d has => ?_
        cases has
        trivial
    change ((store.operand discr) >>= fun d => d.discriminant >>= fun z => _).Satisfies P _
    rw [← bind_assoc]
    refine discriminant.bind fun z _ => ⟨fun l same => ?_, fun none => by cases none⟩
    rw [← Option.some.inj same, Terminator.targets]
    cases found : branches.find? fun branch => decide ((branch.1.toNat : Int) = z) with
    | none => simp
    | some branch =>
      refine List.mem_cons_of_mem _ (List.mem_map.mpr ⟨branch, List.mem_of_find?_eq_some found, ?_⟩)
      simp
  | assert cond expected target msg =>
    refine (typed.operand fits.2 fits.1).bind fun d has => ?_
    cases has with
    | bool held =>
      simp only
      split
      · exact ⟨fun l same => by simp [Terminator.targets, Option.some.inj same],
          fun none => by cases none⟩
      · exact asserts cond expected target msg rfl
  | unreachable => exact unreachable rfl
  | call | other => cases fits

end Store.Typed

/-! ### Bodies -/

namespace Certificate

variable {body : Body}

def At (certificate : Certificate body) (l : Nat) (store : Store) : Prop :=
  l < body.blocks.length ∧ store.Typed certificate.shapes (certificate.entry l)

theorem block (certificate : Certificate body) {l : Nat} {store : Store}
    (at_ : certificate.At l store) :
    ((body.meaning flag).block l store).Satisfies (Fault.Within body.Says) fun after =>
      (∀ target, after.2 = some target → certificate.At target after.1) ∧
        (after.2 = none → ∃ d, (body.meaning flag).result after.1 = some d ∧
          ∀ shape, certificate.shapes.head? = some shape → d.HasShape shape) := by
  obtain ⟨inside, typed⟩ := at_
  obtain ⟨bb, here⟩ : ∃ bb, body.blocks[l]? = some bb := ⟨_, List.getElem?_eq_getElem inside⟩
  have member : bb ∈ body.blocks := List.mem_of_getElem? here
  simp only [Body.meaning, here, Option.elim_some]
  refine (typed.statements (certificate.fits here)
    (fun place rv st op => Body.Says.divides member st op)
    (fun place rv st op => Body.Says.remains member st op)).bind fun after typed => ?_
  refine (typed.1.terminator typed.2
    (fun cond expected target msg same => Body.Says.asserts member same)
    (fun same => Body.Says.unreachable member same)).bind fun target control => ⟨?_, ?_⟩
  · intro l' same
    obtain ⟨inside', subset⟩ := certificate.jumps here (control.1 l' same)
    exact ⟨inside', typed.1.length, typed.1.shaped, fun set => typed.1.set (subset set)⟩
  · intro ended
    have pos : 0 < certificate.shapes.length := certificate.length ▸ body.locals_pos
    obtain ⟨d, found⟩ := typed.1.set (control.2 ended) pos
    refine ⟨d, ?_, fun shape head => typed.1.shaped found (List.head?_eq_getElem? ▸ head)⟩
    rw [List.headD_eq_head?_getD, List.head?_eq_getElem?, found]
    rfl

theorem start_at (certificate : Certificate body) : certificate.At 0 body.start := by
  refine ⟨certificate.first, ?_, ?_, ?_⟩
  · rw [Body.start, List.length_replicate, certificate.length]
  · intro i d shape here
    simp [Body.start, List.getElem?_replicate] at here
  · intro i member
    rw [certificate.start] at member
    cases Finset.notMem_empty i member

end Certificate

/-- A run of a body with a certificate returns a value of the return place's shape, or stops with
what one of the body's own operations says, or is given up. -/
theorem checked_bodies_safe (body : Body) (certificate : Certificate body) :
    (∃ v d, Interp.run body = .ok v ∧ v.Denotes d ∧
      ∀ shape, certificate.shapes.head? = some shape → d.HasShape shape) ∨
    ∃ text, Interp.run body = .error text ∧ (body.Says text ∨ text = gaveUp) := by
  have ran : Interp.run body = body.interpreted.run gaveUp STEP_LIMIT 0 _ := execute_eq body ..
  rw [ran]
  rcases Flowchart.run_simulates (blocks_agree body) (results_agree body)
    (List.Forall₂.replicate body.locals Slot.unset) with ⟨n, -, r, ends, agrees⟩ | ⟨-, gives_up⟩
  · have safe : r.Satisfies (Fault.Within body.Says) fun od =>
        ∃ d, od = some d ∧ ∀ shape, certificate.shapes.head? = some shape → d.HasShape shape := by
      refine ends.satisfies (I := certificate.At) (fun l s e at_ here => ?_)
        (fun l s s' at_ here => ?_) (fun l s l' s' at_ here => ?_) certificate.start_at
      all_goals
        have block := @Certificate.block IntKind.overflowSeen body certificate _ _ at_
        rw [here] at block
      · exact block
      · exact block.2 rfl
      · exact block.1 l' rfl
    generalize Flowchart.run _ _ _ _ _ = outcome at agrees
    cases agrees with
    | @ok v od slot =>
      obtain ⟨d, rfl, has⟩ := safe
      cases slot with
      | set denotes => exact .inl ⟨v, d, rfl, denotes, has⟩
    | error tells =>
      cases tells with
      | panic => exact .inr ⟨_, rfl, .inl safe⟩
      | unsupported | stuck => cases safe
  · exact .inr ⟨gaveUp, gives_up, .inr rfl⟩

def climbing_certificate : Certificate climbing where
  shapes := [.int ⟨8, false⟩, .int ⟨8, false⟩, .tuple [.int ⟨8, false⟩, .bool]]
  entry := fun l => if l = 0 then ∅ else if l = 1 then {1} else {1, 2}
  length := rfl
  start := rfl
  first := by decide
  fits := by
    intro l bb here
    have inside : l < 3 := (List.getElem?_eq_some_iff.mp here).1
    interval_cases l <;> obtain rfl := Option.some.inj here
    · exact ⟨⟨by decide, ⟨_, rfl, rfl⟩, .inl rfl⟩, trivial⟩
    · exact ⟨⟨by decide, ⟨_, rfl, rfl⟩, .inl rfl⟩, by decide, rfl⟩
    · exact ⟨⟨by decide, ⟨_, rfl, rfl⟩, .inl rfl⟩, trivial⟩
  jumps := by
    intro l bb target here member
    have inside : l < 3 := (List.getElem?_eq_some_iff.mp here).1
    interval_cases l <;> obtain rfl := Option.some.inj here <;>
      obtain rfl := List.mem_singleton.mp member <;> exact ⟨by decide, by decide⟩

theorem checked_bodies_safe_climbing :
    (∃ v d, Interp.run climbing = .ok v ∧ v.Denotes d ∧
      ∀ shape, climbing_certificate.shapes.head? = some shape → d.HasShape shape) ∨
    ∃ text, Interp.run climbing = .error text ∧ (climbing.Says text ∨ text = gaveUp) :=
  checked_bodies_safe climbing climbing_certificate

example : Interp.run climbing = .error "attempt to add with overflow" := by rfl

end Riri.Mir
