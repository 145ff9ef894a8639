import Riri.Run.Programs
import Riri.Run.Standing
import Riri.Source.Atomics

/-!
# Counting with atomics

`atomicAdd` and `atomicSub` wrap, so a kernel may count through zero or past the end and come
back, and the order of the threads does not matter. Here they add and subtract with the element
type's own operators, which panic where the exact result leaves the type. A counter is exact
under a schedule as long as no partial sum does, in the order the threads take under that
schedule: the same operations can pass under one schedule and stop the launch under another.
-/
namespace Riri

variable {w : Nat}

/-- The integer that bits of a type stand for. -/
def numberOf (signed : Bool) (x : BitVec w) : Int := if signed then x.toInt else x.toNat

def HasRoom (w : Nat) (signed : Bool) (z : Int) : Prop :=
  if signed then -2 ^ (w - 1) ≤ z ∧ z < 2 ^ (w - 1) else 0 ≤ z ∧ z < 2 ^ w

theorem hasRoom_signed {z : Int} : HasRoom w true z ↔ -2 ^ (w - 1) ≤ z ∧ z < 2 ^ (w - 1) := Iff.rfl

theorem hasRoom_unsigned {z : Int} : HasRoom w false z ↔ 0 ≤ z ∧ z < 2 ^ w := Iff.rfl

/-- `+` gives the sum, or panics because the type has no room for it. -/
theorem checkedAdd_cases (signed : Bool) (x y : BitVec w) :
    (HasRoom w signed (numberOf signed x + numberOf signed y) ∧
      checkedAdd signed x y = .ok (x + y)) ∨
    (¬ HasRoom w signed (numberOf signed x + numberOf signed y) ∧
      checkedAdd signed x y = .error "attempt to add with overflow") := by
  have overflow : (if signed then x.saddOverflow y else x.uaddOverflow y) = true ↔
      ¬ HasRoom w signed (numberOf signed x + numberOf signed y) := by
    cases signed with
    | true =>
      simp only [if_true, BitVec.saddOverflow, Bool.or_eq_true, decide_eq_true_eq, hasRoom_signed,
        numberOf]
      omega
    | false =>
      have cast : ((2 : Int) ^ w) = ((2 ^ w : Nat) : Int) := by norm_cast
      simp only [Bool.false_eq_true, if_false, BitVec.uaddOverflow, decide_eq_true_eq,
        hasRoom_unsigned, numberOf, cast]
      omega
  unfold checkedAdd
  by_cases room : HasRoom w signed (numberOf signed x + numberOf signed y)
  · rw [if_neg fun over_ => overflow.mp over_ room]
    exact .inl ⟨room, rfl⟩
  · rw [if_pos (overflow.mpr room)]
    exact .inr ⟨room, rfl⟩

theorem checkedSub_cases (signed : Bool) (x y : BitVec w) :
    (HasRoom w signed (numberOf signed x - numberOf signed y) ∧
      checkedSub signed x y = .ok (x - y)) ∨
    (¬ HasRoom w signed (numberOf signed x - numberOf signed y) ∧
      checkedSub signed x y = .error "attempt to subtract with overflow") := by
  have overflow : (if signed then x.ssubOverflow y else x.usubOverflow y) = true ↔
      ¬ HasRoom w signed (numberOf signed x - numberOf signed y) := by
    cases signed with
    | true =>
      simp only [if_true, BitVec.ssubOverflow, Bool.or_eq_true, decide_eq_true_eq, hasRoom_signed,
        numberOf]
      omega
    | false =>
      have bound := x.isLt
      have cast : ((2 : Int) ^ w) = ((2 ^ w : Nat) : Int) := by norm_cast
      simp only [Bool.false_eq_true, if_false, BitVec.usubOverflow, decide_eq_true_eq,
        hasRoom_unsigned, numberOf, cast]
      omega
  unfold checkedSub
  by_cases room : HasRoom w signed (numberOf signed x - numberOf signed y)
  · rw [if_neg fun over_ => overflow.mp over_ room]
    exact .inl ⟨room, rfl⟩
  · rw [if_pos (overflow.mpr room)]
    exact .inr ⟨room, rfl⟩

/-- What an operation on a counter adds to it, modulo the width, and the exact result it has on
a value. -/
inductive Counts (signed : Bool) : MemAct (BitVec w) → BitVec w → (BitVec w → Int) → Prop
  | add (ordering : Ordering) (v : BitVec w) :
      Counts signed (.atomic ordering (.add signed v)) v
        fun x => numberOf signed x + numberOf signed v
  | sub (ordering : Ordering) (v : BitVec w) :
      Counts signed (.atomic ordering (.sub signed v)) (-v)
        fun x => numberOf signed x - numberOf signed v

variable {signed : Bool} {act : MemAct (BitVec w)} {d : BitVec w} {result : BitVec w → Int}

/-- An operation on a counter adds and returns what was there, or panics for lack of room. -/
theorem Counts.update (counts : Counts signed act d result) (x : BitVec w) :
    (HasRoom w signed (result x) ∧ act.update x = .ok (x + d, .val x)) ∨
      (¬ HasRoom w signed (result x) ∧ ∃ message, act.update x = .error message) := by
  cases counts with
  | add ordering =>
    rcases checkedAdd_cases signed x d with ⟨room, sum⟩ | ⟨full, panics⟩
    · refine .inl ⟨room, ?_⟩
      simp only [MemAct.update, AtomicOp.add, AtomicOp.update, sum, Except.map]
    · refine .inr ⟨full, "attempt to add with overflow", ?_⟩
      simp only [MemAct.update, AtomicOp.add, AtomicOp.update, panics, Except.map]
  | sub ordering v =>
    rcases checkedSub_cases signed x v with ⟨room, difference⟩ | ⟨full, panics⟩
    · refine .inl ⟨room, ?_⟩
      simp only [MemAct.update, AtomicOp.sub, AtomicOp.update, difference, Except.map]
      rw [BitVec.sub_eq_add_neg]
    · refine .inr ⟨full, "attempt to subtract with overflow", ?_⟩
      simp only [MemAct.update, AtomicOp.sub, AtomicOp.update, panics, Except.map]

theorem Counts.of_updated (counts : Counts signed act d result) {x new : BitVec w}
    {resp : Resp (BitVec w)} (updated : act.update x = .ok (new, resp)) :
    new = x + d ∧ resp = .val x := by
  rcases counts.update x with ⟨-, sum⟩ | ⟨-, message, panics⟩
  · exact Prod.mk.inj (Except.ok.inj (updated.symm.trans sum))
  · cases updated.symm.trans panics

namespace Launch

variable (env : Env (BitVec w)) (signed : Bool) (buf : Buf) (index : Nat)

def Touches (l : Label (BitVec w)) (m : MemOp (BitVec w)) (old : BitVec w) : Prop :=
  m.buf = buf ∧ m.index = index ∧ ∃ cx acc conflict, l = .access cx m acc old conflict

/-- What the operations performed on the element before time `n` add up to. -/
inductive Tally : Nat → BitVec w → Prop
  | start : Tally 0 0
  | other {n : Nat} {x : BitVec w} (before : Tally n x)
      (elsewhere : ∀ l m old, (run env).label n = some l → ¬ Touches buf index l m old) :
      Tally (n + 1) x
  | counts {n : Nat} {x d old : BitVec w} {l : Label (BitVec w)} {m : MemOp (BitVec w)}
      {result : BitVec w → Int} (before : Tally n x) (labelled : (run env).label n = some l)
      (touches : Touches buf index l m old) (counts : Counts signed m.act d result) :
      Tally (n + 1) (x + d)

/-- The element is an exact counter in this run: no operation on it panics, at every time it
holds what it held first and what the operations so far add up to, modulo the width, and each
operation returns what the ones before it have left. -/
structure CountsExactly : Prop where
  untrapped : ∀ n cx m acc outOfBounds, (run env).label n = some (.fault cx m acc outOfBounds) →
    ¬ (m.buf = buf ∧ m.index = index)
  tallied : ∀ n, ∃ x, Tally env signed buf index n x
  value : ∀ n x, Tally env signed buf index n x →
    (((run env).state n).mem buf).data index = (env.mem buf).data index + x
  returned : ∀ n x cx m acc old conflict, Tally env signed buf index n x →
    (run env).label n = some (.access cx m acc old conflict) → m.buf = buf → m.index = index →
    (((run env).state (n + 1)).threads cx.slot).answers =
      (((run env).state n).threads cx.slot).answers ++ [.val ((env.mem buf).data index + x)]

/-- Whenever a thread is about to add to the element or subtract from it, the type has room for
the exact result. -/
def KeepsRoom : Prop :=
  ∀ n slot m d result, Live ((run env).state n) →
    ((run env).state n).sched.current = some slot →
    (((run env).state n).threads slot).pc = .atAccess m → m.buf = buf → m.index = index →
    Counts signed m.act d result →
    HasRoom w signed (result ((((run env).state n).mem buf).data index))

def OnlyCounts : Prop :=
  ∀ block thread answers m, env.kernel block thread answers = .mem m → m.buf = buf →
    m.index = index → ∃ d result, Counts signed m.act d result

variable {env signed buf index}

/-! ### What a step does to an element -/

section

variable {V : Type} [BEq V] {env : Env V} {s s' : Launch V} {slot : Nat} {l : Label V}

/-- Only an access that completes changes an element, and it changes the one it names. -/
theorem Resumed.data (resumed : Resumed env s slot l s') (buf : Buf) (index : Nat) :
    ((s'.mem buf).len = (s.mem buf).len) ∧
      ((∃ m acc conflict new resp, l = .access (s.ctx env slot) m acc ((s.mem buf).data index)
            conflict ∧ m.buf = buf ∧ m.index = index ∧ (s.threads slot).pc = .atAccess m ∧
          m.act.update ((s.mem buf).data index) = .ok (new, resp) ∧
          (s'.mem buf).data index = new ∧
          (s'.threads slot).answers = (s.threads slot).answers ++ [resp]) ∨
        ((s'.mem buf).data index = (s.mem buf).data index ∧
          ∀ cx m acc old conflict, l = .access cx m acc old conflict →
            ¬ (m.buf = buf ∧ m.index = index))) := by
  have same : ∀ (buf' : Buf) (inst : Instrumented V),
      inst.data = (s.mem buf').data → inst.len = (s.mem buf').len →
      (Function.update s.mem buf' inst buf).data index = (s.mem buf).data index ∧
        (Function.update s.mem buf' inst buf).len = (s.mem buf).len := by
    intro buf' inst data len
    by_cases here : buf = buf'
    · subst here
      simp [data, len]
    · simp [Function.update_of_ne here]
  have fresh := Instrumented.forLaunch_data (V := V)
  cases resumed with
  | access m pc new resp inside updated =>
    rw [(fresh m.buf env.id _).1] at updated ⊢
    have stored : ((s.accessed env (s.ctx env slot) m new resp).mem m.buf).data =
          Function.update (s.mem m.buf).data m.index new ∧
        ((s.accessed env (s.ctx env slot) m new resp).mem m.buf).len = (s.mem m.buf).len := by
      simp [accessed, report, answer, fresh]
    have elsewhere : ∀ b, b ≠ m.buf →
        (s.accessed env (s.ctx env slot) m new resp).mem b = s.mem b := by
      intro b other
      simp [accessed, report, answer, Function.update_of_ne other]
    by_cases here : m.buf = buf
    · subst here
      refine ⟨stored.2, ?_⟩
      by_cases there : m.index = index
      · subst there
        exact .inl ⟨m, _, _, new, resp, rfl, rfl, rfl, pc, updated, by simp [stored.1],
          by simp [accessed, ctx]⟩
      · refine .inr ⟨by rw [stored.1]; exact Function.update_of_ne (Ne.symm there) .., ?_⟩
        intro cx m' acc old conflict same
        cases same
        exact fun both => there both.2
    · rw [elsewhere buf (Ne.symm here)]
      refine ⟨rfl, .inr ⟨rfl, ?_⟩⟩
      intro cx m' acc old conflict same
      cases same
      exact fun both => here both.1
  | overflow m pc message inside updated =>
    have kept := same m.buf { (s.mem m.buf).forLaunch m.buf env.id with
      shadow := Function.update ((s.mem m.buf).forLaunch m.buf env.id).shadow m.index
        (s.recorded env (s.ctx env slot) m).1 } (fresh _ _ _).1 (fresh _ _ _).2
    exact ⟨kept.2, .inr ⟨kept.1, fun _ _ _ _ _ none => by cases none⟩⟩
  | miss m | outOfBounds m =>
    have kept := same m.buf _ (fresh m.buf env.id (s.mem m.buf)).1
      (fresh m.buf env.id (s.mem m.buf)).2
    exact ⟨kept.2, .inr ⟨kept.1, fun _ _ _ _ _ none => by cases none⟩⟩
  | _ => exact ⟨rfl, .inr ⟨rfl, fun _ _ _ _ _ none => by cases none⟩⟩

end

theorem run_len (env : Env (BitVec w)) (buf : Buf) (n : Nat) :
    (((run env).state n).mem buf).len = (env.mem buf).len := by
  induction n with
  | zero => rfl
  | succ n ih =>
    rcases (run env).step_cases n with ⟨l, -, moved⟩ | ⟨-, stays⟩
    · obtain ⟨-, ⟨-, -, -, next⟩ | ⟨slot, -, resumed⟩⟩ := step_cases env moved
      · rw [next]
        exact ih
      · exact (resumed.data buf 0).1.trans ih
    · rw [stays]
      exact ih

/-! ### What holds of a counter anyway -/

section

variable (only : OnlyCounts env signed buf index)
include only

/-- An operation on the element that a thread is about to make counts. -/
theorem OnlyCounts.at_access {n slot : Nat} {m : MemOp (BitVec w)}
    (live : Live ((run env).state n))
    (pc : (((run env).state n).threads slot).pc = .atAccess m) (here : m.buf = buf)
    (there : m.index = index) : ∃ d result, Counts signed m.act d result := by
  have asked := (standing_run live).asked slot
  rw [pc] at asked
  exact only _ _ _ m asked here there

/-- A step performs one operation on the element, or leaves it alone. -/
theorem OnlyCounts.step (n : Nat) :
    (∃ slot m acc conflict d result, (run env).label n =
        some (.access (((run env).state n).ctx env slot) m acc
          ((((run env).state n).mem buf).data index) conflict) ∧
      m.buf = buf ∧ m.index = index ∧ Counts signed m.act d result ∧
      (((run env).state (n + 1)).threads slot).answers =
        (((run env).state n).threads slot).answers ++
          [.val ((((run env).state n).mem buf).data index)] ∧
      ∀ d result, Counts signed m.act d result → (((run env).state (n + 1)).mem buf).data index =
        (((run env).state n).mem buf).data index + d) ∨
    ((∀ l m old, (run env).label n = some l → ¬ Touches buf index l m old) ∧
      (((run env).state (n + 1)).mem buf).data index =
        (((run env).state n).mem buf).data index) := by
  rcases (run env).step_cases n with ⟨l, labelled, moved⟩ | ⟨silent, stays⟩
  · obtain ⟨live, ⟨-, -, rfl, next⟩ | ⟨slot, current, resumed⟩⟩ := step_cases env moved
    · refine .inr ⟨fun l m old labelled' touches => ?_, by rw [next]; rfl⟩
      obtain ⟨-, -, cx, acc, conflict, rfl⟩ := touches
      cases labelled.symm.trans labelled'
    · rcases (resumed.data buf index).2 with
        ⟨m, acc, conflict, new, resp, rfl, here, there, pc, updated, stored, answered⟩ |
        ⟨same, elsewhere⟩
      · obtain ⟨d, result, counts⟩ := only.at_access live pc here there
        refine .inl ⟨slot, m, acc, conflict, d, result, labelled, here, there, counts, ?_, ?_⟩
        · rw [answered, (counts.of_updated updated).2]
        · intro d' result' counts'
          rw [stored, (counts'.of_updated updated).1]
      · refine .inr ⟨fun l' m old labelled' touches => ?_, same⟩
        obtain rfl := Option.some.inj (labelled.symm.trans labelled')
        obtain ⟨here, there, cx, acc, conflict, access⟩ := touches
        exact elsewhere cx m acc old conflict access ⟨here, there⟩
  · refine .inr ⟨fun l m old labelled => ?_, by rw [stays]⟩
    cases silent.symm.trans labelled

theorem OnlyCounts.tallied (n : Nat) : ∃ x, Tally env signed buf index n x := by
  induction n with
  | zero => exact ⟨0, .start⟩
  | succ n ih =>
    obtain ⟨x, before⟩ := ih
    rcases only.step n with ⟨slot, m, acc, conflict, d, result, labelled, here, there, counts, -⟩ |
      ⟨elsewhere, -⟩
    · exact ⟨x + d, .counts before labelled ⟨here, there, _, acc, conflict, rfl⟩ counts⟩
    · exact ⟨x, .other before elsewhere⟩

/-- A counter holds what it held first and what the operations so far add up to. -/
theorem OnlyCounts.value {n : Nat} {x : BitVec w} (tally : Tally env signed buf index n x) :
    (((run env).state n).mem buf).data index = (env.mem buf).data index + x := by
  induction tally with
  | start => simp [run, init]
  | @other n x before elsewhere ih =>
    rcases only.step n with ⟨slot, m, acc, conflict, d, result, labelled, here, there, -⟩ | ⟨-, same⟩
    · exact absurd ⟨here, there, _, acc, conflict, rfl⟩ (elsewhere _ m _ labelled)
    · rw [same, ih]
  | @counts n x d old l m result before labelled touches counts ih =>
    rcases only.step n with ⟨slot, m', acc, conflict, -, -, labelled', -, -, -, -, stored⟩ |
      ⟨elsewhere, -⟩
    · obtain ⟨-, -, cx, acc', conflict', rfl⟩ := touches
      obtain ⟨-, rfl, -⟩ := Label.access.inj (Option.some.inj (labelled.symm.trans labelled'))
      rw [stored d result counts, ih, BitVec.add_assoc]
    · exact absurd touches (elsewhere l m old labelled)

/-- An operation returns what the ones before it have left. -/
theorem OnlyCounts.returned {n : Nat} {x old : BitVec w} {cx : Ctx} {m : MemOp (BitVec w)}
    {acc : Access} {conflict : Option Access} (tally : Tally env signed buf index n x)
    (labelled : (run env).label n = some (.access cx m acc old conflict)) (here : m.buf = buf)
    (there : m.index = index) :
    (((run env).state (n + 1)).threads cx.slot).answers =
      (((run env).state n).threads cx.slot).answers ++ [.val ((env.mem buf).data index + x)] := by
  rcases only.step n with ⟨slot, m', acc', conflict', -, -, labelled', -, -, -, answered, -⟩ |
    ⟨elsewhere, -⟩
  · obtain ⟨rfl, -⟩ := Label.access.inj (Option.some.inj (labelled.symm.trans labelled'))
    rw [← only.value tally]
    exact answered
  · exact absurd ⟨here, there, cx, acc, conflict, rfl⟩ (elsewhere _ m old labelled)

end

/-! ### When a counter is exact -/

/-- A counter is exact exactly if the type has room for every partial sum. For every integer
type, element, start value and kernel that only adds to the element and subtracts from it, and
every schedule: no operation on the element panics, it always holds its first value plus the
adds minus the subtracts modulo the width, and each operation returns what the ones before it
have left, if and only if whenever a thread is about to add or subtract, the exact result on
what the element holds fits the type. -/
theorem counts_exactly_iff (env : Env (BitVec w)) (signed : Bool) (buf : Buf) (index : Nat)
    (inside : index < (env.mem buf).len) (only : OnlyCounts env signed buf index) :
    CountsExactly env signed buf index ↔ KeepsRoom env signed buf index := by
  constructor
  · intro exactly n slot m d result live current pc here there counts
    rcases counts.update ((((run env).state n).mem buf).data index) with
      ⟨room, -⟩ | ⟨-, message, panics⟩
    · exact room
    · -- The arithmetic panics, and the step is a fault on the element.
      exfalso
      subst here there
      have bound : m.index < ((((run env).state n).mem m.buf).forLaunch m.buf env.id).len := by
        rw [(Instrumented.forLaunch_data _ _ _).2, run_len]
        exact inside
      rw [← (Instrumented.forLaunch_data m.buf env.id (((run env).state n).mem m.buf)).1] at panics
      have moved : ((run env).state n).step env =
          some (((run env).state n).resume env slot) := step_of_turn env live current
      have labelled : (run env).label n = some (((run env).state n).resume env slot).1 :=
        (run env).label_of_next moved
      simp only [resume, pc, checkedAccess, ge_iff_le, Nat.not_le_of_lt bound, if_false, panics]
        at labelled
      exact exactly.untrapped n _ m _ false labelled ⟨rfl, rfl⟩
  · intro room
    refine ⟨fun n cx m acc outOfBounds labelled both => ?_, only.tallied, fun n x => only.value,
      fun n x cx m acc old conflict tally labelled => only.returned tally labelled⟩
    obtain ⟨live, ⟨-, wave⟩ | ⟨slot, current, resumed⟩⟩ := label_cases labelled
    · cases wave
    · obtain ⟨rfl, rfl⟩ := both
      have data := Instrumented.forLaunch_data m.buf env.id (((run env).state n).mem m.buf)
      have bound : m.index < ((((run env).state n).mem m.buf).forLaunch m.buf env.id).len := by
        rw [data.2, run_len]
        exact inside
      generalize (run env).state (n + 1) = next at resumed
      cases resumed with
      | overflow _ pc message _ updated =>
        obtain ⟨d, result, counts⟩ := only.at_access live pc rfl rfl
        rw [data.1] at updated
        rcases counts.update ((((run env).state n).mem m.buf).data m.index) with
          ⟨-, sum⟩ | ⟨full, -⟩
        · cases updated.symm.trans sum
        · exact full (room n slot m d result live current pc rfl rfl counts)
      | miss _ pc f act outside => exact absurd bound (Nat.not_lt_of_le outside)
      | outOfBounds _ pc outside => exact absurd bound (Nat.not_lt_of_le outside)

/-! ### One program, two schedules -/

def Label.failed? {V : Type} : Label V → Option (Buf × Nat)
  | .fault _ m _ _ => some (m.buf, m.index)
  | _ => none

/-- Thread 0 adds one to a counter of 8 bits that holds zero, thread 1 subtracts one. -/
def counting (plan : List UInt32) : Env (BitVec 8) where
  config := .twoThreads
  kernel := .ofLists fun _ thread =>
    [.mem ⟨.global 0, 0, ⟨"kernel.rs", 3 + thread, 5⟩, .atomic .relaxed
      (if thread = 0 then .add false 1 else .sub false 1)⟩]
  choicesOf := fun _ => .replay plan 0
  id := 1
  mem := fun _ => .ofData [0]
  bufferName := fun _ => "counter"
  typeTag := fun _ => 0
  fresh := fun _ => by simp [Instrumented.ofData]

theorem counting_only (plan : List UInt32) : OnlyCounts (counting plan) false (.global 0) 0 := by
  intro block thread answers m asked _ _
  have listed : m ∈ [(⟨.global 0, 0, ⟨"kernel.rs", 3 + thread, 5⟩, .atomic .relaxed
      (if thread = 0 then .add false 1 else .sub false 1)⟩ : MemOp (BitVec 8))] := by
    simp only [counting, Kernel.ofLists, List.getD_eq_getElem?_getD] at asked
    cases first : answers.length with
    | zero =>
      rw [first] at asked
      exact List.mem_singleton.mpr (Op.mem.inj asked).symm
    | succ k =>
      rw [first] at asked
      cases asked
  rw [List.mem_singleton.mp listed]
  by_cases zero : thread = 0
  · simp only [zero, if_true]
    exact ⟨_, _, .add .relaxed 1⟩
  · simp only [zero, if_false]
    exact ⟨_, _, .sub .relaxed 1⟩

/-- The operation the thread with the turn is about to make does not panic. -/
def goesOn (s : Launch (BitVec w)) : Bool :=
  match s.sched.current.map fun slot => (s.threads slot).pc with
  | some (.atAccess m) => (m.act.update ((s.mem m.buf).data m.index)).isOk
  | _ => true

theorem keepsRoom_of_goesOn {env : Env (BitVec w)} (N : Nat) (halted : (run env).Halted N)
    (fine : ∀ n ≤ N, goesOn ((run env).state n) = true) : KeepsRoom env signed buf index := by
  have always : ∀ n, goesOn ((run env).state n) = true := by
    intro n
    rcases Nat.le_total n N with early | late
    · exact fine n early
    · rw [((run env).halted_mono halted late).2]
      exact fine N le_rfl
  intro n slot m d result live current pc here there counts
  have here' := always n
  simp only [goesOn, current, Option.map_some, pc, here, there] at here'
  rcases counts.update ((((run env).state n).mem buf).data index) with
    ⟨room, -⟩ | ⟨-, message, panics⟩
  · exact room
  · rw [panics] at here'
    cases here'

/-- When thread 0 is first the counter is exact. -/
theorem counts_exactly_iff_counting :
    CountsExactly (counting [0, 0, 0]) false (.global 0) 0 := by
  refine (counts_exactly_iff (counting [0, 0, 0]) false (.global 0) 0 (by decide)
    (counting_only _)).mpr (keepsRoom_of_goesOn 6 ?_ ?_)
  · rw [Machine.Halted, ← Option.isNone_iff_eq_none]
    set_option maxRecDepth 100000 in decide +kernel
  · set_option maxRecDepth 100000 in decide +kernel

/-- When thread 1 is first its subtraction panics, though the two together leave the counter as
it was. -/
theorem counting_panics : ¬ CountsExactly (counting [1, 1, 1]) false (.global 0) 0 := by
  intro exactly
  have failed : ((run (counting [1, 1, 1])).label 1).bind Label.failed? = some (.global 0, 0) := by
    set_option maxRecDepth 100000 in decide +kernel
  obtain ⟨l, labelled, here⟩ := Option.bind_eq_some_iff.mp failed
  cases l with
  | fault cx m acc outOfBounds =>
    have element := Option.some.inj here
    exact exactly.untrapped 1 cx m acc outOfBounds labelled
      ⟨congrArg Prod.fst element, congrArg Prod.snd element⟩
  | _ => cases here

end Launch

end Riri
