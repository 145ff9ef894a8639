import Riri.Run.Programs

/-!
# What de-duplication keeps of a finding

A reporter keeps the first finding with each key, so while it has room a report contains a
fingerprint unless every finding that has it came second. A key and the operation of a warp
finding determine the fingerprint; the operation is not part of the key.
-/
namespace Riri

/-! ### Keys -/

inductive Kind where
  | race | uninit | oob | barrier | warpDivergence | warpMask | warpLane | panic
  deriving DecidableEq

def Kind.head : Kind → List Char
  | .race => ['r', 'a', 'c', 'e']
  | .uninit => ['u', 'n', 'i', 'n', 'i']
  | .oob => ['o', 'o', 'b']
  | .barrier => ['b', 'a', 'r', 'r', 'i']
  | .warpDivergence => ['w', 'a', 'r', 'p', 'd']
  | .warpMask => ['w', 'a', 'r', 'p', 'm']
  | .warpLane => ['w', 'a', 'r', 'p', 'l']
  | .panic => ['p', 'a', 'n', 'i', 'c']

/-- Whether findings of a kind are about no warp operation. -/
def Kind.plain : Kind → Bool
  | .warpDivergence | .warpMask | .warpLane => false
  | .race | .uninit | .oob | .barrier | .panic => true

theorem Kind.head_injective {a b : Kind} (same : a.head = b.head) : a = b := by
  cases a <;> cases b <;> first | rfl | cases same

theorem take_append (a b : String) {n : Nat} (le : n ≤ a.toList.length) :
    (a ++ b).toList.take n = a.toList.take n := by
  rw [String.toList_append, List.take_append_of_le_length le]

namespace Diagnostic

def variant : Diagnostic → Kind
  | .dataRace .. => .race
  | .uninitRead .. => .uninit
  | .outOfBounds .. => .oob
  | .barrierDivergence .. => .barrier
  | .warpDivergence .. => .warpDivergence
  | .warpMaskMismatch .. => .warpMask
  | .warpLaneError .. => .warpLane
  | .kernelPanic .. => .panic

def op : Diagnostic → Option WarpOp
  | .warpDivergence _ _ op _ _ _ => some op
  | .warpMaskMismatch _ _ op _ _ _ _ _ => some op
  | .warpLaneError _ _ op _ _ _ _ => some op
  | _ => none

theorem isNone_op (d : Diagnostic) : d.op.isNone = d.variant.plain := by
  cases d <;> rfl

theorem dedupKey_head (d : Diagnostic) : d.dedupKey.1.toList.take 5 = d.variant.head := by
  cases d with
  | dataRace space index first second =>
    have race : "race".toList.take 5 = Kind.race.head := by decide
    simp only [dedupKey]
    split <;> exact race
  | uninitRead => exact (by decide : "uninit".toList.take 5 = Kind.uninit.head)
  | outOfBounds => exact (by decide : "oob".toList.take 5 = Kind.oob.head)
  | barrierDivergence block => exact take_append "barrier" (toString block) (by decide)
  | warpDivergence block warp =>
    change (("warpdiv" ++ toString block) ++ ":" ++ toString warp).toList.take 5 = _
    simp only [String.append_assoc]
    exact take_append "warpdiv" _ (by decide)
  | warpMaskMismatch block warp =>
    change (("warpmask" ++ toString block) ++ ":" ++ toString warp).toList.take 5 = _
    simp only [String.append_assoc]
    exact take_append "warpmask" _ (by decide)
  | warpLaneError block warp op loc lane mask problem =>
    exact take_append "warplane" problem.debug (by decide)
  | kernelPanic block thread message => exact take_append "panic:" message (by decide)

/-- Findings of different kinds have different keys. -/
theorem variant_of_dedupKey {d e : Diagnostic} (same : d.dedupKey = e.dedupKey) :
    d.variant = e.variant := by
  apply Kind.head_injective
  rw [← dedupKey_head, ← dedupKey_head, same]

end Diagnostic

def LaneProblem.head : LaneProblem → List Char
  | .callerNotInMask => ['C']
  | .maskOutsideBlock _ => ['M']
  | .sourceLaneNotInMask _ => ['S']

theorem LaneProblem.debug_head (p : LaneProblem) : p.debug.toList.take 1 = p.head := by
  cases p with
  | callerNotInMask => exact (by decide : "CallerNotInMask".toList.take 1 = ['C'])
  | maskOutsideBlock valid =>
    change ("MaskOutsideBlock \x7b valid: " ++ toString valid.toNat ++ " \x7d").toList.take 1 = _
    rw [String.append_assoc]
    exact take_append "MaskOutsideBlock \x7b valid: " _ (by decide)
  | sourceLaneNotInMask src =>
    change ("SourceLaneNotInMask \x7b src: " ++ toString src ++ " \x7d").toList.take 1 = _
    rw [String.append_assoc]
    exact take_append "SourceLaneNotInMask \x7b src: " _ (by decide)

theorem LaneProblem.kind_of_debug {a b : LaneProblem} (same : a.debug = b.debug) :
    a.kind = b.kind := by
  have heads : a.head = b.head := by rw [← debug_head, ← debug_head, same]
  cases a <;> cases b <;> first | rfl | cases heads

namespace Diagnostic

/-- The locations of a race, in the order in which it names them. -/
def ordered (a b : Location) : Location × Location := if a.le b then (a, b) else (b, a)

theorem dataRace_dedupKey (space : MemSpace) (index : Nat) (first second : Access) :
    (dataRace space index first second).dedupKey =
      ("race", (ordered first.location second.location).1,
        some (ordered first.location second.location).2) := by
  simp only [dedupKey, ordered]
  split <;> rfl

theorem dataRace_fingerprint (space : MemSpace) (index : Nat) (first second : Access) :
    (dataRace space index first second).fingerprint =
      s!"race@{(ordered first.location second.location).1.at_}~{
        (ordered first.location second.location).2.at_}" := by
  by_cases le : first.location.le second.location = true
  · rw [show ordered first.location second.location = _ from if_pos le]
    exact if_pos le
  · rw [show ordered first.location second.location = _ from if_neg le]
    exact if_neg le

/-- A key and an operation make a fingerprint. -/
theorem fingerprint_of_dedupKey {d e : Diagnostic} (same : d.dedupKey = e.dedupKey)
    (named : d.op = e.op) : d.fingerprint = e.fingerprint := by
  have kind := variant_of_dedupKey same
  have place : d.dedupKey.2.1 = e.dedupKey.2.1 := congrArg (·.2.1) same
  cases d with
  | dataRace space index first second =>
    cases e with
    | dataRace space' index' first' second' =>
      rw [dataRace_dedupKey, dataRace_dedupKey, Prod.mk.injEq, Prod.mk.injEq, Option.some.injEq] at same
      rw [dataRace_fingerprint, dataRace_fingerprint, same.2.1, same.2.2]
    | _ => cases kind
  | uninitRead space index access =>
    cases e with
    | uninitRead space' index' access' => exact congrArg (fun l => s!"uninit@{l.at_}") place
    | _ => cases kind
  | outOfBounds space index len access =>
    cases e with
    | outOfBounds space' index' len' access' => exact congrArg (fun l => s!"oob@{l.at_}") place
    | _ => cases kind
  | barrierDivergence block waiting exited barrier =>
    cases e with
    | barrierDivergence block' waiting' exited' barrier' =>
      exact congrArg (fun l => s!"barrier@{l.at_}") place
    | _ => cases kind
  | warpDivergence block warp op mask arrived loc =>
    cases e with
    | warpDivergence block' warp' op' mask' arrived' loc' =>
      obtain rfl : op = op' := Option.some.inj named
      exact congrArg (fun l => s!"warp-divergence:{op.name}@{l.at_}") place
    | _ => cases kind
  | warpMaskMismatch block warp op loc lane mask otherLane otherMask =>
    cases e with
    | warpMaskMismatch block' warp' op' loc' lane' mask' otherLane' otherMask' =>
      obtain rfl : op = op' := Option.some.inj named
      exact congrArg (fun l => s!"warp-mask-mismatch:{op.name}@{l.at_}") place
    | _ => cases kind
  | warpLaneError block warp op loc lane mask problem =>
    cases e with
    | warpLaneError block' warp' op' loc' lane' mask' other =>
      obtain rfl : op = op' := Option.some.inj named
      have key : "warplane" ++ problem.debug = "warplane" ++ other.debug := congrArg (·.1) same
      have name : problem.kind = other.kind :=
        LaneProblem.kind_of_debug ((String.append_right_inj "warplane").mp key)
      change s!"warp-lane-error:{op.name}:{problem.kind}@{Location.at_ _}" = _
      rw [name]
      exact congrArg (fun l => s!"warp-lane-error:{op.name}:{other.kind}@{l.at_}") place
    | _ => cases kind
  | kernelPanic block thread message =>
    cases e with
    | kernelPanic block' thread' message' => exact congrArg (·.1) same
    | _ => cases kind

end Diagnostic

namespace Reporter

/-! ### What is kept -/

/-- The finding that was pushed first with the key of `d`. -/
def firstOf (raised : List Diagnostic) (key : DedupKey) : Option Diagnostic :=
  raised.find? fun e => e.dedupKey = key

def after (raised : List Diagnostic) : Reporter := raised.foldl push empty

theorem after_concat (raised : List Diagnostic) (d : Diagnostic) :
    after (raised ++ [d]) = (after raised).push d := by
  simp [after]

theorem firstOf_concat (raised : List Diagnostic) (d : Diagnostic) (key : DedupKey) :
    firstOf (raised ++ [d]) key =
      (firstOf raised key).or (if d.dedupKey = key then some d else none) := by
  by_cases same : d.dedupKey = key <;> simp [firstOf, List.find?_append, same]

theorem mem_keys_iff (raised : List Diagnostic) (key : DedupKey) :
    key ∈ (after raised).keys ↔ (firstOf (after raised).kept key).isSome := by
  induction raised using List.reverseRecOn with
  | nil => simp [after, empty, firstOf]
  | append_singleton raised d ih =>
    rw [after_concat, push]
    split
    · rw [firstOf_concat, List.mem_cons, ih]
      by_cases same : d.dedupKey = key
      · simp [same]
      · simp [same, Ne.symm same]
    · exact ih

/-- What is kept came first with its key. -/
theorem firstOf_kept {raised : List Diagnostic} {e : Diagnostic} (mem : e ∈ (after raised).kept) :
    firstOf (after raised).kept e.dedupKey = some e := by
  induction raised using List.reverseRecOn with
  | nil => cases mem
  | append_singleton raised d ih =>
    rw [after_concat, push] at mem ⊢
    split at mem
    next fresh =>
      rw [if_pos fresh, firstOf_concat]
      rcases List.mem_append.mp mem with earlier | last
      · rw [ih earlier]
        rfl
      · obtain rfl := List.mem_singleton.mp last
        have missing : firstOf (after raised).kept e.dedupKey = none := by
          rw [← Option.not_isSome_iff_eq_none, ← mem_keys_iff]
          exact fresh.2
        simp [missing]
    next stale =>
      rw [if_neg stale]
      exact ih mem

theorem kept_length_mono (raised : List Diagnostic) (d : Diagnostic) :
    (after raised).kept.length ≤ (after (raised ++ [d])).kept.length := by
  rw [after_concat, push]
  split
  · simp
  · exact le_rfl

/-- While there is room, the first finding with each key is kept. -/
theorem firstOf_take {raised : List Diagnostic} (room : (take raised).length < MAX_DIAGNOSTICS)
    (key : DedupKey) : firstOf (take raised) key = firstOf raised key := by
  change (after raised).kept.length < MAX_DIAGNOSTICS at room
  change firstOf (after raised).kept key = _
  induction raised using List.reverseRecOn with
  | nil => rfl
  | append_singleton raised d ih =>
    have before := lt_of_le_of_lt (kept_length_mono raised d) room
    rw [firstOf_concat, ← ih before, after_concat, push]
    by_cases fresh : d.dedupKey ∈ (after raised).keys
    · rw [if_neg fun pushed => pushed.2 fresh]
      by_cases same : d.dedupKey = key
      · obtain ⟨e, found⟩ := Option.isSome_iff_exists.mp ((mem_keys_iff raised key).mp (same ▸ fresh))
        rw [found]
        rfl
      · simp [same]
    · rw [if_pos ⟨before, fresh⟩, firstOf_concat]

/-- A report contains a fingerprint if a finding that has it came first with its key. -/
theorem contains_iff {raised : List Diagnostic} (room : (take raised).length < MAX_DIAGNOSTICS)
    (fingerprint : String) :
    Report.contains (take raised) fingerprint = true ↔
      ∃ e ∈ raised, firstOf raised e.dedupKey = some e ∧ e.fingerprint = fingerprint := by
  simp only [Report.contains, List.any_eq_true, decide_eq_true_eq]
  constructor
  · rintro ⟨e, mem, found⟩
    have first : firstOf raised e.dedupKey = some e := by
      rw [← firstOf_take room]
      exact firstOf_kept mem
    exact ⟨e, List.mem_of_find?_eq_some first, first, found⟩
  · rintro ⟨e, -, first, found⟩
    rw [← firstOf_take room] at first
    exact ⟨e, List.mem_of_find?_eq_some first, found⟩

theorem exists_firstOf {raised : List Diagnostic} {d : Diagnostic} (mem : d ∈ raised) :
    ∃ e ∈ raised, firstOf raised d.dedupKey = some e ∧ e.dedupKey = d.dedupKey := by
  cases found : firstOf raised d.dedupKey with
  | none => exact absurd (List.find?_eq_none.mp found d mem) (by simp)
  | some e =>
    exact ⟨e, List.mem_of_find?_eq_some found, rfl, by simpa using List.find?_some found⟩

/-- While there is room, every finding's fingerprint is in the report if and only if every warp
finding has its fingerprint from one that came after no other operation with the same key. -/
theorem fingerprints_kept_iff (raised : List Diagnostic)
    (room : (take raised).length < MAX_DIAGNOSTICS) :
    (∀ d ∈ raised, Report.contains (take raised) d.fingerprint = true) ↔
      ∀ d ∈ raised, d.op ≠ none → ∃ e ∈ raised, e.fingerprint = d.fingerprint ∧
        (firstOf raised e.dedupKey).map Diagnostic.op = some e.op := by
  constructor
  · intro kept d mem _
    obtain ⟨e, mem', first, same⟩ := (contains_iff room _).mp (kept d mem)
    exact ⟨e, mem', same, by rw [first]; rfl⟩
  · intro unmerged d mem
    rw [contains_iff room]
    -- A finding whose key was first taken by the same operation is as good as kept.
    have of_op : ∀ e ∈ raised, (firstOf raised e.dedupKey).map Diagnostic.op = some e.op →
        e.fingerprint = d.fingerprint → ∃ f ∈ raised, firstOf raised f.dedupKey = some f ∧
          f.fingerprint = d.fingerprint := by
      intro e mem' op same
      obtain ⟨f, mem'', first, key⟩ := exists_firstOf mem'
      rw [first, Option.map_some, Option.some.injEq] at op
      exact ⟨f, mem'', by rw [key, first], (Diagnostic.fingerprint_of_dedupKey key op).trans same⟩
    by_cases plain : d.op = none
    · refine of_op d mem ?_ rfl
      obtain ⟨f, -, first, key⟩ := exists_firstOf mem
      have plain' : f.op.isNone = d.op.isNone := by
        rw [Diagnostic.isNone_op, Diagnostic.isNone_op, Diagnostic.variant_of_dedupKey key]
      rw [first, Option.map_some, Option.some.injEq, plain]
      rw [plain] at plain'
      exact Option.isNone_iff_eq_none.mp plain'
    · obtain ⟨e, mem', same, op⟩ := unmerged d mem plain
      exact of_op e mem' op same

/-- Two threads shuffle from lanes outside their mask at different lines, and a third one does
what the first did. The reporter merges the third finding into the first. -/
theorem fingerprints_kept_lines :
    let a : Diagnostic :=
      .warpLaneError 0 0 .shflSync ⟨"kernel.rs", 3, 5⟩ 0 1#32 (.sourceLaneNotInMask 1)
    let b : Diagnostic :=
      .warpLaneError 0 0 .shflXorSync ⟨"kernel.rs", 4, 5⟩ 0 1#32 (.sourceLaneNotInMask 1)
    let c : Diagnostic :=
      .warpLaneError 1 0 .shflSync ⟨"kernel.rs", 3, 5⟩ 0 1#32 (.sourceLaneNotInMask 1)
    take [a, b, c] = [a, b] ∧
      ∀ d ∈ [a, b, c], Report.contains (take [a, b, c]) d.fingerprint = true :=
  ⟨by decide +kernel, (fingerprints_kept_iff _ (by decide +kernel)).mpr (by decide +kernel)⟩

end Reporter

namespace Launch

/-- One thread shuffles twice through one helper, and both times reads a lane outside its mask. -/
def helped : Env Nat :=
  trial .oneThread
    (fun _ => [.warp ⟨1#32, ⟨"helper.rs", 3, 5⟩, .shfl 1 7⟩,
      .warp ⟨1#32, ⟨"helper.rs", 3, 5⟩, .shflXor 1 7⟩]) []

/-- The second finding has the key of the first, and the report lacks its fingerprint. -/
theorem helped_merged : (run helped).Halted 9 ∧
    ((run helped).state 9).raised.map (·.op) = [some .shflSync, some .shflXorSync] ∧
    Reporter.take ((run helped).state 9).raised = ((run helped).state 9).raised.take 1 ∧
    ¬ ∀ d ∈ ((run helped).state 9).raised,
      Report.contains (Reporter.take ((run helped).state 9).raised) d.fingerprint = true := by
  rw [Machine.Halted, ← Option.isNone_iff_eq_none]
  set_option maxRecDepth 100000 in decide +kernel

end Launch

end Riri
