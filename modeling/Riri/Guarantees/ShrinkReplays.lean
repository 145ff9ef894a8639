import Riri.Guarantees.ShrinkQuality

/-!
# The replays a shrink launches

A replay that never returns is the last thing its shrink does. Up to there the shrink behaves as
if every replay answered, so the plans it launches are those that a shrink with answers would
replay, up to the first that hangs.
-/
namespace Riri.Explore

/-- The same test, where a replay that hangs answers no. -/
def answering (runOnce : RunOnce) : RunOnce := fun plan => some ((runOnce plan).getD false)

/-- What a shrink would replay if every replay answered. -/
def replaysAnswering (runOnce : RunOnce) (trace : List UInt32) (minimise : Bool) (budget : Nat)
    (diagnostics : List Diagnostic) (complete : Bool) : List (List UInt32) :=
  ((shrinkSpending (answering runOnce) trace minimise budget diagnostics complete).map
    fun r => r.2.replayed).getD []

/-- The plans whose replays a shrink launches, the last of which may hang. -/
def launched (runOnce : RunOnce) (trace : List UInt32) (minimise : Bool) (budget : Nat)
    (diagnostics : List Diagnostic) (complete : Bool) : List (List UInt32) :=
  let plans := replaysAnswering runOnce trace minimise budget diagnostics complete
  plans.take (plans.findIdx (fun plan => (runOnce plan).isNone) + 1)

def Returned (runOnce : RunOnce) (s : Spent) : Prop := ∀ plan ∈ s.replayed, (runOnce plan).isSome

variable {runOnce : RunOnce} {trace : List UInt32}

/-- A search goes as it would if every replay answered, and hangs if one of its replays does. -/
structure Follows (runOnce : RunOnce) {α : Type} (spent : α → Spent) (s : Spent) (real : Option α)
    (out : α) : Prop where
  grows : s.replayed ⊆ (spent out).replayed
  goes : Returned runOnce (spent out) → real = some out
  hangs : Returned runOnce s → ¬ Returned runOnce (spent out) → real = none

theorem Follows.done {α : Type} {spent : α → Spent} {s : Spent} {out : α} (same : spent out = s) :
    Follows runOnce spent s (some out) out := by
  refine ⟨?_, fun _ => rfl, ?_⟩
  · rw [same]
    exact List.Subset.refl _
  · intro returned hung
    rw [same] at hung
    exact absurd returned hung

/-- One search after another. -/
theorem Follows.bind {α β : Type} {spent : α → Spent} {spent' : β → Spent} {s : Spent}
    {first : Option α} {out : α} {rest : α → Option β} {last : β}
    (begins : Follows runOnce spent s first out)
    (later : Follows runOnce spent' (spent out) (rest out) last) :
    Follows runOnce spent' s (first.bind rest) last := by
  constructor
  · exact List.Subset.trans begins.grows later.grows
  · intro returned
    have earlier : Returned runOnce (spent out) := fun plan mem => returned plan (later.grows mem)
    rw [begins.goes earlier]
    exact later.goes returned
  · intro returned hung
    by_cases between : Returned runOnce (spent out)
    · rw [begins.goes between]
      exact later.hangs between hung
    · rw [begins.hangs returned between]
      rfl

variable (runOnce) in
/-- One test. -/
theorem exists_reproduces (plan : List UInt32) (s : Spent) :
    ∃ out, reproduces (answering runOnce) plan s = some out ∧
      Follows runOnce Prod.snd s (reproduces runOnce plan s) out := by
  unfold reproduces
  by_cases spent : s.budget = 0
  · rw [if_pos spent, if_pos spent]
    exact ⟨_, rfl, .done rfl⟩
  · rw [if_neg spent, if_neg spent]
    refine ⟨_, rfl, fun p mem => List.mem_append_left _ mem, ?_, ?_⟩
    · intro returned
      obtain ⟨found, ran⟩ := Option.isSome_iff_exists.mp (returned plan (by simp))
      rw [ran]
      rfl
    · intro returned hung
      cases ran : runOnce plan with
      | none => rfl
      | some found =>
        refine absurd ?_ hung
        intro p mem
        rcases List.mem_append.mp mem with earlier | last
        · exact returned p earlier
        · rw [List.mem_singleton.mp last, ran]
          rfl

/-! ### Each loop -/

theorem double_of_lt {lo step : Nat} {pos : 0 < step} {s : Spent} (more : step < trace.length) :
    double runOnce trace lo step pos s =
      (reproduces runOnce (trace.take step) s).bind fun r =>
        if r.1 then some (lo, step, r.2)
        else double runOnce trace step (step * 2) (Nat.mul_pos pos Nat.two_pos) r.2 := by
  rw [double, if_pos more]
  cases reproduces runOnce (trace.take step) s with
  | none => rfl
  | some r =>
    obtain ⟨found, s'⟩ := r
    cases found <;> rfl

theorem bisect_of_lt {lo hi : Nat} {s : Spent} (more : lo + 1 < hi) :
    bisect runOnce trace lo hi s =
      (reproduces runOnce (trace.take (lo + (hi - lo) / 2)) s).bind fun r =>
        if r.1 then bisect runOnce trace lo (lo + (hi - lo) / 2) r.2
        else bisect runOnce trace (lo + (hi - lo) / 2) hi r.2 := by
  rw [bisect, if_pos more]
  dsimp only
  cases reproduces runOnce (trace.take (lo + (hi - lo) / 2)) s with
  | none => rfl
  | some r =>
    obtain ⟨found, s'⟩ := r
    cases found <;> rfl

theorem dropSwitches_of_same {i : Nat} {plan : List UInt32} {s : Spent} (more : i < plan.length)
    (rest : ¬ s.budget = 0) (same : plan.getD i 0 = plan.getD (i - 1) 0) :
    dropSwitches runOnce i plan s = dropSwitches runOnce (i + 1) plan s := by
  rw [dropSwitches, if_pos more, if_neg rest, if_pos same]

theorem dropSwitches_of_lt {i : Nat} {plan : List UInt32} {s : Spent} (more : i < plan.length)
    (rest : ¬ s.budget = 0) (other : ¬ plan.getD i 0 = plan.getD (i - 1) 0) :
    dropSwitches runOnce i plan s =
      (reproduces runOnce (plan.set i (plan.getD (i - 1) 0)) s).bind fun r =>
        if r.1 then dropSwitches runOnce (i + 1) (plan.set i (plan.getD (i - 1) 0)) r.2
        else dropSwitches runOnce (i + 1) plan r.2 := by
  rw [dropSwitches, if_pos more, if_neg rest, if_neg other]
  dsimp only
  cases reproduces runOnce (plan.set i (plan.getD (i - 1) 0)) s with
  | none => rfl
  | some r =>
    obtain ⟨found, s'⟩ := r
    cases found <;> rfl

variable (runOnce trace) in
theorem exists_double (lo step : Nat) (pos : 0 < step) (s : Spent) :
    ∃ out, double (answering runOnce) trace lo step pos s = some out ∧
      Follows runOnce (fun out => out.2.2) s (double runOnce trace lo step pos s) out := by
  induction lo, step, pos, s using double.induct (answering runOnce) trace with
  | case1 lo step pos s more hangs =>
    obtain ⟨out, answer, -⟩ := exists_reproduces runOnce (trace.take step) s
    rw [answer] at hangs
    cases hangs
  | case2 lo step pos s more s' found =>
    obtain ⟨out, answer, follows⟩ := exists_reproduces runOnce (trace.take step) s
    obtain rfl := Option.some.inj (answer.symm.trans found)
    rw [double_of_lt more, double_of_lt more, found]
    exact ⟨_, rfl, follows.bind (.done rfl)⟩
  | case3 lo step pos s more s' found ih =>
    obtain ⟨out, answer, follows⟩ := exists_reproduces runOnce (trace.take step) s
    obtain rfl := Option.some.inj (answer.symm.trans found)
    obtain ⟨last, answers, later⟩ := ih
    rw [double_of_lt more, double_of_lt more, found]
    exact ⟨last, answers, follows.bind later⟩
  | case4 lo step pos s more =>
    rw [double, if_neg more, double, if_neg more]
    exact ⟨_, rfl, .done rfl⟩

variable (runOnce trace) in
theorem exists_bisect (lo hi : Nat) (s : Spent) :
    ∃ out, bisect (answering runOnce) trace lo hi s = some out ∧
      Follows runOnce Prod.snd s (bisect runOnce trace lo hi s) out := by
  induction lo, hi, s using bisect.induct (answering runOnce) trace with
  | case1 lo hi s more mid hangs =>
    obtain ⟨out, answer, -⟩ := exists_reproduces runOnce (trace.take mid) s
    rw [answer] at hangs
    cases hangs
  | case2 lo hi s more mid s' found ih | case3 lo hi s more mid s' found ih =>
    obtain ⟨out, answer, follows⟩ := exists_reproduces runOnce (trace.take mid) s
    obtain rfl := Option.some.inj (answer.symm.trans found)
    obtain ⟨last, answers, later⟩ := ih
    rw [bisect_of_lt more, bisect_of_lt more, found]
    exact ⟨last, answers, follows.bind later⟩
  | case4 lo hi s more =>
    rw [bisect, if_neg more, bisect, if_neg more]
    exact ⟨_, rfl, .done rfl⟩

variable (runOnce) in
theorem exists_dropSwitches (i : Nat) (plan : List UInt32) (s : Spent) :
    ∃ out, dropSwitches (answering runOnce) i plan s = some out ∧
      Follows runOnce Prod.snd s (dropSwitches runOnce i plan s) out := by
  induction i, plan, s using dropSwitches.induct (answering runOnce) with
  | case1 i plan s more spent =>
    rw [dropSwitches, if_pos more, if_pos spent, dropSwitches, if_pos more, if_pos spent]
    exact ⟨_, rfl, .done rfl⟩
  | case2 i plan s more rest same ih =>
    rw [dropSwitches_of_same more rest same, dropSwitches_of_same more rest same]
    exact ih
  | case3 i plan s more rest other candidate hangs =>
    obtain ⟨out, answer, -⟩ := exists_reproduces runOnce candidate s
    rw [answer] at hangs
    cases hangs
  | case4 i plan s more rest other candidate s' found ih
  | case5 i plan s more rest other candidate s' found ih =>
    obtain ⟨out, answer, follows⟩ := exists_reproduces runOnce candidate s
    obtain rfl := Option.some.inj (answer.symm.trans found)
    obtain ⟨last, answers, later⟩ := ih
    rw [dropSwitches_of_lt more rest other, dropSwitches_of_lt more rest other, found]
    exact ⟨last, answers, follows.bind later⟩
  | case6 i plan s more =>
    rw [dropSwitches, if_neg more, dropSwitches, if_neg more]
    exact ⟨_, rfl, .done rfl⟩

/-! ### The whole shrink -/

theorem shrinkSpending_of_on {budget : Nat} {diagnostics : List Diagnostic}
    (dirty : diagnostics ≠ []) : shrinkSpending runOnce trace true budget diagnostics true =
      (reproduces runOnce trace ⟨budget, []⟩).bind fun whole =>
        if whole.1 then
          (reproduces runOnce [] whole.2).bind fun empty =>
            if empty.1 then
              (dropSwitches runOnce 1 [] empty.2).bind fun done =>
                some (.minimised done.1, done.2)
            else
              (double runOnce trace 0 1 Nat.one_pos empty.2).bind fun found =>
                (bisect runOnce trace found.1 found.2.1 found.2.2).bind fun cut =>
                  (dropSwitches runOnce 1 (trace.take cut.1) cut.2).bind fun done =>
                    some (.minimised done.1, done.2)
        else some (.notReproducible, whole.2) := by
  unfold shrinkSpending
  simp only [Bool.not_true, Bool.false_eq_true, if_false, dirty]
  cases reproduces runOnce trace ⟨budget, []⟩ with
  | none => rfl
  | some whole =>
    obtain ⟨_ | _, s⟩ := whole
    · rfl
    · simp only [Option.bind_some, if_true]
      cases reproduces runOnce [] s with
      | none => rfl
      | some empty =>
        obtain ⟨_ | _, s⟩ := empty
        · simp only [Option.bind_some, Bool.false_eq_true, if_false]
          cases double runOnce trace 0 1 Nat.one_pos s with
          | none => rfl
          | some found =>
            obtain ⟨lo, hi, s⟩ := found
            simp only [Option.bind_some]
            cases bisect runOnce trace lo hi s with
            | none => rfl
            | some cut => exact Option.map_eq_bind ..
        · exact Option.map_eq_bind ..

variable (runOnce trace) in
/-- Every shrink goes as it would if every replay answered, up to the first that hangs. -/
theorem exists_shrinkSpending (minimise : Bool) (budget : Nat) (diagnostics : List Diagnostic)
    (complete : Bool) :
    ∃ out, shrinkSpending (answering runOnce) trace minimise budget diagnostics complete =
        some out ∧
      Follows runOnce Prod.snd ⟨budget, []⟩
        (shrinkSpending runOnce trace minimise budget diagnostics complete) out := by
  by_cases on : minimise = true ∧ complete = true ∧ diagnostics ≠ []
  · obtain ⟨rfl, rfl, dirty⟩ := on
    rw [shrinkSpending_of_on dirty, shrinkSpending_of_on dirty]
    obtain ⟨⟨reproduced, s⟩, whole, follows⟩ :=
      exists_reproduces runOnce trace ⟨budget, []⟩
    rw [whole]
    cases reproduced with
    | false => exact ⟨_, rfl, follows.bind (.done rfl)⟩
    | true =>
      obtain ⟨⟨alone, s'⟩, empty, follows'⟩ := exists_reproduces runOnce [] s
      rw [Option.bind_some, if_pos rfl, empty]
      cases alone with
      | true =>
        obtain ⟨done, dropped, edits⟩ := exists_dropSwitches runOnce 1 [] s'
        refine ⟨(.minimised done.1, done.2), ?_, ?_⟩
        · simp [dropped]
        · exact follows.bind (follows'.bind (edits.bind (.done rfl)))
      | false =>
        obtain ⟨found, doubled, doubles⟩ :=
          exists_double runOnce trace 0 1 Nat.one_pos s'
        obtain ⟨cut, bisected, halves⟩ :=
          exists_bisect runOnce trace found.1 found.2.1 found.2.2
        obtain ⟨done, dropped, edits⟩ :=
          exists_dropSwitches runOnce 1 (trace.take cut.1) cut.2
        refine ⟨(.minimised done.1, done.2), ?_, ?_⟩
        · simp [doubled, bisected, dropped]
        · exact follows.bind (follows'.bind (doubles.bind (halves.bind (edits.bind (.done rfl)))))
  · have off : ∃ outcome, ∀ runOnce, shrinkSpending runOnce trace minimise budget diagnostics
        complete = some (outcome, ⟨budget, []⟩) := by
      cases minimise with
      | false => exact ⟨_, fun _ => rfl⟩
      | true =>
        cases complete with
        | false => exact ⟨_, fun _ => rfl⟩
        | true =>
          have clean : diagnostics = [] := by
            by_contra dirty
            exact on ⟨rfl, rfl, dirty⟩
          exact ⟨_, fun _ => by rw [clean]; rfl⟩
    obtain ⟨outcome, untried⟩ := off
    rw [untried, untried]
    exact ⟨_, rfl, .done rfl⟩

/-- Without a complete recording nothing is replayed. -/
theorem launched_incomplete (minimise : Bool) (budget : Nat) (diagnostics : List Diagnostic) :
    launched runOnce trace minimise budget diagnostics false = [] := by
  cases minimise <;> rfl

theorem forall_launched_iff (minimise : Bool) (budget : Nat) (diagnostics : List Diagnostic)
    (complete : Bool) :
    (∀ plan ∈ launched runOnce trace minimise budget diagnostics complete, (runOnce plan).isSome) ↔
      ∀ plan ∈ replaysAnswering runOnce trace minimise budget diagnostics complete,
        (runOnce plan).isSome := by
  unfold launched
  generalize replaysAnswering runOnce trace minimise budget diagnostics complete = plans
  constructor
  · intro returned
    by_contra hangs
    push Not at hangs
    obtain ⟨plan, mem, hung⟩ := hangs
    have inside : plans.findIdx (fun plan => (runOnce plan).isNone) < plans.length :=
      List.findIdx_lt_length_of_exists ⟨plan, mem, by simpa using hung⟩
    have first := List.findIdx_getElem (w := inside)
    have launches := returned plans[plans.findIdx fun plan => (runOnce plan).isNone]
      (List.mem_take_iff_getElem.mpr ⟨_, by omega, rfl⟩)
    simp only [Option.isNone_iff_eq_none] at first
    rw [first] at launches
    cases launches
  · intro returned plan mem
    exact returned plan (List.mem_of_mem_take mem)

/-- A shrink returns if and only if every replay it launches does. -/
theorem shrink_isSome_iff (runOnce : RunOnce) (trace : List UInt32) (minimise : Bool) (budget : Nat)
    (diagnostics : List Diagnostic) (complete : Bool) :
    (shrink runOnce trace minimise budget diagnostics complete).isSome ↔
      ∀ plan ∈ launched runOnce trace minimise budget diagnostics complete,
        (runOnce plan).isSome := by
  obtain ⟨out, answer, follows⟩ := exists_shrinkSpending runOnce trace
    minimise budget diagnostics complete
  have plans : replaysAnswering runOnce trace minimise budget diagnostics complete =
      out.2.replayed := by
    rw [replaysAnswering, answer]
    rfl
  rw [forall_launched_iff, plans, shrink, Option.isSome_map]
  constructor
  · intro some_outcome
    by_contra hung
    have none_so_far : Returned runOnce ⟨budget, []⟩ := fun plan mem => (List.not_mem_nil mem).elim
    rw [follows.hangs none_so_far hung] at some_outcome
    cases some_outcome
  · intro returned
    rw [follows.goes returned]
    rfl

end Riri.Explore
