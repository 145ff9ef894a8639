import Riri.Source.Explore

/-!
# What a shrunk schedule is worth

Every test of a shrink is a replay paid out of one budget, and a spent budget answers no. The
search keeps a prefix that reproduces and, as long as there is budget, one that does not; when
they are neighbours it stops.
-/
namespace Riri

/-- Dropping a switch adds none. -/
theorem switches_cons_cons (a b : UInt32) (rest : List UInt32) :
    switches (a :: b :: rest) = switches (b :: rest) + if a = b then 0 else 1 := by
  by_cases same : a = b <;> simp [switches, same]

theorem switches_set_le (plan : List UInt32) (i : Nat) (pos : 0 < i) (lt : i < plan.length) :
    switches (plan.set i (plan.getD (i - 1) 0)) ≤ switches plan := by
  induction plan generalizing i with
  | nil => exact absurd lt (Nat.not_lt_zero i)
  | cons a rest ih =>
    cases rest with
    | nil => simp only [List.length_singleton] at lt; omega
    | cons b rest =>
      rcases Nat.eq_or_lt_of_le pos with first | later
      · have one : i = 1 := first.symm
        subst one
        change switches (a :: a :: rest) ≤ switches (a :: b :: rest)
        rw [switches_cons_cons, switches_cons_cons, if_pos rfl]
        cases rest with
        | nil => simp [switches]
        | cons c rest =>
          rw [switches_cons_cons, switches_cons_cons]
          by_cases first : a = b
          · simp [first]
          · by_cases second : b = c
            · simp [second]
            · simp only [first, second, if_false]
              split <;> omega
      · obtain ⟨k, rfl⟩ : ∃ k, i = k + 2 := ⟨i - 2, by omega⟩
        have step := ih (k + 1) (Nat.succ_pos k) (by simpa using lt)
        change switches (a :: b :: rest.set k _) ≤ _
        rw [switches_cons_cons, switches_cons_cons]
        exact Nat.add_le_add_right step _

namespace Explore

variable {runOnce : RunOnce} {trace : List UInt32}

def Tried (runOnce : RunOnce) (plan : List UInt32) (found : Bool) (s : Spent) : Prop :=
  plan ∈ s.replayed ∧ runOnce plan = some found

/-- A plan is known not to reproduce, unless there was no budget left to try it. -/
def Lacks (runOnce : RunOnce) (plan : List UInt32) (s : Spent) : Prop :=
  s.budget = 0 ∨ Tried runOnce plan false s

structure Spends (s s' : Spent) : Prop where
  replayed : s.replayed ⊆ s'.replayed
  paid : s'.replayed.length + s'.budget = s.replayed.length + s.budget
  budget : s'.budget ≤ s.budget

theorem Spends.refl (s : Spent) : Spends s s := ⟨fun _ => id, rfl, le_rfl⟩

theorem Spends.trans {s s' s'' : Spent} (first : Spends s s') (second : Spends s' s'') :
    Spends s s'' :=
  ⟨fun _ h => second.replayed (first.replayed h), second.paid.trans first.paid,
    second.budget.trans first.budget⟩

theorem Tried.later {plan : List UInt32} {found : Bool} {s s' : Spent}
    (tried : Tried runOnce plan found s) (spends : Spends s s') : Tried runOnce plan found s' :=
  ⟨spends.replayed tried.1, tried.2⟩

theorem Lacks.later {plan : List UInt32} {s s' : Spent} (lacks : Lacks runOnce plan s)
    (spends : Spends s s') : Lacks runOnce plan s' := by
  rcases lacks with spent | tried
  · have less := spends.budget
    exact .inl (by omega)
  · exact .inr (tried.later spends)

/-- What one test tells. -/
theorem reproduces_spec {plan : List UInt32} {found : Bool} {s s' : Spent}
    (answer : reproduces runOnce plan s = some (found, s')) :
    Spends s s' ∧ (found = true → Tried runOnce plan true s') ∧
      (found = false → Lacks runOnce plan s') := by
  unfold reproduces at answer
  split at answer
  next spent =>
    obtain ⟨rfl, rfl⟩ := Prod.mk.inj (Option.some.inj answer)
    exact ⟨.refl s, fun h => (by cases h), fun _ => .inl spent⟩
  next left =>
    obtain ⟨found', ran, same⟩ := Option.map_eq_some_iff.mp answer
    obtain ⟨rfl, rfl⟩ := Prod.mk.inj same
    have last : plan ∈ s.replayed ++ [plan] := by simp
    refine ⟨⟨fun p h => by simp [h], ?_, Nat.sub_le ..⟩, ?_, ?_⟩
    · simp only [List.length_append, List.length_singleton]
      omega
    · rintro rfl
      exact ⟨last, ran⟩
    · rintro rfl
      exact .inr ⟨last, ran⟩

/-- The doubling search ends between a prefix that lacks the finding and one that has it. -/
theorem double_spec {lo step : Nat} {pos : 0 < step} {s : Spent} {lo' hi' : Nat} {s' : Spent}
    (answer : double runOnce trace lo step pos s = some (lo', hi', s'))
    (whole : Tried runOnce trace true s) (low : Lacks runOnce (trace.take lo) s)
    (below : lo < step) (inside : lo < trace.length ∨ trace.length = 0) :
    Spends s s' ∧ Lacks runOnce (trace.take lo') s' ∧ Tried runOnce (trace.take hi') true s' ∧
      hi' ≤ trace.length ∧ (lo' < hi' ∨ hi' = 0) := by
  fun_induction double runOnce trace lo step pos s with
  | case1 => cases answer
  | case2 lo step pos s more s₁ found =>
    obtain ⟨rfl, rfl, rfl⟩ : lo = lo' ∧ step = hi' ∧ s₁ = s' := by simpa using answer
    obtain ⟨spends, has, -⟩ := reproduces_spec found
    exact ⟨spends, low.later spends, has rfl, Nat.le_of_lt more, .inl below⟩
  | case3 lo step pos s more s₁ found ih =>
    obtain ⟨spends, -, lacks⟩ := reproduces_spec found
    obtain ⟨spends', rest⟩ := ih answer (whole.later spends) (lacks rfl) (by omega) (.inl more)
    exact ⟨spends.trans spends', rest⟩
  | case4 lo step pos s more =>
    obtain ⟨rfl, rfl, rfl⟩ : lo = lo' ∧ trace.length = hi' ∧ s = s' := by simpa using answer
    exact ⟨.refl s, low, by rwa [List.take_length], le_rfl, inside⟩

/-- The bisection ends next to a prefix that lacks the finding. -/
theorem bisect_spec {lo hi : Nat} {s : Spent} {hi' : Nat} {s' : Spent}
    (answer : bisect runOnce trace lo hi s = some (hi', s'))
    (low : Lacks runOnce (trace.take lo) s) (high : Tried runOnce (trace.take hi) true s)
    (between : lo < hi ∨ hi = 0) :
    Spends s s' ∧ Tried runOnce (trace.take hi') true s' ∧ hi' ≤ hi ∧
      (hi' = 0 ∨ Lacks runOnce (trace.take (hi' - 1)) s') := by
  fun_induction bisect runOnce trace lo hi s with
  | case1 => cases answer
  | case2 lo hi s more mid s₁ found ih =>
    have middle : mid = lo + (hi - lo) / 2 := rfl
    obtain ⟨spends, has, -⟩ := reproduces_spec found
    obtain ⟨spends', high', le, near⟩ :=
      ih answer (low.later spends) (has rfl) (.inl (by omega))
    exact ⟨spends.trans spends', high', by omega, near⟩
  | case3 lo hi s more mid s₁ found ih =>
    have middle : mid = lo + (hi - lo) / 2 := rfl
    obtain ⟨spends, -, lacks⟩ := reproduces_spec found
    obtain ⟨spends', rest⟩ := ih answer (lacks rfl) (high.later spends) (.inl (by omega))
    exact ⟨spends.trans spends', rest⟩
  | case4 lo hi s more =>
    obtain ⟨rfl, rfl⟩ : hi = hi' ∧ s = s' := by simpa using answer
    refine ⟨.refl s, high, le_rfl, ?_⟩
    rcases between with below | zero
    · have neighbours : hi - 1 = lo := by omega
      exact .inr (by rw [neighbours]; exact low)
    · exact .inl zero

/-- Dropping switches keeps a plan that has the finding. -/
theorem dropSwitches_spec {i : Nat} {plan plan' : List UInt32} {s s' : Spent}
    (answer : dropSwitches runOnce i plan s = some (plan', s')) (pos : 0 < i)
    (has : Tried runOnce plan true s) :
    Spends s s' ∧ Tried runOnce plan' true s' ∧ plan'.length = plan.length ∧
      switches plan' ≤ switches plan := by
  fun_induction dropSwitches runOnce i plan s with
  | case1 i plan s more spent =>
    obtain ⟨rfl, rfl⟩ : plan = plan' ∧ s = s' := by simpa using answer
    exact ⟨.refl s, has, rfl, le_rfl⟩
  | case2 i plan s more rest same ih => exact ih answer (by omega) has
  | case3 => cases answer
  | case4 i plan s more rest other candidate s₁ found ih =>
    obtain ⟨spends, has', -⟩ := reproduces_spec found
    obtain ⟨spends', has'', length, fewer⟩ := ih answer (by omega) (has' rfl)
    refine ⟨spends.trans spends', has'', length.trans (List.length_set ..), fewer.trans ?_⟩
    exact switches_set_le plan i pos more
  | case5 i plan s more rest other candidate s₁ found ih =>
    obtain ⟨spends, -, -⟩ := reproduces_spec found
    obtain ⟨spends', kept⟩ := ih answer (by omega) (has.later spends)
    exact ⟨spends.trans spends', kept⟩
  | case6 i plan s more =>
    obtain ⟨rfl, rfl⟩ : plan = plan' ∧ s = s' := by simpa using answer
    exact ⟨.refl s, has, rfl, le_rfl⟩

/-- What a minimised plan is, after these replays. -/
structure Minimal (runOnce : RunOnce) (trace : List UInt32) (budget : Nat) (plan : List UInt32)
    (s : Spent) : Prop where
  reproduced : plan ∈ s.replayed ∧ runOnce plan = some true
  shorter : plan.length ≤ trace.length
  fewer : switches plan ≤ switches (trace.take plan.length)
  paid : s.replayed.length ≤ budget
  neighbour : s.replayed.length < budget → plan = [] ∨
    (trace.take (plan.length - 1) ∈ s.replayed ∧
      runOnce (trace.take (plan.length - 1)) = some false)

/-- From a prefix that has the finding and one decision less that lacks it. -/
theorem minimal_of_prefix {budget hi : Nat} {plan : List UInt32} {s s' : Spent}
    (answer : dropSwitches runOnce 1 (trace.take hi) s = some (plan, s'))
    (has : Tried runOnce (trace.take hi) true s) (le : hi ≤ trace.length)
    (paid : s.replayed.length + s.budget = budget)
    (near : hi = 0 ∨ Lacks runOnce (trace.take (hi - 1)) s) :
    Minimal runOnce trace budget plan s' := by
  obtain ⟨spends, has', length, fewer⟩ := dropSwitches_spec answer Nat.one_pos has
  have cut : plan.length = hi := by rw [length, List.length_take, Nat.min_eq_left le]
  have total := spends.paid
  refine ⟨has', by omega, by rw [cut]; exact fewer, by omega, fun left => ?_⟩
  rw [cut]
  rcases near with zero | lacks
  · exact .inl (List.eq_nil_of_length_eq_zero (cut.trans zero))
  · rcases lacks.later spends with spent | tried
    · omega
    · exact .inr tried

/-- How a shrink came to its outcome: one constructor for each way through it. -/
inductive Shrinks (runOnce : RunOnce) (trace : List UInt32) (minimise : Bool) (budget : Nat)
    (diagnostics : List Diagnostic) (complete : Bool) : Shrink → Spent → Prop where
  | off (off : minimise = false) :
      Shrinks runOnce trace minimise budget diagnostics complete .disabled ⟨budget, []⟩
  | truncated (on : minimise = true) (incomplete : complete = false) :
      Shrinks runOnce trace minimise budget diagnostics complete .traceTruncated ⟨budget, []⟩
  | clean (none : diagnostics = []) :
      Shrinks runOnce trace minimise budget diagnostics complete .disabled ⟨budget, []⟩
  | lost {s : Spent} (on : minimise = true) (all : complete = true)
      (whole : reproduces runOnce trace ⟨budget, []⟩ = some (false, s)) :
      Shrinks runOnce trace minimise budget diagnostics complete .notReproducible s
  | unplanned {s₁ s₂ s : Spent} {plan : List UInt32}
      (whole : reproduces runOnce trace ⟨budget, []⟩ = some (true, s₁))
      (empty : reproduces runOnce [] s₁ = some (true, s₂))
      (dropped : dropSwitches runOnce 1 [] s₂ = some (plan, s)) :
      Shrinks runOnce trace minimise budget diagnostics complete (.minimised plan) s
  | cut {s₁ s₂ s₃ s₄ s : Spent} {lo hi hi' : Nat} {plan : List UInt32}
      (whole : reproduces runOnce trace ⟨budget, []⟩ = some (true, s₁))
      (empty : reproduces runOnce [] s₁ = some (false, s₂))
      (doubled : double runOnce trace 0 1 Nat.one_pos s₂ = some (lo, hi, s₃))
      (bisected : bisect runOnce trace lo hi s₃ = some (hi', s₄))
      (dropped : dropSwitches runOnce 1 (trace.take hi') s₄ = some (plan, s)) :
      Shrinks runOnce trace minimise budget diagnostics complete (.minimised plan) s

theorem shrinks_of_answer {minimise : Bool} {budget : Nat} {diagnostics : List Diagnostic}
    {complete : Bool} {shrunk : Shrink} {s : Spent}
    (answer : shrinkSpending runOnce trace minimise budget diagnostics complete =
      some (shrunk, s)) :
    Shrinks runOnce trace minimise budget diagnostics complete shrunk s := by
  unfold shrinkSpending at answer
  dsimp only at answer
  split at answer
  next off =>
    cases answer
    exact .off (by simpa using off)
  next on =>
    split at answer
    next incomplete =>
      cases answer
      exact .truncated (by simpa using on) (by simpa using incomplete)
    rename_i all
    split at answer
    next none =>
      cases answer
      exact .clean none
    split at answer
    · cases answer
    next s₁ whole =>
      cases answer
      exact .lost (by simpa using on) (by simpa using all) whole
    next s₁ whole =>
      split at answer
      · cases answer
      next s₂ empty =>
        obtain ⟨⟨plan, s'⟩, dropped, same⟩ := Option.map_eq_some_iff.mp answer
        cases same
        exact .unplanned whole empty dropped
      next s₂ empty =>
        split at answer
        · cases answer
        next lo hi s₃ doubled =>
          split at answer
          · cases answer
          next hi' s₄ bisected =>
            obtain ⟨⟨plan, s'⟩, dropped, same⟩ := Option.map_eq_some_iff.mp answer
            cases same
            exact .cut whole empty doubled bisected dropped

/-- What is known of the plan a shrink returns. -/
theorem minimal_of_shrunk {minimise : Bool} {budget : Nat} {diagnostics : List Diagnostic}
    {complete : Bool} {plan : List UInt32} {s : Spent}
    (shrinks : Shrinks runOnce trace minimise budget diagnostics complete (.minimised plan) s) :
    Minimal runOnce trace budget plan s := by
  cases shrinks with
  | unplanned whole empty dropped =>
    obtain ⟨spends₁, -, -⟩ := reproduces_spec whole
    obtain ⟨spends₂, has, -⟩ := reproduces_spec empty
    have paid := (spends₁.trans spends₂).paid
    have dropped : dropSwitches runOnce 1 (trace.take 0) _ = some (plan, s) := dropped
    exact minimal_of_prefix dropped (has rfl) (Nat.zero_le _) (by simpa using paid) (.inl rfl)
  | cut whole empty doubled bisected dropped =>
    obtain ⟨spends₁, kept, -⟩ := reproduces_spec whole
    obtain ⟨spends₂, -, lacks⟩ := reproduces_spec empty
    obtain ⟨spends₃, low, high, le, between⟩ := double_spec doubled ((kept rfl).later spends₂)
      (lacks rfl) Nat.one_pos (Nat.eq_zero_or_pos _).symm
    obtain ⟨spends₄, high', le', near⟩ := bisect_spec bisected low high between
    have paid := (((spends₁.trans spends₂).trans spends₃).trans spends₄).paid
    exact minimal_of_prefix dropped high' (le'.trans le) (by simpa using paid) near

/-- A shrink that returns a plan replayed it and found the target; the plan is no longer and no
more switched than the recording it was cut from, the replays stayed in the budget, and unless
the budget ran out one decision less was tried and did not reproduce. -/
theorem shrink_minimal (runOnce : RunOnce) (trace : List UInt32) (minimise : Bool) (budget : Nat)
    (diagnostics : List Diagnostic) (complete : Bool) (plan : List UInt32)
    (returned : shrink runOnce trace minimise budget diagnostics complete =
      some (.minimised plan)) :
    ∃ s, shrinkSpending runOnce trace minimise budget diagnostics complete =
      some (.minimised plan, s) ∧ Minimal runOnce trace budget plan s := by
  obtain ⟨⟨shrunk, s⟩, answer, rfl⟩ := Option.map_eq_some_iff.mp returned
  exact ⟨s, answer, minimal_of_shrunk (shrinks_of_answer answer)⟩

/-- A run that reproduces once thread 1 has had the turn twice. -/
def twiceOne : RunOnce := fun plan => some (decide (2 ≤ plan.count 1))

def someFinding : Diagnostic := .kernelPanic 0 0 "overflow"

theorem shrink_minimal_twiceOne :
    ∃ s, shrinkSpending twiceOne [0, 1, 0, 1, 0, 0] true 256 [someFinding] true =
      some (.minimised [0, 1, 1, 1], s) ∧ Minimal twiceOne [0, 1, 0, 1, 0, 0] 256 [0, 1, 1, 1] s :=
  shrink_minimal twiceOne [0, 1, 0, 1, 0, 0] true 256 [someFinding] true [0, 1, 1, 1]
    (by decide +kernel)

end Explore

end Riri
