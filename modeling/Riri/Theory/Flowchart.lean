import Mathlib.Data.List.Forall2

/-!
# Programs of basic blocks

A program of blocks maps each block and state to the next state and where control goes. Its
meaning is where it ends, if it does; a run gives up after so many blocks. There is a rule of
invariants for one program, one assertion for each block, and one of simulation for two. The
computations of the blocks can fail, so two of them are compared by what they return and by how
they fail.
-/
universe u v

/-! ### Computations that can fail -/

/-- Both return, related by `R`, or both fail, related by `F`. -/
inductive Except.Agree {α β : Type u} {ε φ : Type v} (F : ε → φ → Prop) (R : α → β → Prop) :
    Except ε α → Except φ β → Prop where
  | ok {a : α} {b : β} (related : R a b) : Agree F R (.ok a) (.ok b)
  | error {e : ε} {f : φ} (related : F e f) : Agree F R (.error e) (.error f)

namespace Except

variable {α β γ δ : Type u} {ε φ : Type v} {F : ε → φ → Prop} {R : α → β → Prop} {S : γ → δ → Prop}

theorem Agree.mono {R' : α → β → Prop} {x : Except ε α} {y : Except φ β} (agree : Agree F R x y)
    (weaker : ∀ a b, R a b → R' a b) : Agree F R' x y := by
  cases agree with
  | ok related => exact .ok (weaker _ _ related)
  | error related => exact .error related

theorem Agree.flip {x : Except ε α} {y : Except φ β} (agree : Agree F R x y) :
    Agree (fun f e => F e f) (fun b a => R a b) y x := by
  cases agree with
  | ok related => exact .ok related
  | error related => exact .error related

/-- Sequences agree if their parts do. -/
theorem Agree.bind {x : Except ε α} {y : Except φ β} {f : α → Except ε γ} {g : β → Except φ δ}
    (first : Agree F R x y) (rest : ∀ a b, R a b → Agree F S (f a) (g b)) :
    Agree F S (x >>= f) (y >>= g) := by
  cases first with
  | ok related => exact rest _ _ related
  | error related => exact .error related

theorem Agree.mapM {f : α → Except ε γ} {g : α → Except φ δ} (items : List α)
    (each : ∀ a ∈ items, Agree F S (f a) (g a)) :
    Agree F (List.Forall₂ S) (items.mapM f) (items.mapM g) := by
  induction items with
  | nil => exact .ok .nil
  | cons a items ih =>
    rw [List.mapM_cons, List.mapM_cons]
    refine (each a (by simp)).bind fun c d here => ?_
    refine (ih fun a member => each a (by simp [member])).bind fun cs ds there => ?_
    exact .ok (.cons here there)

theorem Agree.foldlM {f : γ → α → Except ε γ} {g : δ → α → Except φ δ} (items : List α)
    (each : ∀ a ∈ items, ∀ c d, S c d → Agree F S (f c a) (g d a)) {c : γ} {d : δ}
    (start : S c d) : Agree F S (items.foldlM f c) (items.foldlM g d) := by
  induction items generalizing c d with
  | nil => exact .ok start
  | cons a items ih =>
    rw [List.foldlM_cons, List.foldlM_cons]
    refine (each a (by simp) c d start).bind fun c' d' next => ?_
    exact ih (fun a member => each a (by simp [member])) next

/-- What a computation may return and how it may fail. -/
def Satisfies (P : ε → Prop) (Q : α → Prop) : Except ε α → Prop
  | .ok a => Q a
  | .error e => P e

variable {P : ε → Prop} {Q : α → Prop} {T : γ → Prop}

theorem Satisfies.bind {x : Except ε α} {f : α → Except ε γ} (first : x.Satisfies P Q)
    (rest : ∀ a, Q a → (f a).Satisfies P T) : (x >>= f).Satisfies P T := by
  cases x with
  | ok a => exact rest a first
  | error e => exact first

end Except

/-! ### Lists related element by element -/

namespace List.Forall₂

variable {α β : Type*} {R : α → β → Prop} {xs : List α} {ys : List β}

/-- Related lists are of one length, so they have an element at the same places. -/
theorem lookup (related : Forall₂ R xs ys) (i : Nat) :
    xs[i]? = none ∧ ys[i]? = none ∨ ∃ x y, xs[i]? = some x ∧ ys[i]? = some y ∧ R x y := by
  induction related generalizing i with
  | nil => exact .inl ⟨rfl, rfl⟩
  | cons here _ ih =>
    cases i with
    | zero => exact .inr ⟨_, _, rfl, rfl, here⟩
    | succ i => simpa using ih i

theorem set (related : Forall₂ R xs ys) (i : Nat) {x : α} {y : β} (new : R x y) :
    Forall₂ R (xs.set i x) (ys.set i y) := by
  induction related generalizing i with
  | nil => exact .nil
  | cons here there ih =>
    cases i with
    | zero => exact .cons new there
    | succ i => exact .cons here (ih i)

theorem replicate {x : α} {y : β} (n : Nat) (each : R x y) :
    Forall₂ R (List.replicate n x) (List.replicate n y) := by
  induction n with
  | zero => exact .nil
  | succ n ih => exact .cons each ih

end List.Forall₂

/-! ### Programs -/

/-- Blocks `ℓ` over states `σ` that fail with `ε`; a block that goes nowhere ends the program with
the result of its last state. -/
structure Flowchart (ℓ σ ω : Type u) (ε : Type v) where
  block : ℓ → σ → Except ε (σ × Option ℓ)
  result : σ → ω

namespace Flowchart

variable {ℓ σ ω : Type u} {ε : Type v} (f : Flowchart ℓ σ ω ε)

/-- From block `l` and state `s` the program ends after `n` more blocks. -/
inductive Ends : Nat → ℓ → σ → Except ε ω → Prop where
  | fails {l : ℓ} {s : σ} {e : ε} (here : f.block l s = .error e) : Ends 0 l s (.error e)
  | returns {l : ℓ} {s s' : σ} (here : f.block l s = .ok (s', none)) :
      Ends 0 l s (.ok (f.result s'))
  | goes {n : Nat} {l l' : ℓ} {s s' : σ} {r : Except ε ω}
      (here : f.block l s = .ok (s', some l')) (there : Ends n l' s' r) : Ends (n + 1) l s r

/-- Runs at most so many blocks. -/
def run (late : ε) : Nat → ℓ → σ → Except ε ω
  | 0, _, _ => .error late
  | n + 1, l, s =>
    match f.block l s with
    | .error e => .error e
    | .ok (s', none) => .ok (f.result s')
    | .ok (s', some l') => run late n l' s'

variable {f} {late : ε} {n k : Nat} {l : ℓ} {s : σ} {r : Except ε ω}

/-- A run either reaches the end or gives up before it. -/
theorem run_cases (f : Flowchart ℓ σ ω ε) (late : ε) (n : Nat) (l : ℓ) (s : σ) :
    (∃ k < n, f.Ends k l s (f.run late n l s)) ∨
      (∀ k < n, ∀ r, ¬ f.Ends k l s r) ∧ f.run late n l s = .error late := by
  induction n generalizing l s with
  | zero => exact .inr ⟨fun k within => absurd within (Nat.not_lt_zero k), rfl⟩
  | succ n ih =>
    cases here : f.block l s with
    | error e =>
      refine .inl ⟨0, Nat.succ_pos n, ?_⟩
      simp only [run, here]
      exact .fails here
    | ok left =>
      obtain ⟨s', target⟩ := left
      cases target with
      | none =>
        refine .inl ⟨0, Nat.succ_pos n, ?_⟩
        simp only [run, here]
        exact .returns here
      | some l' =>
        have moves : f.run late (n + 1) l s = f.run late n l' s' := by simp only [run, here]
        rw [moves]
        rcases ih l' s' with ⟨k, within, ends⟩ | ⟨never, gives_up⟩
        · exact .inl ⟨k + 1, Nat.succ_lt_succ within, .goes here ends⟩
        · refine .inr ⟨fun k within r ends => ?_, gives_up⟩
          cases ends with
          | fails other | returns other => cases here.symm.trans other
          | goes other there =>
            obtain ⟨rfl, rfl⟩ : s' = _ ∧ l' = _ := by
              simpa using here.symm.trans other
            exact never _ (Nat.lt_of_succ_lt_succ within) _ there

/-- The rule of invariants: an assertion for each block that its predecessors leave, and that gives
what the program may return and how it may fail. -/
theorem Ends.satisfies {I : ℓ → σ → Prop} {P : ε → Prop} {Q : ω → Prop}
    (fails : ∀ l s e, I l s → f.block l s = .error e → P e)
    (returns : ∀ l s s', I l s → f.block l s = .ok (s', none) → Q (f.result s'))
    (goes : ∀ l s l' s', I l s → f.block l s = .ok (s', some l') → I l' s')
    (ends : f.Ends n l s r) (start : I l s) : r.Satisfies P Q := by
  induction ends with
  | fails here => exact fails _ _ _ start here
  | returns here => exact returns _ _ _ start here
  | goes here _ ih => exact ih (goes _ _ _ _ start here)

section

variable {τ ψ : Type u} {φ : Type v} {g : Flowchart ℓ τ ψ φ} {F : ε → φ → Prop} {R : σ → τ → Prop}
  {O : ω → ψ → Prop}

/-- The rule of simulation: programs whose blocks agree from related states end together. -/
theorem Ends.simulates
    (blocks : ∀ l s t, R s t → Except.Agree F (fun a b => R a.1 b.1 ∧ a.2 = b.2)
      (f.block l s) (g.block l t))
    (results : ∀ s t, R s t → O (f.result s) (g.result t)) {t : τ} {r' : Except φ ψ}
    (ends : g.Ends n l t r') (start : R s t) : ∃ r, f.Ends n l s r ∧ Except.Agree F O r r' := by
  induction ends generalizing s with
  | @fails l t e here =>
    have agree := blocks l s t start
    rw [here] at agree
    generalize left : f.block l s = x at agree
    cases agree with
    | error related => exact ⟨_, .fails left, .error related⟩
  | @returns l t t' here =>
    have agree := blocks l s t start
    rw [here] at agree
    generalize left : f.block l s = x at agree
    cases agree with
    | @ok a _ related =>
      obtain ⟨s', target⟩ := a
      obtain ⟨states, rfl⟩ : R s' t' ∧ target = none := related
      exact ⟨_, .returns left, .ok (results _ _ states)⟩
  | @goes n l l' t t' r' here _ ih =>
    have agree := blocks l s t start
    rw [here] at agree
    generalize left : f.block l s = x at agree
    cases agree with
    | @ok a _ related =>
      obtain ⟨s', target⟩ := a
      obtain ⟨states, rfl⟩ : R s' t' ∧ target = some l' := related
      obtain ⟨r, ends, outcome⟩ := ih states
      exact ⟨r, .goes left ends, outcome⟩

/-- A limited run of a program that agrees with another: it ends with the other within the limit,
or gives up. -/
theorem run_simulates
    (blocks : ∀ l s t, R s t → Except.Agree F (fun a b => R a.1 b.1 ∧ a.2 = b.2)
      (f.block l s) (g.block l t))
    (results : ∀ s t, R s t → O (f.result s) (g.result t)) {t : τ} (start : R s t) :
    (∃ k < n, ∃ r, g.Ends k l t r ∧ Except.Agree F O (f.run late n l s) r) ∨
      (∀ k < n, ∀ r, ¬ g.Ends k l t r) ∧ f.run late n l s = .error late := by
  rcases f.run_cases late n l s with ⟨k, within, ends⟩ | ⟨never, gives_up⟩
  · have back : ∀ l t s, R s t → Except.Agree (fun e d => F d e) (fun a b => R b.1 a.1 ∧ a.2 = b.2)
        (g.block l t) (f.block l s) := fun l t s related =>
      (blocks l s t related).flip.mono fun a b same => ⟨same.1, same.2.symm⟩
    obtain ⟨r, ends', outcome⟩ := ends.simulates (R := fun t s => R s t) (O := fun b a => O a b)
      back (fun t s related => results s t related) start
    exact .inl ⟨k, within, r, ends', outcome.flip⟩
  · refine .inr ⟨fun k within r ends => ?_, gives_up⟩
    obtain ⟨r', ends', -⟩ := ends.simulates blocks results start
    exact never k within r' ends'

end

end Flowchart
