import Riri.Theory.Phases

/-!
# Interleavings

Threads in teams share a memory. A thread goes on by itself, replaces one element of the memory,
waits for its team or ends, and a team that waits as a whole goes on together. Only the steps that
replace an element can tell in what order they were made: every other step can be made at once,
and a run that made it later can be replaced by one that makes it now.
-/
universe u v w x y

namespace Interleaved

open Phased (Move)

/-- Threads, what each does next, and where one waits for its team or ends. -/
structure Web (τ : Type u) (β : Type y) (E : Type v) (V : Type w) (L : Type x) where
  members : Set τ
  team : τ → β
  next : τ → L → Move E V L
  waits : τ → L → Prop
  ends : τ → L → Prop
  resume : L → L
  stop_of_waits : ∀ {i l}, waits i l → next i l = .stop
  stop_of_ends : ∀ {i l}, ends i l → next i l = .stop
  not_waits : ∀ {i l}, ends i l → ¬ waits i l

/-- How far each thread is, and the memory. -/
@[ext] structure Scene (τ : Type u) (E : Type v) (V : Type w) (L : Type x) where
  now : τ → L
  mem : E → V

variable {τ : Type u} {β : Type y} {E : Type v} {V : Type w} {L : Type x}
  [DecidableEq τ] [DecidableEq β] [DecidableEq E]

namespace Scene

/-- Thread `i` goes on to `l`. -/
def move (s : Scene τ E V L) (i : τ) (l : L) : Scene τ E V L :=
  { s with now := Function.update s.now i l }

/-- Thread `i` goes on to `l` and leaves `v` in `e`. -/
def store (s : Scene τ E V L) (i : τ) (l : L) (e : E) (v : V) : Scene τ E V L :=
  ⟨Function.update s.now i l, Function.update s.mem e v⟩

/-- A team goes on together. -/
def meet (s : Scene τ E V L) (web : Web τ β E V L) (b : β) : Scene τ E V L :=
  { s with now := fun i => if web.team i = b then web.resume (s.now i) else s.now i }

section

variable {s : Scene τ E V L} {i j : τ} {l l' : L}

omit [DecidableEq E] in
@[simp] theorem move_mem : (s.move i l).mem = s.mem := rfl

omit [DecidableEq E] in
@[simp] theorem move_self : (s.move i l).now i = l := Function.update_self ..

omit [DecidableEq E] in
@[simp] theorem move_of_ne (away : j ≠ i) : (s.move i l).now j = s.now j :=
  Function.update_of_ne away ..

@[simp] theorem store_self {e : E} {v : V} : (s.store i l e v).now i = l :=
  Function.update_self ..

@[simp] theorem store_of_ne {e : E} {v : V} (away : j ≠ i) : (s.store i l e v).now j = s.now j :=
  Function.update_of_ne away ..

@[simp] theorem store_mem {e : E} {v : V} : (s.store i l e v).mem = Function.update s.mem e v := rfl

omit [DecidableEq τ] [DecidableEq E] in
@[simp] theorem meet_mem {web : Web τ β E V L} {b : β} : (s.meet web b).mem = s.mem := rfl

omit [DecidableEq τ] [DecidableEq E] in
theorem meet_of_team {web : Web τ β E V L} {b : β} (mate : web.team i = b) :
    (s.meet web b).now i = web.resume (s.now i) := if_pos mate

omit [DecidableEq τ] [DecidableEq E] in
theorem meet_of_ne {web : Web τ β E V L} {b : β} (away : web.team i ≠ b) :
    (s.meet web b).now i = s.now i := if_neg away

omit [DecidableEq E] in
theorem move_move (away : i ≠ j) : (s.move i l).move j l' = (s.move j l').move i l := by
  simp [move, Function.update_comm away]

theorem move_store {e : E} {v : V} (away : i ≠ j) :
    (s.move i l).store j l' e v = (s.store j l' e v).move i l := by
  simp [move, store, Function.update_comm away]

omit [DecidableEq E] in
theorem move_meet {web : Web τ β E V L} {b : β} (away : web.team i ≠ b) :
    (s.move i l).meet web b = (s.meet web b).move i l := by
  ext j : 2
  · by_cases own : j = i
    · subst own
      simp [meet_of_ne away]
    · by_cases mate : web.team j = b
      · simp [own, meet_of_team mate]
      · simp [own, meet_of_ne mate]
  · rfl

theorem store_meet {web : Web τ β E V L} {b : β} {e : E} {v : V} (away : web.team i ≠ b) :
    (s.store i l e v).meet web b = (s.meet web b).store i l e v := by
  have moved := congrArg Scene.now (move_meet (s := s) (l := l) away)
  ext j : 2
  · exact congrFun moved j
  · rfl

omit [DecidableEq τ] [DecidableEq E] in
theorem meet_meet {web : Web τ β E V L} {b b' : β} (away : b ≠ b') :
    (s.meet web b).meet web b' = (s.meet web b').meet web b := by
  ext j : 2
  · by_cases first : web.team j = b
    · have second : web.team j ≠ b' := fun same => away (first.symm.trans same)
      simp [meet_of_team first, meet_of_ne second]
    · by_cases second : web.team j = b'
      · simp [meet_of_ne first, meet_of_team second]
      · simp [meet_of_ne first, meet_of_ne second]
  · rfl

end

end Scene

namespace Web

variable (web : Web τ β E V L)

/-- A step: of a thread that replaces an element, or of no such thread. -/
inductive Step (s : Scene τ E V L) : Option τ → Scene τ E V L → Prop where
  | inner {i : τ} {l : L} (member : i ∈ web.members) (goes : web.next i (s.now i) = .inner l) :
      Step s none (s.move i l)
  | meet {i : τ} (member : i ∈ web.members)
      (everyone : ∀ j ∈ web.members, web.team j = web.team i → web.waits j (s.now j)) :
      Step s none (s.meet web (web.team i))
  | access {i : τ} {e : E} {f : V → Option (V × L)} {r : V × L} (member : i ∈ web.members)
      (goes : web.next i (s.now i) = .access e f) (made : f (s.mem e) = some r) :
      Step s (some i) (s.store i r.2 e r.1)

/-- From one scene to another by steps whose accesses are those of the threads of `order`. -/
inductive Runs : Scene τ E V L → List τ → Scene τ E V L → Prop where
  | refl (s : Scene τ E V L) : Runs s [] s
  | step {s t u : Scene τ E V L} {i : Option τ} {order : List τ} (first : web.Step s i t)
      (later : Runs t order u) : Runs s (i.toList ++ order) u

/-- Everybody has ended. -/
def Complete (s : Scene τ E V L) : Prop := ∀ i ∈ web.members, web.ends i (s.now i)

variable {web} {s t t' u : Scene τ E V L} {i j : τ} {order : List τ}

theorem Runs.trans {order' : List τ} (first : web.Runs s order t) (later : web.Runs t order' u) :
    web.Runs s (order ++ order') u := by
  induction first with
  | refl => exact later
  | step stepped _ ih =>
    rw [List.append_assoc]
    exact .step stepped (ih later)

theorem Step.runs {l : Option τ} (stepped : web.Step s l t) : web.Runs s l.toList t := by
  have run := Runs.step stepped (.refl t)
  rwa [List.append_nil] at run

theorem Step.member (stepped : web.Step s (some i) t) : i ∈ web.members := by
  cases stepped with
  | access member => exact member

theorem Step.next (stepped : web.Step s (some i) t) : ∃ e f, web.next i (s.now i) = .access e f := by
  cases stepped with
  | access _ goes => exact ⟨_, _, goes⟩

/-! ### Who has ended, or can do nothing -/

/-- A thread that neither goes on nor waits stays where it is. -/
theorem Step.still {l : Option τ} (stepped : web.Step s l t) (member : j ∈ web.members)
    (stops : web.next j (s.now j) = .stop) (idle : ¬ web.waits j (s.now j)) :
    t.now j = s.now j := by
  cases stepped with
  | @inner i _ _ goes =>
    refine Scene.move_of_ne fun same => ?_
    rw [← same, stops] at goes
    cases goes
  | @access i _ _ _ _ goes =>
    refine Scene.store_of_ne fun same => ?_
    rw [← same, stops] at goes
    cases goes
  | meet _ everyone => exact Scene.meet_of_ne fun mate => idle (everyone j member mate)

theorem Runs.still (run : web.Runs s order u) (member : j ∈ web.members)
    (stops : web.next j (s.now j) = .stop) (idle : ¬ web.waits j (s.now j)) :
    u.now j = s.now j := by
  induction run with
  | refl => rfl
  | step stepped _ ih =>
    have same := stepped.still member stops idle
    rw [← same] at stops idle
    exact (ih stops idle).trans same

/-- Who stops without waiting has ended, where all do in the end. -/
theorem Runs.ends (run : web.Runs s order u) (complete : web.Complete u) (member : j ∈ web.members)
    (stops : web.next j (s.now j) = .stop) (idle : ¬ web.waits j (s.now j)) :
    web.ends j (s.now j) := by
  rw [← run.still member stops idle]
  exact complete j member

/-- A thread keeps waiting while somebody of its team has ended. -/
theorem Step.waiting {l : Option τ} (stepped : web.Step s l t) (member : j ∈ web.members)
    (waits : web.waits i (s.now i)) (mates : web.team j = web.team i)
    (ended : web.ends j (s.now j)) : t.now i = s.now i := by
  have stops := web.stop_of_waits waits
  cases stepped with
  | inner _ goes =>
    refine Scene.move_of_ne fun same => ?_
    rw [← same, stops] at goes
    cases goes
  | access _ goes =>
    refine Scene.store_of_ne fun same => ?_
    rw [← same, stops] at goes
    cases goes
  | meet _ everyone =>
    refine Scene.meet_of_ne fun mate => ?_
    exact web.not_waits ended (everyone j member (mates.trans mate))

/-- Nobody waits for a thread that has ended, where all end. -/
theorem Runs.not_waits (run : web.Runs s order u) (complete : web.Complete u)
    (waiter : i ∈ web.members) (member : j ∈ web.members) (mates : web.team j = web.team i)
    (ended : web.ends j (s.now j)) : ¬ web.waits i (s.now i) := by
  intro waits
  induction run with
  | refl => exact web.not_waits (complete i waiter) waits
  | step stepped _ ih =>
    have still := stepped.still member (web.stop_of_ends ended) (web.not_waits ended)
    have same := stepped.waiting member waits mates ended
    rw [← still] at ended
    rw [← same] at waits
    exact ih complete ended waits

/-! ### Steps that replace nothing -/

/-- A step that replaces nothing and another are the same, or can be made in either order. -/
theorem Step.commutes {l : Option τ} (silent : web.Step s none t) (stepped : web.Step s l t') :
    (l = none ∧ t' = t) ∨ ∃ u, web.Step t l u ∧ web.Step t' none u := by
  cases silent with
  | @inner i l₁ member goes =>
    cases stepped with
    | @inner j l₂ member' goes' =>
      by_cases same : i = j
      · subst same
        rw [goes] at goes'
        cases goes'
        exact .inl ⟨rfl, rfl⟩
      · refine .inr ⟨(s.move i l₁).move j l₂, .inner member' ?_, ?_⟩
        · simpa [Ne.symm same] using goes'
        · rw [Scene.move_move same]
          exact .inner member (by simpa [same] using goes)
    | @meet j member' everyone =>
      have apart : web.team i ≠ web.team j := by
        intro mates
        have stops := web.stop_of_waits (everyone i member mates)
        rw [goes] at stops
        cases stops
      refine .inr ⟨(s.move i l₁).meet web (web.team j), .meet member' ?_, ?_⟩
      · intro k inside mates
        have other : k ≠ i := by
          intro same
          exact apart (by rw [← same, mates])
        simpa [other] using everyone k inside mates
      · rw [Scene.move_meet apart]
        exact .inner member (by rwa [Scene.meet_of_ne apart])
    | @access j e f r member' goes' made =>
      have apart : i ≠ j := by
        intro same
        rw [← same, goes] at goes'
        cases goes'
      refine .inr ⟨(s.move i l₁).store j r.2 e r.1, .access member' ?_ made, ?_⟩
      · simpa [Ne.symm apart] using goes'
      · rw [Scene.move_store apart]
        exact .inner member (by simpa [apart] using goes)
  | @meet i member everyone =>
    cases stepped with
    | @inner j l₂ member' goes' =>
      have apart : web.team j ≠ web.team i := by
        intro mates
        have stops := web.stop_of_waits (everyone j member' mates)
        rw [goes'] at stops
        cases stops
      refine .inr ⟨(s.meet web (web.team i)).move j l₂, .inner member' ?_, ?_⟩
      · rwa [Scene.meet_of_ne apart]
      · rw [← Scene.move_meet apart]
        refine .meet member fun k inside mates => ?_
        have other : k ≠ j := by
          intro same
          exact apart (by rw [← same, mates])
        simpa [other] using everyone k inside mates
    | @meet j member' everyone' =>
      by_cases same : web.team i = web.team j
      · rw [same]
        exact .inl ⟨rfl, rfl⟩
      · refine .inr ⟨(s.meet web (web.team i)).meet web (web.team j), .meet member' ?_, ?_⟩
        · intro k inside mates
          rw [Scene.meet_of_ne (by rw [mates]; exact Ne.symm same)]
          exact everyone' k inside mates
        · rw [Scene.meet_meet same]
          refine .meet member fun k inside mates => ?_
          rw [Scene.meet_of_ne (by rwa [mates])]
          exact everyone k inside mates
    | @access j e f r member' goes' made =>
      have apart : web.team j ≠ web.team i := by
        intro mates
        have stops := web.stop_of_waits (everyone j member' mates)
        rw [goes'] at stops
        cases stops
      refine .inr ⟨(s.meet web (web.team i)).store j r.2 e r.1, .access member' ?_ made, ?_⟩
      · rwa [Scene.meet_of_ne apart]
      · rw [← Scene.store_meet apart]
        refine .meet member fun k inside mates => ?_
        have other : k ≠ j := by
          intro same
          exact apart (by rw [← same, mates])
        simpa [other] using everyone k inside mates

theorem Complete.no_step {l : Option τ} (complete : web.Complete s) : ¬ web.Step s l t := by
  intro stepped
  cases stepped with
  | @inner i _ member goes | @access i _ _ _ member goes =>
    rw [web.stop_of_ends (complete i member)] at goes
    cases goes
  | @meet i member everyone =>
    exact web.not_waits (complete i member) (everyone i member rfl)

/-- A step that replaces nothing can be made at once. -/
theorem Runs.of_silent (run : web.Runs s order u) (complete : web.Complete u)
    (silent : web.Step s none t) : web.Runs t order u := by
  induction run generalizing t with
  | refl => exact absurd silent complete.no_step
  | step stepped later ih =>
    rcases silent.commutes stepped with ⟨rfl, rfl⟩ | ⟨r, first, second⟩
    · exact later
    · exact .step first (ih complete second)

/-- Where no such step is left, a run goes on with the first of its accesses or is over. -/
theorem Runs.of_quiet (run : web.Runs s order u) (quiet : ∀ t, ¬ web.Step s none t) :
    (order = [] ∧ s = u) ∨ ∃ i rest t, order = i :: rest ∧ web.Step s (some i) t ∧
      web.Runs t rest u := by
  cases run with
  | refl => exact .inl ⟨rfl, rfl⟩
  | @step _ t _ l rest stepped later =>
    cases l with
    | none => exact absurd stepped (quiet t)
    | some i => exact .inr ⟨i, rest, t, rfl, stepped, later⟩

/-- The step of a thread that replaces an element is decided by the scene. -/
theorem Step.access_unique (first : web.Step s (some i) t) (second : web.Step s (some i) t') :
    t = t' := by
  cases first with
  | access _ goes made =>
    cases second with
    | access _ goes' made' =>
      rw [goes] at goes'
      cases goes'
      rw [made] at made'
      cases made'
      rfl

/-- An access that can be made and is the next to be made can be made at once. -/
theorem Runs.of_access {rest : List τ} (run : web.Runs s (i :: rest) u)
    (accesses : web.Step s (some i) t) : web.Runs t rest u := by
  generalize all : i :: rest = order at run
  induction run generalizing t with
  | refl => cases all
  | @step s₁ t₁ _ l later_order stepped later ih =>
    cases l with
    | none =>
      rcases stepped.commutes accesses with ⟨none, -⟩ | ⟨r, first, second⟩
      · cases none
      · exact .step second (ih first all)
    | some j =>
      obtain ⟨rfl, rfl⟩ := List.cons.inj all
      rw [accesses.access_unique stepped]
      exact later

theorem Runs.of_complete (run : web.Runs s order u) (complete : web.Complete s) :
    order = [] ∧ u = s := by
  cases run with
  | refl => exact ⟨rfl, rfl⟩
  | step stepped => exact absurd stepped complete.no_step

/-- The order of the accesses decides where everybody ends and what the memory is then. -/
theorem Runs.unique {u' : Scene τ E V L} (run : web.Runs s order u) (complete : web.Complete u)
    (run' : web.Runs s order u') (complete' : web.Complete u') : u = u' := by
  induction run with
  | refl => exact (run'.of_complete complete).2.symm
  | @step s t _ l rest stepped later ih =>
    cases l with
    | none => exact ih complete (run'.of_silent complete' stepped)
    | some i => exact ih complete (run'.of_access stepped)

end Web

end Interleaved
