import Riri.Run.Clocks
import Riri.Sched.Reports

/-!
# Shadow cells along a run

What a step does to the history of an element, which steps raise a race, and where the
records of a cell come from.
-/
namespace Riri

/-- The element a label's access touched, with the record it left. An access outside its
array touches none. -/
def Label.touched? {V : Type} : Label V → Option (Ctx × (Buf × Nat) × Access)
  | .access cx m acc _ _ | .fault cx m acc false => some (cx, (m.buf, m.index), acc)
  | _ => none

theorem Label.ctx?_of_touched {V : Type} {l : Label V} {cx : Ctx} {e : Buf × Nat} {acc : Access}
    (touched : l.touched? = some (cx, e, acc)) : l.ctx? = some cx := by
  cases l with
  | access => cases touched; rfl
  | fault cx m acc outside => cases outside <;> cases touched; rfl
  | _ => cases touched

def Diagnostic.race? : Diagnostic → Option (MemSpace × Nat × Access × Access)
  | .dataRace space index first second => some (space, index, first, second)
  | _ => none

namespace Cell

/-- What later accesses are weighed against. -/
def history (c : Cell) : Option Access × List Access := (c.lastWrite, c.readers)

def Keeps (c : Cell) (a : Access) : Prop := c.lastWrite = some a ∨ a ∈ c.readers

theorem record_congr {c d : Cell} (same : c.history = d.history) (acc : Access) (now : Clock) :
    (c.record acc now).1.history = (d.record acc now).1.history ∧
      (c.record acc now).2 = (d.record acc now).2 := by
  obtain ⟨writes, reads⟩ := Prod.mk.inj same
  unfold record history
  cases acc.kind <;> simp [onRead, onWrite, writes, reads]

/-- A conflict is a kept record concurrent with the access. -/
theorem conflict_kept {c : Cell} {acc first : Access} {now : Clock}
    (h : (c.record acc now).2 = some first) :
    c.Keeps first ∧ concurrent first acc now = true := by
  have of_write : (c.lastWrite.filter fun w => concurrent w acc now) = some first →
      c.Keeps first ∧ concurrent first acc now = true := by
    intro found
    obtain ⟨write, races⟩ := Option.filter_eq_some_iff.mp found
    exact ⟨.inl write, races⟩
  have of_any : (c.onWrite acc now).2 = some first →
      c.Keeps first ∧ concurrent first acc now = true := by
    intro found
    rcases Option.or_eq_some_iff.mp found with found | ⟨-, found⟩
    · exact of_write found
    · exact ⟨.inr (List.mem_of_find?_eq_some found),
        List.find?_some (p := fun r => concurrent r acc now) found⟩
  unfold record at h
  split at h
  · exact of_write h
  · exact of_any h
  · exact of_any h

/-- A kept record was kept before or is the access just made. -/
theorem keeps_record {c : Cell} {acc a : Access} {now : Clock}
    (h : (c.record acc now).1.Keeps a) : c.Keeps a ∨ a = acc := by
  have of_write : (c.onWrite acc now).1.Keeps a → c.Keeps a ∨ a = acc := by
    rintro (write | read)
    · exact .inr (Option.some.inj write).symm
    · cases read
  unfold record at h
  split at h
  · rcases h with write | read
    · exact .inl (.inl write)
    · simp only [onRead] at read
      split at read
      · rcases List.mem_append.mp read with kept | new
        · exact .inl (.inr (List.mem_of_mem_filter kept))
        · exact .inr (List.mem_singleton.mp new)
      · exact .inl (.inr (List.mem_of_mem_filter read))
  · exact of_write h
  · exact of_write h

end Cell

/-- The scheduler itself reports no race. -/
theorem Scheduler.Attributed.race {g : Geometry} {me : Nat} {r : Scheduler.Outcome} (found : Scheduler.Attributed g me r) :
    ∀ d ∈ r.2, d.race? = none := by
  intro d member
  obtain ⟨i, -, -, named⟩ := found d member
  cases d with
  | dataRace => cases named
  | _ => rfl

namespace Launch

variable {V : Type} [BEq V] {env : Env V}

omit [BEq V] in
theorem laneReports_race (cx : Ctx) (c : Collective V) (problems : List LaneProblem) :
    ∀ d ∈ laneReports cx c problems, d.race? = none := by
  intro d member
  obtain ⟨problem, -, rfl⟩ := List.mem_map.mp member
  rfl

omit [BEq V] in
theorem withSched_raised (s : Launch V) {r : Scheduler.Outcome} (h : ∀ d ∈ r.2, d.race? = none) :
    ∃ ds, (s.withSched r).raised = s.raised ++ ds ∧ ∀ d ∈ ds, d.race? = none := ⟨r.2, rfl, h⟩

omit [BEq V] in
theorem trap_raised (s : Launch V) {d : Diagnostic} (h : d.race? = none) :
    ∃ ds, (s.trap d).raised = s.raised ++ ds ∧ ∀ d ∈ ds, d.race? = none :=
  ⟨[d], rfl, by simpa using h⟩

/-- A step raises a race exactly when its access met a conflict. -/
theorem Resumed.raises {s s' : Launch V} {slot : Nat} {l : Label V}
    (resumed : Resumed env s slot l s') :
    (∃ cx m acc old first, l = .access cx m acc old (some first) ∧
      s'.raised = s.raised ++ accessReports (space env m.buf) m.index
        (s.cellOf env m.buf m.index).init acc (some first)) ∨
    (∀ cx m acc old first, l ≠ .access cx m acc old (some first)) ∧
      ∃ ds, s'.raised = s.raised ++ ds ∧ ∀ d ∈ ds, d.race? = none := by
  cases resumed with
  | access m pc new resp inside updated =>
    cases conflict : (s.recorded env (s.ctx env slot) m).2 with
    | some first => exact .inl ⟨_, m, _, _, first, rfl, by rw [← conflict]; rfl⟩
    | none =>
      refine .inr ⟨fun _ _ _ _ _ h => (by simp at h), _, rfl, fun d member => ?_⟩
      rw [conflict] at member
      simp only [accessReports, Option.toList_none, List.map_nil, List.append_nil] at member
      split at member
      · rw [List.mem_singleton.mp member]
        rfl
      · cases member
  | finish => exact .inr ⟨fun _ _ _ _ _ h => (by cases h), withSched_raised _ (Scheduler.finish_attributed _ _).race⟩
  | arrive => exact .inr ⟨fun _ _ _ _ _ h => (by cases h), withSched_raised _ (Scheduler.barrier_attributed _ _ _).race⟩
  | yieldAccess | yieldCollective =>
    exact .inr ⟨fun _ _ _ _ _ h => (by cases h), withSched_raised _ (Scheduler.handOff_attributed slot _).race⟩
  | publish =>
    exact .inr ⟨fun _ _ _ _ _ h => (by cases h), withSched_raised _ (Scheduler.warpRendezvous_attributed _ _ _).race⟩
  | exchange c pc answer problems combined =>
    refine .inr ⟨fun _ _ _ _ _ h => (by cases h), laneReports (s.ctx env slot) c problems ++
      (Scheduler.warpRendezvous (s.geometry env) slot (c.wait .depart) s.sched).2, ?_, ?_⟩
    · exact List.append_assoc ..
    · intro d member
      rcases List.mem_append.mp member with first | second
      · exact laneReports_race _ _ _ d first
      · exact (Scheduler.warpRendezvous_attributed _ _ _).race d second
  | panic | overflow | outOfBounds | refuse | mistyped =>
    exact .inr ⟨fun _ _ _ _ _ h => (by cases h), trap_raised _ rfl⟩
  | fence | miss | depart | leave =>
    exact .inr ⟨fun _ _ _ _ _ h => (by cases h), [], (List.append_nil _).symm, by simp⟩

omit [BEq V] in
/-- Reading an array as this launch sees it changes no cell. -/
theorem cellOf_forLaunch {s s' : Launch V} {buf : Buf}
    (mem : s'.mem = Function.update s.mem buf ((s.mem buf).forLaunch buf env.id)) (b : Buf)
    (i : Nat) : s'.cellOf env b i = s.cellOf env b i := by
  rw [cellOf_update mem (Instrumented.forLaunch_launchId buf _ _)]
  split
  next here => subst here; rfl
  · rfl

/-- The history of an element after a step: one more record if the step touched it, with the
clock its thread has now, and otherwise what it was. -/
structure HistoryStep (env : Env V) (s s' : Launch V) (l : Label V) : Prop where
  touched : ∀ {cx e acc}, l.touched? = some (cx, e, acc) →
    (s'.cellOf env e.1 e.2).history =
      ((s.cellOf env e.1 e.2).record acc (s'.sync.clock cx.gid)).1.history
  untouched : ∀ {e : Buf × Nat}, (∀ cx acc, l.touched? ≠ some (cx, e, acc)) →
    (s'.cellOf env e.1 e.2).history = (s.cellOf env e.1 e.2).history

omit [BEq V] in
theorem historyStep_of_stored {s s' : Launch V} {l : Label V} {cx : Ctx} {m : MemOp V}
    {acc : Access} {cell : Cell} (here : l.touched? = some (cx, (m.buf, m.index), acc))
    (stored : cell.history =
      ((s.cellOf env m.buf m.index).record acc (s'.sync.clock cx.gid)).1.history)
    (cells : ∀ b i, s'.cellOf env b i =
      if (b, i) = (m.buf, m.index) then cell else s.cellOf env b i) : HistoryStep env s s' l where
  touched {cx' e acc'} there := by
    rw [here] at there
    obtain ⟨rfl, rfl, rfl⟩ : cx = cx' ∧ (m.buf, m.index) = e ∧ acc = acc' := by
      simpa using there
    rw [cells, if_pos rfl, stored]
  untouched {e} elsewhere := by
    rw [cells, if_neg]
    intro same
    exact elsewhere cx acc (by rw [here, show e = (m.buf, m.index) from same])

omit [BEq V] in
theorem historyStep_of_cells {s s' : Launch V} {l : Label V} (nothing : l.touched? = none)
    (cells : ∀ b i, s'.cellOf env b i = s.cellOf env b i) : HistoryStep env s s' l where
  touched there := by
    rw [nothing] at there
    cases there
  untouched _ := by rw [cells]

theorem Resumed.history {s s' : Launch V} {slot : Nat} {l : Label V}
    (resumed : Resumed env s slot l s') : HistoryStep env s s' l := by
  cases resumed with
  | access m pc new resp inside updated =>
    refine historyStep_of_stored rfl ?_ (cellOf_stored rfl)
    unfold published
    cases m.act.ordering <;> rfl
  | overflow m pc message inside updated =>
    exact historyStep_of_stored rfl rfl (cellOf_stored rfl)
  | miss | outOfBounds => exact historyStep_of_cells rfl (cellOf_forLaunch rfl)
  | _ => exact historyStep_of_cells rfl (cellOf_congr rfl)

/-- What the record of a touched element says. -/
theorem Resumed.touched {s s' : Launch V} {slot : Nat} {l : Label V} {cx : Ctx} {e : Buf × Nat}
    {acc : Access} (resumed : Resumed env s slot l s') (touched : l.touched? = some (cx, e, acc)) :
    acc.block = cx.block ∧ acc.thread = cx.thread ∧ acc.seq = s.sync.seq cx.gid + 1 ∧
      ∃ take publish, l.event = .op cx.gid take publish := by
  have counted : ∀ m : MemOp V, (s.accessOf env (s.ctx env slot) m).seq =
      s.sync.seq (s.ctx env slot).gid + 1 := by
    intro m
    rw [← (acquired_rest env s slot m).1]
    exact Function.update_self ..
  cases resumed with
  | access m pc new resp inside updated =>
    obtain ⟨rfl, -, rfl⟩ : s.ctx env slot = cx ∧ (m.buf, m.index) = e ∧ _ = acc := by
      simpa [Label.touched?] using touched
    exact ⟨rfl, rfl, counted m, _, _, rfl⟩
  | overflow m pc message inside updated =>
    obtain ⟨rfl, -, rfl⟩ : s.ctx env slot = cx ∧ (m.buf, m.index) = e ∧ _ = acc := by
      simpa [Label.touched?] using touched
    exact ⟨rfl, rfl, counted m, _, _, rfl⟩
  | _ => cases touched

/-- The conflict an access meets is what recording it finds. -/
theorem Resumed.conflict {s s' : Launch V} {slot : Nat} {cx : Ctx} {m : MemOp V} {acc : Access}
    {old : V} {found : Option Access} (resumed : Resumed env s slot (.access cx m acc old found) s') :
    found = ((s.cellOf env m.buf m.index).record acc (s'.sync.clock cx.gid)).2 := by
  cases resumed with
  | access => rfl

/-! ### Along a run -/

theorem history_run (env : Env V) (n : Nat) :
    (∃ l, (run env).label n = some l ∧
      HistoryStep env ((run env).state n) ((run env).state (n + 1)) l) ∨
    ((run env).label n = none ∧ (run env).state (n + 1) = (run env).state n) := by
  rcases (run env).step_cases n with ⟨l, labelled, moved⟩ | idle
  · obtain ⟨-, ⟨-, -, rfl, next⟩ | ⟨slot, -, resumed⟩⟩ := step_cases env moved
    · rw [next]
      exact .inl ⟨_, labelled, historyStep_of_cells rfl (cellOf_congr rfl)⟩
    · exact .inl ⟨l, labelled, resumed.history⟩
  · exact .inr idle

omit [BEq V] in
/-- Elements start without history. -/
theorem history_init (env : Env V) (e : Buf × Nat) : ((init env).cellOf env e.1 e.2).history = (none, []) := by
  have untouched : ((init env).mem e.1).launchId ≠ env.id := env.fresh e.1
  simp only [cellOf, Instrumented.forLaunch, if_pos untouched]
  cases e.1 <;> rfl

/-- Every kept record is that of an earlier access of this launch to that element. -/
theorem kept_accessed {n : Nat} {e : Buf × Nat} {a : Access}
    (kept : (((run env).state n).cellOf env e.1 e.2).Keeps a) :
    ∃ i < n, ∃ l cx, (run env).label i = some l ∧ l.touched? = some (cx, e, a) := by
  have of_history : ∀ {c d : Cell}, c.history = d.history → c.Keeps a → d.Keeps a := by
    intro c d same kept
    obtain ⟨writes, reads⟩ := Prod.mk.inj same
    unfold Cell.Keeps at kept ⊢
    rwa [← writes, ← reads]
  induction n with
  | zero =>
    have empty := history_init env e
    obtain ⟨writes, reads⟩ := Prod.mk.inj empty
    rcases kept with write | read
    · rw [show (run env).state 0 = init env from rfl, writes] at write
      cases write
    · rw [show (run env).state 0 = init env from rfl, reads] at read
      cases read
  | succ n ih =>
    have earlier : (((run env).state n).cellOf env e.1 e.2).Keeps a →
        ∃ i < n + 1, ∃ l cx, (run env).label i = some l ∧ l.touched? = some (cx, e, a) := by
      intro kept
      obtain ⟨i, lt, rest⟩ := ih kept
      exact ⟨i, Nat.lt_succ_of_lt lt, rest⟩
    rcases history_run env n with ⟨l, labelled, step⟩ | ⟨-, stays⟩
    · by_cases here : ∃ cx acc, l.touched? = some (cx, e, acc)
      · obtain ⟨cx, acc, touched⟩ := here
        rcases Cell.keeps_record (of_history (step.touched touched) kept) with before | rfl
        · exact earlier before
        · exact ⟨n, Nat.lt_succ_self n, l, cx, labelled, touched⟩
      · push Not at here
        exact earlier (of_history (step.untouched here) kept)
    · rw [stays] at kept
      exact earlier kept

omit [BEq V] in
/-- The race among the reports of an access is its conflict. -/
theorem mem_accessReports {space : MemSpace} {index : Nat} {init : Bool} {acc : Access}
    {found : Option Access} {sp : MemSpace} {ix : Nat} {first second : Access} :
    .dataRace sp ix first second ∈ accessReports space index init acc found ↔
      found = some first ∧ sp = space ∧ ix = index ∧ second = acc := by
  unfold accessReports
  cases found <;> split <;> simp <;> tauto

/-- The races raised are the conflicts accesses met. -/
theorem raised_iff {n : Nat} {sp : MemSpace} {ix : Nat} {first second : Access} :
    .dataRace sp ix first second ∈ ((run env).state n).raised ↔
      ∃ j < n, ∃ cx m old, (run env).label j = some (.access cx m second old (some first)) ∧
        space env m.buf = sp ∧ m.index = ix := by
  induction n with
  | zero =>
    simp only [Nat.not_lt_zero, false_and, exists_false, iff_false]
    exact List.not_mem_nil
  | succ n ih =>
    have shift : (∃ j < n + 1, ∃ cx m old,
          (run env).label j = some (.access cx m second old (some first)) ∧
            space env m.buf = sp ∧ m.index = ix) ↔
        .dataRace sp ix first second ∈ ((run env).state n).raised ∨ ∃ cx m old,
          (run env).label n = some (.access cx m second old (some first)) ∧
            space env m.buf = sp ∧ m.index = ix := by
      rw [ih]
      constructor
      · rintro ⟨j, lt, rest⟩
        rcases Nat.lt_succ_iff_lt_or_eq.mp lt with before | rfl
        · exact .inl ⟨j, before, rest⟩
        · exact .inr rest
      · rintro (⟨j, lt, rest⟩ | now)
        · exact ⟨j, Nat.lt_succ_of_lt lt, rest⟩
        · exact ⟨n, Nat.lt_succ_self n, now⟩
    rw [shift]
    rcases (run env).step_cases n with ⟨l, labelled, moved⟩ | ⟨idle, stays⟩
    · rw [labelled]
      obtain ⟨-, ⟨-, -, rfl, next⟩ | ⟨slot, -, resumed⟩⟩ := step_cases env moved
      · rw [next]
        simp [nextWave]
      · rcases resumed.raises with ⟨cx, m, acc, old, found, rfl, raised⟩ | ⟨quiet, ds, raised, clean⟩
        · rw [raised, List.mem_append, mem_accessReports]
          refine or_congr Iff.rfl ⟨?_, ?_⟩
          · rintro ⟨same, rfl, rfl, rfl⟩
            exact ⟨cx, m, old, by rw [same], rfl, rfl⟩
          · rintro ⟨cx', m', old', same, rfl, rfl⟩
            cases Option.some.inj same
            exact ⟨rfl, rfl, rfl, rfl⟩
        · rw [raised, List.mem_append]
          refine or_congr Iff.rfl ⟨fun member => ?_, ?_⟩
          · cases clean _ member
          · rintro ⟨cx, m, old, same, -⟩
            exact absurd (Option.some.inj same) (quiet cx m second old first)
    · rw [stays, idle]
      simp

end Launch

end Riri
