import Mathlib.Logic.Relation
import Mathlib.Data.List.Basic

/-!
# Labelled transition systems and their runs

A run is recorded with its history: for every step taken, the state it was
taken from and its event, oldest first. Properties of whole runs are then
properties of the history and the last state, and a condition that every step
of a run meets is a condition on the entries of its history.
-/

universe u v

/-- A transition system: where runs start and which steps they may take. -/
structure Lts (σ : Type u) (ε : Type v) where
  init : σ → Prop
  step : σ → ε → σ → Prop

namespace Lts

variable {σ : Type u} {ε : Type v} (T : Lts σ ε)

/-- `T.Run s h t`: from `s` the steps recorded in `h` lead to `t`. -/
inductive Run (s : σ) : List (σ × ε) → σ → Prop
  | nil : Run s [] s
  | snoc {h : List (σ × ε)} {t u : σ} {e : ε} :
      Run s h t → T.step t e u → Run s (h ++ [(t, e)]) u

/-- A run from an initial state. -/
def Execution (h : List (σ × ε)) (t : σ) : Prop :=
  ∃ s, T.init s ∧ T.Run s h t

/-- A state that some run leads to. -/
def Reachable (t : σ) : Prop :=
  ∃ h, T.Execution h t

/-- The run with history `h` that ends in `s` passes through `t`. -/
def Visits (h : List (σ × ε)) (s t : σ) : Prop :=
  t = s ∨ ∃ e, (t, e) ∈ h

variable {T}

theorem Run.append {s t u : σ} {h k : List (σ × ε)} (first : T.Run s h t) (second : T.Run t k u) :
    T.Run s (h ++ k) u := by
  induction second with
  | nil => simpa using first
  | snoc _ step ih =>
    rw [← List.append_assoc]
    exact ih.snoc step

theorem Run.single {s t : σ} {e : ε} (step : T.step s e t) : T.Run s [(s, e)] t :=
  Run.nil.snoc step

theorem Run.eq_of_nil {s t : σ} (run : T.Run s [] t) : t = s := by
  generalize eq : ([] : List (σ × ε)) = h at run
  cases run with
  | nil => rfl
  | snoc => simp at eq

/-- The first step recorded in a history starts the run. -/
theorem Run.head_eq {s t : σ} {x : σ × ε} {h : List (σ × ε)} (run : T.Run s (x :: h) t) :
    x.1 = s := by
  generalize eq : x :: h = k at run
  induction run generalizing h with
  | nil => cases eq
  | @snoc k v w f before _ ih =>
    cases k with
    | nil =>
      obtain ⟨rfl, _⟩ : x = (v, f) ∧ h = [] := by simpa using eq
      exact before.eq_of_nil
    | cons y k =>
      rw [List.cons_append] at eq
      cases eq
      exact ih rfl

/-- A run starts in a state that it visits. -/
theorem Run.visits_start {s t : σ} {h : List (σ × ε)} (run : T.Run s h t) : Visits h t s := by
  cases h with
  | nil => exact .inl run.eq_of_nil.symm
  | cons x h =>
    have first : x.1 = s := run.head_eq
    exact .inr ⟨x.2, by simp [← first]⟩

/-- Every state a run passes through is the end of a run from the same start. -/
theorem Run.of_visits {s t u : σ} {h : List (σ × ε)} (run : T.Run s h t) (visit : Visits h t u) :
    ∃ k, T.Run s k u := by
  induction run with
  | nil =>
    obtain rfl | ⟨_, mem⟩ := visit
    · exact ⟨[], Run.nil⟩
    · cases mem
  | @snoc h v w e before last ih =>
    obtain rfl | ⟨f, mem⟩ := visit
    · exact ⟨h ++ [(v, e)], before.snoc last⟩
    · rcases List.mem_append.mp mem with old | new
      · exact ih (.inr ⟨f, old⟩)
      · obtain ⟨rfl, -⟩ : u = v ∧ f = e := by simpa using new
        exact ⟨h, before⟩

theorem Execution.append {s t : σ} {h k : List (σ × ε)} (first : T.Execution h s)
    (second : T.Run s k t) : T.Execution (h ++ k) t :=
  let ⟨s₀, start, run⟩ := first
  ⟨s₀, start, run.append second⟩

theorem Execution.snoc {s t : σ} {h : List (σ × ε)} {e : ε} (run : T.Execution h s)
    (step : T.step s e t) : T.Execution (h ++ [(s, e)]) t :=
  run.append (Run.single step)

theorem Execution.reachable {h : List (σ × ε)} {s : σ} (run : T.Execution h s) : T.Reachable s :=
  ⟨h, run⟩

theorem Reachable.step {s t : σ} {e : ε} (reach : T.Reachable s) (step : T.step s e t) :
    T.Reachable t :=
  let ⟨_, run⟩ := reach
  (run.snoc step).reachable

theorem Reachable.of_init {s : σ} (start : T.init s) : T.Reachable s :=
  ⟨[], s, start, Run.nil⟩

theorem Reachable.run {s t : σ} {h : List (σ × ε)} (reach : T.Reachable s) (run : T.Run s h t) :
    T.Reachable t :=
  let ⟨_, first⟩ := reach
  (first.append run).reachable

/-! ## Invariant rules -/

/-- An invariant of every step holds at the end of a run that starts in it. -/
theorem Run.invariant {I : σ → Prop} {s t : σ} {h : List (σ × ε)} (run : T.Run s h t)
    (step : ∀ s e t, I s → T.step s e t → I t) (start : I s) : I t := by
  induction run with
  | nil => exact start
  | snoc _ last ih => exact step _ _ _ ih last

/-- What holds initially and is kept by every step holds of every reachable state. -/
theorem Reachable.invariant {I : σ → Prop} {s : σ} (reach : T.Reachable s)
    (init : ∀ s, T.init s → I s) (step : ∀ s e t, I s → T.step s e t → I t) : I s := by
  obtain ⟨_, s₀, start, run⟩ := reach
  exact run.invariant step (init s₀ start)

/-- The invariant rule with the history at hand and a condition `C` on the
steps of the run. -/
theorem Execution.induct {C : σ → ε → Prop} {I : List (σ × ε) → σ → Prop} {s : σ}
    {h : List (σ × ε)} (run : T.Execution h s) (meets : ∀ x ∈ h, C x.1 x.2)
    (init : ∀ s, T.init s → I [] s)
    (step : ∀ h s e t, T.Execution h s → I h s → T.step s e t → C s e → I (h ++ [(s, e)]) t) :
    I h s := by
  obtain ⟨s₀, start, run⟩ := run
  induction run with
  | nil => exact init s₀ start
  | @snoc h t u e before last ih =>
    have earlier : ∀ x ∈ h, C x.1 x.2 := fun x mem =>
      meets x (List.mem_append.mpr (.inl mem))
    exact step h t e u ⟨s₀, start, before⟩ (ih earlier) last
      (meets (t, e) (by simp))

/-- A history can be split at any of its entries. -/
theorem Run.split {s t u : σ} {e : ε} {h₁ h₂ : List (σ × ε)}
    (run : T.Run s (h₁ ++ (t, e) :: h₂) u) :
    ∃ v, T.Run s h₁ t ∧ T.step t e v ∧ T.Run v h₂ u := by
  generalize eq : h₁ ++ (t, e) :: h₂ = h at run
  induction run generalizing h₂ with
  | nil => simp at eq
  | @snoc k v w f before last ih =>
    rcases List.eq_nil_or_concat h₂ with rfl | ⟨h₂, x, rfl⟩
    · obtain ⟨rfl, same⟩ := List.append_inj' eq rfl
      obtain ⟨rfl, rfl⟩ : t = v ∧ e = f := by simpa using same
      exact ⟨w, before, last, Run.nil⟩
    · rw [List.concat_eq_append, ← List.cons_append, ← List.append_assoc] at eq
      obtain ⟨rfl, same⟩ := List.append_inj' eq rfl
      obtain rfl : x = (v, f) := by simpa using same
      obtain ⟨v', left, step, right⟩ := ih rfl
      refine ⟨v', left, step, ?_⟩
      rw [List.concat_eq_append]
      exact right.snoc last

theorem Execution.split {s t : σ} {e : ε} {h₁ h₂ : List (σ × ε)}
    (run : T.Execution (h₁ ++ (t, e) :: h₂) s) :
    ∃ u, T.Execution h₁ t ∧ T.step t e u ∧ T.Run u h₂ s := by
  obtain ⟨s₀, start, run⟩ := run
  obtain ⟨u, left, step, right⟩ := run.split
  exact ⟨u, ⟨s₀, start, left⟩, step, right⟩

/-- Every entry of a history is a step that the run took. -/
theorem Execution.step_of_mem {s : σ} {h : List (σ × ε)} (run : T.Execution h s) {t : σ} {e : ε}
    (mem : (t, e) ∈ h) :
    ∃ h₁ h₂ u, h = h₁ ++ (t, e) :: h₂ ∧ T.Execution h₁ t ∧ T.step t e u ∧ T.Run u h₂ s := by
  obtain ⟨h₁, h₂, rfl⟩ := List.append_of_mem mem
  obtain ⟨u, left, step, right⟩ := run.split
  exact ⟨h₁, h₂, u, rfl, left, step, right⟩

/-- Every state a run passes through ends a run of its own. -/
theorem Execution.of_visits {s t : σ} {h : List (σ × ε)} (run : T.Execution h s)
    (visit : Visits h s t) : ∃ h₁ h₂, h = h₁ ++ h₂ ∧ T.Execution h₁ t := by
  rcases visit with rfl | ⟨e, mem⟩
  · exact ⟨h, [], by simp, run⟩
  · obtain ⟨h₁, h₂, _, split, left, _⟩ := run.step_of_mem mem
    exact ⟨h₁, (t, e) :: h₂, split, left⟩

theorem visits_snoc {s t u : σ} {h : List (σ × ε)} {e : ε} :
    Visits (h ++ [(s, e)]) t u ↔ u = t ∨ Visits h s u := by
  refine or_congr_right ⟨?_, ?_⟩
  · rintro ⟨f, mem⟩
    rcases List.mem_append.mp mem with old | new
    · exact .inr ⟨f, old⟩
    · exact .inl (Prod.mk.inj (List.mem_singleton.mp new)).1
  · rintro (rfl | ⟨f, mem⟩)
    · exact ⟨e, List.mem_append_right h (List.mem_singleton_self _)⟩
    · exact ⟨f, List.mem_append_left _ mem⟩

/-- The state a step leads to is visited too. -/
theorem Execution.visits_next {s t : σ} {h : List (σ × ε)} {e : ε} (run : T.Execution h s)
    (mem : (t, e) ∈ h) : ∃ u, T.step t e u ∧ Visits h s u := by
  obtain ⟨h₁, h₂, u, split, _, step, rest⟩ := run.step_of_mem mem
  refine ⟨u, step, ?_⟩
  obtain rfl | ⟨f, mem⟩ := rest.visits_start
  · exact .inl rfl
  · exact .inr ⟨f, by simp [split, mem]⟩

/-! ## Systems given by a function -/

/-- The system whose steps are computed by `next`; `none` is no step. -/
def ofNext (init : σ → Prop) (next : σ → ε → Option σ) : Lts σ ε :=
  ⟨init, fun s e t => next s e = some t⟩

/-- Runs the events one after the other and records the history. -/
def replay (next : σ → ε → Option σ) : σ → List ε → Option (List (σ × ε) × σ)
  | s, [] => some ([], s)
  | s, e :: es =>
    match next s e with
    | none => none
    | some t => (replay next t es).map fun r => ((s, e) :: r.1, r.2)

theorem replay_run {init : σ → Prop} {next : σ → ε → Option σ} {s t : σ} {es : List ε}
    {h : List (σ × ε)} (done : replay next s es = some (h, t)) : (ofNext init next).Run s h t := by
  induction es generalizing s h with
  | nil =>
    obtain ⟨rfl, rfl⟩ : h = [] ∧ t = s := by simpa [replay, eq_comm] using done
    exact Run.nil
  | cons e es ih =>
    rw [replay] at done
    split at done
    · cases done
    next u taken =>
      obtain ⟨⟨k, w⟩, rest, eq⟩ := Option.map_eq_some_iff.mp done
      obtain ⟨rfl, rfl⟩ : (s, e) :: k = h ∧ w = t := by simpa using eq
      exact (Run.single (T := ofNext init next) taken).append (ih rest)

/-- A run can be tested: if replaying `es` succeeds and its record passes the
check `P`, there is an execution that passes it. -/
theorem replay_exists (init : σ → Prop) (next : σ → ε → Option σ) {s : σ} (es : List ε)
    (P : List (σ × ε) → σ → Bool) (start : init s)
    (test : (replay next s es).any (fun r => P r.1 r.2) = true) :
    ∃ h t, (ofNext init next).Execution h t ∧ P h t = true := by
  cases done : replay next s es with
  | none => simp [done] at test
  | some r => exact ⟨r.1, r.2, ⟨s, start, replay_run done⟩, by simpa [done] using test⟩

end Lts
