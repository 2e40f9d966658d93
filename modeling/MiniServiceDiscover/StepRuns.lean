import Mathlib.Data.List.Basic

set_option autoImplicit false

/-! Runs of a labelled step function whose labels are taken under a guard, and
the induction over them. -/
namespace MiniServiceDiscover.StepRuns

variable {σ α : Type*} {step : σ → α → Option σ} {guard : σ → α → Prop}

/-- `Runs step guard s acts v`: the acts lead from `s` to `v`, and each of them is
taken in a state where the guard lets it. -/
inductive Runs (step : σ → α → Option σ) (guard : σ → α → Prop) : σ → List α → σ → Prop where
  | refl (s : σ) : Runs step guard s [] s
  | next {s u v : σ} {a : α} {acts : List α} (g : guard s a) (h : step s a = some u)
      (tail : Runs step guard u acts v) : Runs step guard s (a :: acts) v

theorem Runs.trans {s u v : σ} {acts acts' : List α} (h : Runs step guard s acts u)
    (h' : Runs step guard u acts' v) : Runs step guard s (acts ++ acts') v := by
  induction h with
  | refl _ => exact h'
  | next g hs _ ih => exact .next g hs (ih h')

/-- A run can be computed, where the guard lets the acts in any state. -/
theorem runs_of_foldlM {s v : σ} {acts : List α} (hg : ∀ a ∈ acts, ∀ s, guard s a)
    (h : acts.foldlM step s = some v) : Runs step guard s acts v := by
  induction acts generalizing s with
  | nil =>
    obtain rfl := Option.some.inj h
    exact .refl s
  | cons a acts ih =>
    rw [List.foldlM_cons] at h
    obtain ⟨u, hu, hrest⟩ := Option.bind_eq_some_iff.1 h
    exact .next (hg a List.mem_cons_self s) hu
      (ih (fun b hb => hg b (List.mem_cons_of_mem a hb)) hrest)

theorem Runs.mono {guard' : σ → α → Prop} (hg : ∀ s a, guard s a → guard' s a) {s v : σ}
    {acts : List α} (h : Runs step guard s acts v) : Runs step guard' s acts v := by
  induction h with
  | refl _ => exact .refl _
  | next g hs _ ih => exact .next (hg _ _ g) hs ih

theorem Runs.split {s v : σ} {acts acts' : List α} (h : Runs step guard s (acts ++ acts') v) :
    ∃ u, Runs step guard s acts u ∧ Runs step guard u acts' v := by
  induction acts generalizing s with
  | nil => exact ⟨s, .refl s, h⟩
  | cons a acts ih =>
    cases h with
    | next g hs tail =>
      obtain ⟨u, hu, hv⟩ := ih tail
      exact ⟨u, .next g hs hu, hv⟩

/-- What every guarded step keeps holds at the end of a run. -/
theorem Runs.invariant {s v : σ} {acts : List α} (I : σ → Prop) (h : Runs step guard s acts v)
    (hs : I s) (hp : ∀ s a u, I s → guard s a → step s a = some u → I u) : I v := by
  induction h with
  | refl _ => exact hs
  | next g h _ ih => exact ih (hp _ _ _ hs g h)

/-- An invariant that speaks of the acts taken so far. -/
theorem Runs.history {s v : σ} {acts : List α} (I : List α → σ → Prop)
    (h : Runs step guard s acts v) (hs : I [] s)
    (hp : ∀ front s a u, I front s → guard s a → step s a = some u → I (front ++ [a]) u) :
    I acts v := by
  have key : ∀ front, I front s → I (front ++ acts) v := by
    clear hs
    induction h with
    | refl s =>
      intro front hf
      rwa [List.append_nil]
    | next g hstep _ ih =>
      intro front hf
      have h' := ih (front ++ [_]) (hp front _ _ _ hf g hstep)
      rwa [List.append_assoc] at h'
  exact key [] hs

/-- A guard that follows from another wherever an invariant holds. -/
theorem Runs.guard_of_invariant {guard' : σ → α → Prop} {s v : σ} {acts : List α} (I : σ → Prop)
    (h : Runs step guard s acts v) (hs : I s)
    (hp : ∀ s a u, I s → guard s a → step s a = some u → I u)
    (hg : ∀ s a u, I s → guard s a → step s a = some u → guard' s a) :
    Runs step guard' s acts v := by
  induction h with
  | refl _ => exact .refl _
  | next g h _ ih => exact .next (hg _ _ _ hs g h) h (ih (hp _ _ _ hs g h))

end MiniServiceDiscover.StepRuns
