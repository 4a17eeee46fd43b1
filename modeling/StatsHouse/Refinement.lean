import Mathlib.Logic.Basic

/-!
# Refinement along a list of inputs

A partial step function on concrete states refines a total one on abstract states when,
from every state of an invariant, it returns, keeps the invariant and commutes with the
abstraction. The rules below carry one step to whole runs.
-/

namespace Refinement

universe u v w

variable {σ : Type u} {τ : Type v} {ι : Type w} {s : σ} {inv : σ → Prop} {step : σ → ι → Option σ}
  {safe : σ → ι → Prop}

/-- One step from states of the invariant. -/
def Refines (inv : σ → Prop) (abs : σ → τ) (f : σ → ι → Option σ) (g : τ → ι → τ) : Prop :=
  ∀ s x, inv s → ∃ s', f s x = some s' ∧ inv s' ∧ abs s' = g (abs s) x

theorem Refines.foldlM {abs : σ → τ} {f : σ → ι → Option σ} {g : τ → ι → τ}
    (step : Refines inv abs f g) (h : inv s) (xs : List ι) :
    ∃ s', xs.foldlM f s = some s' ∧ inv s' ∧ abs s' = xs.foldl g (abs s) := by
  induction xs generalizing s with
  | nil => exact ⟨s, rfl, h, rfl⟩
  | cons x xs ih =>
    obtain ⟨s1, hs, hin, hab⟩ := step s x h
    obtain ⟨s2, hr, hin2, hab2⟩ := ih hin
    refine ⟨s2, ?_, hin2, ?_⟩
    · simp only [List.foldlM_cons, hs]
      exact hr
    · rw [hab2, hab]
      rfl

/-- Every step of the run is taken from a state in which it is safe. -/
def SafeRun (step : σ → ι → Option σ) (safe : σ → ι → Prop) : σ → List ι → Prop
  | _, [] => True
  | s, x :: xs => safe s x ∧ ∀ s', step s x = some s' → SafeRun step safe s' xs

lemma SafeRun.front {xs ys : List ι} (run : SafeRun step safe s (xs ++ ys)) :
    SafeRun step safe s xs := by
  induction xs generalizing s with
  | nil => trivial
  | cons x xs ih => exact ⟨run.1, fun s' hs => ih (run.2 s' hs)⟩

/-- An invariant that safe steps keep holds at the end of every safe run, and no safe run
gets stuck. -/
theorem SafeRun.keeps (keep : ∀ s x, inv s → safe s x → ∃ s', step s x = some s' ∧ inv s')
    (h : inv s) {xs : List ι} (run : SafeRun step safe s xs) :
    ∃ s', xs.foldlM step s = some s' ∧ inv s' := by
  induction xs generalizing s with
  | nil => exact ⟨s, rfl, h⟩
  | cons x xs ih =>
    obtain ⟨hf, hr⟩ := run
    obtain ⟨s1, hs, hin⟩ := keep s x h hf
    obtain ⟨s2, hn, hin2⟩ := ih hin (hr s1 hs)
    refine ⟨s2, ?_, hin2⟩
    rw [List.foldlM_cons, hs]
    exact hn

end Refinement
