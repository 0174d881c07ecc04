import Mathlib.Algebra.Order.Ring.Nat
import SettlementRail.Foundation.Runs

/-! Coming to rest. If every step of a kind lowers a measure, runs of such steps are short, and
each can be continued to a state where no step of the kind is enabled. -/

namespace Foundation

universe u v
variable {σ : Type u} {ε : Type v} {step : σ → ε → Option σ} {C : σ → ε → Prop} {s s' : σ}
variable {es : List ε} {I : σ → Prop} {μ : σ → ℕ}

def Stuck (step : σ → ε → Option σ) (C : σ → ε → Prop) (s : σ) : Prop :=
  ∀ e, C s e → step s e = none

/-- `μ` falls at every step under `C` from a state of `I`, which the step does not leave. -/
structure Lowers (step : σ → ε → Option σ) (C : σ → ε → Prop) (I : σ → Prop) (μ : σ → ℕ) :
    Prop where
  keeps : ∀ s e s', I s → C s e → step s e = some s' → I s'
  lower : ∀ s e s', I s → C s e → step s e = some s' → μ s' < μ s

theorem Lowers.length_le (h : Lowers step C I μ) (hI : I s) (hrun : RunUnder step C s es s') :
    I s' ∧ es.length + μ s' ≤ μ s := by
  induction hrun with
  | nil => exact ⟨hI, by simp⟩
  | snoc _ hc hs ih =>
    obtain ⟨hI', hle⟩ := ih
    have hlt := h.lower _ _ _ hI' hc hs
    refine ⟨h.keeps _ _ _ hI' hc hs, ?_⟩
    rw [List.length_append, List.length_singleton]
    omega

/-- There is no infinite run under `C`. -/
theorem Lowers.no_infinite_run (h : Lowers step C I μ) {f : ℕ → σ} (hI : I (f 0)) :
    ¬∀ n, ∃ e, C (f n) e ∧ step (f n) e = some (f (n + 1)) := by
  intro hall
  have hbound : ∀ n, I (f n) ∧ n + μ (f n) ≤ μ (f 0) := by
    intro n
    induction n with
    | zero => exact ⟨hI, by simp⟩
    | succ n ih =>
      obtain ⟨e, hc, hs⟩ := hall n
      have hlt := h.lower _ _ _ ih.1 hc hs
      exact ⟨h.keeps _ _ _ ih.1 hc hs, by omega⟩
  have hend := (hbound (μ (f 0) + 1)).2
  omega

theorem Lowers.exists_stuck (h : Lowers step C I μ) (hI : I s) :
    ∃ es s', RunUnder step C s es s' ∧ Stuck step C s' := by
  induction hn : μ s using Nat.strongRecOn generalizing s with
  | ind n ih =>
    by_cases hstuck : Stuck step C s
    · exact ⟨[], s, .nil, hstuck⟩
    · simp only [Stuck, Classical.not_forall] at hstuck
      obtain ⟨e, hc, hs⟩ := hstuck
      obtain ⟨t, ht⟩ := Option.ne_none_iff_exists'.mp hs
      have hlt : μ t < n := hn ▸ h.lower _ _ _ hI hc ht
      obtain ⟨es, s', hrun, hend⟩ := ih (μ t) hlt (h.keeps _ _ _ hI hc ht) rfl
      exact ⟨[e] ++ es, s', (RunUnder.nil.snoc hc ht).trans hrun, hend⟩

end Foundation
