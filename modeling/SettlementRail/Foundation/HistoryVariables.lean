import SettlementRail.Foundation.Runs

/-! History variables: every step updates a value from the state before it, and no step depends
on that value, so that a run with a history is a run of the machine itself. -/

namespace Foundation

universe u v w
variable {σ : Type u} {ε : Type v} {η : Type w}

def withHistory (step : σ → ε → Option σ) (observe : σ → ε → η → η) (s : σ × η) (e : ε) :
    Option (σ × η) :=
  (step s.1 e).map fun s' => (s', observe s.1 e s.2)

variable {step : σ → ε → Option σ} {observe : σ → ε → η → η} {s s' : σ × η} {e : ε}

theorem withHistory_eq_some :
    withHistory step observe s e = some s' ↔
      step s.1 e = some s'.1 ∧ s'.2 = observe s.1 e s.2 := by
  constructor
  · intro h
    obtain ⟨t, ht, rfl⟩ := Option.map_eq_some_iff.mp h
    exact ⟨ht, rfl⟩
  · rintro ⟨ht, hη⟩
    rw [withHistory, ht, Option.map_some, ← hη]

/-- A run with a history is a run. -/
theorem ReachUnder.forget {C : σ × η → ε → Prop} {D : σ → ε → Prop} {s₀ : σ × η}
    (h : ReachUnder (withHistory step observe) C s₀ s) (hCD : ∀ s e, C s e → D s.1 e) :
    ReachUnder step D s₀.1 s.1 := by
  induction h with
  | refl => exact .refl
  | tail _ hc hs ih => exact .tail ih (hCD _ _ hc) (withHistory_eq_some.mp hs).1

end Foundation
