import SettlementRail.Foundation.Runs

/-! Refinement by an abstraction function: each step of the machine is one step of the
specification, or leaves the abstract state as it is. -/

namespace Foundation

universe u v w
variable {σ : Type u} {ε : Type v} {α : Type w}

/-- `abs` takes the steps of the runs from `s₀` under `C` to steps of `spec`, or to none. -/
def Refines (step : σ → ε → Option σ) (C : σ → ε → Prop) (s₀ : σ) (spec : α → α → Prop)
    (abs : σ → α) : Prop :=
  ∀ ⦃s e s'⦄, ReachUnder step C s₀ s → C s e → step s e = some s' →
    abs s' = abs s ∨ spec (abs s) (abs s')

variable {step : σ → ε → Option σ} {C : σ → ε → Prop} {s₀ s s' : σ}
variable {spec : α → α → Prop} {abs : σ → α}

/-- A run of the machine is a run of the specification. -/
theorem Refines.run (h : Refines step C s₀ spec abs) (hs : ReachUnder step C s₀ s)
    (hrun : ReachUnder step C s s') : Relation.ReflTransGen spec (abs s) (abs s') := by
  induction hrun with
  | refl => exact .refl
  | tail hr hc hstep ih =>
    rcases h (hs.trans hr) hc hstep with heq | hspec
    · rwa [heq]
    · exact ih.tail hspec

/-- What every step of the specification keeps holds all along the runs of the machine. -/
theorem Refines.invariant {I : α → Prop} (h : Refines step C s₀ spec abs) (hinit : I (abs s₀))
    (hspec : ∀ a b, I a → spec a b → I b) (hs : ReachUnder step C s₀ s) : I (abs s) := by
  induction hs with
  | refl => exact hinit
  | tail hr hc hstep ih =>
    rcases h hr hc hstep with heq | hab
    · rwa [heq]
    · exact hspec _ _ ih hab

end Foundation
