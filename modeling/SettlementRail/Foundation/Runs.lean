import Mathlib.Logic.Relation

/-! Runs of a partial deterministic machine. All nondeterminism sits in the events, so a
run is a list of events and a condition on a run is a condition on each of its steps. -/

namespace Foundation

universe u v
variable {σ : Type u} {ε : Type v}

def run (step : σ → ε → Option σ) : σ → List ε → Option σ
  | s, [] => some s
  | s, e :: es => (step s e).bind fun s' => run step s' es

/-- The states reached from `s₀` by runs whose every step meets `C` in the state before it. -/
inductive ReachUnder (step : σ → ε → Option σ) (C : σ → ε → Prop) (s₀ : σ) : σ → Prop
  | refl : ReachUnder step C s₀ s₀
  | tail {s s' : σ} {e : ε} : ReachUnder step C s₀ s → C s e → step s e = some s' →
      ReachUnder step C s₀ s'

abbrev Reach (step : σ → ε → Option σ) (s₀ : σ) : σ → Prop :=
  ReachUnder step (fun _ _ => True) s₀

variable {step : σ → ε → Option σ} {C D : σ → ε → Prop} {s₀ s s' : σ}

theorem ReachUnder.mono (h : ReachUnder step C s₀ s) (hCD : ∀ s e, C s e → D s e) :
    ReachUnder step D s₀ s := by
  induction h with
  | refl => exact .refl
  | tail _ hc hs ih => exact .tail ih (hCD _ _ hc) hs

theorem ReachUnder.reach (h : ReachUnder step C s₀ s) : Reach step s₀ s :=
  h.mono fun _ _ _ => trivial

theorem ReachUnder.trans (h : ReachUnder step C s₀ s) (h' : ReachUnder step C s s') :
    ReachUnder step C s₀ s' := by
  induction h' with
  | refl => exact h
  | tail _ hc hs ih => exact .tail ih hc hs

/-- The invariant rule. The step premise may use that its first state is itself reached. -/
theorem ReachUnder.invariant {I : σ → Prop} (h : ReachUnder step C s₀ s) (hinit : I s₀)
    (hstep : ∀ s e s', ReachUnder step C s₀ s → I s → C s e → step s e = some s' → I s') :
    I s := by
  induction h with
  | refl => exact hinit
  | tail hr hc hs ih => exact hstep _ _ _ hr ih hc hs

theorem run_append (es fs : List ε) (s : σ) :
    run step s (es ++ fs) = (run step s es).bind fun s' => run step s' fs := by
  induction es generalizing s with
  | nil => rfl
  | cons e es ih =>
    simp only [List.cons_append, run, Option.bind_assoc]
    exact congrArg _ (funext fun s' => ih s')

theorem ReachUnder.of_run {es : List ε} (hrun : run step s es = some s') :
    Reach step s s' := by
  induction es generalizing s with
  | nil => exact Option.some.inj hrun ▸ .refl
  | cons e es ih =>
    obtain ⟨t, ht, hes⟩ := Option.bind_eq_some_iff.mp hrun
    exact (ReachUnder.tail .refl trivial ht).trans (ih hes)

theorem exists_reach_of_run (step : σ → ε → Option σ) (s₀ : σ) (es : List ε) (p : σ → Bool)
    (h : (run step s₀ es).any p = true) : ∃ s, Reach step s₀ s ∧ p s = true := by
  rcases hr : run step s₀ es with _ | s
  · simp [hr] at h
  · exact ⟨s, .of_run hr, by simpa [hr] using h⟩

def checkedRun (step : σ → ε → Option σ) (C : σ → ε → Prop) [∀ s e, Decidable (C s e)] :
    σ → List ε → Option σ
  | s, [] => some s
  | s, e :: es => if C s e then (step s e).bind fun s' => checkedRun step C s' es else none

theorem ReachUnder.of_checkedRun [∀ s e, Decidable (C s e)] {es : List ε}
    (hrun : checkedRun step C s es = some s') : ReachUnder step C s s' := by
  induction es generalizing s with
  | nil => exact Option.some.inj hrun ▸ .refl
  | cons e es ih =>
    unfold checkedRun at hrun
    split at hrun
    · rename_i hc
      obtain ⟨t, ht, hes⟩ := Option.bind_eq_some_iff.mp hrun
      exact (ReachUnder.tail .refl hc ht).trans (ih hes)
    · cases hrun

theorem exists_reach_of_checkedRun (step : σ → ε → Option σ) (C : σ → ε → Prop)
    [∀ s e, Decidable (C s e)] (s₀ : σ) (es : List ε) (p : σ → Bool)
    (h : (checkedRun step C s₀ es).any p = true) : ∃ s, ReachUnder step C s₀ s ∧ p s = true := by
  rcases hr : checkedRun step C s₀ es with _ | s
  · simp [hr] at h
  · exact ⟨s, .of_checkedRun hr, by simpa [hr] using h⟩

/-- `es` leads from `s₀` to the last state, every step meeting `C`. -/
inductive RunUnder (step : σ → ε → Option σ) (C : σ → ε → Prop) (s₀ : σ) : List ε → σ → Prop
  | nil : RunUnder step C s₀ [] s₀
  | snoc {es : List ε} {s s' : σ} {e : ε} : RunUnder step C s₀ es s → C s e → step s e = some s' →
      RunUnder step C s₀ (es ++ [e]) s'

variable {es : List ε}

theorem RunUnder.reach (h : RunUnder step C s₀ es s) : ReachUnder step C s₀ s := by
  induction h with
  | nil => exact .refl
  | snoc _ hc hs ih => exact .tail ih hc hs

theorem ReachUnder.exists_run (h : ReachUnder step C s₀ s) : ∃ es, RunUnder step C s₀ es s := by
  induction h with
  | refl => exact ⟨[], .nil⟩
  | tail _ hc hs ih =>
    obtain ⟨es, hrun⟩ := ih
    exact ⟨_, hrun.snoc hc hs⟩

theorem RunUnder.mono (h : RunUnder step C s₀ es s) (hCD : ∀ s e, C s e → D s e) :
    RunUnder step D s₀ es s := by
  induction h with
  | nil => exact .nil
  | snoc _ hc hs ih => exact .snoc ih (hCD _ _ hc) hs

theorem RunUnder.run_eq (h : RunUnder step C s₀ es s) : run step s₀ es = some s := by
  induction h with
  | nil => rfl
  | snoc _ _ hs ih => rw [run_append, ih, Option.bind_some, run, hs]; rfl

/-- What holds at the end and not at the start began to hold at some step and has lasted since. -/
theorem RunUnder.last_entry {P : σ → Prop} (h : RunUnder step C s₀ es s) (hinit : ¬P s₀)
    (hP : P s) : ∃ es₁ e es₂ s₁ s₂, es = es₁ ++ e :: es₂ ∧ RunUnder step C s₀ es₁ s₁ ∧ ¬P s₁ ∧
      step s₁ e = some s₂ ∧ P s₂ ∧ RunUnder step (fun s e => C s e ∧ P s) s₂ es₂ s := by
  induction h with
  | nil => exact absurd hP hinit
  | @snoc es s s' e hr hc hs ih =>
    by_cases hbefore : P s
    · obtain ⟨es₁, e₁, es₂, s₁, s₂, rfl, h₁, hnot, hs₁, hP₂, h₂⟩ := ih hbefore
      refine ⟨es₁, e₁, es₂ ++ [e], s₁, s₂, ?_, h₁, hnot, hs₁, hP₂, h₂.snoc ⟨hc, hbefore⟩ hs⟩
      rw [List.append_assoc, List.cons_append]
    · exact ⟨es, e, [], s, s', rfl, hr, hbefore, hs, hP, .nil⟩

theorem RunUnder.trans {es' : List ε} (h : RunUnder step C s₀ es s) (h' : RunUnder step C s es' s') :
    RunUnder step C s₀ (es ++ es') s' := by
  induction h' with
  | nil => rwa [List.append_nil]
  | snoc _ hc hs ih =>
    rw [← List.append_assoc]
    exact ih.snoc hc hs

theorem RunUnder.split {es₁ es₂ : List ε} (h : RunUnder step C s₀ (es₁ ++ es₂) s) :
    ∃ s₁, RunUnder step C s₀ es₁ s₁ ∧ RunUnder step C s₁ es₂ s := by
  generalize hes : es₁ ++ es₂ = es at h
  induction h generalizing es₂ with
  | nil =>
    obtain ⟨rfl, rfl⟩ := List.append_eq_nil_iff.mp hes
    exact ⟨s₀, .nil, .nil⟩
  | @snoc es s s' e hr hc hs ih =>
    rcases List.eq_nil_or_concat es₂ with rfl | ⟨rest, last, rfl⟩
    · rw [List.append_nil] at hes
      exact ⟨s', hes ▸ hr.snoc hc hs, .nil⟩
    · rw [List.concat_eq_append, ← List.append_assoc] at hes
      obtain ⟨hinit, hlast⟩ := List.append_inj' hes rfl
      obtain rfl := List.singleton_inj.mp hlast
      obtain ⟨s₁, h₁, h₂⟩ := ih hinit
      refine ⟨s₁, h₁, ?_⟩
      rw [List.concat_eq_append]
      exact h₂.snoc hc hs

theorem RunUnder.at_step {es₁ es₂ : List ε} {e : ε} {s₁ s₂ : σ}
    (h : RunUnder step C s₀ (es₁ ++ e :: es₂) s) (h₁ : run step s₀ es₁ = some s₁)
    (hs : step s₁ e = some s₂) :
    RunUnder step C s₀ es₁ s₁ ∧ C s₁ e ∧ RunUnder step C s₂ es₂ s := by
  rw [List.append_cons] at h
  obtain ⟨t₂, ht, hrest⟩ := h.split
  generalize hes : es₁ ++ [e] = es at ht
  cases ht with
  | nil => simp at hes
  | @snoc es t₁ _ e' hr hc hstep =>
    obtain ⟨rfl, hlast⟩ := List.append_inj' hes rfl
    obtain rfl := List.singleton_inj.mp hlast
    obtain rfl := Option.some.inj (h₁.symm.trans hr.run_eq)
    obtain rfl := Option.some.inj (hs.symm.trans hstep)
    exact ⟨hr, hc, hrest⟩

theorem RunUnder.of_checkedRun [∀ s e, Decidable (C s e)]
    (hrun : checkedRun step C s es = some s') : RunUnder step C s es s' := by
  induction es generalizing s with
  | nil => exact Option.some.inj hrun ▸ .nil
  | cons e es ih =>
    unfold checkedRun at hrun
    split at hrun
    · rename_i hc
      obtain ⟨t, ht, hes⟩ := Option.bind_eq_some_iff.mp hrun
      exact (RunUnder.nil.snoc hc ht).trans (ih hes)
    · cases hrun

theorem exists_runUnder_of_checkedRun (step : σ → ε → Option σ) (C : σ → ε → Prop)
    [∀ s e, Decidable (C s e)] (s₀ : σ) (es : List ε) (p : σ → Bool)
    (h : (checkedRun step C s₀ es).any p = true) : ∃ s, RunUnder step C s₀ es s ∧ p s = true := by
  rcases hr : checkedRun step C s₀ es with _ | s
  · simp [hr] at h
  · exact ⟨s, .of_checkedRun hr, by simpa [hr] using h⟩

end Foundation
