import Mathlib.Algebra.Ring.Parity
import Mathlib.Algebra.BigOperators.Group.List.Basic
import Mathlib.Tactic.SplitIfs
import SettlementRail.Model.Mutex

/-! The broadcast lock. Of all calls a first part is ended, at most one is under way and the others
wait in order, whatever the functions do and whenever the calls come. -/

namespace Rail.Mutex
open Foundation Foundation.Promises

variable {V : Type}

/-- How far the first call that is not ended has come; `idle` if there is none. -/
inductive Stage (V : Type)
  | idle
  | queued
  | executing
  | adopting (outcome : Option (Outcome V))
  | adopted
  | forwarding (outcome : Outcome V)
  | releasing (outcome : Outcome V)

namespace Stage

def executingAt (k : ℕ) : Stage V → Option ℕ
  | executing => some k
  | _ => none

def moments (k : ℕ) : Stage V → List (Moment V)
  | idle | queued => []
  | executing | adopting none | adopted => [.started k]
  | adopting (some o) | forwarding o | releasing o => [.started k, .settled k o]

def hasReturned : Stage V → Bool
  | adopting _ | adopted | forwarding _ => true
  | _ => false

variable [Inhabited V]

def jobs (k : ℕ) : Stage V → List (Job PromiseName V Handler)
  | queued => [.handle (.fn k) (.run k) undefined]
  | adopting _ => [.adopt (.run k) (.fn k)]
  | forwarding o => [.forward (.run k) o]
  | releasing o => [.handle .forget (.tail (k + 1)) o]
  | _ => []

omit [Inhabited V] in
def runCell (k : ℕ) : Stage V → Cell PromiseName V Handler
  | idle => {}
  | releasing o => { outcome := some o }
  | _ => { reactions := [.handle .forget (.tail (k + 1))] }

omit [Inhabited V] in
def fnCell (k : ℕ) : Stage V → Cell PromiseName V Handler
  | adopting o => { outcome := o }
  | adopted => { reactions := [.forward (.run k)] }
  | forwarding o => { outcome := some o }
  | _ => {}

end Stage

def Moment.startOf : Moment V → Option ℕ
  | .started i => some i
  | .settled .. => none

def momentsFrom : ℕ → List (Outcome V) → List (Moment V)
  | _, [] => []
  | n, o :: os => .started n :: .settled n o :: momentsFrom (n + 1) os

/-- What holds of all calls but the one under way: the calls that are ended have settled, and each
later one waits for the tail before it. -/
structure Around [Inhabited V] (σ : State V) (ended : List (Outcome V)) : Prop where
  calls_le : ended.length ≤ σ.calls
  tail_eq : σ.tail = .tail σ.calls
  tails_ended : ∀ j, j ≤ ended.length → σ.heap.cells (.tail j) = { outcome := some undefined }
  tails_waiting : ∀ j, ended.length < j → σ.heap.cells (.tail j) =
    { reactions := if j < σ.calls then [.handle (.fn j) (.run j)] else [] }
  runs_ended : ∀ j o, ended[j]? = some o → σ.heap.cells (.run j) = { outcome := some o }
  runs_waiting : ∀ j, ended.length < j → σ.heap.cells (.run j) =
    { reactions := if j < σ.calls then [.handle .forget (.tail (j + 1))] else [] }
  fns_ended : ∀ i ∈ σ.returned, i < ended.length → (σ.heap.cells (.fn i)).outcome ≠ none
  fns_waiting : ∀ j, ended.length < j → σ.heap.cells (.fn j) = {}
  returned_le : ∀ i ∈ σ.returned, i ≤ ended.length

structure Current [Inhabited V] (σ : State V) (ended : List (Outcome V)) (stage : Stage V) :
    Prop where
  idle_iff : stage = .idle ↔ σ.calls = ended.length
  executing_eq : σ.executing = stage.executingAt ended.length
  jobs_eq : σ.heap.jobs = stage.jobs ended.length
  run_eq : σ.heap.cells (.run ended.length) = stage.runCell ended.length
  fn_eq : (∀ o, stage ≠ .releasing o) → σ.heap.cells (.fn ended.length) = stage.fnCell ended.length
  returned_iff : (∀ o, stage ≠ .releasing o) →
    (ended.length ∈ σ.returned ↔ stage.hasReturned = true)
  releasing : (∃ o, stage = .releasing o) → ended.length ∈ σ.returned →
    (σ.heap.cells (.fn ended.length)).outcome ≠ none
  history_eq : σ.history = momentsFrom 0 ended ++ stage.moments ended.length

structure Shape [Inhabited V] (σ : State V) (ended : List (Outcome V)) (stage : Stage V) : Prop where
  around : Around σ ended
  current : Current σ ended stage

variable [Inhabited V] {σ σ' : State V} {ended : List (Outcome V)} {stage : Stage V}
variable {o : Outcome V}

theorem Around.frame (h : Around σ ended) (hcalls : σ'.calls = σ.calls) (htail : σ'.tail = σ.tail)
    (hcells : ∀ name, name ≠ .run ended.length → name ≠ .fn ended.length →
      σ'.heap.cells name = σ.heap.cells name)
    (hreturned : ∀ i ∈ σ'.returned, i ∈ σ.returned ∨ i = ended.length) : Around σ' ended := by
  constructor
  case calls_le => exact hcalls ▸ h.calls_le
  case tail_eq => rw [htail, h.tail_eq, hcalls]
  case tails_ended => exact fun j hj => by rw [hcells _ (by simp) (by simp), h.tails_ended j hj]
  case tails_waiting =>
    exact fun j hj => by rw [hcells _ (by simp) (by simp), h.tails_waiting j hj, hcalls]
  case runs_ended =>
    intro j o hj
    have hlt : j < ended.length := (List.getElem?_eq_some_iff.mp hj).1
    rw [hcells _ (by simp [Nat.ne_of_lt hlt]) (by simp), h.runs_ended j o hj]
  case runs_waiting =>
    intro j hj
    rw [hcells _ (by simp [Nat.ne_of_gt hj]) (by simp), h.runs_waiting j hj, hcalls]
  case fns_ended =>
    intro i hi hlt
    rw [hcells _ (by simp) (by simp [Nat.ne_of_lt hlt])]
    exact h.fns_ended i ((hreturned i hi).resolve_right (Nat.ne_of_lt hlt)) hlt
  case fns_waiting =>
    intro j hj
    rw [hcells _ (by simp) (by simp [Nat.ne_of_gt hj]), h.fns_waiting j hj]
  case returned_le =>
    intro i hi
    rcases hreturned i hi with hold | rfl
    · exact h.returned_le i hold
    · exact le_rfl

theorem Shape.busy (h : Shape σ ended stage) (hstage : stage ≠ .idle) : ended.length < σ.calls :=
  lt_of_le_of_ne h.around.calls_le fun heq => hstage (h.current.idle_iff.mpr heq.symm)

theorem shape_initial : Shape (initial : State V) [] .idle := by
  constructor
  · refine ⟨le_rfl, rfl, fun j hj => ?_, fun j hj => ?_, fun j o h => ?_, fun j _ => ?_,
      fun i hi => ?_, fun j _ => rfl, fun i hi => ?_⟩
    · simp [initial, Nat.le_zero.mp hj]
    · have hne : j ≠ 0 := Nat.ne_of_gt hj
      simp [initial, hne]
    · cases h
    · simp [initial]
    all_goals exact absurd hi List.not_mem_nil
  · refine ⟨⟨fun _ => rfl, fun _ => rfl⟩, rfl, rfl, rfl, fun _ => rfl, fun _ => ?_,
      fun ⟨_, h⟩ => (by cases h), rfl⟩
    simp [initial, Stage.hasReturned]

theorem Shape.runExclusive_idle (h : Shape σ ended .idle) : Shape (runExclusive σ) ended .queued := by
  have hcalls : σ.calls = ended.length := h.current.idle_iff.mp rfl
  have htail : (σ.heap.cells σ.tail).outcome = some undefined := by
    rw [h.around.tail_eq, hcalls, h.around.tails_ended _ le_rfl]
  have hrun : (σ.heap.cells (.run σ.calls)).outcome = none := by
    rw [hcalls, h.current.run_eq]
    rfl
  have hheap : (runExclusive σ).heap =
      { cells := Function.update σ.heap.cells (.run ended.length)
          { reactions := [.handle .forget (.tail (ended.length + 1))] }
        jobs := [.handle (.fn ended.length) (.run ended.length) undefined] } := by
    simp only [Mutex.runExclusive, Heap.onSettled, Heap.react, htail, hrun]
    rw [hcalls, h.current.run_eq, h.current.jobs_eq]
    rfl
  have hcalls' : (runExclusive σ).calls = ended.length + 1 := by rw [runExclusive, hcalls]
  have hreturned : (runExclusive σ).returned = σ.returned := rfl
  constructor
  · constructor
    case tail_eq => rfl
    case returned_le => exact h.around.returned_le
    all_goals simp only [hheap, hcalls', hreturned, Function.update_apply]
    case calls_le => exact Nat.le_succ _
    case tails_ended => simpa using h.around.tails_ended
    case tails_waiting =>
      intro j hj
      have hnot : ¬j < ended.length + 1 := by omega
      simp [h.around.tails_waiting j hj, hcalls, hnot, Nat.not_lt_of_gt hj]
    case runs_ended =>
      intro j o hj
      have hlt : j < ended.length := (List.getElem?_eq_some_iff.mp hj).1
      simp [h.around.runs_ended j o hj, Nat.ne_of_lt hlt]
    case runs_waiting =>
      intro j hj
      have hnot : ¬j < ended.length + 1 := by omega
      simp [h.around.runs_waiting j hj, hcalls, hnot, Nat.not_lt_of_gt hj, Nat.ne_of_gt hj]
    case fns_ended => simpa using h.around.fns_ended
    case fns_waiting => simpa using h.around.fns_waiting
  · constructor
    case executing_eq => exact h.current.executing_eq
    case history_eq => exact h.current.history_eq
    case returned_iff => exact fun _ => h.current.returned_iff (by simp)
    all_goals simp only [hheap, hcalls', hreturned, Function.update_apply]
    case idle_iff => simp
    case jobs_eq => rfl
    case run_eq => simp [Stage.runCell]
    case fn_eq => simpa [Stage.fnCell] using h.current.fn_eq
    case releasing => simp

theorem Shape.runExclusive_busy (h : Shape σ ended stage) (hstage : stage ≠ .idle) :
    Shape (runExclusive σ) ended stage := by
  have hbusy : ended.length < σ.calls := h.busy hstage
  have htail : σ.heap.cells (.tail σ.calls) = {} := by
    rw [h.around.tails_waiting _ hbusy, if_neg (lt_irrefl _)]
  have hrun : σ.heap.cells (.run σ.calls) = {} := by
    rw [h.around.runs_waiting _ hbusy, if_neg (lt_irrefl _)]
  have hheap : (runExclusive σ).heap =
      { cells := Function.update (Function.update σ.heap.cells (.tail σ.calls)
          { reactions := [.handle (.fn σ.calls) (.run σ.calls)] }) (.run σ.calls)
          { reactions := [.handle .forget (.tail (σ.calls + 1))] }
        jobs := σ.heap.jobs } := by
    simp only [Mutex.runExclusive, Heap.onSettled, Heap.react, htail, Function.update_apply,
      reduceCtorEq, h.around.tail_eq, if_false, hrun]
    rfl
  have hcalls' : (runExclusive σ).calls = σ.calls + 1 := rfl
  have hreturned : (runExclusive σ).returned = σ.returned := rfl
  constructor
  · constructor
    case tail_eq => rfl
    case returned_le => exact h.around.returned_le
    all_goals simp only [hheap, hcalls', hreturned, Function.update_apply]
    case calls_le => exact hbusy.le.trans (Nat.le_succ _)
    case tails_ended =>
      intro j hj
      simp [h.around.tails_ended j hj, show j ≠ σ.calls by omega]
    case tails_waiting =>
      intro j hj
      rcases lt_trichotomy j σ.calls with hlt | rfl | hgt
      · simp [h.around.tails_waiting j hj, hlt, Nat.ne_of_lt hlt, Nat.lt_succ_of_lt hlt]
      · simp
      · have hnot : ¬j < σ.calls + 1 := by omega
        simp [h.around.tails_waiting j hj, Nat.not_lt_of_gt hgt, Nat.ne_of_gt hgt, hnot]
    case runs_ended =>
      intro j o hj
      have hlt : j < ended.length := (List.getElem?_eq_some_iff.mp hj).1
      simp [h.around.runs_ended j o hj, show j ≠ σ.calls by omega]
    case runs_waiting =>
      intro j hj
      rcases lt_trichotomy j σ.calls with hlt | rfl | hgt
      · simp [h.around.runs_waiting j hj, hlt, Nat.ne_of_lt hlt, Nat.lt_succ_of_lt hlt]
      · simp
      · have hnot : ¬j < σ.calls + 1 := by omega
        simp [h.around.runs_waiting j hj, Nat.not_lt_of_gt hgt, Nat.ne_of_gt hgt, hnot]
    case fns_ended => simpa using h.around.fns_ended
    case fns_waiting => simpa using h.around.fns_waiting
  · constructor
    case executing_eq => exact h.current.executing_eq
    case history_eq => exact h.current.history_eq
    case returned_iff => exact h.current.returned_iff
    all_goals simp only [hheap, hcalls', hreturned, Function.update_apply]
    case idle_iff => simp [hstage, show σ.calls + 1 ≠ ended.length by omega]
    case jobs_eq => exact h.current.jobs_eq
    case run_eq => simp [h.current.run_eq, Nat.ne_of_lt hbusy]
    case fn_eq => simpa using h.current.fn_eq
    case releasing => simpa using h.current.releasing

theorem Shape.starts (h : Shape σ ended .queued) :
    Shape (perform { σ with heap := { σ.heap with jobs := [] } }
      (.handle (.fn ended.length) (.run ended.length) undefined)) ended .executing where
  around := h.around.frame rfl rfl (fun _ _ _ => rfl) fun _ hi => .inl hi
  current :=
    { idle_iff := by simpa [perform] using h.current.idle_iff
      executing_eq := rfl
      jobs_eq := rfl
      run_eq := h.current.run_eq
      fn_eq := fun _ => h.current.fn_eq (by simp)
      returned_iff := fun _ => h.current.returned_iff (by simp)
      releasing := by simp
      history_eq := by simp [perform, h.current.history_eq, Stage.moments] }

theorem Shape.returns (h : Shape σ ended .executing) :
    Shape { σ with
      heap := σ.heap.follow (.run ended.length) (.fn ended.length), executing := none
      returned := σ.returned ++ [ended.length] } ended (.adopting none) where
  around := h.around.frame rfl rfl (fun _ _ _ => rfl) fun i hi => by simpa using hi
  current :=
    { idle_iff := by simpa using h.current.idle_iff
      executing_eq := rfl
      jobs_eq := by simp [Heap.follow, h.current.jobs_eq, Stage.jobs]
      run_eq := h.current.run_eq
      fn_eq := fun _ => h.current.fn_eq (by simp)
      returned_iff := fun _ => by simp [Stage.hasReturned]
      releasing := by simp
      history_eq := h.current.history_eq }

theorem Shape.settle_run (h : Shape σ ended stage) (hrun : stage.runCell ended.length =
    ({ reactions := [.handle .forget (.tail (ended.length + 1))] } : Cell PromiseName V Handler)) :
    σ.heap.settle (.run ended.length) o =
      { cells := Function.update σ.heap.cells (.run ended.length) { outcome := some o }
        jobs := σ.heap.jobs ++ [.handle .forget (.tail (ended.length + 1)) o] } := by
  have hcell := h.current.run_eq.trans hrun
  have hpending : (σ.heap.cells (.run ended.length)).outcome = none := by rw [hcell]
  rw [Heap.settle_pending hpending, hcell]
  rfl

theorem Shape.throws (h : Shape σ ended .executing) (e : V) :
    Shape { σ with
      heap := σ.heap.settle (.run ended.length) (.rejected e), executing := none
      history := σ.history ++ [.settled ended.length (.rejected e)] } ended
      (.releasing (.rejected e)) := by
  rw [h.settle_run rfl]
  refine ⟨h.around.frame rfl rfl (fun name hrun _ => ?_) fun _ hi => .inl hi, ?_⟩
  · exact Function.update_of_ne hrun ..
  · have hnot : ended.length ∉ σ.returned := fun hi => by
      simpa [Stage.hasReturned] using (h.current.returned_iff (by simp)).mp hi
    exact
      { idle_iff := by simpa using h.current.idle_iff
        executing_eq := rfl
        jobs_eq := by simp [h.current.jobs_eq, Stage.jobs]
        run_eq := by simp [Stage.runCell]
        fn_eq := by simp
        returned_iff := by simp
        releasing := fun _ hi => absurd hi hnot
        history_eq := by simp [h.current.history_eq, Stage.moments] }

theorem Shape.adopts (h : Shape σ ended (.adopting none)) :
    Shape (perform { σ with heap := { σ.heap with jobs := [] } }
      (.adopt (.run ended.length) (.fn ended.length))) ended .adopted := by
  have hfn : σ.heap.cells (.fn ended.length) = {} := h.current.fn_eq (by simp)
  refine ⟨h.around.frame rfl rfl (fun name _ hne => ?_) fun _ hi => .inl hi, ?_⟩
  · simp [perform, Heap.react, hfn, hne]
  · exact
      { idle_iff := by simpa [perform] using h.current.idle_iff
        executing_eq := h.current.executing_eq
        jobs_eq := by simp [perform, Heap.react, hfn, Stage.jobs]
        run_eq := by simpa [perform, Heap.react, hfn, Stage.runCell] using h.current.run_eq
        fn_eq := fun _ => by simp [perform, Heap.react, hfn, Stage.fnCell]
        returned_iff := fun _ => h.current.returned_iff (by simp)
        releasing := by simp
        history_eq := h.current.history_eq }

theorem Shape.adopts_settled (h : Shape σ ended (.adopting (some o))) :
    Shape (perform { σ with heap := { σ.heap with jobs := [] } }
      (.adopt (.run ended.length) (.fn ended.length))) ended (.forwarding o) := by
  have hfn : σ.heap.cells (.fn ended.length) = { outcome := some o } := h.current.fn_eq (by simp)
  refine ⟨h.around.frame rfl rfl (fun name _ _ => ?_) fun _ hi => .inl hi, ?_⟩
  · simp [perform, Heap.react, hfn]
  · exact
      { idle_iff := by simpa [perform] using h.current.idle_iff
        executing_eq := h.current.executing_eq
        jobs_eq := by simp [perform, Heap.react, hfn, Stage.jobs, Reaction.job]
        run_eq := by simpa [perform, Heap.react, hfn, Stage.runCell] using h.current.run_eq
        fn_eq := fun _ => by simp [perform, Heap.react, hfn, Stage.fnCell]
        returned_iff := fun _ => h.current.returned_iff (by simp)
        releasing := by simp
        history_eq := h.current.history_eq }

theorem Shape.forwards (h : Shape σ ended (.forwarding o)) :
    Shape (perform { σ with heap := { σ.heap with jobs := [] } } (.forward (.run ended.length) o))
      ended (.releasing o) := by
  have hrun : σ.heap.cells (.run ended.length) =
      { reactions := [.handle .forget (.tail (ended.length + 1))] } := h.current.run_eq
  have hfn : σ.heap.cells (.fn ended.length) = { outcome := some o } := h.current.fn_eq (by simp)
  refine ⟨h.around.frame rfl rfl (fun name hne _ => ?_) fun _ hi => .inl hi, ?_⟩
  · simp [perform, Heap.settle, hrun, hne]
  · exact
      { idle_iff := by simpa [perform] using h.current.idle_iff
        executing_eq := h.current.executing_eq
        jobs_eq := by simp [perform, Heap.settle, hrun, Stage.jobs, Reaction.job]
        run_eq := by simp [perform, Heap.settle, hrun, Stage.runCell]
        fn_eq := by simp
        returned_iff := by simp
        releasing := fun _ _ => by simp [perform, Heap.settle, hrun, hfn]
        history_eq := h.current.history_eq }

theorem Shape.settles_adopting (h : Shape σ ended (.adopting none)) :
    Shape { σ with
      heap := σ.heap.settle (.fn ended.length) o
      history := σ.history ++ [.settled ended.length o] } ended (.adopting (some o)) := by
  have hfn : σ.heap.cells (.fn ended.length) = {} := h.current.fn_eq (by simp)
  refine ⟨h.around.frame rfl rfl (fun name _ hne => ?_) fun _ hi => .inl hi, ?_⟩
  · simp [Heap.settle, hfn, hne]
  · exact
      { idle_iff := by simpa using h.current.idle_iff
        executing_eq := h.current.executing_eq
        jobs_eq := by simp [Heap.settle, hfn, h.current.jobs_eq, Stage.jobs]
        run_eq := by simpa [Heap.settle, hfn, Stage.runCell] using h.current.run_eq
        fn_eq := fun _ => by simp [Heap.settle, hfn, Stage.fnCell]
        returned_iff := fun _ => h.current.returned_iff (by simp)
        releasing := by simp
        history_eq := by simp [h.current.history_eq, Stage.moments] }

theorem Shape.settles_adopted (h : Shape σ ended .adopted) :
    Shape { σ with
      heap := σ.heap.settle (.fn ended.length) o
      history := σ.history ++ [.settled ended.length o] } ended (.forwarding o) := by
  have hfn : σ.heap.cells (.fn ended.length) = { reactions := [.forward (.run ended.length)] } :=
    h.current.fn_eq (by simp)
  refine ⟨h.around.frame rfl rfl (fun name _ hne => ?_) fun _ hi => .inl hi, ?_⟩
  · simp [Heap.settle, hfn, hne]
  · exact
      { idle_iff := by simpa using h.current.idle_iff
        executing_eq := h.current.executing_eq
        jobs_eq := by simp [Heap.settle, hfn, h.current.jobs_eq, Stage.jobs, Reaction.job]
        run_eq := by simpa [Heap.settle, hfn, Stage.runCell] using h.current.run_eq
        fn_eq := fun _ => by simp [Heap.settle, hfn, Stage.fnCell]
        returned_iff := fun _ => h.current.returned_iff (by simp)
        releasing := by simp
        history_eq := by simp [h.current.history_eq, Stage.moments] }

def Stage.next (σ : State V) (k : ℕ) : Stage V := if k + 1 < σ.calls then .queued else .idle

omit [Inhabited V] in
theorem momentsFrom_append (n : ℕ) (ended : List (Outcome V)) (o : Outcome V) :
    momentsFrom n (ended ++ [o]) =
      momentsFrom n ended ++ [.started (n + ended.length), .settled (n + ended.length) o] := by
  induction ended generalizing n with
  | nil => rfl
  | cons p ended ih =>
    simp only [List.cons_append, momentsFrom, ih, List.length_cons]
    rw [show n + 1 + ended.length = n + (ended.length + 1) by omega]

theorem Shape.releases (h : Shape σ ended (.releasing o)) :
    Shape (perform { σ with heap := { σ.heap with jobs := [] } }
      (.handle .forget (.tail (ended.length + 1)) o)) (ended ++ [o])
      (Stage.next σ ended.length) := by
  have hbusy : ended.length < σ.calls := h.busy (by simp)
  have htail := h.around.tails_waiting (ended.length + 1) (Nat.lt_succ_self _)
  have hrun : σ.heap.cells (.run ended.length) = { outcome := some o } := h.current.run_eq
  have hheap : (perform { σ with heap := { σ.heap with jobs := [] } }
      (.handle .forget (.tail (ended.length + 1)) o)).heap =
      { cells := Function.update σ.heap.cells (.tail (ended.length + 1))
          { outcome := some undefined }
        jobs := if ended.length + 1 < σ.calls then
          [.handle (.fn (ended.length + 1)) (.run (ended.length + 1)) undefined] else [] } := by
    simp only [perform, Heap.settle, htail, List.nil_append]
    split_ifs <;> rfl
  generalize hσ' : perform { σ with heap := { σ.heap with jobs := [] } }
    (.handle .forget (.tail (ended.length + 1)) o) = σ' at hheap ⊢
  have hcalls : σ'.calls = σ.calls := by rw [← hσ', perform]
  have hreturned : σ'.returned = σ.returned := by rw [← hσ', perform]
  have hlength : (ended ++ [o]).length = ended.length + 1 := by simp
  constructor
  · constructor
    case tail_eq => rw [← hσ', perform, h.around.tail_eq]
    all_goals simp only [hheap, hcalls, hreturned, hlength, Function.update_apply]
    case calls_le => exact hbusy
    case tails_ended =>
      intro j hj
      split_ifs with heq
      · rfl
      · exact h.around.tails_ended j (Nat.lt_succ_iff.mp (lt_of_le_of_ne hj fun he => heq (by rw [he])))
    case tails_waiting =>
      intro j hj
      have hne : PromiseName.tail j ≠ .tail (ended.length + 1) := by simp [Nat.ne_of_gt hj]
      rw [if_neg hne]
      exact h.around.tails_waiting j (by omega)
    case runs_ended =>
      intro j p hj
      rw [if_neg (by simp)]
      rcases Nat.lt_or_ge j ended.length with hlt | hge
      · rw [List.getElem?_append_left hlt] at hj
        exact h.around.runs_ended j p hj
      · obtain ⟨hlt, hp⟩ := List.getElem?_eq_some_iff.mp hj
        have heq : j = ended.length := by omega
        subst heq
        rw [hrun, ← hp, List.getElem_concat_length rfl]
    case runs_waiting => exact fun j hj => (if_neg (by simp)).trans (h.around.runs_waiting j (by omega))
    case fns_ended =>
      intro i hi hlt
      rw [if_neg (by simp)]
      rcases Nat.lt_succ_iff_lt_or_eq.mp hlt with hlt | rfl
      · exact h.around.fns_ended i hi hlt
      · exact h.current.releasing ⟨o, rfl⟩ hi
    case fns_waiting => exact fun j hj => (if_neg (by simp)).trans (h.around.fns_waiting j (by omega))
    case returned_le => exact fun i hi => (h.around.returned_le i hi).trans (Nat.le_succ _)
  · have hnew : ended.length + 1 ∉ σ.returned := fun hi =>
      absurd (h.around.returned_le _ hi) (Nat.not_succ_le_self _)
    constructor
    case executing_eq =>
      rw [← hσ', perform, h.current.executing_eq, Stage.next]
      split_ifs <;> rfl
    case history_eq =>
      rw [← hσ', perform, h.current.history_eq, momentsFrom_append, Stage.next]
      split_ifs <;> simp [Stage.moments]
    all_goals simp only [hheap, hcalls, hreturned, hlength, Function.update_apply, Stage.next]
    case idle_iff => split_ifs <;> simp <;> omega
    case jobs_eq => split_ifs <;> rfl
    case run_eq =>
      rw [if_neg (by simp), h.around.runs_waiting _ (Nat.lt_succ_self _)]
      split_ifs <;> rfl
    case fn_eq =>
      intro _
      rw [if_neg (by simp), h.around.fns_waiting _ (Nat.lt_succ_self _)]
      split_ifs <;> rfl
    case returned_iff => split_ifs <;> simp [Stage.hasReturned, hnew]
    case releasing => split_ifs <;> simp

def Stage.used : Stage V → ℕ
  | .idle | .queued => 0
  | .executing | .adopting _ => 1
  | .adopted | .forwarding _ => 2
  | .releasing _ => 3

def Event.microtasks : Event V → ℕ
  | .microtask => 1
  | _ => 0

theorem Shape.microtask (h : Shape σ ended stage) (hs : step σ .microtask = some σ') :
    ∃ ended' stage', Shape σ' ended' stage' ∧
      4 * ended.length + stage.used + 1 ≤ 4 * ended'.length + stage'.used := by
  have hexecuting := h.current.executing_eq
  have hjobs := h.current.jobs_eq
  simp only [step] at hs
  split_ifs at hs with hbusy
  cases stage with
  | idle | executing | adopted => simp [hjobs, Stage.jobs] at hs
  | queued =>
    simp only [hjobs, Stage.jobs, Option.some.injEq] at hs
    exact ⟨ended, _, hs ▸ h.starts, le_rfl⟩
  | adopting outcome =>
    simp only [hjobs, Stage.jobs, Option.some.injEq] at hs
    rcases outcome with _ | o
    · exact ⟨ended, _, hs ▸ h.adopts, le_rfl⟩
    · exact ⟨ended, _, hs ▸ h.adopts_settled, le_rfl⟩
  | forwarding o =>
    simp only [hjobs, Stage.jobs, Option.some.injEq] at hs
    exact ⟨ended, _, hs ▸ h.forwards, le_rfl⟩
  | releasing o =>
    simp only [hjobs, Stage.jobs, Option.some.injEq] at hs
    refine ⟨ended ++ [o], _, hs ▸ h.releases, ?_⟩
    simp only [Stage.used, List.length_append, List.length_singleton]
    omega

theorem Shape.executing_of_some {i : ℕ} (h : Shape σ ended stage) (hi : σ.executing = some i) :
    i = ended.length ∧ stage = .executing := by
  rw [h.current.executing_eq] at hi
  cases stage <;> simp [Stage.executingAt] at hi
  exact ⟨hi.symm, rfl⟩

theorem Shape.settles {i : ℕ} (h : Shape σ ended stage) (hi : i ∈ σ.returned)
    (hpending : (σ.heap.cells (.fn i)).outcome = none) :
    ∃ stage', Shape { σ with
      heap := σ.heap.settle (.fn i) o
      history := σ.history ++ [.settled i o] } ended stage' ∧ stage.used ≤ stage'.used := by
  have hle : i ≤ ended.length := h.around.returned_le i hi
  rcases hle.lt_or_eq with hlt | rfl
  · exact absurd hpending (h.around.fns_ended i hi hlt)
  have hnot : ∀ p, stage ≠ .releasing p := fun p hp => h.current.releasing ⟨p, hp⟩ hi hpending
  have hreturned := (h.current.returned_iff hnot).mp hi
  rw [h.current.fn_eq hnot] at hpending
  cases stage with
  | idle | queued | executing | releasing => cases hreturned
  | forwarding => cases hpending
  | adopted => exact ⟨_, h.settles_adopted, le_rfl⟩
  | adopting outcome =>
    cases (show outcome = none from hpending)
    exact ⟨_, h.settles_adopting, le_rfl⟩

theorem Shape.step {ev : Event V} (h : Shape σ ended stage) (hs : Mutex.step σ ev = some σ') :
    ∃ ended' stage', Shape σ' ended' stage' ∧
      4 * ended.length + stage.used + ev.microtasks ≤ 4 * ended'.length + stage'.used := by
  cases ev with
  | microtask => exact h.microtask hs
  | runExclusive =>
    cases Option.some.inj hs
    by_cases hidle : stage = .idle
    · subst hidle
      exact ⟨ended, .queued, h.runExclusive_idle, le_rfl⟩
    · exact ⟨ended, stage, h.runExclusive_busy hidle, le_rfl⟩
  | returns =>
    obtain ⟨i, hi, rfl⟩ := Option.map_eq_some_iff.mp hs
    obtain ⟨rfl, rfl⟩ := h.executing_of_some hi
    exact ⟨ended, _, h.returns, le_rfl⟩
  | throws e =>
    obtain ⟨i, hi, rfl⟩ := Option.map_eq_some_iff.mp hs
    obtain ⟨rfl, rfl⟩ := h.executing_of_some hi
    exact ⟨ended, _, h.throws e, by simp [Stage.used, Event.microtasks]⟩
  | settles i o =>
    simp only [Mutex.step] at hs
    split_ifs at hs with hi
    cases hs
    obtain ⟨stage', hshape, hused⟩ := h.settles hi.1 hi.2
    exact ⟨ended, stage', hshape, by simpa [Event.microtasks] using hused⟩

theorem shape_run {es : List (Event V)} (h : RunUnder step (fun _ _ => True) initial es σ) :
    ∃ ended stage, Shape σ ended stage ∧
      (es.map Event.microtasks).sum ≤ 4 * ended.length + stage.used := by
  induction h with
  | nil => exact ⟨[], .idle, shape_initial, le_rfl⟩
  | snoc _ _ hs ih =>
    obtain ⟨ended, stage, hshape, hsum⟩ := ih
    obtain ⟨ended', stage', hshape', hused⟩ := hshape.step hs
    refine ⟨ended', stage', hshape', ?_⟩
    rw [List.map_append, List.sum_append, List.map_singleton, List.sum_singleton]
    omega

section History
omit [Inhabited V]

theorem getElem?_momentsFrom_even (n i : ℕ) (ended : List (Outcome V)) :
    (momentsFrom n ended)[2 * i]? = ended[i]?.map fun _ => .started (n + i) := by
  induction ended generalizing n i with
  | nil => simp [momentsFrom]
  | cons o ended ih =>
    cases i with
    | zero => rfl
    | succ i =>
      rw [show 2 * (i + 1) = 2 * i + 1 + 1 by omega]
      simp only [momentsFrom, List.getElem?_cons_succ, ih]
      rw [show n + 1 + i = n + (i + 1) by omega]

theorem getElem?_momentsFrom_odd (n i : ℕ) (ended : List (Outcome V)) :
    (momentsFrom n ended)[2 * i + 1]? = ended[i]?.map fun o => .settled (n + i) o := by
  induction ended generalizing n i with
  | nil => simp [momentsFrom]
  | cons o ended ih =>
    cases i with
    | zero => rfl
    | succ i =>
      rw [show 2 * (i + 1) + 1 = 2 * i + 1 + 1 + 1 by omega]
      simp only [momentsFrom, List.getElem?_cons_succ, ih]
      rw [show n + 1 + i = n + (i + 1) by omega]

theorem getElem?_momentsFrom_started {p i : ℕ} {ended : List (Outcome V)}
    (h : (momentsFrom 0 ended)[p]? = some (.started i)) : p = 2 * i ∧ i < ended.length := by
  rcases Nat.even_or_odd' p with ⟨q, rfl | rfl⟩
  · rw [getElem?_momentsFrom_even, Nat.zero_add] at h
    obtain ⟨o, ho, heq⟩ := Option.map_eq_some_iff.mp h
    cases heq
    exact ⟨rfl, (List.getElem?_eq_some_iff.mp ho).1⟩
  · rw [getElem?_momentsFrom_odd] at h
    obtain ⟨o, -, heq⟩ := Option.map_eq_some_iff.mp h
    cases heq

theorem getElem?_momentsFrom_settled {p i : ℕ} {o : Outcome V} {ended : List (Outcome V)}
    (h : (momentsFrom 0 ended)[p]? = some (.settled i o)) : p = 2 * i + 1 ∧ ended[i]? = some o := by
  rcases Nat.even_or_odd' p with ⟨q, rfl | rfl⟩
  · rw [getElem?_momentsFrom_even] at h
    obtain ⟨o, -, heq⟩ := Option.map_eq_some_iff.mp h
    cases heq
  · rw [getElem?_momentsFrom_odd, Nat.zero_add] at h
    obtain ⟨p, hp, heq⟩ := Option.map_eq_some_iff.mp h
    cases heq
    exact ⟨rfl, hp⟩

theorem settled_mem_momentsFrom {i : ℕ} {o : Outcome V} {ended : List (Outcome V)} :
    .settled i o ∈ momentsFrom 0 ended ↔ ended[i]? = some o := by
  constructor
  · intro h
    obtain ⟨p, hp⟩ := List.mem_iff_getElem?.mp h
    exact (getElem?_momentsFrom_settled hp).2
  · intro h
    refine List.mem_of_getElem? (i := 2 * i + 1) ?_
    rw [getElem?_momentsFrom_odd, h, Nat.zero_add]
    rfl

theorem started_mem_momentsFrom {i : ℕ} {ended : List (Outcome V)} :
    .started i ∈ momentsFrom 0 ended ↔ i < ended.length := by
  constructor
  · intro h
    obtain ⟨p, hp⟩ := List.mem_iff_getElem?.mp h
    exact (getElem?_momentsFrom_started hp).2
  · intro h
    refine List.mem_of_getElem? (i := 2 * i) ?_
    rw [getElem?_momentsFrom_even, List.getElem?_eq_getElem h, Nat.zero_add]
    rfl

theorem startOf_momentsFrom (n : ℕ) (ended : List (Outcome V)) :
    (momentsFrom n ended).filterMap Moment.startOf = List.range' n ended.length := by
  induction ended generalizing n with
  | nil => rfl
  | cons o ended ih => simp [momentsFrom, List.filterMap_cons, Moment.startOf, ih, List.range'_succ]

theorem started_mem_iff {ended : List (Outcome V)} {stage : Stage V} {i : ℕ} :
    .started i ∈ momentsFrom 0 ended ++ stage.moments ended.length ↔
      i < ended.length ∨ i = ended.length ∧ stage ≠ .idle ∧ stage ≠ .queued := by
  rw [List.mem_append, started_mem_momentsFrom]
  refine or_congr Iff.rfl ?_
  rcases stage with _ | _ | _ | (_ | _) | _ | _ | _ <;> simp [Stage.moments]

end History

theorem Shape.history_prefix (h : Shape σ ended stage) :
    ∃ all, σ.history <+: momentsFrom 0 all := by
  have whole : ∀ (o : Outcome V) (l rest : List (Moment V)),
      l ++ rest = [.started ended.length, .settled ended.length o] →
      momentsFrom 0 ended ++ l <+: momentsFrom 0 (ended ++ [o]) := by
    intro o l rest hl
    rw [momentsFrom_append, Nat.zero_add, ← hl]
    exact (List.prefix_append_right_inj _).mpr (List.prefix_append _ _)
  rw [h.current.history_eq]
  rcases stage with _ | _ | _ | (_ | o) | _ | o | o
  case idle | queued => exact ⟨ended, by simp [Stage.moments]⟩
  case adopting.some | forwarding | releasing => exact ⟨_, whole o _ [] rfl⟩
  all_goals exact ⟨_, whole undefined _ [.settled ended.length undefined] rfl⟩

def State.Active (σ : State V) (i : ℕ) : Prop :=
  .started i ∈ σ.history ∧ ∀ o, .settled i o ∉ σ.history

/-- At most one function is active; functions start in the order of the calls, each after all
earlier ones have settled; what a caller gets is how its own function settled. When the microtasks
have run dry and no function is active, every caller has its answer, and there are at most four
microtasks for each call. -/
structure Serialized (es : List (Event V)) (σ : State V) : Prop where
  exclusive : ∀ i j, σ.Active i → σ.Active j → i = j
  in_order : ∃ n, σ.history.filterMap Moment.startOf = List.range n
  after_settled : ∀ before after j, σ.history = before ++ .started j :: after →
    ∀ i < j, ∃ o, .settled i o ∈ before
  once : ∀ i o o', .settled i o ∈ σ.history → .settled i o' ∈ σ.history → o = o'
  own : ∀ i o, (σ.heap.cells (.run i)).outcome = some o → .settled i o ∈ σ.history
  progress : σ.heap.jobs = [] → σ.executing = none → (∃ i, σ.Active i) ∨
    ∀ i < σ.calls, ∃ o, (σ.heap.cells (.run i)).outcome = some o
  bounded : (es.map Event.microtasks).sum ≤ 4 * σ.calls

theorem Shape.active_iff (h : Shape σ ended stage) (i : ℕ) : σ.Active i ↔
    i = ended.length ∧ (stage = .executing ∨ stage = .adopting none ∨ stage = .adopted) := by
  have hover : ∀ o, .settled i o ∉ momentsFrom 0 ended ↔ ended[i]? ≠ some o := fun o =>
    not_congr settled_mem_momentsFrom
  rw [State.Active, h.current.history_eq, started_mem_iff]
  simp only [List.mem_append, not_or, hover]
  constructor
  · rintro ⟨hlt | ⟨rfl, hstage⟩, hnone⟩
    · exact absurd (List.getElem?_eq_getElem hlt) (hnone _).1
    · refine ⟨rfl, ?_⟩
      rcases stage with _ | _ | _ | (_ | o) | _ | o | o <;> simp [Stage.moments] at hstage hnone ⊢
  · rintro ⟨rfl, rfl | rfl | rfl⟩ <;> simp [Stage.moments]

theorem Shape.own (h : Shape σ ended stage) {i : ℕ} {o : Outcome V}
    (ho : (σ.heap.cells (.run i)).outcome = some o) : .settled i o ∈ σ.history := by
  rw [h.current.history_eq, List.mem_append, settled_mem_momentsFrom]
  rcases lt_trichotomy i ended.length with hlt | rfl | hgt
  · have hcell := h.around.runs_ended i _ (List.getElem?_eq_getElem hlt)
    rw [hcell] at ho
    exact .inl (by rw [List.getElem?_eq_getElem hlt]; exact ho)
  · rw [h.current.run_eq] at ho
    cases stage <;> simp [Stage.runCell] at ho
    subst ho
    exact .inr (by simp [Stage.moments])
  · rw [h.around.runs_waiting i hgt] at ho
    cases ho

theorem Shape.progress (h : Shape σ ended stage) (hjobs : σ.heap.jobs = [])
    (hexecuting : σ.executing = none) : (∃ i, σ.Active i) ∨
      ∀ i < σ.calls, ∃ o, (σ.heap.cells (.run i)).outcome = some o := by
  rw [h.current.jobs_eq] at hjobs
  rw [h.current.executing_eq] at hexecuting
  cases stage with
  | queued | adopting | forwarding | releasing => cases hjobs
  | executing => cases hexecuting
  | adopted => exact .inl ⟨ended.length, (h.active_iff _).mpr ⟨rfl, .inr (.inr rfl)⟩⟩
  | idle =>
    refine .inr fun i hi => ?_
    rw [h.current.idle_iff.mp rfl] at hi
    exact ⟨ended[i], by rw [h.around.runs_ended i _ (List.getElem?_eq_getElem hi)]⟩

theorem Shape.used_le (h : Shape σ ended stage) : 4 * ended.length + stage.used ≤ 4 * σ.calls := by
  by_cases hidle : stage = .idle
  · rw [hidle, h.current.idle_iff.mp hidle]
    exact le_rfl
  · have hbusy : ended.length < σ.calls := h.busy hidle
    have hused : stage.used ≤ 3 := by cases stage <;> simp [Stage.used]
    omega

theorem serialized_of_run {es : List (Event V)}
    (h : RunUnder step (fun _ _ => True) initial es σ) : Serialized es σ := by
  obtain ⟨ended, stage, hshape, hsum⟩ := shape_run h
  obtain ⟨all, hextends⟩ := hshape.history_prefix
  constructor
  case exclusive =>
    intro i j hi hj
    exact ((hshape.active_iff i).mp hi).1.trans ((hshape.active_iff j).mp hj).1.symm
  case in_order =>
    rw [hshape.current.history_eq, List.filterMap_append, startOf_momentsFrom,
      ← List.range_eq_range']
    rcases stage with _ | _ | _ | (_ | _) | _ | _ | _
    case idle | queued => exact ⟨ended.length, by simp [Stage.moments]⟩
    all_goals exact ⟨ended.length + 1, by simp [Stage.moments, Moment.startOf, List.range_succ]⟩
  case after_settled =>
    intro before after j hsplit i hij
    obtain ⟨rest, hall⟩ := hextends
    rw [hsplit, List.append_assoc] at hall
    have hat : (momentsFrom 0 all)[before.length]? = some (.started j) := by
      rw [← hall, List.getElem?_append_right le_rfl, Nat.sub_self]
      rfl
    obtain ⟨hlength, hj⟩ := getElem?_momentsFrom_started hat
    have hi : i < all.length := hij.trans hj
    have hmoment := getElem?_momentsFrom_odd 0 i all
    rw [List.getElem?_eq_getElem hi, Nat.zero_add] at hmoment
    have hlt : 2 * i + 1 < before.length := by omega
    rw [← hall, List.getElem?_append_left hlt] at hmoment
    exact ⟨_, List.mem_of_getElem? hmoment⟩
  case once =>
    intro i o o' ho ho'
    have hall := settled_mem_momentsFrom.mp (hextends.subset ho)
    rw [settled_mem_momentsFrom.mp (hextends.subset ho')] at hall
    exact (Option.some.inj hall).symm
  case own => exact fun i o => hshape.own
  case progress => exact hshape.progress
  case bounded => exact hsum.trans hshape.used_le

/-- Three calls, one of them made while the first function runs. The second function throws, and
the third one still runs. -/
theorem failing_section_passes_on : ∃ (es : List (Event ℕ)) (σ : State ℕ), Serialized es σ ∧
    ((List.range 3).all fun i => (σ.heap.cells (.run i)).outcome.isSome) = true := by
  obtain ⟨σ, hrun, hsettled⟩ := exists_runUnder_of_checkedRun (step (V := ℕ)) (fun _ _ => True)
    initial [.runExclusive, .runExclusive, .microtask, .runExclusive, .returns,
      .settles 0 (.fulfilled 7), .microtask, .microtask, .microtask, .microtask, .throws 5,
      .microtask, .microtask, .returns, .microtask, .settles 2 (.rejected 6), .microtask]
    (fun σ => (List.range 3).all fun i => (σ.heap.cells (.run i)).outcome.isSome) (by decide +kernel)
  exact ⟨_, σ, serialized_of_run hrun, hsettled⟩

end Rail.Mutex
