import SettlementRail.Foundation.ThreadPool
import SettlementRail.System.Steps

/-! The `create` calls: which of them holds a settlement it inserted and has not passed on. -/

namespace Rail
open Foundation

def CreatePc.held : CreatePc → Option SettlementId
  | .check id | .reject id _ | .approve id => some id
  | _ => none

variable {compliance : Address → ComplianceResult} {db : Db} {now : ℕ} {call : CreateCall}
variable {e : CreateEvent} {out : CreateOut} {id : SettlementId}

theorem screen_held (result : ComplianceResult) : (screen id result).held = some id := by
  unfold screen
  split_ifs <;> rfl

theorem createEnd_held (o : DbOutcome Unit) : (createEnd id o).held = none := by
  cases o <;> rfl

theorem afterRead_held (dto : CreateSettlementDto) (reads : BalanceReads) :
    (afterRead dto reads).pc.held = none ∧ (afterRead dto reads).enqueue = none := by
  unfold afterRead
  split
  · exact ⟨rfl, rfl⟩
  · split_ifs <;> exact ⟨rfl, rfl⟩

inductive HoldMoves (db : Db) (now : ℕ) (call : CreateCall) : CreateEvent → CreateOut → Prop
  | keep {e : CreateEvent} {out : CreateOut} (hev : ∀ o, e ≠ .written o)
      (hheld : out.pc.held = call.pc.held) (henq : out.enqueue = none) :
      HoldMoves db now call e out
  | insert {id : SettlementId} {db' : Db} {out : CreateOut} (hpc : call.pc = .insert)
      (hnew : db.create (call.dto.row id now) = some db') (hout : out.pc = .check id)
      (hop : out.db = .create (call.dto.row id now)) (henq : out.enqueue = none) :
      HoldMoves db now call (.inserted id .ok) out
  | reject {id : SettlementId} {reason : String} {o : DbOutcome Unit} {out : CreateOut}
      (hpc : call.pc = .reject id reason) (hheld : out.pc.held = none)
      (hop : out.db = o.commits (.transition id .rejectedCompliance (rejectOptions reason)))
      (henq : out.enqueue = none) : HoldMoves db now call (.written o) out
  | approve {id : SettlementId} {o : DbOutcome Unit} {out : CreateOut}
      (hpc : call.pc = .approve id) (hheld : out.pc.held = none)
      (hop : out.db = o.commits (.transition id .complianceApproved {}))
      (henq : out.enqueue = enqueueAfter id o) (hrow : o = .ok → (db.findById id).isSome) :
      HoldMoves db now call (.written o) out

theorem createStep_holds (hout : createStep compliance db now call e = some out) :
    HoldMoves db now call e out := by
  rcases hpc : call.pc <;> cases e <;> simp only [createStep, hpc, reduceCtorEq] at hout
  case approve.written id outcome =>
    split_ifs at hout with hcan
    cases hout
    refine .approve hpc (createEnd_held outcome) rfl rfl ?_
    rintro rfl
    simpa [Db.canCommit, Option.isSome_iff_ne_none] using hcan
  case reject.written id reason outcome =>
    split_ifs at hout
    cases hout
    exact .reject hpc (createEnd_held outcome) rfl rfl
  case insert.inserted id outcome =>
    cases outcome with
    | lost => cases hout; exact .keep nofun (by rw [hpc]; rfl) rfl
    | ok =>
      simp only at hout
      split_ifs at hout with _ hnew <;> cases hout
      · obtain ⟨db', hdb'⟩ := Option.isSome_iff_exists.mp hnew
        exact .insert hpc hdb' rfl rfl rfl
      · exact .keep nofun (by rw [hpc]; rfl) rfl
    | ambiguous =>
      simp only at hout
      split_ifs at hout
      cases hout
      exact .keep nofun (by rw [hpc]; rfl) rfl
  case check.screened id =>
    cases hout
    exact .keep nofun ((screen_held _).trans (by rw [hpc]; rfl)) rfl
  case find.found | findRaced.found =>
    split at hout <;> cases hout <;> exact .keep nofun (by rw [hpc]; rfl) rfl
  case find.dbError | findRaced.dbError | reading.dbError =>
    cases hout
    exact .keep nofun (by rw [hpc]; rfl) rfl
  case reading.found | reading.inserted | reading.screened | reading.written =>
    simp [readStep] at hout
  case reading.readOpening | reading.readCredits | reading.readDebits | reading.readInFlight =>
    obtain ⟨reads, -, rfl⟩ := Option.map_eq_some_iff.mp hout
    exact .keep nofun ((afterRead_held _ reads).1.trans (by rw [hpc]; rfl)) (afterRead_held _ reads).2

inductive CreatesMove (cfg : Config) (σ : State) : Event → List CreateCall → Prop
  | same {ev : Event} (hev : ∀ i e, ev ≠ .create i e) : CreatesMove cfg σ ev σ.creates
  | crash : CreatesMove cfg σ .crash []
  | submit (dto : CreateSettlementDto) (hpos : 0 < dto.amount) :
      CreatesMove cfg σ (.submit dto) (σ.creates ++ [({ dto } : CreateCall)])
  | call {i : ℕ} {e : CreateEvent} {call : CreateCall} {out : CreateOut}
      (hcall : σ.creates[i]? = some call)
      (hout : createStep cfg.compliance σ.db σ.now call e = some out) :
      CreatesMove cfg σ (.create i e) (σ.creates.set i { call with pc := out.pc })

theorem step_creates {cfg : Config} {σ σ' : State} {ev : Event} (h : step cfg σ ev = some σ') :
    CreatesMove cfg σ ev σ'.creates := by
  cases stepsTo h with
  | create hcall hout => exact .call hcall hout
  | crash => exact .crash
  | submit hpos => exact .submit _ hpos
  | _ => exact .same nofun

/-- What becomes of a `create` call in one step: it is new, it stays, or it has moved. -/
theorem step_create {cfg : Config} {σ σ' : State} {ev : Event} {i : ℕ} {c' : CreateCall}
    (h : step cfg σ ev = some σ') (hc' : σ'.creates[i]? = some c') :
    c'.pc = .find ∨ σ.creates[i]? = some c' ∨
      ∃ e c out, ev = .create i e ∧ σ.creates[i]? = some c ∧
        createStep cfg.compliance σ.db σ.now c e = some out ∧ c' = { c with pc := out.pc } ∧
        σ' = σ.afterCreate i c out := by
  cases stepsTo h with
  | @create j e c out hcall hout =>
    rcases getElem?_set_cases hc' with ⟨rfl, hmoved⟩ | ⟨-, hold⟩
    · exact .inr (.inr ⟨e, c, out, rfl, hcall, hout, hmoved, rfl⟩)
    · exact .inr (.inl hold)
  | submit =>
    rcases getElem?_snoc_cases hc' with ⟨-, rfl⟩ | ⟨-, hold⟩
    · exact .inl rfl
    · exact .inr (.inl hold)
  | crash => cases hc'
  | _ => exact .inr (.inl hc')

def State.holders (σ : State) (id : SettlementId) : ℕ :=
  σ.creates.countP fun call => call.pc.held = some id

end Rail
