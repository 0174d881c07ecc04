import SettlementRail.Foundation.AuditTrail
import SettlementRail.System.Custody
import SettlementRail.System.Scenario

/-! The documented lifecycle as a graph, and the writes that stay on it. The listener states
the status it expects; the relayer writes from what it read several awaits ago. -/

namespace Rail
open Foundation

def lifecycleEdge : SettlementStatus → SettlementStatus → Bool
  | .received, .rejectedCompliance | .received, .complianceApproved
  | .complianceApproved, .submitted | .complianceApproved, .failed
  | .submitted, .submitted | .submitted, .confirmed | .submitted, .final | .submitted, .failed
  | .confirmed, .submitted | .confirmed, .final | .confirmed, .failed => true
  | _, _ => false

def SettlementStatus.terminal : SettlementStatus → Bool
  | .rejectedCompliance | .final | .failed => true
  | _ => false

def Db.trail (db : Db) (id : SettlementId) : List (SettlementStatus × SettlementStatus) :=
  (db.statusTransitions.filter fun t => t.settlementId = id).map fun t => (t.fromStatus, t.toStatus)

/-- Every status change ever written is an edge, and the changes of a settlement lead from
RECEIVED to the status its row has. The opening row is FINAL from the start. -/
structure Db.Conforms (db : Db) : Prop where
  owned : ∀ t ∈ db.statusTransitions, (db.findById t.settlementId).isSome
  edges : ∀ t ∈ db.statusTransitions, lifecycleEdge t.fromStatus t.toStatus = true
  trail : ∀ id s, db.findById id = some s → id ≠ 0 →
    Follows (fun a b => lifecycleEdge a b = true) .received (db.trail id) s.status

def State.relayerWrite (σ : State) : Event → Option (SettlementId × SettlementStatus)
  | .job (.written o) =>
    match σ.relayer.worker with
    | some (id, .writeSubmitted _) => if o.committed then some (id, .submitted) else none
    | some (id, .fail ..) => if o.committed then some (id, .failed) else none
    | _ => none
  | .sweep (.written o) =>
    match σ.relayer.sweep with
    | some (.fail t ..) => if o.committed then some (t.id, .failed) else none
    | _ => none
  | .recover .written =>
    match σ.relayer.recovery with
    | .fail t _ => some (t.id, .failed)
    | _ => none
  | _ => none

/-- The statuses a row may have moved on to meanwhile, past the one the relayer read. -/
def overtaken : SettlementStatus → List SettlementStatus
  | .submitted => [.confirmed, .final, .failed]
  | _ => [.final, .failed]

/-- No write of the relayer lands on a row that moved on since the relayer read it. -/
def NotOvertaken (σ : State) (ev : Event) : Prop :=
  ∀ w ∈ σ.relayerWrite ev, ∀ s ∈ σ.db.findById w.1, s.status ∉ overtaken w.2

instance (σ : State) (ev : Event) : Decidable (NotOvertaken σ ev) :=
  inferInstanceAs (Decidable (∀ _ ∈ _, ∀ _ ∈ _, _))

variable {cfg : Config} {σ σ' : State} {ev : Event} {op : DbOp} {s : Settlement}
variable {id : SettlementId} {toStatus : SettlementStatus} {opts : TransitionOptions}

theorem edge_submitted {a : SettlementStatus} (h : a.screened = true)
    (hnot : a ∉ overtaken .submitted) : lifecycleEdge a .submitted = true := by
  cases a <;> simp_all [SettlementStatus.screened, overtaken, lifecycleEdge]

theorem edge_failed {a : SettlementStatus} (h : a.screened = true)
    (hnot : a ∉ overtaken .failed) : lifecycleEdge a .failed = true := by
  cases a <;> simp_all [SettlementStatus.screened, overtaken, lifecycleEdge]

/-- The step lemma: a committed transition is an edge. -/
theorem Writes.edge (hw : Writes σ ev (.transition id toStatus opts)) (hc : Custody σ)
    (hk : NotOvertaken σ ev) (hs : σ.db.findById id = some s)
    (hallow : opts.allows s.status = true) : lifecycleEdge s.status toStatus = true := by
  have received : ∀ {i : ℕ} {call : CreateCall}, σ.creates[i]? = some call →
      call.pc.held = some id → s.status = .received := by
    intro i call hcall hheld
    obtain ⟨r, hr, hrec⟩ := hc.held call (List.mem_of_getElem? hcall) id hheld
    rw [hs] at hr
    cases hr
    exact hrec
  have screened : σ.db.Passed id → s.status.screened = true := by
    rintro ⟨-, r, hr, hscr⟩
    rw [hs] at hr
    cases hr
    exact hscr
  cases hw with
  | reject hcall hpc => rw [received hcall (by rw [hpc]; rfl)]; rfl
  | approve hcall hpc => rw [received hcall (by rw [hpc]; rfl)]; rfl
  | submitted hworker _ ho =>
    refine edge_submitted (screened (hc.jobs _ (Relayer.mem_jobs_of_worker hworker))) ?_
    exact hk _ (by simp [State.relayerWrite, hworker, ho]; rfl) s hs
  | jobFail hworker _ ho =>
    refine edge_failed (screened (hc.jobs _ (Relayer.mem_jobs_of_worker hworker))) ?_
    exact hk _ (by simp [State.relayerWrite, hworker, ho]; rfl) s hs
  | @sweepFail t rest reason retryCount o r hsweep _ ho =>
    have ht : σ.Walks t := .sweep (by simp [hsweep, SweepPc.rowsOf, SweepPc.rows])
    refine edge_failed (screened (hc.carried t (.walk ht)).passed) ?_
    exact hk _ (by simp [State.relayerWrite, hsweep, ho]; rfl) s hs
  | @recoveryFail t rest r hrecovery =>
    have ht : σ.Walks t := .recovery (by simp [hrecovery, RecoveryPc.rows])
    refine edge_failed (screened (hc.carried t (.walk ht)).passed) ?_
    exact hk _ (by simp [State.relayerWrite, hrecovery]; rfl) s hs
  | revert | flip =>
    have h : s.status = .submitted ∨ s.status = .confirmed := by
      simpa [TransitionOptions.allows, revertOptions, finalOptions, openFrom] using hallow
    rcases h with h | h <;> rw [h] <;> rfl
  | reorg =>
    have h : s.status = .confirmed := by
      simpa [TransitionOptions.allows, reorgOptions] using hallow
    rw [h]
    rfl
  | confirm =>
    have h : s.status = .submitted := by
      simpa [TransitionOptions.allows, confirmOptions] using hallow
    rw [h]
    rfl

theorem Db.trail_apply {db : Db} {now : ℕ} (op : DbOp) (k : SettlementId) :
    (op.apply now db).trail k = db.trail k ++
      (((op.audited db).filter fun t => t.settlementId = k).map
        fun t => (t.fromStatus, t.toStatus)) := by
  simp [trail, statusTransitions_apply]

theorem Db.trail_onRow {db : Db} (now : ℕ) (op : DbOp) (hs : db.findById id = some s) :
    ((op.apply now db).trail id = db.trail id ∧ (op.onRow now s).status = s.status) ∨
      ∃ toStatus opts, op = .transition id toStatus opts ∧ opts.allows s.status = true ∧
        (op.apply now db).trail id = db.trail id ++ [(s.status, toStatus)] ∧
        (op.onRow now s).status = toStatus := by
  have hid := Db.id_of_findById hs
  rw [trail_apply]
  cases op with
  | transition k toStatus opts =>
    by_cases hk : k = id
    · subst hk
      by_cases hallow : opts.allows s.status = true
      · right
        refine ⟨toStatus, opts, rfl, hallow, ?_, ?_⟩
        · simp [DbOp.audited, hs, hallow]
        · rw [onRow_transition_of hid hallow]
          rfl
      · left
        rw [onRow_transition_of_not fun h => hallow h.2]
        simp [DbOp.audited, hs, hallow]
    · left
      rw [onRow_transition_of_not fun h => hk (h.1.symm.trans hid)]
      refine ⟨?_, rfl⟩
      rcases hr : db.findById k with _ | r
      · simp [DbOp.audited, hr]
      · by_cases hallow : opts.allows r.status = true <;> simp [DbOp.audited, hr, hallow, hk]
  | recordResend k txHash retryCount =>
    left
    simp only [DbOp.onRow]
    split_ifs <;> simp [DbOp.audited, Settlement.withResend]
  | none | create | book => simp [DbOp.audited, DbOp.onRow]

theorem Db.findById_of_mem_audited {db : Db} {t : StatusTransition} (ht : t ∈ op.audited db) :
    ∃ s opts, db.findById t.settlementId = some s ∧ opts.allows s.status = true ∧
      t.fromStatus = s.status ∧ op = .transition t.settlementId t.toStatus opts := by
  cases op with
  | transition id toStatus opts =>
    rcases hs : db.findById id with _ | s
    · simp [DbOp.audited, hs] at ht
    · by_cases hallow : opts.allows s.status = true
      · simp only [DbOp.audited, hs, hallow, if_true, List.mem_singleton] at ht
        subst ht
        exact ⟨s, opts, hs, hallow, rfl, rfl⟩
      · simp [DbOp.audited, hs, hallow] at ht
  | _ => cases ht

theorem conforms_step (hc : Custody σ) (hI : σ.db.Conforms) (hk : NotOvertaken σ ev)
    (h : step cfg σ ev = some σ') : σ'.db.Conforms := by
  obtain ⟨op, hw, hdb⟩ := step_db h
  rw [hdb]
  refine ⟨fun t ht => ?_, fun t ht => ?_, fun id s' hs' hne => ?_⟩
  · rw [statusTransitions_apply, List.mem_append] at ht
    have hsome : (σ.db.findById t.settlementId).isSome := by
      rcases ht with ht | ht
      · exact hI.owned t ht
      · obtain ⟨s, -, hs, -⟩ := Db.findById_of_mem_audited ht
        simp [hs]
    obtain ⟨s, hs⟩ := Option.isSome_iff_exists.mp hsome
    simp [findById_apply hs]
  · rw [statusTransitions_apply, List.mem_append] at ht
    rcases ht with ht | ht
    · exact hI.edges t ht
    · obtain ⟨s, opts, hs, hallow, hfrom, rfl⟩ := Db.findById_of_mem_audited ht
      exact hfrom ▸ hw.edge hc hk hs hallow
  · rcases findById_apply_cases hs' with ⟨s, hs, rfl⟩ | ⟨hnone, rfl, rfl⟩
    · rcases Db.trail_onRow σ.now op hs with
        ⟨htrail, hst⟩ | ⟨toStatus, opts, rfl, hallow, htrail, hst⟩ <;> rw [htrail, hst]
      · exact hI.trail id s hs hne
      · exact (hI.trail id s hs hne).snoc (hw.edge hc hk hs hallow)
    -- a new row: RECEIVED, and no change of its id was ever written
    · have htrail : σ.db.trail s'.id = [] := by
        simp only [Db.trail, List.map_eq_nil_iff, List.filter_eq_nil_iff, decide_eq_true_eq]
        intro t ht hid
        have := hI.owned t ht
        simp [hid, hnone] at this
      rw [Db.trail_apply, htrail]
      cases hw
      rfl

theorem conforms_initial (cfg : Config) (base opening : ℕ) :
    (initial cfg base opening).db.Conforms := by
  refine ⟨?_, ?_, fun id s hs hne => absurd (findById_initial hs).2 hne⟩ <;>
    simp [statusTransitions_initial]

theorem terminal_step (hc : Custody σ) (hk : NotOvertaken σ ev) (h : step cfg σ ev = some σ')
    (hs : σ.db.findById id = some s) (hterm : s.status.terminal = true) :
    ∃ s', σ'.db.findById id = some s' ∧ s'.status = s.status := by
  obtain ⟨op, hw, hdb⟩ := step_db h
  refine ⟨_, hdb ▸ findById_apply hs, ?_⟩
  rcases Db.trail_onRow σ.now op hs with ⟨-, hst⟩ | ⟨toStatus, opts, rfl, hallow, -, -⟩
  · exact hst
  · have hedge := hw.edge hc hk hs hallow
    cases hst : s.status <;> simp [hst, SettlementStatus.terminal] at hterm <;>
      cases toStatus <;> simp [hst, lifecycleEdge] at hedge

theorem statusEdges_of_notOvertaken {base opening : ℕ}
    (h : RailReach cfg NotOvertaken base opening σ) :
    σ.db.Conforms ∧ ∀ σ', ReachUnder (step cfg) NotOvertaken σ σ' → ∀ id s,
      σ.db.findById id = some s → s.status.terminal = true →
        ∃ s', σ'.db.findById id = some s' ∧ s'.status = s.status := by
  refine ⟨h.invariant (conforms_initial cfg base opening) fun _ _ _ hr hI hk hs =>
    conforms_step (custody_reach hr) hI hk hs, fun σ' h' id s hs hterm => ?_⟩
  induction h' with
  | refl => exact ⟨s, hs, rfl⟩
  | tail hr hk hstep ih =>
    obtain ⟨s₁, hs₁, hst₁⟩ := ih
    obtain ⟨s₂, hs₂, hst₂⟩ := terminal_step (custody_reach (h.trans hr)) hk hstep hs₁
      (hst₁ ▸ hterm)
    exact ⟨s₂, hs₂, hst₂.trans hst₁⟩

theorem settled_payout_conforms :
    ∃ σ, RailReach (plainConfig 3) NotOvertaken 7 100 σ ∧
      ((σ.db.findById 1).any fun s => s.status = .final) = true ∧ σ.db.Conforms := by
  obtain ⟨σ, hr, hfinal⟩ := exists_reach_of_checkedRun (step (plainConfig 3)) NotOvertaken
    (initial (plainConfig 3) 7 100) settleEvents
    (fun σ => (σ.db.findById 1).any fun s => s.status = .final) (by decide +kernel)
  exact ⟨σ, hr, hfinal, (statusEdges_of_notOvertaken hr).1⟩

/-- A sweep gives up on a row it read as stuck; before its write the listener made it FINAL. -/
def overtakenSweep : List Event :=
  bootEvents ++ submitEvents 0 1 payout ++ sendEvents ++
    [.tick 60000, .startSweep, .sweep .found, .sweep .receipt,
      .newHead 0 (mined [plainTransfer 7 payout] 4)] ++
    finalizeEvents 0 ++ [.sweep (.written .ok)]

theorem final_overwritten_by_sweep :
    ¬∀ cfg base opening σ, Reach (step cfg) (initial cfg base opening) σ → σ.db.Conforms := by
  intro hall
  obtain ⟨σ, hr, hbad⟩ := exists_reach_of_run (step (plainConfig 0))
    (initial (plainConfig 0) 7 100) overtakenSweep
    (fun σ => σ.db.statusTransitions.any fun t => t.fromStatus = .final) (by decide +kernel)
  obtain ⟨t, ht, hfrom⟩ := List.any_eq_true.mp hbad
  have hedge := (hall _ _ _ σ hr).edges t ht
  rw [of_decide_eq_true hfrom] at hedge
  cases t.toStatus <;> simp [lifecycleEdge] at hedge

end Rail
