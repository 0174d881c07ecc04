import SettlementRail.System.SentTransactions
import SettlementRail.System.Scenario

/-! What may be sent at all: the transfer of an instruction that a `create` call stored and
screened, unaltered. -/

namespace Rail
open Foundation

/-- The transaction that the relayer hands to the node in this step, and for whom. The node may
take it or not. -/
def State.broadcasts (σ : State) : Event → Option (SettlementId × Tx)
  | .job (.sent _) =>
    match σ.relayer.worker with
    | some (id, .broadcast v) => some (id, v.tx)
    | _ => none
  | .sweep (.sent _) =>
    match σ.relayer.sweep with
    | some (.broadcast s _ fees gasLimit) =>
      (toBaseUnits s.amount).map fun baseUnits => (s.id, resendTx s fees gasLimit baseUnits)
    | _ => none
  | _ => none

def Settlement.Orders (s : Settlement) (dto : CreateSettlementDto) : Prop :=
  s.instructionId = dto.instructionId ∧ s.toAddress = dto.toAddress ∧ s.amount = dto.amount

instance (s : Settlement) (dto : CreateSettlementDto) : Decidable (s.Orders dto) :=
  inferInstanceAs (Decidable (_ ∧ _ ∧ _))

def approval (t : StatusTransition) : Prop :=
  t.fromStatus = .received ∧ t.toStatus = .complianceApproved

instance (t : StatusTransition) : Decidable (approval t) := inferInstanceAs (Decidable (_ ∧ _))

def State.Approved (id : SettlementId) (σ : State) : Prop :=
  ∃ t ∈ σ.db.statusTransitions, t.settlementId = id ∧ approval t

instance (id : SettlementId) (σ : State) : Decidable (σ.Approved id) :=
  inferInstanceAs (Decidable (∃ _ ∈ _, _))

/-- In the run `es` some `create` call inserted this row. -/
def CreatedIn (cfg : Config) (σ₀ : State) (es : List Event) (s : Settlement) : Prop :=
  ∃ es₁ es₂ ρ i o call, es = es₁ ++ .create i (.inserted s.id o) :: es₂ ∧
    RunUnder (step cfg) (fun _ _ => True) σ₀ es₁ ρ ∧ ρ.creates[i]? = some call ∧
    call.pc = .insert ∧ ρ.db.findById s.id = none ∧ s.Orders call.dto

/-- In the run `es` the `create` call that holds this row screened its address, with success. -/
def ScreenedIn (cfg : Config) (σ₀ : State) (es : List Event) (s : Settlement) : Prop :=
  ∃ es₁ es₂ ρ i call, es = es₁ ++ .create i .screened :: es₂ ∧
    RunUnder (step cfg) (fun _ _ => True) σ₀ es₁ ρ ∧ ρ.creates[i]? = some call ∧
    call.pc = .check s.id ∧ s.Orders call.dto ∧ (cfg.compliance call.dto.toAddress).approved = true

variable {cfg : Config} {σ₀ σ σ' : State} {ev : Event} {op : DbOp} {s t : Settlement}
variable {id : SettlementId} {i : ℕ} {call : CreateCall} {es : List Event} {tx : Tx}
variable {C : State → Event → Prop} {dto : CreateSettlementDto}

theorem orders_step (h : step cfg σ ev = some σ') (hs : σ.db.findById id = some s)
    (hd : s.Orders dto) : ∃ s', σ'.db.findById id = some s' ∧ s'.Orders dto := by
  obtain ⟨op, -, hdb⟩ := step_db h
  refine ⟨_, hdb ▸ findById_apply hs, ?_⟩
  simpa only [Settlement.Orders, onRow_instructionId, onRow_toAddress, onRow_amount] using hd

theorem orders_reach (h : ReachUnder (step cfg) C σ₀ σ) (hs : σ₀.db.findById id = some s)
    (hd : s.Orders dto) : ∃ s', σ.db.findById id = some s' ∧ s'.Orders dto :=
  h.invariant (I := fun σ => ∃ s', σ.db.findById id = some s' ∧ s'.Orders dto) ⟨s, hs, hd⟩
    fun _ _ _ _ ⟨_, hs, hd⟩ _ h => orders_step h hs hd

def State.HoldsOrdered (σ : State) : Prop :=
  ∀ (i : ℕ) (call : CreateCall) (id : SettlementId), σ.creates[i]? = some call →
    call.pc.held = some id → ∃ s, σ.db.findById id = some s ∧ s.Orders call.dto

theorem holdsOrdered_step (hI : σ.HoldsOrdered) (hs : step cfg σ ev = some σ') :
    σ'.HoldsOrdered := by
  intro i call id hcall hheld
  rcases step_create hs hcall with hfind | hold | ⟨e, c, out, rfl, hc, hout, rfl, rfl⟩
  · rw [hfind] at hheld
    cases hheld
  · obtain ⟨s, hrow, hd⟩ := hI i call id hold hheld
    exact orders_step hs hrow hd
  · cases createStep_holds hout with
    | keep _ hkeep =>
      obtain ⟨s, hrow, hd⟩ := hI i c id hc (hkeep ▸ hheld)
      exact orders_step hs hrow hd
    | @insert k _ _ _ hnew hpc hop =>
      rw [hpc] at hheld
      obtain rfl := Option.some.inj hheld
      refine ⟨c.dto.row k σ.now, ?_, rfl, rfl, rfl⟩
      rw [State.afterCreate, hop, DbOp.apply, hnew, Option.getD_some, Db.findById_create hnew]
      exact if_pos rfl
    | reject _ hnone | approve _ hnone =>
      rw [hnone] at hheld
      cases hheld

theorem holdsOrdered_reach {base opening : ℕ} (h : RailReach cfg C base opening σ) :
    σ.HoldsOrdered :=
  h.invariant (fun i call id hcall => by cases hcall) fun _ _ _ _ hI _ hs => holdsOrdered_step hI hs

theorem approved_step (h : step cfg σ ev = some σ') (hI : σ.Approved id) : σ'.Approved id := by
  obtain ⟨op, -, hdb⟩ := step_db h
  obtain ⟨t, ht, happ⟩ := hI
  exact ⟨t, by rw [hdb, statusTransitions_apply]; exact List.mem_append_left _ ht, happ⟩

theorem Writes.approves (hw : Writes σ ev op) (hc : Custody σ) (hs : σ.db.findById s.id = some s)
    (hnot : s.status.screened ≠ true)
    (hscr : (op.onRow σ.now s).status.screened = true) :
    ∃ t ∈ op.audited σ.db, t.settlementId = s.id ∧ approval t := by
  rcases hw.writer hc (s := s) with heq | ⟨-, r, hr, hpassed⟩ | ⟨i, call, o, rfl, hcall, hheld⟩
  · exact absurd (heq ▸ hscr) hnot
  · rw [hs] at hr
    exact absurd (Option.some.inj hr ▸ hpassed) hnot
  · obtain ⟨r, hr, hrec⟩ := hc.held call (List.mem_of_getElem? hcall) s.id hheld
    rw [hs] at hr
    obtain rfl := Option.some.inj hr
    cases hw with
    | idle => exact absurd hscr hnot
    | @reject _ call' k reason _ _ hcall' hpc =>
      obtain rfl := Option.some.inj (hcall.symm.trans hcall')
      rw [hpc] at hheld
      obtain rfl := Option.some.inj hheld
      rw [onRow_transition_of rfl (by rw [hrec]; rfl)] at hscr
      cases hscr
    | @approve _ call' k _ _ hcall' hpc =>
      obtain rfl := Option.some.inj (hcall.symm.trans hcall')
      rw [hpc] at hheld
      obtain rfl := Option.some.inj hheld
      refine ⟨⟨s.id, s.status, .complianceApproved, s.txHash⟩, ?_, rfl, hrec, rfl⟩
      simp only [DbOp.audited, hs]
      exact List.mem_singleton.mpr rfl

theorem approved_of_passed_step (hc : Custody σ) (hI : ∀ id, σ.db.Passed id → σ.Approved id)
    (h : step cfg σ ev = some σ') (hp : σ'.db.Passed id) : σ'.Approved id := by
  obtain ⟨hne, s', hs', hscr⟩ := hp
  obtain ⟨op, hw, hdb⟩ := step_db h
  rw [hdb] at hs'
  rcases findById_apply_cases hs' with ⟨s, hrow, rfl⟩ | ⟨-, rfl, -⟩
  · have hid := Db.id_of_findById hrow
    by_cases hbefore : s.status.screened = true
    · exact approved_step h (hI id ⟨hne, s, hrow, hbefore⟩)
    · obtain ⟨t, ht, hsid, happ⟩ := hw.approves hc (by rwa [hid]) hbefore hscr
      refine ⟨t, ?_, hsid.trans hid, happ⟩
      rw [hdb, statusTransitions_apply]
      exact List.mem_append_right _ ht
  · cases hw
    cases hscr

theorem approved_of_passed {base opening : ℕ} (h : RailReach cfg C base opening σ)
    (id : SettlementId) (hp : σ.db.Passed id) : σ.Approved id := by
  revert id
  refine h.invariant (I := fun σ => ∀ id, σ.db.Passed id → σ.Approved id) (fun id hp => ?_)
    fun _ _ _ hr hI _ hs _ hp => approved_of_passed_step (custody_reach hr) hI hs hp
  obtain ⟨hne, s, hs, -⟩ := hp
  exact absurd (findById_initial hs).2 hne

theorem createdIn {base opening : ℕ}
    (hrun : RunUnder (step cfg) C (initial cfg base opening) es σ)
    (hs : σ.db.findById id = some s) (hne : id ≠ 0) :
    CreatedIn cfg (initial cfg base opening) es s := by
  obtain ⟨es₁, ev, es₂, ρ, ρ', rfl, h₁, hnot, hstep, hP', h₂⟩ :=
    hrun.last_entry (P := fun σ => (σ.db.findById id).isSome)
      (fun h => by
        obtain ⟨g, hg⟩ := Option.isSome_iff_exists.mp h
        exact hne (findById_initial hg).2) (by rw [hs]; rfl)
  obtain ⟨r, hr⟩ := Option.isSome_iff_exists.mp hP'
  have hnone : ρ.db.findById id = none := by simpa using hnot
  obtain ⟨op, hw, hdb⟩ := step_db hstep
  rw [hdb] at hr
  rcases findById_apply_cases hr with ⟨q, hq, -⟩ | ⟨-, rfl, hid⟩
  · rw [hnone] at hq
    cases hq
  · cases hw with
    | @insert i call k o db' hcall hpc hnew ho =>
      obtain rfl : k = id := hid
      have horders : (call.dto.row k ρ.now).Orders call.dto := ⟨rfl, rfl, rfl⟩
      obtain ⟨s', hs', hd⟩ := orders_reach h₂.reach (hdb ▸ hr) horders
      obtain rfl := Option.some.inj (hs.symm.trans hs')
      have hid := Db.id_of_findById hs
      refine ⟨es₁, es₂, ρ, i, o, call, by rw [hid], ?_, hcall, hpc, by rwa [hid], hd⟩
      exact h₁.mono fun _ _ _ => trivial

theorem Writes.audits_approval (hw : Writes σ ev op) {a : StatusTransition}
    (ha : a ∈ op.audited σ.db) (happ : approval a) :
    ∃ (i : ℕ) (call : CreateCall), σ.creates[i]? = some call ∧ call.pc = .approve a.settlementId := by
  have target : ∀ {k toStatus opts}, a ∈ DbOp.audited σ.db (.transition k toStatus opts) →
      toStatus = .complianceApproved ∧ a.settlementId = k := by
    intro k toStatus opts ha
    simp only [DbOp.audited] at ha
    split at ha
    · cases ha
    · split_ifs at ha
      · obtain rfl := List.mem_singleton.mp ha
        exact ⟨happ.2, rfl⟩
      · cases ha
  cases hw with
  | idle | insert | book | resend => cases ha
  | @approve i call k _ _ hcall hpc => exact ⟨i, call, hcall, by rw [hpc, (target ha).2]⟩
  | _ => cases (target ha).1

theorem createStep_approve {db : Db} {now : ℕ} {e : CreateEvent} {out : CreateOut}
    (hout : createStep cfg.compliance db now call e = some out) (hpc : out.pc = .approve id) :
    call.pc = .check id ∧ e = .screened ∧ (cfg.compliance call.dto.toAddress).approved = true := by
  rcases hcall : call.pc with _ | reads | _ | _ | k | ⟨k, reason⟩ | k | _ | _ <;> cases e <;>
    simp only [createStep, hcall, reduceCtorEq] at hout
  case check.screened =>
    cases hout
    simp only [screen] at hpc
    split_ifs at hpc with happroved
    cases hpc
    exact ⟨rfl, rfl, happroved⟩
  case reading.readOpening | reading.readCredits | reading.readDebits | reading.readInFlight =>
    obtain ⟨reads', -, rfl⟩ := Option.map_eq_some_iff.mp hout
    have hnone := (afterRead_held call.dto reads').1
    rw [hpc] at hnone
    cases hnone
  case reading.found | reading.inserted | reading.screened | reading.written =>
    simp [readStep] at hout
  case insert.inserted k o =>
    cases o with
    | lost => cases hout; cases hpc
    | ok => simp only at hout; split_ifs at hout <;> cases hout <;> cases hpc
    | ambiguous => simp only at hout; split_ifs at hout; cases hout; cases hpc
  case reject.written o | approve.written o =>
    split_ifs at hout
    cases hout
    have hnone := @createEnd_held k o
    simp only at hpc
    rw [hpc] at hnone
    cases hnone
  case find.found | findRaced.found => split at hout <;> cases hout <;> cases hpc
  all_goals cases hout; cases hpc

theorem screenedIn {base opening : ℕ}
    (hrun : RunUnder (step cfg) C (initial cfg base opening) es σ)
    (hs : σ.db.findById id = some s) (happroved : σ.Approved id) :
    ScreenedIn cfg (initial cfg base opening) es s := by
  obtain ⟨es₁, ev, es₂, ρ, ρ', rfl, h₁, hnot, hstep, ⟨a, ha, haid, happ⟩, h₂⟩ :=
    hrun.last_entry (fun ⟨a, ha, _⟩ => by cases ha) happroved
  obtain ⟨op, hw, hdb⟩ := step_db hstep
  rw [hdb, statusTransitions_apply, List.mem_append] at ha
  obtain ⟨i, call, hcall, hpc⟩ := hw.audits_approval
    (ha.resolve_left fun ha => hnot ⟨a, ha, haid, happ⟩) happ
  rw [haid] at hpc
  obtain ⟨r, hr, hd⟩ := holdsOrdered_reach h₁.reach i call id hcall (by rw [hpc]; rfl)
  obtain ⟨r', hr', hd'⟩ := orders_step hstep hr hd
  obtain ⟨s', hs', hd''⟩ := orders_reach h₂.reach hr' hd'
  obtain rfl := Option.some.inj (hs.symm.trans hs')
  obtain ⟨es₃, ev', es₄, θ, θ', rfl, h₃, hnot', hstep', ⟨c', hc', hpc', hdto⟩, h₄⟩ :=
    h₁.last_entry (P := fun σ => ∃ c, σ.creates[i]? = some c ∧ c.pc = .approve id ∧
      c.dto = call.dto) (fun ⟨c, hc, _⟩ => by cases hc) ⟨call, hcall, hpc, rfl⟩
  rcases step_create hstep' hc' with hfind | hold | ⟨e, c, out, rfl, hc, hout, rfl, -⟩
  · rw [hfind] at hpc'
    cases hpc'
  · exact absurd ⟨c', hold, hpc', hdto⟩ hnot'
  · obtain ⟨hcheck, rfl, hpassed⟩ := createStep_approve hout hpc'
    refine ⟨es₃, es₄ ++ ev :: es₂, θ, i, c, ?_, h₃.mono fun _ _ _ => trivial, hc, ?_, ?_, hpassed⟩
    · rw [List.append_assoc, List.cons_append]
    · rw [hcheck, Db.id_of_findById hs]
    · rw [show c.dto = call.dto from hdto]
      exact hd''

theorem broadcasts_spec (hc : Custody σ) (h : σ.broadcasts ev = some (id, tx)) :
    σ.db.Passed id ∧
      ∃ s, σ.db.findById id = some s ∧ tx.call = .transfer s.toAddress s.amount := by
  unfold State.broadcasts at h
  split at h
  · split at h
    · rename_i k v hworker
      cases h
      obtain ⟨hid, hunits⟩ := hc.worker id _ v hworker rfl
      obtain ⟨s, hs, -, hamount, hto, -⟩ := (hc.carried _ (.job hworker rfl)).row
      rw [hid] at hs
      refine ⟨hc.jobs id (Relayer.mem_jobs_of_worker hworker), s, hs, ?_⟩
      rw [JobVars.tx, toBaseUnits_some hunits, hamount, hto]
    · cases h
  · split at h
    · rename_i t rest fees gasLimit hsweep
      obtain ⟨baseUnits, hunits, heq⟩ := Option.map_eq_some_iff.mp h
      cases heq
      have ht := hc.carried t (.walk (walks_of_sweep hsweep (by simp [SweepPc.rows])))
      obtain ⟨s, hs, -, hamount, hto, -⟩ := ht.row
      exact ⟨ht.passed, s, hs, by rw [resendTx, toBaseUnits_some hunits, hamount, hto]⟩
    · cases h
  · cases h

theorem genesis_instructionId {base opening : ℕ} (h : RailReach cfg C base opening σ) :
    ∃ g, σ.db.findById 0 = some g ∧ g.instructionId = Db.genesisInstructionId := by
  refine h.invariant (I := fun σ => ∃ g, σ.db.findById 0 = some g ∧
    g.instructionId = Db.genesisInstructionId) ⟨genesisRow cfg.operator opening, rfl, rfl⟩
    fun _ _ _ _ ⟨g, hg, hid⟩ _ hs => ?_
  obtain ⟨op, -, hdb⟩ := step_db hs
  exact ⟨_, hdb ▸ findById_apply hg, onRow_instructionId.trans hid⟩

theorem Db.eq_of_instructionId {db : Db} (hs : s ∈ db.settlements.rows) (ht : t ∈ db.settlements.rows)
    (h : s.instructionId = t.instructionId) : s = t :=
  List.inj_on_of_nodup_map db.instructionIds_nodup hs ht h

/-- Whatever the relayer hands to the node is the transfer of a stored instruction, as a `create`
call inserted it, after that call screened its address and wrote the approval. -/
theorem broadcast_only_screened {base opening : ℕ}
    (hrun : RunUnder (step cfg) (fun _ _ => True) (initial cfg base opening) es σ)
    (h : σ.broadcasts ev = some (id, tx)) :
    ∃ s, σ.db.findById id = some s ∧ tx.call = .transfer s.toAddress s.amount ∧
      s.instructionId ≠ Db.genesisInstructionId ∧ s.status ≠ .received ∧
      s.status ≠ .rejectedCompliance ∧ CreatedIn cfg (initial cfg base opening) es s ∧
      ScreenedIn cfg (initial cfg base opening) es s ∧ σ.Approved id := by
  have hreach := hrun.reach
  obtain ⟨hpassed, s, hs, hcall⟩ := broadcasts_spec (custody_reach hreach) h
  have happroved := approved_of_passed hreach id hpassed
  obtain ⟨hne, s', hs', hscr⟩ := hpassed
  obtain rfl := Option.some.inj (hs.symm.trans hs')
  refine ⟨s, hs, hcall, fun hgenesis => ?_, fun hst => ?_, fun hst => ?_,
    createdIn hrun hs hne, screenedIn hrun hs happroved, happroved⟩
  · obtain ⟨g, hg, hgid⟩ := genesis_instructionId hreach
    have heq := Db.eq_of_instructionId (Db.mem_of_findById hs) (Db.mem_of_findById hg)
      (hgenesis.trans hgid.symm)
    exact hne ((Db.id_of_findById hs).symm.trans (heq ▸ Db.id_of_findById hg))
  · rw [hst] at hscr
    cases hscr
  · rw [hst] at hscr
    cases hscr

/-- The first broadcast of a payout. -/
theorem payout_broadcast_screened : ∃ es σ id tx, RunUnder (step (plainConfig 3)) (fun _ _ => True)
      (initial (plainConfig 3) 7 100) es σ ∧
    σ.broadcasts (.job (.sent (.accepted none))) = some (id, tx) ∧ σ.Approved id := by
  obtain ⟨σ, hrun, hany⟩ := exists_runUnder_of_checkedRun (step (plainConfig 3)) (fun _ _ => True)
    (initial (plainConfig 3) 7 100) (bootEvents ++ submitEvents 0 1 payout ++ prepareEvents)
    (fun σ => (σ.broadcasts (.job (.sent (.accepted none)))).isSome) (by decide +kernel)
  obtain ⟨⟨id, tx⟩, hsent⟩ := Option.isSome_iff_exists.mp hany
  obtain ⟨s, -, -, -, -, -, -, -, happroved⟩ := broadcast_only_screened hrun hsent
  exact ⟨_, σ, id, tx, hrun, hsent, happroved⟩

end Rail
