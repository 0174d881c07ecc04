import SettlementRail.System.RetryCounts
import SettlementRail.System.Scenario

/-! The retry cap. The count of a settlement is in its row, in the variables of its job and in
the row the sweep has read; a re-send that none of them stores goes past the cap. -/

namespace Rail
open Foundation

variable {cfg : Config} {σ σ' : State} {ev : Event} {op : DbOp} {s t : Settlement}
variable {id : SettlementId}

def State.swept (σ : State) : List SettlementId :=
  (SweepPc.rowsOf σ.relayer.sweep).map Settlement.id

/-- The retry count the sweep is about to write for the settlement, 0 if none. -/
def State.inHand (σ : State) (id : SettlementId) : ℕ :=
  ((σ.relayer.sweep.bind SweepPc.inHand).filter fun w => w.1 = id).elim 0 Prod.snd

def State.resendable (σ : State) (s : Settlement) : Bool := s.isOpen || σ.swept.contains s.id

/-- A re-send the node takes in and its thread does not count, with the count at hand. -/
def State.uncountedSend (σ : State) : Event → Option (SettlementId × ℕ)
  | .job (.sent (.accepted _)) =>
    match σ.relayer.worker with
    | some (id, .broadcast v) => if v.isResume then some (id, v.retryCount) else none
    | _ => none
  | .sweep (.sent (.accepted (some e))) =>
    match σ.relayer.sweep with
    | some (.broadcast s _ _ _) => if e.givesUp then none else some (s.id, s.retryCount)
    | _ => none
  | _ => none

def State.resends (σ : State) : Event → Option Settlement
  | .sweep (.sent (.accepted _)) =>
    match σ.relayer.sweep with
    | some (.broadcast s _ _ _) => some s
    | _ => none
  | _ => none

def State.startsOn (σ : State) : Event → Option Settlement
  | .job .found =>
    match σ.relayer.worker with
    | some (id, .find) =>
      (σ.db.findById id).filter fun s => s.status = .complianceApproved ∨ s.status = .submitted
    | _ => none
  | _ => none

/-- A FAILED write of the sweep or the recovery: the row it has read and the count it writes. -/
def State.failing (σ : State) : Event → Option (Settlement × ℕ)
  | .sweep (.written o) =>
    match σ.relayer.sweep with
    | some (.fail s _ _ retryCount) => if o.committed then some (s, retryCount) else none
    | _ => none
  | .recover .written =>
    match σ.relayer.recovery with
    | .fail s _ => some (s, s.retryCount)
    | _ => none
  | _ => none

/-- The step drops a count that is stored nowhere, of a row that may be sent again. -/
def State.dropsCount (σ : State) (s : Settlement) : Event → Bool
  | .crash => s.isOpen
  | .job .callError => σ.atWork = some s.id && σ.resendable s
  | .job (.written (.lost _)) =>
    match σ.relayer.worker with
    | some (id, .fail _ _) => id = s.id && σ.resendable s
    | _ => false
  | .sweep (.written (.lost e)) =>
    match σ.relayer.sweep with
    | some (.recordResend t _ _) => t.id = s.id && !e.givesUp && s.isOpen
    | some (.fail t _ _ _) => t.id = s.id && s.isOpen
    | _ => false
  | _ => false

/-- A re-send nobody counts happens only while the count at hand covers all broadcasts so far;
the sweep re-sends what no job is sending, from a row that is up to date; no job starts under a
sweep that has yet to raise the count; a FAILED write finds the count it was made from; no count
that the row lacks is dropped. -/
def CountsSends (σ : State) (ev : Event) : Prop :=
  (∀ r ∈ σ.uncountedSend ev, σ.node.broadcasts r.1 ≤ r.2) ∧
  (∀ t ∈ σ.resends ev, σ.atWork ≠ some t.id ∧
    ∀ s ∈ σ.db.findById t.id, s.retryCount = t.retryCount) ∧
  (∀ s ∈ σ.startsOn ev, σ.inHand s.id ≤ s.retryCount) ∧
  (∀ f ∈ σ.failing ev, ∀ s ∈ σ.db.findById f.1.id, s.retryCount = f.2 ∨
    s.retryCount = f.1.retryCount ∧ σ.atWork ≠ some f.1.id) ∧
  (∀ s ∈ σ.db.settlements.rows, σ.dropsCount s ev = true →
    σ.node.broadcasts s.id ≤ s.retryCount + 1)

instance decidableCountsSends (σ : State) (ev : Event) : Decidable (CountsSends σ ev) := by
  unfold CountsSends
  infer_instance

structure CapInv (cfg : Config) (σ : State) : Prop where
  job : ∀ id pc v, σ.relayer.worker = some (id, pc) → pc.vars = some v →
    (∀ s, σ.db.findById id = some s → s.retryCount ≤ v.retryCount) ∧
      (pc.sending = some v → v.retryCount ≤ cfg.relayer.maxRetries) ∧
      σ.node.broadcasts id ≤ v.retryCount + pc.slack
  resending : ∀ t rest tx, σ.relayer.sweep = some (.recordResend t rest tx) →
    σ.atWork ≠ some t.id ∧ ∀ s, σ.db.findById t.id = some s → s.retryCount = t.retryCount
  failing : ∀ t rest reason n, σ.relayer.sweep = some (.fail t rest reason n) → t.retryCount ≤ n
  bumping : ∀ pc t, σ.relayer.sweep = some pc → pc.bumping = some t →
    t.retryCount < cfg.relayer.maxRetries
  total : ∀ id, σ.node.broadcasts id ≤ cfg.relayer.maxRetries + 1
  capped : ∀ id s, σ.db.findById id = some s → s.status ≠ .failed →
    s.retryCount ≤ cfg.relayer.maxRetries
  counted : ∀ id s, σ.db.findById id = some s → σ.resendable s = true → σ.atWork ≠ some id →
    σ.node.broadcasts id ≤ max s.retryCount (σ.inHand id) + 1
  distinct : σ.swept.Nodup

section Hands
variable {pc : SweepPc} {k : SettlementId} {n : ℕ}

theorem inHand_of_none (hsweep : σ.relayer.sweep = some pc) (hhand : pc.inHand = none) :
    σ.inHand id = 0 := by
  rw [State.inHand, hsweep, Option.bind_some, hhand]
  rfl

theorem inHand_of_some (hsweep : σ.relayer.sweep = some pc) (hhand : pc.inHand = some (id, n)) :
    σ.inHand id = n := by
  rw [State.inHand, hsweep, Option.bind_some, hhand, Option.filter_some, if_pos (decide_eq_true rfl)]
  rfl

theorem inHand_of_ne (hsweep : σ.relayer.sweep = some pc) (hhand : pc.inHand = some (k, n))
    (hne : k ≠ id) : σ.inHand id = 0 := by
  rw [State.inHand, hsweep, Option.bind_some, hhand, Option.filter_some,
    if_neg (by simpa using hne)]
  rfl

end Hands

theorem resendable_of_swept (hs : σ.db.findById id = some s)
    (ht : t ∈ SweepPc.rowsOf σ.relayer.sweep) (htid : t.id = id) : σ.resendable s = true := by
  rw [State.resendable, Bool.or_eq_true, List.contains_iff_mem]
  exact .inr (List.mem_map.mpr ⟨t, ht, htid.trans (Db.id_of_findById hs).symm⟩)

theorem CapInv.accepts_job (hI : CapInv cfg σ) (hC : CountsSends σ ev) {v : JobVars}
    {reply : Option TxError} (hworker : σ.relayer.worker = some (id, .broadcast v))
    (hev : ev = .job (.sent (.accepted reply))) : σ.node.broadcasts id ≤ v.retryCount := by
  subst hev
  have hcount := (hI.job id _ v hworker rfl).2.2
  rcases hresume : v.isResume
  · simpa [JobPc.slack, JobPc.vars, hresume] using hcount
  · exact hC.1 (id, v.retryCount) (by simp [State.uncountedSend, hworker, hresume])

theorem CapInv.accepts_sweep (hI : CapInv cfg σ) (hC : CountsSends σ ev) (hc : Custody σ)
    {rest : List Settlement} {fees : Fees} {gasLimit : ℕ} {reply : Option TxError}
    (hsweep : σ.relayer.sweep = some (.broadcast t rest fees gasLimit))
    (hev : ev = .sweep (.sent (.accepted reply))) :
    σ.atWork ≠ some t.id ∧ (∀ s, σ.db.findById t.id = some s → s.retryCount = t.retryCount) ∧
      σ.node.broadcasts t.id ≤ t.retryCount + 1 := by
  subst hev
  obtain ⟨hnot, hrow⟩ := hC.2.1 t (by simp [State.resends, hsweep])
  have ht : t ∈ SweepPc.rowsOf σ.relayer.sweep := by simp [hsweep, SweepPc.rowsOf, SweepPc.rows]
  obtain ⟨s, hs, -⟩ := (hc.carried t (.walk (.sweep ht))).row
  have hcount := hI.counted t.id s hs (resendable_of_swept hs ht rfl) hnot
  rw [inHand_of_none hsweep rfl, hrow s hs, max_eq_left (Nat.zero_le _)] at hcount
  exact ⟨hnot, hrow, hcount⟩

theorem CapInv.total_step (hI : CapInv cfg σ) (hC : CountsSends σ ev) (hc : Custody σ)
    (h : step cfg σ ev = some σ') (id : SettlementId) :
    σ'.node.broadcasts id ≤ cfg.relayer.maxRetries + 1 := by
  rcases broadcasts_step h id with heq | ⟨tx, ha, heq⟩ <;> rw [heq]
  · exact hI.total id
  · refine Nat.succ_le_succ ?_
    cases ha with
    | @job id v reply hworker =>
      exact (hI.accepts_job hC hworker rfl).trans ((hI.job id _ v hworker rfl).2.1 rfl)
    | @sweep t rest fees gasLimit baseUnits reply hsweep =>
      exact (hI.accepts_sweep hC hc hsweep rfl).2.2.trans (hI.bumping _ t hsweep rfl)

theorem CapInv.fails_with (hI : CapInv cfg σ) (hC : CountsSends σ ev) {f : Settlement × ℕ}
    (hf : f ∈ σ.failing ev) (hs : σ.db.findById f.1.id = some s) :
    s.retryCount ≤ f.2 ∧ (σ.atWork = some f.1.id → f.2 = s.retryCount) := by
  have hle : f.1.retryCount ≤ f.2 := by
    unfold State.failing at hf
    split at hf
    · split at hf
      · rename_i hsweep
        split_ifs at hf
        · cases hf
          exact hI.failing _ _ _ _ hsweep
        · cases hf
      · cases hf
    · split at hf
      · cases hf
        exact le_rfl
      · cases hf
    · cases hf
  rcases hC.2.2.2.1 f hf s hs with heq | ⟨heq, hnot⟩
  · exact ⟨heq.le, fun _ => heq.symm⟩
  · exact ⟨heq ▸ hle, fun hat => absurd hat hnot⟩

theorem CapInv.written (hI : CapInv cfg σ) (hC : CountsSends σ ev) (hw : Writes σ ev op)
    (hs : σ.db.findById id = some s) : s.retryCount ≤ (op.onRow σ.now s).retryCount ∧
      (ev.isJob = false → σ.atWork = some id →
        (op.onRow σ.now s).retryCount = s.retryCount) := by
  rcases hw.retryCount_cases hs with heq | ⟨o, pc, v, rfl, -, hworker, hv, heq⟩ |
    ⟨o, pc, n, rfl, ho, hsweep, hhand, heq⟩ | ⟨t, rest, rfl, hrecovery, rfl, heq⟩ <;> rw [heq]
  · exact ⟨le_rfl, fun _ _ => rfl⟩
  · exact ⟨(hI.job id pc v hworker hv).1 s hs, fun hjob => by cases hjob⟩
  · cases pc <;> simp only [SweepPc.inHand, reduceCtorEq, Option.some.injEq, Prod.mk.injEq] at hhand
    case recordResend t rest tx =>
      obtain ⟨rfl, rfl⟩ := hhand
      obtain ⟨hnot, hrow⟩ := hI.resending t rest tx hsweep
      exact ⟨hrow s hs ▸ Nat.le_succ _, fun _ hat => absurd hat hnot⟩
    case fail t rest reason retryCount =>
      obtain ⟨rfl, rfl⟩ := hhand
      have hf : (t, retryCount) ∈ σ.failing (.sweep (.written o)) := by
        simp [State.failing, hsweep, ho]
      exact ⟨(hI.fails_with hC hf hs).1, fun _ => (hI.fails_with hC hf hs).2⟩
  · have hf : (t, t.retryCount) ∈ σ.failing (.recover .written) := by
      simp [State.failing, hrecovery]
    exact ⟨(hI.fails_with hC hf hs).1, fun _ => (hI.fails_with hC hf hs).2⟩

theorem broadcasts_of_atWork (hC : CountsSends σ ev) (h : step cfg σ ev = some σ')
    (hjob : ev.isJob = false) (hat : σ.atWork = some id) :
    σ'.node.broadcasts id = σ.node.broadcasts id := by
  rcases broadcasts_step h id with heq | ⟨tx, ha, -⟩
  · exact heq
  · cases ha with
    | job => cases hjob
    | @sweep t rest fees gasLimit baseUnits reply hsweep =>
      exact absurd hat (hC.2.1 t (by simp [State.resends, hsweep])).1

theorem CapInv.starts (hI : CapInv cfg σ) (hC : CountsSends σ (.job .found)) (hc : Custody σ)
    (hfresh : σ.UnsentWaiting) {v : JobVars} (hworker : σ.relayer.worker = some (id, .find))
    (hs : σ.db.findById id = some s)
    (hstatus : s.status = .complianceApproved ∨ s.status = .submitted)
    (hstart : startJob s σ.relayer.localNonce = some v) :
    v.retryCount = s.retryCount ∧
      σ.node.broadcasts id ≤ s.retryCount + (JobPc.estimateGas v).slack := by
  have hid := Db.id_of_findById hs
  have hresume := (startJob_some hstart).2.2.1
  obtain ⟨units, -, rfl⟩ := Option.map_eq_some_iff.mp hstart
  refine ⟨rfl, ?_⟩
  rcases hstatus with happroved | hsubmitted
  · have hnone := (hc.columns id s hs).unsent (.inr (.inr happroved))
    have hwaiting : σ.Waiting id := by
      refine .inr ⟨Relayer.mem_jobs_of_worker hworker, fun pc hpc => ?_⟩
      rw [hworker] at hpc
      cases hpc
      rfl
    rw [broadcasts_eq_zero (hfresh id s hs hnone hwaiting)]
    exact Nat.zero_le _
  · have hsome := ((hc.columns id s hs).sent (.inl hsubmitted)).1
    have hnot : σ.atWork ≠ some id := by
      simp [State.atWork, hworker, JobPc.vars]
    have hopen : σ.resendable s = true := by
      rw [State.resendable, Settlement.isOpen, hsubmitted]
      rfl
    have hcount := hI.counted id s hs hopen hnot
    have hhand : σ.inHand s.id ≤ s.retryCount :=
      hC.2.2.1 s (by simp [State.startsOn, hworker, hs, hsubmitted])
    rw [hid] at hhand
    rw [max_eq_left hhand] at hcount
    simpa [JobPc.slack, JobPc.vars, hsubmitted, hsome] using hcount

theorem CapInv.job_step (hI : CapInv cfg σ) (hC : CountsSends σ ev) (hc : Custody σ)
    (hfresh : σ.UnsentWaiting) (h : step cfg σ ev = some σ') {pc' : JobPc} {v' : JobVars}
    (hw : σ'.relayer.worker = some (id, pc')) (hv' : pc'.vars = some v') :
    (∀ s, σ'.db.findById id = some s → s.retryCount ≤ v'.retryCount) ∧
      (pc'.sending = some v' → v'.retryCount ≤ cfg.relayer.maxRetries) ∧
      σ'.node.broadcasts id ≤ v'.retryCount + pc'.slack := by
  obtain ⟨op, hwr, hdb⟩ := step_db h
  have after : ∀ {s s'}, σ.db.findById id = some s → σ'.db.findById id = some s' →
      s' = op.onRow σ.now s := by
    intro s s' hs hs'
    rw [hdb, findById_apply hs] at hs'
    exact (Option.some.inj hs').symm
  rcases step_atWork h hw hv' with ⟨hjob, hworker⟩ | ⟨pc, e, v, rfl, hworker, hcounts⟩ |
    ⟨s, rfl, hworker, rfl, hs, hstatus, hstart⟩
  · obtain ⟨hrow, hcap, hcount⟩ := hI.job id pc' v' hworker hv'
    have hat := atWork_eq_some.mpr ⟨pc', v', hworker, hv'⟩
    obtain ⟨-, s, hs, -⟩ := hc.jobs id (Relayer.mem_jobs_of_worker hworker)
    refine ⟨fun s' hs' => ?_, hcap, broadcasts_of_atWork hC h hjob hat ▸ hcount⟩
    rw [after hs hs', (hI.written hC hwr hs).2 hjob hat]
    exact hrow s hs
  · have hv := JobPc.vars_of_sending hcounts.sending
    obtain ⟨hrow, hcap, hcount⟩ := hI.job id pc v hworker hv
    obtain ⟨-, s, hs, -⟩ := hc.jobs id (Relayer.mem_jobs_of_worker hworker)
    refine ⟨fun s' hs' => ?_, fun hsend => ?_, ?_⟩
    · rw [after hs hs']
      refine le_trans ?_ hcounts.mono
      rcases hwr.retryCount_cases hs with heq | ⟨o, pc₁, v₁, -, -, hworker₁, hv₁, heq⟩ |
        ⟨o, pc₁, n, hev, -⟩ | ⟨t, rest, hev, -⟩
      · exact heq ▸ hrow s hs
      · rw [hworker] at hworker₁
        cases hworker₁
        rw [hv] at hv₁
        cases hv₁
        exact heq.le
      · cases hev
      · cases hev
    · rcases hcounts.capped hsend with heq | hle
      · exact heq ▸ hcap hcounts.sending
      · exact hle
    · have hsent : e.accepted = true → σ.node.broadcasts id ≤ v.retryCount := by
        intro he
        obtain rfl := hcounts.sent he
        unfold JobEvent.accepted at he
        split at he
        · exact hI.accepts_job hC hworker rfl
        · cases he
      refine le_trans ?_ (hcounts.counts _ hcount hsent)
      rcases broadcasts_step h id with heq | ⟨tx, ha, heq⟩ <;> rw [heq]
      · exact Nat.le_add_right _ _
      · cases ha
        exact le_rfl
  · obtain ⟨hstarted, hcount⟩ := hI.starts hC hc hfresh hworker hs hstatus hstart
    have hsame : σ'.node.broadcasts id = σ.node.broadcasts id := by
      rcases broadcasts_step h id with heq | ⟨tx, ha, -⟩
      · exact heq
      · cases ha
    rw [hstarted, hsame]
    refine ⟨fun s' hs' => ?_, fun _ => hI.capped id s hs ?_, hcount⟩
    · rw [after hs hs']
      rcases hwr.retryCount_cases hs with heq | ⟨o, pc₁, v₁, hev, -⟩ | ⟨o, pc₁, n, hev, -⟩ |
        ⟨t, rest, hev, -⟩
      · exact heq.le
      all_goals cases hev
    · rcases hstatus with hstatus | hstatus <;> rw [hstatus] <;> decide

theorem atWork_step (h : step cfg σ ev = some σ') (hat : σ'.atWork = some id) :
    σ.atWork = some id ∨ ∃ s, s ∈ σ.startsOn ev ∧ s.id = id := by
  obtain ⟨pc', v', hw, hv'⟩ := atWork_eq_some.mp hat
  rcases step_atWork h hw hv' with ⟨-, hworker⟩ | ⟨pc, e, v, -, hworker, hcounts⟩ |
    ⟨s, rfl, hworker, -, hs, hstatus, -⟩
  · exact .inl (atWork_eq_some.mpr ⟨pc', v', hworker, hv'⟩)
  · exact .inl (atWork_eq_some.mpr ⟨pc, v, hworker, JobPc.vars_of_sending hcounts.sending⟩)
  · refine .inr ⟨s, ?_, Db.id_of_findById hs⟩
    simp only [State.startsOn, hworker, hs, Option.filter_some, Option.mem_def]
    rw [if_pos (decide_eq_true hstatus)]

theorem CapInv.resending_step (hI : CapInv cfg σ) (hC : CountsSends σ ev) (hc : Custody σ)
    (h : step cfg σ ev = some σ') {rest : List Settlement} {tx : Tx}
    (hsweep' : σ'.relayer.sweep = some (.recordResend t rest tx)) :
    σ'.atWork ≠ some t.id ∧ ∀ s, σ'.db.findById t.id = some s → s.retryCount = t.retryCount := by
  obtain ⟨op, hwr, hdb⟩ := step_db h
  suffices hbefore : σ.atWork ≠ some t.id ∧ (∀ s ∈ σ.startsOn ev, s.id ≠ t.id) ∧
      ∃ s, σ.db.findById t.id = some s ∧ s.retryCount = t.retryCount ∧
        (op.onRow σ.now s).retryCount = s.retryCount by
    obtain ⟨hnot, hstarts, s, hs, hcount, hkept⟩ := hbefore
    refine ⟨fun hat => ?_, fun s' hs' => ?_⟩
    · rcases atWork_step h hat with hat | ⟨r, hr, hid⟩
      · exact hnot hat
      · exact hstarts r hr hid
    · rw [hdb, findById_apply hs] at hs'
      rw [← Option.some.inj hs', hkept, hcount]
  have hmoves := step_sweep h
  rw [hsweep'] at hmoves
  generalize hpc' : some (SweepPc.recordResend t rest tx) = sweep' at hmoves
  cases hmoves with
  | same hev =>
    obtain ⟨hnot, hrow⟩ := hI.resending t rest tx hpc'.symm
    have ht : t ∈ SweepPc.rowsOf σ.relayer.sweep := by
      simp [← hpc', SweepPc.rowsOf, SweepPc.rows]
    obtain ⟨s, hs, -⟩ := (hc.carried t (.walk (.sweep ht))).row
    refine ⟨hnot, fun r hr hid => ?_, s, hs, hrow s hs, ?_⟩
    · -- the count in hand of the sweep is ahead of the row the job would start from
      have hle := hC.2.2.1 r hr
      have hrs : σ.db.findById r.id = some r := by
        unfold State.startsOn at hr
        split at hr
        · split at hr
          · rw [Option.mem_def, Option.filter_eq_some_iff] at hr
            rw [Db.id_of_findById hr.1]
            exact hr.1
          · cases hr
        · cases hr
      rw [hid] at hrs hle
      have hhand : σ.inHand t.id = t.retryCount + 1 := inHand_of_some hpc'.symm rfl
      rw [hhand, hrow r hrs] at hle
      exact absurd hle (Nat.not_succ_le_self _)
    · rcases hwr.retryCount_cases hs with heq | ⟨o, pc, v, -, -, hworker, hv, -⟩ |
        ⟨o, pc, n, rfl, -⟩ | ⟨u, rest', rfl, hrecovery, hid, heq⟩
      · exact heq
      · exact absurd (atWork_eq_some.mpr ⟨pc, v, hworker, hv⟩) hnot
      · cases hev
      · have hf : (u, u.retryCount) ∈ σ.failing (.recover .written) := by
          simp [State.failing, hrecovery]
        rw [heq]
        rcases hC.2.2.2.1 _ hf s (by rw [hid]; exact hs) with hsame | ⟨hsame, -⟩
        · exact hsame.symm
        · exact hsame.symm
  | start | crash => cases hpc'
  | @step pc e out hsweep hout =>
    have hgoes := sweepStep_goes hout
    generalize out.pc = pc' at hgoes hpc'
    cases hgoes with
    | @sent s rest' fees gasLimit baseUnits hunits =>
      cases hpc'
      obtain ⟨hnot, hrow, -⟩ := hI.accepts_sweep hC hc hsweep rfl
      have ht : t ∈ SweepPc.rowsOf σ.relayer.sweep := by simp [hsweep, SweepPc.rowsOf, SweepPc.rows]
      obtain ⟨s, hs, -⟩ := (hc.carried t (.walk (.sweep ht))).row
      refine ⟨hnot, fun r hr => ?_, s, hs, hrow s hs, ?_⟩
      · cases hr
      · rcases hwr.retryCount_cases hs with heq | ⟨o, pc₁, v₁, hev, -⟩ | ⟨o, pc₁, n, hev, -⟩ |
          ⟨u, rest₁, hev, -⟩
        · exact heq
        all_goals cases hev
    | found | skip | recorded | leave => exact absurd hpc'.symm sweepNext_ne_recordResend
    | failed s l reason retryCount o =>
      rcases afterFail_cases l o with heq | heq <;> rw [heq] at hpc'
      · cases hpc'
      · exact absurd hpc'.symm sweepNext_ne_recordResend
    | _ => cases hpc'

theorem sweepNext_bumping (l : List Settlement) : (sweepNext l).bind SweepPc.bumping = none := by
  rcases sweepNext_cases l with heq | ⟨s, rest, heq⟩ <;> rw [heq] <;> rfl

theorem SweepGoes.bumping_lt {rcfg : RelayerConfig} {db : Db} {node : Node} {now : ℕ}
    {inflight : Inflight} {pc : SweepPc} {e : SweepEvent} {pc' : Option SweepPc}
    (h : SweepGoes rcfg db node now inflight pc e pc')
    (hI : ∀ t, pc.bumping = some t → t.retryCount < rcfg.maxRetries)
    (ht : pc'.bind SweepPc.bumping = some t) : t.retryCount < rcfg.maxRetries := by
  cases h with
  | found | skip | recorded | leave =>
    rw [sweepNext_bumping] at ht
    cases ht
  | failed s rest reason retryCount o =>
    rcases afterFail_cases rest o with heq | heq <;> rw [heq] at ht
    · cases ht
    · rw [sweepNext_bumping] at ht
      cases ht
  | bump hcap | lookup hcap => cases ht; exact hcap
  | giveUp | reject | stop => cases ht
  | _ => cases ht; exact hI _ rfl

theorem CapInv.bumping_step (hI : CapInv cfg σ) (h : step cfg σ ev = some σ') {pc' : SweepPc}
    (hsweep' : σ'.relayer.sweep = some pc') (ht : pc'.bumping = some t) :
    t.retryCount < cfg.relayer.maxRetries := by
  have hmoves := step_sweep h
  have hbind : σ'.relayer.sweep.bind SweepPc.bumping = some t := by rw [hsweep']; exact ht
  generalize σ'.relayer.sweep = sweep' at hmoves hbind
  cases hmoves with
  | same =>
    obtain ⟨pc, hsweep, hpc⟩ := Option.bind_eq_some_iff.mp hbind
    exact hI.bumping pc t hsweep hpc
  | start | crash => cases hbind
  | step hsweep hout => exact (sweepStep_goes hout).bumping_lt (hI.bumping _ · hsweep) hbind

theorem CapInv.failing_step (hI : CapInv cfg σ) (h : step cfg σ ev = some σ')
    {rest : List Settlement} {reason : String} {n : ℕ}
    (hsweep' : σ'.relayer.sweep = some (.fail t rest reason n)) : t.retryCount ≤ n := by
  have hmoves := step_sweep h
  rw [hsweep'] at hmoves
  generalize hpc' : some (SweepPc.fail t rest reason n) = sweep' at hmoves
  have notNext : ∀ l, sweepNext l ≠ some (SweepPc.fail t rest reason n) := by
    intro l
    rcases sweepNext_cases l with heq | ⟨s, rest, heq⟩ <;> simp [heq]
  cases hmoves with
  | same => exact hI.failing t rest reason n hpc'.symm
  | start | crash => cases hpc'
  | @step pc e out hsweep hout =>
    have hgoes := sweepStep_goes hout
    generalize out.pc = pc' at hgoes hpc'
    cases hgoes with
    | giveUp => cases hpc'; exact le_rfl
    | reject => cases hpc'; exact Nat.le_succ _
    | found | skip | recorded | leave => exact absurd hpc'.symm (notNext _)
    | failed s l reason' retryCount o =>
      rcases afterFail_cases l o with heq | heq <;> rw [heq] at hpc'
      · cases hpc'
      · exact absurd hpc'.symm (notNext _)
    | _ => cases hpc'

theorem CapInv.capped_step (hI : CapInv cfg σ) (hc : Custody σ) (h : step cfg σ ev = some σ')
    {s' : Settlement} (hs' : σ'.db.findById id = some s') (hstatus : s'.status ≠ .failed) :
    s'.retryCount ≤ cfg.relayer.maxRetries := by
  obtain ⟨op, hw, hdb⟩ := step_db h
  rw [hdb] at hs'
  rcases findById_apply_cases hs' with ⟨s, hs, rfl⟩ | ⟨-, rfl, -⟩
  · have hid := Db.id_of_findById hs
    have keeps : s.status ≠ .failed → (op.onRow σ.now s).retryCount = s.retryCount →
        (op.onRow σ.now s).retryCount ≤ cfg.relayer.maxRetries := by
      intro hnot heq
      rw [heq]
      exact hI.capped id s hs hnot
    have held : ∀ {i : ℕ} {call : CreateCall}, σ.creates[i]? = some call →
        call.pc.held = some id → s.status ≠ .failed := by
      intro i call hcall hheld
      obtain ⟨r, hr, hreceived⟩ := hc.held call (List.mem_of_getElem? hcall) id hheld
      rw [hs] at hr
      cases hr
      rw [hreceived]
      decide
    cases hw with
    | idle | insert | book => exact keeps hstatus rfl
    | @resend t rest tx o r hsweep =>
      simp only [DbOp.onRow] at hstatus keeps ⊢
      split_ifs at hstatus keeps ⊢
      · exact hI.bumping _ t hsweep rfl
      · exact keeps hstatus rfl
    | @submitted k v o r hworker =>
      rcases onRow_transition_cases σ.now s k .submitted (submittedOptions v) with
        heq | ⟨-, -, heq⟩
      · exact keeps (heq ▸ hstatus) (by rw [heq])
      · rw [heq]
        exact (hI.job k _ v hworker rfl).2.1 rfl
    | @reject i call k reason o r hcall hpc =>
      rcases onRow_transition_cases σ.now s k .rejectedCompliance (rejectOptions reason) with
        heq | ⟨hk, -, heq⟩
      · exact keeps (heq ▸ hstatus) (by rw [heq])
      · exact keeps (held hcall (by rw [hpc, ← hid, hk]; rfl)) (by rw [heq]; rfl)
    | @approve i call k o r hcall hpc =>
      rcases onRow_transition_cases σ.now s k .complianceApproved {} with heq | ⟨hk, -, heq⟩
      · exact keeps (heq ▸ hstatus) (by rw [heq])
      · exact keeps (held hcall (by rw [hpc, ← hid, hk]; rfl)) (by rw [heq]; rfl)
    | reorg | confirm | flip =>
      rcases onRow_transition_cases _ s _ _ _ with heq | ⟨-, hallow, heq⟩
      · exact keeps (heq ▸ hstatus) (by rw [heq])
      · refine keeps (fun hfailed => ?_) (by rw [heq]; rfl)
        rw [hfailed] at hallow
        cases hallow
    | _ =>
      rcases onRow_transition_cases _ s _ _ _ with heq | ⟨-, -, heq⟩
      · exact keeps (heq ▸ hstatus) (by rw [heq])
      · rw [heq] at hstatus
        exact absurd rfl hstatus
  · cases hw
    exact Nat.zero_le _

theorem resendable_step (hc : Custody σ) (h : step cfg σ ev = some σ') {s' : Settlement}
    (hs' : σ'.db.findById id = some s') (hres : σ'.resendable s' = true) :
    ∃ s op, σ.db.findById id = some s ∧ Writes σ ev op ∧ s' = op.onRow σ.now s ∧
      σ'.db = op.apply σ.now σ.db ∧ (σ.resendable s = true ∨ σ.atWork = some id) := by
  have hid' := Db.id_of_findById hs'
  have hswept : id ∈ σ'.swept →
      (∃ t ∈ SweepPc.rowsOf σ.relayer.sweep, t.id = id) ∨
        ∃ t ∈ σ.db.findByStatuses [.submitted], t.id = id := by
    intro hmem
    obtain ⟨t, ht, rfl⟩ := List.mem_map.mp hmem
    exact (step_sweep_rows h ht).imp (fun ht => ⟨t, ht, rfl⟩) fun ht => ⟨t, ht, rfl⟩
  rw [State.resendable, Bool.or_eq_true, List.contains_iff_mem, hid'] at hres
  obtain ⟨op, hw, hdb, ⟨s, hs, rfl⟩ | ⟨hnone, hreceived, -⟩⟩ := step_row h hs'
  · refine ⟨s, op, hs, hw, rfl, hdb, ?_⟩
    rcases hres with hopen | hmem
    · exact (hw.isOpen hs hopen).imp_left fun hopen => by rw [State.resendable, hopen, Bool.true_or]
    · left
      rcases hswept hmem with ⟨t, ht, htid⟩ | ⟨t, ht, htid⟩
      · exact resendable_of_swept hs ht htid
      · rw [Db.mem_findByStatuses, htid, hs] at ht
        obtain ⟨hts, hstatus⟩ := ht
        cases hts
        rw [State.resendable, Settlement.isOpen, List.mem_singleton.mp hstatus]
        rfl
  · exfalso
    rcases hres with hopen | hmem
    · rw [Settlement.isOpen, hreceived] at hopen
      cases hopen
    · rcases hswept hmem with ⟨t, ht, rfl⟩ | ⟨t, ht, rfl⟩
      · obtain ⟨s, hs, -⟩ := (hc.carried t (.walk (.sweep ht))).row
        rw [hnone] at hs
        cases hs
      · rw [Db.mem_findByStatuses, hnone] at ht
        cases ht.1

theorem CapInv.counted_crash (hC : CountsSends σ .crash) (hs : σ.db.findById id = some s)
    (hres : σ.crashed.resendable s = true) :
    σ.crashed.node.broadcasts id ≤ s.retryCount + 1 := by
  have hopen : s.isOpen = true := by
    rw [State.resendable, Bool.or_eq_true, List.contains_iff_mem] at hres
    exact hres.resolve_right List.not_mem_nil
  have hdrops := hC.2.2.2.2 s (Db.mem_of_findById hs) hopen
  rwa [Db.id_of_findById hs] at hdrops

/-- A job that ends has stored its count, or drops one that its row does not need. -/
theorem CapInv.counted_ended (hI : CapInv cfg σ) (hC : CountsSends σ ev)
    (h : step cfg σ ev = some σ') (hs : σ.db.findById id = some s)
    (hs' : σ'.db.findById id = some (op.onRow σ.now s)) (hw : Writes σ ev op)
    (hres : σ'.resendable (op.onRow σ.now s) = true) (hat : σ.atWork = some id)
    (hnot : σ'.atWork ≠ some id) :
    σ'.node.broadcasts id ≤ (op.onRow σ.now s).retryCount + 1 := by
  obtain ⟨pc, v, hworker, hv⟩ := atWork_eq_some.mp hat
  obtain ⟨-, -, hcount⟩ := hI.job id pc v hworker hv
  have hslack := pc.slack_le
  rcases step_worker_of h hworker with rfl | hsame | ⟨e, rfl, ⟨pc', hw', hmoves⟩ | ⟨hends, -⟩⟩
  · cases hw
    cases stepsTo h
    exact CapInv.counted_crash hC hs hres
  · exact absurd (atWork_eq_some.mpr ⟨pc, v, hsame, hv⟩) hnot
  · refine absurd (atWork_eq_some.mpr ?_) hnot
    generalize σ'.relayer.localNonce = localNonce at hmoves
    cases hmoves with
    | advance _ hv' => exact ⟨_, _, hw', hv'⟩
    | _ => exact ⟨_, _, hw', rfl⟩
  · -- what ends a job takes nothing new in
    have hsame : σ'.node.broadcasts id = σ.node.broadcasts id := by
      rcases broadcasts_step h id with heq | ⟨tx, ha, -⟩
      · exact heq
      · cases ha
        cases hends
    have hswept : σ'.swept = σ.swept := by
      rw [State.swept, step_sweep_same h rfl (fun heq => by cases heq)]
      rfl
    have dropped : op = .none → σ.dropsCount s (.job e) = true →
        σ'.node.broadcasts id ≤ (op.onRow σ.now s).retryCount + 1 := by
      rintro rfl hdrops
      have hle := hC.2.2.2.2 s (Db.mem_of_findById hs) hdrops
      rw [Db.id_of_findById hs] at hle
      exact hsame ▸ hle
    have hres₀ : op = .none → σ.resendable s = true := by
      rintro rfl
      rw [State.resendable, hswept] at hres
      exact hres
    have hid := Db.id_of_findById hs
    cases hends with
    | unsendable | findError => cases hv
    | feesError | countError =>
      have hop : op = .none := by cases hw; rfl
      refine dropped hop ?_
      rw [State.dropsCount, hat, hid, hres₀ hop]
      simp
    | submitted v' =>
      rw [hsame, job_written hworker hv rfl h hs hs']
      exact hcount.trans (Nat.add_le_add_left hslack _)
    | failed v' reason o =>
      rcases ho : o.committed
      · have hop : op = .none := by
          cases hw with
          | idle => rfl
          | submitted _ _ ho' | jobFail _ _ ho' =>
            rw [ho] at ho'
            cases ho'
        refine dropped hop ?_
        cases o with
        | lost err => simp [State.dropsCount, hworker, hid, hres₀ hop]
        | ok | ambiguous => cases ho
      · rw [hsame, job_written hworker hv ho h hs hs']
        exact hcount.trans (Nat.add_le_add_left hslack _)

theorem inHand_step (h : step cfg σ ev = some σ') (hev : ∀ e, ev ≠ .sweep e)
    (hcrash : ev ≠ .crash) : σ'.inHand id = σ.inHand id := by
  have hmoves := step_sweep h
  unfold State.inHand
  generalize σ'.relayer.sweep = sweep' at hmoves ⊢
  cases hmoves with
  | same => rfl
  | start hidle => rw [hidle]; rfl
  | crash => exact absurd rfl hcrash
  | step => exact absurd rfl (hev _)

theorem CapInv.counted_lost (hI : CapInv cfg σ) {err : TxError}
    (hC : CountsSends σ (.sweep (.written (.lost err)))) (hs : σ.db.findById id = some s)
    {pc : SweepPc} {n : ℕ} (hsweep : σ.relayer.sweep = some pc)
    (hhand : pc.inHand = some (id, n)) (hcount : σ.node.broadcasts id ≤ max s.retryCount n + 1)
    (hgoes : SweepGoes cfg.relayer σ.db σ.node σ.now σ.relayer.inflight pc
      (.written (.lost err)) σ'.relayer.sweep) (hres : σ'.resendable s = true) :
    σ.node.broadcasts id ≤ max s.retryCount (σ'.inHand id) + 1 := by
  have hid := Db.id_of_findById hs
  have dropped : σ.dropsCount s (.sweep (.written (.lost err))) = true →
      σ.node.broadcasts id ≤ max s.retryCount (σ'.inHand id) + 1 := by
    intro hdrops
    have hle := hC.2.2.2.2 s (Db.mem_of_findById hs) hdrops
    rw [hid] at hle
    exact hle.trans (Nat.succ_le_succ (le_max_left _ _))
  have hopen : id ∉ σ'.swept → s.isOpen = true := by
    intro hnot
    rw [State.resendable, Bool.or_eq_true, List.contains_iff_mem] at hres
    exact hres.resolve_right (hid ▸ hnot)
  generalize hnext : σ'.relayer.sweep = pc' at hgoes
  cases hgoes with
  | @leave _ _ t rest err' hpc hrows herr hleft =>
    cases herr
    have hdistinct := hI.distinct
    rw [State.swept, hsweep, SweepPc.rowsOf, Option.elim, hrows, List.map_cons,
      List.nodup_cons] at hdistinct
    cases pc <;> simp only [SweepPc.inHand, reduceCtorEq, Option.some.injEq, Prod.mk.injEq] at hhand
    case recordResend t' rest' tx =>
      cases hrows
      have hnot : id ∉ σ'.swept := by
        intro hmem
        obtain ⟨r, hr, hrid⟩ := List.mem_map.mp hmem
        rw [hnext] at hr
        refine hdistinct.1 (List.mem_map.mpr ⟨r, (sweepNext_sublist rest).subset hr, ?_⟩)
        rw [hrid, hhand.1]
      exact dropped (by simp [State.dropsCount, hsweep, hhand.1, hid, hleft, hopen hnot])
    case fail => cases hpc
  | @reject _ _ t rest err' reason hpc hrows herr hfails =>
    cases pc <;> simp only [SweepPc.inHand, reduceCtorEq, Option.some.injEq, Prod.mk.injEq] at hhand
    case recordResend t' rest' tx =>
      cases hrows
      rwa [inHand_of_some hnext (n := n) (by rw [SweepPc.inHand, hhand.1, hhand.2])]
    case fail => cases hpc
  | failed t rest reason retryCount o =>
    simp only [SweepPc.inHand, Option.some.injEq, Prod.mk.injEq] at hhand
    have hnot : id ∉ σ'.swept := by
      rw [State.swept, hnext]
      exact List.not_mem_nil
    exact dropped (by simp [State.dropsCount, hsweep, hhand.1, hid, hopen hnot])
  | stop _ hnone =>
    rw [hnone] at hhand
    cases hhand

theorem CapInv.counted_sent (hI : CapInv cfg σ) {reply : Option TxError}
    (hC : CountsSends σ (.sweep (.sent (.accepted reply)))) (hc : Custody σ) {rest : List Settlement}
    {fees : Fees} {gasLimit : ℕ} (hsweep : σ.relayer.sweep = some (.broadcast t rest fees gasLimit))
    (hs : σ.db.findById t.id = some s)
    (hgoes : SweepGoes cfg.relayer σ.db σ.node σ.now σ.relayer.inflight
      (.broadcast t rest fees gasLimit) (.sent (.accepted reply)) σ'.relayer.sweep) :
    σ.node.broadcasts t.id ≤ max s.retryCount (σ'.inHand t.id) := by
  obtain ⟨-, hrow, hle⟩ := hI.accepts_sweep hC hc hsweep rfl
  generalize hnext : σ'.relayer.sweep = pc' at hgoes
  cases hgoes with
  | sent =>
    rw [inHand_of_some hnext rfl]
    exact hle.trans (le_max_right _ _)
  | @reject _ _ t' rest' err reason hpc hrows =>
    cases hrows
    rw [inHand_of_some hnext rfl]
    exact hle.trans (le_max_right _ _)
  | @leave _ _ t' rest' err hpc hrows herr hleft =>
    cases hrows
    obtain rfl : reply = some err := herr
    have hcovers := hC.1 (t.id, t.retryCount) (by simp [State.uncountedSend, hsweep, hleft])
    rw [← hrow s hs] at hcovers
    exact hcovers.trans (le_max_left _ _)
  | stop _ _ he => rcases he with he | ⟨est, he⟩ <;> cases he

theorem CapInv.counted_sweep (hI : CapInv cfg σ) {e : SweepEvent} (hC : CountsSends σ (.sweep e))
    (hc : Custody σ) (h : step cfg σ (.sweep e) = some σ') (hs : σ.db.findById id = some s)
    (hs' : σ'.db.findById id = some (op.onRow σ.now s)) (hw : Writes σ (.sweep e) op)
    (hres : σ'.resendable (op.onRow σ.now s) = true)
    (hcount : σ.node.broadcasts id ≤ max s.retryCount (σ.inHand id) + 1) :
    σ'.node.broadcasts id ≤ max (op.onRow σ.now s).retryCount (σ'.inHand id) + 1 := by
  have hmono := (hI.written hC hw hs).1
  obtain ⟨pc, out, hsweep, hout, hnext⟩ : ∃ pc out, σ.relayer.sweep = some pc ∧
      sweepStep cfg.relayer σ.db σ.node σ.now σ.relayer.inflight pc e = some out ∧
      σ'.relayer.sweep = out.pc := by
    cases stepsTo h with
    | sweep hsweep hout => exact ⟨_, _, hsweep, hout, rfl⟩
  have hgoes := sweepStep_goes hout
  rw [← hnext] at hgoes
  rcases broadcasts_step h id with hsame | ⟨tx, ha, hone⟩
  · rw [hsame]
    rcases hhand : pc.inHand with _ | ⟨k, n⟩
    · rw [inHand_of_none hsweep hhand, max_eq_left (Nat.zero_le _)] at hcount
      exact hcount.trans (Nat.succ_le_succ (hmono.trans (le_max_left _ _)))
    by_cases hk : k = id
    · subst hk
      rw [inHand_of_some hsweep hhand] at hcount
      obtain ⟨o, rfl⟩ : ∃ o, e = .written o := by
        cases pc <;> cases e <;>
          simp only [sweepStep, SweepPc.inHand, reduceCtorEq] at hout hhand <;> exact ⟨_, rfl⟩
      rcases ho : o.committed
      · have hop : op = .none := by
          cases hw with
          | idle => rfl
          | resend _ _ ho' | sweepFail _ _ ho' =>
            rw [ho] at ho'
            cases ho'
        subst hop
        cases o with
        | ok | ambiguous => cases ho
        | lost err => exact hI.counted_lost hC hs hsweep hhand hcount hgoes hres
      · have hwritten := sweep_written hsweep hhand ho h hs hs'
        rw [hwritten] at hmono ⊢
        rw [max_eq_right hmono] at hcount
        exact hcount.trans (Nat.succ_le_succ (le_max_left _ _))
    · rw [inHand_of_ne hsweep hhand hk, max_eq_left (Nat.zero_le _)] at hcount
      exact hcount.trans (Nat.succ_le_succ (hmono.trans (le_max_left _ _)))
  · rw [hone]
    refine Nat.succ_le_succ ?_
    cases ha with
    | @sweep t rest fees gasLimit baseUnits reply hsweep' =>
      rw [hsweep] at hsweep'
      cases hsweep'
      exact (hI.counted_sent hC hc hsweep hs hgoes).trans (max_le_max_right _ hmono)

theorem CapInv.counted_step (hI : CapInv cfg σ) (hC : CountsSends σ ev) (hc : Custody σ)
    (h : step cfg σ ev = some σ') {s' : Settlement} (hs' : σ'.db.findById id = some s')
    (hres : σ'.resendable s' = true) (hnot : σ'.atWork ≠ some id) :
    σ'.node.broadcasts id ≤ max s'.retryCount (σ'.inHand id) + 1 := by
  obtain ⟨s, op, hs, hw, rfl, hdb, hbefore⟩ := resendable_step hc h hs' hres
  by_cases hat : σ.atWork = some id
  · exact (hI.counted_ended hC h hs hs' hw hres hat hnot).trans
      (Nat.succ_le_succ (le_max_left _ _))
  have hcount := hI.counted id s hs (hbefore.resolve_right hat) hat
  by_cases hev : ∃ e, ev = .sweep e
  · obtain ⟨e, rfl⟩ := hev
    exact hI.counted_sweep hC hc h hs hs' hw hres hcount
  have hsame : σ'.node.broadcasts id = σ.node.broadcasts id := by
    rcases broadcasts_step h id with heq | ⟨tx, ha, -⟩
    · exact heq
    · cases ha with
      | job hworker => exact absurd (atWork_eq_some.mpr ⟨_, _, hworker, rfl⟩) hat
      | sweep => exact absurd ⟨_, rfl⟩ hev
  by_cases hcrash : ev = .crash
  · subst hcrash
    cases hw
    cases stepsTo h
    exact (CapInv.counted_crash hC hs hres).trans (Nat.succ_le_succ (le_max_left _ _))
  · rw [hsame, inHand_step h (fun e he => hev ⟨e, he⟩) hcrash]
    exact hcount.trans (Nat.succ_le_succ (max_le_max_right _ (hI.written hC hw hs).1))

theorem capInv_step (hI : CapInv cfg σ) (hC : CountsSends σ ev) (hc : Custody σ)
    (hfresh : σ.UnsentWaiting) (h : step cfg σ ev = some σ') : CapInv cfg σ' where
  job _ _ _ hw hv := hI.job_step hC hc hfresh h hw hv
  resending _ _ _ hsweep := hI.resending_step hC hc h hsweep
  failing _ _ _ _ hsweep := hI.failing_step h hsweep
  bumping _ _ hsweep ht := hI.bumping_step h hsweep ht
  total := hI.total_step hC hc h
  capped _ _ hs hstatus := hI.capped_step hc h hs hstatus
  counted _ _ hs hres hnot := hI.counted_step hC hc h hs hres hnot
  distinct := (step_sweep h).nodup hI.distinct

theorem capInv_initial (cfg : Config) (base opening : ℕ) :
    CapInv cfg (initial cfg base opening) where
  job _ _ _ hworker := by cases hworker
  resending _ _ _ hsweep := by cases hsweep
  failing _ _ _ _ hsweep := by cases hsweep
  bumping _ _ hsweep := by cases hsweep
  total _ := Nat.zero_le _
  capped id s hs _ := by
    rw [(findById_initial hs).1]
    exact Nat.zero_le _
  counted _ _ _ _ _ := Nat.zero_le _
  distinct := List.nodup_nil

theorem capInv_reach {base opening : ℕ} (h : RailReach cfg CountsSends base opening σ) :
    CapInv cfg σ :=
  h.invariant (capInv_initial cfg base opening) fun _ _ _ hr hI hC hs =>
    capInv_step hI hC (custody_reach hr) (unsentWaiting_reach hr) hs

/-- What the cap promises from one state of a run to a later one. -/
structure RetriesCapped (cfg : Config) (σ σ' : State) : Prop where
  never_decreases : ∀ id s, σ.db.findById id = some s →
    ∃ s', σ'.db.findById id = some s' ∧ s.retryCount ≤ s'.retryCount
  broadcasts_le : ∀ id, σ'.node.broadcasts id ≤ cfg.relayer.maxRetries + 1

theorem retriesCapped_of_countsSends (cfg : Config) (base opening : ℕ)
    (h : RailReach cfg CountsSends base opening σ)
    (h' : ReachUnder (step cfg) CountsSends σ σ') : RetriesCapped cfg σ σ' := by
  refine ⟨fun id s hs => ?_, (capInv_reach (h.trans h')).total⟩
  refine h'.invariant (I := fun σ' => ∃ s', σ'.db.findById id = some s' ∧
    s.retryCount ≤ s'.retryCount) ⟨s, hs, le_rfl⟩ ?_
  rintro υ ev υ' hr ⟨r, hrow, hle⟩ hC hstep
  have hI : CapInv cfg υ := capInv_reach (h.trans hr)
  obtain ⟨op, hw, hdb⟩ := step_db hstep
  exact ⟨op.onRow υ.now r, by rw [hdb]; exact findById_apply hrow,
    hle.trans (hI.written hC hw hrow).1⟩

theorem stuck_payout_resent_once : ∃ σ,
    RailReach (plainConfig 3) CountsSends 7 100 σ ∧ σ.node.broadcasts 1 = 2 ∧
      RetriesCapped (plainConfig 3) (initial (plainConfig 3) 7 100) σ := by
  obtain ⟨σ, hr, hends⟩ := exists_reach_of_checkedRun (step (plainConfig 3)) CountsSends
    (initial (plainConfig 3) 7 100) (bootEvents ++ submitEvents 0 1 payout ++ sendEvents ++
      stuckResend) (fun σ => σ.node.broadcasts 1 = 2) (by decide +kernel)
  exact ⟨σ, hr, of_decide_eq_true hends, retriesCapped_of_countsSends (plainConfig 3) 7 100 .refl hr⟩

/-- The mempool drops the transaction, the process restarts, and recovery has it sent again under
the stored nonce. -/
def droppedAndResent : List Event :=
  [.dropTx (plainTransfer 7 payout), .crash, .boot, .recover .counted, .recover .found,
    .recover .receipt, .recover .txLookup] ++ sendEvents

theorem restarts_pass_cap :
    ¬∀ cfg base opening σ σ', Reach (step cfg) (initial cfg base opening) σ →
      Reach (step cfg) σ σ' → RetriesCapped cfg σ σ' := by
  intro hclaim
  obtain ⟨σ, hr, hends⟩ := exists_reach_of_run (step (plainConfig 3))
    (initial (plainConfig 3) 7 100) (bootEvents ++ submitEvents 0 1 payout ++ sendEvents ++
      (List.replicate 4 droppedAndResent).flatten)
    (fun σ => σ.node.broadcasts 1 = 5) (by decide +kernel)
  have hle := (hclaim (plainConfig 3) 7 100 _ σ .refl hr).broadcasts_le 1
  rw [of_decide_eq_true hends] at hle
  exact absurd hle (by decide)

end Rail
