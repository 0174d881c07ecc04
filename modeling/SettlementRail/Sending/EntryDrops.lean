import SettlementRail.Sending.InflightTracking
import SettlementRail.System.SentTransactions

/-! Why an entry leaves the inflight map in a run without errors, and how a row comes to be in
SUBMITTED. -/

namespace Rail
open Foundation

def RecoveryPc.before (id : SettlementId) (pc : RecoveryPc) : Prop :=
  pc = .fetchNonce ∨ pc = .find ∨ id ∈ pc.rows.map Settlement.id

def Relayer.failing (r : Relayer) (id : SettlementId) : Prop :=
  ∃ s rest reason retryCount, r.sweep = some (.fail s rest reason retryCount) ∧ s.id = id

variable {cfg : Config} {σ σ' : State} {ev : Event} {id k : SettlementId} {s s' t : Settlement}
variable {inflight : Inflight} {info : InflightTx}

namespace Inflight

theorem get_isSome : (inflight.get id).isSome = true ↔
    ∃ info ∈ inflight, info.settlementId = id := by
  rw [get, List.find?_isSome]
  simp only [decide_eq_true_eq]

theorem get_delete : ((inflight.delete k).get id).isSome = true ↔
    (inflight.get id).isSome = true ∧ id ≠ k := by
  rw [get_isSome, get_isSome]
  constructor
  · rintro ⟨info, hi, rfl⟩
    obtain ⟨hi, hne⟩ := mem_delete.mp hi
    exact ⟨⟨info, hi, rfl⟩, hne⟩
  · rintro ⟨⟨info, hi, rfl⟩, hne⟩
    exact ⟨info, mem_delete.mpr ⟨hi, hne⟩, rfl⟩

theorem get_set_self (inflight : Inflight) (info : InflightTx) :
    ((inflight.set info).get info.settlementId).isSome = true :=
  get_isSome.mpr ⟨info, mem_set.mpr (.inr rfl), rfl⟩

theorem get_set_of (info : InflightTx) (h : (inflight.get id).isSome = true) :
    ((inflight.set info).get id).isSome = true := by
  obtain ⟨old, hold, rfl⟩ := get_isSome.mp h
  by_cases heq : old.settlementId = info.settlementId
  · rw [heq]
    exact get_set_self inflight info
  · exact get_isSome.mpr ⟨old, mem_set.mpr (.inl ⟨hold, heq⟩), rfl⟩

end Inflight

theorem convertible_step (hc : Custody σ) (h : step cfg σ ev = some σ')
    (hI : ∀ id tx, σ.node.Sent id tx →
      ∃ s, σ.db.findById id = some s ∧ (toBaseUnits s.amount).isSome = true)
    (id : SettlementId) (tx : Tx) (ht : σ'.node.Sent id tx) :
    ∃ s, σ'.db.findById id = some s ∧ (toBaseUnits s.amount).isSome = true := by
  have hbefore : ∃ s, σ.db.findById id = some s ∧ (toBaseUnits s.amount).isSome = true := by
    rcases step_sent h ht with hold | hnew
    · exact hI id tx hold
    · cases hnew with
      | @job _ v _ hworker =>
        obtain ⟨hid, hunits⟩ := hc.worker id _ v hworker rfl
        obtain ⟨s, hs, -, hamount, -⟩ := (hc.carried _ (.job hworker rfl)).row
        rw [hid] at hs
        exact ⟨s, hs, by rw [hamount, hunits]; rfl⟩
      | @sweep t rest fees gasLimit baseUnits reply hsweep hunits =>
        have ht := walks_of_sweep hsweep (t := t) (by simp [SweepPc.rows])
        obtain ⟨s, hs, -, hamount, -⟩ := (hc.carried t (.walk ht)).row
        exact ⟨s, hs, by rw [hamount, hunits]; rfl⟩
  obtain ⟨s, hs, hunits⟩ := hbefore
  obtain ⟨op, -, hdb⟩ := step_db h
  exact ⟨_, hdb ▸ findById_apply hs, by rwa [onRow_amount]⟩

theorem convertible_reach {C : State → Event → Prop} {base opening : ℕ}
    (h : RailReach cfg C base opening σ) (id : SettlementId) (tx : Tx) (ht : σ.node.Sent id tx) :
    ∃ s, σ.db.findById id = some s ∧ (toBaseUnits s.amount).isSome = true := by
  revert id tx
  refine h.invariant (fun id tx ht => absurd ht List.not_mem_nil)
    fun _ _ _ hr hI _ hs => convertible_step (custody_reach hr) hs hI

theorem convertible_walked {C : State → Event → Prop} {base opening : ℕ}
    (h : RailReach cfg C base opening σ) (ht : t ∈ SweepPc.rowsOf σ.relayer.sweep) :
    (toBaseUnits t.amount).isSome = true := by
  have hc := custody_reach h
  obtain ⟨-, htx⟩ := hc.walked t (.sweep ht)
  obtain ⟨tx, htx⟩ := Option.isSome_iff_exists.mp htx
  obtain ⟨s, hs, hunits⟩ :=
    convertible_reach h t.id tx ((sentInv_reach h).walkedHash t tx (.sweep ht) htx)
  obtain ⟨r, hr, -, hamount, -⟩ := (hc.carried t (.walk (.sweep ht))).row
  obtain rfl := Option.some.inj (hs.symm.trans hr)
  rwa [← hamount]

theorem submitted_before (h : step cfg σ ev = some σ') (hs' : σ'.db.findById id = some s')
    (hstatus : s'.status = .submitted) : σ.storing ev = some id ∨
      (σ.storing ev ≠ some id ∧
        ∃ s, σ.db.findById id = some s ∧ s.status = .submitted ∧ s.txHash = s'.txHash) := by
  by_cases hstores : σ.storing ev = some id
  · exact .inl hstores
  refine .inr ⟨hstores, ?_⟩
  obtain ⟨op, hw, -, ⟨s, hs, rfl⟩ | ⟨-, hreceived, -⟩⟩ := step_row h hs'
  · have hid := Db.id_of_findById hs
    have same : op.onRow σ.now s = s → ∃ s₀, σ.db.findById id = some s₀ ∧
        s₀.status = .submitted ∧ s₀.txHash = (op.onRow σ.now s).txHash := fun heq =>
      ⟨s, hs, heq ▸ hstatus, by rw [heq]⟩
    cases hw with
    | idle | insert | book => exact same rfl
    | @submitted j v o r hworker hrow ho =>
      refine same (onRow_of_ne fun hj => hstores ?_)
      simp only [State.storing, hworker, ho, if_true]
      rw [← hj, hid]
    | @resend t rest tx o r hsweep hrow ho =>
      refine same (if_neg fun hj => hstores ?_)
      simp only [State.storing, hsweep, ho, if_true]
      rw [← hj, hid]
    | @reorg i call t head rest o r hcall hpc hrow ho =>
      rcases onRow_transition_cases σ.now s t.id .submitted reorgOptions with heq | ⟨hj, hallows, -⟩
      · exact same heq
      · refine absurd ?_ hstores
        have hfound : σ.db.findById t.id = some s := by rw [← hj, hid, hs]
        simp only [State.storing, hcall, Option.map_some, hpc, ho, hfound, Option.any_some, hallows,
          Bool.and_self, if_true]
        rw [← hj, hid]
    | reject | approve | jobFail | sweepFail | recoveryFail | revert | confirm | flip =>
      rcases onRow_transition_cases σ.now s _ _ _ with heq | ⟨-, -, heq⟩
      · exact same heq
      · rw [heq] at hstatus
        cases hstatus
  · rw [hreceived] at hstatus
    cases hstatus

theorem not_submitted_of_failed {db : Db} {now : ℕ} {reason : String} {retryCount : ℕ}
    (hs' : (DbOp.apply now db (.transition id .failed (failOptions reason retryCount))).findById id
      = some s') : s'.status ≠ .submitted := by
  rcases findById_apply_cases hs' with ⟨s, hs, rfl⟩ | ⟨-, hop, -⟩
  · rw [onRow_transition_of (Db.id_of_findById hs) rfl]
    exact fun h => by cases h
  · cases hop

theorem hasReceipt_congr (node : Node) (h : s.txHash = s'.txHash) :
    node.hasReceipt s = node.hasReceipt s' := by
  rw [Node.hasReceipt, Node.hasReceipt, h]

inductive Dropped (σ : State) (ev : Event) (σ' : State) (id : SettlementId) : Prop
  | mined {t : Settlement} {rest : List Settlement} (hev : ev = .sweep .receipt)
      (hsweep : σ.relayer.sweep = some (.receipt t rest)) (hid : t.id = id)
      (hmined : σ.node.hasReceipt t = true)
  | failing (hev : ev = .sweep .receipt) (h : σ'.relayer.failing id)
  | failed {reason : String} {retryCount : ℕ}
      (hdb : σ'.db = DbOp.apply σ.now σ.db (.transition id .failed (failOptions reason retryCount)))
  | reverted (hev : ev = .recover .receipt) (h : σ'.relayer.recovery.before id)

theorem errorFree_job_sent {o : SendOutcome} (h : (Event.job (.sent o)).errorFree = true) :
    o = .accepted none := by
  simpa only [Event.errorFree, decide_eq_true_eq] using h

theorem errorFree_sweep_sent {o : SendOutcome} (h : (Event.sweep (.sent o)).errorFree = true) :
    o = .accepted none := by
  simpa only [Event.errorFree, decide_eq_true_eq] using h

theorem errorFree_job_written {o : DbOutcome TxError}
    (h : (Event.job (.written o)).errorFree = true) : o = .ok := by
  cases o with
  | ok => rfl
  | lost | ambiguous => cases h

theorem errorFree_sweep_written {o : DbOutcome TxError}
    (h : (Event.sweep (.written o)).errorFree = true) : o = .ok := by
  cases o with
  | ok => rfl
  | lost | ambiguous => cases h

theorem jobStep_tracked {rcfg : RelayerConfig} {db : Db} {node : Node} {now localNonce : ℕ}
    {pc : JobPc} {e : JobEvent} {out : JobOut} (hclean : (Event.job e).errorFree = true)
    (hout : jobStep rcfg db node now localNonce inflight k pc e = some out)
    (hid : (inflight.get id).isSome = true) : (out.inflight.get id).isSome = true := by
  cases pc <;> cases e <;> simp only [jobStep, reduceCtorEq] at hout
  case find.found =>
    repeat' split at hout
    all_goals cases hout; exact hid
  case broadcast.sent v outcome =>
    obtain rfl := errorFree_job_sent hclean
    simp only at hout
    split_ifs at hout
    cases hout
    exact Inflight.get_set_of _ hid
  case writeSubmitted.written v outcome =>
    obtain rfl := errorFree_job_written hclean
    split_ifs at hout
    cases hout
    exact hid
  case fail.written v reason outcome =>
    split_ifs at hout
    cases hout
    exact hid
  case resync.counted => split_ifs at hout <;> cases hout <;> exact hid
  all_goals cases hout; exact hid

inductive SweepClean (σ : State) (pc : SweepPc) : SweepEvent → SweepOut → Prop
  | found (hpc : pc = .find) : SweepClean σ pc .found
      { pc := sweepNext (σ.db.findByStatuses [.submitted]), inflight := σ.relayer.inflight }
  | mined {t : Settlement} {rest : List Settlement} (hpc : pc = .receipt t rest)
      (hmined : σ.node.hasReceipt t = true) : SweepClean σ pc .receipt
        { pc := sweepNext rest, inflight := σ.relayer.inflight.delete t.id }
  | waits {t : Settlement} {rest : List Settlement} (hpc : pc = .receipt t rest)
      (hmined : σ.node.hasReceipt t = false) : SweepClean σ pc .receipt
        { pc := sweepNext rest, inflight := σ.relayer.inflight }
  | givesUp {t : Settlement} {rest : List Settlement} {reason : String} {retryCount : ℕ}
      (hpc : pc = .receipt t rest) : SweepClean σ pc .receipt
        { pc := some (.fail t rest reason retryCount), inflight := σ.relayer.inflight.delete t.id }
  | stays {e : SweepEvent} {out : SweepOut} {t : Settlement} {rest : List Settlement}
      {pc' : SweepPc} (hrows : pc.rows = t :: rest) (hpc : out.pc = some pc')
      (hrows' : pc'.rows = t :: rest) (hdb : out.db = .none)
      (hkept : ∀ id, (σ.relayer.inflight.get id).isSome = true →
        (out.inflight.get id).isSome = true)
      (hnot : ∀ s rest reason retryCount, pc ≠ .fail s rest reason retryCount) :
      SweepClean σ pc e out
  | recorded {t : Settlement} {rest : List Settlement} {tx : Tx}
      (hpc : pc = .recordResend t rest tx) : SweepClean σ pc (.written .ok)
        { pc := sweepNext rest, db := .recordResend t.id tx (t.retryCount + 1)
          inflight := σ.relayer.inflight }
  | failed {t : Settlement} {rest : List Settlement} {reason : String} {retryCount : ℕ}
      (hpc : pc = .fail t rest reason retryCount) : SweepClean σ pc (.written .ok)
        { pc := sweepNext rest
          db := .transition t.id .failed (failOptions reason retryCount)
          inflight := failedInflight t reason σ.relayer.inflight .ok }

theorem sweepStep_clean {pc : SweepPc} {e : SweepEvent} {out : SweepOut}
    (hclean : (Event.sweep e).errorFree = true)
    (hunits : ∀ t ∈ pc.rows, (toBaseUnits t.amount).isSome = true)
    (hout : sweepStep cfg.relayer σ.db σ.node σ.now σ.relayer.inflight pc e = some out) :
    SweepClean σ pc e out := by
  cases pc <;> cases e <;> simp only [sweepStep, reduceCtorEq] at hout
  case find.found => cases hout; exact .found rfl
  case receipt.receipt t rest =>
    split_ifs at hout with hmined hstuck <;> cases hout
    · exact .mined rfl hmined
    · unfold sweepStuck
      split_ifs
      · exact .givesUp rfl
      · split <;> exact .stays rfl rfl rfl rfl (fun _ h => h) (fun _ _ _ _ h => by cases h)
    · exact .waits rfl (Bool.not_eq_true _ ▸ hmined)
  case feesFromTx.txLookup =>
    split at hout <;> cases hout <;>
      exact .stays rfl rfl rfl rfl (fun _ h => h) (fun _ _ _ _ h => by cases h)
  case buildFees.feeData =>
    cases hout
    exact .stays rfl rfl rfl rfl (fun _ h => h) (fun _ _ _ _ h => by cases h)
  case estimateGas.estimated t rest fees est =>
    obtain ⟨units, hunits⟩ := Option.isSome_iff_exists.mp (hunits t List.mem_cons_self)
    rw [hunits] at hout
    cases hout
    exact .stays rfl rfl rfl rfl (fun _ h => h) (fun _ _ _ _ h => by cases h)
  case broadcast.sent t rest fees gasLimit outcome =>
    obtain rfl := errorFree_sweep_sent hclean
    simp only at hout
    split at hout
    · cases hout
    · split_ifs at hout
      cases hout
      exact .stays rfl rfl rfl rfl (fun _ h => Inflight.get_set_of _ h)
        (fun _ _ _ _ h => by cases h)
  case recordResend.written t rest tx outcome =>
    obtain rfl := errorFree_sweep_written hclean
    split_ifs at hout
    cases hout
    exact .recorded rfl
  case fail.written t rest reason retryCount outcome =>
    obtain rfl := errorFree_sweep_written hclean
    split_ifs at hout
    cases hout
    exact .failed rfl
  all_goals cases hclean

theorem entry_step (hclean : ev.errorFree = true) (hno : ev ≠ .crash)
    (hunits : ∀ t ∈ SweepPc.rowsOf σ.relayer.sweep, (toBaseUnits t.amount).isSome = true)
    (h : step cfg σ ev = some σ') (hid : σ.tracked id = true) :
    σ'.tracked id = true ∨ Dropped σ ev σ' id := by
  cases stepsTo h with
  | @create i e call out hcall hout =>
    left
    simp only [State.tracked, State.afterCreate]
    rcases out.enqueue with _ | j
    · exact hid
    · rw [Option.elim, Relayer.inflight_enqueueId]
      exact hid
  | @job j pc e out hworker hout =>
    left
    have hkept := jobStep_tracked hclean hout hid
    simp only [State.tracked, State.afterJob]
    split_ifs
    · exact hkept
    · rw [Relayer.inflight_runWorker]
      exact hkept
  | @sweep pc e out hsweep hout =>
    rw [hsweep] at hunits
    have deleted : ∀ {t : Settlement}, t.id ≠ id →
        ((σ.relayer.inflight.delete t.id).get id).isSome = true := fun hne =>
      Inflight.get_delete.mpr ⟨hid, Ne.symm hne⟩
    cases sweepStep_clean hclean hunits hout with
    | found | waits | recorded => exact .inl hid
    | stays _ _ _ _ hkept => exact .inl (hkept id hid)
    | @mined t rest hpc hmined =>
      by_cases ht : t.id = id
      · exact .inr (.mined rfl (hpc ▸ hsweep) ht hmined)
      · exact .inl (deleted ht)
    | @givesUp t rest reason retryCount hpc =>
      by_cases ht : t.id = id
      · exact .inr (.failing rfl ⟨t, rest, reason, retryCount, rfl, ht⟩)
      · exact .inl (deleted ht)
    | @failed t rest reason retryCount hpc =>
      by_cases ht : t.id = id
      · exact .inr (.failed (by rw [← ht]; rfl))
      · left
        show ((failedInflight t reason σ.relayer.inflight .ok).get id).isSome = true
        unfold failedInflight
        split_ifs
        · exact deleted ht
        · exact hid
  | @recover e out hout =>
    have hinflight : (σ.afterRecovery out).relayer.inflight = out.inflight :=
      Relayer.inflight_foldl_enqueueId out.requeue
    rw [State.tracked, hinflight]
    have hrecovery : (σ.afterRecovery out).relayer.recovery = out.pc :=
      (Relayer.frame_foldl_enqueueId out.requeue).2.2
    generalize hpc : σ.relayer.recovery = pc at hout
    cases pc <;> cases e <;> simp only [recoveryStep, reduceCtorEq] at hout
    case receipt.receipt t rest =>
      split at hout
      · split_ifs at hout <;> cases hout
        · exact .inl hid
        · by_cases ht : t.id = id
          · refine .inr (.reverted rfl (.inr (.inr ?_)))
            rw [hrecovery, ← ht]
            exact List.mem_map_of_mem List.mem_cons_self
          · exact .inl (Inflight.get_delete.mpr ⟨hid, Ne.symm ht⟩)
      · cases hout
        exact .inl hid
    case fail.written =>
      split_ifs at hout
      cases hout
      exact .inl hid
    case getTransaction.txLookup =>
      split at hout <;> cases hout
      · exact .inl (Inflight.get_set_of _ hid)
      · exact .inl hid
    all_goals cases hout; exact .inl hid
  | crash => exact absurd rfl hno
  | _ => exact .inl hid

end Rail
