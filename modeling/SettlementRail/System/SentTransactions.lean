import SettlementRail.System.Custody
import SettlementRail.System.NodeMoves

/-! The transactions that were ever accepted for a settlement, and the nonce column. -/

namespace Rail
open Foundation

/-- A node once accepted this transaction on behalf of the settlement. -/
def Node.Sent (node : Node) (id : SettlementId) (tx : Tx) : Prop :=
  ⟨.settlement id, tx⟩ ∈ node.accepted

instance (node : Node) (id : SettlementId) (tx : Tx) : Decidable (node.Sent id tx) :=
  inferInstanceAs (Decidable (_ ∈ _))

def Node.payments (node : Node) (id : SettlementId) : List Entry :=
  node.entries.filter fun e => e.success && decide (node.Sent id e.tx)

inductive Accepts (σ : State) : Event → Accepted → Prop
  | job {id : SettlementId} {v : JobVars} {reply : Option TxError}
      (hworker : σ.relayer.worker = some (id, .broadcast v)) :
      Accepts σ (.job (.sent (.accepted reply))) ⟨.settlement id, v.tx⟩
  | sweep {s : Settlement} {rest : List Settlement} {fees : Fees} {gasLimit baseUnits : ℕ}
      {reply : Option TxError} (hsweep : σ.relayer.sweep = some (.broadcast s rest fees gasLimit))
      (hunits : toBaseUnits s.amount = some baseUnits) :
      Accepts σ (.sweep (.sent (.accepted reply)))
        ⟨.settlement s.id, resendTx s fees gasLimit baseUnits⟩
  | dvp {i nonce gasLimit : ℕ} {call : Call} {rest : List Call} {fees : Fees}
      {reply : Option TxError} (hdvp : σ.dvps[i]? = some (.send nonce call rest)) :
      Accepts σ (.dvp i (.sent gasLimit fees (.accepted reply)))
        ⟨.dvp i, { nonce, gasLimit, fees, call }⟩

variable {cfg : Config} {σ σ' : State} {ev : Event} {op : DbOp} {t s : Settlement}
variable {id : SettlementId}

theorem step_accepted (h : step cfg σ ev = some σ') :
    σ'.node.accepted = σ.node.accepted ∨
      ∃ a, Accepts σ ev a ∧ σ'.node.accepted = σ.node.accepted ++ [a] := by
  have hmoves := step_node h
  generalize σ'.node = node at hmoves
  cases hmoves with
  | keep | drop | head => exact .inl rfl
  | job hworker => exact .inr ⟨_, .job hworker, rfl⟩
  | sweep hsweep hunits => exact .inr ⟨_, .sweep hsweep hunits, rfl⟩
  | dvp hdvp => exact .inr ⟨_, .dvp hdvp, rfl⟩

theorem step_sent {tx : Tx} (h : step cfg σ ev = some σ') (ht : σ'.node.Sent id tx) :
    σ.node.Sent id tx ∨ Accepts σ ev ⟨.settlement id, tx⟩ := by
  rcases step_accepted h with heq | ⟨a, ha, heq⟩ <;> rw [Node.Sent, heq] at ht
  · exact .inl ht
  · rcases List.mem_append.mp ht with ht | ht
    · exact .inl ht
    · exact .inr (List.mem_singleton.mp ht ▸ ha)

theorem step_sent_unmined {tx : Tx} (h : step cfg σ ev = some σ') (ht : σ'.node.Sent id tx) :
    σ.node.Sent id tx ∨ σ.node.minedCount ≤ tx.nonce := by
  have append : ∀ {a : Accepted}, ⟨.settlement id, tx⟩ ∈ σ.node.accepted ++ [a] →
      σ.node.accepts a.tx = true → σ.node.Sent id tx ∨ σ.node.minedCount ≤ tx.nonce := by
    intro a hmem hacc
    refine (List.mem_append.mp hmem).imp_right fun hnew => ?_
    rw [← List.mem_singleton.mp hnew] at hacc
    simp only [Node.accepts, Bool.and_eq_true, decide_eq_true_eq] at hacc
    exact hacc.1.1
  have hmoves := step_node h
  generalize σ'.node = node at hmoves ht
  cases hmoves with
  | keep | drop | head => exact .inl ht
  | job _ hacc => exact append ht hacc
  | sweep _ _ hacc => exact append ht hacc
  | dvp _ hacc => exact append ht hacc

theorem sent_mono {tx : Tx} (h : step cfg σ ev = some σ') (ht : σ.node.Sent id tx) :
    σ'.node.Sent id tx := accepted_mono h ht

theorem Writes.nonce_cases (hw : Writes σ ev op) (hs : σ.db.findById id = some s) :
    (op.onRow σ.now s).nonce = s.nonce ∨ ∃ v o, ev = .job (.written o) ∧
      σ.relayer.worker = some (id, .writeSubmitted v) ∧ (op.onRow σ.now s).nonce = some v.nonce := by
  have hid := Db.id_of_findById hs
  cases hw with
  | idle | insert | book => exact .inl rfl
  | resend => simp only [DbOp.onRow]; split_ifs <;> exact .inl rfl
  | @submitted k v o r hworker =>
    rcases onRow_transition_cases σ.now s k .submitted (submittedOptions v) with
      heq | ⟨hk, -, heq⟩ <;> rw [heq]
    · exact .inl rfl
    · exact .inr ⟨v, o, rfl, by rw [hworker, ← hk, hid], rfl⟩
  | _ =>
    rcases onRow_transition_cases _ s _ _ _ with heq | ⟨-, -, heq⟩ <;> rw [heq] <;> exact .inl rfl

/-- The row after a step: an old one changed by the committed operation, or a new one. -/
theorem step_row {s' : Settlement} (h : step cfg σ ev = some σ')
    (hs' : σ'.db.findById id = some s') : ∃ op, Writes σ ev op ∧ σ'.db = op.apply σ.now σ.db ∧
      ((∃ s, σ.db.findById id = some s ∧ s' = op.onRow σ.now s) ∨
        (σ.db.findById id = none ∧ s'.status = .received ∧ s'.nonce = none ∧ s'.txHash = none)) := by
  obtain ⟨op, hw, hdb⟩ := step_db h
  refine ⟨op, hw, hdb, ?_⟩
  rw [hdb] at hs'
  refine (findById_apply_cases hs').imp_right ?_
  rintro ⟨hnone, rfl, -⟩
  cases hw
  exact ⟨hnone, rfl, rfl, rfl⟩

structure SentInv (σ : State) : Prop where
  pays : ∀ id tx, σ.node.Sent id tx →
    ∃ s, σ.db.findById id = some s ∧ tx.call = .transfer s.toAddress s.amount
  recording : ∀ id v, σ.relayer.worker = some (id, .writeSubmitted v) → σ.node.Sent id v.tx
  resending : ∀ s rest tx, σ.relayer.sweep = some (.recordResend s rest tx) → σ.node.Sent s.id tx
  nonce : ∀ id s n, σ.db.findById id = some s → s.nonce = some n →
    ∃ tx, σ.node.Sent id tx ∧ tx.nonce = n
  hash : ∀ id s tx, σ.db.findById id = some s → s.txHash = some tx → σ.node.Sent id tx
  walkedNonce : ∀ t n, σ.Walks t → t.nonce = some n → ∃ tx, σ.node.Sent t.id tx ∧ tx.nonce = n
  walkedHash : ∀ t tx, σ.Walks t → t.txHash = some tx → σ.node.Sent t.id tx

theorem toBaseUnits_some {amount : Amount} {n : ℕ} (h : toBaseUnits amount = some n) : n = amount := by
  unfold toBaseUnits at h
  split_ifs at h
  exact (Option.some.inj h).symm

theorem walks_of_sweep {pc : SweepPc} (hsweep : σ.relayer.sweep = some pc) (ht : t ∈ pc.rows) :
    σ.Walks t := .sweep (by rwa [hsweep])

theorem Accepts.pays {tx : Tx} (ha : Accepts σ ev ⟨.settlement id, tx⟩) (hc : Custody σ) :
    ∃ s, σ.db.findById id = some s ∧ tx.call = .transfer s.toAddress s.amount := by
  cases ha with
  | @job _ v _ hworker =>
    obtain ⟨hid, hunits⟩ := hc.worker id _ v hworker rfl
    obtain ⟨s, hs, -, hamount, hto, -⟩ := (hc.carried _ (.job hworker rfl)).row
    rw [hid] at hs
    exact ⟨s, hs, by rw [JobVars.tx, toBaseUnits_some hunits, hamount, hto]⟩
  | @sweep t rest fees gasLimit baseUnits reply hsweep hunits =>
    have ht := walks_of_sweep hsweep (t := t) (by simp [SweepPc.rows])
    obtain ⟨s, hs, -, hamount, hto, -⟩ := (hc.carried t (.walk ht)).row
    exact ⟨s, hs, by rw [resendTx, toBaseUnits_some hunits, hamount, hto]⟩

theorem Writes.hash_cases (hw : Writes σ ev op) (hs : σ.db.findById id = some s) :
    (op.onRow σ.now s).txHash = s.txHash ∨
      (∃ v, σ.relayer.worker = some (id, .writeSubmitted v) ∧
        (op.onRow σ.now s).txHash = some v.tx) ∨
      (∃ t rest tx, σ.relayer.sweep = some (.recordResend t rest tx) ∧ t.id = id ∧
        (op.onRow σ.now s).txHash = some tx) ∨
      ∃ t, σ.Walks t ∧ t.id = id ∧ (op.onRow σ.now s).txHash = t.txHash := by
  have hid := Db.id_of_findById hs
  cases hw with
  | idle | insert | book => exact .inl rfl
  | @resend t rest tx o r hsweep =>
    simp only [DbOp.onRow]
    split_ifs with hk
    · exact .inr (.inr (.inl ⟨t, rest, tx, hsweep, hk.symm.trans hid, rfl⟩))
    · exact .inl rfl
  | @submitted k v o r hworker =>
    rcases onRow_transition_cases σ.now s k .submitted (submittedOptions v) with
      heq | ⟨hk, -, heq⟩ <;> rw [heq]
    · exact .inl rfl
    · exact .inr (.inl ⟨v, by rw [hworker, ← hk, hid], rfl⟩)
  | @confirm i call t receipt head rest o r hcall hpc =>
    rcases onRow_transition_cases σ.now s t.id .confirmed (confirmOptions t receipt) with
      heq | ⟨hk, -, heq⟩ <;> rw [heq]
    · exact .inl rfl
    · have ht : σ.Walks t := .listener (List.mem_of_getElem? hcall) (by simp [hpc, ListenPc.rows])
      exact .inr (.inr (.inr ⟨t, ht, hk.symm.trans hid, rfl⟩))
  | @flip i call t receipt head rest o r hcall hpc =>
    rcases onRow_transition_cases σ.now s t.id .final (finalOptions t) with
      heq | ⟨hk, -, heq⟩ <;> rw [heq]
    · exact .inl rfl
    · have ht : σ.Walks t := .listener (List.mem_of_getElem? hcall) (by simp [hpc, ListenPc.rows])
      exact .inr (.inr (.inr ⟨t, ht, hk.symm.trans hid, rfl⟩))
  | _ =>
    rcases onRow_transition_cases _ s _ _ _ with heq | ⟨-, -, heq⟩ <;> rw [heq] <;> exact .inl rfl

theorem sentInv_recording (hI : SentInv σ) (h : step cfg σ ev = some σ') {v : JobVars}
    (hworker : σ'.relayer.worker = some (id, .writeSubmitted v)) : σ'.node.Sent id v.tx := by
  rcases step_worker h hworker with hfind | hworker₀ | ⟨pc, e, rfl, hworker₀, -⟩
  · cases hfind
  · exact sent_mono h (hI.recording id v hworker₀)
  · cases stepsTo h with
    | @job k pc₁ e out hk hout =>
      rw [hworker₀] at hk
      cases hk
      rcases hpc : out.pc with _ | pc'
      · simp only [State.afterJob, hpc, Option.isSome_none, Bool.false_eq_true, if_false] at hworker
        cases Relayer.worker_runWorker hworker
      · simp only [State.afterJob, hpc, Option.isSome_some, if_true, Option.map_some] at hworker
        cases hworker
        obtain ⟨-, hnode⟩ := jobStep_recording hout hpc
        simp [Node.Sent, State.afterJob, hnode, NodeOp.apply, Node.accept]

theorem sentInv_resending (hI : SentInv σ) (h : step cfg σ ev = some σ') {rest : List Settlement}
    {tx : Tx} (hsweep : σ'.relayer.sweep = some (.recordResend s rest tx)) :
    σ'.node.Sent s.id tx := by
  have hold : σ.relayer.sweep = some (.recordResend s rest tx) → σ'.node.Sent s.id tx := fun hsweep =>
    sent_mono h (hI.resending s rest tx hsweep)
  cases stepsTo h with
  | sweep _ hout =>
    have hnode := sweepStep_recordResend hout hsweep
    simp [Node.Sent, State.afterSweep, hnode, NodeOp.apply, Node.accept]
  | @create i e call out hcall hout =>
    simp only [State.afterCreate] at hsweep
    rcases henq : out.enqueue with _ | k <;> rw [henq] at hsweep
    · exact hold hsweep
    · exact hold (by rwa [Option.elim, Relayer.sweep_enqueueId] at hsweep)
  | job hworker hout =>
    simp only [State.afterJob] at hsweep
    split_ifs at hsweep
    · exact hold hsweep
    · exact hold (by rwa [Relayer.sweep_runWorker] at hsweep)
  | @recover e out hout =>
    rw [State.afterRecovery, (Relayer.frame_foldl_enqueueId out.requeue).2.1] at hsweep
    exact hold hsweep
  | crash | startSweep => cases hsweep
  | _ => exact hold hsweep

theorem sentInv_step (hc : Custody σ) (hI : SentInv σ) (h : step cfg σ ev = some σ') : SentInv σ' := by
  have hmono : ∀ {id tx}, σ.node.Sent id tx → σ'.node.Sent id tx := sent_mono h
  refine ⟨fun id tx ht => ?_, fun _ _ hworker => sentInv_recording hI h hworker,
    fun _ _ _ hsweep => sentInv_resending hI h hsweep, fun id s' n hs' hn => ?_,
    fun id s' tx hs' htx => ?_, fun t n ht hn => ?_, fun t tx ht htx => ?_⟩
  · have hpays : ∃ s, σ.db.findById id = some s ∧ tx.call = .transfer s.toAddress s.amount :=
      (step_sent h ht).elim (hI.pays id tx) fun ha => ha.pays hc
    obtain ⟨s, hs, hcall⟩ := hpays
    obtain ⟨op, -, hdb⟩ := step_db h
    exact ⟨_, hdb ▸ findById_apply hs, by rw [onRow_toAddress, onRow_amount, hcall]⟩
  · obtain ⟨op, hw, hdb, ⟨s, hs, rfl⟩ | ⟨-, -, hnone, -⟩⟩ := step_row h hs'
    · rcases hw.nonce_cases hs with heq | ⟨v, o, -, hworker, heq⟩ <;> rw [heq] at hn
      · obtain ⟨tx, ht, htn⟩ := hI.nonce id s n hs hn
        exact ⟨tx, hmono ht, htn⟩
      · exact ⟨v.tx, hmono (hI.recording id v hworker), Option.some.inj hn⟩
    · simp [hnone] at hn
  · obtain ⟨op, hw, hdb, ⟨s, hs, rfl⟩ | ⟨-, -, -, hnone⟩⟩ := step_row h hs'
    · rcases hw.hash_cases hs with heq | ⟨v, hworker, heq⟩ | ⟨t, rest, r, hsweep, rfl, heq⟩ |
        ⟨t, ht, rfl, heq⟩ <;> rw [heq] at htx
      · exact hmono (hI.hash id s tx hs htx)
      · exact Option.some.inj htx ▸ hmono (hI.recording id v hworker)
      · exact Option.some.inj htx ▸ hmono (hI.resending t rest r hsweep)
      · exact hmono (hI.walkedHash t tx ht htx)
    · simp [hnone] at htx
  · rcases step_walks h ht with ht | ⟨hrow, -⟩
    · obtain ⟨tx, ht, htn⟩ := hI.walkedNonce t n ht hn
      exact ⟨tx, hmono ht, htn⟩
    · obtain ⟨tx, ht, htn⟩ := hI.nonce _ t n hrow hn
      exact ⟨tx, hmono ht, htn⟩
  · rcases step_walks h ht with ht | ⟨hrow, -⟩
    · exact hmono (hI.walkedHash t tx ht htx)
    · exact hmono (hI.hash _ t tx hrow htx)

theorem sentInv_initial (cfg : Config) (base opening : ℕ) : SentInv (initial cfg base opening) where
  pays _ _ ht := by cases ht
  recording _ _ hworker := by cases hworker
  resending _ _ _ hsweep := by cases hsweep
  nonce _ _ _ hs hn := by
    rw [(findById_initial hs).1] at hn
    cases hn
  hash _ _ _ hs htx := by
    rw [(findById_initial hs).1] at htx
    cases htx
  walkedNonce _ _ ht := absurd ht (not_walks_initial cfg base opening)
  walkedHash _ _ ht := absurd ht (not_walks_initial cfg base opening)

theorem sentInv_reach {C : State → Event → Prop} {base opening : ℕ}
    (h : RailReach cfg C base opening σ) : SentInv σ :=
  h.invariant (sentInv_initial cfg base opening)
    fun _ _ _ hr hI _ hs => sentInv_step (custody_reach hr) hI hs

end Rail
