import SettlementRail.System.AwaitedWrites
import SettlementRail.System.Scenario
import SettlementRail.System.SentTransactions

/-! What FAILED says about payment. The sweep gives up a transaction that is still pending, so
FAILED alone does not mean unpaid; but nothing is sent for the settlement any more under a new
nonce, and a nonce that is used for good settles the matter. -/

namespace Rail
open Foundation

def State.isFailed (σ : State) (id : SettlementId) : Prop :=
  ∃ s ∈ σ.db.findById id, s.status = .failed

instance (σ : State) (id : SettlementId) : Decidable (σ.isFailed id) :=
  inferInstanceAs (Decidable (∃ _ ∈ _, _))

def State.Unsent (σ : State) (id : SettlementId) : Prop :=
  ∀ pc, σ.relayer.worker = some (id, pc) → pc.sending = none

def Node.finalEntries (node : Node) (depth : ℕ) : List Entry :=
  chainEntries Block.entries (settled depth node.chain)

/-- A new head replaces blocks above the final depth only and is not lower than the old one. -/
def KeepsFinal (cfg : Config) (_ : State) : Event → Prop
  | .newHead drop blocks => drop < cfg.listener.confirmationsFinal ∧ drop ≤ blocks.length
  | _ => True

instance (cfg : Config) (σ : State) : DecidablePred (KeepsFinal cfg σ)
  | .newHead _ _ => inferInstanceAs (Decidable (_ ∧ _))
  | .boot | .crash | .drain | .tick _ | .submit _ | .create _ _ | .job _ | .startSweep | .sweep _
  | .recover _ | .startPoll | .transferEvent _ | .listen _ _ | .dvpCall _ | .dvp _ _
  | .dropTx _ => .isTrue trivial

variable {cfg : Config} {σ σ' : State} {ev : Event} {op : DbOp} {s : Settlement}
variable {id : SettlementId}

theorem Writes.failed_stays (hw : Writes σ ev op) (hc : Custody σ) (hjob : σ.Unsent id)
    (hs : σ.db.findById id = some s) (hfailed : s.status = .failed) :
    (op.onRow σ.now s).status = .failed := by
  have received : ∀ {i : ℕ} {call : CreateCall}, σ.creates[i]? = some call →
      call.pc.held = some id → False := by
    intro i call hcall hheld
    obtain ⟨r, hr, hrec⟩ := hc.held call (List.mem_of_getElem? hcall) id hheld
    rw [hs] at hr
    rw [Option.some.inj hr, hrec] at hfailed
    cases hfailed
  have hid := Db.id_of_findById hs
  cases hw with
  | idle | insert | book => exact hfailed
  | resend => simp only [DbOp.onRow]; split_ifs <;> exact hfailed
  | reject hcall hpc =>
    rcases onRow_transition_cases σ.now s _ _ _ with heq | ⟨hk, -, -⟩
    · rw [heq]
      exact hfailed
    · exact (received hcall (by rw [hpc, ← hid, hk]; rfl)).elim
  | approve hcall hpc =>
    rcases onRow_transition_cases σ.now s _ _ _ with heq | ⟨hk, -, -⟩
    · rw [heq]
      exact hfailed
    · exact (received hcall (by rw [hpc, ← hid, hk]; rfl)).elim
  | submitted hworker =>
    rcases onRow_transition_cases σ.now s _ _ _ with heq | ⟨hk, -, -⟩
    · rw [heq]
      exact hfailed
    · rw [← hk, hid] at hworker
      cases hjob _ hworker
  | jobFail | sweepFail | recoveryFail | revert =>
    rcases onRow_transition_cases σ.now s _ _ _ with heq | ⟨-, -, heq⟩ <;> rw [heq]
    · exact hfailed
    · rfl
  | reorg | confirm | flip =>
    rcases onRow_transition_cases σ.now s _ _ _ with heq | ⟨-, hallow, -⟩
    · rw [heq]
      exact hfailed
    · simp [TransitionOptions.allows, reorgOptions, confirmOptions, finalOptions, openFrom,
        hfailed] at hallow

theorem failed_step (hc : Custody σ) (hfailed : σ.isFailed id) (hjob : σ.Unsent id)
    (h : step cfg σ ev = some σ') : σ'.isFailed id := by
  obtain ⟨s, hs, hst⟩ := hfailed
  obtain ⟨op, hw, hdb⟩ := step_db h
  exact ⟨_, hdb ▸ findById_apply hs, hw.failed_stays hc hjob hs hst⟩

theorem unsent_step (hfailed : σ.isFailed id) (hjob : σ.Unsent id)
    (h : step cfg σ ev = some σ') : σ'.Unsent id := by
  obtain ⟨s, hs, hst⟩ := hfailed
  intro pc' hworker'
  rcases step_worker h hworker' with rfl | hworker | ⟨pc, e, rfl, hworker, hmoves⟩
  · rfl
  · exact hjob pc' hworker
  · have hnone := hjob pc hworker
    generalize σ'.relayer.localNonce = localNonce at hmoves
    cases hmoves with
    | start hrow hstatus =>
      rw [hs] at hrow
      cases hrow
      simp [hst] at hstatus
    | advance hv => rw [hnone] at hv; cases hv
    | sent => cases hnone
    | resync => cases hnone

theorem sent_nonce_step (hsent : SentInv σ) (hc : Custody σ) (hjob : σ.Unsent id)
    (h : step cfg σ ev = some σ') {tx : Tx} (ht : σ'.node.Sent id tx) :
    ∃ tx₀, σ.node.Sent id tx₀ ∧ tx₀.nonce = tx.nonce := by
  rcases step_sent h ht with hold | ha
  · exact ⟨tx, hold, rfl⟩
  · cases ha with
    | job hworker => cases hjob _ hworker
    | @sweep t rest fees gasLimit baseUnits reply hsweep =>
      have ht := walks_of_sweep hsweep (t := t) (by simp [SweepPc.rows])
      obtain ⟨n, hn⟩ := Option.isSome_iff_exists.mp (hc.walked t ht).1
      obtain ⟨tx₀, hsent₀, hnonce⟩ := hsent.walkedNonce t n ht hn
      exact ⟨tx₀, hsent₀, by simp [resendTx, hn, hnonce]⟩

structure Node.Beyond (node : Node) (depth : ℕ) (part : List Block) : Prop where
  onChain : part <+: node.chain
  deep : part = [] ∨ part.length + depth ≤ node.chain.length + 1

theorem beyond_step {part : List Block}
    (hpart : σ.node.Beyond cfg.listener.confirmationsFinal part) (hk : KeepsFinal cfg σ ev)
    (h : step cfg σ ev = some σ') : σ'.node.Beyond cfg.listener.confirmationsFinal part := by
  have hmoves := step_node h
  generalize σ'.node = node at hmoves
  cases hmoves with
  | @head drop blocks =>
    obtain ⟨hdrop, hhigh⟩ : drop < cfg.listener.confirmationsFinal ∧ drop ≤ blocks.length := hk
    refine ⟨?_, hpart.deep.imp_right fun hdeep => ?_⟩
    · rcases hpart.deep with rfl | hdeep
      · exact List.nil_prefix
      · exact prefix_newHead hpart.onChain (by omega)
    · simp only [Node.withHead, newHead, List.length_append, List.length_take]
      omega
  | _ => exact ⟨hpart.onChain, hpart.deep⟩

structure FailedSince (cfg : Config) (σ₀ : State) (id : SettlementId) (σ : State) : Prop where
  failed : σ.isFailed id
  unsent : σ.Unsent id
  nonces : ∀ tx, σ.node.Sent id tx → ∃ tx₀, σ₀.node.Sent id tx₀ ∧ tx₀.nonce = tx.nonce
  final : σ.node.Beyond cfg.listener.confirmationsFinal
    (settled cfg.listener.confirmationsFinal σ₀.node.chain)
  old : ∀ tx, σ.node.Sent id tx →
    (∃ e ∈ σ₀.node.finalEntries cfg.listener.confirmationsFinal, e.nonce = tx.nonce) →
      σ₀.node.Sent id tx

theorem failedSince_reach {base opening : ℕ} {σ₀ : State}
    (h₀ : Reach (step cfg) (initial cfg base opening) σ₀) (hfailed : σ₀.isFailed id)
    (hjob : σ₀.Unsent id) (h : ReachUnder (step cfg) (KeepsFinal cfg) σ₀ σ) :
    FailedSince cfg σ₀ id σ := by
  have hpos : 0 < cfg.listener.confirmationsFinal :=
    Nat.lt_of_lt_of_le cfg.listener.confirmed_pos cfg.listener.confirmed_le_final
  refine h.invariant ⟨hfailed, hjob, fun tx ht => ⟨tx, ht, rfl⟩,
    ⟨settled_isPrefix _ _, length_settled hpos⟩, fun tx ht _ => ht⟩ ?_
  intro σ ev σ' hr hI hk hs
  have hreach : Reach (step cfg) (initial cfg base opening) σ := h₀.trans hr.reach
  have hc := custody_reach hreach
  refine ⟨failed_step hc hI.failed hI.unsent hs, unsent_step hI.failed hI.unsent hs, ?_,
    beyond_step hI.final hk hs, ?_⟩
  · intro tx ht
    obtain ⟨tx₁, ht₁, hnonce₁⟩ := sent_nonce_step (sentInv_reach hreach) hc hI.unsent hs ht
    obtain ⟨tx₀, ht₀, hnonce₀⟩ := hI.nonces tx₁ ht₁
    exact ⟨tx₀, ht₀, hnonce₀.trans hnonce₁⟩
  · intro tx ht hused
    rcases step_sent_unmined hs ht with hold | hunmined
    · exact hI.old tx hold hused
    · obtain ⟨e, he, hnonce⟩ := hused
      have hmem := mem_chainEntries_of_partial hI.final.onChain he
      have hlt : e.nonce < σ.node.minedCount := (nodeInv_reach hreach).sequential.number_lt hmem
      omega

theorem FailedSince.paid_before {σ₀ : State} (hI : FailedSince cfg σ₀ id σ) (hnode : NodeInv σ.node)
    {e : Entry} (he : e ∈ σ.node.payments id)
    (hused : ∃ e₀ ∈ σ₀.node.finalEntries cfg.listener.confirmationsFinal, e₀.nonce = e.nonce) :
    e ∈ σ₀.node.payments id := by
  simp only [Node.payments, List.mem_filter, Bool.and_eq_true, decide_eq_true_eq] at he ⊢
  refine ⟨?_, he.2.1, hI.old e.tx he.2.2 hused⟩
  obtain ⟨e₀, he₀, hnonce⟩ := hused
  have hmem := mem_chainEntries_of_partial hI.final.onChain he₀
  rw [← hnode.sequential.eq_of_number_eq hmem he.1 hnonce]
  exact mem_chainEntries_of_partial (settled_isPrefix _ _) he₀

/-- A settlement that is FAILED stays FAILED, and whatever pays it then or later was live: it has
the nonce of a transaction accepted before, and that nonce was not used at the final depth unless
by this payment. -/
theorem failed_paid_by_live_only {base opening : ℕ} {σ₀ : State}
    (h₀ : Reach (step cfg) (initial cfg base opening) σ₀) (hfailed : σ₀.isFailed id)
    (hjob : σ₀.Unsent id) (h : ReachUnder (step cfg) (KeepsFinal cfg) σ₀ σ) :
    σ.isFailed id ∧ ∀ e ∈ σ.node.payments id,
      (∃ tx, σ₀.node.Sent id tx ∧ tx.nonce = e.nonce) ∧
      ((∃ e₀ ∈ σ₀.node.finalEntries cfg.listener.confirmationsFinal, e₀.nonce = e.nonce) →
        e ∈ σ₀.node.payments id) := by
  have hI := failedSince_reach h₀ hfailed hjob h
  refine ⟨hI.failed, fun e he => ⟨?_, hI.paid_before (nodeInv_reach (h₀.trans h.reach)) he⟩⟩
  simp only [Node.payments, List.mem_filter, Bool.and_eq_true, decide_eq_true_eq] at he
  exact hI.nonces e.tx he.2.2

def revertedEvents : List Event :=
  bootEvents ++ submitEvents 0 1 payout ++ sendEvents ++
    [.newHead 0 ({ hash := 0, entries := [⟨plainTransfer 7 payout, false, 21000, 1⟩] } ::
      (mined [] 3)), .startPoll, .listen 0 .found, .listen 0 .headRead, .listen 0 .receipt,
      .listen 0 (.written .ok)]

theorem reverted_payout_unpaid :
    ∃ σ₀ σ, Reach (step (plainConfig 3)) (initial (plainConfig 3) 7 100) σ₀ ∧
      ReachUnder (step (plainConfig 3)) (KeepsFinal (plainConfig 3)) σ₀ σ ∧
      σ.node.chain.length = 6 ∧ σ.isFailed 1 ∧ ∀ e ∈ σ.node.payments 1,
        (∃ tx, σ₀.node.Sent 1 tx ∧ tx.nonce = e.nonce) ∧
        ((∃ e₀ ∈ σ₀.node.finalEntries 5, e₀.nonce = e.nonce) → e ∈ σ₀.node.payments 1) := by
  obtain ⟨σ₀, h₀, hcheck⟩ := exists_reach_of_run (step (plainConfig 3))
    (initial (plainConfig 3) 7 100) revertedEvents
    (fun σ => σ.isFailed 1 ∧ σ.relayer.worker.isNone ∧
      (checkedRun (step (plainConfig 3)) (KeepsFinal (plainConfig 3)) σ
        [.newHead 4 (mined [] 4)]).any fun σ' => σ'.node.chain.length = 6) (by decide +kernel)
  obtain ⟨hfailed, hidle, hrun⟩ := of_decide_eq_true hcheck
  obtain ⟨σ, h, hlength⟩ := exists_reach_of_checkedRun _ _ σ₀ _ _ hrun
  have hjob : σ₀.Unsent 1 := fun pc hpc => by simp [hpc] at hidle
  exact ⟨σ₀, σ, h₀, h, of_decide_eq_true hlength, failed_paid_by_live_only h₀ hfailed hjob h⟩

/-- The sweep gives up a transfer that is still pending, and then it is mined. -/
def minedAfterGivingUp : List Event :=
  bootEvents ++ submitEvents 0 1 payout ++ sendEvents ++
    [.tick 60000, .startSweep, .sweep .found, .sweep .receipt, .sweep (.written .ok),
      .newHead 0 (mined [plainTransfer 7 payout] 0)]

theorem failed_and_paid :
    ¬∀ cfg base opening σ id, Reach (step cfg) (initial cfg base opening) σ → σ.isFailed id →
      σ.node.payments id = [] := by
  intro hall
  obtain ⟨σ, hr, hbad⟩ := exists_reach_of_run (step (plainConfig 0))
    (initial (plainConfig 0) 7 100) minedAfterGivingUp
    (fun σ => σ.isFailed 1 ∧ (σ.node.payments 1).length = 1) (by decide +kernel)
  obtain ⟨hfailed, hpaid⟩ := of_decide_eq_true hbad
  rw [hall _ _ _ σ 1 hr hfailed] at hpaid
  cases hpaid

end Rail
