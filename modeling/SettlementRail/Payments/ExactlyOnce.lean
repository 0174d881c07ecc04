import SettlementRail.System.FreshJobs
import SettlementRail.System.Scenario

/-! At most one payment per settlement. The chain uses a nonce once, so it is enough that all
transactions ever accepted for a settlement carry the same nonce. -/

namespace Rail
open Foundation

def State.PaidAtMostOnce (σ : State) : Prop := ∀ id, (σ.node.payments id).length ≤ 1

/-- The refetched nonce of a fresh job is the one it had, unless nothing was accepted for its
settlement yet. -/
def KeepsNonce (σ : State) (ev : Event) : Prop :=
  ∀ r ∈ σ.refetch ev, σ.node.pendingCount = r.2.nonce ∨
    ∀ a ∈ σ.node.accepted, a.sender ≠ .settlement r.1

instance (σ : State) (ev : Event) : Decidable (KeepsNonce σ ev) :=
  inferInstanceAs (Decidable (∀ _ ∈ _, _ ∨ ∀ _ ∈ _, _))

/-- All that was accepted for a settlement has one nonce, and whoever is about to send for it
knows that nonce. -/
structure OneNonce (σ : State) : Prop where
  same : ∀ id tx tx', σ.node.Sent id tx → σ.node.Sent id tx' → tx.nonce = tx'.nonce
  row : ∀ id s n, σ.db.findById id = some s → s.nonce = some n → ∀ tx, σ.node.Sent id tx →
    tx.nonce = n
  walked : ∀ t s, σ.Walks t → σ.db.findById t.id = some s → s.nonce = t.nonce
  job : ∀ id pc v, σ.relayer.worker = some (id, pc) → pc.vars = some v →
    (∀ tx, σ.node.Sent id tx → tx.nonce = v.nonce) ∧
      ∀ s n, σ.db.findById id = some s → s.nonce = some n → v.nonce = n
  waiting : ∀ id s, σ.db.findById id = some s → s.nonce = none → σ.Waiting id →
    ∀ tx, ¬σ.node.Sent id tx

variable {cfg : Config} {σ σ' : State} {ev : Event} {op : DbOp} {t s : Settlement}
variable {id : SettlementId} {tx : Tx}

theorem OneNonce.accepts (hI : OneNonce σ) (hc : Custody σ) (ha : Accepts σ ev ⟨.settlement id, tx⟩) :
    (∀ tx', σ.node.Sent id tx' → tx'.nonce = tx.nonce) ∧
      ∃ s, σ.db.findById id = some s ∧ ∀ n, s.nonce = some n → tx.nonce = n := by
  cases ha with
  | job hworker =>
    obtain ⟨hsent, hrow⟩ := hI.job id _ _ hworker rfl
    obtain ⟨-, s, hs, -⟩ := hc.jobs id (Relayer.mem_jobs_of_worker hworker)
    exact ⟨hsent, s, hs, fun n hn => hrow s n hs hn⟩
  | @sweep t rest fees gasLimit baseUnits reply hsweep hunits =>
    have ht : σ.Walks t := .sweep (by simp [hsweep, SweepPc.rowsOf, SweepPc.rows])
    obtain ⟨s, hs, -⟩ := (hc.carried t (.walk ht)).row
    obtain ⟨n, hn⟩ := Option.isSome_iff_exists.mp (hc.walked t ht).1
    have hsn : s.nonce = some n := (hI.walked t s ht hs).trans hn
    have htx : (resendTx t fees gasLimit baseUnits).nonce = n := by simp [resendTx, hn]
    rw [htx]
    exact ⟨hI.row t.id s n hs hsn, s, hs, fun m hm => Option.some.inj (hsn.symm.trans hm)⟩

theorem not_accepts_of_written {e : DbOutcome TxError} {a : Accepted} :
    ¬Accepts σ (.job (.written e)) a := nofun

theorem oneNonce_same (hc : Custody σ) (hI : OneNonce σ) (h : step cfg σ ev = some σ') {tx tx' : Tx}
    (ht : σ'.node.Sent id tx) (ht' : σ'.node.Sent id tx') : tx.nonce = tx'.nonce := by
  rcases step_accepted h with heq | ⟨a, ha, heq⟩ <;> rw [Node.Sent, heq] at ht ht'
  · exact hI.same id tx tx' ht ht'
  · rcases List.mem_append.mp ht with hold | hnew <;>
      rcases List.mem_append.mp ht' with hold' | hnew'
    · exact hI.same id tx tx' hold hold'
    · obtain rfl := List.mem_singleton.mp hnew'
      exact (hI.accepts hc ha).1 tx hold
    · obtain rfl := List.mem_singleton.mp hnew
      exact ((hI.accepts hc ha).1 tx' hold').symm
    · obtain rfl := List.mem_singleton.mp hnew
      cases List.mem_singleton.mp hnew'
      rfl

theorem OneNonce.nonce_step (hI : OneNonce σ) (h : step cfg σ ev = some σ') {s' : Settlement}
    {n : ℕ} (hs : σ.db.findById id = some s) (hn : s.nonce = some n)
    (hs' : σ'.db.findById id = some s') : s'.nonce = some n := by
  obtain ⟨op, hw, hdb⟩ := step_db h
  rw [hdb, findById_apply hs] at hs'
  obtain rfl := Option.some.inj hs'
  rcases hw.nonce_cases hs with heq | ⟨v, o, -, hworker, heq⟩
  · rw [heq, hn]
  · rw [heq, (hI.job id _ v hworker rfl).2 s n hs hn]

theorem oneNonce_row (hc : Custody σ) (hI : OneNonce σ) (h : step cfg σ ev = some σ')
    {s' : Settlement} {n : ℕ} (hs' : σ'.db.findById id = some s') (hn : s'.nonce = some n)
    (ht : σ'.node.Sent id tx) : tx.nonce = n := by
  obtain ⟨op, hw, hdb, ⟨s, hs, rfl⟩ | ⟨-, -, hnone, -⟩⟩ := step_row h hs'
  · rcases hw.nonce_cases hs with heq | ⟨v, o, rfl, hworker, heq⟩ <;> rw [heq] at hn
    · rcases step_sent h ht with ht | ha
      · exact hI.row id s n hs hn tx ht
      · obtain ⟨-, r, hr, hrow⟩ := hI.accepts hc ha
        rw [hs] at hr
        cases hr
        exact hrow n hn
    · rcases step_sent h ht with ht | ha
      · exact ((hI.job id _ v hworker rfl).1 tx ht).trans (Option.some.inj hn)
      · exact absurd ha not_accepts_of_written
  · simp [hnone] at hn

theorem oneNonce_walked (hc : Custody σ) (hI : OneNonce σ) (h : step cfg σ ev = some σ')
    {s' : Settlement} (ht : σ'.Walks t) (hs' : σ'.db.findById t.id = some s') :
    s'.nonce = t.nonce := by
  rcases step_walks h ht with ht | ⟨hrow, hstatus⟩
  · obtain ⟨s, hs, -⟩ := (hc.carried t (.walk ht)).row
    obtain ⟨n, hn⟩ := Option.isSome_iff_exists.mp (hc.walked t ht).1
    rw [hn]
    exact hI.nonce_step h hs ((hI.walked t s ht hs).trans hn) hs'
  · obtain ⟨n, hn⟩ := Option.isSome_iff_exists.mp ((hc.columns _ t hrow).sent hstatus).1
    rw [hn]
    exact hI.nonce_step h hrow hn hs'

theorem startJob_nonce {localNonce n : ℕ} {v : JobVars} (hcol : s.ColumnsAgree)
    (hstatus : s.status = .complianceApproved ∨ s.status = .submitted)
    (hstart : startJob s localNonce = some v) (hn : s.nonce = some n) : v.nonce = n := by
  obtain ⟨-, -, hresume, hv⟩ := startJob_some hstart
  have hsub : s.status = .submitted := hstatus.resolve_left fun hca => by
    have := hcol.unsent (.inr (.inr hca))
    simp [hn] at this
  simp [hv, hresume, hsub, hn]

theorem OneNonce.accepts_job (hI : OneNonce σ) (hc : Custody σ) {pc : JobPc} {v : JobVars}
    (hworker : σ.relayer.worker = some (id, pc)) (hv : pc.vars = some v)
    (ha : Accepts σ ev ⟨.settlement id, tx⟩) : tx.nonce = v.nonce := by
  cases ha with
  | job hworker' =>
    rw [hworker] at hworker'
    cases hworker'
    cases hv
    rfl
  | @sweep t rest fees gasLimit baseUnits reply hsweep hunits =>
    have ht : σ.Walks t := .sweep (by simp [hsweep, SweepPc.rowsOf, SweepPc.rows])
    obtain ⟨s, hs, -⟩ := (hc.carried t (.walk ht)).row
    obtain ⟨n, hn⟩ := Option.isSome_iff_exists.mp (hc.walked t ht).1
    rw [(hI.job t.id pc v hworker hv).2 s n hs ((hI.walked t s ht hs).trans hn)]
    simp [resendTx, hn]

theorem oneNonce_job (hc : Custody σ) (hsent : SentInv σ) (hI : OneNonce σ) (hk : KeepsNonce σ ev)
    (h : step cfg σ ev = some σ') {pc' : JobPc} {v' : JobVars}
    (hworker : σ'.relayer.worker = some (id, pc')) (hv' : pc'.vars = some v') :
    (∀ tx, σ'.node.Sent id tx → tx.nonce = v'.nonce) ∧
      ∀ s n, σ'.db.findById id = some s → s.nonce = some n → v'.nonce = n := by
  -- the second part follows from the first: what a stored nonce was accepted under is that nonce
  suffices hone : ∀ tx, σ'.node.Sent id tx → tx.nonce = v'.nonce by
    refine ⟨hone, fun s n hs hn => ?_⟩
    obtain ⟨tx, ht, rfl⟩ := (sentInv_step hc hsent h).nonce id s n hs hn
    exact (hone tx ht).symm
  intro tx ht
  rcases step_job_nonce h hworker hv' with ⟨pc, v, hworker₀, hv, hnonce, -⟩ |
    ⟨rfl, hnonce, v, cls, hworker₀, hfresh⟩ | ⟨rfl, hworker₀, s, hs, hstatus, hstart⟩
  · rw [hnonce]
    rcases step_sent h ht with ht | ha
    · exact (hI.job id pc v hworker₀ hv).1 tx ht
    · exact hI.accepts_job hc hworker₀ hv ha
  · rcases step_sent h ht with ht | ha
    · rcases hk (id, v) (by simp [State.refetch, hworker₀, hfresh]) with heq | hnone
      · rw [hnonce, heq]
        exact (hI.job id _ v hworker₀ rfl).1 tx ht
      · exact absurd rfl (hnone _ ht)
    · cases ha
  · rcases step_sent h ht with ht | ha
    · rcases hn : s.nonce with _ | n
      · refine absurd ht (hI.waiting id s hs hn (.inr ⟨?_, fun pc hpc => ?_⟩) tx)
        · exact Relayer.mem_jobs_of_worker hworker₀
        · rw [hworker₀] at hpc
          cases hpc
          rfl
      · rw [startJob_nonce (hc.columns id s hs) hstatus hstart hn]
        exact hI.row id s n hs hn tx ht
    · cases ha

theorem oneNonce_step (hc : Custody σ) (hsent : SentInv σ) (hI : OneNonce σ) (hk : KeepsNonce σ ev)
    (h : step cfg σ ev = some σ') : OneNonce σ' where
  same _ _ _ ht ht' := oneNonce_same hc hI h ht ht'
  row _ _ _ hs hn _ ht := oneNonce_row hc hI h hs hn ht
  walked _ _ ht hs := oneNonce_walked hc hI h ht hs
  job _ _ _ hworker hv := oneNonce_job hc hsent hI hk h hworker hv
  waiting := unsentWaiting_step hc hsent hI.waiting h

theorem oneNonce_initial (cfg : Config) (base opening : ℕ) : OneNonce (initial cfg base opening) where
  same _ _ _ ht := by cases ht
  row _ _ _ _ _ _ ht := by cases ht
  walked _ _ ht := absurd ht (not_walks_initial cfg base opening)
  job _ _ _ hworker := by cases hworker
  waiting _ _ _ _ _ _ ht := by cases ht

theorem paidAtMostOnce_of_keepsNonce {base opening : ℕ}
    (h : RailReach cfg KeepsNonce base opening σ) : σ.PaidAtMostOnce := by
  have hI : OneNonce σ := h.invariant (oneNonce_initial cfg base opening)
    fun _ _ _ hr hI hk hs => oneNonce_step (custody_reach hr) (sentInv_reach hr) hI hk hs
  have hnode := nodeInv_reach h
  intro id
  rcases hpay : σ.node.payments id with _ | ⟨e₀, rest⟩
  · simp
  · have hmem : e₀ ∈ σ.node.payments id := by simp [hpay]
    rw [← hpay]
    simp only [Node.payments, List.mem_filter, Bool.and_eq_true, decide_eq_true_eq] at hmem
    refine length_filter_le_one hnode.sequential.nodup (n := e₀.tx.nonce) fun e he hp => ?_
    simp only [Bool.and_eq_true, decide_eq_true_eq] at hp
    exact hI.same id _ _ hp.2 hmem.2.2

theorem settled_payout_paid_once :
    ∃ σ, RailReach (plainConfig 3) KeepsNonce 7 100 σ ∧ (σ.node.payments 1).length = 1 ∧
      σ.PaidAtMostOnce := by
  obtain ⟨σ, hr, hpaid⟩ := exists_reach_of_checkedRun (step (plainConfig 3)) KeepsNonce
    (initial (plainConfig 3) 7 100) settleEvents
    (fun σ => (σ.node.payments 1).length = 1) (by decide +kernel)
  exact ⟨σ, hr, of_decide_eq_true hpaid, paidAtMostOnce_of_keepsNonce hr⟩

/-- The node takes the transfer in but the reply times out; the retry is told that it is already
known, takes that for a stale nonce and sends the transfer again under the next one. -/
def resentUnderNewNonce : List Event :=
  bootEvents ++ submitEvents 0 1 payout ++ prepareEvents ++
    [.job (.sent (.accepted (some timeout))), .job .woke, .job (.sent (.refused alreadyKnown)),
      .job .counted, .job .woke, .job (.sent (.accepted none)), .job (.written .ok),
      .newHead 0 (mined [plainTransfer 7 payout, plainTransfer 8 payout] 0)]

theorem paid_twice :
    ¬∀ cfg base opening σ, Reach (step cfg) (initial cfg base opening) σ → σ.PaidAtMostOnce := by
  intro hall
  obtain ⟨σ, hr, hbad⟩ := exists_reach_of_run (step (plainConfig 3))
    (initial (plainConfig 3) 7 100) resentUnderNewNonce
    (fun σ => (σ.node.payments 1).length = 2) (by decide +kernel)
  have := hall _ _ _ σ hr 1
  rw [of_decide_eq_true hbad] at this
  omega

end Rail
