import SettlementRail.Nonces.LocalNonce
import SettlementRail.System.AwaitedWrites
import SettlementRail.System.Scenario
import SettlementRail.System.SentTransactions

/-! Who looks after the nonces that are used and not yet mined. A nonce that nobody owns any
more stays a hole below the local nonce, and all later transactions wait behind it. -/

namespace Rail
open Foundation

def Db.Stored (db : Db) (m : ℕ) : Prop :=
  ∃ s ∈ db.findByStatuses pendingStatuses, s.nonce = some m

instance (db : Db) (m : ℕ) : Decidable (db.Stored m) := inferInstanceAs (Decidable (∃ _ ∈ _, _))

/-- The running job had a transaction accepted under the nonce and has not stored it yet. -/
def State.Sending (σ : State) (m : ℕ) : Prop :=
  ∃ w ∈ σ.relayer.worker, ∃ v ∈ w.2.sending, v.nonce = m ∧
    ∃ a ∈ σ.node.accepted, a.sender = .settlement w.1 ∧ a.tx.nonce = m

instance (σ : State) (m : ℕ) : Decidable (σ.Sending m) :=
  inferInstanceAs (Decidable (∃ _ ∈ _, ∃ _ ∈ _, _ ∧ ∃ _ ∈ _, _))

def State.Owned (σ : State) (m : ℕ) : Prop := σ.db.Stored m ∨ σ.Sending m

instance (σ : State) (m : ℕ) : Decidable (σ.Owned m) := inferInstanceAs (Decidable (_ ∨ _))

def State.NoOrphan (σ : State) : Prop :=
  ∀ m, σ.node.minedCount ≤ m → m < σ.relayer.localNonce → σ.Owned m

def caughtFails (cfg : RelayerConfig) (v : JobVars) (e : TxError) : Bool :=
  !(classifyTxError e).retryable || decide (cfg.maxRetries < v.retryCount + 1)

/-- The nonce a job drops in this step without having stored it: it gives the payment up, an
exception ends it, or it refetches another nonce. -/
def JobPc.givesUp (cfg : RelayerConfig) (pendingCount : ℕ) : JobPc → JobEvent → Option ℕ
  | .broadcast v, .sent (.accepted (some err)) | .broadcast v, .sent (.refused err)
  | .writeSubmitted v, .written (.lost err) => if caughtFails cfg v err then some v.nonce else none
  | .buildFees v, .callError | .resync v _, .callError => some v.nonce
  | .resync v _, .counted => if v.isResume || pendingCount = v.nonce then none else some v.nonce
  | _, _ => none

def State.givenUp (cfg : RelayerConfig) (σ : State) : Event → Option ℕ
  | .crash => σ.relayer.worker.bind fun w => w.2.sending.map JobVars.nonce
  | .job e => σ.relayer.worker.bind fun w => w.2.givesUp cfg σ.node.pendingCount e
  | _ => none

def Event.isDvpCall : Event → Bool
  | .dvpCall _ => true
  | _ => false

def Event.isJobAccepted : Event → Bool
  | .job (.sent (.accepted _)) => true
  | _ => false

/-- The nonce is mined, an open row has it, or no node ever took a transaction with it. -/
def State.Disposable (σ : State) (ev : Event) (m : ℕ) : Prop :=
  m < σ.node.minedCount ∨ σ.db.Stored m ∨ (ev.isJobAccepted = false ∧ ¬σ.node.Used m)

instance (σ : State) (ev : Event) (m : ℕ) : Decidable (σ.Disposable ev m) :=
  inferInstanceAs (Decidable (_ ∨ _ ∨ _))

def State.reopenedFrom (σ : State) : Event → ℕ
  | .newHead drop blocks => (σ.node.withHead drop blocks).minedCount
  | _ => σ.node.minedCount

def Settlement.Holds (s : Settlement) (m : ℕ) : Prop :=
  s.status ∈ pendingStatuses ∧ s.nonce = some m

instance (s : Settlement) (m : ℕ) : Decidable (s.Holds m) := inferInstanceAs (Decidable (_ ∧ _))

/-- A step that leaves no used and unmined nonce without an owner: what the job drops is
disposable, the row that a write closes was not the last owner, and so for every nonce that a
reorganisation takes back out of the chain. -/
structure KeepsOwners (cfg : Config) (σ : State) (ev : Event) : Prop where
  relayerOnly : ev.isDvpCall = false
  job : ∀ m ∈ σ.givenUp cfg.relayer ev, σ.Disposable ev m
  row : ∀ s ∈ σ.db.findByStatuses pendingStatuses, ∀ n ∈ s.nonce,
    ((σ.awaitedWrite ev).onRow σ.now s).Holds n ∨ n < σ.node.minedCount ∨ σ.Sending n ∨
      ∃ r ∈ σ.db.findByStatuses pendingStatuses, r.id ≠ s.id ∧ r.nonce = some n
  head : ∀ m < σ.node.minedCount, σ.reopenedFrom ev ≤ m → σ.Owned m

theorem keepsOwners_iff {cfg : Config} {σ : State} {ev : Event} : KeepsOwners cfg σ ev ↔
    ev.isDvpCall = false ∧ (∀ m ∈ σ.givenUp cfg.relayer ev, σ.Disposable ev m) ∧
      (∀ s ∈ σ.db.findByStatuses pendingStatuses, ∀ n ∈ s.nonce,
        ((σ.awaitedWrite ev).onRow σ.now s).Holds n ∨ n < σ.node.minedCount ∨ σ.Sending n ∨
          ∃ r ∈ σ.db.findByStatuses pendingStatuses, r.id ≠ s.id ∧ r.nonce = some n) ∧
      ∀ m < σ.node.minedCount, σ.reopenedFrom ev ≤ m → σ.Owned m :=
  ⟨fun h => ⟨h.relayerOnly, h.job, h.row, h.head⟩, fun h => ⟨h.1, h.2.1, h.2.2.1, h.2.2.2⟩⟩

instance (cfg : Config) (σ : State) (ev : Event) : Decidable (KeepsOwners cfg σ ev) :=
  decidable_of_iff' _ keepsOwners_iff

variable {cfg : Config} {σ σ' : State} {ev : Event} {s : Settlement} {id : SettlementId} {m : ℕ}

theorem Db.stored_iff {db : Db} :
    db.Stored m ↔ ∃ s, db.findById s.id = some s ∧ s.Holds m := by
  simp only [Stored, mem_findByStatuses, Settlement.Holds, and_assoc]

theorem Db.Stored.of_findById {db : Db} (hs : db.findById id = some s) (hm : s.Holds m) :
    db.Stored m :=
  stored_iff.mpr ⟨s, by rwa [id_of_findById hs], hm⟩

theorem Settlement.Holds.screened (h : s.Holds m) : s.status.screened = true := by
  have hst : s.status = .submitted ∨ s.status = .confirmed := by
    simpa [pendingStatuses] using h.1
  rcases hst with hst | hst <;> rw [hst] <;> rfl

theorem State.Sending.intro {pc : JobPc} {v : JobVars} {tx : Tx}
    (hworker : σ.relayer.worker = some (id, pc)) (hv : pc.sending = some v)
    (ht : σ.node.Sent id tx) (hnonce : tx.nonce = v.nonce) : σ.Sending v.nonce :=
  ⟨(id, pc), hworker, v, hv, rfl, _, ht, rfl, hnonce⟩

theorem caught_sending {cfg : RelayerConfig} {v : JobVars} {e : TxError} {localNonce : ℕ}
    {inflight : Inflight} (h : caughtFails cfg v e = false) :
    ∃ pc' v', (caught cfg v e localNonce inflight).pc = some pc' ∧ pc'.sending = some v' ∧
      v'.nonce = v.nonce := by
  unfold caughtFails at h
  unfold caught caughtAs
  generalize classifyTxError e = cls at *
  simp only [Bool.or_eq_false_iff, decide_eq_false_iff_not] at h
  rw [if_neg (by simp [h.1]), if_neg h.2]
  split_ifs
  · exact ⟨_, _, rfl, rfl, rfl⟩
  · exact ⟨_, _, rfl, rfl, JobVars.bumpIf_nonce _ _⟩

theorem jobStep_sending {cfg : RelayerConfig} {pc : JobPc} {e : JobEvent} {out : JobOut}
    {v : JobVars}
    (hout : jobStep cfg σ.db σ.node σ.now σ.relayer.localNonce σ.relayer.inflight id pc e
      = some out) (hv : pc.sending = some v) :
    (∃ pc' v', out.pc = some pc' ∧ pc'.sending = some v' ∧ v'.nonce = v.nonce) ∨
      ((σ.db.findById id).isSome ∧ out.db = .transition id .submitted (submittedOptions v)) ∨
      pc.givesUp cfg σ.node.pendingCount e = some v.nonce := by
  have catching : ∀ {err : TxError}, caughtFails cfg v err = false ∨ caughtFails cfg v err = true :=
    fun {err} => (Bool.eq_false_or_eq_true _).symm
  cases pc with
  | find => cases hv
  | fail => cases hv
  | estimateGas w =>
    cases hv
    cases e <;> simp only [jobStep, reduceCtorEq] at hout
    cases hout
    exact .inl ⟨_, _, rfl, rfl, rfl⟩
  | buildFees w =>
    cases hv
    cases e <;> simp only [jobStep, reduceCtorEq] at hout
    · cases hout
      exact .inl ⟨_, _, rfl, rfl, rfl⟩
    · exact .inr (.inr rfl)
  | backoff w =>
    cases hv
    cases e <;> simp only [jobStep, reduceCtorEq] at hout
    cases hout
    exact .inl ⟨_, _, rfl, rfl, rfl⟩
  | broadcast w =>
    cases hv
    cases e <;> simp only [jobStep, reduceCtorEq] at hout
    rename_i outcome
    rcases outcome with (_ | err) | err <;> simp only at hout
    · split_ifs at hout
      cases hout
      exact .inl ⟨_, _, rfl, rfl, rfl⟩
    · split_ifs at hout
      cases hout
      rcases @catching err with hgo | hfail
      · exact .inl (caught_sending hgo)
      · exact .inr (.inr (if_pos hfail))
    · cases hout
      rcases @catching err with hgo | hfail
      · exact .inl (caught_sending hgo)
      · exact .inr (.inr (if_pos hfail))
  | writeSubmitted w =>
    cases hv
    cases e <;> simp only [jobStep, reduceCtorEq] at hout
    rename_i outcome
    split_ifs at hout with hcan
    cases outcome with
    | ok =>
      cases hout
      exact .inr (.inl ⟨by simpa [Db.canCommit, Option.isSome_iff_ne_none] using hcan, rfl⟩)
    | lost err =>
      cases hout
      rcases @catching err with hgo | hfail
      · exact .inl (caught_sending hgo)
      · exact .inr (.inr (if_pos hfail))
    | ambiguous err =>
      cases hout
      exact .inr (.inl ⟨by simpa [Db.canCommit, Option.isSome_iff_ne_none] using hcan, rfl⟩)
  | resync w cls =>
    cases hv
    cases e <;> simp only [jobStep, reduceCtorEq] at hout
    · split_ifs at hout with hresume
      · cases hout
        exact .inl ⟨_, _, rfl, rfl, JobVars.bumpIf_nonce _ _⟩
      · cases hout
        by_cases hsame : σ.node.pendingCount = v.nonce
        · exact .inl ⟨_, _, rfl, rfl, (JobVars.bumpIf_nonce _ _).trans hsame⟩
        · refine .inr (.inr (if_neg ?_))
          simp [hresume, hsame]
    · exact .inr (.inr rfl)

theorem sending_step (h : step cfg σ ev = some σ') (hm : σ.Sending m) :
    σ'.Sending m ∨ σ'.db.Stored m ∨ σ.givenUp cfg.relayer ev = some m := by
  obtain ⟨⟨id, pc⟩, hworker, v, hv, rfl, ⟨sender, tx⟩, ha, rfl, hnonce⟩ := hm
  have hsent : σ'.node.Sent id tx := sent_mono h ha
  rcases step_worker_of h hworker with rfl | hworker' | ⟨e, rfl, -⟩
  · refine .inr (.inr ?_)
    rw [State.givenUp, hworker, Option.bind_some, hv]
    rfl
  · exact .inl (.intro hworker' hv hsent hnonce)
  · cases stepsTo h with
    | @job k pc₁ _ out hk hout =>
      rw [Option.mem_def.mp hworker] at hk
      cases hk
      rcases jobStep_sending hout hv with ⟨pc', v', hpc', hv', hsame⟩ | ⟨hrow, hop⟩ | hgiven
      · have hworker' : (σ.afterJob id out).relayer.worker = some (id, pc') := by
          simp only [State.afterJob, hpc', Option.isSome_some, if_true, Option.map_some]
        exact .inl (hsame ▸ .intro hworker' hv' hsent (hnonce.trans hsame.symm))
      · obtain ⟨s, hs⟩ := Option.isSome_iff_exists.mp hrow
        have hs' : (out.db.apply σ.now σ.db).findById id = some (out.db.onRow σ.now s) :=
          findById_apply hs
        refine .inr (.inl (.of_findById hs' ?_))
        rw [hop, onRow_transition_of (Db.id_of_findById hs) rfl]
        exact ⟨by simp [Settlement.withTransition, pendingStatuses], rfl⟩
      · refine .inr (.inr ?_)
        rw [State.givenUp, hworker, Option.bind_some, hgiven]

theorem rows_of_givenUp (hc : Custody σ) (h : step cfg σ ev = some σ')
    (hgiven : σ.givenUp cfg.relayer ev = some m) (hm : σ.db.Stored m) : σ'.db.Stored m := by
  obtain ⟨s, hs, hholds⟩ := Db.stored_iff.mp hm
  obtain ⟨s', hs', hcases⟩ := step_screened_row hc h hs hholds.screened
  have hsame : s' = s := by
    rcases hcases with rfl | rfl
    · rfl
    · suffices hnone : σ.awaitedWrite ev = .none by rw [hnone]; rfl
      cases ev with
      | crash => rfl
      | job e =>
        rcases hworker : σ.relayer.worker with _ | ⟨k, pc⟩
        · simp [State.givenUp, hworker] at hgiven
        · rw [State.givenUp, hworker, Option.bind_some] at hgiven
          cases e <;> simp only [State.awaitedWrite, hworker]
          rename_i o
          cases pc <;> simp only [JobPc.givesUp, reduceCtorEq] at hgiven ⊢
          cases o <;> simp only [reduceCtorEq] at hgiven
          rfl
      | _ => cases hgiven
  exact .of_findById hs' (hsame ▸ hholds)

/-- The nonce of an open row stays on an open row, or it is mined, or a job is sending it. -/
theorem stored_step (hc : Custody σ) (hk : KeepsOwners cfg σ ev) (h : step cfg σ ev = some σ')
    (hm : σ.db.Stored m) : σ'.db.Stored m ∨ m < σ.node.minedCount ∨ σ.Sending m := by
  obtain ⟨s, hs, hholds⟩ := Db.stored_iff.mp hm
  have hopen : s ∈ σ.db.findByStatuses pendingStatuses := Db.mem_findByStatuses.mpr ⟨hs, hholds.1⟩
  obtain ⟨s', hs', rfl | rfl⟩ := step_screened_row hc h hs hholds.screened
  · exact .inl (.of_findById hs' hholds)
  rcases hk.row s hopen m hholds.2 with hkeep | hmined | hsending | ⟨r, hr, hne, hrn⟩
  · exact .inl (.of_findById hs' hkeep)
  · exact .inr (.inl hmined)
  · exact .inr (.inr hsending)
  left
  by_cases hsame : (σ.awaitedWrite ev).onRow σ.now s = s
  · exact .of_findById hs' (hsame.symm ▸ hholds)
  -- the write is to the row `s`, so the other owner `r` keeps its columns
  · have hr' := Db.mem_findByStatuses.mp hr
    have hrHolds : r.Holds m := ⟨hr'.2, hrn⟩
    obtain ⟨r', hr'', heq⟩ := step_screened_row hc h hr'.1 hrHolds.screened
    rw [onRow_eq_of_changed hsame hne, or_self] at heq
    exact .of_findById hr'' (heq ▸ hrHolds)

theorem owned_step (hc : Custody σ) (hk : KeepsOwners cfg σ ev) (h : step cfg σ ev = some σ')
    (hused : σ.node.Used m) (hmined : σ.node.minedCount ≤ m) (hm : σ.Owned m) : σ'.Owned m := by
  have sending : σ.Sending m → σ'.Owned m := by
    intro hsending
    rcases sending_step h hsending with hsending | hstored | hgiven
    · exact .inr hsending
    · exact .inl hstored
    · rcases hk.job m hgiven with hlt | hstored | ⟨-, hunused⟩
      · exact absurd hmined (Nat.not_le.mpr hlt)
      · exact .inl (rows_of_givenUp hc h hgiven hstored)
      · exact absurd hused hunused
  rcases hm with hstored | hsending
  · rcases stored_step hc hk h hstored with hstored | hlt | hsending
    · exact .inl hstored
    · exact absurd hmined (Nat.not_le.mpr hlt)
    · exact sending hsending
  · exact sending hsending

/-- Every used nonce that is not mined has an owner; only the relayer sends. -/
structure OwnersInv (σ : State) : Prop where
  relayerOnly : σ.dvps = []
  owned : ∀ m, σ.node.Used m → σ.node.minedCount ≤ m → σ.Owned m

theorem owned_of_accepts (hc : Custody σ) (hsent : SentInv σ) (hI : OwnersInv σ)
    (hk : KeepsOwners cfg σ ev) (h : step cfg σ ev = some σ') {a : Accepted} (ha : Accepts σ ev a)
    (hmined : σ.node.minedCount ≤ a.tx.nonce) : σ'.Owned a.tx.nonce := by
  cases ha with
  | dvp hdvp =>
    rw [hI.relayerOnly] at hdvp
    cases hdvp
  | @sweep t rest fees gasLimit baseUnits reply hsweep hunits =>
    -- a resend: its nonce was used before
    have ht : σ.Walks t := walks_of_sweep hsweep (by simp [SweepPc.rows])
    obtain ⟨n, hn⟩ := Option.isSome_iff_exists.mp (hc.walked t ht).1
    have hnonce : (resendTx t fees gasLimit baseUnits).nonce = n := by simp [resendTx, hn]
    rw [hnonce] at hmined ⊢
    obtain ⟨tx, hold, rfl⟩ := hsent.walkedNonce t n ht hn
    have hused : σ.node.Used tx.nonce := ⟨_, hold, rfl⟩
    exact owned_step hc hk h hused hmined (hI.owned _ hused hmined)
  | @job id v reply hworker =>
    cases stepsTo h with
    | @job k pc e out hk' hout =>
      rw [hworker] at hk'
      cases hk'
      have hnew : (σ.afterJob id out).node.Sent id v.tx := by
        rcases reply with _ | err <;> simp only [jobStep] at hout <;> split_ifs at hout <;>
          cases hout <;> exact List.mem_append_right _ (List.mem_singleton.mpr rfl)
      rcases jobStep_sending hout (v := v) rfl with ⟨pc', v', hpc', hv', hsame⟩ | ⟨-, hop⟩ | hgiven
      · have hworker' : (σ.afterJob id out).relayer.worker = some (id, pc') := by
          simp only [State.afterJob, hpc', Option.isSome_some, if_true, Option.map_some]
        have hsending := State.Sending.intro hworker' hv' hnew hsame.symm
        rw [hsame] at hsending
        exact .inr hsending
      · have hw := writes_job hworker hout
        rw [hop] at hw
        cases hw
      · have hgiven' : σ.givenUp cfg.relayer (.job (.sent (.accepted reply))) = some v.nonce := by
          rw [State.givenUp, hworker, Option.bind_some, hgiven]
        rcases hk.job _ hgiven' with hlt | hstored | ⟨hnot, -⟩
        · exact absurd hmined (Nat.not_le.mpr hlt)
        · exact .inl (rows_of_givenUp hc h hgiven' hstored)
        · cases hnot

theorem ownersInv_step (hc : Custody σ) (hsent : SentInv σ) (hI : OwnersInv σ)
    (hk : KeepsOwners cfg σ ev) (h : step cfg σ ev = some σ') : OwnersInv σ' where
  relayerOnly := by
    cases stepsTo h with
    | dvpCall => exact absurd hk.relayerOnly (by simp [Event.isDvpCall])
    | dvp hdvp =>
      rw [hI.relayerOnly] at hdvp
      cases hdvp
    | crash => rfl
    | _ => exact hI.relayerOnly
  owned m hused hmined := by
    rcases step_minedCount h with heq | ⟨drop, blocks, rfl, hhead⟩
    · rw [heq] at hmined
      rcases step_accepted h with hsame | ⟨a, ha, happend⟩
      · have hold : σ.node.Used m := by rwa [Node.Used, ← hsame]
        exact owned_step hc hk h hold hmined (hI.owned m hold hmined)
      · obtain ⟨b, hb, rfl⟩ := hused
        rw [happend, List.mem_append, List.mem_singleton] at hb
        rcases hb with hb | rfl
        · have hold : σ.node.Used b.tx.nonce := ⟨b, hb, rfl⟩
          exact owned_step hc hk h hold hmined (hI.owned _ hold hmined)
        · exact owned_of_accepts hc hsent hI hk h ha hmined
    · cases stepsTo h with
      | newHead hpossible =>
        by_cases hm : m < σ.node.minedCount
        · exact hk.head m hm hmined
        · exact hI.owned m hused (Nat.le_of_not_lt hm)

theorem ownersInv_reach {base opening : ℕ}
    (h : RailReach cfg (KeepsOwners cfg) base opening σ) : OwnersInv σ := by
  refine h.invariant ⟨rfl, fun m hused _ => ?_⟩ fun _ _ _ hr hI hk hs =>
    ownersInv_step (custody_reach hr) (sentInv_reach hr) hI hk hs
  obtain ⟨a, ha, -⟩ := hused
  cases ha

theorem noOrphan_of_keepsOwners {base opening : ℕ}
    (h : RailReach cfg (KeepsOwners cfg) base opening σ) : σ.NoOrphan := by
  intro m hmined hlt
  exact (ownersInv_reach h).owned m (noneSkipped_reach h m hmined hlt) hmined

theorem settled_payout_no_orphan :
    ∃ σ, RailReach (plainConfig 3) (KeepsOwners (plainConfig 3)) 7 100 σ ∧
      σ.relayer.localNonce = 8 ∧ σ.NoOrphan := by
  obtain ⟨σ, hr, hnonce⟩ := exists_reach_of_checkedRun (step (plainConfig 3))
    (KeepsOwners (plainConfig 3)) (initial (plainConfig 3) 7 100) settleEvents
    (fun σ => σ.relayer.localNonce = 8) (by decide +kernel)
  exact ⟨σ, hr, of_decide_eq_true hnonce, noOrphan_of_keepsOwners hr⟩

/-- The transfer stays pending and the sweep gives it up, after it was accepted and stored. -/
def givenUpWhilePending : List Event :=
  bootEvents ++ submitEvents 0 1 payout ++ sendEvents ++
    [.tick 60000, .startSweep, .sweep .found, .sweep .receipt, .sweep (.written .ok)]

theorem pending_nonce_orphaned :
    ¬∀ cfg base opening σ, RailReach cfg (fun _ ev => ev.isDvpCall = false) base opening σ →
      σ.NoOrphan := by
  intro hall
  obtain ⟨σ, hr, hbad⟩ := exists_reach_of_checkedRun (step (plainConfig 0))
    (fun _ ev => ev.isDvpCall = false) (initial (plainConfig 0) 7 100) givenUpWhilePending
    (fun σ => σ.node.minedCount = 7 ∧ σ.relayer.localNonce = 8 ∧ ¬σ.Owned 7) (by decide +kernel)
  obtain ⟨hmined, hlocal, hnot⟩ := of_decide_eq_true hbad
  exact hnot (hall _ _ _ σ hr 7 (by omega) (by omega))

end Rail
