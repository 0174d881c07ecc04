import SettlementRail.Foundation.ThreadPool
import SettlementRail.Nonces.LocalNonce
import SettlementRail.System.Scenario
import SettlementRail.System.SentTransactions

/-! Who is using which nonce. The local nonce, the stored rows, the resumed jobs, the refetched
counts and the DvP calls pick nonces without regard to each other; two users of one nonce end
up replacing each other's transaction. -/

namespace Rail
open Foundation

def Tx.isDvp (tx : Tx) : Bool :=
  match tx.call with
  | .transfer .. => false
  | _ => true

/-- Whoever has a nonce: a settlement, a DvP call about to send, or its pending transaction. -/
inductive NonceUser
  | settlement (id : SettlementId)
  | dvpSend (i : ℕ)
  | dvpPending (tx : Tx)
deriving DecidableEq, Repr

/-- An open row has its stored nonce, a job and the rows of a sweep have the one they are going
to send under, a DvP call the one it looked up, until its transaction is not pending any more. -/
inductive State.Uses (σ : State) : NonceUser → ℕ → Prop
  | row {s : Settlement} {m : ℕ} (hs : s ∈ σ.db.findByStatuses pendingStatuses)
      (hm : s.nonce = some m) : Uses σ (.settlement s.id) m
  | job {id : SettlementId} {pc : JobPc} {v : JobVars} (hworker : σ.relayer.worker = some (id, pc))
      (hv : pc.sending = some v) : Uses σ (.settlement id) v.nonce
  | resend {t : Settlement} {m : ℕ} (ht : t ∈ SweepPc.rowsOf σ.relayer.sweep)
      (hm : t.nonce = some m) : Uses σ (.settlement t.id) m
  | dvpSend {i m : ℕ} {call : Call} {rest : List Call} (hdvp : σ.dvps[i]? = some (.send m call rest)) :
      Uses σ (.dvpSend i) m
  | dvpPending {tx : Tx} (ht : tx ∈ σ.node.mempool) (hdvp : tx.isDvp = true) :
      Uses σ (.dvpPending tx) tx.nonce

def DvpPc.sendNonce : DvpPc → Option ℕ
  | .send m .. => some m
  | _ => none

def State.nonceUsers (σ : State) : List (NonceUser × ℕ) :=
  (σ.db.findByStatuses pendingStatuses ++ SweepPc.rowsOf σ.relayer.sweep).filterMap
      (fun s => s.nonce.map fun m => (.settlement s.id, m)) ++
    (σ.relayer.worker.bind fun w => w.2.sending.map fun v =>
      (NonceUser.settlement w.1, v.nonce)).toList ++
    σ.dvps.zipIdx.filterMap (fun d => d.1.sendNonce.map fun m => (.dvpSend d.2, m)) ++
    (σ.node.mempool.filter Tx.isDvp).map fun tx => (.dvpPending tx, tx.nonce)

/-- The nonce that a thread takes in this step, not having had it: a fresh job starts with the
local nonce or refetches the pending count, a DvP call looks the pending count up. -/
def State.picks (σ : State) : Event → Option (NonceUser × ℕ)
  | .job .found =>
    match σ.relayer.worker with
    | some (id, .find) => (σ.db.findById id).bind fun s =>
        if s.status = .complianceApproved then some (.settlement id, σ.relayer.localNonce) else none
    | _ => none
  | .job .counted => (σ.refetch (.job .counted)).map fun r => (.settlement r.1, σ.node.pendingCount)
  | .dvp i .counted =>
    match σ.dvps[i]? with
    | some (.populate ..) => some (.dvpSend i, σ.node.pendingCount)
    | _ => none
  | _ => none

def State.returned (σ : State) : Event → List Tx
  | .newHead drop blocks =>
    (σ.node.withHead drop blocks).mempool.filter fun tx => tx.isDvp && tx ∉ σ.node.mempool
  | _ => []

/-- Nobody takes a nonce that another user has, and no DvP transaction returns to one. -/
def PicksFree (σ : State) (ev : Event) : Prop :=
  (∀ p ∈ σ.picks ev, ∀ q ∈ σ.nonceUsers, q.2 = p.2 → q.1 = p.1) ∧
    ∀ tx ∈ σ.returned ev, ∀ q ∈ σ.nonceUsers, q.2 = tx.nonce → q.1 = .dvpPending tx

instance (σ : State) (ev : Event) : Decidable (PicksFree σ ev) :=
  inferInstanceAs (Decidable ((∀ _ ∈ _, ∀ _ ∈ _, _) ∧ ∀ _ ∈ _, ∀ _ ∈ _, _))

/-- What the node accepts between two states is under a nonce that no other settlement in
SUBMITTED or CONFIRMED has stored and no DvP transaction is pending under. -/
def State.AcceptsUnshared (σ σ' : State) : Prop :=
  ∀ a, σ'.node.accepted = σ.node.accepted ++ [a] →
    (∀ s ∈ σ.db.findByStatuses pendingStatuses, s.nonce = some a.tx.nonce →
      a.sender = .settlement s.id) ∧
    ∀ tx ∈ σ.node.mempool, tx.isDvp = true → tx.nonce ≠ a.tx.nonce

variable {cfg : Config} {σ σ' : State} {ev : Event} {op : DbOp} {s : Settlement}
variable {id : SettlementId} {u u' : NonceUser} {m : ℕ}

theorem State.Uses.mem (hu : σ.Uses u m) : (u, m) ∈ σ.nonceUsers := by
  simp only [nonceUsers, List.mem_append, List.mem_filterMap, List.mem_map, List.mem_filter,
    Option.mem_toList, Option.map_eq_some_iff, Prod.mk.injEq]
  cases hu with
  | @row s m hs hm => exact .inl (.inl (.inl ⟨s, .inl hs, m, hm, rfl, rfl⟩))
  | @resend t m ht hm => exact .inl (.inl (.inl ⟨t, .inr ht, m, hm, rfl, rfl⟩))
  | job hworker hv => exact .inl (.inl (.inr (by simp [hworker, hv])))
  | @dvpSend i m call rest hdvp =>
    refine .inl (.inr ⟨(.send m call rest, i), ?_, m, rfl, rfl, rfl⟩)
    rw [List.mem_zipIdx_iff_getElem?]
    exact hdvp
  | dvpPending ht hdvp => exact .inr ⟨_, ⟨ht, hdvp⟩, rfl, rfl⟩

theorem Writes.open_origin (hw : Writes σ ev op) (hs : σ.db.findById id = some s)
    (hopen : (op.onRow σ.now s).status ∈ pendingStatuses)
    (hm : (op.onRow σ.now s).nonce = some m) : σ.Uses (.settlement id) m := by
  have hid := Db.id_of_findById hs
  have hold : s.status ∈ pendingStatuses → s.nonce = some m → σ.Uses (.settlement id) m := by
    intro hst hn
    rw [← hid]
    exact .row (Db.found_by_status hs hst) hn
  cases hw with
  | idle | insert | book => exact hold hopen hm
  | resend =>
    simp only [DbOp.onRow] at hopen hm
    split_ifs at hopen hm <;> exact hold hopen hm
  | @submitted k v o r hworker =>
    rcases onRow_transition_cases σ.now s k .submitted (submittedOptions v) with
      heq | ⟨hk, -, heq⟩ <;> rw [heq] at hopen hm
    · exact hold hopen hm
    · obtain rfl := Option.some.inj hm
      rw [hid] at hk
      exact hk ▸ .job hworker rfl
  | reorg | confirm =>
    rcases onRow_transition_cases σ.now s _ _ _ with heq | ⟨-, hallow, heq⟩ <;> rw [heq] at hopen hm
    · exact hold hopen hm
    · refine hold ?_ hm
      simp only [TransitionOptions.allows, reorgOptions, confirmOptions, Option.all_some,
        List.contains_iff_mem, List.mem_singleton] at hallow
      simp [hallow, pendingStatuses]
  | _ =>
    rcases onRow_transition_cases σ.now s _ _ _ with heq | ⟨-, -, heq⟩ <;> rw [heq] at hopen hm
    · exact hold hopen hm
    · simp [Settlement.withTransition, pendingStatuses] at hopen

theorem dvpStart_ne_send (request : DvpRequest) {call : Call} {rest : List Call} :
    dvpStart request ≠ .send m call rest := by
  intro h
  unfold dvpStart at h
  split at h <;> cases h

theorem step_dvpSend {i : ℕ} {call : Call} {rest : List Call} (h : step cfg σ ev = some σ')
    (hdvp : σ'.dvps[i]? = some (.send m call rest)) :
    σ.dvps[i]? = some (.send m call rest) ∨ σ.picks ev = some (.dvpSend i, m) := by
  cases stepsTo h with
  | @dvp j pc e out hj hout =>
    rcases getElem?_set_cases hdvp with ⟨rfl, hmoved⟩ | ⟨-, hold⟩
    · have hpc : out.pc = .send m call rest := hmoved.symm
      right
      cases pc <;> cases e <;> simp only [dvpStep, reduceCtorEq] at hout
      case populate.counted call₀ rest₀ =>
        cases hout
        cases hpc
        simp only [State.picks, hj]
      case allowance.allowanceRead dto baseUnits deadline allowance =>
        cases hout
        unfold dvpApproveOrFund at hpc
        split_ifs at hpc
      case send.sent outcome =>
        rcases outcome with reply | e <;> simp only at hout
        · split_ifs at hout <;> cases hout <;> cases hpc
        · cases hout
          cases hpc
      case wait.mined tx rest₀ =>
        split at hout <;> cases hout
        split_ifs at hpc
        cases rest₀ <;> cases hpc
      all_goals
        cases hout
        cases hpc
    · exact .inl hold
  | dvpCall request =>
    rcases getElem?_snoc_cases hdvp with ⟨-, hnew⟩ | ⟨-, hold⟩
    · exact absurd hnew.symm (dvpStart_ne_send request)
    · exact .inl hold
  | crash => cases hdvp
  | _ => exact .inl hdvp

theorem step_pending {tx : Tx} (hc : Custody σ) (h : step cfg σ ev = some σ')
    (ht : tx ∈ σ'.node.mempool) (hdvp : tx.isDvp = true) :
    tx ∈ σ.node.mempool ∨ tx ∈ σ.returned ev ∨
      ∃ i, Accepts σ ev ⟨.dvp i, tx⟩ ∧ σ'.node.accepted = σ.node.accepted ++ [⟨.dvp i, tx⟩] := by
  have settlement : ∀ {k : SettlementId} {t : Tx}, Accepts σ ev ⟨.settlement k, t⟩ → t ≠ tx := by
    rintro k t ha rfl
    obtain ⟨s, -, hcall⟩ := ha.pays hc
    rw [Tx.isDvp, hcall] at hdvp
    cases hdvp
  have hmoves := step_node h
  generalize σ'.node = node at hmoves ht
  cases hmoves with
  | keep => exact .inl ht
  | drop => exact .inl (List.mem_of_mem_filter ht)
  | head =>
    by_cases hold : tx ∈ σ.node.mempool
    · exact .inl hold
    · exact .inr (.inl (List.mem_filter.mpr ⟨ht, by simp [hdvp, hold]⟩))
  | job hworker =>
    rcases List.mem_append.mp ht with ht | ht
    · exact .inl (List.mem_of_mem_filter ht)
    · exact absurd (List.mem_singleton.mp ht).symm (settlement (.job hworker))
  | sweep hsweep hunits =>
    rcases List.mem_append.mp ht with ht | ht
    · exact .inl (List.mem_of_mem_filter ht)
    · exact absurd (List.mem_singleton.mp ht).symm (settlement (.sweep hsweep hunits))
  | dvp hsend =>
    rcases List.mem_append.mp ht with ht | ht
    · exact .inl (List.mem_of_mem_filter ht)
    · obtain rfl := List.mem_singleton.mp ht
      exact .inr (.inr ⟨_, .dvp hsend, rfl⟩)

theorem step_sending {pc' : JobPc} {v' : JobVars} (hc : Custody σ) (h : step cfg σ ev = some σ')
    (hworker : σ'.relayer.worker = some (id, pc')) (hv' : pc'.sending = some v') :
    σ.Uses (.settlement id) v'.nonce ∨ σ.picks ev = some (.settlement id, v'.nonce) := by
  rcases step_job_nonce h hworker (JobPc.vars_of_sending hv') with
    ⟨pc, v, hworker₀, -, hnonce, hsend⟩ | ⟨rfl, hnonce, v, cls, hworker₀, hfresh⟩ |
    ⟨rfl, hworker₀, s, hs, hstatus, hstart⟩
  · rw [hnonce]
    exact .inl (.job hworker₀ (hsend hv'))
  · right
    simp [State.picks, State.refetch, hworker₀, hfresh, hnonce]
  · obtain ⟨-, -, hresume, hv⟩ := startJob_some hstart
    rcases hstatus with hst | hst
    · right
      have hfresh : v'.isResume = false := by simp [hresume, hst]
      simp [State.picks, hworker₀, hs, hst, hv, hfresh]
    · left
      obtain ⟨n, hn⟩ := Option.isSome_iff_exists.mp ((hc.columns _ s hs).sent (.inl hst)).1
      have hnonce : v'.nonce = n := by simp [hv, hresume, hst, hn]
      rw [hnonce, ← Db.id_of_findById hs]
      exact .row (Db.found_by_status hs (by simp [hst, pendingStatuses])) hn

/-- A use that a step brings: a nonce picked, a DvP transaction returned to the mempool, or the
one a DvP call has just sent, which takes over the use of its call. -/
inductive NewUse (σ σ' : State) (ev : Event) : NonceUser → ℕ → Prop
  | picked {u : NonceUser} {m : ℕ} (hpick : σ.picks ev = some (u, m)) : NewUse σ σ' ev u m
  | returned {tx : Tx} (ht : tx ∈ σ.returned ev) : NewUse σ σ' ev (.dvpPending tx) tx.nonce
  | sent {i : ℕ} {tx : Tx} (ha : Accepts σ ev ⟨.dvp i, tx⟩)
      (hacc : σ'.node.accepted = σ.node.accepted ++ [⟨.dvp i, tx⟩]) :
      NewUse σ σ' ev (.dvpPending tx) tx.nonce

theorem uses_step (hc : Custody σ) (h : step cfg σ ev = some σ') (hu : σ'.Uses u m) :
    σ.Uses u m ∨ NewUse σ σ' ev u m := by
  cases hu with
  | @row s m hs hm =>
    rw [Db.mem_findByStatuses] at hs
    obtain ⟨op, hw, -, ⟨r, hr, rfl⟩ | ⟨-, hreceived, -⟩⟩ := step_row h hs.1
    · rw [onRow_id] at hr ⊢
      exact .inl (hw.open_origin hr hs.2 hm)
    · simp [hreceived, pendingStatuses] at hs
  | job hworker hv => exact (step_sending hc h hworker hv).imp_right .picked
  | @resend t m ht hm =>
    rcases step_sweep_rows h ht with ht | ht
    · exact .inl (.resend ht hm)
    · rw [Db.mem_findByStatuses, List.mem_singleton] at ht
      refine .inl (.row (Db.mem_findByStatuses.mpr ⟨ht.1, ?_⟩) hm)
      simp [ht.2, pendingStatuses]
  | dvpSend hdvp => exact (step_dvpSend h hdvp).imp .dvpSend .picked
  | dvpPending ht hdvp =>
    rcases step_pending hc h ht hdvp with ht | ht | ⟨i, ha, hacc⟩
    · exact .inl (.dvpPending ht hdvp)
    · exact .inr (.returned ht)
    · exact .inr (.sent ha hacc)

theorem not_uses_of_sent {i : ℕ} {tx : Tx} (h : step cfg σ ev = some σ')
    (ha : Accepts σ ev ⟨.dvp i, tx⟩) : ¬σ'.Uses (.dvpSend i) m := by
  intro hu
  cases ha with
  | dvp hdvp =>
    cases hu with
    | dvpSend hsend =>
      cases stepsTo h with
      | dvp hj hout =>
        obtain ⟨hlt, -⟩ := List.getElem?_eq_some_iff.mp hj
        simp only [State.afterDvp, List.getElem?_set_self hlt] at hsend
        rw [hdvp] at hj
        cases hj
        simp only [dvpStep] at hout
        split_ifs at hout <;> cases hout <;> cases hsend

theorem returned_eq (hnode : NodeInv σ.node) {tx tx' : Tx} (ht : tx ∈ σ.returned ev)
    (ht' : tx' ∈ σ.returned ev) (hnonce : tx.nonce = tx'.nonce) : tx = tx' := by
  cases ev with
  | newHead drop blocks =>
    have orphaned : ∀ {t : Tx}, t ∈ σ.returned (.newHead drop blocks) →
        ∃ e ∈ σ.node.entries, e.tx = t := by
      intro t ht
      simp only [State.returned, Node.withHead, List.mem_filter, List.mem_append, List.mem_map,
        Bool.and_eq_true, decide_eq_true_eq] at ht
      obtain ⟨⟨hmem | ⟨e, he, rfl⟩, -⟩, -, hnot⟩ := ht
      · exact absurd hmem hnot
      · obtain ⟨b, hb, hbe⟩ := mem_chainEntries.mp he
        exact ⟨e, mem_chainEntries.mpr ⟨b, List.mem_of_mem_drop hb, hbe⟩, rfl⟩
    obtain ⟨e, he, rfl⟩ := orphaned ht
    obtain ⟨e', he', rfl⟩ := orphaned ht'
    rw [hnode.sequential.eq_of_number_eq he he' hnonce]
  | _ => cases ht

def State.Exclusive (σ : State) : Prop := ∀ u u' m, σ.Uses u m → σ.Uses u' m → u = u'

theorem newUse_eq (hnode : NodeInv σ.node) (hc : Custody σ) (hI : σ.Exclusive)
    (hk : PicksFree σ ev) (h : step cfg σ ev = some σ') (hnew : NewUse σ σ' ev u m)
    (hu' : σ'.Uses u' m) : u = u' := by
  have hu := uses_step hc h hu'
  cases hnew with
  | picked hpick =>
    rcases hu with hold | hnew'
    · exact (hk.1 _ hpick _ hold.mem rfl).symm
    · cases hnew' with
      | picked hpick' => exact (Prod.ext_iff.mp (Option.some.inj (hpick.symm.trans hpick'))).1
      | returned ht => cases ev <;> first | cases hpick | cases ht
      | sent ha => cases ha; cases hpick
  | @returned tx ht =>
    rcases hu with hold | hnew'
    · exact (hk.2 tx ht _ hold.mem rfl).symm
    · generalize hn : tx.nonce = n at hnew'
      cases hnew' with
      | picked hpick => cases ev <;> first | cases hpick | cases ht
      | returned ht' => rw [returned_eq hnode ht ht' hn]
      | sent ha => cases ha; cases ht
  | @sent i tx ha hacc =>
    rcases hu with hold | hnew'
    · have hsend : σ.Uses (.dvpSend i) tx.nonce := by
        cases ha with
        | dvp hdvp => exact .dvpSend hdvp
      rw [hI _ _ _ hold hsend] at hu'
      exact absurd hu' (not_uses_of_sent h ha)
    · generalize tx.nonce = n at hnew'
      cases hnew' with
      | picked hpick => cases ha; cases hpick
      | returned ht => cases ha; cases ht
      | sent _ hacc' =>
        have hlast := List.append_cancel_left (hacc.symm.trans hacc')
        rw [List.cons.injEq, Accepted.mk.injEq] at hlast
        rw [hlast.1.2]

theorem exclusive_step (hnode : NodeInv σ.node) (hc : Custody σ) (hI : σ.Exclusive)
    (hk : PicksFree σ ev) (h : step cfg σ ev = some σ') : σ'.Exclusive := by
  intro u u' m hu hu'
  rcases uses_step hc h hu with hold | hnew
  · rcases uses_step hc h hu' with hold' | hnew'
    · exact hI u u' m hold hold'
    · exact (newUse_eq hnode hc hI hk h hnew' hu).symm
  · exact newUse_eq hnode hc hI hk h hnew hu'

theorem exclusive_reach {base opening : ℕ} (h : RailReach cfg PicksFree base opening σ) :
    σ.Exclusive := by
  refine h.invariant ?_ fun _ _ _ hr hI hk hs =>
    exclusive_step (nodeInv_reach hr) (custody_reach hr) hI hk hs
  intro u u' m hu
  cases hu with
  | row hs =>
    rw [Db.mem_findByStatuses] at hs
    rw [(findById_initial hs.1).1] at hs
    simp [genesisRow, pendingStatuses] at hs
  | job hworker => cases hworker
  | resend ht => cases ht
  | dvpSend hdvp => cases hdvp
  | dvpPending ht => cases ht

theorem Accepts.unshared {a : Accepted} (ha : Accepts σ ev a) (hc : Custody σ) (hI : σ.Exclusive) :
    (∀ s ∈ σ.db.findByStatuses pendingStatuses, s.nonce = some a.tx.nonce →
      a.sender = .settlement s.id) ∧
    ∀ tx ∈ σ.node.mempool, tx.isDvp = true → tx.nonce ≠ a.tx.nonce := by
  obtain ⟨u, hu, hsender, hpending⟩ : ∃ u, σ.Uses u a.tx.nonce ∧
      (∀ id, u = .settlement id → a.sender = .settlement id) ∧ ∀ tx, u ≠ .dvpPending tx := by
    cases ha with
    | job hworker =>
      exact ⟨_, .job hworker rfl, fun id hid => by cases hid; rfl, fun _ => NonceUser.noConfusion⟩
    | @sweep t rest fees gasLimit baseUnits reply hsweep =>
      have ht : t ∈ SweepPc.rowsOf σ.relayer.sweep := by
        simp [hsweep, SweepPc.rowsOf, SweepPc.rows]
      obtain ⟨n, hn⟩ := Option.isSome_iff_exists.mp (hc.walked t (.sweep ht)).1
      have hnonce : (resendTx t fees gasLimit baseUnits).nonce = n := by simp [resendTx, hn]
      rw [hnonce]
      exact ⟨_, .resend ht hn, fun id hid => by cases hid; rfl, fun _ => NonceUser.noConfusion⟩
    | dvp hdvp =>
      exact ⟨_, .dvpSend hdvp, fun _ => NonceUser.noConfusion, fun _ => NonceUser.noConfusion⟩
  refine ⟨fun s hs hn => hsender _ (hI _ _ _ hu (.row hs hn)), fun tx ht hdvp hn => ?_⟩
  exact hpending tx (hI _ _ _ hu (hn ▸ .dvpPending ht hdvp))

/-- In runs where nobody takes a nonce in use, no transaction is accepted under a shared nonce. -/
theorem acceptsUnshared_of_picksFree {base opening : ℕ}
    (h : RailReach cfg PicksFree base opening σ) (hs : step cfg σ ev = some σ') :
    σ.AcceptsUnshared σ' := by
  intro a hacc
  rcases step_accepted hs with heq | ⟨b, hb, heq⟩
  · rw [heq] at hacc
    simp at hacc
  · have hlast := List.append_cancel_left (heq.symm.trans hacc)
    rw [List.cons.injEq] at hlast
    rw [← hlast.1]
    exact hb.unshared (custody_reach h) (exclusive_reach h)

theorem fresh_broadcast_unshared :
    ∃ σ σ', RailReach (plainConfig 3) PicksFree 7 100 σ ∧
      step (plainConfig 3) σ (.job (.sent (.accepted none))) = some σ' ∧
      σ'.node.accepted.length = 1 ∧ σ.AcceptsUnshared σ' := by
  obtain ⟨σ, hr, hany⟩ := exists_reach_of_checkedRun (step (plainConfig 3)) PicksFree
    (initial (plainConfig 3) 7 100) (bootEvents ++ submitEvents 0 1 payout ++ prepareEvents)
    (fun σ => (step (plainConfig 3) σ (.job (.sent (.accepted none)))).any
      fun σ' => σ'.node.accepted.length = 1) (by decide +kernel)
  obtain ⟨σ', hs, hlength⟩ := (Option.any_eq_true _ _).mp hany
  exact ⟨σ, σ', hr, hs, of_decide_eq_true hlength, acceptsUnshared_of_picksFree hr hs⟩

def secondPayout : CreateSettlementDto :=
  { instructionId := "payout-2", toAddress := "0xother", amount := 6 }

/-- The node forgets a transfer and the process restarts. Recovery finds the pending count at its
nonce and sends it again; as a resumed job it does not advance the local nonce, which the next
payout takes. -/
def reusedAfterRestart : List Event :=
  bootEvents ++ submitEvents 0 1 payout ++ sendEvents ++
    [.dropTx (plainTransfer 7 payout), .crash, .boot, .recover .counted, .recover .found,
      .recover .receipt, .recover .txLookup] ++ sendEvents ++ submitEvents 0 2 secondPayout ++
    [.job .found, .job (.estimated none), .job (.feeData ⟨some 2000, some 200⟩)]

theorem nonce_reused_after_restart :
    ¬∀ cfg base opening σ ev σ', Reach (step cfg) (initial cfg base opening) σ →
      step cfg σ ev = some σ' → σ.AcceptsUnshared σ' := by
  intro hall
  obtain ⟨σ, hr, hbad⟩ := exists_reach_of_run (step (plainConfig 3))
    (initial (plainConfig 3) 7 100) reusedAfterRestart
    (fun σ => (step (plainConfig 3) σ (.job (.sent (.accepted none)))).any fun σ' =>
      ∃ a ∈ σ'.node.accepted, σ'.node.accepted = σ.node.accepted ++ [a] ∧
        a.sender = .settlement 2 ∧ ∃ s ∈ σ.db.findByStatuses pendingStatuses,
          s.id = 1 ∧ s.nonce = some a.tx.nonce) (by decide +kernel)
  obtain ⟨σ', hs, hshared⟩ := (Option.any_eq_true _ _).mp hbad
  obtain ⟨a, -, hacc, hsender, s, hopen, hid, hn⟩ := of_decide_eq_true hshared
  have hsame := (hall _ _ _ σ _ σ' hr hs a hacc).1 s hopen hn
  rw [hsender, hid] at hsame
  cases hsame

end Rail
