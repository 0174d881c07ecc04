import SettlementRail.System.LedgerEvolution
import SettlementRail.System.NodeMoves
import SettlementRail.System.ReceiptBranches
import SettlementRail.System.Scenario

/-! How deep a transaction is when the listener writes CONFIRMED or FINAL for it. The head number
is read once for a whole poll, each receipt later, and the write comes later still. -/

namespace Rail
open Foundation

/-- A new head is not lower than the one it replaces. -/
def HeadRises (σ : State) : Event → Prop
  | .newHead drop blocks => σ.node.chain.length ≤ (newHead drop blocks σ.node.chain).length
  | _ => True

instance (σ : State) : DecidablePred (HeadRises σ)
  | .newHead _ _ => inferInstanceAs (Decidable (_ ≤ _))
  | .boot | .crash | .drain | .tick _ | .submit _ | .create _ _ | .job _ | .startSweep | .sweep _
  | .recover _ | .startPoll | .transferEvent _ | .listen _ _ | .dvpCall _ | .dvp _ _
  | .dropTx _ => .isTrue trivial

/-- The transaction succeeded in the block of the receipt, and that block of the canonical chain
is `depth` deep, the head being one deep. -/
structure Node.Holds (node : Node) (txHash : TxHash) (r : Receipt) (depth : ℕ) : Prop where
  block : ∃ b, node.chain[r.blockNumber - 1]? = some b ∧ b.hash = r.blockHash ∧
    ∃ e ∈ b.entries, e.tx = txHash ∧ e.success = true
  mined : 0 < r.blockNumber
  deep : r.blockNumber + depth ≤ node.chain.length + 1

/-- Thread `i` is on its way from the receipt `r` to the writes that make the row FINAL. -/
def State.Finalizing (i : ℕ) (s : Settlement) (r : Receipt) (σ : State) : Prop :=
  ∃ c, σ.listeners[i]? = some c ∧ c.pc.finalizing = some (s, r)

def State.Confirming (i : ℕ) (s : Settlement) (r : Receipt) (σ : State) : Prop :=
  ∃ c, σ.listeners[i]? = some c ∧ c.pc.confirming = some (s, r)

/-- In the run `es`, thread `i` read a receipt for the hash of `s`, the transaction was then
`depth` deep, and from that moment to the end `P` has held. -/
def ReadDeep (cfg : Config) (σ₀ : State) (es : List Event) (σ : State) (P : State → Prop) (i : ℕ)
    (s : Settlement) (r : Receipt) (depth : ℕ) : Prop :=
  ∃ es₁ es₂ ρ ρ' txHash, es = es₁ ++ .listen i .receipt :: es₂ ∧
    RunUnder (step cfg) HeadRises σ₀ es₁ ρ ∧ step cfg ρ (.listen i .receipt) = some ρ' ∧ P ρ' ∧
    RunUnder (step cfg) (fun σ ev => HeadRises σ ev ∧ P σ) ρ' es₂ σ ∧
    s.txHash = some txHash ∧ ρ.node.Holds txHash r depth

variable {cfg : Config} {σ₀ σ σ' : State} {ev : Event} {op : DbOp} {s t : Settlement}
variable {node : Node} {r : Receipt} {i head depth : ℕ} {es : List Event} {id : SettlementId}

theorem holds_of_receipt {txHash : TxHash} (h : node.getTransactionReceipt txHash = some r)
    (hsuccess : r.success = true) (hhead : head ≤ node.currentBlock)
    (hdeep : (depth : ℤ) ≤ confirmations head r) : node.Holds txHash r depth := by
  obtain ⟨⟨index, b, e⟩, hlocate, rfl⟩ := Option.map_eq_some_iff.mp h
  obtain ⟨hblock, hmem, hp⟩ := locate_spec hlocate
  refine ⟨⟨b, hblock, rfl, e, hmem, of_decide_eq_true hp, hsuccess⟩, Nat.succ_pos _, ?_⟩
  have hle : head ≤ node.chain.length := hhead
  simp only [confirmations, Node.receiptOf] at hdeep ⊢
  omega

def State.HeadsRead (σ : State) : Prop :=
  ∀ (i : ℕ) (c : ListenCall) (head : ℕ), σ.listeners[i]? = some c → c.pc.headRead = some head → head ≤ σ.node.currentBlock

theorem step_currentBlock (hrises : HeadRises σ ev) (h : step cfg σ ev = some σ') :
    σ.node.currentBlock ≤ σ'.node.currentBlock := by
  have hmoves := step_node h
  generalize σ'.node = node at hmoves
  cases hmoves with
  | head => exact hrises
  | _ => exact le_rfl

theorem headsRead_step (hI : σ.HeadsRead) (hrises : HeadRises σ ev)
    (h : step cfg σ ev = some σ') : σ'.HeadsRead := by
  intro i c head hc hread
  have hle := step_currentBlock hrises h
  rcases step_listener h hc with hpc | ⟨txHash, hpc⟩ | hold | ⟨e, c₀, out, -, hc₀, hout, hpc⟩
  · rw [hpc] at hread
    cases hread
  · rw [hpc] at hread
    cases hread
  · exact (hI i c head hold hread).trans hle
  · rw [hpc] at hread
    rcases (listenStep_spec hout).head with hnone | hsame | hnow
    · rw [hnone] at hread
      cases hread
    · exact (hI i c₀ head hc₀ (hsame ▸ hread)).trans hle
    · rw [hnow] at hread
      exact Option.some.inj hread ▸ hle

theorem headsRead_reach {base opening : ℕ} (h : RailReach cfg HeadRises base opening σ) :
    σ.HeadsRead :=
  h.invariant (fun i c head hc => by cases hc) fun _ _ _ _ hI hc hs => headsRead_step hI hc hs

theorem finalizing_entry (h : step cfg σ ev = some σ') (hnot : ¬σ.Finalizing i s r)
    (hP : σ'.Finalizing i s r) : ev = .listen i .receipt ∧ ∃ c head rest,
      σ.listeners[i]? = some c ∧ c.pc = .receipt s head rest ∧
        decideReceipt cfg.listener s head (s.txHash.bind σ.node.getTransactionReceipt) =
          .finalize r := by
  obtain ⟨c', hc', hfinal⟩ := hP
  rcases step_listener h hc' with hpc | ⟨txHash, hpc⟩ | hold | ⟨e, c, out, rfl, hc, hout, hpc⟩
  · rw [hpc] at hfinal
    cases hfinal
  · rw [hpc] at hfinal
    cases hfinal
  · exact absurd ⟨c', hold, hfinal⟩ hnot
  · rw [hpc] at hfinal
    rcases (listenStep_spec hout).finalizing with hnone | hsame | ⟨t, head, rest, q, hread, rfl, hnew, hr⟩
    · rw [hnone] at hfinal
      cases hfinal
    · exact absurd ⟨c, hc, hsame ▸ hfinal⟩ hnot
    · rw [hnew, Option.some.injEq, Prod.mk.injEq] at hfinal
      obtain ⟨rfl, rfl⟩ := hfinal
      exact ⟨rfl, c, head, rest, hc, hread, hr⟩

theorem confirming_entry (h : step cfg σ ev = some σ') (hnot : ¬σ.Confirming i s r)
    (hP : σ'.Confirming i s r) : ev = .listen i .receipt ∧ ∃ c head rest,
      σ.listeners[i]? = some c ∧ c.pc = .receipt s head rest ∧
        decideReceipt cfg.listener s head (s.txHash.bind σ.node.getTransactionReceipt) =
          .confirm r := by
  obtain ⟨c', hc', hconfirm⟩ := hP
  rcases step_listener h hc' with hpc | ⟨txHash, hpc⟩ | hold | ⟨e, c, out, rfl, hc, hout, hpc⟩
  · rw [hpc] at hconfirm
    cases hconfirm
  · rw [hpc] at hconfirm
    cases hconfirm
  · exact absurd ⟨c', hold, hconfirm⟩ hnot
  · rw [hpc] at hconfirm
    rcases (listenStep_spec hout).confirming with hnone | ⟨t, head, rest, q, hread, rfl, hnew, hr⟩
    · rw [hnone] at hconfirm
      cases hconfirm
    · rw [hnew, Option.some.injEq, Prod.mk.injEq] at hconfirm
      obtain ⟨rfl, rfl⟩ := hconfirm
      exact ⟨rfl, c, head, rest, hc, hread, hr⟩

theorem readDeep_of_entry {base opening : ℕ} {P : State → Prop}
    (hrun : RunUnder (step cfg) HeadRises (initial cfg base opening) es σ)
    (hinit : ¬P (initial cfg base opening)) (hP : P σ)
    (hentry : ∀ ρ ρ' ev, step cfg ρ ev = some ρ' → ¬P ρ → P ρ' →
      ev = .listen i .receipt ∧ ∃ c head rest, ρ.listeners[i]? = some c ∧
        c.pc = .receipt s head rest ∧ s.txHash.bind ρ.node.getTransactionReceipt = some r ∧
        r.success = true ∧ (depth : ℤ) ≤ confirmations head r) :
    ReadDeep cfg (initial cfg base opening) es σ P i s r depth := by
  obtain ⟨es₁, ev, es₂, ρ, ρ', rfl, h₁, hnot, hs, hP', h₂⟩ := hrun.last_entry hinit hP
  obtain ⟨rfl, c, head, rest, hc, hpc, hreceipt, hsuccess, hdeep⟩ := hentry ρ ρ' ev hs hnot hP'
  obtain ⟨txHash, hhash, hreceipt⟩ := Option.bind_eq_some_iff.mp hreceipt
  have hhead := headsRead_reach h₁.reach i c head hc (by rw [hpc]; rfl)
  exact ⟨es₁, es₂, ρ, ρ', txHash, rfl, h₁, hs, hP', h₂, hhash,
    holds_of_receipt hreceipt hsuccess hhead hdeep⟩

theorem finalizing_readDeep {base opening : ℕ}
    (hrun : RunUnder (step cfg) HeadRises (initial cfg base opening) es σ)
    (hP : σ.Finalizing i s r) : ReadDeep cfg (initial cfg base opening) es σ
      (State.Finalizing i s r) i s r cfg.listener.confirmationsFinal := by
  refine readDeep_of_entry hrun (fun ⟨c, hc, _⟩ => by cases hc) hP fun ρ ρ' ev hs hnot hP' => ?_
  obtain ⟨hev, c, head, rest, hc, hpc, hr⟩ := finalizing_entry hs hnot hP'
  obtain ⟨hreceipt, hsuccess, -, hdeep⟩ := decideReceipt_finalize_iff.mp hr
  exact ⟨hev, c, head, rest, hc, hpc, hreceipt, hsuccess, hdeep⟩

theorem confirming_readDeep {base opening : ℕ}
    (hrun : RunUnder (step cfg) HeadRises (initial cfg base opening) es σ)
    (hP : σ.Confirming i s r) : ReadDeep cfg (initial cfg base opening) es σ
      (State.Confirming i s r) i s r cfg.listener.confirmationsConfirmed := by
  refine readDeep_of_entry hrun (fun ⟨c, hc, _⟩ => by cases hc) hP fun ρ ρ' ev hs hnot hP' => ?_
  obtain ⟨hev, c, head, rest, hc, hpc, hr⟩ := confirming_entry hs hnot hP'
  obtain ⟨hreceipt, hsuccess, -, hdeep, -⟩ := decideReceipt_confirm hr
  exact ⟨hev, c, head, rest, hc, hpc, hreceipt, hsuccess, hdeep⟩

theorem Writes.makes_booked {amount : Amount} (hw : Writes σ ev (.book id amount)) :
    ∃ i t r, σ.Finalizing i t r ∧ t.id = id := by
  cases hw with
  | @book i call t r head rest o _ hcall hpc =>
    exact ⟨i, t, r, ⟨call, hcall, by rw [hpc]; rfl⟩, rfl⟩

theorem Writes.makes_final (hw : Writes σ ev op) (hs : s.status ≠ .final)
    (hfinal : (op.onRow σ.now s).status = .final) : ∃ i t r, σ.Finalizing i t r ∧ s.id = t.id ∧
      op.onRow σ.now s = s.withTransition .final (finalOptions t) σ.now := by
  cases hw with
  | idle | insert | book => exact absurd hfinal hs
  | resend =>
    simp only [DbOp.onRow] at hfinal
    split_ifs at hfinal <;> exact absurd hfinal hs
  | @flip i call t r head rest o _ hcall hpc =>
    rcases onRow_transition_cases σ.now s t.id .final (finalOptions t) with heq | ⟨hid, -, heq⟩
    · exact absurd (heq ▸ hfinal) hs
    · exact ⟨i, t, r, ⟨call, hcall, by rw [hpc]; rfl⟩, hid, heq⟩
  | _ =>
    rcases onRow_transition_cases σ.now s _ _ _ with heq | ⟨-, -, heq⟩ <;> rw [heq] at hfinal
    · exact absurd hfinal hs
    · cases hfinal

theorem Writes.makes_confirmed (hw : Writes σ ev op) (hs : s.status ≠ .confirmed)
    (hconfirmed : (op.onRow σ.now s).status = .confirmed) : ∃ i t r, σ.Confirming i t r ∧
      s.id = t.id ∧ op.onRow σ.now s = s.withTransition .confirmed (confirmOptions t r) σ.now := by
  cases hw with
  | idle | insert | book => exact absurd hconfirmed hs
  | resend =>
    simp only [DbOp.onRow] at hconfirmed
    split_ifs at hconfirmed <;> exact absurd hconfirmed hs
  | @confirm i call t r head rest o _ hcall hpc =>
    rcases onRow_transition_cases σ.now s t.id .confirmed (confirmOptions t r) with
      heq | ⟨hid, -, heq⟩
    · exact absurd (heq ▸ hconfirmed) hs
    · exact ⟨i, t, r, ⟨call, hcall, by rw [hpc]; rfl⟩, hid, heq⟩
  | _ =>
    rcases onRow_transition_cases σ.now s _ _ _ with heq | ⟨-, -, heq⟩ <;> rw [heq] at hconfirmed
    · exact absurd hconfirmed hs
    · cases hconfirmed

theorem Writes.row_after (hw : Writes σ ev op)
    (hs : (op.apply σ.now σ.db).findById id = some s) :
    (∃ s₀, σ.db.findById id = some s₀ ∧ s = op.onRow σ.now s₀) ∨ s.status = .received := by
  rcases findById_apply_cases hs with hold | ⟨-, rfl, -⟩
  · exact .inl hold
  · cases hw
    exact .inr rfl

theorem Db.status_ne {db : Db} {status : SettlementStatus} (hs : db.findById id = some s)
    (h : (db.findById id).map Settlement.status ≠ some status) : s.status ≠ status := by
  rintro rfl
  exact h (by rw [hs]; rfl)

/-- Ledger entries, FINAL and CONFIRMED appear only behind a receipt that was deep enough when
it was read. -/
theorem written_readDeep {base opening : ℕ}
    (hrun : RunUnder (step cfg) HeadRises (initial cfg base opening) es σ)
    (hs : step cfg σ ev = some σ') :
    (∀ id, σ'.db.entriesOf id ≠ σ.db.entriesOf id → ∃ i t r, t.id = id ∧
      ReadDeep cfg (initial cfg base opening) es σ (State.Finalizing i t r) i t r
        cfg.listener.confirmationsFinal) ∧
    (∀ id s', σ'.db.findById id = some s' → s'.status = .final →
      (σ.db.findById id).map Settlement.status ≠ some .final → ∃ i t r, t.id = id ∧
        s'.txHash = t.txHash ∧ ReadDeep cfg (initial cfg base opening) es σ
          (State.Finalizing i t r) i t r cfg.listener.confirmationsFinal) ∧
    (∀ id s', σ'.db.findById id = some s' → s'.status = .confirmed →
      (σ.db.findById id).map Settlement.status ≠ some .confirmed → ∃ i t r, t.id = id ∧
        s'.txHash = t.txHash ∧ s'.confirmedBlockHash = some r.blockHash ∧
        s'.confirmedBlockNumber = some r.blockNumber ∧
        ReadDeep cfg (initial cfg base opening) es σ (State.Confirming i t r) i t r
          cfg.listener.confirmationsConfirmed) := by
  obtain ⟨op, hw, hdb⟩ := step_db hs
  have hreach := hrun.reach
  refine ⟨fun id hne => ?_, fun id s' hs' hfinal hbefore => ?_, fun id s' hs' hconf hbefore => ?_⟩
  · rw [hdb] at hne
    rcases hw.entriesOf_cases (custody_reach hreach) (paired_reach hreach) id with
      heq | ⟨-, -, s, -, rfl, -⟩
    · exact absurd heq hne
    · obtain ⟨i, t, r, hP, hid⟩ := hw.makes_booked
      exact ⟨i, t, r, hid, finalizing_readDeep hrun hP⟩
  · rw [hdb] at hs'
    rcases hw.row_after hs' with ⟨s, hrow, rfl⟩ | hrec
    · obtain ⟨i, t, r, hP, hid, heq⟩ := hw.makes_final (Db.status_ne hrow hbefore) hfinal
      exact ⟨i, t, r, hid.symm.trans (Db.id_of_findById hrow), by rw [heq]; rfl,
        finalizing_readDeep hrun hP⟩
    · rw [hrec] at hfinal
      cases hfinal
  · rw [hdb] at hs'
    rcases hw.row_after hs' with ⟨s, hrow, rfl⟩ | hrec
    · obtain ⟨i, t, r, hP, hid, heq⟩ := hw.makes_confirmed (Db.status_ne hrow hbefore) hconf
      refine ⟨i, t, r, hid.symm.trans (Db.id_of_findById hrow), ?_, ?_, ?_,
        confirming_readDeep hrun hP⟩ <;> rw [heq] <;> rfl
    · rw [hrec] at hconf
      cases hconf

/-- A payout five blocks deep, up to the booking the listener awaits. -/
theorem settled_payout_readDeep : ∃ es σ σ', RunUnder (step (plainConfig 3)) HeadRises
      (initial (plainConfig 3) 7 100) es σ ∧
    step (plainConfig 3) σ (.listen 0 (.written .ok)) = some σ' ∧ ∃ i t r, t.id = 1 ∧
      ReadDeep (plainConfig 3) (initial (plainConfig 3) 7 100) es σ (State.Finalizing i t r) i t r
        5 := by
  obtain ⟨σ, hrun, hany⟩ := exists_runUnder_of_checkedRun (step (plainConfig 3)) HeadRises
    (initial (plainConfig 3) 7 100) (settleEvents.dropLast.dropLast)
    (fun σ => (step (plainConfig 3) σ (.listen 0 (.written .ok))).any fun σ' =>
      σ'.db.entriesOf 1 ≠ σ.db.entriesOf 1) (by decide +kernel)
  obtain ⟨σ', hs, hne⟩ := (Option.any_eq_true _ _).mp hany
  exact ⟨_, σ, σ', hrun, hs, (written_readDeep hrun hs).1 1 (of_decide_eq_true hne)⟩

end Rail
