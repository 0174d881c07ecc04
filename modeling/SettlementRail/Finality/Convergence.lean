import SettlementRail.Finality.DepthAtRead
import SettlementRail.System.QuietPoll

/-! Where `processReceipt` leaves a row when it is applied twice to one view of the chain. -/

namespace Rail
open Foundation

/-- What `processReceipt` makes of a row, given its view: the head number and the receipt. -/
def Settlement.processed (cfg : ListenerConfig) (head : ℕ) (receipt : Option Receipt) (now : ℕ)
    (s : Settlement) : Settlement :=
  DbOp.onRowAll now (receiptOps cfg s head receipt) s

/-- `processReceipt` on the row as it is stored, with nothing else touching it. -/
def Db.processReceipt (cfg : ListenerConfig) (now head : ℕ) (receipt : Option Receipt) (db : Db)
    (id : SettlementId) : Db :=
  match db.findById id with
  | none => db
  | some s =>
    if s.txHash.isSome then DbOp.applyAll now db (receiptOps cfg s head receipt) else db

def Settlement.FollowsChain (cfg : ListenerConfig) (head : ℕ) (receipt : Option Receipt)
    (s : Settlement) : Prop :=
  match receipt with
  | none => s.status = .submitted
  | some r =>
    if r.success = false then s.status = .failed
    else if (cfg.confirmationsFinal : ℤ) ≤ confirmations head r then s.status = .final
    else if (cfg.confirmationsConfirmed : ℤ) ≤ confirmations head r then
      s.status = .confirmed ∧ s.confirmedBlockHash = some r.blockHash ∧
        s.confirmedBlockNumber = some r.blockNumber
    else s.status = .submitted

/-- At SUBMITTED with the hash of a block other than the receipt's, which is deep enough. -/
def Settlement.Wedged (cfg : ListenerConfig) (head : ℕ) (receipt : Option Receipt)
    (s : Settlement) : Prop :=
  s.status = .submitted ∧ ∃ r ∈ receipt, r.success = true ∧
    (cfg.confirmationsConfirmed : ℤ) ≤ confirmations head r ∧
    s.confirmedBlockHash.isSome ∧ s.confirmedBlockHash ≠ some r.blockHash

instance (cfg : ListenerConfig) (head : ℕ) (receipt : Option Receipt) (s : Settlement) :
    Decidable (s.Wedged cfg head receipt) := inferInstanceAs (Decidable (_ ∧ ∃ _ ∈ _, _))

variable {lcfg : ListenerConfig} {cfg : Config} {σ σ' : State} {ev : Event} {op : DbOp}
variable {s t : Settlement} {r : Receipt} {receipt : Option Receipt} {head now : ℕ}
variable {id : SettlementId}

theorem confirmed_le_final (h : ¬(lcfg.confirmationsConfirmed : ℤ) ≤ confirmations head r) :
    ¬(lcfg.confirmationsFinal : ℤ) ≤ confirmations head r := by
  have := lcfg.confirmed_le_final
  omega

theorem processed_skip (h : decideReceipt lcfg s head receipt = .skip) :
    s.processed lcfg head receipt now = s := by
  rw [Settlement.processed, receiptOps, h]
  rfl

theorem processed_reorg (h : decideReceipt lcfg s head receipt = .reorg) :
    s.processed lcfg head receipt now =
      if s.status = .confirmed then s.withTransition .submitted reorgOptions now else s := by
  rw [Settlement.processed, receiptOps, h]
  simp [DbOp.onRowAll, DbOp.onRow, TransitionOptions.allows, reorgOptions]

theorem processed_revert (h : decideReceipt lcfg s head receipt = .revert) :
    s.processed lcfg head receipt now =
      if s.status ∈ openStatuses then s.withTransition .failed revertOptions now else s := by
  rw [Settlement.processed, receiptOps, h]
  simp [DbOp.onRowAll, DbOp.onRow, TransitionOptions.allows, revertOptions, openFrom, openStatuses]

theorem processed_confirm (h : decideReceipt lcfg s head receipt = .confirm r) :
    s.processed lcfg head receipt now = s.withTransition .confirmed (confirmOptions s r) now := by
  have hstatus := (decideReceipt_confirm h).2.2.2.2
  rw [Settlement.processed, receiptOps, h]
  simp [DbOp.onRowAll, DbOp.onRow, TransitionOptions.allows, confirmOptions, hstatus]

theorem processed_finalize (h : decideReceipt lcfg s head receipt = .finalize r) :
    s.processed lcfg head receipt now =
      if s.status ∈ openStatuses then s.withTransition .final (finalOptions s) now else s := by
  rw [Settlement.processed, receiptOps, h]
  simp [DbOp.onRowAll, DbOp.onRow, TransitionOptions.allows, finalOptions, openFrom, openStatuses]

theorem mem_openStatuses {status : SettlementStatus} :
    status ∈ openStatuses ↔ status = .submitted ∨ status = .confirmed := List.mem_pair

theorem processed_none (hopen : s.status ∈ openStatuses)
    (hblock : s.status = .confirmed → s.confirmedBlockHash.isSome) :
    (s.processed lcfg head none now).status = .submitted := by
  have hact : decideReceipt lcfg s head none =
      if s.confirmedBlockHash.isSome then .reorg else .skip := rfl
  split_ifs at hact with hb
  · rw [processed_reorg hact]
    split_ifs with hst
    · rfl
    · exact (mem_openStatuses.mp hopen).resolve_right hst
  · rw [processed_skip hact]
    exact (mem_openStatuses.mp hopen).resolve_right fun hst => hb (hblock hst)

theorem processed_none_again (hst : s.status = .submitted) :
    (s.processed lcfg head none now).status = .submitted :=
  processed_none (mem_openStatuses.mpr (.inl hst)) fun h => by rw [hst] at h; cases h

theorem decideReceipt_reverted (hr : r.success = false) :
    decideReceipt lcfg s head (some r) = .revert := by
  simp only [decideReceipt, hr, Bool.not_false, if_true]

theorem processed_reverted (hr : r.success = false) (hst : s.status ∈ openStatuses ∨
    s.status = .failed) : (s.processed lcfg head (some r) now).status = .failed := by
  rw [processed_revert (decideReceipt_reverted hr)]
  split_ifs with hopen
  · rfl
  · exact hst.resolve_left hopen

def Settlement.Matches (s : Settlement) (r : Receipt) : Prop :=
  s.confirmedBlockHash = none ∨ s.confirmedBlockHash = some r.blockHash

theorem decideReceipt_of_matches (hr : r.success = true) (hm : s.Matches r) :
    decideReceipt lcfg s head (some r) =
      if (lcfg.confirmationsFinal : ℤ) ≤ confirmations head r then .finalize r
      else if (lcfg.confirmationsConfirmed : ℤ) ≤ confirmations head r ∧ s.status = .submitted then
        .confirm r
      else .skip := by
  simp only [decideReceipt, hr, Bool.not_true, Bool.false_eq_true, if_false,
    if_neg (blockHash_matches.mpr hm)]

theorem decideReceipt_of_moved (hr : r.success = true) (hm : ¬s.Matches r) :
    decideReceipt lcfg s head (some r) = .reorg := by
  have hmoved := not_not.mp (mt blockHash_matches.mp hm)
  simp only [decideReceipt, hr, Bool.not_true, Bool.false_eq_true, if_false, if_pos hmoved]

theorem processed_of_matches (hr : r.success = true) (hm : s.Matches r)
    (hopen : s.status ∈ openStatuses)
    (hrecord : s.status = .confirmed → s.confirmedBlockHash = some r.blockHash ∧
      s.confirmedBlockNumber = some r.blockNumber ∧
      (lcfg.confirmationsConfirmed : ℤ) ≤ confirmations head r) :
    (s.processed lcfg head (some r) now).FollowsChain lcfg head (some r) ∧
      (s.processed lcfg head (some r) now).Matches r := by
  have hact := @decideReceipt_of_matches lcfg s r head hr hm
  simp only [Settlement.FollowsChain, hr, Bool.true_eq_false, if_false]
  split_ifs at hact ⊢ with hfinal hdeep hconfirm hconfirm
  · rw [processed_finalize hact, if_pos hopen]
    exact ⟨rfl, hm⟩
  · rw [processed_confirm hact]
    exact ⟨⟨rfl, rfl, rfl⟩, .inr rfl⟩
  · rw [processed_skip hact]
    have hst : s.status = .confirmed :=
      (mem_openStatuses.mp hopen).resolve_left fun hst => hconfirm ⟨hdeep, hst⟩
    obtain ⟨hhash, hnumber, -⟩ := hrecord hst
    exact ⟨⟨hst, hhash, hnumber⟩, hm⟩
  · exact absurd hconfirm.1 hdeep
  · rw [processed_skip hact]
    exact ⟨(mem_openStatuses.mp hopen).resolve_right fun hst => hdeep (hrecord hst).2.2, hm⟩

theorem processed_of_follows (hr : r.success = true) (hm : s.Matches r)
    (hf : s.FollowsChain lcfg head (some r)) : s.processed lcfg head (some r) now = s := by
  have hact := @decideReceipt_of_matches lcfg s r head hr hm
  simp only [Settlement.FollowsChain, hr, Bool.true_eq_false, if_false] at hf
  split_ifs at hact hf with hfinal hconfirm hdeep hdeep
  · rw [processed_finalize hact, if_neg]
    rw [hf]
    decide
  · rw [hf.1] at hconfirm
    cases hconfirm.2
  · exact absurd hconfirm.1 hdeep
  · exact processed_skip hact
  · exact processed_skip hact

theorem processed_twice_of_matches {now' : ℕ} (hr : r.success = true) (hm : s.Matches r)
    (hopen : s.status ∈ openStatuses)
    (hrecord : s.status = .confirmed → s.confirmedBlockHash = some r.blockHash ∧
      s.confirmedBlockNumber = some r.blockNumber ∧
      (lcfg.confirmationsConfirmed : ℤ) ≤ confirmations head r) :
    ((s.processed lcfg head (some r) now).processed lcfg head (some r) now').FollowsChain lcfg head
      (some r) := by
  obtain ⟨hf, hm'⟩ := @processed_of_matches lcfg s r head now hr hm hopen hrecord
  rw [processed_of_follows hr hm' hf]
  exact hf

/-- A row confirmed in another block is reset by the first application, and the second finds it
clean; a SUBMITTED row with another block's hash is never reset. -/
theorem processed_twice_of_moved {now' : ℕ} (hr : r.success = true) (hm : ¬s.Matches r)
    (hopen : s.status ∈ openStatuses) :
    ((s.processed lcfg head (some r) now).processed lcfg head (some r) now').FollowsChain lcfg head
      (some r) ↔ ¬s.Wedged lcfg head (some r) := by
  have hact := @decideReceipt_of_moved lcfg s r head hr hm
  have hmoved := not_not.mp (mt blockHash_matches.mp hm)
  rw [processed_reorg hact]
  split_ifs with hst
  · refine iff_of_true ?_ fun hw => ?_
    · refine (processed_of_matches hr (.inl rfl) (mem_openStatuses.mpr (.inl rfl)) ?_).1
      exact fun h => by cases h
    · rw [hw.1] at hst
      cases hst
  · have hsubmitted := (mem_openStatuses.mp hopen).resolve_right hst
    rw [processed_reorg hact, if_neg hst]
    have hle := @confirmed_le_final lcfg r head
    simp only [Settlement.FollowsChain, hr, Bool.true_eq_false, if_false]
    split_ifs with hfinal hdeep
    · have hdeep := not_imp_not.mp hle hfinal
      refine iff_of_false ?_ (not_not.mpr ⟨hsubmitted, r, rfl, hr, hdeep, hmoved⟩)
      rw [hsubmitted]
      exact SettlementStatus.noConfusion
    · refine iff_of_false (fun h => hst h.1) (not_not.mpr ⟨hsubmitted, r, rfl, hr, hdeep, hmoved⟩)
    · refine iff_of_true hsubmitted ?_
      rintro ⟨-, q, hq, -, hdeep', -⟩
      obtain rfl := Option.some.inj hq
      exact hdeep hdeep'

def NumberedBy (numberOf : BlockHash → ℕ) (σ : State) : Event → Prop
  | .newHead drop blocks =>
    ∀ b ∈ (newHead drop blocks σ.node.chain).zipIdx, numberOf b.1.hash = b.2 + 1
  | _ => True

instance (numberOf : BlockHash → ℕ) (σ : State) : DecidablePred (NumberedBy numberOf σ)
  | .newHead _ _ => inferInstanceAs (Decidable (∀ b ∈ _, _ = _))
  | .boot | .crash | .drain | .tick _ | .submit _ | .create _ _ | .job _ | .startSweep | .sweep _
  | .recover _ | .startPoll | .transferEvent _ | .listen _ _ | .dvpCall _ | .dvp _ _
  | .dropTx _ => .isTrue trivial

/-- The environment of a convergence claim: heads do not sink, and hashes fix numbers. -/
def ChainProgress (numberOf : BlockHash → ℕ) (σ : State) (ev : Event) : Prop :=
  HeadRises σ ev ∧ NumberedBy numberOf σ ev

instance (numberOf : BlockHash → ℕ) (σ : State) (ev : Event) :
    Decidable (ChainProgress numberOf σ ev) := inferInstanceAs (Decidable (_ ∧ _))

def Node.DeepBlock (cfg : ListenerConfig) (numberOf : BlockHash → ℕ) (node : Node)
    (hash : BlockHash) (number : ℕ) : Prop :=
  number = numberOf hash ∧ number + cfg.confirmationsConfirmed ≤ node.currentBlock + 1

structure RecordedBlocks (cfg : Config) (numberOf : BlockHash → ℕ) (σ : State) : Prop where
  chain : ∀ b ∈ σ.node.chain.zipIdx, numberOf b.1.hash = b.2 + 1
  confirming : ∀ i t r, σ.Confirming i t r →
    σ.node.DeepBlock cfg.listener numberOf r.blockHash r.blockNumber
  status : ∀ id s, σ.db.findById id = some s → s.status = .confirmed →
    s.confirmedBlockHash.isSome
  block : ∀ id s b, σ.db.findById id = some s → s.confirmedBlockHash = some b →
    ∃ n, s.confirmedBlockNumber = some n ∧ σ.node.DeepBlock cfg.listener numberOf b n

variable {numberOf : BlockHash → ℕ} {now' : ℕ}

theorem blockNumber_of_receipt {node : Node} {txHash : TxHash}
    (hchain : ∀ b ∈ node.chain.zipIdx, numberOf b.1.hash = b.2 + 1)
    (h : node.getTransactionReceipt txHash = some r) : r.blockNumber = numberOf r.blockHash := by
  obtain ⟨⟨index, b, e⟩, hlocate, rfl⟩ := Option.map_eq_some_iff.mp h
  exact (hchain (b, index) (List.mem_zipIdx_iff_getElem?.mpr (locate_spec hlocate).1)).symm

theorem Writes.block_cases (hw : Writes σ ev op) (s : Settlement) :
    ((op.onRow σ.now s).confirmedBlockHash = s.confirmedBlockHash ∧
        (op.onRow σ.now s).confirmedBlockNumber = s.confirmedBlockNumber ∧
        ((op.onRow σ.now s).status = .confirmed → s.status = .confirmed)) ∨
      ((op.onRow σ.now s).confirmedBlockHash = none ∧ (op.onRow σ.now s).status = .submitted) ∨
      ∃ i t r, σ.Confirming i t r ∧ (op.onRow σ.now s).confirmedBlockHash = some r.blockHash ∧
        (op.onRow σ.now s).confirmedBlockNumber = some r.blockNumber := by
  cases hw with
  | idle | insert | book => exact .inl ⟨rfl, rfl, id⟩
  | resend =>
    simp only [DbOp.onRow]
    split_ifs <;> exact .inl ⟨rfl, rfl, id⟩
  | @reorg i call t head rest o _ hcall hpc =>
    rcases onRow_transition_cases σ.now s t.id .submitted reorgOptions with heq | ⟨-, -, heq⟩ <;>
      rw [heq]
    · exact .inl ⟨rfl, rfl, id⟩
    · exact .inr (.inl ⟨rfl, rfl⟩)
  | @confirm i call t r head rest o _ hcall hpc =>
    rcases onRow_transition_cases σ.now s t.id .confirmed (confirmOptions t r) with
      heq | ⟨-, -, heq⟩ <;> rw [heq]
    · exact .inl ⟨rfl, rfl, id⟩
    · exact .inr (.inr ⟨i, t, r, ⟨call, hcall, by rw [hpc]; rfl⟩, rfl, rfl⟩)
  | _ =>
    rcases onRow_transition_cases σ.now s _ _ _ with heq | ⟨-, -, heq⟩ <;> rw [heq]
    · exact .inl ⟨rfl, rfl, id⟩
    · exact .inl ⟨rfl, rfl, fun h => by cases h⟩

theorem recordedBlocks_chain (hI : RecordedBlocks cfg numberOf σ) (hp : ChainProgress numberOf σ ev)
    (h : step cfg σ ev = some σ') : ∀ b ∈ σ'.node.chain.zipIdx, numberOf b.1.hash = b.2 + 1 := by
  have hmoves := step_node h
  generalize σ'.node = node at hmoves
  cases hmoves with
  | head => exact hp.2
  | _ => exact hI.chain

theorem recordedBlocks_confirming {i : ℕ} (hI : RecordedBlocks cfg numberOf σ) (hheads : σ.HeadsRead)
    (hp : ChainProgress numberOf σ ev) (h : step cfg σ ev = some σ') (hc : σ'.Confirming i t r) :
    σ'.node.DeepBlock cfg.listener numberOf r.blockHash r.blockNumber := by
  have hle := step_currentBlock hp.1 h
  by_cases hbefore : σ.Confirming i t r
  · obtain ⟨hn, hdeep⟩ := hI.confirming i t r hbefore
    exact ⟨hn, by omega⟩
  · obtain ⟨rfl, c, head, rest, hc, hpc, hr⟩ := confirming_entry h hbefore hc
    obtain ⟨hreceipt, -, -, hdeep, -⟩ := decideReceipt_confirm hr
    obtain ⟨txHash, -, hreceipt⟩ := Option.bind_eq_some_iff.mp hreceipt
    have hhead := hheads i c head hc (by rw [hpc]; rfl)
    refine ⟨blockNumber_of_receipt hI.chain hreceipt, ?_⟩
    simp only [confirmations] at hdeep
    omega

theorem recordedBlocks_step (hI : RecordedBlocks cfg numberOf σ) (hheads : σ.HeadsRead)
    (hp : ChainProgress numberOf σ ev) (h : step cfg σ ev = some σ') :
    RecordedBlocks cfg numberOf σ' := by
  obtain ⟨op, hw, hdb⟩ := step_db h
  have hle := step_currentBlock hp.1 h
  refine ⟨recordedBlocks_chain hI hp h, fun i t r => recordedBlocks_confirming hI hheads hp h,
    fun id s' hs' hst => ?_, fun id s' b hs' hb => ?_⟩
  · rw [hdb] at hs'
    rcases hw.row_after hs' with ⟨s, hs, rfl⟩ | hrec
    · rcases hw.block_cases s with ⟨hhash, -, hstatus⟩ | ⟨-, hsub⟩ | ⟨i, t, r, -, hhash, -⟩
      · rw [hhash]
        exact hI.status id s hs (hstatus hst)
      · rw [hsub] at hst
        cases hst
      · rw [hhash]
        rfl
    · rw [hrec] at hst
      cases hst
  · rw [hdb] at hs'
    rcases findById_apply_cases hs' with ⟨s, hs, rfl⟩ | ⟨-, rfl, -⟩
    · rcases hw.block_cases s with ⟨hhash, hnumber, -⟩ | ⟨hnone, -⟩ | ⟨i, t, r, hc, hhash, hnumber⟩
      · rw [hhash] at hb
        obtain ⟨n, hn, hdeep⟩ := hI.block id s b hs hb
        exact ⟨n, hnumber.trans hn, hdeep.1, hdeep.2.trans (by omega)⟩
      · rw [hnone] at hb
        cases hb
      · rw [hhash] at hb
        obtain rfl := Option.some.inj hb
        obtain ⟨hn, hdeep⟩ := hI.confirming i t r hc
        exact ⟨_, hnumber, hn, hdeep.trans (by omega)⟩
    · cases hw
      cases hb

theorem recordedBlocks_reach {base opening : ℕ}
    (h : RailReach cfg (ChainProgress numberOf) base opening σ) : RecordedBlocks cfg numberOf σ := by
  refine h.invariant ⟨fun b hb => (List.not_mem_nil hb).elim, fun i t r ⟨c, hc, _⟩ => (by cases hc),
    fun id s hs hst => ?_, fun id s b hs hb => ?_⟩ fun _ _ _ hr hI hp hs =>
      recordedBlocks_step hI (headsRead_reach (hr.mono fun _ _ h => h.1)) hp hs
  · rw [(findById_initial hs).1] at hst
    cases hst
  · rw [(findById_initial hs).1] at hb
    cases hb

theorem processed_twice_follows_iff (hopen : s.status ∈ openStatuses)
    (hblock : s.status = .confirmed → s.confirmedBlockHash.isSome)
    (hrecord : ∀ r, receipt = some r → s.status = .confirmed →
      s.confirmedBlockHash = some r.blockHash → s.confirmedBlockNumber = some r.blockNumber ∧
        (lcfg.confirmationsConfirmed : ℤ) ≤ confirmations head r) :
    ((s.processed lcfg head receipt now).processed lcfg head receipt now').FollowsChain lcfg head
      receipt ↔ ¬s.Wedged lcfg head receipt := by
  rcases receipt with _ | r
  · refine iff_of_true (processed_none_again (processed_none hopen hblock)) ?_
    rintro ⟨-, q, hq, -⟩
    cases hq
  · rcases hr : r.success
    · refine iff_of_true ?_ ?_
      · simp only [Settlement.FollowsChain, hr, if_true]
        exact processed_reverted hr (.inr (processed_reverted hr (.inl hopen)))
      · rintro ⟨-, q, hq, hsuccess, -⟩
        obtain rfl := Option.some.inj hq
        rw [hr] at hsuccess
        cases hsuccess
    · by_cases hm : s.Matches r
      · refine iff_of_true (processed_twice_of_matches hr hm hopen fun hst => ?_) ?_
        · have hhash := hm.resolve_left fun hnone => by
            have hsome := hblock hst
            rw [hnone] at hsome
            cases hsome
          exact ⟨hhash, hrecord r rfl hst hhash⟩
        · rintro ⟨-, q, hq, -, -, hmoved⟩
          obtain rfl := Option.some.inj hq
          exact blockHash_matches.mpr hm hmoved
      · exact processed_twice_of_moved hr hm hopen

theorem processed_txHash : (s.processed lcfg head receipt now).txHash = s.txHash := by
  rcases hact : decideReceipt lcfg s head receipt with _ | _ | _ | r | r
  · rw [processed_skip hact]
  · rw [processed_revert hact]
    split_ifs <;> rfl
  · rw [processed_reorg hact]
    split_ifs <;> rfl
  · rw [processed_confirm hact]
    rfl
  · rw [processed_finalize hact]
    split_ifs <;> rfl

theorem findById_processReceipt {db : Db} (hs : db.findById id = some s)
    (hhash : s.txHash.isSome) : (db.processReceipt lcfg now head receipt id).findById id =
      some (s.processed lcfg head receipt now) := by
  rw [Db.processReceipt, hs]
  simp only [if_pos hhash]
  exact findById_applyAll hs

/-- This is what a listener thread does that stands before its receipt with the stored row. -/
theorem run_processReceipt {i : ℕ} {b : Bool} {metrics : List Metric} {rest : List Settlement}
    (hi : i < σ.listeners.length) (hs : σ.db.findById s.id = some s) (hhash : s.txHash.isSome) :
    ∃ metrics', run (step cfg) (σ.polling i b σ.db (.receipt s head rest) metrics)
      ((receiptEvents cfg.listener s head (s.txHash.bind σ.node.getTransactionReceipt)).map
        (.listen i)) =
      some (σ.polling i b (σ.db.processReceipt cfg.listener σ.now head
        (s.txHash.bind σ.node.getTransactionReceipt) s.id) (listenNext head rest) metrics') := by
  obtain ⟨metrics', hrun⟩ := @run_receipt cfg σ s i b σ.db hi head rest metrics (by rw [hs]; rfl) []
  refine ⟨metrics', ?_⟩
  rw [List.append_nil] at hrun
  rw [hrun, Db.processReceipt, hs]
  simp only [if_pos hhash]
  rfl

/-- Two undisturbed applications bring an open row where the view says, unless it is wedged. -/
theorem converges_iff_not_wedged {base opening : ℕ}
    (h : RailReach cfg (ChainProgress numberOf) base opening σ) (hs : σ.db.findById id = some s)
    (hopen : s.status ∈ openStatuses) (hhead : σ.node.currentBlock ≤ head)
    (hnumber : ∀ r, receipt = some r → r.blockNumber = numberOf r.blockHash) :
    ∃ s₂, ((σ.db.processReceipt cfg.listener now head receipt id).processReceipt cfg.listener now'
        head receipt id).findById id = some s₂ ∧
      (s₂.FollowsChain cfg.listener head receipt ↔ ¬s.Wedged cfg.listener head receipt) := by
  have hI := recordedBlocks_reach h
  have hhash : s.txHash.isSome :=
    (((custody_reach h).columns id s hs).sent (mem_openStatuses.mp hopen)).2
  have hs₁ := @findById_processReceipt cfg.listener s receipt head now id _ hs hhash
  have hs₂ := @findById_processReceipt cfg.listener _ receipt head now' id _ hs₁
    (by rwa [processed_txHash])
  refine ⟨_, hs₂, processed_twice_follows_iff hopen (hI.status id s hs) fun r hr _ hb => ?_⟩
  obtain ⟨n, hn, hfix, hdeep⟩ := hI.block id s _ hs hb
  have hsame : r.blockNumber = n := (hnumber r hr).trans hfix.symm
  refine ⟨by rw [hsame, hn], ?_⟩
  simp only [confirmations]
  omega

/-- A payout with five blocks on top of it, before any poll. -/
def minedPayout : List Event :=
  bootEvents ++ submitEvents 0 1 payout ++ sendEvents ++
    [.newHead 0 (mined [plainTransfer 7 payout] 4)]

theorem mined_payout_converges : ∃ (σ : State) (s s₂ : Settlement),
    RailReach (plainConfig 3) (ChainProgress (· + 1)) 7 100 σ ∧ σ.db.findById 1 = some s ∧
    s₂.FollowsChain (plainConfig 3).listener σ.node.currentBlock
      (s.txHash.bind σ.node.getTransactionReceipt) ∧ s₂.status = .final := by
  obtain ⟨σ, hr, hany⟩ := exists_reach_of_checkedRun (step (plainConfig 3)) (ChainProgress (· + 1))
    (initial (plainConfig 3) 7 100) minedPayout
    (fun σ => ∃ s ∈ σ.db.findById 1, s.status ∈ openStatuses ∧
      ¬s.Wedged (plainConfig 3).listener σ.node.currentBlock
        (s.txHash.bind σ.node.getTransactionReceipt) ∧
      ∃ r ∈ s.txHash.bind σ.node.getTransactionReceipt, r.blockNumber = r.blockHash + 1 ∧
        r.success = true ∧
        ((plainConfig 3).listener.confirmationsFinal : ℤ) ≤ confirmations σ.node.currentBlock r)
    (by decide +kernel)
  obtain ⟨s, hs, hopen, hfree, r, hreceipt, hnumber, hsuccess, hdeep⟩ := of_decide_eq_true hany
  obtain ⟨s₂, -, hiff⟩ := @converges_iff_not_wedged (plainConfig 3) σ s
    (s.txHash.bind σ.node.getTransactionReceipt) σ.node.currentBlock 0 1 (· + 1) 0 7 100 hr hs hopen
    le_rfl fun q hq => Option.some.inj (hreceipt.symm.trans hq) ▸ hnumber
  have hf := hiff.mpr hfree
  refine ⟨σ, s, s₂, hr, hs, hf, ?_⟩
  rw [show s.txHash.bind σ.node.getTransactionReceipt = some r from hreceipt] at hf
  simpa only [Settlement.FollowsChain, hsuccess, Bool.true_eq_false, if_false, if_pos hdeep] using hf

/-- The SUBMITTED write of the first transfer commits and throws, the listener confirms it, and
the job sends again under the next nonce and writes SUBMITTED over CONFIRMED. -/
def submittedAgain : List Event :=
  bootEvents ++ submitEvents 0 1 payout ++ prepareEvents ++
    [.job (.sent (.accepted none)), .job (.written (.ambiguous timeout)),
      .newHead 0 (mined [plainTransfer 7 payout] 0), .startPoll, .listen 0 .found,
      .listen 0 .headRead, .listen 0 .receipt, .listen 0 (.written .ok), .job .woke,
      .job (.sent (.refused alreadyKnown)), .job .counted, .job .woke,
      .job (.sent (.accepted none)), .job (.written .ok),
      .newHead 0 [{ hash := 1, entries := [⟨plainTransfer 8 payout, true, 21000, 1⟩] }]]

theorem confirmed_row_wedged :
    ¬∀ cfg base opening numberOf σ id s receipt head now now',
      RailReach cfg (ChainProgress numberOf) base opening σ → σ.db.findById id = some s →
      s.status ∈ openStatuses → σ.node.currentBlock ≤ head →
      (∀ r, receipt = some r → r.blockNumber = numberOf r.blockHash) →
      ∃ s₂, ((σ.db.processReceipt cfg.listener now head receipt id).processReceipt cfg.listener now'
          head receipt id).findById id = some s₂ ∧ s₂.FollowsChain cfg.listener head receipt := by
  intro hall
  obtain ⟨σ, hr, hany⟩ := exists_reach_of_checkedRun (step (plainConfig 3)) (ChainProgress (· + 1))
    (initial (plainConfig 3) 7 100) submittedAgain
    (fun σ => ∃ s ∈ σ.db.findById 1, s.status ∈ openStatuses ∧
      (((σ.db.processReceipt (plainConfig 3).listener 0 σ.node.currentBlock
          (s.txHash.bind σ.node.getTransactionReceipt) 1).processReceipt (plainConfig 3).listener 0
            σ.node.currentBlock (s.txHash.bind σ.node.getTransactionReceipt) 1).findById 1).any
              (fun s₂ => s₂.status = .submitted) = true ∧
      ∃ r ∈ s.txHash.bind σ.node.getTransactionReceipt, r.blockNumber = r.blockHash + 1 ∧
        r.success = true ∧ confirmations σ.node.currentBlock r = 1) (by decide +kernel)
  obtain ⟨s, hs, hopen, hstays, r, hreceipt, hnumber, hsuccess, hdeep⟩ := of_decide_eq_true hany
  obtain ⟨s₂, hs₂, hf⟩ := hall (plainConfig 3) 7 100 (· + 1) σ 1 s _ _ 0 0 hr hs hopen le_rfl
    fun q hq => Option.some.inj (hreceipt.symm.trans hq) ▸ hnumber
  rw [hs₂, Option.any_some, decide_eq_true_eq] at hstays
  rw [show s.txHash.bind σ.node.getTransactionReceipt = some r from hreceipt] at hf
  simp [Settlement.FollowsChain, hsuccess, hdeep, plainConfig, hstays] at hf

end Rail
