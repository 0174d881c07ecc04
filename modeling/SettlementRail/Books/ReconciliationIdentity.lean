import Mathlib.Algebra.BigOperators.Ring.Finset
import SettlementRail.Books.MatchedExactly
import SettlementRail.Books.OverCommitment
import SettlementRail.System.BookedFlips
import SettlementRail.System.SentTransactions

/-! What a reconciliation run finds in any state. The ledger carries settlements only, so the
difference is what the DvP deals have drawn, and the transfers on the chain less what is booked and
what is counted as pending. -/

namespace Rail
open Foundation

def Call.isTransfer : Call → Bool
  | .transfer .. => true
  | _ => false

namespace Node

def transfers (node : Node) : List Entry :=
  node.entries.filter fun e => e.success && e.tx.call.isTransfer

def transferred (node : Node) : ℕ :=
  (node.transfers.map fun e => e.tx.call.outflow node.operator).sum

def dvpEntries (node : Node) : List Entry :=
  node.entries.filter fun e => e.success && !e.tx.call.isTransfer

/-- What the DvP deals have drawn from the operator and not returned to it. -/
def dvpOutflow (node : Node) : ℤ :=
  ((node.dvpEntries.map fun e => e.tx.call.outflow node.operator).sum : ℕ) -
    ((node.chain.map fun b => b.received.sum).sum : ℕ)

def succeeded (node : Node) (s : Settlement) : Bool :=
  (s.txHash.bind node.getTransactionReceipt).any Receipt.success

end Node

def minedPending (db : Db) (node : Node) : List Amount :=
  ((db.findByStatuses pendingStatuses).filter node.succeeded).map Settlement.amount

/-- No exact intermediate result of the run has more than twenty significant digits. -/
def State.Uncut (opening : ℕ) (σ : State) : Prop :=
  cutOff opening = 0 ∧ cutOff (opening - σ.db.debited) = 0 ∧
    NothingCut (opening - σ.db.debited) σ.node.operatorFunds (minedPending σ.db σ.node)

/-- Each transfer on the chain is the stored transaction of one settlement, which is tracked or
FINAL and pays somebody else than the operator, and a booked settlement is FINAL and its stored
transaction is on the chain. -/
structure State.Recorded (σ : State) : Prop where
  transfers : ∀ e ∈ σ.node.transfers, ∃ s ∈ σ.db.settlements.rows, s.id ≠ 0 ∧
    (s.status ∈ pendingStatuses ∨ s.status = .final) ∧
      ∀ t ∈ σ.db.settlements.rows, t.txHash = some e.tx ↔ t = s
  booked : ∀ s ∈ σ.db.settlements.rows, σ.db.Debited s.id →
    s.status = .final ∧ σ.node.succeeded s = true
  elsewhere : ∀ s ∈ σ.db.settlements.rows, σ.node.succeeded s = true →
    s.toAddress ≠ σ.node.operator

instance (opening : ℕ) (σ : State) : Decidable (σ.Uncut opening) :=
  inferInstanceAs (Decidable (_ ∧ _ ∧ _))

instance (σ : State) : Decidable σ.Recorded :=
  decidable_of_iff
    ((∀ e ∈ σ.node.transfers, ∃ s ∈ σ.db.settlements.rows, s.id ≠ 0 ∧
      (s.status ∈ pendingStatuses ∨ s.status = .final) ∧
        ∀ t ∈ σ.db.settlements.rows, t.txHash = some e.tx ↔ t = s) ∧
      (∀ s ∈ σ.db.settlements.rows, σ.db.Debited s.id →
        s.status = .final ∧ σ.node.succeeded s = true) ∧
      ∀ s ∈ σ.db.settlements.rows, σ.node.succeeded s = true → s.toAddress ≠ σ.node.operator)
    ⟨fun h => ⟨h.1, h.2.1, h.2.2⟩, fun h => ⟨h.transfers, h.booked, h.elsewhere⟩⟩

variable {cfg : Config} {σ σ' : State} {ev : Event} {s : Settlement} {node : Node} {opening : ℕ}

theorem startBalance_step (h : step cfg σ ev = some σ') :
    σ'.node.startBalance = σ.node.startBalance := by
  have hmoves := step_node h
  generalize σ'.node = node at hmoves
  cases hmoves <;> rfl

theorem startBalance_reach {C : State → Event → Prop} {base : ℕ}
    (h : RailReach cfg C base opening σ) : σ.node.startBalance = opening :=
  h.invariant (I := fun σ => σ.node.startBalance = opening) rfl
    fun _ _ _ _ hI _ hs => (startBalance_step hs).trans hI

theorem Node.operatorFunds_eq (node : Node) :
    node.operatorFunds = node.startBalance - node.transferred - node.dvpOutflow := by
  have hsplit :
      node.transferred + (node.dvpEntries.map fun e => e.tx.call.outflow node.operator).sum =
        ((node.entries.filter Entry.success).map fun e => e.tx.call.outflow node.operator).sum := by
    have hboth := List.sum_map_filter_add_sum_map_filter_not
      (fun e : Entry => e.tx.call.isTransfer = true) (fun e => e.tx.call.outflow node.operator)
      (node.entries.filter Entry.success)
    rw [List.filter_filter, List.filter_filter] at hboth
    rw [← hboth, transferred, transfers, dvpEntries]
    simp only [Bool.and_comm, Bool.decide_eq_true, decide_not]
  have hfunds : node.operatorFunds = node.startBalance -
      (((node.entries.filter Entry.success).map fun e =>
        e.tx.call.outflow node.operator).sum : ℕ) +
          ((node.chain.map fun b => b.received.sum).sum : ℕ) := by
    rw [operatorFunds, Nat.cast_list_sum, Nat.cast_list_sum, List.map_map, List.map_map]
    rfl
  rw [hfunds, dvpOutflow]
  omega

theorem decimalMinus_of_uncut {x y : ℤ} (h : cutOff (x - y) = 0) : decimalMinus x y = x - y :=
  cutOff_eq_zero_iff.mp h

theorem operatorBalance_of_uncut {db : Db} (hsums : LedgerSums opening db)
    (hopening : cutOff opening = 0) (hledger : cutOff (opening - db.debited) = 0) :
    db.getOperatorBalance = opening - db.debited := by
  have hstart : decimalPlus opening (0 : ℕ) = opening := by
    rw [decimalPlus, Int.natCast_zero, add_zero, cutOff_eq_zero_iff.mp hopening]
  have hdebits : db.operatorSum .debit = db.debited := hsums.debits
  rw [Db.getOperatorBalance, operatorBalance, hsums.opening, hsums.credits, hdebits, hstart,
    decimalMinus_of_uncut hledger]

theorem Node.succeeded_iff (hinv : NodeInv node) :
    node.succeeded s = true ↔ ∃ e ∈ node.entries, e.success = true ∧ s.txHash = some e.tx := by
  constructor
  · intro h
    obtain ⟨r, hr, hsuccess⟩ := (Option.any_eq_true _ _).mp h
    obtain ⟨tx, htx, hr⟩ := Option.bind_eq_some_iff.mp hr
    obtain ⟨⟨index, b, e⟩, hlocate, rfl⟩ := Option.map_eq_some_iff.mp hr
    obtain ⟨hblock, hmem, hp⟩ := locate_spec hlocate
    have he : e ∈ node.entries := mem_chainEntries.mpr ⟨b, List.mem_of_getElem? hblock, hmem⟩
    exact ⟨e, he, hsuccess, by rw [htx, ← of_decide_eq_true hp]⟩
  · rintro ⟨e, he, hsuccess, htx⟩
    obtain ⟨⟨index, b, e'⟩, hlocate⟩ :=
      exists_locate (p := fun a => decide (a.tx = e.tx)) he (decide_eq_true rfl)
    obtain ⟨hblock, hmem, hp⟩ := locate_spec hlocate
    have he' : e' ∈ node.entries := mem_chainEntries.mpr ⟨b, List.mem_of_getElem? hblock, hmem⟩
    -- a nonce is used once, so the entry found is the one on the chain
    have hsame : e' = e :=
      hinv.sequential.eq_of_number_eq he' he (congrArg Tx.nonce (of_decide_eq_true hp))
    refine (Option.any_eq_true _ _).mpr ⟨Node.receiptOf (index, b, e'), ?_, by rw [hsame]; exact hsuccess⟩
    rw [htx, Option.bind_some, Node.getTransactionReceipt, hlocate]
    rfl

theorem reconcile_eq_minedPending (db : Db) (node : Node) :
    reconcile db node =
      reconcileAmounts db.getOperatorBalance node.operatorFunds (minedPending db node) :=
  reconcile_eq db node

theorem sum_filter_eq (p : Settlement → Bool) (rows : List Settlement) :
    ((rows.filter p).map Settlement.amount).sum =
      (rows.map fun s => if p s = true then s.amount else 0).sum := by
  have hzero : ((rows.filter fun s => ¬p s = true).map fun _ => 0).sum = 0 := by simp
  rw [List.sum_map_ite, hzero, Nat.add_zero]
  simp only [Bool.decide_eq_true]

theorem debited_add_minedPending (db : Db) (node : Node) :
    db.debited + (minedPending db node).sum = db.settlements.sumBy fun s =>
      (if db.Debited s.id then s.amount else 0) +
        if s.status ∈ pendingStatuses ∧ node.succeeded s = true then s.amount else 0 := by
  rw [← Table.sumBy_add, Db.debited, Db.amountWhere, minedPending, Db.findByStatuses,
    List.filter_filter]
  refine congrArg _ ?_
  rw [sum_filter_eq, Table.sumBy]
  simp only [Bool.and_eq_true, decide_eq_true_eq, and_comm]

theorem Node.mem_transfers {e : Entry} :
    e ∈ node.transfers ↔ e ∈ node.entries ∧ e.success = true ∧ e.tx.call.isTransfer = true := by
  rw [Node.transfers, List.mem_filter, Bool.and_eq_true]

theorem SentInv.stored {tx : Tx} (hsent : SentInv σ) (hs : s ∈ σ.db.settlements.rows)
    (htx : s.txHash = some tx) : tx.call = .transfer s.toAddress s.amount := by
  have hrow := Db.findById_of_mem hs
  obtain ⟨r, hr, hcall⟩ := hsent.pays s.id tx (hsent.hash s.id s tx hrow htx)
  rw [hrow] at hr
  obtain rfl := Option.some.inj hr
  exact hcall

theorem State.Recorded.row (hI : σ.Recorded) (hsent : SentInv σ) (hnode : NodeInv σ.node)
    (hs : s ∈ σ.db.settlements.rows) (hpaid : σ.node.succeeded s = true) :
    ∃ e ∈ σ.node.transfers, s.id ≠ 0 ∧ (s.status ∈ pendingStatuses ∨ s.status = .final) ∧
      ∀ t ∈ σ.db.settlements.rows, t.txHash = some e.tx ↔ t = s := by
  obtain ⟨e, he, hsuccess, htx⟩ := (Node.succeeded_iff hnode).mp hpaid
  have htransfer : e ∈ σ.node.transfers :=
    Node.mem_transfers.mpr ⟨he, hsuccess, by rw [hsent.stored hs htx]; rfl⟩
  obtain ⟨r, hr, hid, hstatus, honly⟩ := hI.transfers e htransfer
  obtain rfl := (honly s hs).mp htx
  exact ⟨e, htransfer, hid, hstatus, honly⟩

theorem State.Recorded.weight (hI : σ.Recorded) (hsent : SentInv σ) (hnode : NodeInv σ.node)
    (hflips : FlipsBooked σ) (hs : s ∈ σ.db.settlements.rows) :
    ((if σ.db.Debited s.id then s.amount else 0) +
      if s.status ∈ pendingStatuses ∧ σ.node.succeeded s = true then s.amount else 0) =
    if σ.node.succeeded s = true then s.amount else 0 := by
  by_cases hpaid : σ.node.succeeded s = true
  · obtain ⟨e, -, hid, hstatus, -⟩ := hI.row hsent hnode hs hpaid
    by_cases hfinal : s.status = .final
    · have hdebited : σ.db.Debited s.id :=
        ⟨hid, hflips.final s.id s (Db.findById_of_mem hs) hfinal⟩
      have hnot : ¬(s.status ∈ pendingStatuses ∧ σ.node.succeeded s = true) := by
        rw [hfinal]
        exact fun h => absurd h.1 (by decide)
      rw [if_pos hdebited, if_neg hnot, if_pos hpaid, Nat.add_zero]
    · have hnot : ¬σ.db.Debited s.id := fun h => hfinal (hI.booked s hs h).1
      rw [if_neg hnot, if_pos ⟨hstatus.resolve_right hfinal, hpaid⟩, if_pos hpaid, Nat.zero_add]
  · have hnot : ¬σ.db.Debited s.id := fun h => hpaid (hI.booked s hs h).2
    rw [if_neg hnot, if_neg fun h => hpaid h.2, if_neg hpaid]

theorem State.Recorded.transferred_eq (hI : σ.Recorded) (hsent : SentInv σ)
    (hnode : NodeInv σ.node) : σ.node.transferred =
      ((σ.db.settlements.rows.filter σ.node.succeeded).map Settlement.amount).sum := by
  have hentries : (σ.node.transfers.map fun e => some e.tx).Nodup := by
    refine List.Nodup.of_map (fun tx : Option Tx => tx.elim 0 Tx.nonce) ?_
    rw [List.map_map]
    exact hnode.sequential.nodup.sublist (List.filter_sublist.map _)
  have hrows : ((σ.db.settlements.rows.filter σ.node.succeeded).map Settlement.txHash).Nodup := by
    have hnd : σ.db.settlements.rows.Nodup := List.Nodup.of_map _ σ.db.settlements.keys_nodup
    refine List.Nodup.map_on (fun s hs t ht heq => ?_) (hnd.filter _)
    obtain ⟨hs, hpaid⟩ := List.mem_filter.mp hs
    obtain ⟨e, -, -, -, honly⟩ := hI.row hsent hnode hs hpaid
    have hstored : s.txHash = some e.tx := (honly s hs).mpr rfl
    exact ((honly t (List.mem_filter.mp ht).1).mp (heq.symm.trans hstored)).symm
  refine sum_eq_of_same_keys
    (fun tx : Option Tx => tx.elim 0 fun tx => tx.call.outflow σ.node.operator)
    hentries hrows (fun tx => ⟨fun h => ?_, fun h => ?_⟩) (fun _ _ => rfl) fun s hs => ?_
  · obtain ⟨e, he, rfl⟩ := List.mem_map.mp h
    obtain ⟨s, hs, -, -, honly⟩ := hI.transfers e he
    obtain ⟨hmem, hsuccess, -⟩ := Node.mem_transfers.mp he
    have hstored : s.txHash = some e.tx := (honly s hs).mpr rfl
    have hpaid := (Node.succeeded_iff hnode).mpr ⟨e, hmem, hsuccess, hstored⟩
    exact List.mem_map.mpr ⟨s, List.mem_filter.mpr ⟨hs, hpaid⟩, hstored⟩
  · obtain ⟨s, hs, rfl⟩ := List.mem_map.mp h
    obtain ⟨hs, hpaid⟩ := List.mem_filter.mp hs
    obtain ⟨e, he, -, -, honly⟩ := hI.row hsent hnode hs hpaid
    exact List.mem_map.mpr ⟨e, he, ((honly s hs).mpr rfl).symm⟩
  · obtain ⟨hs, hpaid⟩ := List.mem_filter.mp hs
    obtain ⟨e, -, -, htx⟩ := (Node.succeeded_iff hnode).mp hpaid
    rw [htx, Option.elim_some, hsent.stored hs htx]
    exact (if_neg (hI.elsewhere s hs hpaid)).symm

theorem State.Recorded.transferred_eq_books (hI : σ.Recorded) (hsent : SentInv σ)
    (hnode : NodeInv σ.node) (hflips : FlipsBooked σ) :
    σ.node.transferred = σ.db.debited + (minedPending σ.db σ.node).sum := by
  rw [hI.transferred_eq hsent hnode, debited_add_minedPending, sum_filter_eq, Table.sumBy]
  refine congrArg List.sum (List.map_congr_left fun s hs => ?_)
  exact (hI.weight hsent hnode hflips hs).symm

structure State.Reconciles (σ : State) : Prop where
  diff : (reconcile σ.db σ.node).diff = σ.node.dvpOutflow +
    (σ.node.transferred - σ.db.debited - (minedPending σ.db σ.node).sum)
  recorded : σ.Recorded → (reconcile σ.db σ.node).diff = σ.node.dvpOutflow
  matched : (reconcile σ.db σ.node).status = .matched ↔ (reconcile σ.db σ.node).diff = 0
  quiet : σ.Recorded → σ.node.dvpOutflow = 0 →
    (reconcile σ.db σ.node).diff = 0 ∧ (reconcile σ.db σ.node).status = .matched

/-- In every state the difference is the DvP outflow and the transfers that the books miss, and in
a recorded state with all deals returned there is none. -/
theorem reconciles_of_uncut {C : State → Event → Prop} {base : ℕ}
    (h : RailReach cfg C base opening σ) (hcut : σ.Uncut opening) : σ.Reconciles := by
  obtain ⟨hopening, hledger, hrun⟩ := hcut
  have hstart := startBalance_reach h
  have hbalance := operatorBalance_of_uncut (ledgerSums_reach h) hopening hledger
  have hdiff : (reconcile σ.db σ.node).diff = σ.node.dvpOutflow +
      (σ.node.transferred - σ.db.debited - (minedPending σ.db σ.node).sum) := by
    rw [reconcile_eq_minedPending, hbalance, hrun.diff_eq, exactDiff, Node.operatorFunds_eq, hstart]
    omega
  have hmatched : (reconcile σ.db σ.node).status = .matched ↔
      (reconcile σ.db σ.node).diff = 0 := by
    rw [reconcile_eq_minedPending]
    exact status_matched_iff
  have hrecorded : σ.Recorded → (reconcile σ.db σ.node).diff = σ.node.dvpOutflow := fun hI => by
    have hbooks := hI.transferred_eq_books (sentInv_reach h) (nodeInv_reach h) (flipsBooked_reach h)
    rw [hdiff, hbooks, Nat.cast_add]
    omega
  refine ⟨hdiff, hrecorded, hmatched, fun hI hdvp => ?_⟩
  have hzero := (hrecorded hI).trans hdvp
  exact ⟨hzero, hmatched.mpr hzero⟩

def lockedDeal : CreateDvpDto :=
  { instructionId := "deal-1", beneficiary := "0xseller", amount := 20 }

def lockingTx (nonce : ℕ) : Tx :=
  { nonce, gasLimit := fallbackGasLimit, fees := buildFees plainFees
    call := fundCall lockedDeal 20 3600 }

def fundEvents (nonce : ℕ) : List Event :=
  [.dvpCall (.fund lockedDeal), .dvp 0 (.blockRead 0), .dvp 0 (.allowanceRead 20),
    .dvp 0 .counted, .dvp 0 (.sent fallbackGasLimit (buildFees plainFees) (.accepted none)),
    .newHead 0 (mined [lockingTx nonce] 0)]

/-- A payout becomes FINAL, a deal is funded and refunded: the run finds nothing. -/
theorem refunded_deal_matched : ∃ σ, RailReach (plainConfig 3) (fun _ _ => True) 7 100 σ ∧
    σ.db.debited = 5 ∧ (reconcile σ.db σ.node).diff = 0 ∧
      (reconcile σ.db σ.node).status = .matched := by
  obtain ⟨σ, hr, hany⟩ := exists_reach_of_run (step (plainConfig 3)) (initial (plainConfig 3) 7 100)
    (settleEvents ++ fundEvents 8 ++ [.newHead 0 [{ hash := 9, entries := [], received := [20] }]])
    (fun σ => σ.db.debited = 5 ∧ σ.node.dvpOutflow = 0 ∧ σ.Recorded ∧ σ.Uncut 100)
    (by decide +kernel)
  obtain ⟨hdebited, hdvp, hrecorded, hcut⟩ := of_decide_eq_true hany
  exact ⟨σ, hr, hdebited,
    (reconciles_of_uncut (C := fun _ _ => True) hr hcut).quiet hrecorded hdvp⟩

/-- The payout is on the chain and booked; the listener has not made it FINAL yet. -/
def bookedEvents : List Event :=
  bootEvents ++ submitEvents 0 1 payout ++ sendEvents ++
    [.newHead 0 (mined [plainTransfer 7 payout] 4), .startPoll, .listen 0 .found,
      .listen 0 .headRead, .listen 0 .receipt, .listen 0 (.written .ok)]

/-- The process dies with the payout sent and its hash not stored. -/
def unrecordedEvents : List Event :=
  bootEvents ++ submitEvents 0 1 payout ++ prepareEvents ++
    [.job (.sent (.accepted none)), .crash, .newHead 0 (mined [plainTransfer 7 payout] 0)]

/-- A reorganisation takes the transaction of a FINAL payout out of the chain. -/
def reorgedEvents : List Event :=
  settleEvents ++ [.newHead 5 [{ hash := 9, entries := [] }]]

def selfPayout : CreateSettlementDto := { payout with toAddress := "0xoperator" }

/-- A payout to the operator's own address becomes FINAL. -/
def selfPaidEvents : List Event :=
  bootEvents ++ submitEvents 0 1 selfPayout ++ sendEvents ++
    [.newHead 0 (mined [plainTransfer 7 selfPayout] 4)] ++ finalizeEvents 0

/-- Without any deal the run reports a mismatch while a booked row is not FINAL, for a transfer
that no row has stored, for a FINAL row whose transaction has left the chain, and for a payout to
the operator itself. A funded deal is one in a state that is recorded. -/
theorem false_alarms :
    (¬∀ cfg base opening σ, Reach (step cfg) (initial cfg base opening) σ →
      (∀ b ∈ σ.node.chain, b.received = []) →
        (reconcile σ.db σ.node).diff = 0 ∧ (reconcile σ.db σ.node).status = .matched) ∧
    (∃ σ, Reach (step (plainConfig 3)) (initial (plainConfig 3) 7 100) σ ∧ σ.Recorded ∧
      (reconcile σ.db σ.node).diff = 20 ∧ (reconcile σ.db σ.node).status = .mismatch) ∧
    ∀ es ∈ [bookedEvents, unrecordedEvents, reorgedEvents, selfPaidEvents],
      (run (step (plainConfig 3)) (initial (plainConfig 3) 7 100) es).any fun σ =>
        σ.node.dvpOutflow = 0 ∧ (reconcile σ.db σ.node).status = .mismatch := by
  obtain ⟨τ, hbooked, hτ⟩ := exists_reach_of_run (step (plainConfig 3))
    (initial (plainConfig 3) 7 100) bookedEvents (fun σ =>
      (∀ b ∈ σ.node.chain, b.received = []) ∧ (reconcile σ.db σ.node).diff = -5) (by decide +kernel)
  obtain ⟨hreceived, hdiff⟩ := of_decide_eq_true hτ
  obtain ⟨σ, hr, hσ⟩ := exists_reach_of_run (step (plainConfig 3)) (initial (plainConfig 3) 7 100)
    (bootEvents ++ fundEvents 7)
    (fun σ => σ.Recorded ∧ (reconcile σ.db σ.node).diff = 20 ∧
      (reconcile σ.db σ.node).status = .mismatch) (by decide +kernel)
  refine ⟨fun hall => ?_, ⟨σ, hr, of_decide_eq_true hσ⟩, by decide +kernel⟩
  have hzero := (hall _ _ _ τ hbooked hreceived).1
  rw [hdiff] at hzero
  exact absurd hzero (by decide)

end Rail
