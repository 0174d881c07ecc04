import SettlementRail.System.InflightMoves
import SettlementRail.System.Scenario
import SettlementRail.System.SentTransactions

/-! The gas bump. A re-send replaces the pending transaction when both fees are at least 10%
higher, so the fees it is bumped from have to be those of the last transaction accepted under
the nonce. -/

namespace Rail
open Foundation

variable {cfg : Config} {σ σ' : State} {ev : Event} {s : Settlement} {id : SettlementId}

def Fees.bumpable (fees : Fees) : Bool := 4 ≤ fees.maxFeePerGas && 4 ≤ fees.maxPriorityFeePerGas

namespace Node

def lastAt (node : Node) (nonce : ℕ) : Option Tx :=
  (node.accepted.reverse.find? fun a => a.tx.nonce = nonce).map Accepted.tx

/-- The last transaction accepted under a nonce, while it is pending. -/
def pendingAt (node : Node) (nonce : ℕ) : Option Tx :=
  (node.lastAt nonce).filter fun tx => tx ∈ node.mempool

variable {node node' : Node} {nonce : ℕ} {tx old : Tx}

end Node

def State.takenIn (σ : State) : Event → Option Accepted
  | .job (.sent (.accepted _)) =>
    match σ.relayer.worker with
    | some (id, .broadcast v) => some ⟨.settlement id, v.tx⟩
    | _ => none
  | .sweep (.sent (.accepted _)) =>
    match σ.relayer.sweep with
    | some (.broadcast s _ fees gasLimit) =>
      (toBaseUnits s.amount).map fun units => ⟨.settlement s.id, resendTx s fees gasLimit units⟩
    | _ => none
  | .dvp i (.sent gasLimit fees (.accepted _)) =>
    match σ.dvps[i]? with
    | some (.send nonce call _) => some ⟨.dvp i, { nonce, gasLimit, fees, call }⟩
    | _ => none
  | _ => none

def Event.reported : Event → Bool
  | .job (.sent (.accepted reply)) | .sweep (.sent (.accepted reply))
  | .dvp _ (.sent _ _ (.accepted reply)) => reply.isNone
  | _ => false

/-- The row of the coming re-send, with its fees once they are chosen. -/
def SweepPc.chosen : SweepPc → Option (Settlement × Option Fees)
  | .buildFees s _ => some (s, none)
  | .estimateGas s _ fees | .broadcast s _ fees _ => some (s, some fees)
  | _ => none

def State.chosen (σ : State) : Option (Settlement × Option Fees) :=
  σ.relayer.sweep.bind SweepPc.chosen

/-- The row this step sends again, whatever comes of it, and its fees. -/
def State.resending (σ : State) : Event → Option (Settlement × Fees)
  | .sweep (.sent _) =>
    match σ.relayer.sweep with
    | some (.broadcast s _ fees _) => some (s, fees)
    | _ => none
  | _ => none

/-- The row this step finds stuck below the cap, and the entry whose fees it bumps. -/
def State.bumpsFrom (cfg : Config) (σ : State) : Event → Option (Settlement × InflightTx)
  | .sweep .receipt =>
    match σ.relayer.sweep with
    | some (.receipt s _) =>
      if (s.txHash.bind σ.node.getTransactionReceipt).isNone ∧
          isStuck cfg.relayer σ.now s (σ.relayer.inflight.get s.id) ∧
          s.retryCount < cfg.relayer.maxRetries then
        (σ.relayer.inflight.get s.id).map fun info => (s, info)
      else none
    | _ => none
  | _ => none

def State.looksUp (σ : State) : Event → Option Settlement
  | .sweep .txLookup =>
    match σ.relayer.sweep with
    | some (.feesFromTx s _) => some s
    | _ => none
  | _ => none

/-- The row the recovery starts to track and the transaction it finds for it. -/
def State.tracks (σ : State) : Event → Option (Settlement × Tx)
  | .recover .txLookup =>
    match σ.relayer.recovery with
    | .getTransaction s _ => (s.txHash.bind σ.node.getTransaction).map fun tx => (s, tx)
    | _ => none
  | _ => none

def State.poolAfter (σ : State) : Event → List Tx
  | .newHead drop blocks => (σ.node.withHead drop blocks).mempool
  | _ => []

/-- What the node takes in under the nonce of an entry is that settlement's and is reported, and
under the nonce of a row whose fees are chosen it takes nothing in; an entry has the nonce of its
row; a hash looked up is that of the last transaction under its nonce; no reorganisation makes
that pending again once other fees are chosen; the pending fees are at least 4 wei. -/
def TracksFees (cfg : Config) (σ : State) (ev : Event) : Prop :=
  (∀ a ∈ σ.takenIn ev, ∀ info ∈ σ.relayer.inflight, info.nonce = a.tx.nonce →
    ev.reported = true ∧ a.sender = .settlement info.settlementId ∨ info.fees = a.tx.fees) ∧
  (ev.ofSweep = false → ∀ a ∈ σ.takenIn ev, ∀ c ∈ σ.chosen, a.tx.nonce ≠ c.1.nonce.getD 0) ∧
  (∀ b ∈ σ.bumpsFrom cfg ev, b.1.nonce = some b.2.nonce) ∧
  (∀ s ∈ σ.looksUp ev, ∀ old ∈ σ.node.pendingAt (s.nonce.getD 0), s.txHash = some old) ∧
  (∀ t ∈ σ.tracks ev, ∀ old ∈ σ.node.lastAt (t.1.nonce.getD t.2.nonce), t.2 = old) ∧
  (∀ c ∈ σ.chosen, ∀ old ∈ σ.node.lastAt (c.1.nonce.getD 0), old ∈ σ.poolAfter ev →
    old ∈ σ.node.mempool ∨ c.2 = some (bumpFees old.fees)) ∧
  (∀ r ∈ σ.resending ev, ∀ old ∈ σ.node.pendingAt (r.1.nonce.getD 0), old.fees.bumpable = true)

instance decidableTracksFees (cfg : Config) (σ : State) (ev : Event) :
    Decidable (TracksFees cfg σ ev) := by
  unfold TracksFees
  infer_instance

theorem Accepts.takenIn {a : Accepted} (h : Accepts σ ev a) : a ∈ σ.takenIn ev := by
  cases h with
  | job hworker => simp [State.takenIn, hworker]
  | sweep hsweep hunits => simp [State.takenIn, hsweep, hunits]
  | dvp hdvp => simp [State.takenIn, hdvp]

section Entries
variable {info : InflightTx}

end Entries

end Rail
