import SettlementRail.Foundation.AccountChain
import SettlementRail.Model.Transactions

/-! The node and the chain behind the RPC provider, as the operator account sees them. The
mempool may forget a transaction at any time; whatever was accepted once may still be mined. -/

namespace Rail
open Foundation

/-- On whose behalf a transaction was sent: a settlement, or a DvP call of the service. -/
inductive Sender
  | settlement (id : SettlementId)
  | dvp (call : ℕ)
deriving DecidableEq, Repr

structure Accepted where
  sender : Sender
  tx : Tx
deriving DecidableEq, Repr

structure Entry where
  tx : Tx
  success : Bool
  gasUsed : ℕ
  gasPrice : ℕ
deriving DecidableEq, Repr

/-- `received` are the escrow's payments to the operator: refunds, which anyone may trigger after a
deadline, and releases of deals whose beneficiary it is. -/
structure Block where
  hash : BlockHash
  entries : List Entry
  received : List ℕ := []
deriving DecidableEq, Repr

structure Receipt where
  success : Bool
  blockHash : BlockHash
  blockNumber : ℕ
  gasUsed : ℕ
  gasPrice : ℕ
deriving DecidableEq, Repr

/-- `accepted` is the history of every transaction a node took in; the rest is the node's
present view. `base` transactions and `startBalance` units precede the opening snapshot. -/
structure Node where
  operator : Address
  base : ℕ
  startBalance : ℕ
  accepted : List Accepted := []
  mempool : List Tx := []
  chain : List Block := []
deriving DecidableEq, Repr

def Entry.nonce (e : Entry) : ℕ := e.tx.nonce

/-- Replacement rule of a pending transaction: both fees at least 10% higher. -/
def Tx.replaces (tx old : Tx) : Bool :=
  old.fees.maxFeePerGas * 110 ≤ tx.fees.maxFeePerGas * 100 &&
    old.fees.maxPriorityFeePerGas * 110 ≤ tx.fees.maxPriorityFeePerGas * 100 &&
    old.fees.maxFeePerGas < tx.fees.maxFeePerGas &&
    old.fees.maxPriorityFeePerGas < tx.fees.maxPriorityFeePerGas

namespace Node

def entries (node : Node) : List Entry := chainEntries Block.entries node.chain

/-- The account nonce: how many of its transactions are mined. -/
def minedCount (node : Node) : ℕ := node.base + node.entries.length

/-- First nonce from `n` on that the pool does not hold, looking at most `fuel` ahead. -/
def contiguous (pool : List Tx) : ℕ → ℕ → ℕ
  | 0, n => n
  | fuel + 1, n => if ∃ tx ∈ pool, tx.nonce = n then contiguous pool fuel (n + 1) else n

/-- `getTransactionCount(operator, 'pending')`. -/
def pendingCount (node : Node) : ℕ :=
  contiguous node.mempool node.mempool.length node.minedCount

def currentBlock (node : Node) : ℕ := node.chain.length

def receiptOf (r : ℕ × Block × Entry) : Receipt :=
  { success := r.2.2.success, blockHash := r.2.1.hash, blockNumber := r.1 + 1
    gasUsed := r.2.2.gasUsed, gasPrice := r.2.2.gasPrice }

def getTransactionReceipt (node : Node) (txHash : TxHash) : Option Receipt :=
  (locate Block.entries (fun e => e.tx = txHash) node.chain).map receiptOf

/-- A node finds a transaction by hash while it is pending or mined. -/
def getTransaction (node : Node) (txHash : TxHash) : Option Tx :=
  if txHash ∈ node.mempool ∨ ∃ e ∈ node.entries, e.tx = txHash then some txHash else none

/-- A node takes a transaction in unless its nonce is used, it already holds it, or it does
not pay enough to replace the pending one. Otherwise it may still refuse for its own reasons. -/
def accepts (node : Node) (tx : Tx) : Bool :=
  node.minedCount ≤ tx.nonce && tx ∉ node.mempool &&
    node.mempool.all fun old => old.nonce ≠ tx.nonce || tx.replaces old

def accept (node : Node) (sender : Sender) (tx : Tx) : Node :=
  { node with
    accepted := node.accepted ++ [⟨sender, tx⟩]
    mempool := node.mempool.filter (fun old => old.nonce ≠ tx.nonce) ++ [tx] }

def dropTx (node : Node) (tx : Tx) : Node :=
  { node with mempool := node.mempool.filter fun t => t ≠ tx }

/-- Transactions a reorganisation takes out of the chain go back to the mempool. -/
def withHead (node : Node) (drop : ℕ) (blocks : List Block) : Node :=
  let chain := newHead drop blocks node.chain
  let orphaned := (chainEntries Block.entries
    (node.chain.drop (node.chain.length - drop))).map Entry.tx
  let mined := node.base + (chainEntries Block.entries chain).length
  { node with
    chain
    mempool := (node.mempool ++ orphaned).filter fun tx => mined ≤ tx.nonce }

/-- A head is possible when the account's nonces run on without gap or repetition and every
transaction of the new blocks was accepted by some node before. -/
def headPossible (node : Node) (drop : ℕ) (blocks : List Block) : Bool :=
  decide (Sequential Block.entries Entry.nonce node.base (newHead drop blocks node.chain)) &&
    (chainEntries Block.entries blocks).all fun e => (node.accepted.map Accepted.tx).contains e.tx

/-- The operator's token balance on the canonical chain. -/
def operatorFunds (node : Node) : ℤ :=
  node.startBalance
    - ((node.entries.filter Entry.success).map fun e =>
        (e.tx.call.outflow node.operator : ℤ)).sum
    + (node.chain.map fun b => (b.received.sum : ℤ)).sum

end Node

/-- What one step of a thread does to the node: nothing, or have a transaction accepted. -/
inductive NodeOp
  | none
  | accept (sender : Sender) (tx : Tx)
deriving DecidableEq, Repr

def NodeOp.apply (node : Node) : NodeOp → Node
  | .none => node
  | .accept sender tx => node.accept sender tx

end Rail
