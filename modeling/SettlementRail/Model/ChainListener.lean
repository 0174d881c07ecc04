import SettlementRail.Model.OperatorNode
import SettlementRail.Model.Settlements

/-! `ChainListenerService`: the interval poll and the Transfer-event handler, which share
`processReceipt` and everything below it. A poll carries the rest of its list, an event has
an empty one. -/

namespace Rail

structure ListenerConfig where
  confirmationsConfirmed : ℕ
  confirmationsFinal : ℕ
  confirmed_pos : 1 ≤ confirmationsConfirmed
  confirmed_le_final : confirmationsConfirmed ≤ confirmationsFinal

/-- What `processReceipt` does next, decided from the receipt it read. -/
inductive ReceiptAction
  | skip
  | revert
  | reorg
  | confirm (receipt : Receipt)
  | finalize (receipt : Receipt)
deriving DecidableEq, Repr

def confirmations (currentBlock : ℕ) (receipt : Receipt) : ℤ :=
  currentBlock - receipt.blockNumber + 1

/-- The branches of `processReceipt` between its receipt and its next await. -/
def decideReceipt (cfg : ListenerConfig) (s : Settlement) (currentBlock : ℕ) :
    Option Receipt → ReceiptAction
  | none => if s.confirmedBlockHash.isSome then .reorg else .skip
  | some receipt =>
    if !receipt.success then .revert
    else if s.confirmedBlockHash.isSome ∧ s.confirmedBlockHash ≠ some receipt.blockHash then .reorg
    else if (cfg.confirmationsFinal : ℤ) ≤ confirmations currentBlock receipt then .finalize receipt
    else if (cfg.confirmationsConfirmed : ℤ) ≤ confirmations currentBlock receipt ∧
        s.status = .submitted then .confirm receipt
    else .skip

inductive ListenPc
  | pollFind
  | pollHead (opened : List Settlement)
  | eventFind (txHash : TxHash)
  | eventHead (s : Settlement)
  | receipt (s : Settlement) (currentBlock : ℕ) (rest : List Settlement)
  | revert (s : Settlement) (currentBlock : ℕ) (rest : List Settlement)
  | reorg (s : Settlement) (currentBlock : ℕ) (rest : List Settlement)
  | confirm (s : Settlement) (receipt : Receipt) (currentBlock : ℕ) (rest : List Settlement)
  | book (s : Settlement) (receipt : Receipt) (currentBlock : ℕ) (rest : List Settlement)
  | flip (s : Settlement) (receipt : Receipt) (currentBlock : ℕ) (rest : List Settlement)
  | done
deriving DecidableEq, Repr

structure ListenCall where
  isPoll : Bool
  pc : ListenPc
deriving DecidableEq, Repr

inductive ListenEvent
  | found
  | headRead
  | receipt
  | written (outcome : DbOutcome Unit)
  | callError
deriving DecidableEq, Repr

inductive Metric
  | reorg
  | gas (id : SettlementId) (wei : ℕ)
deriving DecidableEq, Repr

structure ListenOut where
  pc : ListenPc
  db : DbOp := .none
  metrics : List Metric := []
deriving DecidableEq, Repr

def openFrom : Option (List SettlementStatus) := some [.submitted, .confirmed]

def revertOptions : TransitionOptions :=
  { failureReason := some (some "REVERTED_ONCHAIN"), expectedFrom := openFrom }

def reorgOptions : TransitionOptions :=
  { expectedFrom := some [.confirmed], confirmedBlockHash := some none
    confirmedBlockNumber := some none }

def confirmOptions (s : Settlement) (receipt : Receipt) : TransitionOptions :=
  { txHash := some s.txHash, expectedFrom := some [.submitted]
    confirmedBlockHash := some (some receipt.blockHash)
    confirmedBlockNumber := some (some receipt.blockNumber) }

def finalOptions (s : Settlement) : TransitionOptions :=
  { txHash := some s.txHash, expectedFrom := openFrom }

/-- The loop head of a poll: a row without a hash is left alone. -/
def listenNext (currentBlock : ℕ) : List Settlement → ListenPc
  | [] => .done
  | s :: rest => if s.txHash.isSome then .receipt s currentBlock rest else listenNext currentBlock rest

def afterReceipt (cfg : ListenerConfig) (s : Settlement) (currentBlock : ℕ)
    (rest : List Settlement) (receipt : Option Receipt) : ListenOut :=
  match decideReceipt cfg s currentBlock receipt with
  | .skip => { pc := listenNext currentBlock rest }
  | .revert => { pc := .revert s currentBlock rest }
  | .reorg => { pc := .reorg s currentBlock rest, metrics := [.reorg] }
  | .confirm receipt => { pc := .confirm s receipt currentBlock rest }
  | .finalize receipt => { pc := .book s receipt currentBlock rest }

/-- An exception ends the poll in its catch block. Nobody handles that of an event handler, which
ends the process: its thread ends here and a `crash` follows. -/
def afterWrite (next : ListenPc) : DbOutcome Unit → ListenPc
  | .ok => next
  | .lost _ | .ambiguous _ => .done

/-- `Number` of a bigint: 53 significant bits, to the nearest and on a tie to the even one. -/
def numberOfBigint (n : ℕ) : ℕ :=
  let place := 2 ^ (n.log2 + 1 - 53)
  if 2 * (n % place) < place ∨ 2 * (n % place) = place ∧ n / place % 2 = 0 then n / place * place
  else (n / place + 1) * place

example : numberOfBigint (2 ^ 53 + 1) = 2 ^ 53 ∧ numberOfBigint (2 ^ 53 + 3) = 2 ^ 53 + 4 := by
  decide +kernel

def finalizeMetrics (db : Db) (now : ℕ) (s : Settlement) (receipt : Receipt)
    (outcome : DbOutcome Unit) : List Metric :=
  match outcome, db.transitionOutcome now s.id .final (finalOptions s) with
  | .ok, .moved _ => [.gas s.id (numberOfBigint (receipt.gasUsed * receipt.gasPrice))]
  | _, _ => []

def listenStep (cfg : ListenerConfig) (db : Db) (node : Node) (now : ℕ) (pc : ListenPc)
    (e : ListenEvent) : Option ListenOut :=
  match pc, e with
  | .pollFind, .found =>
    match db.findByStatuses [.submitted, .confirmed] with
    | [] => some { pc := .done }
    | s :: rest => some { pc := .pollHead (s :: rest) }
  | .pollHead opened, .headRead => some { pc := listenNext node.currentBlock opened }
  | .eventFind txHash, .found =>
    match db.findByTxHash txHash with
    | none => some { pc := .done }
    | some s =>
      if s.status = .submitted ∨ s.status = .confirmed then some { pc := .eventHead s }
      else some { pc := .done }
  | .eventHead s, .headRead => some { pc := listenNext node.currentBlock [s] }
  | .receipt s currentBlock rest, .receipt =>
    some (afterReceipt cfg s currentBlock rest (s.txHash.bind node.getTransactionReceipt))
  | .revert s currentBlock rest, .written outcome =>
    if !db.canCommit s.id outcome then none
    else some
      { pc := afterWrite (listenNext currentBlock rest) outcome
        db := outcome.commits (.transition s.id .failed revertOptions) }
  | .reorg s currentBlock rest, .written outcome =>
    if !db.canCommit s.id outcome then none
    else some
      { pc := afterWrite (listenNext currentBlock rest) outcome
        db := outcome.commits (.transition s.id .submitted reorgOptions) }
  | .confirm s receipt currentBlock rest, .written outcome =>
    if !db.canCommit s.id outcome then none
    else some
      { pc := afterWrite (listenNext currentBlock rest) outcome
        db := outcome.commits (.transition s.id .confirmed (confirmOptions s receipt)) }
  | .book s receipt currentBlock rest, .written outcome =>
    if !db.canCommit s.id outcome then none
    else some
      { pc := afterWrite (.flip s receipt currentBlock rest) outcome
        db := outcome.commits (.book s.id s.amount) }
  | .flip s receipt currentBlock rest, .written outcome =>
    if !db.canCommit s.id outcome then none
    else some
      { pc := afterWrite (listenNext currentBlock rest) outcome
        db := outcome.commits (.transition s.id .final (finalOptions s))
        metrics := finalizeMetrics db now s receipt outcome }
  -- as for a write that throws: of an event handler the process dies
  | .pollFind, .callError | .pollHead _, .callError | .eventFind _, .callError
  | .eventHead _, .callError | .receipt .., .callError => some { pc := .done }
  | _, _ => none

end Rail
