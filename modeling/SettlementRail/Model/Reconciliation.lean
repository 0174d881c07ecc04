import SettlementRail.Model.OperatorNode
import SettlementRail.Model.Settlements

/-! `ReconciliationService.run` on one database and one node view. -/

namespace Rail

inductive ReconciliationStatus
  | matched | mismatch
deriving DecidableEq, Repr

structure ReconciliationRun where
  ledgerBalance : ℤ
  chainBalance : ℤ
  pendingAmount : ℤ
  diff : ℤ
  status : ReconciliationStatus
deriving DecidableEq, Repr

/-- One iteration of the loop of `computeMinedPending`. -/
def addMinedPending (node : Node) (sum : ℤ) (s : Settlement) : ℤ :=
  match s.txHash.bind node.getTransactionReceipt with
  | some receipt => if receipt.success then decimalPlus sum s.amount else sum
  | none => sum

def computeMinedPending (db : Db) (node : Node) : ℤ :=
  (db.findByStatuses pendingStatuses).foldl (addMinedPending node) 0

/-- The tolerance is one base unit, strictly: only an exact zero is below it. -/
def reconcile (db : Db) (node : Node) : ReconciliationRun :=
  let ledgerBalance := db.getOperatorBalance
  let chainBalance := node.operatorFunds
  let pendingAmount := computeMinedPending db node
  let diff := decimalMinus (decimalMinus ledgerBalance pendingAmount) chainBalance
  { ledgerBalance, chainBalance, pendingAmount, diff
    status := if diff.natAbs < 1 then .matched else .mismatch }

end Rail
