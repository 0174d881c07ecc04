import SettlementRail.Model.OperatorNode
import SettlementRail.Model.Settlements
import SettlementRail.Model.TxError

/-! `RelayerService.processJob` and the state of the relayer. The mutex around a broadcast
makes the call and its reply one step: whatever the reply says, the node may have accepted. -/

namespace Rail

structure RelayerConfig where
  maxRetries : ℕ
  stuckTxSeconds : ℕ

structure InflightTx where
  settlementId : SettlementId
  nonce : ℕ
  gasLimit : ℕ
  fees : Fees
  lastSubmittedAt : ℕ
  attempts : ℕ
deriving DecidableEq, Repr

/-- The `Map` keyed by settlement id. -/
abbrev Inflight := List InflightTx

namespace Inflight

def get (inflight : Inflight) (id : SettlementId) : Option InflightTx :=
  inflight.find? fun info => info.settlementId = id

def delete (inflight : Inflight) (id : SettlementId) : Inflight :=
  inflight.filter fun info => info.settlementId ≠ id

def set (inflight : Inflight) (info : InflightTx) : Inflight :=
  inflight.delete info.settlementId ++ [info]

end Inflight

/-- How `contract.transfer` ends. An accepted transaction may still be reported as failed. -/
inductive SendOutcome
  | accepted (reply : Option TxError)
  | refused (e : TxError)
deriving DecidableEq, Repr

/-- The local variables of `processJob` after the job was found sendable. -/
structure JobVars where
  settlement : Settlement
  isResume : Bool
  nonce : ℕ
  baseUnits : ℕ
  gasLimit : ℕ := 0
  fees : Fees := ⟨0, 0⟩
  retryCount : ℕ
  attempt : ℕ := 0
deriving DecidableEq, Repr

def JobVars.tx (v : JobVars) : Tx :=
  { nonce := v.nonce, gasLimit := v.gasLimit, fees := v.fees
    call := .transfer v.settlement.toAddress v.baseUnits }

inductive JobPc
  | find
  | estimateGas (v : JobVars)
  | buildFees (v : JobVars)
  | broadcast (v : JobVars)
  | writeSubmitted (v : JobVars)
  | resync (v : JobVars) (cls : TxErrorClass)
  | backoff (v : JobVars)
  | fail (v : JobVars) (reason : String)
deriving DecidableEq, Repr

inductive JobEvent
  | found
  | estimated (est : Option ℕ)
  | feeData (fd : FeeData)
  | sent (outcome : SendOutcome)
  | written (outcome : DbOutcome TxError)
  | counted
  | woke
  | callError
deriving DecidableEq, Repr

/-- `pc = none`: `processJob` has returned or thrown, and `runWorker` goes on. -/
structure JobOut where
  pc : Option JobPc
  db : DbOp := .none
  node : NodeOp := .none
  localNonce : ℕ
  inflight : Inflight
deriving DecidableEq, Repr

/-- `tx.hash` is the hash of the transaction that was sent. -/
def submittedOptions (v : JobVars) : TransitionOptions :=
  { txHash := some (some v.tx), nonce := some (some v.nonce), retryCount := some v.retryCount }

def failOptions (reason : String) (retryCount : ℕ) : TransitionOptions :=
  { failureReason := some (some reason), retryCount := some retryCount }

def startJob (s : Settlement) (localNonce : ℕ) : Option JobVars :=
  let isResume := s.status = .submitted && s.nonce.isSome
  (toBaseUnits s.amount).map fun baseUnits =>
    { settlement := s, isResume, baseUnits, retryCount := s.retryCount
      nonce := if isResume then s.nonce.getD localNonce else localNonce }

def JobVars.bumpIf (v : JobVars) (reason : String) : JobVars :=
  if reason = "UNDERPRICED" then { v with fees := bumpFees v.fees } else v

def JobVars.retried (v : JobVars) : JobVars := { v with retryCount := v.retryCount + 1 }

/-- The catch branch of the send loop, up to its next await. `fail` drops the inflight entry
before it awaits the transition. -/
def caughtAs (cfg : RelayerConfig) (v : JobVars) (cls : TxErrorClass) (localNonce : ℕ)
    (inflight : Inflight) : JobOut :=
  if !cls.retryable then
    { pc := some (.fail v cls.reason), localNonce
      inflight := inflight.delete v.settlement.id }
  else if v.retryCount + 1 > cfg.maxRetries then
    { pc := some (.fail v.retried ("MAX_RETRIES_EXCEEDED:" ++ cls.reason)), localNonce
      inflight := inflight.delete v.settlement.id }
  else if cls.resyncNonce then { pc := some (.resync v.retried cls), localNonce, inflight }
  else { pc := some (.backoff (v.retried.bumpIf cls.reason)), localNonce, inflight }

def caught (cfg : RelayerConfig) (v : JobVars) (e : TxError) (localNonce : ℕ)
    (inflight : Inflight) : JobOut :=
  caughtAs cfg v (classifyTxError e) localNonce inflight

def jobInflight (v : JobVars) (now : ℕ) : InflightTx :=
  { settlementId := v.settlement.id, nonce := v.nonce, gasLimit := v.gasLimit, fees := v.fees
    lastSubmittedAt := now, attempts := v.retryCount }

/-- The nonce is consumed only by a fresh job that still holds the local one. -/
def consumeNonce (v : JobVars) (localNonce : ℕ) : ℕ :=
  if !v.isResume && v.nonce = localNonce then localNonce + 1 else localNonce

def jobStep (cfg : RelayerConfig) (db : Db) (node : Node) (now localNonce : ℕ)
    (inflight : Inflight) (id : SettlementId) (pc : JobPc) (e : JobEvent) : Option JobOut :=
  match pc, e with
  | .find, .found =>
    match db.findById id with
    | none => some { pc := none, localNonce, inflight }
    | some s =>
      if s.status ≠ .complianceApproved ∧ s.status ≠ .submitted then
        some { pc := none, localNonce, inflight }
      else some { pc := (startJob s localNonce).map .estimateGas, localNonce, inflight }
  | .find, .callError => some { pc := none, localNonce, inflight }
  | .estimateGas v, .estimated est =>
    some { pc := some (.buildFees { v with gasLimit := gasWithHeadroom est }), localNonce, inflight }
  | .buildFees v, .feeData fd =>
    some { pc := some (.broadcast { v with fees := buildFees fd }), localNonce, inflight }
  | .buildFees _, .callError => some { pc := none, localNonce, inflight }
  | .broadcast v, .sent (.refused e) => some (caught cfg v e localNonce inflight)
  | .broadcast v, .sent (.accepted reply) =>
    if !node.accepts v.tx then none
    else
      match reply with
      | some e => some
        { caught cfg v e localNonce inflight with node := .accept (.settlement id) v.tx }
      | none => some
        { pc := some (.writeSubmitted v)
          node := .accept (.settlement id) v.tx
          localNonce := consumeNonce v localNonce
          inflight := inflight.set (jobInflight v now) }
  | .writeSubmitted v, .written outcome =>
    if !db.canCommit id outcome then none
    else
      match outcome with
      | .ok => some
        { pc := none, db := .transition id .submitted (submittedOptions v), localNonce, inflight }
      | .lost e => some (caught cfg v e localNonce inflight)
      | .ambiguous e => some
        { caught cfg v e localNonce inflight with
          db := .transition id .submitted (submittedOptions v) }
  | .resync v cls, .counted =>
    if v.isResume then some { pc := some (.backoff (v.bumpIf cls.reason)), localNonce, inflight }
    else some
      { pc := some (.backoff ({ v with nonce := node.pendingCount }.bumpIf cls.reason))
        localNonce := node.pendingCount, inflight }
  | .resync _ _, .callError => some { pc := none, localNonce, inflight }
  | .backoff v, .woke =>
    some { pc := some (.broadcast { v with attempt := v.attempt + 1 }), localNonce, inflight }
  | .fail v reason, .written outcome =>
    if !db.canCommit id outcome then none
    else some
      { pc := none
        db := outcome.commits (.transition id .failed (failOptions reason v.retryCount))
        localNonce, inflight }
  | _, _ => none

end Rail
