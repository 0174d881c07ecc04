import SettlementRail.Model.Relayer

/-! `sweepStuckTransactions` with `bumpAndResend`, and `recoverInFlight`. Both walk a list of
rows read once; the rest of that list is the state carried from await to await. -/

namespace Rail

inductive SweepPc
  | find
  | receipt (s : Settlement) (rest : List Settlement)
  | feesFromTx (s : Settlement) (rest : List Settlement)
  | buildFees (s : Settlement) (rest : List Settlement)
  | estimateGas (s : Settlement) (rest : List Settlement) (fees : Fees)
  | broadcast (s : Settlement) (rest : List Settlement) (fees : Fees) (gasLimit : ℕ)
  | recordResend (s : Settlement) (rest : List Settlement) (tx : Tx)
  | fail (s : Settlement) (rest : List Settlement) (reason : String) (retryCount : ℕ)
deriving DecidableEq, Repr

inductive SweepEvent
  | found
  | receipt
  | txLookup
  | feeData (fd : FeeData)
  | estimated (est : Option ℕ)
  | sent (outcome : SendOutcome)
  | written (outcome : DbOutcome TxError)
  | callError
deriving DecidableEq, Repr

/-- `pc = none`: the sweep is over, by reaching the end of its list or by an exception. -/
structure SweepOut where
  pc : Option SweepPc
  db : DbOp := .none
  node : NodeOp := .none
  inflight : Inflight
deriving DecidableEq, Repr

def sweepNext : List Settlement → Option SweepPc
  | [] => none
  | s :: rest => if s.txHash.isSome && s.nonce.isSome then some (.receipt s rest) else sweepNext rest

def isStuck (cfg : RelayerConfig) (now : ℕ) (s : Settlement) (info : Option InflightTx) : Bool :=
  cfg.stuckTxSeconds * 1000 ≤ now - (info.map InflightTx.lastSubmittedAt).getD s.updatedAt

def resendTx (s : Settlement) (fees : Fees) (gasLimit baseUnits : ℕ) : Tx :=
  { nonce := s.nonce.getD 0, gasLimit, fees, call := .transfer s.toAddress baseUnits }

/-- After an unmined stuck row was found: give up at the retry cap, else bump and resend. -/
def sweepStuck (cfg : RelayerConfig) (s : Settlement) (rest : List Settlement)
    (info : Option InflightTx) (inflight : Inflight) : SweepOut :=
  if cfg.maxRetries ≤ s.retryCount then
    { pc := some (.fail s rest "STUCK_MAX_RETRIES" s.retryCount), inflight := inflight.delete s.id }
  else
    match info with
    | some info => { pc := some (.broadcast s rest (bumpFees info.fees) info.gasLimit), inflight }
    | none => { pc := some (.feesFromTx s rest), inflight }

/-- The catch branch of `bumpAndResend`. -/
def resendCaughtAs (s : Settlement) (rest : List Settlement) (cls : TxErrorClass)
    (inflight : Inflight) : SweepOut :=
  if cls.resyncNonce then { pc := sweepNext rest, inflight }
  else if !cls.retryable then
    { pc := some (.fail s rest ("RESEND_" ++ cls.reason) (s.retryCount + 1))
      inflight := inflight.delete s.id }
  else { pc := sweepNext rest, inflight }

def resendCaught (s : Settlement) (rest : List Settlement) (e : TxError) (inflight : Inflight) :
    SweepOut :=
  resendCaughtAs s rest (classifyTxError e) inflight

def afterFail (rest : List Settlement) : DbOutcome TxError → Option SweepPc
  | .ok => sweepNext rest
  | .lost _ | .ambiguous _ => none

/-- The sweep drops the entry of a row at the retry cap once more, when `fail` has returned. -/
def failedInflight (s : Settlement) (reason : String) (inflight : Inflight) :
    DbOutcome TxError → Inflight
  | .ok => if reason = "STUCK_MAX_RETRIES" then inflight.delete s.id else inflight
  | .lost _ | .ambiguous _ => inflight

def feesFromTx (tx : Option Tx) : Option Fees :=
  tx.bind fun tx =>
    if tx.fees.maxFeePerGas ≠ 0 ∧ tx.fees.maxPriorityFeePerGas ≠ 0 then some tx.fees else none

def resendInflight (s : Settlement) (fees : Fees) (gasLimit now : ℕ) : InflightTx :=
  { settlementId := s.id, nonce := s.nonce.getD 0, gasLimit, fees, lastSubmittedAt := now
    attempts := s.retryCount + 1 }

def sweepStep (cfg : RelayerConfig) (db : Db) (node : Node) (now : ℕ) (inflight : Inflight)
    (pc : SweepPc) (e : SweepEvent) : Option SweepOut :=
  match pc, e with
  | .find, .found => some { pc := sweepNext (db.findByStatuses [.submitted]), inflight }
  | .receipt s rest, .receipt =>
    if (s.txHash.bind node.getTransactionReceipt).isSome then
      some { pc := sweepNext rest, inflight := inflight.delete s.id }
    else if isStuck cfg now s (inflight.get s.id) then
      some (sweepStuck cfg s rest (inflight.get s.id) inflight)
    else some { pc := sweepNext rest, inflight }
  | .feesFromTx s rest, .txLookup =>
    match feesFromTx (s.txHash.bind node.getTransaction) with
    | some fees => some { pc := some (.estimateGas s rest (bumpFees fees)), inflight }
    | none => some { pc := some (.buildFees s rest), inflight }
  | .buildFees s rest, .feeData fd =>
    some { pc := some (.estimateGas s rest (bumpFees (buildFees fd))), inflight }
  | .estimateGas s rest fees, .estimated est =>
    -- `toBaseUnits` is an argument here, outside the try block
    some
      { pc := (toBaseUnits s.amount).map fun _ => .broadcast s rest fees (gasWithHeadroom est)
        inflight }
  | .broadcast s rest _ _, .sent (.refused e) => some (resendCaught s rest e inflight)
  | .broadcast s rest fees gasLimit, .sent (.accepted reply) =>
    match toBaseUnits s.amount with
    | none => none
    | some baseUnits =>
      if !node.accepts (resendTx s fees gasLimit baseUnits) then none
      else
        match reply with
        | some e => some
          { resendCaught s rest e inflight with
            node := .accept (.settlement s.id) (resendTx s fees gasLimit baseUnits) }
        | none => some
          { pc := some (.recordResend s rest (resendTx s fees gasLimit baseUnits))
            node := .accept (.settlement s.id) (resendTx s fees gasLimit baseUnits)
            inflight := inflight.set (resendInflight s fees gasLimit now) }
  | .recordResend s rest tx, .written outcome =>
    if !db.canCommit s.id outcome then none
    else
      match outcome with
      | .ok => some
        { pc := sweepNext rest, db := .recordResend s.id tx (s.retryCount + 1), inflight }
      | .lost e => some (resendCaught s rest e inflight)
      | .ambiguous e => some
        { resendCaught s rest e inflight with
          db := .recordResend s.id tx (s.retryCount + 1) }
  | .fail s rest reason retryCount, .written outcome =>
    if !db.canCommit s.id outcome then none
    else some
      { pc := afterFail rest outcome
        db := outcome.commits (.transition s.id .failed (failOptions reason retryCount))
        inflight := failedInflight s reason inflight outcome }
  | .receipt .., .callError | .find, .callError | .feesFromTx .., .callError
  | .buildFees .., .callError => some { pc := none, inflight }
  | _, _ => none

/-- Boot: fetch the pending nonce, then walk the rows in SUBMITTED. An error at any of these
awaits rejects the bootstrap hook and takes the process down, which is the crash event. -/
inductive RecoveryPc
  | fetchNonce
  | find
  | receipt (s : Settlement) (rest : List Settlement)
  | fail (s : Settlement) (rest : List Settlement)
  | getTransaction (s : Settlement) (rest : List Settlement)
  | done
deriving DecidableEq, Repr

inductive RecoveryEvent
  | counted
  | found
  | receipt
  | written
  | txLookup
deriving DecidableEq, Repr

/-- `requeue` lists the ids handed to `enqueueId`, in order. -/
structure RecoveryOut where
  pc : RecoveryPc
  db : DbOp := .none
  localNonce : ℕ
  inflight : Inflight
  requeue : List SettlementId := []
deriving DecidableEq, Repr

/-- The loop head: a row without a hash is re-queued at once. -/
def recoveryNext : List Settlement → RecoveryPc × List SettlementId
  | [] => (.done, [])
  | s :: rest =>
    if s.txHash.isSome then (.receipt s rest, [])
    else ((recoveryNext rest).1, s.id :: (recoveryNext rest).2)

def trackedTx (s : Settlement) (tx : Tx) (now : ℕ) : InflightTx :=
  { settlementId := s.id, nonce := s.nonce.getD tx.nonce, gasLimit := tx.gasLimit, fees := tx.fees
    lastSubmittedAt := now, attempts := s.retryCount }

def recoveryStep (db : Db) (node : Node) (now localNonce : ℕ) (inflight : Inflight)
    (pc : RecoveryPc) (e : RecoveryEvent) : Option RecoveryOut :=
  match pc, e with
  | .fetchNonce, .counted => some { pc := .find, localNonce := node.pendingCount, inflight }
  | .find, .found =>
    some
      { pc := (recoveryNext (db.findByStatuses [.submitted])).1, localNonce, inflight
        requeue := (recoveryNext (db.findByStatuses [.submitted])).2 }
  | .receipt s rest, .receipt =>
    match s.txHash.bind node.getTransactionReceipt with
    | some receipt =>
      if receipt.success then
        some
          { pc := (recoveryNext rest).1, localNonce, inflight, requeue := (recoveryNext rest).2 }
      else some { pc := .fail s rest, localNonce, inflight := inflight.delete s.id }
    | none => some { pc := .getTransaction s rest, localNonce, inflight }
  | .fail s rest, .written =>
    if (db.findById s.id).isNone then none
    else some
      { pc := (recoveryNext rest).1, localNonce, inflight
        db := .transition s.id .failed (failOptions "REVERTED_ON_RECOVERY" s.retryCount)
        requeue := (recoveryNext rest).2 }
  | .getTransaction s rest, .txLookup =>
    match s.txHash.bind node.getTransaction with
    | some tx => some
      { pc := (recoveryNext rest).1, localNonce
        inflight := inflight.set (trackedTx s tx now), requeue := (recoveryNext rest).2 }
    | none => some
      { pc := (recoveryNext rest).1, localNonce, inflight
        requeue := s.id :: (recoveryNext rest).2 }
  | _, _ => none

end Rail
