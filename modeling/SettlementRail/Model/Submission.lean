import SettlementRail.Model.Settlements
import SettlementRail.Model.TxError

/-! `SettlementsService.create`, one thread per request. A program point names the call the
thread awaits; an event resolves it and runs the code up to the next await. -/

namespace Rail

structure ComplianceResult where
  approved : Bool
  reason : Option String := none
deriving DecidableEq, Repr

structure CreateSettlementDto where
  instructionId : String
  toAddress : Address
  amount : Amount
deriving DecidableEq, Repr

inductive CreateError
  | insufficientBalance (amount : Amount) (available : ℤ)
  | database
deriving DecidableEq, Repr

/-- The queries of `availableBalance` that have resolved so far. -/
structure BalanceReads where
  opening : Option ℕ := none
  credits : Option ℕ := none
  debits : Option ℕ := none
  inFlight : Option ℕ := none
deriving DecidableEq, Repr

inductive CreatePc
  | find
  | reading (reads : BalanceReads)
  | insert
  | findRaced
  | check (id : SettlementId)
  | reject (id : SettlementId) (reason : String)
  | approve (id : SettlementId)
  | returned (id : SettlementId) (created : Bool)
  | threw (err : CreateError)
deriving DecidableEq, Repr

structure CreateCall where
  dto : CreateSettlementDto
  pc : CreatePc := .find
deriving DecidableEq, Repr

inductive CreateEvent
  | found
  | readOpening
  | readCredits
  | readDebits
  | readInFlight
  | inserted (id : SettlementId) (outcome : DbOutcome Unit)
  | screened
  | written (outcome : DbOutcome Unit)
  | dbError
deriving DecidableEq, Repr

structure CreateOut where
  pc : CreatePc
  db : DbOp := .none
  /-- `relayer.enqueue(ready)` runs before the next await. -/
  enqueue : Option SettlementId := none
deriving DecidableEq, Repr

def CreateSettlementDto.row (dto : CreateSettlementDto) (id : SettlementId) (now : ℕ) :
    Settlement :=
  { id, instructionId := dto.instructionId, toAddress := dto.toAddress, amount := dto.amount
    status := .received, updatedAt := now }

def BalanceReads.available (reads : BalanceReads) : Option ℤ := do
  let opening ← reads.opening
  let credits ← reads.credits
  let debits ← reads.debits
  let inFlight ← reads.inFlight
  return decimalMinus (operatorBalance opening credits debits) inFlight

/-- `availableBalance` awaits all its reads; the 422 check follows the last of them. -/
def afterRead (dto : CreateSettlementDto) (reads : BalanceReads) : CreateOut :=
  match reads.available with
  | none => { pc := .reading reads }
  | some available =>
    if (dto.amount : ℤ) > available then { pc := .threw (.insufficientBalance dto.amount available) }
    else { pc := .insert }

/-- The credit and debit sums are queried only once the opening balance is there. -/
def readStep (db : Db) (reads : BalanceReads) : CreateEvent → Option BalanceReads
  | .readOpening =>
    if reads.opening = none then some { reads with opening := some db.getOpeningBalance } else none
  | .readCredits =>
    if reads.opening ≠ none ∧ reads.credits = none then
      some { reads with credits := some (db.operatorSum .credit) }
    else none
  | .readDebits =>
    if reads.opening ≠ none ∧ reads.debits = none then
      some { reads with debits := some (db.operatorSum .debit) }
    else none
  | .readInFlight =>
    if reads.inFlight = none then
      some { reads with inFlight := some (db.sumByStatuses inFlightStatuses) }
    else none
  | _ => none

def rejectOptions (reason : String) : TransitionOptions := { failureReason := some (some reason) }

/-- How `create` ends after its last write: an error of the call reaches the client. -/
def createEnd (id : SettlementId) : DbOutcome Unit → CreatePc
  | .ok => .returned id true
  | .lost _ | .ambiguous _ => .threw .database

/-- `relayer.enqueue(ready)` runs only when the approving transition returned. -/
def enqueueAfter (id : SettlementId) : DbOutcome Unit → Option SettlementId
  | .ok => some id
  | .lost _ | .ambiguous _ => none

def screen (id : SettlementId) (result : ComplianceResult) : CreatePc :=
  if result.approved then .approve id
  else .reject id (result.reason.getD "COMPLIANCE_REJECTED")

def createStep (compliance : Address → ComplianceResult) (db : Db) (now : ℕ) (call : CreateCall)
    (e : CreateEvent) : Option CreateOut :=
  match call.pc, e with
  | .find, .found =>
    match db.findByInstructionId call.dto.instructionId with
    | some existing => some { pc := .returned existing.id false }
    | none => some { pc := .reading {} }
  | .find, .dbError => some { pc := .threw .database }
  | .reading _, .dbError => some { pc := .threw .database }
  | .reading reads, e => (readStep db reads e).map (afterRead call.dto)
  | .insert, .inserted id outcome =>
    let row := call.dto.row id now
    match outcome with
    | .lost _ => some { pc := .threw .database }
    | .ok =>
      if db.findById id ≠ none then none
      else if (db.create row).isSome then some { pc := .check id, db := .create row }
      else some { pc := .findRaced }
    | .ambiguous _ =>
      if (db.create row).isSome then some { pc := .threw .database, db := .create row } else none
  | .findRaced, .found =>
    match db.findByInstructionId call.dto.instructionId with
    | some raced => some { pc := .returned raced.id false }
    | none => some { pc := .threw .database }
  | .findRaced, .dbError => some { pc := .threw .database }
  | .check id, .screened => some { pc := screen id (compliance call.dto.toAddress) }
  | .reject id reason, .written outcome =>
    if !db.canCommit id outcome then none
    else some
      { pc := createEnd id outcome
        db := outcome.commits (.transition id .rejectedCompliance (rejectOptions reason)) }
  | .approve id, .written outcome =>
    if !db.canCommit id outcome then none
    else some
      { pc := createEnd id outcome
        db := outcome.commits (.transition id .complianceApproved {})
        enqueue := enqueueAfter id outcome }
  | _, _ => none

end Rail
