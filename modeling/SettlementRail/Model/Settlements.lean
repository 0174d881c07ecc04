import SettlementRail.Foundation.KeyedTable
import SettlementRail.Model.Transactions

/-! The database: settlements, the append-only ledger, the audit trail and the outbox, with
the statements `SettlementStateService` and `LedgerService` run on them. Each function here is
one committed transaction; the unique constraints are part of the table types. -/

namespace Rail
open Foundation

inductive SettlementStatus
  | received | rejectedCompliance | complianceApproved | submitted | confirmed | final | failed
deriving DecidableEq, Repr

/-- Statuses that still draw against the available balance. -/
def inFlightStatuses : List SettlementStatus :=
  [.received, .complianceApproved, .submitted, .confirmed]

/-- On chain but not yet final by the confirmation depth. -/
def pendingStatuses : List SettlementStatus := [.submitted, .confirmed]

structure Settlement where
  id : SettlementId
  instructionId : String
  toAddress : Address
  amount : Amount
  status : SettlementStatus
  txHash : Option TxHash := none
  nonce : Option ℕ := none
  failureReason : Option String := none
  retryCount : ℕ := 0
  confirmedBlockHash : Option BlockHash := none
  confirmedBlockNumber : Option ℕ := none
  updatedAt : ℕ
deriving DecidableEq, Repr

inductive LedgerAccount
  | operator | settledOut | genesis
deriving DecidableEq, Repr

inductive LedgerDirection
  | debit | credit
deriving DecidableEq, Repr

structure LedgerEntry where
  settlementId : SettlementId
  account : LedgerAccount
  direction : LedgerDirection
  amount : Amount
deriving DecidableEq, Repr

structure StatusTransition where
  settlementId : SettlementId
  fromStatus : SettlementStatus
  toStatus : SettlementStatus
  txHash : Option TxHash
deriving DecidableEq, Repr

/-- An outbox row; the fields after `type` are its payload. -/
structure OutboxEvent where
  settlementId : SettlementId
  type : String
  instructionId : String
  status : SettlementStatus
  amount : Amount
  toAddress : Address
  txHash : Option TxHash
deriving DecidableEq, Repr

def outboxEventType : SettlementStatus → Option String
  | .submitted => some "settlement.submitted"
  | .confirmed => some "settlement.confirmed"
  | .final => some "settlement.final"
  | .failed => some "settlement.failed"
  | _ => none

structure Db where
  settlements : Table SettlementId Settlement Settlement.id
  ledgerEntries : Table (SettlementId × LedgerAccount) LedgerEntry
    fun e => (e.settlementId, e.account)
  statusTransitions : List StatusTransition
  outboxEvents : List OutboxEvent
  instructionIds_nodup : (settlements.rows.map Settlement.instructionId).Nodup

namespace Db

def empty : Db := ⟨.empty, .empty, [], [], List.nodup_nil⟩

def findById (db : Db) (id : SettlementId) : Option Settlement := db.settlements.find? id

def findByInstructionId (db : Db) (instructionId : String) : Option Settlement :=
  db.settlements.rows.find? fun s => s.instructionId = instructionId

def findByTxHash (db : Db) (txHash : TxHash) : Option Settlement :=
  db.settlements.rows.find? fun s => s.txHash = some txHash

def findByStatuses (db : Db) (statuses : List SettlementStatus) : List Settlement :=
  db.settlements.rows.filter fun s => s.status ∈ statuses

/-- `aggregate({ _sum: { amount } })` over the given statuses, 0 if none. -/
def sumByStatuses (db : Db) (statuses : List SettlementStatus) : ℕ :=
  db.settlements.sumBy fun s => if s.status ∈ statuses then s.amount else 0

/-- `prisma.settlement.create`: `none` is the unique violation `P2002`. -/
def create (db : Db) (row : Settlement) : Option Db :=
  if hi : row.instructionId ∈ db.settlements.rows.map Settlement.instructionId then none
  else
    match hs : db.settlements.insert? row with
    | none => none
    | some settlements => some { db with
        settlements
        instructionIds_nodup := by
          rw [(Table.insert?_eq_some hs).2, List.map_append, List.nodup_append]
          refine ⟨db.instructionIds_nodup, by simp, ?_⟩
          rintro x hx y hy rfl
          simp only [List.map_cons, List.map_nil, List.mem_singleton] at hy
          exact hi (hy ▸ hx) }

/-- An update by id; the primary key and the idempotency key are never written. -/
def update (db : Db) (id : SettlementId) (f : Settlement → Settlement)
    (hid : ∀ s, (f s).id = s.id) (hinstr : ∀ s, (f s).instructionId = s.instructionId) : Db :=
  { db with
    settlements := db.settlements.modify id f hid
    instructionIds_nodup := by
      have hcomp : Settlement.instructionId ∘ Table.updateRow Settlement.id id f
          = Settlement.instructionId := by
        funext s
        simp only [Function.comp, Table.updateRow]
        split_ifs
        · exact hinstr s
        · rfl
      simp only [Table.modify, List.map_map, hcomp]
      exact db.instructionIds_nodup }

end Db

/-- An absent option leaves its column alone, `some none` writes null. -/
structure TransitionOptions where
  txHash : Option (Option TxHash) := none
  nonce : Option (Option ℕ) := none
  failureReason : Option (Option String) := none
  retryCount : Option ℕ := none
  confirmedBlockHash : Option (Option BlockHash) := none
  confirmedBlockNumber : Option (Option ℕ) := none
  expectedFrom : Option (List SettlementStatus) := none
deriving DecidableEq, Repr

def Settlement.withTransition (s : Settlement) (toStatus : SettlementStatus)
    (opts : TransitionOptions) (now : ℕ) : Settlement :=
  { s with
    status := toStatus
    txHash := opts.txHash.getD s.txHash
    nonce := opts.nonce.getD s.nonce
    failureReason := opts.failureReason.getD s.failureReason
    retryCount := opts.retryCount.getD s.retryCount
    confirmedBlockHash := opts.confirmedBlockHash.getD s.confirmedBlockHash
    confirmedBlockNumber := opts.confirmedBlockNumber.getD s.confirmedBlockNumber
    updatedAt := now }

def Settlement.withResend (s : Settlement) (txHash : TxHash) (retryCount now : ℕ) : Settlement :=
  { s with txHash := some txHash, retryCount, updatedAt := now }

/-- The `expectedFrom` guard: absent means every status is accepted. -/
def TransitionOptions.allows (opts : TransitionOptions) (status : SettlementStatus) : Bool :=
  opts.expectedFrom.all fun expected => expected.contains status

/-- How a transition ends: the row is missing (it throws), the guard rejects it (null), or it
commits and returns the new row. -/
inductive TransitionOutcome
  | notFound
  | rejected
  | moved (next : Settlement)
deriving DecidableEq, Repr

inductive BookOutcome
  | booked
  | alreadyBooked
  | missingSettlement
deriving DecidableEq, Repr

namespace Db

def transitionOutcome (db : Db) (now : ℕ) (id : SettlementId) (toStatus : SettlementStatus)
    (opts : TransitionOptions) : TransitionOutcome :=
  match db.findById id with
  | none => .notFound
  | some current =>
    if opts.allows current.status then .moved (current.withTransition toStatus opts now)
    else .rejected

def transition (db : Db) (now : ℕ) (id : SettlementId) (toStatus : SettlementStatus)
    (opts : TransitionOptions) : Db :=
  match db.findById id with
  | none => db
  | some current =>
    if opts.allows current.status then
      let next := current.withTransition toStatus opts now
      { db.update id (·.withTransition toStatus opts now) (fun _ => rfl) (fun _ => rfl) with
        statusTransitions := db.statusTransitions ++
          [{ settlementId := id
             fromStatus := current.status
             toStatus
             txHash := (opts.txHash.getD none).or current.txHash }]
        outboxEvents := db.outboxEvents ++
          (outboxEventType toStatus).toList.map fun type =>
            { settlementId := id
              type
              instructionId := next.instructionId
              status := toStatus
              amount := next.amount
              toAddress := next.toAddress
              txHash := next.txHash } }
    else db

/-- `recordResend`: no status check and no audit row. -/
def recordResend (db : Db) (now : ℕ) (id : SettlementId) (txHash : TxHash) (retryCount : ℕ) : Db :=
  db.update id (·.withResend txHash retryCount now) (fun _ => rfl) (fun _ => rfl)

def debitEntry (id : SettlementId) (amount : Amount) : LedgerEntry :=
  { settlementId := id, account := .operator, direction := .debit, amount }

def creditEntry (id : SettlementId) (amount : Amount) : LedgerEntry :=
  { settlementId := id, account := .settledOut, direction := .credit, amount }

/-- The pair of entries, written in one transaction: a unique violation rolls back both. -/
def recordSettlementFinalized (db : Db) (id : SettlementId) (amount : Amount) :
    Db × BookOutcome :=
  match db.findById id with
  | none => (db, .missingSettlement)
  | some _ =>
    match (db.ledgerEntries.insert? (debitEntry id amount)).bind
        fun entries => entries.insert? (creditEntry id amount) with
    | none => (db, .alreadyBooked)
    | some ledgerEntries => ({ db with ledgerEntries }, .booked)

def genesisInstructionId : String := "__genesis_opening_balance__"

/-- The inner transaction of `ensureOpeningSnapshot`, with the balance read before it. -/
def recordOpening (db : Db) (now : ℕ) (genesisId : SettlementId) (operator : Address)
    (opening : Amount) : Db :=
  match db.ledgerEntries.rows.find? fun e => e.account = .genesis with
  | some _ => db
  | none =>
    let upserted := match db.findByInstructionId genesisInstructionId with
      | some genesis => (db, genesis.id)
      | none =>
        ((db.create
          { id := genesisId, instructionId := genesisInstructionId, toAddress := operator
            amount := opening, status := .final, updatedAt := now }).getD db, genesisId)
    match upserted.1.ledgerEntries.insert?
        { settlementId := upserted.2, account := .genesis, direction := .credit
          amount := opening } with
    | some ledgerEntries => { upserted.1 with ledgerEntries }
    | none => db

/-! The reads of `getOperatorBalance`, one query each. -/

def getOpeningBalance (db : Db) : ℕ :=
  ((db.ledgerEntries.rows.find? fun e => e.account = .genesis).map LedgerEntry.amount).getD 0

def operatorSum (db : Db) (direction : LedgerDirection) : ℕ :=
  db.ledgerEntries.sumBy fun e =>
    if e.account = .operator ∧ e.direction = direction then e.amount else 0

end Db

/-- `opening.plus(creditSum).minus(debitSum)` on three values read before. -/
def operatorBalance (opening credits debits : ℕ) : ℤ :=
  decimalMinus (decimalPlus opening credits) debits

/-- `getOperatorBalance` when all its reads see one state. -/
def Db.getOperatorBalance (db : Db) : ℤ :=
  operatorBalance db.getOpeningBalance (db.operatorSum .credit) (db.operatorSum .debit)

/-- What one step does to the database: at most one committed transaction. -/
inductive DbOp
  | none
  | create (row : Settlement)
  | transition (id : SettlementId) (toStatus : SettlementStatus) (opts : TransitionOptions)
  | recordResend (id : SettlementId) (txHash : TxHash) (retryCount : ℕ)
  | book (id : SettlementId) (amount : Amount)
deriving DecidableEq, Repr

def DbOp.apply (now : ℕ) (db : Db) : DbOp → Db
  | .none => db
  | .create row => (db.create row).getD db
  | .transition id toStatus opts => db.transition now id toStatus opts
  | .recordResend id txHash retryCount => db.recordResend now id txHash retryCount
  | .book id amount => (db.recordSettlementFinalized id amount).1

/-- How the write of a database call ends. It may fail before or after the commit. -/
inductive DbOutcome (ε : Type)
  | ok
  | lost (e : ε)
  | ambiguous (e : ε)
deriving DecidableEq, Repr

def DbOutcome.commits {ε : Type} (op : DbOp) : DbOutcome ε → DbOp
  | .ok | .ambiguous _ => op
  | .lost _ => .none

/-- A write by id commits only if the row is there; otherwise the call throws. -/
def Db.canCommit {ε : Type} (db : Db) (id : SettlementId) : DbOutcome ε → Bool
  | .ok | .ambiguous _ => (db.findById id).isSome
  | .lost _ => true

end Rail
