import SettlementRail.Foundation.Runs
import SettlementRail.Model.Settlements

/-! `ensureOpeningSnapshot` and `recordSettlementFinalized` statement by statement, any number of
calls at once. `db` is what is committed. What a call has written and not committed goes with its
program point, so a rollback drops it; an insert waits while another call holds its key. -/

namespace Rail.Ledger
open Foundation

def genesisEntry (genesisId : SettlementId) (opening : Amount) : LedgerEntry :=
  { settlementId := genesisId, account := .genesis, direction := .credit, amount := opening }

def genesisRow (operator : Address) (genesisId : SettlementId) (opening : Amount) (now : ℕ) :
    Settlement :=
  { id := genesisId, instructionId := Db.genesisInstructionId, toAddress := operator
    amount := opening, status := .final, updatedAt := now }

/-- The statement a call comes to next. `genesis` is the row of the upsert, `created` if the
upsert inserted it. `dead` calls were cut off by a crash. -/
inductive LedgerPc
  | lookup
  | chainBalance
  | recheck (opening : Amount)
  | upsert (opening : Amount)
  | entry (opening : Amount) (genesis : Settlement) (created : Bool)
  | commitOpening (opening : Amount) (genesis : Settlement) (created : Bool)
  | debit (settlementId : SettlementId) (amount : Amount)
  | credit (settlementId : SettlementId) (amount : Amount)
  | commitPair (settlementId : SettlementId) (amount : Amount)
  | snapshotted
  | returned (booked : Bool)
  | threw
  | dead
deriving DecidableEq, Repr

namespace LedgerPc

def rows : LedgerPc → List Settlement
  | entry _ genesis true | commitOpening _ genesis true => [genesis]
  | _ => []

def entries : LedgerPc → List LedgerEntry
  | commitOpening opening genesis _ => [genesisEntry genesis.id opening]
  | credit settlementId amount => [Db.debitEntry settlementId amount]
  | commitPair settlementId amount =>
    [Db.debitEntry settlementId amount, Db.creditEntry settlementId amount]
  | _ => []

def names : LedgerPc → Option SettlementId
  | debit settlementId _ | credit settlementId _ | commitPair settlementId _ => some settlementId
  | _ => none

def ended : LedgerPc → Bool
  | snapshotted | returned _ | threw | dead => true
  | _ => false

def commit (pc : LedgerPc) (db : Db) : Option Db :=
  (pc.rows.foldlM Db.create db).bind fun db =>
    (pc.entries.foldlM Table.insert? db.ledgerEntries).map fun ledgerEntries =>
      { db with ledgerEntries }

end LedgerPc

structure LedgerState where
  db : Db := .empty
  calls : List LedgerPc := []

inductive InsertResult
  | ok | uniqueViolation | noSettlement
deriving DecidableEq, Repr

/-- `upserts` carries the id and the time that an insert of the genesis row would use. -/
inductive CallEvent
  | next
  | chainAnswers (opening : Amount)
  | upserts (genesisId : SettlementId) (now : ℕ)
deriving DecidableEq, Repr

inductive LedgerEvent
  | createSettlement (row : Settlement)
  | ensureOpeningSnapshot
  | recordSettlementFinalized (settlementId : SettlementId) (amount : Amount)
  | call (i : ℕ) (e : CallEvent)
  | throws (i : ℕ)
  | crash
deriving DecidableEq, Repr

def hasOpening (db : Db) : Bool := db.ledgerEntries.rows.any fun e => e.account = .genesis

def entryKey (e : LedgerEntry) : SettlementId × LedgerAccount := (e.settlementId, e.account)

namespace LedgerState

def unused (σ : LedgerState) (id : SettlementId) : Bool :=
  (σ.db.findById id).isNone &&
    σ.calls.all fun pc => pc.names ≠ some id && pc.rows.all fun s => s.id ≠ id

def genesisHeld (σ : LedgerState) : Bool :=
  σ.calls.any fun pc => pc.rows.any fun s => s.instructionId = Db.genesisInstructionId

/-- An insert by the call at `pc`; `none` while another transaction holds the key. -/
def insertEntry (σ : LedgerState) (pc : LedgerPc) (e : LedgerEntry) : Option InsertResult :=
  if σ.calls.any fun pc => pc.entries.any fun e' => entryKey e' = entryKey e then none
  else if (σ.db.ledgerEntries.find? (entryKey e)).isSome then some .uniqueViolation
  else if (σ.db.findById e.settlementId).isSome || pc.rows.any fun s => s.id = e.settlementId then
    some .ok
  else some .noSettlement

end LedgerState

/-- One statement of a call, with the committed database after it. -/
def callStep (operator : Address) (σ : LedgerState) (pc : LedgerPc) (e : CallEvent) :
    Option (LedgerPc × Db) :=
  match pc, e with
  | .lookup, .next => some (if hasOpening σ.db then .snapshotted else .chainBalance, σ.db)
  | .chainBalance, .chainAnswers opening => some (.recheck opening, σ.db)
  | .recheck opening, .next =>
    some (if hasOpening σ.db then .snapshotted else .upsert opening, σ.db)
  | .upsert opening, .upserts genesisId now =>
    if σ.genesisHeld then none
    else match σ.db.findByInstructionId Db.genesisInstructionId with
      | some genesis => some (.entry opening genesis false, σ.db)
      | none =>
        if σ.unused genesisId then
          some (.entry opening (genesisRow operator genesisId opening now) true, σ.db)
        else none
  | .entry opening genesis created, .next =>
    (σ.insertEntry (.entry opening genesis created) (genesisEntry genesis.id opening)).map fun
      | .ok => (.commitOpening opening genesis created, σ.db)
      | .uniqueViolation | .noSettlement => (.threw, σ.db)
  | .commitOpening opening genesis created, .next =>
    ((LedgerPc.commitOpening opening genesis created).commit σ.db).map fun db => (.snapshotted, db)
  | .debit id amount, .next =>
    (σ.insertEntry (.debit id amount) (Db.debitEntry id amount)).map fun
      | .ok => (.credit id amount, σ.db)
      | .uniqueViolation => (.returned false, σ.db)
      | .noSettlement => (.threw, σ.db)
  | .credit id amount, .next =>
    (σ.insertEntry (.credit id amount) (Db.creditEntry id amount)).map fun
      | .ok => (.commitPair id amount, σ.db)
      | .uniqueViolation => (.returned false, σ.db)
      | .noSettlement => (.threw, σ.db)
  | .commitPair id amount, .next =>
    ((LedgerPc.commitPair id amount).commit σ.db).map fun db => (.returned true, db)
  | _, _ => none

/-- A booking is asked for on any settlement but the genesis row. A statement or a commit that
fails in any other way than by the unique keys throws, and its transaction is rolled back. -/
def step (operator : Address) (σ : LedgerState) : LedgerEvent → Option LedgerState
  | .createSettlement row =>
    if σ.unused row.id &&
        !σ.calls.any fun pc => pc.rows.any fun s => s.instructionId = row.instructionId then
      (σ.db.create row).map fun db => { σ with db }
    else none
  | .ensureOpeningSnapshot => some { σ with calls := σ.calls ++ [.lookup] }
  | .recordSettlementFinalized id amount =>
    if ((σ.db.findById id).all fun s => s.instructionId ≠ Db.genesisInstructionId) &&
        σ.calls.all fun pc => pc.rows.all fun s => s.id ≠ id then
      some { σ with calls := σ.calls ++ [.debit id amount] }
    else none
  | .call i e =>
    σ.calls[i]?.bind fun pc =>
      (callStep operator σ pc e).map fun out => { db := out.2, calls := σ.calls.set i out.1 }
  | .throws i =>
    σ.calls[i]?.bind fun pc =>
      if pc.ended then none else some { σ with calls := σ.calls.set i .threw }
  | .crash =>
    some { σ with calls := σ.calls.map fun pc => if pc.ended then pc else .dead }

end Rail.Ledger
