import SettlementRail.Foundation.Runs
import SettlementRail.Model.Settlements

/-! `SettlementStateService.transition` statement by statement under READ COMMITTED, any number of
calls at once. The SELECT sees what is committed and locks nothing. The UPDATE by id waits for the
row lock, then changes the row as it is committed by then, and holds the lock up to the commit. -/

namespace Rail.StateService
open Foundation

structure TransitionRequest where
  id : SettlementId
  toStatus : SettlementStatus
  opts : TransitionOptions := {}
deriving DecidableEq, Repr

/-- The statement a call comes to next. `current` is the row its SELECT returned, `next` the row its
UPDATE returned. `seen` counts the transitions of the row committed before the SELECT; no statement
looks at it. `dead` calls were cut off by a crash. -/
inductive TransitionPc
  | select
  | update (current : Settlement) (seen : ℕ)
  | audit (current : Settlement) (seen : ℕ) (next : Settlement)
  | emit (current : Settlement) (seen : ℕ) (next : Settlement)
  | commit (current : Settlement) (seen : ℕ) (next : Settlement)
  | returned (updated : Option Settlement)
  | threw
  | dead
deriving DecidableEq, Repr

namespace TransitionPc

def locks : TransitionPc → Bool
  | audit .. | emit .. | commit .. => true
  | _ => false

def ended : TransitionPc → Bool
  | returned _ | threw | dead => true
  | _ => false

end TransitionPc

structure TransitionCall where
  request : TransitionRequest
  pc : TransitionPc := .select
deriving DecidableEq, Repr

structure TransitionState where
  db : Db := .empty
  calls : List TransitionCall := []

inductive TransitionEvent
  | create (id : SettlementId) (instructionId : String) (toAddress : Address) (amount : Amount)
    (now : ℕ)
  | transition (request : TransitionRequest)
  | call (i : ℕ) (now : ℕ)
  | throws (i : ℕ)
  | crash
deriving DecidableEq, Repr

def TransitionState.locked (σ : TransitionState) (id : SettlementId) : Bool :=
  σ.calls.any fun call => decide (call.request.id = id) && call.pc.locks

def transitionCount (db : Db) (id : SettlementId) : ℕ :=
  db.statusTransitions.countP fun t => t.settlementId = id

def auditRow (r : TransitionRequest) (current : Settlement) : StatusTransition :=
  { settlementId := r.id
    fromStatus := current.status
    toStatus := r.toStatus
    txHash := (r.opts.txHash.getD none).or current.txHash }

/-- The event is filled in from the row the UPDATE returned. -/
def outboxRows (r : TransitionRequest) (next : Settlement) : List OutboxEvent :=
  (outboxEventType r.toStatus).toList.map fun type =>
    { settlementId := r.id
      type
      instructionId := next.instructionId
      status := r.toStatus
      amount := next.amount
      toAddress := next.toAddress
      txHash := next.txHash }

/-- What the transaction makes visible: the new version of the row, the audit row, the event. -/
def commitDb (r : TransitionRequest) (current next : Settlement) (db : Db) : Db :=
  { db.update r.id (fun s => { next with id := s.id, instructionId := s.instructionId })
      (fun _ => rfl) (fun _ => rfl) with
    statusTransitions := db.statusTransitions ++ [auditRow r current]
    outboxEvents := db.outboxEvents ++ outboxRows r next }

/-- One statement of a call, with the committed database after it; `none` while another
transaction holds the row lock. -/
def callStep (σ : TransitionState) (call : TransitionCall) (now : ℕ) :
    Option (TransitionPc × Db) :=
  let r := call.request
  match call.pc with
  | .select =>
    match σ.db.findById r.id with
    | none => some (.threw, σ.db)
    | some current =>
      if r.opts.allows current.status then
        some (.update current (transitionCount σ.db r.id), σ.db)
      else some (.returned none, σ.db)
  | .update current seen =>
    if σ.locked r.id then none
    else match σ.db.findById r.id with
      | none => some (.threw, σ.db)
      | some row => some (.audit current seen (row.withTransition r.toStatus r.opts now), σ.db)
  | .audit current seen next =>
    if (outboxEventType r.toStatus).isSome then some (.emit current seen next, σ.db)
    else some (.commit current seen next, σ.db)
  | .emit current seen next => some (.commit current seen next, σ.db)
  | .commit current _ next => some (.returned (some next), commitDb r current next σ.db)
  | _ => none

/-- A statement or a commit that fails throws, and its transaction is rolled back. -/
def step (σ : TransitionState) : TransitionEvent → Option TransitionState
  | .create id instructionId toAddress amount now =>
    (σ.db.create { id, instructionId, toAddress, amount, status := .received
                   updatedAt := now }).map fun db => { σ with db }
  | .transition request => some { σ with calls := σ.calls ++ [{ request }] }
  | .call i now =>
    σ.calls[i]?.bind fun call =>
      (callStep σ call now).map fun out =>
        { db := out.2, calls := σ.calls.set i { call with pc := out.1 } }
  | .throws i =>
    σ.calls[i]?.bind fun call =>
      if call.pc.ended then none
      else some { σ with calls := σ.calls.set i { call with pc := .threw } }
  | .crash =>
    some { σ with
      calls := σ.calls.map fun call =>
        if call.pc.ended then call else { call with pc := .dead } }

end Rail.StateService
