import SettlementRail.Foundation.Runs
import SettlementRail.Model.Settlements

/-! `OutboxRelay.relay`, one thread per tick that passed the `running` flag. A call of the
publisher or of the database that threw, or was cut off by a crash, may still take effect
later. -/

namespace Rail.Outbox
open Foundation

structure OutboxRow where
  id : ℕ
  event : OutboxEvent
  createdAt : ℕ
  publishedAt : Option ℕ := none
deriving DecidableEq, Repr

/-- What the broker receives. -/
structure SettlementEvent where
  id : ℕ
  event : OutboxEvent
  createdAt : ℕ
deriving DecidableEq, Repr

def OutboxRow.settlementEvent (r : OutboxRow) : SettlementEvent :=
  { id := r.id, event := r.event, createdAt := r.createdAt }

/-- The await a tick stands at, with the row it is at and the rest of its batch. -/
inductive RelayPc
  | find
  | publish (row : OutboxRow) (rest : List OutboxRow)
  | mark (row : OutboxRow) (rest : List OutboxRow)
  | done
deriving DecidableEq, Repr

/-- `published` is the stream of the broker. `unanswered` are publish calls, with their tick, and
`lateMarks` mark calls that nobody awaits any more. -/
structure Relay where
  rows : Table ℕ OutboxRow OutboxRow.id := .empty
  running : Bool := false
  ticks : List RelayPc := []
  published : List SettlementEvent := []
  unanswered : List (ℕ × OutboxRow) := []
  lateMarks : List OutboxRow := []

/-- `find` carries the unpublished rows by age as the database orders them: rows of one
`createdAt` come in any order. -/
inductive RelayEvent
  | commit (row : OutboxRow)
  | tick
  | find (i : ℕ) (order : List OutboxRow)
  | findThrows (i : ℕ)
  | publish (i : ℕ) (ok : Bool)
  | mark (i now : ℕ) (ok : Bool)
  | crash
  | arrives (j : ℕ)
  | lateMark (j now : ℕ)
deriving DecidableEq, Repr

def batchSize : ℕ := 50

namespace Relay

def unpublished (σ : Relay) : List OutboxRow := σ.rows.rows.filter fun r => r.publishedAt.isNone

def setPublishedAt (σ : Relay) (row : OutboxRow) (now : ℕ) : Relay :=
  { σ with
    rows := σ.rows.modify row.id (fun r => { r with publishedAt := some now }) fun _ => rfl }

def finish (σ : Relay) (i : ℕ) : Relay :=
  { σ with running := false, ticks := σ.ticks.set i .done }

def loop (σ : Relay) (i : ℕ) : List OutboxRow → Relay
  | [] => σ.finish i
  | row :: rest => { σ with ticks := σ.ticks.set i (.publish row rest) }

/-- A dead process leaves the calls it had sent. -/
def crashed (σ : Relay) : Relay :=
  { σ with
    running := false
    ticks := σ.ticks.map fun _ => .done
    unanswered := σ.unanswered ++ σ.ticks.zipIdx.filterMap fun p =>
      match p.1 with
      | .publish row _ => some (p.2, row)
      | _ => none
    lateMarks := σ.lateMarks ++ σ.ticks.filterMap fun pc =>
      match pc with
      | .mark row _ => some row
      | _ => none }

end Relay

def step (σ : Relay) : RelayEvent → Option Relay
  | .commit row =>
    if row.publishedAt.isNone then
      (σ.rows.insert? row).map fun rows => { σ with rows }
    else none
  | .tick =>
    if σ.running then some { σ with ticks := σ.ticks ++ [.done] }
    else some { σ with running := true, ticks := σ.ticks ++ [.find] }
  | .find i order =>
    if σ.ticks[i]? = some .find ∧ order.Perm σ.unpublished ∧
        order.Pairwise (fun r r' => r.createdAt ≤ r'.createdAt) then
      some (σ.loop i (order.take batchSize))
    else none
  | .findThrows i => if σ.ticks[i]? = some .find then some (σ.finish i) else none
  | .publish i ok =>
    match σ.ticks[i]? with
    | some (.publish row rest) =>
      if ok then
        some { σ with
          ticks := σ.ticks.set i (.mark row rest)
          published := σ.published ++ [row.settlementEvent] }
      else some { σ.finish i with unanswered := σ.unanswered ++ [(i, row)] }
    | _ => none
  | .mark i now ok =>
    match σ.ticks[i]? with
    | some (.mark row rest) =>
      if ok then some ((σ.setPublishedAt row now).loop i rest)
      else some { σ.finish i with lateMarks := σ.lateMarks ++ [row] }
    | _ => none
  | .crash => some σ.crashed
  | .arrives j =>
    σ.unanswered[j]?.map fun p =>
      { σ with published := σ.published ++ [p.2.settlementEvent] }
  | .lateMark j now => σ.lateMarks[j]?.map fun row => σ.setPublishedAt row now

end Rail.Outbox
