import Mathlib.Data.Nat.Notation
import SettlementRail.Foundation.Runs
import SettlementRail.Model.Transactions

/-! `enqueueId` and `runWorker` statement by statement, with any number of `runWorker` calls. The
statements of one turn of the event loop run without anything in between; what `processJob` does
is up to the environment. -/

namespace Rail.Worker
open Foundation

/-- The statement a call of `runWorker` comes to next. `inJob` is the await of `processJob`. -/
inductive LoopPc
  | entry
  | test
  | shift
  | inJob (id : SettlementId)
  | afterJob
  | resetFlag
  | finished
deriving DecidableEq, Repr

structure JobError where
  message : String
  stack : Option String := none
deriving DecidableEq, Repr

/-- How `processJob` settles. Whoever rejects with null or undefined leaves nothing to read a
message from. -/
inductive JobOutcome
  | resolved
  | rejected (err : Option JobError)
deriving DecidableEq, Repr

/-- `turn` is the call whose statements run, `none` between two turns of the event loop.
`enqueued` and `started` are the ids pushed and the jobs started so far, in order. -/
structure State where
  queue : List SettlementId := []
  workerRunning : Bool := false
  draining : Bool := false
  loops : List LoopPc := []
  turn : Option ℕ := none
  alive : Bool := true
  enqueued : List SettlementId := []
  started : List SettlementId := []
deriving DecidableEq, Repr

inductive Event
  | enqueueId (id : SettlementId)
  | onModuleDestroy
  | jobSettles (i : ℕ) (outcome : JobOutcome)
  | proceed
deriving DecidableEq, Repr

def State.idle (σ : State) : Bool := σ.alive && σ.turn.isNone

def statement (σ : State) (i : ℕ) : LoopPc → Option State
  | .entry =>
    if σ.workerRunning then some { σ with loops := σ.loops.set i .finished, turn := none }
    else some { σ with workerRunning := true, loops := σ.loops.set i .test }
  | .test =>
    if σ.queue ≠ [] && !σ.draining then some { σ with loops := σ.loops.set i .shift }
    else some { σ with loops := σ.loops.set i .resetFlag }
  | .shift =>
    match σ.queue with
    | [] => none
    | id :: queue => some
      { σ with
        queue, started := σ.started ++ [id], loops := σ.loops.set i (.inJob id), turn := none }
  | .afterJob => some { σ with loops := σ.loops.set i .test }
  | .resetFlag => some
    { σ with workerRunning := false, loops := σ.loops.set i .finished, turn := none }
  | .inJob _ | .finished => none

/-- A rejection is logged. Where that throws, the call ends with an exception that nobody handles,
and the process goes down. -/
def jobSettles (σ : State) (i : ℕ) : JobOutcome → State
  | .resolved | .rejected (some _) =>
    { σ with loops := σ.loops.set i .afterJob, turn := some i }
  | .rejected none =>
    { σ with workerRunning := false, loops := σ.loops.set i .finished, alive := false }

def step (σ : State) : Event → Option State
  | .enqueueId id =>
    if !σ.idle then none
    else if σ.draining then some σ
    else some
      { σ with
        queue := σ.queue ++ [id], enqueued := σ.enqueued ++ [id]
        loops := σ.loops ++ [.entry], turn := some σ.loops.length }
  | .onModuleDestroy => if σ.idle then some { σ with draining := true } else none
  | .jobSettles i outcome =>
    match σ.loops[i]? with
    | some (.inJob _) => if σ.idle then some (jobSettles σ i outcome) else none
    | _ => none
  | .proceed => σ.turn.bind fun i => σ.loops[i]?.bind (statement σ i)

end Rail.Worker
