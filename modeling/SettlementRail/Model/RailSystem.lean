import SettlementRail.Foundation.Runs
import SettlementRail.Model.ChainListener
import SettlementRail.Model.DvpCalls
import SettlementRail.Model.StuckSweep
import SettlementRail.Model.Submission

/-! The rail as one machine: the process with all its threads, the database and the node. A
step resolves one awaited call of one thread, or is a move of the environment. -/

namespace Rail
open Foundation

structure Config where
  operator : Address
  compliance : Address → ComplianceResult
  relayer : RelayerConfig
  listener : ListenerConfig

/-- The relayer's memory. `worker` is the job `runWorker` awaits, `none` when it is not running. -/
structure Relayer where
  localNonce : ℕ := 0
  queue : List SettlementId := []
  inflight : Inflight := []
  draining : Bool := false
  worker : Option (SettlementId × JobPc) := none
  sweep : Option SweepPc := none
  recovery : RecoveryPc := .fetchNonce
deriving DecidableEq, Repr

namespace Relayer

/-- The loop condition of `runWorker`: shift the next job unless the queue is empty or the
relayer drains. -/
def runWorker (r : Relayer) : Relayer :=
  match r.queue with
  | [] => { r with worker := none }
  | id :: queue =>
    if r.draining then { r with worker := none } else { r with queue, worker := some (id, .find) }

def enqueueId (r : Relayer) (id : SettlementId) : Relayer :=
  if r.draining then r
  else
    let pushed := { r with queue := r.queue ++ [id] }
    if r.worker.isSome then pushed else pushed.runWorker

end Relayer

/-- `metrics` is the history of counter increments over all incarnations of the process. -/
structure State where
  db : Db
  node : Node
  now : ℕ := 0
  up : Bool := false
  relayer : Relayer := {}
  creates : List CreateCall := []
  listeners : List ListenCall := []
  dvps : List DvpPc := []
  metrics : List Metric := []

inductive Event
  | boot
  | crash
  | drain
  | tick (ms : ℕ)
  | submit (dto : CreateSettlementDto)
  | create (i : ℕ) (e : CreateEvent)
  | job (e : JobEvent)
  | startSweep
  | sweep (e : SweepEvent)
  | recover (e : RecoveryEvent)
  | startPoll
  | transferEvent (txHash : TxHash)
  | listen (i : ℕ) (e : ListenEvent)
  | dvpCall (request : DvpRequest)
  | dvp (i : ℕ) (e : DvpEvent)
  | dropTx (tx : Tx)
  | newHead (drop : ℕ) (blocks : List Block)
deriving DecidableEq, Repr

namespace State

/-- A dead process keeps the database and the chain, nothing else. -/
def crashed (σ : State) : State :=
  { σ with up := false, relayer := {}, creates := [], listeners := [], dvps := [] }

/-- HTTP requests are served once every bootstrap hook has finished. -/
def serving (σ : State) : Bool := σ.up && σ.relayer.recovery = .done

def isPolling (σ : State) : Bool := σ.listeners.any fun c => c.isPoll && c.pc ≠ .done

def afterCreate (σ : State) (i : ℕ) (call : CreateCall) (out : CreateOut) : State :=
  { σ with
    db := out.db.apply σ.now σ.db
    creates := σ.creates.set i { call with pc := out.pc }
    relayer := out.enqueue.elim σ.relayer σ.relayer.enqueueId }

def afterJob (σ : State) (id : SettlementId) (out : JobOut) : State :=
  let relayer :=
    { σ.relayer with
      localNonce := out.localNonce, inflight := out.inflight
      worker := out.pc.map fun pc => (id, pc) }
  { σ with
    db := out.db.apply σ.now σ.db
    node := out.node.apply σ.node
    relayer := if out.pc.isSome then relayer else relayer.runWorker }

def afterSweep (σ : State) (out : SweepOut) : State :=
  { σ with
    db := out.db.apply σ.now σ.db
    node := out.node.apply σ.node
    relayer := { σ.relayer with inflight := out.inflight, sweep := out.pc } }

def afterRecovery (σ : State) (out : RecoveryOut) : State :=
  let relayer :=
    { σ.relayer with
      recovery := out.pc, localNonce := out.localNonce, inflight := out.inflight }
  { σ with
    db := out.db.apply σ.now σ.db
    relayer := out.requeue.foldl Relayer.enqueueId relayer }

def afterListen (σ : State) (i : ℕ) (call : ListenCall) (out : ListenOut) : State :=
  { σ with
    db := out.db.apply σ.now σ.db
    listeners := σ.listeners.set i { call with pc := out.pc }
    metrics := σ.metrics ++ out.metrics }

def afterDvp (σ : State) (i : ℕ) (out : DvpOut) : State :=
  { σ with node := out.node.apply σ.node, dvps := σ.dvps.set i out.pc }

end State

def step (cfg : Config) (σ : State) : Event → Option State
  | .boot => if σ.up then none else some { σ with up := true }
  | .crash => if σ.up then some σ.crashed else none
  | .drain => if σ.up then some { σ with relayer := { σ.relayer with draining := true } } else none
  | .tick ms => some { σ with now := σ.now + ms }
  | .submit dto =>
    -- the validation pipe lets only positive amounts through
    if σ.serving && 0 < dto.amount then some { σ with creates := σ.creates ++ [{ dto }] } else none
  | .create i e =>
    σ.creates[i]?.bind fun call =>
      (createStep cfg.compliance σ.db σ.now call e).map (σ.afterCreate i call)
  | .job e =>
    σ.relayer.worker.bind fun w =>
      (jobStep cfg.relayer σ.db σ.node σ.now σ.relayer.localNonce σ.relayer.inflight w.1 w.2 e).map
        (σ.afterJob w.1)
  | .startSweep =>
    if σ.up && !σ.relayer.draining && σ.relayer.sweep.isNone then
      some { σ with relayer := { σ.relayer with sweep := some .find } }
    else none
  | .sweep e =>
    σ.relayer.sweep.bind fun pc =>
      (sweepStep cfg.relayer σ.db σ.node σ.now σ.relayer.inflight pc e).map σ.afterSweep
  | .recover e =>
    if σ.up then
      (recoveryStep σ.db σ.node σ.now σ.relayer.localNonce σ.relayer.inflight
        σ.relayer.recovery e).map σ.afterRecovery
    else none
  | .startPoll =>
    if σ.up && !σ.isPolling then
      some { σ with listeners := σ.listeners ++ [{ isPoll := true, pc := .pollFind }] }
    else none
  | .transferEvent txHash =>
    if σ.up then
      some { σ with listeners := σ.listeners ++ [{ isPoll := false, pc := .eventFind txHash }] }
    else none
  | .listen i e =>
    σ.listeners[i]?.bind fun call =>
      (listenStep cfg.listener σ.db σ.node σ.now call.pc e).map (σ.afterListen i call)
  | .dvpCall request =>
    if σ.serving then some { σ with dvps := σ.dvps ++ [dvpStart request] } else none
  | .dvp i e =>
    σ.dvps[i]?.bind fun pc => (dvpStep σ.node i pc e).map (σ.afterDvp i)
  | .dropTx tx => some { σ with node := σ.node.dropTx tx }
  | .newHead drop blocks =>
    if σ.node.headPossible drop blocks then some { σ with node := σ.node.withHead drop blocks }
    else none

/-- The state after the first boot took its opening snapshot: the genesis row and its ledger
entry are there, the operator's history on chain is `base` transactions long. -/
def initial (cfg : Config) (base opening : ℕ) : State :=
  { db := Db.empty.recordOpening 0 0 cfg.operator opening
    node := { operator := cfg.operator, base, startBalance := opening } }

/-- States of the rail reached by runs whose every step meets `C`. -/
abbrev RailReach (cfg : Config) (C : State → Event → Prop) (base opening : ℕ) : State → Prop :=
  ReachUnder (step cfg) C (initial cfg base opening)

end Rail
