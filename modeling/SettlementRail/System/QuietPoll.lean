import SettlementRail.System.RowEvolution
import SettlementRail.System.Steps

/-! A poll that no error and no other thread disturbs, computed row by row. The events of such
a poll are determined by the state it starts in, and the machine goes through with them. -/

namespace Rail
open Foundation

def openStatuses : List SettlementStatus := [.submitted, .confirmed]

/-- What `processReceipt` writes for one row when every call succeeds. -/
def receiptOps (cfg : ListenerConfig) (s : Settlement) (currentBlock : ℕ)
    (receipt : Option Receipt) : List DbOp :=
  match decideReceipt cfg s currentBlock receipt with
  | .skip => []
  | .revert => [.transition s.id .failed revertOptions]
  | .reorg => [.transition s.id .submitted reorgOptions]
  | .confirm receipt => [.transition s.id .confirmed (confirmOptions s receipt)]
  | .finalize _ => [.book s.id s.amount, .transition s.id .final (finalOptions s)]

def rowOps (cfg : ListenerConfig) (node : Node) (s : Settlement) : List DbOp :=
  if s.txHash.isSome then
    receiptOps cfg s node.currentBlock (s.txHash.bind node.getTransactionReceipt)
  else []

def rowEvents (cfg : ListenerConfig) (node : Node) (s : Settlement) : List ListenEvent :=
  if s.txHash.isSome then .receipt :: (rowOps cfg node s).map fun _ => .written .ok else []

def receiptEvents (cfg : ListenerConfig) (s : Settlement) (currentBlock : ℕ)
    (receipt : Option Receipt) : List ListenEvent :=
  .receipt :: (receiptOps cfg s currentBlock receipt).map fun _ => .written .ok

def passEvents (cfg : ListenerConfig) (db : Db) (node : Node) : List ListenEvent :=
  match db.findByStatuses openStatuses with
  | [] => [.found]
  | s :: rest => .found :: .headRead :: (s :: rest).flatMap (rowEvents cfg node)

def pollEvents (cfg : Config) (σ : State) : List Event :=
  .startPoll :: (passEvents cfg.listener σ.db σ.node).map (.listen σ.listeners.length)

def DbOp.applyAll (now : ℕ) (db : Db) (ops : List DbOp) : Db :=
  ops.foldl (fun db op => op.apply now db) db

def passOps (cfg : ListenerConfig) (db : Db) (node : Node) : List DbOp :=
  (db.findByStatuses openStatuses).flatMap (rowOps cfg node)

variable {cfg : Config} {σ : State} {s : Settlement} {i : ℕ} {b : Bool} {id : SettlementId}
variable {now : ℕ} {db : Db} {ops : List DbOp}

def DbOp.onRowAll (now : ℕ) (ops : List DbOp) (s : Settlement) : Settlement :=
  ops.foldl (fun s op => op.onRow now s) s

@[simp] theorem onRowAll_id : (DbOp.onRowAll now ops s).id = s.id := by
  induction ops generalizing s with
  | nil => rfl
  | cons op ops ih => exact ih.trans onRow_id

theorem findById_applyAll (h : db.findById id = some s) :
    (DbOp.applyAll now db ops).findById id = some (DbOp.onRowAll now ops s) := by
  induction ops generalizing db s with
  | nil => exact h
  | cons op ops ih => exact ih (findById_apply h)

theorem applyAll_append (ops ops' : List DbOp) :
    DbOp.applyAll now db (ops ++ ops') = DbOp.applyAll now (DbOp.applyAll now db ops) ops' :=
  List.foldl_append

theorem onRowAll_append (ops ops' : List DbOp) :
    DbOp.onRowAll now (ops ++ ops') s = DbOp.onRowAll now ops' (DbOp.onRowAll now ops s) :=
  List.foldl_append

theorem step_listen {call : ListenCall} {e : ListenEvent} {out : ListenOut}
    (hcall : σ.listeners[i]? = some call)
    (hout : listenStep cfg.listener σ.db σ.node σ.now call.pc e = some out) :
    step cfg σ (.listen i e) = some (σ.afterListen i call out) := by
  simp only [step, hcall, Option.bind_some, hout, Option.map_some]

/-- The state of a poll in progress: `σ` with the poll's writes so far and its program point. -/
def State.polling (σ : State) (i : ℕ) (b : Bool) (db : Db) (pc : ListenPc) (metrics : List Metric) :
    State :=
  { σ with db, metrics, listeners := σ.listeners.set i { isPoll := b, pc } }

theorem polling_listeners (hi : i < σ.listeners.length) (b : Bool) (db : Db) (pc : ListenPc)
    (metrics : List Metric) :
    (σ.polling i b db pc metrics).listeners[i]? = some { isPoll := b, pc } :=
  List.getElem?_set_self hi

theorem step_polling (hi : i < σ.listeners.length) {pc : ListenPc} {metrics : List Metric}
    {e : ListenEvent} {out : ListenOut}
    (hout : listenStep cfg.listener db σ.node σ.now pc e = some out) :
    step cfg (σ.polling i b db pc metrics) (.listen i e) =
      some (σ.polling i b (out.db.apply σ.now db) out.pc (metrics ++ out.metrics)) := by
  rw [step_listen (polling_listeners hi b db pc metrics) hout]
  simp only [State.afterListen, State.polling, List.set_set]

theorem run_write (hi : i < σ.listeners.length) {pc : ListenPc} (metrics : List Metric)
    {out : ListenOut}
    (hout : listenStep cfg.listener db σ.node σ.now pc (.written .ok) = some out)
    (events : List Event) :
    ∃ metrics', run (step cfg) (σ.polling i b db pc metrics)
      (.listen i (.written .ok) :: events) =
        run (step cfg) (σ.polling i b (out.db.apply σ.now db) out.pc metrics') events :=
  ⟨metrics ++ out.metrics, by rw [run, step_polling hi hout, Option.bind_some]⟩

theorem canCommit_ok (hs : (db.findById id).isSome) :
    (!db.canCommit id (.ok : DbOutcome Unit)) = false := by
  rw [Bool.not_eq_false']
  exact hs

theorem run_receipt (hi : i < σ.listeners.length) {head : ℕ} {rest : List Settlement}
    (metrics : List Metric) (hs : (db.findById s.id).isSome) (events : List Event) :
    ∃ metrics', run (step cfg) (σ.polling i b db (.receipt s head rest) metrics)
      ((receiptEvents cfg.listener s head (s.txHash.bind σ.node.getTransactionReceipt)).map
        (.listen i) ++ events) =
        run (step cfg) (σ.polling i b (DbOp.applyAll σ.now db (receiptOps cfg.listener s head
          (s.txHash.bind σ.node.getTransactionReceipt))) (listenNext head rest) metrics') events := by
  rw [receiptEvents, List.map_cons, List.cons_append, run, step_polling hi rfl, Option.bind_some,
    receiptOps, afterReceipt]
  have hcan := canCommit_ok hs
  rcases decideReceipt cfg.listener s head (s.txHash.bind σ.node.getTransactionReceipt) with
    _ | _ | _ | receipt | receipt
  · exact ⟨_, rfl⟩
  · have hout : listenStep cfg.listener db σ.node σ.now (.revert s head rest) (.written .ok) =
        some { pc := listenNext head rest, db := .transition s.id .failed revertOptions } := by
      rw [listenStep, hcan]
      rfl
    exact run_write hi _ hout events
  · have hout : listenStep cfg.listener db σ.node σ.now (.reorg s head rest) (.written .ok) =
        some { pc := listenNext head rest, db := .transition s.id .submitted reorgOptions } := by
      rw [listenStep, hcan]
      rfl
    exact run_write hi _ hout events
  · have hout : listenStep cfg.listener db σ.node σ.now (.confirm s receipt head rest)
        (.written .ok) = some { pc := listenNext head rest
                                db := .transition s.id .confirmed (confirmOptions s receipt) } := by
      rw [listenStep, hcan]
      rfl
    exact run_write hi _ hout events
  · -- booked first, in a transaction of its own
    have hbook : listenStep cfg.listener db σ.node σ.now (.book s receipt head rest)
        (.written .ok) = some { pc := .flip s receipt head rest, db := .book s.id s.amount } := by
      rw [listenStep, hcan]
      rfl
    obtain ⟨metrics₁, hrun⟩ := run_write hi (metrics ++ []) hbook (.listen i (.written .ok) :: events)
    obtain ⟨r, hr⟩ := Option.isSome_iff_exists.mp hs
    have hrow : (((DbOp.book s.id s.amount).apply σ.now db).findById s.id).isSome := by
      rw [findById_apply hr]
      rfl
    have hflip : listenStep cfg.listener ((DbOp.book s.id s.amount).apply σ.now db) σ.node σ.now
        (.flip s receipt head rest) (.written .ok) = some
          { pc := listenNext head rest
            db := .transition s.id .final (finalOptions s)
            metrics := finalizeMetrics ((DbOp.book s.id s.amount).apply σ.now db) σ.now s receipt
              .ok } := by
      rw [listenStep, canCommit_ok hrow]
      rfl
    obtain ⟨metrics₂, hrun₂⟩ := run_write hi metrics₁ hflip events
    exact ⟨metrics₂, hrun.trans hrun₂⟩

theorem run_row (hi : i < σ.listeners.length) {rest : List Settlement} (metrics : List Metric)
    (hs : (db.findById s.id).isSome) (events : List Event) :
    ∃ metrics', run (step cfg)
      (σ.polling i b db (listenNext σ.node.currentBlock (s :: rest)) metrics)
      ((rowEvents cfg.listener σ.node s).map (.listen i) ++ events) =
        run (step cfg) (σ.polling i b (DbOp.applyAll σ.now db (rowOps cfg.listener σ.node s))
          (listenNext σ.node.currentBlock rest) metrics') events := by
  by_cases hhash : s.txHash.isSome
  · rw [rowEvents, if_pos hhash, listenNext, if_pos hhash, rowOps, if_pos hhash]
    exact run_receipt hi metrics hs events
  · exact ⟨metrics, by simp [rowEvents, rowOps, listenNext, hhash, DbOp.applyAll]⟩

theorem run_rows (hi : i < σ.listeners.length) (rows : List Settlement) (metrics : List Metric)
    (hrows : ∀ t ∈ rows, (db.findById t.id).isSome) :
    ∃ metrics', run (step cfg)
      (σ.polling i b db (listenNext σ.node.currentBlock rows) metrics)
      ((rows.flatMap (rowEvents cfg.listener σ.node)).map (.listen i)) =
        some (σ.polling i b (DbOp.applyAll σ.now db (rows.flatMap (rowOps cfg.listener σ.node)))
          .done metrics') := by
  induction rows generalizing db metrics with
  | nil => exact ⟨metrics, rfl⟩
  | cons t rows ih =>
    obtain ⟨metrics₁, hrow⟩ := run_row hi metrics (hrows t List.mem_cons_self)
      ((rows.flatMap (rowEvents cfg.listener σ.node)).map (.listen i))
    have hrest : ∀ r ∈ rows, ((DbOp.applyAll σ.now db (rowOps cfg.listener σ.node t)).findById
        r.id).isSome := by
      intro r hr
      obtain ⟨r', hr'⟩ := Option.isSome_iff_exists.mp (hrows r (List.mem_cons_of_mem _ hr))
      rw [findById_applyAll hr']
      rfl
    obtain ⟨metrics₂, htail⟩ := ih metrics₁ hrest
    refine ⟨metrics₂, ?_⟩
    rw [List.flatMap_cons, List.map_append, hrow, htail, List.flatMap_cons, applyAll_append]

def State.polledDb (cfg : Config) (σ : State) : Db :=
  DbOp.applyAll σ.now σ.db (passOps cfg.listener σ.db σ.node)

/-- A poll that nothing disturbs runs to its end. -/
theorem run_poll (hup : σ.up = true) (hidle : σ.isPolling = false) :
    ∃ metrics, run (step cfg) σ (pollEvents cfg σ) = some
      { σ with
        db := σ.polledDb cfg
        listeners := σ.listeners ++ [{ isPoll := true, pc := .done }]
        metrics } := by
  let σ₁ : State := { σ with listeners := σ.listeners ++ [{ isPoll := true, pc := .pollFind }] }
  have hi : σ.listeners.length < σ₁.listeners.length := by simp [σ₁]
  have hstart : step cfg σ .startPoll = some σ₁ := by
    simp only [step, hup, hidle, Bool.not_false, Bool.and_self, if_true, σ₁]
  have hfind : σ₁ = σ₁.polling σ.listeners.length true σ.db .pollFind σ.metrics := by
    simp [σ₁, State.polling]
  have hend : ∀ db metrics, σ₁.polling σ.listeners.length true db .done metrics =
      { σ with db, listeners := σ.listeners ++ [{ isPoll := true, pc := .done }], metrics } := by
    intro db metrics
    simp [σ₁, State.polling]
  rw [pollEvents, run, hstart, Option.bind_some, hfind]
  simp only [passEvents, State.polledDb, passOps]
  rcases hopened : σ.db.findByStatuses openStatuses with _ | ⟨s, rest⟩
  · have hout : listenStep cfg.listener σ.db σ₁.node σ₁.now .pollFind .found =
        some { pc := .done } := by
      simp only [listenStep]
      rw [show σ.db.findByStatuses [.submitted, .confirmed] = [] from hopened]
    refine ⟨σ.metrics ++ [], ?_⟩
    rw [List.map_cons, List.map_nil, run, step_polling hi hout, Option.bind_some, run, hend]
    rfl
  · have hout : listenStep cfg.listener σ.db σ₁.node σ₁.now .pollFind .found =
        some { pc := .pollHead (s :: rest) } := by
      simp only [listenStep]
      rw [show σ.db.findByStatuses [.submitted, .confirmed] = s :: rest from hopened]
    have hrows : ∀ t ∈ s :: rest, (σ.db.findById t.id).isSome := by
      intro t ht
      rw [← hopened, Db.mem_findByStatuses] at ht
      rw [ht.1]
      rfl
    obtain ⟨metrics, hrun⟩ := run_rows hi (s :: rest)
      ((σ.metrics ++ []) ++ []) hrows
    refine ⟨metrics, ?_⟩
    rw [List.map_cons, List.map_cons, run, step_polling hi hout, Option.bind_some, run,
      step_polling hi rfl, Option.bind_some]
    exact hrun.trans (congrArg some (hend _ _))

end Rail
