import SettlementRail.Foundation.Quiescence
import SettlementRail.Foundation.ThreadPool
import SettlementRail.System.JobFlow
import SettlementRail.System.Writers

/-! How much work a state of the process has left: a bound on the awaited calls that may still
resolve before every thread is through, however they resolve. -/

namespace Rail
open Foundation

/-- The completions of awaited calls, as opposed to what reaches the process from outside. -/
def Event.internal : Event → Bool
  | .create .. | .job _ | .sweep _ | .recover _ | .listen .. | .dvp .. => true
  | _ => false

/-- One attempt of the send loop is four calls, and each retry uses up a unit of the cap. -/
def JobPc.work (maxRetries : ℕ) : JobPc → ℕ
  | .find => 4 * maxRetries + 6
  | .estimateGas v => 4 * (maxRetries - v.retryCount) + 5
  | .buildFees v => 4 * (maxRetries - v.retryCount) + 4
  | .broadcast v => 4 * (maxRetries - v.retryCount) + 3
  | .writeSubmitted v => 4 * (maxRetries - v.retryCount) + 2
  | .resync v _ => 4 * (maxRetries - v.retryCount) + 5
  | .backoff v => 4 * (maxRetries - v.retryCount) + 4
  | .fail .. => 1

def jobWork (maxRetries : ℕ) : ℕ := JobPc.work maxRetries .find

def Relayer.work (maxRetries : ℕ) (r : Relayer) : ℕ :=
  r.queue.length * jobWork maxRetries + r.worker.elim 0 fun w => w.2.work maxRetries

def BalanceReads.unread (reads : BalanceReads) : ℕ :=
  (if reads.opening = none then 1 else 0) + (if reads.credits = none then 1 else 0) +
    (if reads.debits = none then 1 else 0) + (if reads.inFlight = none then 1 else 0)

/-- A request that may still be approved carries the work of the job it would enqueue. -/
def CreatePc.work (maxRetries : ℕ) : CreatePc → ℕ
  | .find => jobWork maxRetries + 8
  | .reading reads => jobWork maxRetries + 3 + reads.unread
  | .insert => jobWork maxRetries + 3
  | .check _ => jobWork maxRetries + 2
  | .approve _ => jobWork maxRetries + 1
  | .findRaced | .reject .. => 1
  | .returned .. | .threw _ => 0

def CreatePc.mayInsert : CreatePc → Bool
  | .find | .reading _ | .insert => true
  | _ => false

def SweepPc.work (rows : ℕ) : SweepPc → ℕ
  | .find => 7 * rows + 1
  | .receipt _ rest => 7 * rest.length + 7
  | .feesFromTx _ rest => 7 * rest.length + 6
  | .buildFees _ rest => 7 * rest.length + 5
  | .estimateGas _ rest _ => 7 * rest.length + 4
  | .broadcast _ rest _ _ => 7 * rest.length + 3
  | .recordResend _ rest _ => 7 * rest.length + 2
  | .fail _ rest _ _ => 7 * rest.length + 1

/-- Recovery may hand every row it walks to the queue. -/
def RecoveryPc.work (maxRetries rows : ℕ) : RecoveryPc → ℕ
  | .fetchNonce => (jobWork maxRetries + 3) * rows + 2
  | .find => (jobWork maxRetries + 3) * rows + 1
  | .receipt _ rest => (jobWork maxRetries + 3) * rest.length + jobWork maxRetries + 3
  | .getTransaction _ rest => (jobWork maxRetries + 3) * rest.length + jobWork maxRetries + 2
  | .fail _ rest => (jobWork maxRetries + 3) * rest.length + 1
  | .done => 0

def ListenPc.work (rows : ℕ) : ListenPc → ℕ
  | .pollFind => 4 * rows + 2
  | .pollHead opened => 4 * opened.length + 1
  | .eventFind _ => 6
  | .eventHead _ => 5
  | .receipt _ _ rest => 4 * rest.length + 4
  | .book _ _ _ rest => 4 * rest.length + 3
  | .flip _ _ _ rest => 4 * rest.length + 2
  | .revert _ _ rest | .reorg _ _ rest | .confirm _ _ _ rest => 4 * rest.length + 1
  | .done => 0

def DvpPc.work : DvpPc → ℕ
  | .getBlock .. => 8
  | .allowance .. => 7
  | .populate _ rest => 3 * rest.length + 3
  | .send _ _ rest => 3 * rest.length + 2
  | .wait _ rest => 3 * rest.length + 1
  | .returned | .threw => 0

namespace State

def rowBound (σ : State) : ℕ :=
  σ.db.settlements.rows.length + (σ.creates.map fun call => call.pc.mayInsert.toNat).sum

/-- The work left in a state whose table never gets longer than `rows`. -/
def work (cfg : Config) (rows : ℕ) (σ : State) : ℕ :=
  (σ.creates.map fun call => call.pc.work cfg.relayer.maxRetries).sum +
    σ.relayer.work cfg.relayer.maxRetries +
    σ.relayer.sweep.elim 0 (SweepPc.work rows) +
    σ.relayer.recovery.work cfg.relayer.maxRetries rows +
    (σ.listeners.map fun call => call.pc.work rows).sum + (σ.dvps.map DvpPc.work).sum

end State

variable {cfg : Config} {σ σ' : State} {ev : Event} {m rows : ℕ} {s : Settlement}

namespace Relayer

variable {r : Relayer} {id : SettlementId}

theorem work_runWorker (h : r.worker = none) : r.runWorker.work m = r.work m := by
  unfold runWorker
  split
  · rename_i hq
    simp [work, hq, h]
  · rename_i id queue hq
    split_ifs
    · simp [work, h]
    · simp only [work, hq, h, List.length_cons, Option.elim, jobWork]
      rw [Nat.succ_mul, Nat.add_zero]

theorem work_enqueueId_le (r : Relayer) (id : SettlementId) :
    (r.enqueueId id).work m ≤ r.work m + jobWork m := by
  have hpush : ({ r with queue := r.queue ++ [id] } : Relayer).work m = r.work m + jobWork m := by
    simp only [work, List.length_append, List.length_singleton]
    rw [Nat.succ_mul]
    omega
  unfold enqueueId
  split_ifs with hdrain hworker
  · exact Nat.le_add_right _ _
  · exact hpush.le
  · rw [work_runWorker (by simpa using hworker)]
    exact hpush.le

theorem work_foldl_enqueueId_le (ids : List SettlementId) (r : Relayer) :
    (ids.foldl enqueueId r).work m ≤ r.work m + ids.length * jobWork m := by
  induction ids generalizing r with
  | nil => simp
  | cons id ids ih =>
    have h := ih (r.enqueueId id)
    have hone := work_enqueueId_le (m := m) r id
    rw [List.foldl_cons, List.length_cons, Nat.succ_mul]
    omega

end Relayer

theorem work_afterRead (dto : CreateSettlementDto) {reads before : BalanceReads}
    (h : reads.unread < before.unread) :
    (afterRead dto reads).pc.work m < (CreatePc.reading before).work m := by
  unfold afterRead
  split
  · simp only [CreatePc.work]
    omega
  · split_ifs <;> simp only [CreatePc.work] <;> omega

theorem unread_readStep {db : Db} {reads reads' : BalanceReads} {e : CreateEvent}
    (h : readStep db reads e = some reads') : reads'.unread < reads.unread := by
  unfold readStep at h
  split at h
  case h_5 => cases h
  all_goals
    split_ifs at h with hnone
    cases h
    simp [BalanceReads.unread, hnone]

theorem createStep_work {compliance : Address → ComplianceResult} {db : Db} {now : ℕ}
    {call : CreateCall} {e : CreateEvent} {out : CreateOut}
    (h : createStep compliance db now call e = some out) :
    out.pc.work m + out.enqueue.elim 0 (fun _ => jobWork m) < call.pc.work m := by
  unfold createStep at h
  split at h
  case h_4 hpc _ =>
    rw [hpc]
    obtain ⟨reads', hreads, rfl⟩ := Option.map_eq_some_iff.mp h
    -- one read less is to come, whatever the check after the last one says
    have hlt := work_afterRead (m := m) call.dto (unread_readStep hreads)
    have hquiet : (afterRead call.dto reads').enqueue = none := by
      unfold afterRead
      repeat' split
      all_goals rfl
    rw [hquiet]
    exact hlt
  case h_8 hpc =>
    rw [hpc]
    cases h
    unfold screen
    split_ifs <;> simp [CreatePc.work]
  -- the one step that enqueues; the request carried the work of the job
  case h_10 id outcome hpc =>
    rw [hpc]
    split_ifs at h
    cases h
    cases outcome <;> simp [createEnd, enqueueAfter, CreatePc.work]
  case h_9 id reason outcome hpc =>
    rw [hpc]
    split_ifs at h
    cases h
    cases outcome <;> simp [createEnd, CreatePc.work]
  case h_5 id outcome hpc =>
    rw [hpc]
    cases outcome <;> simp only at h <;> (try split_ifs at h) <;> cases h <;> simp [CreatePc.work]
  case h_11 => cases h
  case h_1 hpc | h_2 hpc | h_3 hpc | h_6 hpc | h_7 hpc =>
    rw [hpc]
    repeat' split at h
    all_goals cases h
    all_goals simp [CreatePc.work, BalanceReads.unread]

theorem caughtAs_work {rc : RelayerConfig} {v : JobVars} {cls : TxErrorClass} {localNonce k : ℕ}
    {inflight : Inflight} (hk : 2 ≤ k) :
    (caughtAs rc v cls localNonce inflight).pc.elim 0 (JobPc.work rc.maxRetries) <
      4 * (rc.maxRetries - v.retryCount) + k := by
  unfold caughtAs
  split_ifs with _ hcap
  · simp only [Option.elim, JobPc.work]
    omega
  · simp only [Option.elim, JobPc.work]
    omega
  · simp only [Option.elim, JobPc.work, JobVars.retried]
    omega
  · have hbump : (v.retried.bumpIf cls.reason).retryCount = v.retryCount + 1 := by
      unfold JobVars.bumpIf JobVars.retried
      split_ifs <;> rfl
    simp only [Option.elim, JobPc.work, hbump]
    omega

theorem jobStep_work {rc : RelayerConfig} {db : Db} {node : Node} {now localNonce : ℕ}
    {inflight : Inflight} {id : SettlementId} {pc : JobPc} {e : JobEvent} {out : JobOut}
    (h : jobStep rc db node now localNonce inflight id pc e = some out) :
    out.pc.elim 0 (JobPc.work rc.maxRetries) < pc.work rc.maxRetries := by
  have hpos : 0 < pc.work rc.maxRetries := by
    cases pc <;> simp [JobPc.work]
  cases pc <;> cases e <;> simp only [jobStep, reduceCtorEq] at h
  case find.found =>
    repeat' split at h
    · cases h
      exact hpos
    · cases h
      exact hpos
    · cases h
      rcases hstart : startJob _ localNonce with _ | v
      · exact hpos
      · simp only [Option.map_some, Option.elim, JobPc.work]
        omega
  case broadcast.sent v outcome =>
    rcases outcome with (_ | err) | err <;> simp only at h
    · split_ifs at h
      cases h
      simp [JobPc.work]
    · split_ifs at h
      cases h
      exact caughtAs_work (by omega)
    · cases h
      exact caughtAs_work (by omega)
  case writeSubmitted.written v outcome =>
    split_ifs at h
    rcases outcome with _ | err | err <;> cases h
    · exact hpos
    · exact caughtAs_work (by omega)
    · exact caughtAs_work (by omega)
  case resync.counted v cls =>
    have hbump : ∀ w : JobVars, (w.bumpIf cls.reason).retryCount = w.retryCount := by
      intro w
      unfold JobVars.bumpIf
      split_ifs <;> rfl
    split_ifs at h <;> cases h <;> simp [JobPc.work, hbump]
  case fail.written =>
    split_ifs at h
    cases h
    exact hpos
  all_goals
    cases h
    simp [JobPc.work]

theorem sweepNext_work (rows : ℕ) (l : List Settlement) :
    (sweepNext l).elim 0 (SweepPc.work rows) ≤ 7 * l.length := by
  induction l with
  | nil => exact Nat.zero_le _
  | cons s rest ih =>
    -- a row without hash or nonce is passed over in the same step
    rw [sweepNext, List.length_cons]
    split_ifs
    · simp only [Option.elim, SweepPc.work]
      omega
    · omega

theorem resendCaughtAs_work {rest : List Settlement} {cls : TxErrorClass} {inflight : Inflight} :
    (resendCaughtAs s rest cls inflight).pc.elim 0 (SweepPc.work rows) ≤ 7 * rest.length + 1 := by
  have hnext := sweepNext_work rows rest
  unfold resendCaughtAs
  split_ifs
  · exact Nat.le_succ_of_le hnext
  · exact Nat.le_refl _
  · exact Nat.le_succ_of_le hnext

theorem sweepStep_work {rc : RelayerConfig} {db : Db} {node : Node} {now : ℕ} {inflight : Inflight}
    {pc : SweepPc} {e : SweepEvent} {out : SweepOut} (hrows : db.settlements.rows.length ≤ rows)
    (h : sweepStep rc db node now inflight pc e = some out) :
    out.pc.elim 0 (SweepPc.work rows) < pc.work rows := by
  have hpos : 0 < pc.work rows := by
    cases pc <;> simp [SweepPc.work]
  cases pc <;> cases e <;> simp only [sweepStep, reduceCtorEq] at h
  case find.found =>
    cases h
    have hnext := sweepNext_work rows (db.findByStatuses [.submitted])
    have hlen : (db.findByStatuses [.submitted]).length ≤ db.settlements.rows.length :=
      List.length_filter_le _ _
    simp only [SweepPc.work]
    omega
  case receipt.receipt s rest =>
    have hnext := sweepNext_work rows rest
    split_ifs at h <;> cases h
    · simp only [SweepPc.work]
      omega
    · unfold sweepStuck
      split_ifs
      · simp [SweepPc.work]
      · rcases inflight.get s.id with _ | info <;> simp [SweepPc.work]
    · simp only [SweepPc.work]
      omega
  case feesFromTx.txLookup =>
    split at h <;> cases h <;> simp [SweepPc.work]
  case estimateGas.estimated s rest fees est =>
    cases h
    rcases hunits : toBaseUnits s.amount with _ | units <;> simp [SweepPc.work]
  case broadcast.sent s rest fees gasLimit outcome =>
    have hcaught : ∀ err, (resendCaught s rest err inflight).pc.elim 0 (SweepPc.work rows) <
        7 * rest.length + 3 := fun err => Nat.lt_of_le_of_lt resendCaughtAs_work (by omega)
    rcases outcome with (_ | err) | err <;> simp only at h
    · split at h
      · cases h
      · split_ifs at h
        cases h
        simp [SweepPc.work]
    · split at h
      · cases h
      · split_ifs at h
        cases h
        exact hcaught err
    · cases h
      exact hcaught err
  case recordResend.written s rest tx outcome =>
    have hnext := sweepNext_work rows rest
    split_ifs at h
    rcases outcome with _ | err | err <;> cases h
    · simp only [SweepPc.work]
      omega
    · exact Nat.lt_of_le_of_lt resendCaughtAs_work (by simp [SweepPc.work])
    · exact Nat.lt_of_le_of_lt resendCaughtAs_work (by simp [SweepPc.work])
  case fail.written s rest reason retryCount outcome =>
    have hnext := sweepNext_work rows rest
    split_ifs at h
    cases h
    rcases outcome with _ | err | err
    · simp only [afterFail, SweepPc.work]
      omega
    · exact hpos
    · exact hpos
  all_goals
    cases h
    simp [SweepPc.work]

theorem recoveryNext_work (m rows : ℕ) (l : List Settlement) :
    (recoveryNext l).1.work m rows + (recoveryNext l).2.length * jobWork m ≤
      (jobWork m + 3) * l.length := by
  induction l with
  | nil => simp [recoveryNext, RecoveryPc.work]
  | cons s rest ih =>
    -- a row without hash goes to the queue, with the work of its job
    rw [recoveryNext, List.length_cons, Nat.mul_succ]
    split_ifs
    · simp only [RecoveryPc.work, List.length_nil, Nat.zero_mul]
      omega
    · dsimp only
      rw [List.length_cons, Nat.succ_mul (recoveryNext rest).2.length]
      omega

theorem recoveryStep_work {db : Db} {node : Node} {now localNonce : ℕ} {inflight : Inflight}
    {pc : RecoveryPc} {e : RecoveryEvent} {out : RecoveryOut}
    (hrows : db.settlements.rows.length ≤ rows)
    (h : recoveryStep db node now localNonce inflight pc e = some out) :
    out.pc.work m rows + out.requeue.length * jobWork m < pc.work m rows := by
  cases pc <;> cases e <;> simp only [recoveryStep, reduceCtorEq] at h
  case fetchNonce.counted =>
    cases h
    simp [RecoveryPc.work]
  case find.found =>
    cases h
    refine Nat.lt_of_le_of_lt (recoveryNext_work _ _ (db.findByStatuses [.submitted])) ?_
    have hlen : (db.findByStatuses [.submitted]).length ≤ db.settlements.rows.length :=
      List.length_filter_le _ _
    exact Nat.lt_succ_of_le (Nat.mul_le_mul_left (jobWork m + 3) (hlen.trans hrows))
  case receipt.receipt s rest =>
    repeat' split at h
    · cases h
      refine Nat.lt_of_le_of_lt (recoveryNext_work _ _ rest) ?_
      rw [RecoveryPc.work]
      omega
    · cases h
      simp only [RecoveryPc.work, List.length_nil, Nat.zero_mul]
      omega
    · cases h
      simp only [RecoveryPc.work, List.length_nil, Nat.zero_mul]
      omega
  case fail.written s rest =>
    split_ifs at h
    cases h
    exact Nat.lt_succ_of_le (recoveryNext_work _ _ rest)
  case getTransaction.txLookup s rest =>
    have hnext := recoveryNext_work m rows rest
    split at h <;> cases h
    · refine Nat.lt_of_le_of_lt hnext ?_
      rw [RecoveryPc.work]
      omega
    · show _ < (jobWork m + 3) * rest.length + jobWork m + 2
      dsimp only
      rw [List.length_cons, Nat.succ_mul (recoveryNext rest).2.length]
      omega

theorem listenNext_work (head : ℕ) (l : List Settlement) :
    (listenNext head l).work rows ≤ 4 * l.length := by
  induction l with
  | nil => exact Nat.zero_le _
  | cons s rest ih =>
    rw [listenNext, List.length_cons]
    split_ifs
    · simp only [ListenPc.work]
      omega
    · omega

theorem listenStep_work {lc : ListenerConfig} {db : Db} {node : Node} {now : ℕ} {pc : ListenPc}
    {e : ListenEvent} {out : ListenOut} (hrows : db.settlements.rows.length ≤ rows)
    (h : listenStep lc db node now pc e = some out) : out.pc.work rows < pc.work rows := by
  -- a write ends the thread or takes it to the next point, which has less work
  have hwritten : ∀ (next : ListenPc) (k : ℕ) (o : DbOutcome Unit), next.work rows ≤ k →
      (afterWrite next o).work rows < k + 1 := by
    intro next k o hle
    cases o with
    | ok => exact Nat.lt_succ_of_le hle
    | _ => exact Nat.succ_pos k
  cases pc <;> cases e <;> simp only [listenStep, reduceCtorEq] at h
  case pollFind.found =>
    have hlen : (db.findByStatuses [.submitted, .confirmed]).length ≤ db.settlements.rows.length :=
      List.length_filter_le _ _
    split at h
    · cases h
      simp [ListenPc.work]
    · rename_i hfound
      rw [hfound] at hlen
      cases h
      simp only [ListenPc.work]
      omega
  case pollHead.headRead opened =>
    cases h
    exact Nat.lt_succ_of_le (listenNext_work node.currentBlock opened)
  case eventFind.found =>
    repeat' split at h
    all_goals cases h
    all_goals simp [ListenPc.work]
  case eventHead.headRead s =>
    cases h
    exact Nat.lt_succ_of_le (listenNext_work node.currentBlock [s])
  case receipt.receipt s head rest =>
    cases h
    unfold afterReceipt
    split
    · refine Nat.lt_of_le_of_lt (listenNext_work head rest) ?_
      rw [ListenPc.work]
      omega
    all_goals
      rw [ListenPc.work, ListenPc.work]
      omega
  case book.written s receipt head rest outcome =>
    split_ifs at h
    cases h
    exact hwritten _ _ outcome (Nat.le_refl _)
  case flip.written s receipt head rest outcome =>
    split_ifs at h
    cases h
    exact hwritten _ _ outcome (Nat.le_succ_of_le (listenNext_work head rest))
  case revert.written s head rest outcome | reorg.written s head rest outcome |
      confirm.written s receipt head rest outcome =>
    split_ifs at h
    cases h
    exact hwritten _ _ outcome (listenNext_work head rest)
  all_goals
    cases h
    simp [ListenPc.work]

theorem dvpStep_work {node : Node} {index : ℕ} {pc : DvpPc} {e : DvpEvent} {out : DvpOut}
    (h : dvpStep node index pc e = some out) : out.pc.work < pc.work := by
  have hnext : ∀ rest : List Call, (dvpNext rest).work ≤ 3 * rest.length := by
    intro rest
    cases rest with
    | nil => exact Nat.zero_le _
    | cons call rest =>
      simp only [dvpNext, DvpPc.work, List.length_cons]
      omega
  cases pc <;> cases e <;> simp only [dvpStep, reduceCtorEq] at h
  case allowance.allowanceRead =>
    cases h
    unfold dvpApproveOrFund
    split_ifs <;> simp [DvpPc.work]
  case send.sent nonce call rest gasLimit fees outcome =>
    rcases outcome with reply | err
    · rcases reply with _ | err <;> simp only [Option.isNone_none, Option.isNone_some] at h <;> split_ifs at h <;> cases h <;>
        simp [DvpPc.work]
    · cases h
      simp [DvpPc.work]
  case wait.mined tx rest =>
    split at h
    · cases h
    · cases h
      split_ifs
      · exact Nat.lt_succ_of_le (hnext rest)
      · simp [DvpPc.work]
  all_goals
    cases h
    simp [DvpPc.work]

theorem createStep_mayInsert {compliance : Address → ComplianceResult} {db : Db} {now : ℕ}
    {call : CreateCall} {e : CreateEvent} {out : CreateOut}
    (h : createStep compliance db now call e = some out) :
    (out.db.created db).length + out.pc.mayInsert.toNat ≤ call.pc.mayInsert.toNat := by
  unfold createStep at h
  split at h
  case h_4 hpc _ =>
    rw [hpc]
    obtain ⟨reads', -, rfl⟩ := Option.map_eq_some_iff.mp h
    unfold afterRead
    repeat' split
    all_goals simp [DbOp.created, CreatePc.mayInsert]
  case h_5 id outcome hpc =>
    rw [hpc]
    cases outcome <;> simp only at h <;> (try split_ifs at h) <;> cases h <;>
      simp_all [DbOp.created, CreatePc.mayInsert]
  case h_8 hpc =>
    rw [hpc]
    cases h
    unfold screen
    split_ifs <;> simp [DbOp.created, CreatePc.mayInsert]
  case h_9 id reason outcome hpc | h_10 id outcome hpc =>
    rw [hpc]
    split_ifs at h
    cases h
    cases outcome <;> simp [createEnd, DbOutcome.commits, DbOp.created, CreatePc.mayInsert]
  case h_11 => cases h
  case h_1 hpc | h_2 hpc | h_3 hpc | h_6 hpc | h_7 hpc =>
    rw [hpc]
    repeat' split at h
    all_goals cases h
    all_goals simp [DbOp.created, CreatePc.mayInsert]

theorem Writes.created_nil {op : DbOp} (hw : Writes σ ev op) (hev : ∀ i e, ev ≠ .create i e) :
    op.created σ.db = [] := by
  cases hw with
  | insert => exact absurd rfl (hev _ _)
  | _ => rfl

theorem length_rows_apply {db : Db} {now : ℕ} (op : DbOp) :
    (op.apply now db).settlements.rows.length =
      db.settlements.rows.length + (op.created db).length := by
  rw [rows_apply, List.length_append, List.length_map]

theorem rowBound_step (h : step cfg σ ev = some σ') (hev : ev.internal = true) :
    σ'.rowBound ≤ σ.rowBound := by
  obtain ⟨op, hw, hdb⟩ := step_db h
  have hrows : (∀ i e, ev ≠ .create i e) →
      σ'.db.settlements.rows.length = σ.db.settlements.rows.length := by
    intro hnot
    rw [hdb, length_rows_apply, hw.created_nil hnot, List.length_nil, Nat.add_zero]
  cases stepsTo h with
  | @create i e call out hcall hout =>
    have hset := sum_set (fun c => c.pc.mayInsert.toNat) (b := { call with pc := out.pc }) hcall
    have hmay := createStep_mayInsert hout
    dsimp only at hset
    -- an insert takes from what may be inserted what it adds to the table
    simp only [State.rowBound, State.afterCreate, length_rows_apply]
    omega
  | job | sweep | recover | listen | dvp =>
    exact Nat.add_le_add_right (hrows fun _ _ hev => by cases hev).le _
  | _ => cases hev

/-- The step lemma: however an awaited call ends, less work is left. -/
theorem work_step (h : step cfg σ ev = some σ') (hev : ev.internal = true)
    (hrows : σ.db.settlements.rows.length ≤ rows) : σ'.work cfg rows < σ.work cfg rows := by
  cases stepsTo h with
  | @create i e call out hcall hout =>
    have hset := sum_set (fun c => c.pc.work cfg.relayer.maxRetries)
      (b := { call with pc := out.pc }) hcall
    have hlt := createStep_work (m := cfg.relayer.maxRetries) hout
    dsimp only at hset
    -- an idle worker starts the job at once, a busy one leaves it in the queue
    have hrelayer : (σ.afterCreate i call out).relayer.work cfg.relayer.maxRetries ≤
        σ.relayer.work cfg.relayer.maxRetries +
          out.enqueue.elim 0 fun _ => jobWork cfg.relayer.maxRetries := by
      simp only [State.afterCreate]
      rcases out.enqueue with _ | id
      · exact Nat.le_refl _
      · exact Relayer.work_enqueueId_le _ id
    obtain ⟨hsweep, hrecovery, -⟩ := σ.frame_afterCreate i call out
    simp only [State.work, hsweep, hrecovery]
    simp only [State.afterCreate] at hrelayer ⊢
    omega
  | @job id pc e out hworker hout =>
    have hlt := jobStep_work hout
    have hrelayer : (σ.afterJob id out).relayer.work cfg.relayer.maxRetries <
        σ.relayer.work cfg.relayer.maxRetries := by
      simp only [State.afterJob]
      rcases hpc : out.pc with _ | pc'
      · rw [hpc] at hlt
        simp only [Option.isSome_none, Bool.false_eq_true, if_false]
        rw [Relayer.work_runWorker rfl]
        simp only [Relayer.work, hworker, Option.map_none, Option.elim] at hlt ⊢
        omega
      · rw [hpc] at hlt
        simp only [Relayer.work, hworker, Option.isSome_some, if_true, Option.map_some,
          Option.elim] at hlt ⊢
        omega
    obtain ⟨hsweep, hrecovery, -⟩ := σ.frame_afterJob id out
    simp only [State.work, hsweep, hrecovery]
    simp only [State.afterJob] at hrelayer ⊢
    omega
  | @sweep pc e out hsweep hout =>
    have hlt := sweepStep_work hrows hout
    simp only [State.work, State.afterSweep, Relayer.work, hsweep, Option.elim] at hlt ⊢
    omega
  | @recover e out hout =>
    have hlt := recoveryStep_work (m := cfg.relayer.maxRetries) hrows hout
    have hrelayer := Relayer.work_foldl_enqueueId_le (m := cfg.relayer.maxRetries) out.requeue
      { σ.relayer with
        recovery := out.pc, localNonce := out.localNonce, inflight := out.inflight }
    have hframe := Relayer.frame_foldl_enqueueId (r := { σ.relayer with
      recovery := out.pc, localNonce := out.localNonce, inflight := out.inflight }) out.requeue
    simp only [State.work, State.afterRecovery, hframe.2.1, hframe.2.2]
    simp only [Relayer.work] at hrelayer ⊢
    omega
  | @listen i e call out hcall hout =>
    have hset := sum_set (fun c => c.pc.work rows) (b := { call with pc := out.pc }) hcall
    have hlt := listenStep_work hrows hout
    dsimp only at hset
    simp only [State.work, State.afterListen]
    omega
  | @dvp i pc e out hdvp hout =>
    have hset := sum_set DvpPc.work (b := out.pc) hdvp
    have hlt := dvpStep_work hout
    simp only [State.work, State.afterDvp]
    omega
  | _ => cases hev

theorem lowers_work (cfg : Config) (rows : ℕ) :
    Lowers (step cfg) (fun _ ev => ev.internal = true) (fun σ => σ.rowBound ≤ rows)
      (State.work cfg rows) where
  keeps _ _ _ hI hev h := (rowBound_step h hev).trans hI
  lower _ _ _ hI hev h := work_step h hev ((Nat.le_add_right _ _).trans hI)

end Rail
