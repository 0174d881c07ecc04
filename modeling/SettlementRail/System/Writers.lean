import SettlementRail.System.RowEvolution
import SettlementRail.System.Steps

/-! Who writes what: every step commits at most one database operation, and the operation is
one of a dozen, each tied to the program point of the thread that awaits it. -/

namespace Rail
open Foundation

def DbOutcome.committed {ε : Type} : DbOutcome ε → Bool
  | .ok | .ambiguous _ => true
  | .lost _ => false

theorem DbOutcome.commits_eq {ε : Type} (o : DbOutcome ε) (op : DbOp) :
    o.commits op = .none ∨ (o.committed = true ∧ o.commits op = op) := by
  cases o <;> simp [DbOutcome.commits, DbOutcome.committed]

theorem Db.exists_of_canCommit {ε : Type} {db : Db} {id : SettlementId} {o : DbOutcome ε}
    (h : db.canCommit id o = true) (ho : o.committed = true) : ∃ s, db.findById id = some s := by
  cases o <;> simp_all [Db.canCommit, DbOutcome.committed, Option.isSome_iff_exists]

/-- `Writes σ ev op`: in `σ`, the event `ev` may commit `op`. -/
inductive Writes (σ : State) : Event → DbOp → Prop
  | idle {ev : Event} : Writes σ ev .none
  | insert {i : ℕ} {call : CreateCall} {id : SettlementId} {o : DbOutcome Unit} {db' : Db}
      (hcall : σ.creates[i]? = some call) (hpc : call.pc = .insert)
      (hnew : σ.db.create (call.dto.row id σ.now) = some db') (ho : o.committed = true) :
      Writes σ (.create i (.inserted id o)) (.create (call.dto.row id σ.now))
  | reject {i : ℕ} {call : CreateCall} {id : SettlementId} {reason : String}
      {o : DbOutcome Unit} {s : Settlement}
      (hcall : σ.creates[i]? = some call) (hpc : call.pc = .reject id reason)
      (hrow : σ.db.findById id = some s) (ho : o.committed = true) :
      Writes σ (.create i (.written o))
        (.transition id .rejectedCompliance (rejectOptions reason))
  | approve {i : ℕ} {call : CreateCall} {id : SettlementId} {o : DbOutcome Unit} {s : Settlement}
      (hcall : σ.creates[i]? = some call) (hpc : call.pc = .approve id)
      (hrow : σ.db.findById id = some s) (ho : o.committed = true) :
      Writes σ (.create i (.written o)) (.transition id .complianceApproved {})
  | submitted {id : SettlementId} {v : JobVars} {o : DbOutcome TxError} {s : Settlement}
      (hworker : σ.relayer.worker = some (id, .writeSubmitted v))
      (hrow : σ.db.findById id = some s) (ho : o.committed = true) :
      Writes σ (.job (.written o)) (.transition id .submitted (submittedOptions v))
  | jobFail {id : SettlementId} {v : JobVars} {reason : String} {o : DbOutcome TxError}
      {s : Settlement} (hworker : σ.relayer.worker = some (id, .fail v reason))
      (hrow : σ.db.findById id = some s) (ho : o.committed = true) :
      Writes σ (.job (.written o)) (.transition id .failed (failOptions reason v.retryCount))
  | resend {t : Settlement} {rest : List Settlement} {tx : Tx} {o : DbOutcome TxError}
      {s : Settlement} (hsweep : σ.relayer.sweep = some (.recordResend t rest tx))
      (hrow : σ.db.findById t.id = some s) (ho : o.committed = true) :
      Writes σ (.sweep (.written o)) (.recordResend t.id tx (t.retryCount + 1))
  | sweepFail {t : Settlement} {rest : List Settlement} {reason : String} {retryCount : ℕ}
      {o : DbOutcome TxError} {s : Settlement}
      (hsweep : σ.relayer.sweep = some (.fail t rest reason retryCount))
      (hrow : σ.db.findById t.id = some s) (ho : o.committed = true) :
      Writes σ (.sweep (.written o)) (.transition t.id .failed (failOptions reason retryCount))
  | recoveryFail {t : Settlement} {rest : List Settlement} {s : Settlement}
      (hrecovery : σ.relayer.recovery = .fail t rest) (hrow : σ.db.findById t.id = some s) :
      Writes σ (.recover .written)
        (.transition t.id .failed (failOptions "REVERTED_ON_RECOVERY" t.retryCount))
  | revert {i : ℕ} {call : ListenCall} {t : Settlement} {head : ℕ} {rest : List Settlement}
      {o : DbOutcome Unit} {s : Settlement}
      (hcall : σ.listeners[i]? = some call) (hpc : call.pc = .revert t head rest)
      (hrow : σ.db.findById t.id = some s) (ho : o.committed = true) :
      Writes σ (.listen i (.written o)) (.transition t.id .failed revertOptions)
  | reorg {i : ℕ} {call : ListenCall} {t : Settlement} {head : ℕ} {rest : List Settlement}
      {o : DbOutcome Unit} {s : Settlement}
      (hcall : σ.listeners[i]? = some call) (hpc : call.pc = .reorg t head rest)
      (hrow : σ.db.findById t.id = some s) (ho : o.committed = true) :
      Writes σ (.listen i (.written o)) (.transition t.id .submitted reorgOptions)
  | confirm {i : ℕ} {call : ListenCall} {t : Settlement} {receipt : Receipt} {head : ℕ}
      {rest : List Settlement} {o : DbOutcome Unit} {s : Settlement}
      (hcall : σ.listeners[i]? = some call) (hpc : call.pc = .confirm t receipt head rest)
      (hrow : σ.db.findById t.id = some s) (ho : o.committed = true) :
      Writes σ (.listen i (.written o)) (.transition t.id .confirmed (confirmOptions t receipt))
  | book {i : ℕ} {call : ListenCall} {t : Settlement} {receipt : Receipt} {head : ℕ}
      {rest : List Settlement} {o : DbOutcome Unit} {s : Settlement}
      (hcall : σ.listeners[i]? = some call) (hpc : call.pc = .book t receipt head rest)
      (hrow : σ.db.findById t.id = some s) (ho : o.committed = true) :
      Writes σ (.listen i (.written o)) (.book t.id t.amount)
  | flip {i : ℕ} {call : ListenCall} {t : Settlement} {receipt : Receipt} {head : ℕ}
      {rest : List Settlement} {o : DbOutcome Unit} {s : Settlement}
      (hcall : σ.listeners[i]? = some call) (hpc : call.pc = .flip t receipt head rest)
      (hrow : σ.db.findById t.id = some s) (ho : o.committed = true) :
      Writes σ (.listen i (.written o)) (.transition t.id .final (finalOptions t))

variable {cfg : Config} {σ σ' : State} {ev : Event}

theorem writes_commits {ε : Type} {id : SettlementId} {o : DbOutcome ε} {op : DbOp}
    (hcan : ¬(!σ.db.canCommit id o) = true)
    (h : ∀ s, σ.db.findById id = some s → o.committed = true → Writes σ ev op) :
    Writes σ ev (o.commits op) := by
  rw [Bool.not_eq_true', Bool.not_eq_false] at hcan
  rcases o.commits_eq op with hop | ⟨ho, hop⟩ <;> rw [hop]
  · exact .idle
  · obtain ⟨s, hs⟩ := Db.exists_of_canCommit hcan ho
    exact h s hs ho

theorem writes_create {i : ℕ} {call : CreateCall} {e : CreateEvent} {out : CreateOut}
    (hcall : σ.creates[i]? = some call)
    (hout : createStep cfg.compliance σ.db σ.now call e = some out) :
    Writes σ (.create i e) out.db := by
  unfold createStep at hout
  split at hout
  case h_5 id outcome hpc =>
    cases outcome with
    | lost => cases hout; exact .idle
    | ok =>
      simp only at hout
      split_ifs at hout with _ hnew <;> cases hout
      · obtain ⟨db', hdb'⟩ := Option.isSome_iff_exists.mp hnew
        exact .insert hcall hpc hdb' rfl
      · exact .idle
    | ambiguous =>
      simp only at hout
      split_ifs at hout with hnew
      cases hout
      obtain ⟨db', hdb'⟩ := Option.isSome_iff_exists.mp hnew
      exact .insert hcall hpc hdb' rfl
  case h_9 id reason outcome hpc =>
    split_ifs at hout with hcan
    cases hout
    exact writes_commits hcan fun _ hrow ho => .reject hcall hpc hrow ho
  case h_10 id outcome hpc =>
    split_ifs at hout with hcan
    cases hout
    exact writes_commits hcan fun _ hrow ho => .approve hcall hpc hrow ho
  case h_4 =>
    obtain ⟨reads, -, rfl⟩ := Option.map_eq_some_iff.mp hout
    unfold afterRead
    repeat' split
    all_goals exact .idle
  all_goals
    repeat' split at hout
    all_goals cases hout
    all_goals exact .idle

@[simp] theorem caught_db (cfg : RelayerConfig) (v : JobVars) (e : TxError) (localNonce : ℕ)
    (inflight : Inflight) : (caught cfg v e localNonce inflight).db = .none := by
  unfold caught caughtAs
  split_ifs <;> rfl

@[simp] theorem resendCaught_db (s : Settlement) (rest : List Settlement) (e : TxError)
    (inflight : Inflight) : (resendCaught s rest e inflight).db = .none := by
  unfold resendCaught resendCaughtAs
  split_ifs <;> rfl

theorem writes_job {id : SettlementId} {pc : JobPc} {e : JobEvent} {out : JobOut}
    (hworker : σ.relayer.worker = some (id, pc))
    (hout : jobStep cfg.relayer σ.db σ.node σ.now σ.relayer.localNonce σ.relayer.inflight id pc e
      = some out) :
    Writes σ (.job e) out.db := by
  cases pc <;> cases e <;> simp only [jobStep, reduceCtorEq] at hout
  case writeSubmitted.written v outcome =>
    split_ifs at hout with hcan
    rw [Bool.not_eq_true', Bool.not_eq_false] at hcan
    cases outcome with
    | lost e =>
      cases hout
      rw [caught_db]
      exact .idle
    | ok =>
      cases hout
      obtain ⟨s, hs⟩ := Db.exists_of_canCommit hcan rfl
      exact .submitted hworker hs rfl
    | ambiguous e =>
      cases hout
      obtain ⟨s, hs⟩ := Db.exists_of_canCommit hcan rfl
      exact .submitted hworker hs rfl
  case fail.written v reason outcome =>
    split_ifs at hout with hcan
    cases hout
    exact writes_commits hcan fun _ hrow ho => .jobFail hworker hrow ho
  case find.found =>
    repeat' split at hout
    all_goals cases hout; exact .idle
  case broadcast.sent v outcome =>
    rcases outcome with (_ | e) | e <;> simp only at hout
    · split_ifs at hout
      cases hout; exact .idle
    · split_ifs at hout
      cases hout
      simp only [caught_db]; exact .idle
    · cases hout
      rw [caught_db]; exact .idle
  case resync.counted v cls =>
    split_ifs at hout <;> cases hout <;> exact .idle
  all_goals cases hout; exact .idle

@[simp] theorem sweepStuck_db (cfg : RelayerConfig) (s : Settlement) (rest : List Settlement)
    (info : Option InflightTx) (inflight : Inflight) :
    (sweepStuck cfg s rest info inflight).db = .none := by
  unfold sweepStuck
  split_ifs
  · rfl
  · cases info <;> rfl

theorem writes_sweep {pc : SweepPc} {e : SweepEvent} {out : SweepOut}
    (hsweep : σ.relayer.sweep = some pc)
    (hout : sweepStep cfg.relayer σ.db σ.node σ.now σ.relayer.inflight pc e = some out) :
    Writes σ (.sweep e) out.db := by
  cases pc <;> cases e <;> simp only [sweepStep, reduceCtorEq] at hout
  case recordResend.written s rest tx outcome =>
    split_ifs at hout with hcan
    rw [Bool.not_eq_true', Bool.not_eq_false] at hcan
    cases outcome with
    | lost e =>
      cases hout
      rw [resendCaught_db]
      exact .idle
    | ok =>
      cases hout
      obtain ⟨s, hs⟩ := Db.exists_of_canCommit hcan rfl
      exact .resend hsweep hs rfl
    | ambiguous e =>
      cases hout
      obtain ⟨s, hs⟩ := Db.exists_of_canCommit hcan rfl
      exact .resend hsweep hs rfl
  case fail.written s rest reason retryCount outcome =>
    split_ifs at hout with hcan
    cases hout
    exact writes_commits hcan fun _ hrow ho => .sweepFail hsweep hrow ho
  case broadcast.sent s rest fees gasLimit outcome =>
    rcases outcome with (_ | e) | e <;> simp only at hout
    · split at hout
      · cases hout
      · split_ifs at hout
        cases hout; exact .idle
    · split at hout
      · cases hout
      · split_ifs at hout
        cases hout
        simp only [resendCaught_db]; exact .idle
    · cases hout
      rw [resendCaught_db]; exact .idle
  case receipt.receipt s rest =>
    split_ifs at hout <;> cases hout
    · exact .idle
    · rw [sweepStuck_db]
      exact .idle
    · exact .idle
  case feesFromTx.txLookup =>
    split at hout <;> cases hout <;> exact .idle
  all_goals cases hout; exact .idle

theorem writes_recovery {e : RecoveryEvent} {out : RecoveryOut}
    (hout : recoveryStep σ.db σ.node σ.now σ.relayer.localNonce σ.relayer.inflight
      σ.relayer.recovery e = some out) :
    Writes σ (.recover e) out.db := by
  rcases hpc : σ.relayer.recovery <;> rw [hpc] at hout <;> cases e <;>
    simp only [recoveryStep, reduceCtorEq] at hout
  case fail.written s rest =>
    split_ifs at hout with hnone
    cases hout
    rw [Option.isNone_iff_eq_none] at hnone
    obtain ⟨t, ht⟩ := Option.ne_none_iff_exists'.mp hnone
    exact .recoveryFail hpc ht
  case receipt.receipt =>
    repeat' split at hout
    all_goals cases hout; exact .idle
  case getTransaction.txLookup =>
    split at hout <;> cases hout <;> exact .idle
  all_goals cases hout; exact .idle

@[simp] theorem afterReceipt_db (cfg : ListenerConfig) (s : Settlement) (head : ℕ)
    (rest : List Settlement) (receipt : Option Receipt) :
    (afterReceipt cfg s head rest receipt).db = .none := by
  unfold afterReceipt
  split <;> rfl

theorem writes_listen {i : ℕ} {call : ListenCall} {e : ListenEvent} {out : ListenOut}
    (hcall : σ.listeners[i]? = some call)
    (hout : listenStep cfg.listener σ.db σ.node σ.now call.pc e = some out) :
    Writes σ (.listen i e) out.db := by
  rcases hpc : call.pc <;> rw [hpc] at hout <;> cases e <;>
    simp only [listenStep, reduceCtorEq] at hout
  case revert.written =>
    split_ifs at hout with hcan
    cases hout
    exact writes_commits hcan fun _ hrow ho => .revert hcall hpc hrow ho
  case reorg.written =>
    split_ifs at hout with hcan
    cases hout
    exact writes_commits hcan fun _ hrow ho => .reorg hcall hpc hrow ho
  case confirm.written =>
    split_ifs at hout with hcan
    cases hout
    exact writes_commits hcan fun _ hrow ho => .confirm hcall hpc hrow ho
  case book.written =>
    split_ifs at hout with hcan
    cases hout
    exact writes_commits hcan fun _ hrow ho => .book hcall hpc hrow ho
  case flip.written =>
    split_ifs at hout with hcan
    cases hout
    exact writes_commits hcan fun _ hrow ho => .flip hcall hpc hrow ho
  case receipt.receipt s head rest =>
    cases hout
    rw [afterReceipt_db]
    exact .idle
  case pollFind.found =>
    split at hout <;> cases hout <;> exact .idle
  case eventFind.found =>
    split at hout
    · cases hout
      exact .idle
    · split_ifs at hout <;> cases hout <;> exact .idle
  all_goals cases hout; exact .idle

/-- Every step commits one of these operations, `.none` included. -/
theorem step_db (h : step cfg σ ev = some σ') :
    ∃ op, Writes σ ev op ∧ σ'.db = op.apply σ.now σ.db := by
  cases stepsTo h with
  | create hcall hout => exact ⟨_, writes_create hcall hout, rfl⟩
  | job hworker hout => exact ⟨_, writes_job hworker hout, rfl⟩
  | sweep hsweep hout => exact ⟨_, writes_sweep hsweep hout, rfl⟩
  | recover hout => exact ⟨_, writes_recovery hout, rfl⟩
  | listen hcall hout => exact ⟨_, writes_listen hcall hout, rfl⟩
  | _ => exact ⟨.none, .idle, rfl⟩

end Rail
