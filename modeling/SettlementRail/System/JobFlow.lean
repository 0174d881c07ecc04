import SettlementRail.System.CreateFlow
import SettlementRail.System.Snapshots

/-! The worker and its queue: how a job moves from program point to program point, how it
ends, and how ids enter and leave the line of jobs. -/

namespace Rail

def JobPc.vars : JobPc → Option JobVars
  | .find => none
  | .estimateGas v | .buildFees v | .broadcast v | .writeSubmitted v | .resync v _ | .backoff v
  | .fail v _ => some v

def JobPc.sending : JobPc → Option JobVars
  | .fail .. => none
  | pc => pc.vars

theorem JobPc.vars_of_sending {pc : JobPc} {v : JobVars} (h : pc.sending = some v) :
    pc.vars = some v := by
  cases pc with
  | fail => cases h
  | _ => exact h

theorem JobPc.sending_broadcast (v : JobVars) : (JobPc.broadcast v).sending = some v := rfl

theorem JobPc.sending_writeSubmitted (v : JobVars) : (JobPc.writeSubmitted v).sending = some v := rfl

def JobPc.isRecording : JobPc → Bool
  | .writeSubmitted _ => true
  | _ => false

structure JobVars.SameJob (v v' : JobVars) : Prop where
  settlement : v'.settlement = v.settlement
  isResume : v'.isResume = v.isResume
  baseUnits : v'.baseUnits = v.baseUnits

theorem JobVars.bumpIf_sameJob (v : JobVars) (reason : String) : v.SameJob (v.bumpIf reason) := by
  unfold JobVars.bumpIf
  split_ifs <;> exact ⟨rfl, rfl, rfl⟩

theorem JobVars.sameJob_retried_bumpIf (v : JobVars) (reason : String) :
    v.SameJob (v.retried.bumpIf reason) :=
  have h := v.retried.bumpIf_sameJob reason
  ⟨h.settlement, h.isResume, h.baseUnits⟩

@[simp] theorem JobVars.bumpIf_nonce (v : JobVars) (reason : String) :
    (v.bumpIf reason).nonce = v.nonce := by
  unfold JobVars.bumpIf
  split_ifs <;> rfl

/-- The moves of a running job, with the local nonce after each of them. -/
inductive JobMoves (σ : State) (id : SettlementId) : JobPc → JobEvent → JobPc → ℕ → Prop
  | start {s : Settlement} {v : JobVars} (hrow : σ.db.findById id = some s)
      (hstatus : s.status = .complianceApproved ∨ s.status = .submitted)
      (hstart : startJob s σ.relayer.localNonce = some v) :
      JobMoves σ id .find .found (.estimateGas v) σ.relayer.localNonce
  | advance {pc pc' : JobPc} {e : JobEvent} {v v' : JobVars} (hv : pc.sending = some v)
      (hv' : pc'.vars = some v') (hjob : v.SameJob v') (hnonce : v'.nonce = v.nonce)
      (hsent : pc'.isRecording = false) : JobMoves σ id pc e pc' σ.relayer.localNonce
  | sent (v : JobVars) :
      JobMoves σ id (.broadcast v) (.sent (.accepted none)) (.writeSubmitted v)
        (consumeNonce v σ.relayer.localNonce)
  | resync {v : JobVars} {cls : TxErrorClass} (hfresh : v.isResume = false) :
      JobMoves σ id (.resync v cls) .counted
        (.backoff ({ v with nonce := σ.node.pendingCount }.bumpIf cls.reason)) σ.node.pendingCount

inductive JobEnds (σ : State) (id : SettlementId) : JobPc → JobEvent → Prop
  | unsendable (h : ∀ s, σ.db.findById id = some s →
      (s.status ≠ .complianceApproved ∧ s.status ≠ .submitted) ∨
        startJob s σ.relayer.localNonce = none) : JobEnds σ id .find .found
  | findError : JobEnds σ id .find .callError
  | feesError (v : JobVars) : JobEnds σ id (.buildFees v) .callError
  | countError (v : JobVars) (cls : TxErrorClass) : JobEnds σ id (.resync v cls) .callError
  | submitted (v : JobVars) : JobEnds σ id (.writeSubmitted v) (.written .ok)
  | failed (v : JobVars) (reason : String) (o : DbOutcome TxError) :
      JobEnds σ id (.fail v reason) (.written o)

/-- The fresh job that replaces its nonce by the chain's pending count in this step. -/
def State.refetch (σ : State) : Event → Option (SettlementId × JobVars)
  | .job .counted =>
    match σ.relayer.worker with
    | some (id, .resync v _) => if v.isResume then none else some (id, v)
    | _ => none
  | _ => none

variable {cfg : RelayerConfig} {σ : State} {id : SettlementId} {pc pc' : JobPc} {e : JobEvent}
variable {out : JobOut} {v : JobVars}

theorem caughtAs_moves (cls : TxErrorClass) (hv : pc.sending = some v) :
    ∃ pc', (caughtAs cfg v cls σ.relayer.localNonce σ.relayer.inflight).pc = some pc' ∧
      JobMoves σ id pc e pc'
        (caughtAs cfg v cls σ.relayer.localNonce σ.relayer.inflight).localNonce := by
  unfold caughtAs
  split_ifs
  · exact ⟨_, rfl, .advance hv rfl ⟨rfl, rfl, rfl⟩ rfl rfl⟩
  · exact ⟨_, rfl, .advance hv rfl ⟨rfl, rfl, rfl⟩ rfl rfl⟩
  · exact ⟨_, rfl, .advance hv rfl ⟨rfl, rfl, rfl⟩ rfl rfl⟩
  · exact ⟨_, rfl, .advance hv rfl (v.sameJob_retried_bumpIf cls.reason)
      (v.retried.bumpIf_nonce cls.reason) rfl⟩

theorem caught_moves (err : TxError) (hv : pc.sending = some v) :
    ∃ pc', (caught cfg v err σ.relayer.localNonce σ.relayer.inflight).pc = some pc' ∧
      JobMoves σ id pc e pc'
        (caught cfg v err σ.relayer.localNonce σ.relayer.inflight).localNonce :=
  caughtAs_moves _ hv

/-- A step of a job moves it on or ends it. -/
theorem jobStep_cases
    (hout : jobStep cfg σ.db σ.node σ.now σ.relayer.localNonce σ.relayer.inflight id pc e
      = some out) :
    (∃ pc', out.pc = some pc' ∧ JobMoves σ id pc e pc' out.localNonce) ∨
      (out.pc = none ∧ out.localNonce = σ.relayer.localNonce ∧ JobEnds σ id pc e) := by
  cases pc <;> cases e <;> simp only [jobStep, reduceCtorEq] at hout
  case find.found =>
    split at hout
    · rename_i hnone
      cases hout
      exact .inr ⟨rfl, rfl, .unsendable fun s hs => by simp [hnone] at hs⟩
    · rename_i s hs
      split_ifs at hout with hstatus
      · cases hout
        exact .inr ⟨rfl, rfl, .unsendable fun t ht => .inl (by rwa [← Option.some.inj (hs.symm.trans ht)])⟩
      · cases hout
        rcases hstart : startJob s σ.relayer.localNonce with _ | v
        · exact .inr ⟨rfl, rfl, .unsendable fun t ht =>
            .inr (by rwa [← Option.some.inj (hs.symm.trans ht)])⟩
        · exact .inl ⟨_, rfl, .start hs (by tauto) hstart⟩
  case find.callError => cases hout; exact .inr ⟨rfl, rfl, .findError⟩
  case estimateGas.estimated =>
    cases hout
    exact .inl ⟨_, rfl, .advance rfl rfl ⟨rfl, rfl, rfl⟩ rfl rfl⟩
  case buildFees.feeData =>
    cases hout
    exact .inl ⟨_, rfl, .advance rfl rfl ⟨rfl, rfl, rfl⟩ rfl rfl⟩
  case buildFees.callError v => cases hout; exact .inr ⟨rfl, rfl, .feesError v⟩
  case broadcast.sent v outcome =>
    rcases outcome with (_ | err) | err <;> simp only at hout
    · split_ifs at hout
      cases hout
      exact .inl ⟨_, rfl, .sent v⟩
    · split_ifs at hout
      cases hout
      dsimp only
      exact .inl (caught_moves err (JobPc.sending_broadcast v))
    · cases hout
      exact .inl (caught_moves err (JobPc.sending_broadcast v))
  case writeSubmitted.written v outcome =>
    split_ifs at hout
    cases outcome with
    | ok => cases hout; exact .inr ⟨rfl, rfl, .submitted v⟩
    | lost err =>
      cases hout
      exact .inl (caught_moves err (JobPc.sending_writeSubmitted v))
    | ambiguous err =>
      cases hout
      dsimp only
      exact .inl (caught_moves err (JobPc.sending_writeSubmitted v))
  case resync.counted v cls =>
    split_ifs at hout with hresume
    · cases hout
      exact .inl ⟨_, rfl, .advance rfl rfl (v.bumpIf_sameJob cls.reason) (v.bumpIf_nonce cls.reason)
        rfl⟩
    · cases hout
      exact .inl ⟨_, rfl, .resync (by simpa using hresume)⟩
  case resync.callError v cls => cases hout; exact .inr ⟨rfl, rfl, .countError v cls⟩
  case backoff.woke =>
    cases hout
    exact .inl ⟨_, rfl, .advance rfl rfl ⟨rfl, rfl, rfl⟩ rfl rfl⟩
  case fail.written v reason outcome =>
    split_ifs at hout
    cases hout
    exact .inr ⟨rfl, rfl, .failed v reason outcome⟩

theorem jobStep_recording
    (hout : jobStep cfg σ.db σ.node σ.now σ.relayer.localNonce σ.relayer.inflight id pc e
      = some out) (hpc : out.pc = some (.writeSubmitted v)) :
    pc = .broadcast v ∧ out.node = .accept (.settlement id) v.tx := by
  rcases jobStep_cases hout with ⟨pc', hpc', hmoves⟩ | ⟨hnone, -⟩
  · obtain rfl : pc' = .writeSubmitted v := Option.some.inj (hpc'.symm.trans hpc)
    generalize out.localNonce = localNonce at hmoves
    cases hmoves with
    | advance _ _ _ _ hsent => cases hsent
    | sent =>
      rw [jobStep] at hout
      split_ifs at hout
      cases hout
      exact ⟨rfl, rfl⟩
  · simp [hnone] at hpc

namespace Relayer

def jobs (r : Relayer) : List SettlementId := (r.worker.map Prod.fst).toList ++ r.queue

variable {r : Relayer} {k : SettlementId}

@[simp] theorem jobs_runWorker : r.runWorker.jobs = r.queue := by
  unfold runWorker
  rcases r.queue with _ | ⟨id, queue⟩
  · simp [jobs]
  · by_cases hd : r.draining <;> simp [jobs, hd]

theorem jobs_enqueueId :
    (r.enqueueId k).jobs = if r.draining then r.jobs else r.jobs ++ [k] := by
  unfold enqueueId
  split_ifs with hd hw
  · rfl
  · simp [jobs]
  · rw [Bool.not_eq_true, Option.isSome_eq_false_iff, Option.isNone_iff_eq_none] at hw
    rw [jobs_runWorker, jobs, hw]
    rfl

@[simp] theorem draining_runWorker : r.runWorker.draining = r.draining := by
  unfold runWorker
  repeat' split
  all_goals rfl

@[simp] theorem draining_enqueueId : (r.enqueueId k).draining = r.draining := by
  unfold enqueueId
  split_ifs <;> simp

@[simp] theorem localNonce_runWorker : r.runWorker.localNonce = r.localNonce := by
  unfold runWorker
  repeat' split
  all_goals rfl

@[simp] theorem localNonce_enqueueId : (r.enqueueId k).localNonce = r.localNonce := by
  unfold enqueueId
  split_ifs <;> simp

@[simp] theorem sweep_runWorker : r.runWorker.sweep = r.sweep := by
  unfold runWorker
  repeat' split
  all_goals rfl

@[simp] theorem sweep_enqueueId : (r.enqueueId k).sweep = r.sweep := by
  unfold enqueueId
  split_ifs <;> simp

@[simp] theorem recovery_runWorker : r.runWorker.recovery = r.recovery := by
  unfold runWorker
  repeat' split
  all_goals rfl

@[simp] theorem recovery_enqueueId : (r.enqueueId k).recovery = r.recovery := by
  unfold enqueueId
  split_ifs <;> simp

theorem worker_runWorker {w : SettlementId × JobPc} (h : r.runWorker.worker = some w) :
    w.2 = .find := by
  unfold runWorker at h
  split at h
  · cases h
  · split_ifs at h
    cases h
    rfl

theorem worker_enqueueId {w : SettlementId × JobPc} (h : (r.enqueueId k).worker = some w) :
    r.worker = some w ∨ w.2 = .find := by
  unfold enqueueId at h
  split_ifs at h
  · exact .inl h
  · exact .inl h
  · exact .inr (worker_runWorker h)

theorem jobs_foldl_enqueueId (ids : List SettlementId) :
    (ids.foldl enqueueId r).jobs = if r.draining then r.jobs else r.jobs ++ ids := by
  induction ids generalizing r with
  | nil => simp
  | cons id ids ih =>
    rw [List.foldl_cons, ih, draining_enqueueId, jobs_enqueueId]
    split_ifs <;> simp

theorem worker_foldl_enqueueId {ids : List SettlementId} {w : SettlementId × JobPc}
    (h : (ids.foldl enqueueId r).worker = some w) : r.worker = some w ∨ w.2 = .find := by
  induction ids generalizing r with
  | nil => exact .inl h
  | cons id ids ih =>
    rcases ih h with h | h
    · exact worker_enqueueId h
    · exact .inr h

theorem worker_enqueueId_of_some {w : SettlementId × JobPc} (h : r.worker = some w) :
    (r.enqueueId k).worker = some w := by
  unfold enqueueId
  split_ifs with _ hnone
  · exact h
  · exact h
  · simp [h] at hnone

theorem worker_foldl_of_some {w : SettlementId × JobPc} {ids : List SettlementId}
    (h : r.worker = some w) : (ids.foldl enqueueId r).worker = some w := by
  induction ids generalizing r with
  | nil => exact h
  | cons id ids ih => exact ih (worker_enqueueId_of_some h)

theorem frame_foldl_enqueueId (ids : List SettlementId) :
    (ids.foldl enqueueId r).localNonce = r.localNonce ∧
      (ids.foldl enqueueId r).sweep = r.sweep ∧ (ids.foldl enqueueId r).recovery = r.recovery := by
  induction ids generalizing r with
  | nil => exact ⟨rfl, rfl, rfl⟩
  | cons id ids ih => simpa using ih (r := r.enqueueId id)

end Relayer

variable {cfg : Config} {σ' : State} {ev : Event}

def Event.isJob : Event → Bool
  | .job _ => true
  | _ => false

theorem step_worker_out (h : step cfg σ ev = some σ') (hw : σ'.relayer.worker = some (id, pc')) :
    pc' = .find ∨ (ev.isJob = false ∧ σ.relayer.worker = some (id, pc')) ∨
      ∃ pc e out, ev = .job e ∧ σ.relayer.worker = some (id, pc) ∧ out.pc = some pc' ∧
        σ' = σ.afterJob id out ∧ jobStep cfg.relayer σ.db σ.node σ.now σ.relayer.localNonce
          σ.relayer.inflight id pc e = some out := by
  cases stepsTo h with
  | @create i e call out hcall hout =>
    simp only [State.afterCreate] at hw
    rcases henq : out.enqueue with _ | k <;> rw [henq] at hw
    · exact .inr (.inl ⟨rfl, hw⟩)
    · exact (Relayer.worker_enqueueId hw).elim (fun h => .inr (.inl ⟨rfl, h⟩)) .inl
  | @job k pc e out hk hout =>
    rcases hpc : out.pc with _ | pc₁
    · simp only [State.afterJob, hpc, Option.isSome_none, Bool.false_eq_true, if_false] at hw
      exact .inl (Relayer.worker_runWorker hw)
    · have hk' : k = id ∧ pc₁ = pc' := by
        simpa [State.afterJob, hpc] using hw
      obtain ⟨rfl, rfl⟩ := hk'
      exact .inr (.inr ⟨pc, e, out, rfl, hk, hpc, rfl, hout⟩)
  | recover hout =>
    exact (Relayer.worker_foldl_enqueueId hw).elim (fun h => .inr (.inl ⟨rfl, h⟩)) .inl
  | crash => cases hw
  | _ => exact .inr (.inl ⟨rfl, hw⟩)

theorem step_worker (h : step cfg σ ev = some σ') (hw : σ'.relayer.worker = some (id, pc')) :
    pc' = .find ∨ σ.relayer.worker = some (id, pc') ∨
      ∃ pc e, ev = .job e ∧ σ.relayer.worker = some (id, pc) ∧
        JobMoves σ id pc e pc' σ'.relayer.localNonce := by
  rcases step_worker_out h hw with hfind | ⟨-, hsame⟩ | ⟨pc, e, out, rfl, hk, hpc, rfl, hout⟩
  · exact .inl hfind
  · exact .inr (.inl hsame)
  · rcases jobStep_cases hout with ⟨pc₁, hpc₁, hmoves⟩ | ⟨hnone, -, -⟩
    · obtain rfl := Option.some.inj (hpc₁.symm.trans hpc)
      refine .inr (.inr ⟨pc, e, rfl, hk, ?_⟩)
      simpa only [State.afterJob, hpc, Option.isSome_some, if_true] using hmoves
    · rw [hnone] at hpc
      cases hpc

/-- What becomes of the worker's job: it stays, moves on, ends, or dies with the process. -/
theorem step_worker_of (h : step cfg σ ev = some σ') (hw : σ.relayer.worker = some (id, pc)) :
    ev = .crash ∨ σ'.relayer.worker = some (id, pc) ∨
      ∃ e, ev = .job e ∧
        ((∃ pc', σ'.relayer.worker = some (id, pc') ∧
          JobMoves σ id pc e pc' σ'.relayer.localNonce) ∨
        (JobEnds σ id pc e ∧ σ.relayer.jobs = id :: σ'.relayer.jobs)) := by
  cases stepsTo h with
  | @create i e call out hcall hout =>
    refine .inr (.inl ?_)
    simp only [State.afterCreate]
    rcases out.enqueue with _ | k
    · exact hw
    · exact Relayer.worker_enqueueId_of_some hw
  | @job k pc₁ e out hk hout =>
    rw [hw] at hk
    cases hk
    refine .inr (.inr ⟨e, rfl, ?_⟩)
    rcases jobStep_cases hout with ⟨pc', hpc', hmoves⟩ | ⟨hnone, -, hends⟩
    · refine .inl ⟨pc', ?_, ?_⟩ <;> simp only [State.afterJob, hpc', Option.isSome_some, if_true]
      · rfl
      · exact hmoves
    · refine .inr ⟨hends, ?_⟩
      simp only [State.afterJob, hnone, Option.isSome_none, Bool.false_eq_true, if_false,
        Relayer.jobs_runWorker]
      simp [Relayer.jobs, hw]
  | @recover e out hout => exact .inr (.inl (Relayer.worker_foldl_of_some hw))
  | crash => exact .inl rfl
  | _ => exact .inr (.inl hw)

inductive JobLine (σ : State) : Event → List SettlementId → Prop
  | same {ev : Event} : JobLine σ ev σ.relayer.jobs
  | crash : JobLine σ .crash []
  | enqueue {i : ℕ} {call : CreateCall} {id : SettlementId} (hcall : σ.creates[i]? = some call)
      (hpc : call.pc = .approve id) (hrow : (σ.db.findById id).isSome) :
      JobLine σ (.create i (.written .ok))
        (if σ.relayer.draining then σ.relayer.jobs else σ.relayer.jobs ++ [id])
  | ended {id : SettlementId} {pc : JobPc} {e : JobEvent} {jobs : List SettlementId}
      (hworker : σ.relayer.worker = some (id, pc)) (hends : JobEnds σ id pc e)
      (hjobs : σ.relayer.jobs = id :: jobs) : JobLine σ (.job e) jobs
  | requeue {e : RecoveryEvent} {ids : List SettlementId}
      (hids : ∀ id ∈ ids, ∃ t, (t ∈ σ.relayer.recovery.rows ∨
        t ∈ σ.db.findByStatuses [.submitted]) ∧ t.id = id) :
      JobLine σ (.recover e) (if σ.relayer.draining then σ.relayer.jobs else σ.relayer.jobs ++ ids)

theorem step_jobs (h : step cfg σ ev = some σ') : JobLine σ ev σ'.relayer.jobs := by
  cases stepsTo h with
  | @create i e call out hcall hout =>
    have hsame : out.enqueue = none →
        JobLine σ (.create i e) (σ.afterCreate i call out).relayer.jobs := fun henq => by
      rw [State.afterCreate, henq]
      exact .same
    cases createStep_holds hout with
    | keep _ _ henq => exact hsame henq
    | insert _ _ _ _ henq => exact hsame henq
    | reject _ _ _ henq => exact hsame henq
    | @approve id o _ hpc _ _ henq hrow =>
      cases o with
      | ok =>
        rw [State.afterCreate, henq, enqueueAfter, Option.elim, Relayer.jobs_enqueueId]
        exact .enqueue hcall hpc (hrow rfl)
      | lost | ambiguous => exact hsame henq
  | @job k pc e out hk hout =>
    have hjobs : σ.relayer.jobs = k :: σ.relayer.queue := by simp [Relayer.jobs, hk]
    rcases jobStep_cases hout with ⟨pc₁, hpc₁, -⟩ | ⟨hnone, -, hends⟩
    · simp only [State.afterJob, hpc₁, Option.isSome_some, if_true, Option.map_some]
      rw [show Relayer.jobs _ = σ.relayer.jobs from hjobs.symm ▸ rfl]
      exact .same
    · simp only [State.afterJob, hnone, Option.isSome_none, Bool.false_eq_true, if_false,
        Relayer.jobs_runWorker]
      exact .ended hk hends hjobs
  | recover hout =>
    rw [State.afterRecovery, Relayer.jobs_foldl_enqueueId]
    exact .requeue (recoveryStep_rows hout).2
  | crash => exact .crash
  | _ => exact .same

theorem Relayer.draining_foldl_enqueueId {r : Relayer} (ids : List SettlementId) :
    (ids.foldl enqueueId r).draining = r.draining := by
  induction ids generalizing r with
  | nil => rfl
  | cons id ids ih => rw [List.foldl_cons, ih, draining_enqueueId]

theorem State.frame_afterCreate (σ : State) (i : ℕ) (call : CreateCall) (out : CreateOut) :
    (σ.afterCreate i call out).relayer.sweep = σ.relayer.sweep ∧
      (σ.afterCreate i call out).relayer.recovery = σ.relayer.recovery ∧
      (σ.afterCreate i call out).relayer.draining = σ.relayer.draining := by
  simp only [State.afterCreate]
  rcases out.enqueue with _ | id
  · exact ⟨rfl, rfl, rfl⟩
  · exact ⟨Relayer.sweep_enqueueId, Relayer.recovery_enqueueId, Relayer.draining_enqueueId⟩

theorem State.frame_afterJob (σ : State) (id : SettlementId) (out : JobOut) :
    (σ.afterJob id out).relayer.sweep = σ.relayer.sweep ∧
      (σ.afterJob id out).relayer.recovery = σ.relayer.recovery ∧
      (σ.afterJob id out).relayer.draining = σ.relayer.draining := by
  simp only [State.afterJob]
  split_ifs
  · exact ⟨rfl, rfl, rfl⟩
  · exact ⟨Relayer.sweep_runWorker, Relayer.recovery_runWorker, Relayer.draining_runWorker⟩

theorem step_recovery (h : step cfg σ ev = some σ') (hno : ev ≠ .crash) :
    (∃ e, ev = .recover e) ∨ σ'.relayer.recovery = σ.relayer.recovery := by
  cases stepsTo h with
  | crash => exact absurd rfl hno
  | recover => exact .inl ⟨_, rfl⟩
  | @create i e call out => exact .inr (σ.frame_afterCreate i call out).2.1
  | @job id pc e out => exact .inr (σ.frame_afterJob id out).2.1
  | _ => exact .inr rfl

theorem done_step (hdone : σ.relayer.recovery = .done) (hno : ev ≠ .crash)
    (h : step cfg σ ev = some σ') : σ'.relayer.recovery = .done := by
  rcases step_recovery h hno with ⟨e, rfl⟩ | hsame
  · cases stepsTo h with | recover hout => ?_
    rw [hdone] at hout
    cases hout
  · exact hsame.trans hdone

end Rail
