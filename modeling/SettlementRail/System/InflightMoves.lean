import SettlementRail.System.JobFlow

/-! The inflight map: who sets an entry, and what a step does to the map. -/

namespace Rail

namespace Inflight

variable {inflight : Inflight} {info info' : InflightTx} {id : SettlementId}

theorem mem_delete : info ∈ inflight.delete id ↔ info ∈ inflight ∧ info.settlementId ≠ id := by
  simp [delete]

theorem mem_set : info ∈ inflight.set info' ↔
    (info ∈ inflight ∧ info.settlementId ≠ info'.settlementId) ∨ info = info' := by
  rw [set, List.mem_append, mem_delete, List.mem_singleton]

theorem nodup_delete (h : (inflight.map InflightTx.settlementId).Nodup) :
    ((inflight.delete id).map InflightTx.settlementId).Nodup :=
  h.sublist (List.filter_sublist.map _)

theorem nodup_set (h : (inflight.map InflightTx.settlementId).Nodup) :
    ((inflight.set info).map InflightTx.settlementId).Nodup := by
  rw [set, List.map_append, List.nodup_append]
  refine ⟨nodup_delete h, List.nodup_singleton _, ?_⟩
  intro a ha b hb
  obtain ⟨old, hold, rfl⟩ := List.mem_map.mp ha
  rw [List.map_singleton, List.mem_singleton] at hb
  exact hb ▸ (mem_delete.mp hold).2

end Inflight

namespace Relayer

variable {r : Relayer} {k : SettlementId}

@[simp] theorem inflight_runWorker : r.runWorker.inflight = r.inflight := by
  unfold runWorker
  repeat' split
  all_goals rfl

@[simp] theorem inflight_enqueueId : (r.enqueueId k).inflight = r.inflight := by
  unfold enqueueId
  split_ifs <;> simp

theorem inflight_foldl_enqueueId (ids : List SettlementId) :
    (ids.foldl enqueueId r).inflight = r.inflight := by
  induction ids generalizing r with
  | nil => rfl
  | cons id ids ih => rw [List.foldl_cons, ih, inflight_enqueueId]

end Relayer

def State.tracking (σ : State) : Event → Option SettlementId
  | .job (.sent (.accepted none)) =>
    match σ.relayer.worker with
    | some (id, .broadcast _) => some id
    | _ => none
  | .sweep (.sent (.accepted none)) =>
    match σ.relayer.sweep with
    | some (.broadcast s _ _ _) => some s.id
    | _ => none
  | .recover .txLookup =>
    match σ.relayer.recovery with
    | .getTransaction s _ =>
      if (s.txHash.bind σ.node.getTransaction).isSome then some s.id else none
    | _ => none
  | _ => none

inductive InflightMoves (σ : State) (ev : Event) : Inflight → Prop
  | keep : InflightMoves σ ev σ.relayer.inflight
  | delete (id : SettlementId) : InflightMoves σ ev (σ.relayer.inflight.delete id)
  | set {info : InflightTx} (hset : σ.tracking ev = some info.settlementId) :
      InflightMoves σ ev (σ.relayer.inflight.set info)
  | crash (hcrash : ev = .crash) : InflightMoves σ ev []

variable {cfg : Config} {σ σ' : State} {ev : Event} {info : InflightTx}

theorem tracking_cases {id : SettlementId} (h : σ.tracking ev = some id) :
    (ev = .job (.sent (.accepted none)) ∧ ∃ v, σ.relayer.worker = some (id, .broadcast v)) ∨
    (ev = .sweep (.sent (.accepted none)) ∧ ∃ s rest fees gasLimit,
      σ.relayer.sweep = some (.broadcast s rest fees gasLimit) ∧ s.id = id) ∨
    (ev = .recover .txLookup ∧ ∃ s rest tx, σ.relayer.recovery = .getTransaction s rest ∧
      s.id = id ∧ s.txHash.bind σ.node.getTransaction = some tx) := by
  unfold State.tracking at h
  split at h
  · split at h <;> cases h
    rename_i v hworker
    exact .inl ⟨rfl, v, hworker⟩
  · split at h <;> cases h
    rename_i s rest fees gasLimit hsweep
    exact .inr (.inl ⟨rfl, s, rest, fees, gasLimit, hsweep, rfl⟩)
  · split at h
    · rename_i s rest hrecovery
      split_ifs at h with hfound
      cases h
      obtain ⟨tx, htx⟩ := Option.isSome_iff_exists.mp hfound
      exact .inr (.inr ⟨rfl, s, rest, tx, hrecovery, rfl, htx⟩)
    · cases h
  · cases h

theorem caught_inflight (v : JobVars) (err : TxError) (localNonce : ℕ) :
    InflightMoves σ ev (caught cfg.relayer v err localNonce σ.relayer.inflight).inflight := by
  unfold caught caughtAs
  split_ifs
  · exact .delete _
  · exact .delete _
  · exact .keep
  · exact .keep

theorem resendCaught_inflight (s : Settlement) (rest : List Settlement) (err : TxError) :
    InflightMoves σ ev (resendCaught s rest err σ.relayer.inflight).inflight := by
  unfold resendCaught resendCaughtAs
  split_ifs
  · exact .keep
  · exact .delete _
  · exact .keep

theorem inflightMoves_job {id : SettlementId} {pc : JobPc} {e : JobEvent} {out : JobOut}
    (hworker : σ.relayer.worker = some (id, pc)) (hid : ∀ v, pc.vars = some v → v.settlement.id = id)
    (hout : jobStep cfg.relayer σ.db σ.node σ.now σ.relayer.localNonce σ.relayer.inflight id pc e
      = some out) : InflightMoves σ (.job e) out.inflight := by
  cases pc <;> cases e <;> simp only [jobStep, reduceCtorEq] at hout
  case find.found =>
    repeat' split at hout
    all_goals cases hout; exact .keep
  case broadcast.sent v outcome =>
    rcases outcome with (_ | err) | err <;> simp only at hout
    · split_ifs at hout
      cases hout
      refine .set ?_
      rw [State.tracking, hworker]
      exact congrArg some (hid v rfl).symm
    · split_ifs at hout
      cases hout
      exact caught_inflight _ _ _
    · cases hout
      exact caught_inflight _ _ _
  case writeSubmitted.written v outcome =>
    split_ifs at hout
    cases outcome <;> cases hout
    · exact .keep
    · exact caught_inflight _ _ _
    · exact caught_inflight _ _ _
  case resync.counted => split_ifs at hout <;> cases hout <;> exact .keep
  case fail.written =>
    split_ifs at hout
    cases hout
    exact .keep
  all_goals cases hout; exact .keep

theorem inflightMoves_sweep {pc : SweepPc} {e : SweepEvent} {out : SweepOut}
    (hsweep : σ.relayer.sweep = some pc)
    (hout : sweepStep cfg.relayer σ.db σ.node σ.now σ.relayer.inflight pc e = some out) :
    InflightMoves σ (.sweep e) out.inflight := by
  cases pc <;> cases e <;> simp only [sweepStep, reduceCtorEq] at hout
  case receipt.receipt s rest =>
    split_ifs at hout <;> cases hout
    · exact .delete _
    · unfold sweepStuck
      split_ifs
      · exact .delete _
      · split <;> exact .keep
    · exact .keep
  case feesFromTx.txLookup => split at hout <;> cases hout <;> exact .keep
  case broadcast.sent s rest fees gasLimit outcome =>
    rcases outcome with (_ | err) | err <;> simp only at hout
    · split at hout
      · cases hout
      · split_ifs at hout
        cases hout
        refine .set ?_
        rw [State.tracking, hsweep]
        rfl
    · split at hout
      · cases hout
      · split_ifs at hout
        cases hout
        exact resendCaught_inflight _ _ _
    · cases hout
      exact resendCaught_inflight _ _ _
  case recordResend.written s rest tx outcome =>
    split_ifs at hout
    cases outcome <;> cases hout
    · exact .keep
    · exact resendCaught_inflight _ _ _
    · exact resendCaught_inflight _ _ _
  case fail.written s rest reason retryCount outcome =>
    split_ifs at hout
    cases hout
    cases outcome with
    | ok =>
      unfold failedInflight
      split_ifs
      · exact .delete _
      · exact .keep
    | lost | ambiguous => exact .keep
  all_goals cases hout; exact .keep

theorem inflightMoves_recovery {e : RecoveryEvent} {out : RecoveryOut}
    (hout : recoveryStep σ.db σ.node σ.now σ.relayer.localNonce σ.relayer.inflight
      σ.relayer.recovery e = some out) : InflightMoves σ (.recover e) out.inflight := by
  rcases hpc : σ.relayer.recovery <;> rw [hpc] at hout <;> cases e <;>
    simp only [recoveryStep, reduceCtorEq] at hout
  case receipt.receipt =>
    split at hout
    · split_ifs at hout <;> cases hout
      · exact .keep
      · exact .delete _
    · cases hout
      exact .keep
  case fail.written =>
    split_ifs at hout
    cases hout
    exact .keep
  case getTransaction.txLookup s rest =>
    split at hout <;> cases hout
    · rename_i tx htx
      refine .set ?_
      rw [State.tracking, hpc]
      simp only [htx, Option.isSome_some, if_true]
      rfl
    · exact .keep
  all_goals cases hout; exact .keep

theorem step_inflight (hc : ∀ id pc v, σ.relayer.worker = some (id, pc) → pc.vars = some v →
    v.settlement.id = id) (h : step cfg σ ev = some σ') :
    InflightMoves σ ev σ'.relayer.inflight := by
  cases stepsTo h with
  | @create i e call out hcall hout =>
    simp only [State.afterCreate]
    rcases out.enqueue with _ | k
    · exact .keep
    · rw [Option.elim, Relayer.inflight_enqueueId]
      exact .keep
  | @job id pc e out hworker hout =>
    have hmoves := inflightMoves_job hworker (fun v hv => hc id pc v hworker hv) hout
    simp only [State.afterJob]
    split_ifs
    · exact hmoves
    · rw [Relayer.inflight_runWorker]
      exact hmoves
  | sweep hsweep hout => exact inflightMoves_sweep hsweep hout
  | @recover e out hout =>
    rw [State.afterRecovery, Relayer.inflight_foldl_enqueueId]
    exact inflightMoves_recovery hout
  | crash => exact .crash rfl
  | _ => exact .keep

theorem InflightMoves.mem {inflight : Inflight} {info : InflightTx}
    (hmoves : InflightMoves σ ev inflight) (hi : info ∈ inflight) :
    info ∈ σ.relayer.inflight ∨ σ.tracking ev = some info.settlementId := by
  cases hmoves with
  | keep => exact .inl hi
  | delete id => exact .inl (Inflight.mem_delete.mp hi).1
  | set hset =>
    rcases Inflight.mem_set.mp hi with ⟨hold, -⟩ | rfl
    · exact .inl hold
    · exact .inr hset
  | crash => cases hi

theorem InflightMoves.keys {inflight : Inflight} (hmoves : InflightMoves σ ev inflight)
    (h : (σ.relayer.inflight.map InflightTx.settlementId).Nodup) :
    (inflight.map InflightTx.settlementId).Nodup := by
  cases hmoves with
  | keep => exact h
  | delete id => exact Inflight.nodup_delete h
  | set hset => exact Inflight.nodup_set h
  | crash => exact List.nodup_nil

end Rail
