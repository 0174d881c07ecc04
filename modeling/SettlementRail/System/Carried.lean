import SettlementRail.System.JobFlow
import SettlementRail.System.Writers

/-! The rows in the hands of the threads: the job's settlement, and the lists that the sweep,
the recovery and the listener walk. -/

namespace Rail

inductive State.Walks (σ : State) : Settlement → Prop
  | sweep {t : Settlement} (ht : t ∈ SweepPc.rowsOf σ.relayer.sweep) : Walks σ t
  | recovery {t : Settlement} (ht : t ∈ σ.relayer.recovery.rows) : Walks σ t
  | listener {c : ListenCall} {t : Settlement} (hc : c ∈ σ.listeners) (ht : t ∈ c.pc.rows) :
      Walks σ t

inductive State.Carries (σ : State) : Settlement → Prop
  | job {id : SettlementId} {pc : JobPc} {v : JobVars}
      (hworker : σ.relayer.worker = some (id, pc)) (hv : pc.vars = some v) :
      Carries σ v.settlement
  | walk {t : Settlement} (ht : σ.Walks t) : Carries σ t

variable {cfg : Config} {σ σ' : State} {ev : Event} {t s : Settlement} {id : SettlementId}

theorem startJob_some {localNonce : ℕ} {v : JobVars} (h : startJob s localNonce = some v) :
    v.settlement = s ∧ toBaseUnits s.amount = some v.baseUnits ∧
      v.isResume = (s.status = .submitted && s.nonce.isSome) ∧
      v.nonce = if v.isResume then s.nonce.getD localNonce else localNonce := by
  obtain ⟨baseUnits, hunits, rfl⟩ := Option.map_eq_some_iff.mp h
  exact ⟨rfl, hunits, rfl, rfl⟩

def Event.ofSweep : Event → Bool
  | .startSweep | .sweep _ => true
  | _ => false

inductive SweepMoves (cfg : Config) (σ : State) : Event → Option SweepPc → Prop
  | same {ev : Event} (hev : ev.ofSweep = false) : SweepMoves cfg σ ev σ.relayer.sweep
  | start (hidle : σ.relayer.sweep = none) : SweepMoves cfg σ .startSweep (some .find)
  | crash : SweepMoves cfg σ .crash none
  | step {pc : SweepPc} {e : SweepEvent} {out : SweepOut} (hsweep : σ.relayer.sweep = some pc)
      (hout : sweepStep cfg.relayer σ.db σ.node σ.now σ.relayer.inflight pc e = some out) :
      SweepMoves cfg σ (.sweep e) out.pc

theorem step_sweep (h : step cfg σ ev = some σ') : SweepMoves cfg σ ev σ'.relayer.sweep := by
  cases stepsTo h with
  | @create i e call out hcall hout =>
    simp only [State.afterCreate]
    rcases out.enqueue with _ | k
    · exact .same rfl
    · rw [Option.elim, Relayer.sweep_enqueueId]
      exact .same rfl
  | @job id pc e out hworker hout =>
    simp only [State.afterJob]
    split_ifs
    · exact .same rfl
    · rw [Relayer.sweep_runWorker]
      exact .same rfl
  | @recover e out hout =>
    rw [State.afterRecovery, (Relayer.frame_foldl_enqueueId out.requeue).2.1]
    exact .same rfl
  | sweep hsweep hout => exact .step hsweep hout
  | startSweep hidle => exact .start hidle
  | crash => exact .crash
  | _ => exact .same rfl

theorem SweepMoves.nodup {sweep' : Option SweepPc} (h : SweepMoves cfg σ ev sweep')
    (hI : ((SweepPc.rowsOf σ.relayer.sweep).map Settlement.id).Nodup) :
    ((SweepPc.rowsOf sweep').map Settlement.id).Nodup := by
  cases h with
  | same => exact hI
  | start | crash => exact List.nodup_nil
  | step hsweep hout =>
    rw [hsweep] at hI
    rcases (sweepStep_goes hout).sublist with hsub | ⟨-, hsub⟩
    · exact hI.sublist (hsub.map _)
    · exact (σ.db.ids_nodup_findByStatuses _).sublist (hsub.map _)

theorem step_sweep_same (h : step cfg σ ev = some σ') (hev : ev.ofSweep = false)
    (hcrash : ev ≠ .crash) : σ'.relayer.sweep = σ.relayer.sweep := by
  have hmoves := step_sweep h
  generalize σ'.relayer.sweep = sweep' at hmoves ⊢
  cases hmoves with
  | same => rfl
  | start | step => cases hev
  | crash => exact absurd rfl hcrash

theorem step_sweep_rows (h : step cfg σ ev = some σ')
    (ht : t ∈ SweepPc.rowsOf σ'.relayer.sweep) :
    t ∈ SweepPc.rowsOf σ.relayer.sweep ∨ t ∈ σ.db.findByStatuses [.submitted] := by
  have hmoves := step_sweep h
  generalize σ'.relayer.sweep = sweep' at hmoves ht
  cases hmoves with
  | same => exact .inl ht
  | start | crash => cases ht
  | step hsweep hout =>
    rw [hsweep]
    exact sweepStep_rows hout ht

theorem step_recovery_rows (h : step cfg σ ev = some σ') (ht : t ∈ σ'.relayer.recovery.rows) :
    t ∈ σ.relayer.recovery.rows ∨ t ∈ σ.db.findByStatuses [.submitted] := by
  cases stepsTo h with
  | @recover e out hout =>
    rw [State.afterRecovery, (Relayer.frame_foldl_enqueueId out.requeue).2.2] at ht
    exact (recoveryStep_rows hout).1 t ht
  | @create i e call out hcall hout =>
    simp only [State.afterCreate] at ht
    rcases henq : out.enqueue with _ | k <;> rw [henq] at ht
    · exact .inl ht
    · exact .inl (by rwa [Option.elim, Relayer.recovery_enqueueId] at ht)
  | job hworker hout =>
    simp only [State.afterJob] at ht
    split_ifs at ht
    · exact .inl ht
    · exact .inl (by rwa [Relayer.recovery_runWorker] at ht)
  | crash => cases ht
  | _ => exact .inl ht

theorem step_listener_rows {c : ListenCall} (h : step cfg σ ev = some σ') (hc : c ∈ σ'.listeners)
    (ht : t ∈ c.pc.rows) :
    (∃ c ∈ σ.listeners, t ∈ c.pc.rows) ∨ t ∈ σ.db.findByStatuses [.submitted, .confirmed] := by
  cases stepsTo h with
  | listen hcall hout =>
    rcases List.mem_or_eq_of_mem_set hc with hc | rfl
    · exact .inl ⟨c, hc, ht⟩
    · exact (listenStep_rows hout ht).imp_left fun ht => ⟨_, List.mem_of_getElem? hcall, ht⟩
  | startPoll | transferEvent =>
    rcases List.mem_append.mp hc with hc | hc
    · exact .inl ⟨c, hc, ht⟩
    · rw [List.mem_singleton.mp hc] at ht
      cases ht
  | crash => cases hc
  | _ => exact .inl ⟨c, hc, ht⟩

theorem step_walks (h : step cfg σ ev = some σ') (ht : σ'.Walks t) :
    σ.Walks t ∨ σ.db.findById t.id = some t ∧ (t.status = .submitted ∨ t.status = .confirmed) := by
  cases ht with
  | sweep ht =>
    refine (step_sweep_rows h ht).imp .sweep fun ht => ?_
    rw [Db.mem_findByStatuses, List.mem_singleton] at ht
    exact ⟨ht.1, .inl ht.2⟩
  | recovery ht =>
    refine (step_recovery_rows h ht).imp .recovery fun ht => ?_
    rw [Db.mem_findByStatuses, List.mem_singleton] at ht
    exact ⟨ht.1, .inl ht.2⟩
  | listener hc ht =>
    refine (step_listener_rows h hc ht).imp (fun ⟨c, hc, ht⟩ => .listener hc ht) fun ht => ?_
    rwa [Db.mem_findByStatuses, List.mem_pair] at ht

theorem step_job_vars {pc' : JobPc} {v' : JobVars} (h : step cfg σ ev = some σ')
    (hworker : σ'.relayer.worker = some (id, pc')) (hv' : pc'.vars = some v') :
    (∃ pc v, σ.relayer.worker = some (id, pc) ∧ pc.vars = some v ∧ v.SameJob v') ∨
      ∃ s, σ.db.findById id = some s ∧ (s.status = .complianceApproved ∨ s.status = .submitted) ∧
        startJob s σ.relayer.localNonce = some v' := by
  rcases step_worker h hworker with rfl | hworker | ⟨pc, e, rfl, hworker₀, hmoves⟩
  · cases hv'
  · exact .inl ⟨pc', v', hworker, hv', rfl, rfl, rfl⟩
  · generalize σ'.relayer.localNonce = localNonce at hmoves
    cases hmoves with
    | start hrow hstatus hstart => cases hv'; exact .inr ⟨_, hrow, hstatus, hstart⟩
    | advance hv hv₁ hjob =>
      obtain rfl := Option.some.inj (hv₁.symm.trans hv')
      exact .inl ⟨pc, _, hworker₀, JobPc.vars_of_sending hv, hjob⟩
    | sent => cases hv'; exact .inl ⟨_, v', hworker₀, rfl, rfl, rfl, rfl⟩
    | @resync v cls hfresh =>
      cases hv'
      have hjob := JobVars.bumpIf_sameJob { v with nonce := σ.node.pendingCount } cls.reason
      exact .inl ⟨_, v, hworker₀, rfl, hjob.settlement, hjob.isResume, hjob.baseUnits⟩

theorem step_job_nonce {pc' : JobPc} {v' : JobVars} (h : step cfg σ ev = some σ')
    (hworker : σ'.relayer.worker = some (id, pc')) (hv' : pc'.vars = some v') :
    (∃ pc v, σ.relayer.worker = some (id, pc) ∧ pc.vars = some v ∧ v'.nonce = v.nonce ∧
        (pc'.sending = some v' → pc.sending = some v)) ∨
      (ev = .job .counted ∧ v'.nonce = σ.node.pendingCount ∧
        ∃ v cls, σ.relayer.worker = some (id, .resync v cls) ∧ v.isResume = false) ∨
      (ev = .job .found ∧ σ.relayer.worker = some (id, .find) ∧ ∃ s, σ.db.findById id = some s ∧
        (s.status = .complianceApproved ∨ s.status = .submitted) ∧
        startJob s σ.relayer.localNonce = some v') := by
  rcases step_worker h hworker with rfl | hworker | ⟨pc, e, rfl, hworker₀, hmoves⟩
  · cases hv'
  · exact .inl ⟨pc', v', hworker, hv', rfl, fun hsend => hsend⟩
  · generalize σ'.relayer.localNonce = localNonce at hmoves
    cases hmoves with
    | start hrow hstatus hstart => cases hv'; exact .inr (.inr ⟨rfl, hworker₀, _, hrow, hstatus, hstart⟩)
    | advance hv hv₁ _ hnonce =>
      obtain rfl := Option.some.inj (hv₁.symm.trans hv')
      exact .inl ⟨pc, _, hworker₀, JobPc.vars_of_sending hv, hnonce, fun _ => hv⟩
    | sent => cases hv'; exact .inl ⟨_, v', hworker₀, rfl, rfl, fun _ => rfl⟩
    | @resync v cls hfresh =>
      cases hv'
      exact .inr (.inl ⟨rfl, JobVars.bumpIf_nonce _ _, v, cls, hworker₀, hfresh⟩)

theorem step_carries (h : step cfg σ ev = some σ') (ht : σ'.Carries t) :
    σ.Carries t ∨ σ.db.findById t.id = some t ∧
      (t.status = .complianceApproved ∨ t.status = .submitted ∨ t.status = .confirmed) := by
  cases ht with
  | job hworker hv =>
    rcases step_job_vars h hworker hv with ⟨pc, v, hworker, hv, hjob⟩ | ⟨s, hrow, hstatus, hstart⟩
    · exact .inl (hjob.settlement ▸ .job hworker hv)
    · obtain ⟨rfl, -⟩ := startJob_some hstart
      exact .inr ⟨by rwa [Db.id_of_findById hrow], hstatus.imp_right .inl⟩
  | walk ht => exact (step_walks h ht).imp .walk fun ⟨hrow, hstatus⟩ => ⟨hrow, .inr hstatus⟩

end Rail
