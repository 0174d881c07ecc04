import SettlementRail.Sending.EntryDrops

/-! The entries that the inflight map must not lose. A settlement in SUBMITTED is tracked, or its
stored transaction is on the chain, or a job, the recovery or the sweep has it in hand; a sweep
leaves none of the others behind. -/

namespace Rail
open Foundation

inductive State.InHand (σ : State) (s : Settlement) : Prop
  | tracked (h : σ.tracked s.id = true)
  | mined (h : σ.node.hasReceipt s = true)
  | job (h : s.id ∈ σ.relayer.jobs)
  | recovering (h : σ.relayer.recovery.before s.id)
  | failing (h : σ.relayer.failing s.id)

/-- What the sweep under way makes of a row in SUBMITTED: it is tracked, was read as mined, or is
still before it. -/
def Relayer.Swept (r : Relayer) (receipts : List SettlementId) (id : SettlementId) : Prop :=
  (r.inflight.get id).isSome = true ∨ id ∈ receipts ∨ r.sweep = some .find ∨
    id ∈ (SweepPc.rowsOf r.sweep).map Settlement.id

structure CoverageInv (σ : State) (receipts : List SettlementId) : Prop where
  inHand : ∀ id s, σ.db.findById id = some s → s.status = .submitted → σ.InHand s
  current : ∀ t ∈ σ.ahead, ∀ s, σ.db.findById t.id = some s → s.status = .submitted →
    s.txHash = t.txHash
  swept : σ.relayer.sweep.isSome = true →
    ∀ id s, σ.db.findById id = some s → s.status = .submitted → σ.relayer.Swept receipts id
  recovered : σ.relayer.sweep.isSome = true → σ.relayer.recovery = .done
  awake : σ.relayer.draining = true → σ.relayer.recovery = .done

variable {cfg : Config} {σ σ' : State} {ev : Event} {receipts : List SettlementId}
variable {id : SettlementId} {s s' t : Settlement}

theorem NodeMoves.hasReceipt {node : Node} (hmoves : NodeMoves σ ev node)
    (hmined : σ.node.hasReceipt s = true) : node.hasReceipt s = true ∨
      ∃ drop blocks, ev = .newHead drop blocks ∧ node = σ.node.withHead drop blocks := by
  cases hmoves with
  | head => exact .inr ⟨_, _, rfl, rfl⟩
  | _ => exact .inl hmined

theorem mined_step (hkeeps : σ.KeepsMined ev) (hs : σ.db.findById id = some s)
    (hstatus : s.status = .submitted) (h : step cfg σ ev = some σ')
    (hmined : σ.node.hasReceipt s = true) : σ'.node.hasReceipt s = true ∨ σ'.tracked id = true := by
  rcases (step_node h).hasReceipt hmined with hstill | ⟨drop, blocks, rfl, hnode⟩
  · exact .inl hstill
  · have hid := Db.id_of_findById hs
    have hsub := Db.found_by_status hs (List.mem_singleton.mpr hstatus)
    rcases hkeeps s hsub hmined with htracked | hstill
    · right
      cases stepsTo h
      exact hid ▸ htracked
    · exact .inl (hnode ▸ hstill)

theorem job_step (hclean : ev.errorFree = true) (hs : σ.db.findById id = some s)
    (hstatus : s.status = .submitted) (hunits : (toBaseUnits s.amount).isSome = true)
    (hstores : σ.storing ev ≠ some id) (h : step cfg σ ev = some σ')
    (hs' : σ'.db.findById id = some s') (hstatus' : s'.status = .submitted)
    (hjob : id ∈ σ.relayer.jobs) : id ∈ σ'.relayer.jobs ∨ σ'.relayer.recovery.before id := by
  have hline := step_jobs h
  generalize hjobs' : σ'.relayer.jobs = jobs at hline ⊢
  cases hline with
  | same => exact .inl hjob
  | crash =>
    right
    cases stepsTo h
    exact .inl rfl
  | enqueue | requeue =>
    left
    split_ifs
    · exact hjob
    · exact List.mem_append_left _ hjob
  | @ended k pc e _ hworker hends hjobs =>
    rw [hjobs] at hjob
    rcases List.mem_cons.mp hjob with rfl | hrest
    · exfalso
      cases hends with
      | unsendable hno =>
        rcases hno s hs with ⟨-, hne⟩ | hstart
        · exact hne hstatus
        · rw [startJob, Option.map_eq_none_iff] at hstart
          rw [hstart] at hunits
          cases hunits
      | findError | feesError | countError => cases hclean
      | submitted v =>
        exact hstores (by simp only [State.storing, hworker, DbOutcome.committed, if_true])
      | failed v reason o =>
        obtain rfl := errorFree_job_written hclean
        have hrow : (DbOp.apply σ.now σ.db (.transition id .failed
            (failOptions reason v.retryCount))).findById id = some s' := by
          cases stepsTo h with
          | job hworker' hout =>
            rw [hworker] at hworker'
            cases hworker'
            simp only [jobStep] at hout
            split_ifs at hout
            cases hout
            exact hs'
        exact not_submitted_of_failed hrow hstatus'
    · exact .inl hrest

theorem failing_kept (hclean : ev.errorFree = true) (h : step cfg σ ev = some σ')
    (hs' : σ'.db.findById id = some s') (hstatus' : s'.status = .submitted)
    (hfailing : σ.relayer.failing id) :
    σ'.relayer.failing id ∨ σ'.relayer.recovery.before id := by
  obtain ⟨t, rest, reason, retryCount, hsweep, rfl⟩ := hfailing
  by_cases hcrash : ev = .crash
  · subst hcrash
    cases stepsTo h
    exact .inr (.inl rfl)
  by_cases hev : ev.ofSweep = false
  · exact .inl ⟨t, rest, reason, retryCount, (step_sweep_same h hev hcrash).trans hsweep, rfl⟩
  · cases stepsTo h with
    | startSweep hidle =>
      rw [hsweep] at hidle
      cases hidle
    | @sweep _ e out hsweep' hout =>
      rw [hsweep] at hsweep'
      cases hsweep'
      cases e <;> simp only [sweepStep, reduceCtorEq] at hout
      obtain rfl := errorFree_sweep_written hclean
      split_ifs at hout
      cases hout
      have hrow : (DbOp.apply σ.now σ.db (.transition t.id .failed
          (failOptions reason retryCount))).findById t.id = some s' := hs'
      exact absurd hstatus' (not_submitted_of_failed hrow)
    | _ => exact absurd rfl hev

theorem RecoveryPc.before.mem_rows {pc : RecoveryPc} {t : Settlement} {rest : List Settlement}
    (hbefore : pc.before id) (hrows : pc.rows = t :: rest) :
    id ∈ (t :: rest).map Settlement.id := by
  rcases hbefore with rfl | rfl | hid
  · cases hrows
  · cases hrows
  · rwa [hrows] at hid

theorem recoveryNext_keeps {l : List Settlement} (hid : id ∈ l.map Settlement.id) :
    id ∈ (recoveryNext l).1.rows.map Settlement.id ∨ id ∈ (recoveryNext l).2 := by
  induction l with
  | nil => cases hid
  | cons t rest ih =>
    unfold recoveryNext
    split_ifs
    · exact .inl hid
    · rcases List.mem_cons.mp hid with rfl | hrest
      · exact .inr List.mem_cons_self
      · exact (ih hrest).imp_right (List.mem_cons_of_mem _)

theorem recoveryStep_keeps {db : Db} {node : Node} {now localNonce : ℕ} {pc : RecoveryPc}
    {e : RecoveryEvent} {out : RecoveryOut} (hs : db.findById id = some s)
    (hstatus : s.status = .submitted)
    (hcurrent : ∀ t ∈ pc.rows, t.id = id → s.txHash = t.txHash) (hbefore : pc.before id)
    (hout : recoveryStep db node now localNonce inflight pc e = some out) :
    out.pc.before id ∨ id ∈ out.requeue ∨ (out.inflight.get id).isSome = true ∨
      node.hasReceipt s = true ∨ ∃ reason retryCount,
        out.db = .transition id .failed (failOptions reason retryCount) := by
  have next : ∀ {l : List Settlement}, id ∈ l.map Settlement.id → out.pc = (recoveryNext l).1 →
      (recoveryNext l).2 ⊆ out.requeue → out.pc.before id ∨ id ∈ out.requeue := by
    intro l hid hpc hsub
    rw [RecoveryPc.before, hpc]
    exact (recoveryNext_keeps hid).imp (fun hleft => .inr (.inr hleft)) fun hq => hsub hq
  cases pc <;> cases e <;> simp only [recoveryStep, reduceCtorEq] at hout
  case fetchNonce.counted =>
    cases hout
    exact .inl (.inr (.inl rfl))
  case find.found =>
    cases hout
    have hid := Db.id_of_findById hs
    have hsub := Db.found_by_status hs (List.mem_singleton.mpr hstatus)
    have hmem := List.mem_map_of_mem (f := Settlement.id) hsub
    exact (next (hid ▸ hmem) rfl (List.Subset.refl _)).imp_right .inl
  case receipt.receipt t rest =>
    have hmem := hbefore.mem_rows rfl
    split at hout
    · rename_i receipt hreceipt
      split_ifs at hout <;> cases hout
      · rcases List.mem_cons.mp hmem with rfl | hrest
        · refine .inr (.inr (.inr (.inl ?_)))
          rw [Node.hasReceipt, hcurrent t List.mem_cons_self rfl, hreceipt]
          rfl
        · exact (next hrest rfl (List.Subset.refl _)).imp_right .inl
      · exact .inl (.inr (.inr hmem))
    · cases hout
      exact .inl (.inr (.inr hmem))
  case fail.written t rest =>
    have hmem := hbefore.mem_rows rfl
    split_ifs at hout
    cases hout
    rcases List.mem_cons.mp hmem with rfl | hrest
    · exact .inr (.inr (.inr (.inr ⟨_, _, rfl⟩)))
    · exact (next hrest rfl (List.Subset.refl _)).imp_right .inl
  case getTransaction.txLookup t rest =>
    have hmem := hbefore.mem_rows rfl
    split at hout <;> cases hout
    · rcases List.mem_cons.mp hmem with rfl | hrest
      · exact .inr (.inr (.inl (Inflight.get_set_self _ (trackedTx t _ now))))
      · exact (next hrest rfl (List.Subset.refl _)).imp_right .inl
    · rcases List.mem_cons.mp hmem with rfl | hrest
      · exact .inr (.inl List.mem_cons_self)
      · exact (next hrest rfl (List.subset_cons_self _ _)).imp_right .inl

theorem recovering_step (hawake : σ.relayer.draining = true → σ.relayer.recovery = .done)
    (hcurrent : ∀ t ∈ σ.relayer.recovery.rows, t.id = id → s.txHash = t.txHash)
    (hs : σ.db.findById id = some s) (hstatus : s.status = .submitted)
    (h : step cfg σ ev = some σ') (hs' : σ'.db.findById id = some s')
    (hstatus' : s'.status = .submitted) (hbefore : σ.relayer.recovery.before id) :
    σ'.relayer.recovery.before id ∨ id ∈ σ'.relayer.jobs ∨ σ'.tracked id = true ∨
      σ.node.hasReceipt s = true := by
  by_cases hcrash : ev = .crash
  · subst hcrash
    cases stepsTo h
    exact .inl (.inl rfl)
  rcases step_recovery h hcrash with ⟨e, rfl⟩ | hsame
  · cases stepsTo h with
    | @recover _ out hout =>
      have hpc : (σ.afterRecovery out).relayer.recovery = out.pc :=
        (Relayer.frame_foldl_enqueueId out.requeue).2.2
      have hinflight : (σ.afterRecovery out).relayer.inflight = out.inflight :=
        Relayer.inflight_foldl_enqueueId out.requeue
      rcases recoveryStep_keeps hs hstatus hcurrent hbefore hout with
        hleft | hqueued | hset | hmined | ⟨reason, retryCount, hdb⟩
      · exact .inl (hpc ▸ hleft)
      · refine .inr (.inl ?_)
        have hnot : ¬σ.relayer.draining = true := fun hd => by
          rw [hawake hd, RecoveryPc.before] at hbefore
          simp [RecoveryPc.rows] at hbefore
        have hjobs : (σ.afterRecovery out).relayer.jobs = σ.relayer.jobs ++ out.requeue :=
          (Relayer.jobs_foldl_enqueueId out.requeue).trans (if_neg hnot)
        exact hjobs ▸ List.mem_append_right _ hqueued
      · exact .inr (.inr (.inl (by rwa [State.tracked, hinflight])))
      · exact .inr (.inr (.inr hmined))
      · have hrow : (DbOp.apply σ.now σ.db (.transition id .failed
            (failOptions reason retryCount))).findById id = some s' := hdb ▸ hs'
        exact absurd hstatus' (not_submitted_of_failed hrow)
  · exact .inl (hsame.symm ▸ hbefore)

theorem tracked_of_storing (hclean : ev.errorFree = true) (hstores : σ.StoresTracked ev)
    (hunits : ∀ t ∈ SweepPc.rowsOf σ.relayer.sweep, (toBaseUnits t.amount).isSome = true)
    (h : step cfg σ ev = some σ') (hs' : σ'.db.findById id = some s')
    (hstatus' : s'.status = .submitted) (hstoring : σ.storing ev = some id) :
    σ'.tracked id = true := by
  have hcrash : ev ≠ .crash := by
    rintro rfl
    cases hstoring
  rcases entry_step hclean hcrash hunits h (hstores id hstoring).1 with hstill | hdropped
  · exact hstill
  · cases hdropped with
    | mined hev | failing hev | reverted hev =>
      subst hev
      cases hstoring
    | failed hdb => exact absurd hstatus' (not_submitted_of_failed (hdb ▸ hs'))

theorem coverage_inHand (hI : CoverageInv σ receipts) (hclean : ev.errorFree = true)
    (hstores : σ.StoresTracked ev) (hkeeps : σ.KeepsMined ev)
    (hunits : ∀ t ∈ SweepPc.rowsOf σ.relayer.sweep, (toBaseUnits t.amount).isSome = true)
    (hsent : ∀ id s, σ.db.findById id = some s → s.status = .submitted →
      (toBaseUnits s.amount).isSome = true)
    (h : step cfg σ ev = some σ') (hs' : σ'.db.findById id = some s')
    (hstatus' : s'.status = .submitted) : σ'.InHand s' := by
  have hid' := Db.id_of_findById hs'
  by_cases hcrash : ev = .crash
  · subst hcrash
    cases stepsTo h
    exact .recovering (.inl rfl)
  rcases submitted_before h hs' hstatus' with hstoring | ⟨hnot, s, hs, hstatus, hhash⟩
  · exact .tracked (hid' ▸ tracked_of_storing hclean hstores hunits h hs' hstatus' hstoring)
  have hid := Db.id_of_findById hs
  have stillMined : σ.node.hasReceipt s = true → σ'.InHand s' := fun hm => by
    rcases mined_step hkeeps hs hstatus h hm with hstill | htracked
    · exact .mined ((hasReceipt_congr σ'.node hhash) ▸ hstill)
    · exact .tracked (hid' ▸ htracked)
  cases hI.inHand id s hs hstatus with
  | tracked htracked =>
    rcases entry_step hclean hcrash hunits h (hid ▸ htracked) with hstill | hdropped
    · exact .tracked (hid' ▸ hstill)
    · cases hdropped with
      | @mined t rest _ hsweep ht hm =>
        have hahead : t ∈ σ.ahead :=
          List.mem_append_left _ (by rw [hsweep]; exact List.mem_cons_self)
        refine stillMined ?_
        rwa [hasReceipt_congr σ.node (hI.current t hahead s (ht ▸ hs) hstatus)]
      | failing _ hf => exact .failing (hid' ▸ hf)
      | failed hdb => exact absurd hstatus' (not_submitted_of_failed (hdb ▸ hs'))
      | reverted _ hr => exact .recovering (hid' ▸ hr)
  | mined hm => exact stillMined hm
  | job hjob =>
    rcases job_step hclean hs hstatus (hsent id s hs hstatus) hnot h hs' hstatus' (hid ▸ hjob) with
      hstill | hrec
    · exact .job (hid' ▸ hstill)
    · exact .recovering (hid' ▸ hrec)
  | recovering hrec =>
    have hcurrent : ∀ t ∈ σ.relayer.recovery.rows, t.id = id → s.txHash = t.txHash :=
      fun t ht htid => hI.current t (List.mem_append_right _ ht) s (htid ▸ hs) hstatus
    rcases recovering_step hI.awake hcurrent hs hstatus h hs' hstatus' (hid ▸ hrec) with
      hstill | hjob | htracked | hm
    · exact .recovering (hid' ▸ hstill)
    · exact .job (hid' ▸ hjob)
    · exact .tracked (hid' ▸ htracked)
    · exact stillMined hm
  | failing hf =>
    rcases failing_kept hclean h hs' hstatus' (hid ▸ hf) with hstill | hrec
    · exact .failing (hid' ▸ hstill)
    · exact .recovering (hid' ▸ hrec)

/-- A row for which a transaction is stored is behind every walk after the step. -/
theorem not_ahead_of_storing (hT : TrackingInv σ receipts) (hI : CoverageInv σ receipts)
    (hclean : ev.errorFree = true) (hstores : σ.StoresTracked ev) (h : step cfg σ ev = some σ')
    (hstoring : σ.storing ev = some id) : id ∉ σ'.ahead.map Settlement.id := by
  have hcrash : ev ≠ .crash := by
    rintro rfl
    cases hstoring
  have hrecovery : σ'.relayer.recovery = σ.relayer.recovery := by
    rcases step_recovery h hcrash with ⟨e, rfl⟩ | hsame
    · cases hstoring
    · exact hsame
  by_cases hev : ev.ofSweep = false
  · rw [State.ahead, step_sweep_same h hev hcrash, hrecovery]
    exact (hstores id hstoring).2 hev
  · cases stepsTo h with
    | startSweep => cases hstoring
    | @sweep pc e out hsweep hout =>
      have hdone := hI.recovered (by rw [hsweep]; rfl)
      cases e with
      | written o =>
        obtain rfl := errorFree_sweep_written hclean
        simp only [State.storing, hsweep] at hstoring
        split at hstoring
        · rename_i s rest tx hpc
          cases hpc
          cases hstoring
          simp only [sweepStep] at hout
          split_ifs at hout
          cases hout
          have hnodup := hT.ahead
          rw [hsweep] at hnodup
          have hfresh := (List.nodup_cons.mp hnodup).1
          intro hmem
          obtain ⟨t, ht, hid⟩ := List.mem_map.mp hmem
          rw [State.ahead, hrecovery, hdone] at ht
          rcases List.mem_append.mp ht with ht | ht
          · exact hfresh (List.mem_map.mpr ⟨t, (sweepNext_sublist rest).subset ht, hid⟩)
          · cases ht
        · cases hstoring
      | _ => cases hstoring
    | _ => exact absurd rfl hev

theorem current_step (hT : TrackingInv σ receipts) (hI : CoverageInv σ receipts)
    (hclean : ev.errorFree = true) (hstores : σ.StoresTracked ev) (h : step cfg σ ev = some σ')
    (ht : t ∈ σ'.ahead) (hs' : σ'.db.findById t.id = some s') (hstatus' : s'.status = .submitted) :
    s'.txHash = t.txHash := by
  rcases submitted_before h hs' hstatus' with hstoring | ⟨-, s, hs, hstatus, hhash⟩
  · exact absurd (List.mem_map_of_mem ht) (not_ahead_of_storing hT hI hclean hstores h hstoring)
  · rw [← hhash]
    have hbefore : t ∈ σ.ahead ∨ t ∈ σ.db.findByStatuses [.submitted] := by
      rcases List.mem_append.mp ht with ht | ht
      · exact (step_sweep_rows h ht).imp_left (List.mem_append_left _)
      · exact (step_recovery_rows h ht).imp_left (List.mem_append_right _)
    rcases hbefore with hold | hread
    · exact hI.current t hold s hs hstatus
    · obtain rfl := Option.some.inj (hs.symm.trans (Db.mem_findByStatuses.mp hread).1)
      rfl

theorem recovered_step (hI : CoverageInv σ receipts) (halone : σ.SweepsAlone ev)
    (h : step cfg σ ev = some σ') (hsweep' : σ'.relayer.sweep.isSome = true) :
    σ'.relayer.recovery = .done := by
  by_cases hcrash : ev = .crash
  · subst hcrash
    cases stepsTo h
    cases hsweep'
  have hmoves := step_sweep h
  generalize σ'.relayer.sweep = sweep' at hmoves hsweep'
  cases hmoves with
  | same => exact done_step (hI.recovered hsweep') hcrash h
  | start =>
    cases stepsTo h
    exact halone
  | crash => cases hsweep'
  | step hsweep => exact done_step (hI.recovered (by rw [hsweep]; rfl)) hcrash h

theorem awake_kept (hI : CoverageInv σ receipts) (halone : σ.SweepsAlone ev)
    (h : step cfg σ ev = some σ') (hdraining : σ'.relayer.draining = true) :
    σ'.relayer.recovery = .done := by
  have kept : ev ≠ .crash → σ.relayer.draining = true → σ'.relayer.recovery = .done :=
    fun hcrash hd => done_step (hI.awake hd) hcrash h
  cases stepsTo h with
  | crash => cases hdraining
  | drain => exact halone
  | @create i e call out =>
    exact kept nofun ((σ.frame_afterCreate i call out).2.2.symm.trans hdraining)
  | @job id pc e out => exact kept nofun ((σ.frame_afterJob id out).2.2.symm.trans hdraining)
  | @recover e out =>
    have hd : (σ.afterRecovery out).relayer.draining = σ.relayer.draining :=
      Relayer.draining_foldl_enqueueId out.requeue
    exact kept nofun (hd.symm.trans hdraining)
  | _ => exact kept nofun hdraining

theorem sweepNext_hashed {l : List Settlement}
    (h : ∀ t ∈ l, t.txHash.isSome = true ∧ t.nonce.isSome = true) :
    SweepPc.rowsOf (sweepNext l) = l := by
  cases l with
  | nil => rfl
  | cons t rest =>
    obtain ⟨hhash, hnonce⟩ := h t List.mem_cons_self
    rw [sweepNext, hhash, hnonce]
    rfl

theorem tracked_of_asked {rest : List Settlement} (hI : CoverageInv σ receipts)
    (halone : σ.SweepsAlone (.sweep .receipt)) (hsweep : σ.relayer.sweep = some (.receipt t rest))
    (hunmined : σ.node.hasReceipt t = false) (hs : σ.db.findById t.id = some s)
    (hstatus : s.status = .submitted) : σ.tracked t.id = true := by
  have hid := Db.id_of_findById hs
  cases hI.inHand t.id s hs hstatus with
  | tracked h => exact hid ▸ h
  | mined h =>
    have hahead : t ∈ σ.ahead := List.mem_append_left _ (by rw [hsweep]; exact List.mem_cons_self)
    rw [hasReceipt_congr σ.node (hI.current t hahead s hs hstatus), hunmined] at h
    cases h
  | job h =>
    refine absurd (hid ▸ h) (halone t ?_)
    rw [hsweep]
    rfl
  | recovering h =>
    rw [hI.recovered (by rw [hsweep]; rfl)] at h
    rcases h with h | h | h <;> cases h
  | failing h =>
    obtain ⟨_, _, _, _, hfail, -⟩ := h
    rw [hsweep] at hfail
    cases hfail

theorem ahead_of_found (hc : Custody σ) (hs : σ.db.findById id = some s)
    (hstatus : s.status = .submitted) :
    id ∈ (SweepPc.rowsOf (sweepNext (σ.db.findByStatuses [.submitted]))).map Settlement.id := by
  have hid := Db.id_of_findById hs
  have hsub := Db.found_by_status hs (List.mem_singleton.mpr hstatus)
  rw [sweepNext_hashed fun t ht => ?_, ← hid]
  · exact List.mem_map_of_mem hsub
  · obtain ⟨hrow, hsubmitted⟩ := Db.mem_findByStatuses.mp ht
    exact ((hc.columns _ t hrow).sent (.inl (List.mem_singleton.mp hsubmitted))).symm

/-- A step of a sweep leaves a row behind only when it is tracked or was read as mined. -/
theorem ahead_step {pc : SweepPc} {e : SweepEvent} {out : SweepOut} (hc : Custody σ)
    (hI : CoverageInv σ receipts) (halone : σ.SweepsAlone (.sweep e))
    (hsweep : σ.relayer.sweep = some pc) (hclean : SweepClean σ pc e out)
    (hs : σ.db.findById id = some s) (hstatus : s.status = .submitted)
    (hs' : (out.db.apply σ.now σ.db).findById id = some s') (hstatus' : s'.status = .submitted)
    (hnot : σ.storing (.sweep e) ≠ some id) (hahead : id ∈ pc.rows.map Settlement.id) :
    (out.inflight.get id).isSome = true ∨ pc.readMined σ.node e = some id ∨
      id ∈ (SweepPc.rowsOf out.pc).map Settlement.id := by
  have passed : ∀ {t : Settlement} {rest : List Settlement}, pc.rows = t :: rest → t.id ≠ id →
      id ∈ (SweepPc.rowsOf (sweepNext rest)).map Settlement.id := by
    intro t rest hrows hne
    have hashed : ∀ u ∈ rest, u.txHash.isSome = true ∧ u.nonce.isSome = true := fun u hu =>
      (hc.walked u (walks_of_sweep hsweep (hrows ▸ List.mem_cons_of_mem _ hu))).symm
    rw [hrows] at hahead
    rw [sweepNext_hashed hashed]
    exact (List.mem_cons.mp hahead).resolve_left (Ne.symm hne)
  cases hclean with
  | found hpc =>
    subst hpc
    cases hahead
  | @mined t rest hpc hm =>
    subst hpc
    by_cases ht : t.id = id
    · exact .inr (.inl (ht ▸ if_pos hm))
    · exact .inr (.inr (passed rfl ht))
  | @waits t rest hpc hm =>
    subst hpc
    by_cases ht : t.id = id
    · subst ht
      exact .inl (tracked_of_asked hI halone hsweep hm hs hstatus)
    · exact .inr (.inr (passed rfl ht))
  | givesUp hpc =>
    subst hpc
    exact .inr (.inr hahead)
  | stays hrows hpc hrows' =>
    refine .inr (.inr ?_)
    rwa [hpc, SweepPc.rowsOf, Option.elim, hrows', ← hrows]
  | @recorded t rest tx hpc =>
    subst hpc
    refine .inr (.inr (passed rfl fun ht => hnot ?_))
    simp only [State.storing, hsweep, DbOutcome.committed, if_true, ht]
  | @failed t rest reason retryCount hpc =>
    subst hpc
    refine .inr (.inr (passed rfl ?_))
    rintro rfl
    exact not_submitted_of_failed hs' hstatus'

theorem swept_sweep {e : SweepEvent} (hc : Custody σ) (hI : CoverageInv σ receipts)
    (hclean : (Event.sweep e).errorFree = true) (halone : σ.SweepsAlone (.sweep e))
    (hunits : ∀ t ∈ SweepPc.rowsOf σ.relayer.sweep, (toBaseUnits t.amount).isSome = true)
    (h : step cfg σ (.sweep e) = some σ') (hs : σ.db.findById id = some s)
    (hstatus : s.status = .submitted) (hs' : σ'.db.findById id = some s')
    (hstatus' : s'.status = .submitted) (hnot : σ.storing (.sweep e) ≠ some id) :
    σ'.relayer.Swept (readReceipts σ (.sweep e) receipts) id := by
  have hentry : σ.tracked id = true → σ'.tracked id = true ∨ Dropped σ (.sweep e) σ' id :=
    entry_step hclean nofun hunits h
  cases stepsTo h with
  | @sweep pc _ out hsweep hout =>
    have hread : id ∈ readReceipts σ (.sweep e) receipts ↔
        pc.readMined σ.node e = some id ∨ id ∈ receipts := mem_readReceipts_sweep hsweep
    rw [hsweep] at hunits
    have hsteps := sweepStep_clean hclean hunits hout
    rcases hI.swept (by rw [hsweep]; rfl) id s hs hstatus with htracked | hold | hfind | hahead
    · rcases hentry htracked with hstill | hdropped
      · exact .inl hstill
      · cases hdropped with
        | mined hev hsweep' ht hm =>
          cases hev
          rw [hsweep] at hsweep'
          cases hsweep'
          exact .inr (.inl (hread.mpr (.inl (ht ▸ if_pos hm))))
        | failing _ hf =>
          obtain ⟨t, rest, reason, retryCount, hpc, rfl⟩ := hf
          refine .inr (.inr (.inr ?_))
          rw [hpc]
          exact List.mem_cons_self
        | failed hdb => exact absurd hstatus' (not_submitted_of_failed (hdb ▸ hs'))
        | reverted hev => cases hev
    · exact .inr (.inl (hread.mpr (.inr hold)))
    · rw [hsweep] at hfind
      cases hfind
      cases hsteps with
      | found => exact .inr (.inr (.inr (ahead_of_found hc hs hstatus)))
      | stays hrows => cases hrows
      | mined hpc | waits hpc | givesUp hpc | recorded hpc | failed hpc => cases hpc
    · rw [hsweep] at hahead
      rcases ahead_step hc hI halone hsweep hsteps hs hstatus hs' hstatus' hnot hahead with
        hset | hmined | hleft
      · exact .inl hset
      · exact .inr (.inl (hread.mpr (.inl hmined)))
      · exact .inr (.inr (.inr hleft))

theorem swept_step (hc : Custody σ) (hI : CoverageInv σ receipts)
    (hclean : ev.errorFree = true) (hstores : σ.StoresTracked ev) (halone : σ.SweepsAlone ev)
    (hunits : ∀ t ∈ SweepPc.rowsOf σ.relayer.sweep, (toBaseUnits t.amount).isSome = true)
    (h : step cfg σ ev = some σ') (hsweep' : σ'.relayer.sweep.isSome = true ∨ ∃ e, ev = .sweep e)
    (hs' : σ'.db.findById id = some s') (hstatus' : s'.status = .submitted) :
    σ'.relayer.Swept (readReceipts σ ev receipts) id := by
  rcases submitted_before h hs' hstatus' with hstoring | ⟨hnot, s, hs, hstatus, -⟩
  · exact .inl (tracked_of_storing hclean hstores hunits h hs' hstatus' hstoring)
  by_cases hstart : ev = .startSweep
  · subst hstart
    cases stepsTo h
    exact .inr (.inr (.inl rfl))
  by_cases hev : ∃ e, ev = .sweep e
  · obtain ⟨e, rfl⟩ := hev
    exact swept_sweep hc hI hclean halone hunits h hs hstatus hs' hstatus' hnot
  have hother : ev.ofSweep = false := by
    cases ev with
    | sweep e => exact absurd ⟨e, rfl⟩ hev
    | startSweep => exact absurd rfl hstart
    | _ => rfl
  have hsome' := hsweep'.resolve_right hev
  have hcrash : ev ≠ .crash := by
    rintro rfl
    cases stepsTo h
    cases hsome'
  have hsame := step_sweep_same h hother hcrash
  have hsome : σ.relayer.sweep.isSome = true := hsame ▸ hsome'
  rw [readReceipts_of_ne hother, Relayer.Swept, hsame]
  rcases hI.swept hsome id s hs hstatus with htracked | hrest
  · left
    rcases entry_step hclean hcrash hunits h htracked with hstill | hdropped
    · exact hstill
    · cases hdropped with
      | mined heq | failing heq => exact absurd ⟨_, heq⟩ hev
      | failed hdb => exact absurd hstatus' (not_submitted_of_failed (hdb ▸ hs'))
      | reverted heq =>
        -- the recovery is over before a sweep begins
        subst heq
        cases stepsTo h with | recover hout => ?_
        rw [hI.recovered hsome] at hout
        cases hout
  · exact .inr hrest

theorem coverageInv_step (hc : Custody σ) (hT : TrackingInv σ receipts)
    (hI : CoverageInv σ receipts) (hclean : ev.errorFree = true) (hstores : σ.StoresTracked ev)
    (hkeeps : σ.KeepsMined ev) (halone : σ.SweepsAlone ev)
    (hunits : ∀ t ∈ SweepPc.rowsOf σ.relayer.sweep, (toBaseUnits t.amount).isSome = true)
    (hsent : ∀ id s, σ.db.findById id = some s → s.status = .submitted →
      (toBaseUnits s.amount).isSome = true)
    (h : step cfg σ ev = some σ') : CoverageInv σ' (readReceipts σ ev receipts) where
  inHand _ _ hs' hstatus' := coverage_inHand hI hclean hstores hkeeps hunits hsent h hs' hstatus'
  current _ ht _ hs' hstatus' := current_step hT hI hclean hstores h ht hs' hstatus'
  swept hsweep' _ _ hs' hstatus' :=
    swept_step hc hI hclean hstores halone hunits h (.inl hsweep') hs' hstatus'
  recovered hsweep' := recovered_step hI halone h hsweep'
  awake hdraining := awake_kept hI halone h hdraining

theorem coverageInv_initial (cfg : Config) (base opening : ℕ) :
    CoverageInv (initial cfg base opening) [] where
  inHand _ _ hs hstatus := by
    rw [(findById_initial hs).1] at hstatus
    cases hstatus
  current _ ht := by cases ht
  swept hsweep := by cases hsweep
  recovered hsweep := by cases hsweep
  awake hdraining := by cases hdraining

theorem convertible_submitted {C : State → Event → Prop} {base opening : ℕ}
    (h : RailReach cfg C base opening σ) (id : SettlementId) (s : Settlement)
    (hs : σ.db.findById id = some s) (hstatus : s.status = .submitted) :
    (toBaseUnits s.amount).isSome = true := by
  obtain ⟨tx, htx⟩ := Option.isSome_iff_exists.mp
    (((custody_reach h).columns id s hs).sent (.inl hstatus)).2
  obtain ⟨r, hr, hunits⟩ := convertible_reach h id tx ((sentInv_reach h).hash id s tx hs htx)
  rwa [← Option.some.inj (hr.symm.trans hs)]

theorem coverageInv_reach {base opening : ℕ}
    (h : ReachUnder (watchedStep cfg) (fun p ev => ev.errorFree = true ∧ KeepsTracked p ev)
      (initial cfg base opening, []) (σ, receipts)) : CoverageInv σ receipts := by
  refine h.invariant (I := fun p => CoverageInv p.1 p.2) (coverageInv_initial cfg base opening) ?_
  rintro p ev p' hr hI ⟨hclean, -, -, hstores, hkeeps, halone⟩ hstep
  obtain ⟨hs, hmined⟩ := withHistory_eq_some.mp hstep
  have hrail : RailReach cfg (fun _ _ => True) base opening p.1 := hr.forget fun _ _ _ => trivial
  have hT : TrackingInv p.1 p.2 := trackingInv_reach hr
  exact hmined ▸ coverageInv_step (custody_reach hrail) hT hI hclean hstores hkeeps halone
    (fun _ ht => convertible_walked hrail ht) (convertible_submitted hrail) hs

end Rail
