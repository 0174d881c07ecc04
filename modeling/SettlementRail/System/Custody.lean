import SettlementRail.System.Carried
import SettlementRail.System.Writers

/-! Who has which settlement in hand. A `create` call holds the row it inserted until the
verdict is written; everything else the process works on has passed screening, and while a
settlement has no nonce at most one holder, queue slot or job has it. -/

namespace Rail
open Foundation

def SettlementStatus.screened : SettlementStatus → Bool
  | .received | .rejectedCompliance => false
  | _ => true

/-- A row other than the opening one that has been screened; it stays so. -/
def Db.Passed (db : Db) (id : SettlementId) : Prop :=
  id ≠ 0 ∧ ∃ s, db.findById id = some s ∧ s.status.screened = true

structure Settlement.ColumnsAgree (s : Settlement) : Prop where
  unsent : s.status = .received ∨ s.status = .rejectedCompliance ∨ s.status = .complianceApproved →
    s.nonce = none
  sent : s.status = .submitted ∨ s.status = .confirmed → s.nonce.isSome ∧ s.txHash.isSome

structure Db.Snapshot (db : Db) (t : Settlement) : Prop where
  ne_genesis : t.id ≠ 0
  row : ∃ s, db.findById t.id = some s ∧ s.status.screened = true ∧ s.amount = t.amount ∧
    s.toAddress = t.toAddress ∧ (t.nonce.isSome → s.nonce.isSome)

/-- Holders, queue slots and the running job that have a settlement. -/
def State.tokens (σ : State) (id : SettlementId) : ℕ :=
  σ.holders id + σ.relayer.jobs.count id

structure Custody (σ : State) : Prop where
  genesis : ∃ s, σ.db.findById 0 = some s ∧ s.status = .final
  held : ∀ call ∈ σ.creates, ∀ id, call.pc.held = some id →
    ∃ s, σ.db.findById id = some s ∧ s.status = .received
  jobs : ∀ id ∈ σ.relayer.jobs, σ.db.Passed id
  carried : ∀ t, σ.Carries t → σ.db.Snapshot t
  walked : ∀ t, σ.Walks t → t.nonce.isSome ∧ t.txHash.isSome
  worker : ∀ id pc v, σ.relayer.worker = some (id, pc) → pc.vars = some v →
    v.settlement.id = id ∧ toBaseUnits v.settlement.amount = some v.baseUnits
  columns : ∀ id s, σ.db.findById id = some s → s.ColumnsAgree
  tokens : ∀ id s, σ.db.findById id = some s → s.nonce = none → σ.tokens id ≤ 1

variable {cfg : Config} {σ σ' : State} {ev : Event} {op : DbOp} {t s : Settlement}
variable {id : SettlementId}

theorem onRow_of_ne {now : ℕ} {toStatus : SettlementStatus} {opts : TransitionOptions}
    (h : s.id ≠ id) : DbOp.onRow now (.transition id toStatus opts) s = s :=
  onRow_transition_of_not fun hid => h hid.1

theorem onRow_transition_cases (now : ℕ) (s : Settlement) (id : SettlementId)
    (toStatus : SettlementStatus) (opts : TransitionOptions) :
    DbOp.onRow now (.transition id toStatus opts) s = s ∨ (s.id = id ∧ opts.allows s.status = true ∧
      DbOp.onRow now (.transition id toStatus opts) s = s.withTransition toStatus opts now) := by
  by_cases h : s.id = id ∧ opts.allows s.status = true
  · exact .inr ⟨h.1, h.2, onRow_transition_of h.1 h.2⟩
  · exact .inl (onRow_transition_of_not h)

theorem Writes.nonce_isSome (hw : Writes σ ev op) (h : s.nonce.isSome) :
    (op.onRow σ.now s).nonce.isSome := by
  cases hw
  case resend => simp only [DbOp.onRow]; split_ifs <;> exact h
  case idle | insert | book => exact h
  all_goals
    rcases onRow_transition_cases _ s _ _ _ with heq | ⟨-, -, heq⟩ <;> rw [heq]
    · exact h
    · first | exact h | rfl

theorem Writes.screened (hw : Writes σ ev op) (hc : Custody σ) (hs : σ.db.findById s.id = some s)
    (h : s.status.screened = true) : (op.onRow σ.now s).status.screened = true := by
  cases hw
  case resend => simp only [DbOp.onRow]; split_ifs <;> exact h
  case idle | insert | book => exact h
  case reject i call id reason o r hcall hpc hrow ho =>
    rw [onRow_of_ne]
    · exact h
    · rintro rfl
      obtain ⟨r', hr', hrec⟩ := hc.held call (List.mem_of_getElem? hcall) s.id (by rw [hpc]; rfl)
      rw [hs] at hr'
      cases hr'
      simp [SettlementStatus.screened, hrec] at h
  all_goals
    rcases onRow_transition_cases _ s _ _ _ with heq | ⟨-, -, heq⟩ <;> rw [heq]
    · exact h
    · rfl

theorem Db.Snapshot.passed {db : Db} (h : db.Snapshot t) : db.Passed t.id :=
  have ⟨s, hs, hscr, _⟩ := h.row
  ⟨h.ne_genesis, s, hs, hscr⟩

theorem Relayer.mem_jobs_of_worker {r : Relayer} {pc : JobPc} (h : r.worker = some (id, pc)) :
    id ∈ r.jobs := by
  simp [jobs, h]

theorem Writes.writer (hw : Writes σ ev op) (hc : Custody σ) :
    op.onRow σ.now s = s ∨ σ.db.Passed s.id ∨ ∃ i call o, ev = .create i (.written o) ∧
      σ.creates[i]? = some call ∧ call.pc.held = some s.id := by
  have walked : ∀ {t}, σ.Walks t → ∀ {toStatus opts},
      DbOp.onRow σ.now (.transition t.id toStatus opts) s = s ∨ σ.db.Passed s.id := by
    intro t ht toStatus opts
    rcases onRow_transition_cases σ.now s t.id toStatus opts with heq | ⟨hid, -, -⟩
    · exact .inl heq
    · exact .inr (hid ▸ (hc.carried t (.walk ht)).passed)
  cases hw with
  | idle => exact .inl rfl
  | insert => exact .inl rfl
  | book => exact .inl rfl
  | @reject i call id reason o r hcall hpc =>
    rcases onRow_transition_cases σ.now s id .rejectedCompliance (rejectOptions reason) with
      heq | ⟨rfl, -, -⟩
    · exact .inl heq
    · exact .inr (.inr ⟨i, call, o, rfl, hcall, by rw [hpc]; rfl⟩)
  | @approve i call id o r hcall hpc =>
    rcases onRow_transition_cases σ.now s id .complianceApproved {} with heq | ⟨rfl, -, -⟩
    · exact .inl heq
    · exact .inr (.inr ⟨i, call, o, rfl, hcall, by rw [hpc]; rfl⟩)
  | submitted hworker =>
    refine (onRow_transition_cases _ s _ _ _).imp_right fun ⟨hid, _⟩ => .inl ?_
    exact hid ▸ hc.jobs _ (Relayer.mem_jobs_of_worker hworker)
  | jobFail hworker =>
    refine (onRow_transition_cases _ s _ _ _).imp_right fun ⟨hid, _⟩ => .inl ?_
    exact hid ▸ hc.jobs _ (Relayer.mem_jobs_of_worker hworker)
  | @resend t rest tx o r hsweep =>
    by_cases hid : s.id = t.id
    · refine .inr (.inl (hid ▸ (hc.carried t (.walk (.sweep ?_))).passed))
      simp [hsweep, SweepPc.rowsOf, SweepPc.rows]
    · exact .inl (if_neg hid)
  | sweepFail hsweep =>
    exact (walked (.sweep (by simp [hsweep, SweepPc.rowsOf, SweepPc.rows]))).imp_right .inl
  | recoveryFail hrecovery =>
    exact (walked (.recovery (by simp [hrecovery, RecoveryPc.rows]))).imp_right .inl
  | revert hcall hpc | reorg hcall hpc | confirm hcall hpc | flip hcall hpc =>
    exact (walked (.listener (List.mem_of_getElem? hcall)
      (by simp [hpc, ListenPc.rows]))).imp_right .inl

theorem Writes.received (hw : Writes σ ev op) (hc : Custody σ)
    (hs : σ.db.findById s.id = some s) (h : s.status = .received) :
    op.onRow σ.now s = s ∨ ∃ i call o, ev = .create i (.written o) ∧ σ.creates[i]? = some call ∧
      call.pc.held = some s.id := by
  rcases hw.writer hc (s := s) with heq | ⟨-, r, hr, hscr⟩ | hverdict
  · exact .inl heq
  · rw [hs] at hr
    cases hr
    simp [h, SettlementStatus.screened] at hscr
  · exact .inr hverdict

theorem Writes.columnsAgree (hw : Writes σ ev op) (hc : Custody σ)
    (hs : σ.db.findById s.id = some s) : (op.onRow σ.now s).ColumnsAgree := by
  have hcol := hc.columns s.id s hs
  -- a verdict: the row it is written to is RECEIVED, so it has no nonce yet
  have verdict : ∀ {i : ℕ} {call : CreateCall}, σ.creates[i]? = some call →
      call.pc.held = some s.id → s.nonce = none := by
    intro i call hcall hheld
    obtain ⟨r, hr, hrec⟩ := hc.held call (List.mem_of_getElem? hcall) s.id hheld
    rw [hs] at hr
    cases hr
    exact hcol.unsent (.inl hrec)
  cases hw with
  | idle | insert | book => exact hcol
  | resend =>
    simp only [DbOp.onRow]
    split_ifs
    · exact ⟨hcol.unsent, fun h => ⟨(hcol.sent h).1, rfl⟩⟩
    · exact hcol
  | reject hcall hpc =>
    rcases onRow_transition_cases _ s _ _ _ with heq | ⟨hid, -, heq⟩ <;> rw [heq]
    · exact hcol
    · exact ⟨fun _ => verdict hcall (by rw [hpc, hid]; rfl),
        by simp [Settlement.withTransition]⟩
  | approve hcall hpc =>
    rcases onRow_transition_cases _ s _ _ _ with heq | ⟨hid, -, heq⟩ <;> rw [heq]
    · exact hcol
    · exact ⟨fun _ => verdict hcall (by rw [hpc, hid]; rfl),
        by simp [Settlement.withTransition]⟩
  | submitted =>
    rcases onRow_transition_cases _ s _ _ _ with heq | ⟨-, -, heq⟩ <;> rw [heq]
    · exact hcol
    · exact ⟨by simp [Settlement.withTransition], fun _ => ⟨rfl, rfl⟩⟩
  | jobFail | sweepFail | recoveryFail | revert | flip =>
    rcases onRow_transition_cases _ s _ _ _ with heq | ⟨-, -, heq⟩ <;> rw [heq]
    · exact hcol
    · exact ⟨by simp [Settlement.withTransition], by simp [Settlement.withTransition]⟩
  | reorg =>
    rcases onRow_transition_cases _ s _ _ _ with heq | ⟨-, hallow, heq⟩ <;> rw [heq]
    · exact hcol
    · have hst : s.status = .confirmed := by
        simpa [TransitionOptions.allows, reorgOptions] using hallow
      exact ⟨by simp [Settlement.withTransition], fun _ => hcol.sent (.inr hst)⟩
  | @confirm i call t receipt head rest o r hcall hpc =>
    rcases onRow_transition_cases _ s _ _ _ with heq | ⟨-, hallow, heq⟩ <;> rw [heq]
    · exact hcol
    · have hst : s.status = .submitted := by
        simpa [TransitionOptions.allows, confirmOptions] using hallow
      have ht := hc.walked t (.listener (List.mem_of_getElem? hcall) (by simp [hpc, ListenPc.rows]))
      exact ⟨by simp [Settlement.withTransition], fun _ => ⟨(hcol.sent (.inl hst)).1, ht.2⟩⟩

theorem holders_afterCreate {i : ℕ} {call : CreateCall} (out : CreateOut)
    (hcall : σ.creates[i]? = some call) (id : SettlementId) :
    (σ.afterCreate i call out).holders id + (if call.pc.held = some id then 1 else 0) =
      σ.holders id + (if out.pc.held = some id then 1 else 0) := by
  simpa [State.holders, State.afterCreate] using
    countP_set_add (p := fun call => decide (call.pc.held = some id))
      (b := { call with pc := out.pc }) hcall

/-- Tokens only grow by an insert, which makes one for a new row, and by the recovery, which
re-queues rows that have a nonce. -/
theorem step_tokens (h : step cfg σ ev = some σ') (id : SettlementId) :
    σ'.tokens id ≤ σ.tokens id ∨
      (σ.db.findById id = none ∧ σ'.tokens id ≤ σ.tokens id + 1) ∨
      ∃ t, (t ∈ σ.relayer.recovery.rows ∨ t ∈ σ.db.findByStatuses [.submitted]) ∧ t.id = id := by
  have hjobs := step_jobs h
  cases stepsTo h with
  | @create i e call out hcall hout =>
    have hcount := holders_afterCreate out hcall id
    have hsame : out.enqueue = none →
        (σ.afterCreate i call out).relayer.jobs.count id = σ.relayer.jobs.count id := fun henq => by
      rw [State.afterCreate, henq]
      rfl
    simp only [State.tokens]
    cases createStep_holds hout with
    | keep _ hheld henq =>
      rw [hheld] at hcount
      exact .inl (by have := hsame henq; omega)
    | @insert k db' _ hpc hnew hpc' hop henq =>
      have := hsame henq
      by_cases hk : k = id
      · have hnone : σ.db.findById k = none := Db.findById_none_of_create hnew
        refine .inr (.inl ⟨hk ▸ hnone, ?_⟩)
        split_ifs at hcount <;> omega
      · have hheld : out.pc.held ≠ some id := by simpa [hpc', CreatePc.held] using hk
        rw [if_neg hheld] at hcount
        exact .inl (by omega)
    | reject hpc hheld _ henq =>
      have := hsame henq
      simp only [hheld, reduceCtorEq, if_false] at hcount
      exact .inl (by omega)
    | @approve k o _ hpc hheld _ henq hrow =>
      have hheld₀ : call.pc.held = some k := by rw [hpc]; rfl
      simp only [hheld₀, Option.some.injEq, hheld, reduceCtorEq, if_false] at hcount
      cases o with
      | ok =>
        have hline : (σ.afterCreate i call out).relayer.jobs =
            if σ.relayer.draining then σ.relayer.jobs else σ.relayer.jobs ++ [k] := by
          rw [State.afterCreate, henq, enqueueAfter, Option.elim, Relayer.jobs_enqueueId]
        rw [hline]
        refine .inl ?_
        split_ifs
        · omega
        · rw [List.count_append, List.count_singleton']
          omega
      | lost | ambiguous => exact .inl (by have := hsame henq; omega)
  | crash => exact .inl (by simp [State.tokens, State.holders, State.crashed, Relayer.jobs])
  | submit => exact .inl (by simp [State.tokens, State.holders, CreatePc.held])
  | @job k pc e out hworker hout =>
    refine .inl (Nat.add_le_add_left ?_ _)
    generalize (σ.afterJob k out).relayer.jobs = jobs at hjobs ⊢
    cases hjobs with
    | same => exact le_rfl
    | ended _ _ hline =>
      rw [hline]
      exact List.count_le_count_cons
  | @recover e out hout =>
    by_cases hk : id ∈ out.requeue
    · exact .inr (.inr ((recoveryStep_rows hout).2 id hk))
    · refine .inl (Nat.add_le_add_left ?_ _)
      rw [State.afterRecovery, Relayer.jobs_foldl_enqueueId]
      split_ifs
      · exact le_rfl
      · rw [List.count_append, List.count_eq_zero_of_not_mem hk]
        exact le_rfl
  | _ => exact .inl le_rfl

theorem passed_step (hc : Custody σ) (h : step cfg σ ev = some σ') (hp : σ.db.Passed id) :
    σ'.db.Passed id := by
  obtain ⟨op, hw, hdb⟩ := step_db h
  obtain ⟨hne, s, hs, hscr⟩ := hp
  have hid := Db.id_of_findById hs
  rw [hdb]
  exact ⟨hne, _, findById_apply hs, hw.screened hc (by rwa [hid]) hscr⟩

theorem snapshot_step (hc : Custody σ) (h : step cfg σ ev = some σ') (ht : σ.db.Snapshot t) :
    σ'.db.Snapshot t := by
  obtain ⟨op, hw, hdb⟩ := step_db h
  obtain ⟨hne, s, hs, hscr, hamount, hto, hnonce⟩ := ht
  have hid := Db.id_of_findById hs
  rw [hdb]
  exact ⟨hne, _, findById_apply hs, hw.screened hc (by rwa [hid]) hscr,
    onRow_amount.trans hamount, onRow_toAddress.trans hto, fun hn => hw.nonce_isSome (hnonce hn)⟩

theorem snapshot_of_read (hc : Custody σ) (hrow : σ.db.findById t.id = some t)
    (hstatus : t.status = .complianceApproved ∨ t.status = .submitted ∨ t.status = .confirmed) :
    σ.db.Snapshot t := by
  refine ⟨fun hid => ?_, t, hrow, ?_, rfl, rfl, id⟩
  · obtain ⟨g, hg, hfinal⟩ := hc.genesis
    rw [hid, hg] at hrow
    cases hrow
    simp [hfinal] at hstatus
  · rcases hstatus with h | h | h <;> rw [h] <;> rfl

theorem custody_genesis (hc : Custody σ) (h : step cfg σ ev = some σ') :
    ∃ s, σ'.db.findById 0 = some s ∧ s.status = .final := by
  obtain ⟨op, hw, hdb⟩ := step_db h
  obtain ⟨g, hg, hfinal⟩ := hc.genesis
  have hid := Db.id_of_findById hg
  refine ⟨_, hdb ▸ findById_apply hg, ?_⟩
  rcases hw.writer hc (s := g) with heq | ⟨hne, -⟩ | ⟨i, call, o, -, hcall, hheld⟩
  · rw [heq, hfinal]
  · exact absurd hid hne
  · obtain ⟨r, hr, hrec⟩ := hc.held call (List.mem_of_getElem? hcall) _ hheld
    rw [hid, hg] at hr
    cases hr
    simp [hfinal] at hrec

theorem step_held (h : step cfg σ ev = some σ') {call : CreateCall} (hcall : call ∈ σ'.creates)
    (hheld : call.pc.held = some id) :
    (∃ call ∈ σ.creates, call.pc.held = some id) ∨
      (σ.db.findById id = none ∧ ∃ s, σ'.db.findById id = some s ∧ s.status = .received) := by
  cases stepsTo h with
  | @create i e c out hc hout =>
    rcases List.mem_or_eq_of_mem_set hcall with hcall | rfl
    · exact .inl ⟨call, hcall, hheld⟩
    · cases createStep_holds hout with
      | keep _ hkeep => exact .inl ⟨c, List.mem_of_getElem? hc, hkeep ▸ hheld⟩
      | @insert k db' _ hpc hnew hpc' hop =>
        rw [hpc'] at hheld
        cases hheld
        refine .inr ⟨Db.findById_none_of_create hnew, c.dto.row id σ.now, ?_, rfl⟩
        rw [State.afterCreate, hop, DbOp.apply, hnew, Option.getD, Db.findById_create hnew]
        exact if_pos rfl
      | reject _ hnone => simp [hnone] at hheld
      | approve _ hnone => simp [hnone] at hheld
  | submit =>
    rcases List.mem_append.mp hcall with hcall | hcall
    · exact .inl ⟨call, hcall, hheld⟩
    · rw [List.mem_singleton.mp hcall] at hheld
      cases hheld
  | crash => cases hcall
  | _ => exact .inl ⟨call, hcall, hheld⟩

theorem holders_pos {call : CreateCall} (hcall : call ∈ σ.creates)
    (hheld : call.pc.held = some id) : 0 < σ.holders id :=
  List.countP_pos_iff.mpr ⟨call, hcall, by simpa using hheld⟩

theorem custody_held (hc : Custody σ) (h : step cfg σ ev = some σ') {call : CreateCall}
    (hcall : call ∈ σ'.creates) (hheld : call.pc.held = some id) :
    ∃ s, σ'.db.findById id = some s ∧ s.status = .received := by
  obtain ⟨op, hw, hdb⟩ := step_db h
  rcases step_held h hcall hheld with ⟨c, hc₀, hheld₀⟩ | ⟨-, hnew⟩
  swap
  · exact hnew
  obtain ⟨s, hs, hrec⟩ := hc.held c hc₀ id hheld₀
  obtain rfl := Db.id_of_findById hs
  rcases hw.received hc hs hrec with heq | ⟨i, c₁, o, rfl, hc₁, hheld₁⟩
  · exact ⟨_, hdb ▸ findById_apply hs, heq.symm ▸ hrec⟩
  -- the verdict was written by the only holder, which holds nothing any more
  · exfalso
    have hone := hc.tokens _ s hs ((hc.columns _ s hs).unsent (.inl hrec))
    have hpos := holders_pos hcall hheld
    cases stepsTo h with
    | @create _ _ c₂ out hc₂ hout =>
      obtain rfl := Option.some.inj (hc₁.symm.trans hc₂)
      have hcount := holders_afterCreate out hc₂ s.id
      rw [if_pos hheld₁, if_neg ?_] at hcount
      · simp only [State.tokens] at hone
        omega
      · cases createStep_holds hout with
        | keep hev => exact absurd rfl (hev o)
        | reject _ hnone => simp [hnone]
        | approve _ hnone => simp [hnone]

theorem passed_of_read (hc : Custody σ) (ht : t ∈ σ.db.findByStatuses [.submitted]) :
    σ.db.Passed t.id := by
  rw [Db.mem_findByStatuses, List.mem_singleton] at ht
  exact (snapshot_of_read hc ht.1 (.inr (.inl ht.2))).passed

theorem custody_jobs (hc : Custody σ) (h : step cfg σ ev = some σ') (hid : id ∈ σ'.relayer.jobs) :
    σ'.db.Passed id := by
  have hjobs := step_jobs h
  have hold : id ∈ σ.relayer.jobs → σ'.db.Passed id := fun hid => passed_step hc h (hc.jobs id hid)
  generalize hline : σ'.relayer.jobs = jobs at hjobs hid
  cases hjobs with
  | same => exact hold hid
  | crash => cases hid
  | ended _ _ hcons => exact hold (hcons ▸ List.mem_cons_of_mem _ hid)
  | requeue hids =>
    split_ifs at hid
    · exact hold hid
    · rcases List.mem_append.mp hid with hid | hid
      · exact hold hid
      · obtain ⟨t, ht, rfl⟩ := hids id hid
        refine passed_step hc h (ht.elim (fun ht => ?_) (passed_of_read hc))
        exact (hc.carried t (.walk (.recovery ht))).passed
  | @enqueue i call k hcall hpc hrow =>
    split_ifs at hid
    · exact hold hid
    rcases List.mem_append.mp hid with hid | hid
    · exact hold hid
    -- the job just enqueued: its row was RECEIVED and is COMPLIANCE_APPROVED now
    obtain rfl := List.mem_singleton.mp hid
    obtain ⟨s, hs, hrec⟩ := hc.held call (List.mem_of_getElem? hcall) id (by rw [hpc]; rfl)
    refine ⟨fun h0 => ?_, ?_⟩
    · obtain ⟨g, hg, hfinal⟩ := hc.genesis
      rw [h0, hg] at hs
      cases hs
      simp [hfinal] at hrec
    · cases stepsTo h with
      | @create _ _ c out hcall' hout =>
        obtain rfl := Option.some.inj (hcall.symm.trans hcall')
        refine ⟨_, findById_apply hs, ?_⟩
        cases createStep_holds hout with
        | keep hev => exact absurd rfl (hev .ok)
        | reject hpc' => simp [hpc] at hpc'
        | approve hpc' _ hop =>
          rw [hpc] at hpc'
          cases hpc'
          rw [hop, DbOutcome.commits, onRow_transition_of (Db.id_of_findById hs) rfl]
          rfl

theorem tokens_of_none (hc : Custody σ) (hnone : σ.db.findById id = none) : σ.tokens id = 0 := by
  have hjobs : id ∉ σ.relayer.jobs := fun hid => by
    obtain ⟨-, s, hs, -⟩ := hc.jobs id hid
    simp [hnone] at hs
  have hheld : σ.holders id = 0 := List.countP_eq_zero.mpr fun call hcall hheld => by
    obtain ⟨s, hs, -⟩ := hc.held call hcall id (by simpa using hheld)
    simp [hnone] at hs
  rw [State.tokens, hheld, List.count_eq_zero_of_not_mem hjobs]

theorem requeued_nonce (hc : Custody σ)
    (ht : t ∈ σ.relayer.recovery.rows ∨ t ∈ σ.db.findByStatuses [.submitted])
    (hs : σ.db.findById t.id = some s) : s.nonce.isSome := by
  rcases ht with ht | ht
  · obtain ⟨r, hr, -, -, -, hnonce⟩ := (hc.carried t (.walk (.recovery ht))).row
    rw [hs] at hr
    cases hr
    exact hnonce (hc.walked t (.recovery ht)).1
  · rw [Db.mem_findByStatuses, List.mem_singleton, hs] at ht
    cases ht.1
    exact ((hc.columns _ _ hs).sent (.inl ht.2)).1

theorem custody_tokens (hc : Custody σ) (h : step cfg σ ev = some σ')
    (hs : σ'.db.findById id = some s) (hnone : s.nonce = none) : σ'.tokens id ≤ 1 := by
  obtain ⟨op, hw, hdb⟩ := step_db h
  rw [hdb] at hs
  have htokens := step_tokens h id
  rcases findById_apply_cases hs with ⟨r, hr, rfl⟩ | ⟨hfresh, -, -⟩
  · have hrnone : r.nonce = none := by
      rw [← Option.not_isSome_iff_eq_none] at hnone ⊢
      exact fun hsome => hnone (hw.nonce_isSome hsome)
    have hone := hc.tokens id r hr hrnone
    rcases htokens with hle | ⟨hfresh, -⟩ | ⟨t, ht, rfl⟩
    · omega
    · simp [hr] at hfresh
    · have := requeued_nonce hc ht hr
      simp [hrnone] at this
  · have hzero := tokens_of_none hc hfresh
    rcases htokens with hle | ⟨-, hle⟩ | ⟨t, ht | ht, rfl⟩
    · omega
    · omega
    · obtain ⟨r, hr, -⟩ := (hc.carried t (.walk (.recovery ht))).row
      simp [hfresh] at hr
    · rw [Db.mem_findByStatuses, hfresh] at ht
      simp at ht

theorem custody_step (hc : Custody σ) (h : step cfg σ ev = some σ') : Custody σ' where
  genesis := custody_genesis hc h
  held _ hcall _ hheld := custody_held hc h hcall hheld
  jobs _ hid := custody_jobs hc h hid
  carried t ht := by
    refine snapshot_step hc h ?_
    rcases step_carries h ht with ht | ⟨hrow, hstatus⟩
    · exact hc.carried t ht
    · exact snapshot_of_read hc hrow hstatus
  walked t ht := by
    rcases step_walks h ht with ht | ⟨hrow, hstatus⟩
    · exact hc.walked t ht
    · exact (hc.columns _ _ hrow).sent hstatus
  worker id pc v hworker hv := by
    rcases step_job_vars h hworker hv with ⟨pc₀, v₀, hworker₀, hv₀, hjob⟩ | ⟨s, hs, -, hstart⟩
    · rw [hjob.settlement, hjob.baseUnits]
      exact hc.worker id pc₀ v₀ hworker₀ hv₀
    · obtain ⟨rfl, hunits, -⟩ := startJob_some hstart
      exact ⟨Db.id_of_findById hs, hunits⟩
  columns id s hs := by
    obtain ⟨op, hw, hdb⟩ := step_db h
    rw [hdb] at hs
    rcases findById_apply_cases hs with ⟨r, hr, rfl⟩ | ⟨-, rfl, -⟩
    · exact hw.columnsAgree hc (by rwa [Db.id_of_findById hr])
    · cases hw
      exact ⟨fun _ => rfl, by simp [CreateSettlementDto.row]⟩
  tokens _ _ hs hnone := custody_tokens hc h hs hnone

theorem not_walks_initial (cfg : Config) (base opening : ℕ) :
    ¬(initial cfg base opening).Walks t := by
  rintro (ht | ht | ⟨hc, -⟩)
  · cases ht
  · cases ht
  · cases hc

theorem custody_initial (cfg : Config) (base opening : ℕ) :
    Custody (initial cfg base opening) where
  genesis := ⟨genesisRow cfg.operator opening, rfl, rfl⟩
  held _ hcall := by cases hcall
  jobs _ hid := by cases hid
  carried t ht := by
    rcases ht with ⟨hworker, -⟩ | ht
    · cases hworker
    · exact absurd ht (not_walks_initial cfg base opening)
  walked t ht := absurd ht (not_walks_initial cfg base opening)
  worker _ _ _ hworker := by cases hworker
  columns id s hs := by
    rw [(findById_initial hs).1]
    exact ⟨fun _ => rfl, by simp [genesisRow]⟩
  tokens _ _ _ _ := Nat.zero_le 1

/-- Custody holds in every run, whatever condition the run is under. -/
theorem custody_reach {C : State → Event → Prop} {base opening : ℕ}
    (h : RailReach cfg C base opening σ) : Custody σ :=
  h.invariant (custody_initial cfg base opening) fun _ _ _ _ hc _ hs => custody_step hc hs

end Rail
