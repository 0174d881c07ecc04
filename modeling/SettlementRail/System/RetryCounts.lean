import SettlementRail.System.FreshJobs

/-! How often a settlement was broadcast, and the retry counts: in the variables of its job, and
in its row. -/

namespace Rail

variable {cfg : Config} {σ σ' : State} {ev : Event} {op : DbOp} {s : Settlement}
variable {id : SettlementId}

def Node.broadcasts (node : Node) (id : SettlementId) : ℕ :=
  node.accepted.countP fun a => a.sender = .settlement id

def Settlement.isOpen (s : Settlement) : Bool := s.status ∈ pendingStatuses

def State.atWork (σ : State) : Option SettlementId :=
  σ.relayer.worker.bind fun w => w.2.vars.map fun _ => w.1

/-- How far the broadcasts of a settlement may be ahead of its job's count. -/
def JobPc.slack : JobPc → ℕ
  | .writeSubmitted _ | .fail _ _ => 1
  | pc => pc.vars.elim 0 fun v => v.isResume.toNat

def JobEvent.accepted : JobEvent → Bool
  | .sent (.accepted _) => true
  | _ => false

/-- A move of a running job never takes a retry back, and counts what was accepted before. -/
structure JobCounts (max : ℕ) (pc : JobPc) (e : JobEvent) (pc' : JobPc) (v v' : JobVars) :
    Prop where
  sending : pc.sending = some v
  sent : e.accepted = true → pc = .broadcast v
  mono : v.retryCount ≤ v'.retryCount
  capped : pc'.sending = some v' → v'.retryCount = v.retryCount ∨ v'.retryCount ≤ max
  counts : ∀ n, n ≤ v.retryCount + pc.slack → (e.accepted = true → n ≤ v.retryCount) →
    n + e.accepted.toNat ≤ v'.retryCount + pc'.slack

theorem JobPc.slack_le (pc : JobPc) : pc.slack ≤ 1 := by
  cases pc with
  | find => exact Nat.zero_le 1
  | writeSubmitted | fail => exact le_rfl
  | _ v => exact Bool.toNat_le v.isResume

theorem JobVars.bumpIf_retryCount (v : JobVars) (reason : String) :
    (v.bumpIf reason).retryCount = v.retryCount := by
  unfold JobVars.bumpIf
  split_ifs <;> rfl

theorem caught_counts {rcfg : RelayerConfig} {localNonce : ℕ} {inflight : Inflight}
    {err : TxError} {pc pc' : JobPc} {e : JobEvent} {v v' : JobVars} (hv : pc.sending = some v)
    (hsent : e.accepted = true → pc = .broadcast v)
    (hpc' : (caught rcfg v err localNonce inflight).pc = some pc') (hv' : pc'.vars = some v') :
    JobCounts rcfg.maxRetries pc e pc' v v' := by
  have hslack := pc.slack_le
  -- the broadcast just accepted is counted by the retry
  have counts : ∀ n, n ≤ v.retryCount + pc.slack → (e.accepted = true → n ≤ v.retryCount) →
      n + e.accepted.toNat ≤ v.retryCount + 1 := by
    intro n hn haccepted
    rcases he : e.accepted
    · rw [Bool.toNat_false]
      omega
    · have hle := haccepted he
      rw [Bool.toNat_true]
      omega
  unfold caught caughtAs at hpc'
  split_ifs at hpc' with hperm hcap <;> cases hpc' <;> cases hv'
  · exact ⟨hv, hsent, le_rfl, fun h => (by cases h), counts⟩
  · refine ⟨hv, hsent, Nat.le_succ _, fun h => (by cases h), fun n hn haccepted => ?_⟩
    exact (counts n hn haccepted).trans (Nat.le_add_right _ _)
  · refine ⟨hv, hsent, Nat.le_succ _, fun _ => .inr (not_lt.mp hcap), fun n hn haccepted => ?_⟩
    exact (counts n hn haccepted).trans (Nat.le_add_right _ _)
  · have hcount := v.retried.bumpIf_retryCount (classifyTxError err).reason
    refine ⟨hv, hsent, hcount ▸ Nat.le_succ _, fun _ => .inr (hcount ▸ not_lt.mp hcap), ?_⟩
    intro n hn haccepted
    rw [hcount]
    exact (counts n hn haccepted).trans (Nat.le_add_right _ _)

theorem jobStep_counts {rcfg : RelayerConfig} {db : Db} {node : Node} {now localNonce : ℕ}
    {inflight : Inflight} {pc pc' : JobPc} {e : JobEvent} {out : JobOut} {v' : JobVars}
    (hout : jobStep rcfg db node now localNonce inflight id pc e = some out)
    (hpc' : out.pc = some pc') (hv' : pc'.vars = some v') :
    (∃ s, pc = .find ∧ e = .found ∧ pc' = .estimateGas v' ∧ db.findById id = some s ∧
      (s.status = .complianceApproved ∨ s.status = .submitted) ∧
      startJob s localNonce = some v') ∨
    ∃ v, JobCounts rcfg.maxRetries pc e pc' v v' := by
  cases pc <;> cases e <;> simp only [jobStep, reduceCtorEq] at hout
  case find.found =>
    split at hout
    · cases hout
      cases hpc'
    · rename_i s hs
      split_ifs at hout with hstatus <;> cases hout
      · cases hpc'
      · rcases hstart : startJob s localNonce with _ | v <;> simp only [hstart] at hpc'
        · cases hpc'
        · cases hpc'
          cases hv'
          exact .inl ⟨s, rfl, rfl, rfl, hs, by tauto, hstart⟩
  case estimateGas.estimated v est =>
    cases hout
    cases hpc'
    cases hv'
    exact .inr ⟨v, rfl, fun h => (by cases h), le_rfl, fun _ => .inl rfl, fun n hn _ => hn⟩
  case buildFees.feeData v fd =>
    cases hout
    cases hpc'
    cases hv'
    exact .inr ⟨v, rfl, fun h => (by cases h), le_rfl, fun _ => .inl rfl, fun n hn _ => hn⟩
  case broadcast.sent v outcome =>
    rcases outcome with (_ | err) | err <;> simp only at hout
    · split_ifs at hout
      cases hout
      cases hpc'
      cases hv'
      refine .inr ⟨_, rfl, fun _ => rfl, le_rfl, fun _ => .inl rfl, fun n _ hn => ?_⟩
      exact Nat.add_le_add_right (hn rfl) 1
    · split_ifs at hout
      cases hout
      exact .inr ⟨v, caught_counts rfl (fun _ => rfl) hpc' hv'⟩
    · cases hout
      exact .inr ⟨v, caught_counts rfl (fun _ => rfl) hpc' hv'⟩
  case writeSubmitted.written v outcome =>
    split_ifs at hout
    cases outcome with
    | ok =>
      cases hout
      cases hpc'
    | lost err =>
      cases hout
      exact .inr ⟨v, caught_counts rfl (fun h => by cases h) hpc' hv'⟩
    | ambiguous err =>
      cases hout
      exact .inr ⟨v, caught_counts rfl (fun h => by cases h) hpc' hv'⟩
  case resync.counted v cls =>
    split_ifs at hout <;> cases hout <;> cases hpc' <;> cases hv'
    · have hcount := v.bumpIf_retryCount cls.reason
      have hjob := v.bumpIf_sameJob cls.reason
      refine .inr ⟨v, rfl, fun h => (by cases h), hcount.ge, fun _ => .inl hcount, fun n hn _ => ?_⟩
      simpa [JobEvent.accepted, JobPc.slack, JobPc.vars, hcount, hjob.isResume] using hn
    · have hcount := JobVars.bumpIf_retryCount { v with nonce := node.pendingCount } cls.reason
      have hjob := JobVars.bumpIf_sameJob { v with nonce := node.pendingCount } cls.reason
      refine .inr ⟨v, rfl, fun h => (by cases h), hcount.ge, fun _ => .inl hcount, fun n hn _ => ?_⟩
      simpa [JobEvent.accepted, JobPc.slack, JobPc.vars, hcount, hjob.isResume] using hn
  case backoff.woke v =>
    cases hout
    cases hpc'
    cases hv'
    exact .inr ⟨v, rfl, fun h => (by cases h), le_rfl, fun _ => .inl rfl, fun n hn _ => hn⟩
  case fail.written =>
    split_ifs at hout
    cases hout
    cases hpc'
  all_goals
    cases hout
    cases hpc'

theorem atWork_eq_some : σ.atWork = some id ↔
    ∃ pc v, σ.relayer.worker = some (id, pc) ∧ pc.vars = some v := by
  unfold State.atWork
  rcases σ.relayer.worker with _ | ⟨k, pc⟩
  · simp
  · simp only [Option.bind_some, Option.map_eq_some_iff, Option.some.injEq, Prod.mk.injEq]
    constructor
    · rintro ⟨v, hv, rfl⟩
      exact ⟨pc, v, ⟨rfl, rfl⟩, hv⟩
    · rintro ⟨pc', v, ⟨rfl, rfl⟩, hv⟩
      exact ⟨v, hv, rfl⟩

theorem step_atWork {pc' : JobPc} {v' : JobVars} (h : step cfg σ ev = some σ')
    (hw : σ'.relayer.worker = some (id, pc')) (hv' : pc'.vars = some v') :
    (ev.isJob = false ∧ σ.relayer.worker = some (id, pc')) ∨
    (∃ pc e v, ev = .job e ∧ σ.relayer.worker = some (id, pc) ∧
      JobCounts cfg.relayer.maxRetries pc e pc' v v') ∨
    (∃ s, ev = .job .found ∧ σ.relayer.worker = some (id, .find) ∧ pc' = .estimateGas v' ∧
      σ.db.findById id = some s ∧ (s.status = .complianceApproved ∨ s.status = .submitted) ∧
      startJob s σ.relayer.localNonce = some v') := by
  rcases step_worker_out h hw with rfl | hsame | ⟨pc, e, out, rfl, hk, hpc, -, hout⟩
  · cases hv'
  · exact .inl hsame
  · rcases jobStep_counts hout hpc hv' with ⟨s, rfl, rfl, hpc', hs, hstatus, hstart⟩ | ⟨v, hcounts⟩
    · exact .inr (.inr ⟨s, rfl, hk, hpc', hs, hstatus, hstart⟩)
    · exact .inr (.inl ⟨pc, e, v, rfl, hk, hcounts⟩)

theorem broadcasts_step (h : step cfg σ ev = some σ') (id : SettlementId) :
    σ'.node.broadcasts id = σ.node.broadcasts id ∨
      ∃ tx, Accepts σ ev ⟨.settlement id, tx⟩ ∧
        σ'.node.broadcasts id = σ.node.broadcasts id + 1 := by
  unfold Node.broadcasts
  rcases step_accepted h with heq | ⟨⟨sender, tx⟩, ha, heq⟩ <;> rw [heq]
  · exact .inl rfl
  · rw [List.countP_append, List.countP_singleton]
    by_cases hs : sender = .settlement id
    · rw [hs] at ha
      exact .inr ⟨tx, ha, by rw [if_pos (decide_eq_true hs)]⟩
    · exact .inl (by rw [if_neg (by simpa using hs)]; rfl)

theorem broadcasts_eq_zero (h : ∀ tx, ¬σ.node.Sent id tx) : σ.node.broadcasts id = 0 := by
  rw [Node.broadcasts, List.countP_eq_zero]
  rintro ⟨sender, tx⟩ ha hsender
  obtain rfl : sender = .settlement id := of_decide_eq_true hsender
  exact h tx ha

theorem Writes.retryCount_cases (hw : Writes σ ev op) (hs : σ.db.findById id = some s) :
    (op.onRow σ.now s).retryCount = s.retryCount ∨
    (∃ o pc v, ev = .job (.written o) ∧ o.committed = true ∧
      σ.relayer.worker = some (id, pc) ∧ pc.vars = some v ∧
      (op.onRow σ.now s).retryCount = v.retryCount) ∨
    (∃ o pc n, ev = .sweep (.written o) ∧ o.committed = true ∧ σ.relayer.sweep = some pc ∧
      pc.inHand = some (id, n) ∧ (op.onRow σ.now s).retryCount = n) ∨
    ∃ t rest, ev = .recover .written ∧ σ.relayer.recovery = .fail t rest ∧ t.id = id ∧
      (op.onRow σ.now s).retryCount = t.retryCount := by
  have hid := Db.id_of_findById hs
  cases hw with
  | idle | insert | book => exact .inl rfl
  | @resend t rest tx o r hsweep hrow ho =>
    simp only [DbOp.onRow]
    split_ifs with hk
    · refine .inr (.inr (.inl ⟨o, _, _, rfl, ho, hsweep, ?_, rfl⟩))
      rw [SweepPc.inHand, ← hk, hid]
      rfl
    · exact .inl rfl
  | @submitted k v o r hworker hrow ho =>
    rcases onRow_transition_cases σ.now s k .submitted (submittedOptions v) with
      heq | ⟨hk, -, heq⟩ <;> rw [heq]
    · exact .inl rfl
    · exact .inr (.inl ⟨o, _, v, rfl, ho, by rw [hworker, ← hk, hid], rfl, rfl⟩)
  | @jobFail k v reason o r hworker hrow ho =>
    rcases onRow_transition_cases σ.now s k .failed (failOptions reason v.retryCount) with
      heq | ⟨hk, -, heq⟩ <;> rw [heq]
    · exact .inl rfl
    · exact .inr (.inl ⟨o, _, v, rfl, ho, by rw [hworker, ← hk, hid], rfl, rfl⟩)
  | @sweepFail t rest reason retryCount o r hsweep hrow ho =>
    rcases onRow_transition_cases σ.now s t.id .failed (failOptions reason retryCount) with
      heq | ⟨hk, -, heq⟩ <;> rw [heq]
    · exact .inl rfl
    · refine .inr (.inr (.inl ⟨o, _, retryCount, rfl, ho, hsweep, ?_, rfl⟩))
      rw [SweepPc.inHand, ← hk, hid]
  | @recoveryFail t rest r hrecovery =>
    rcases onRow_transition_cases σ.now s t.id .failed
      (failOptions "REVERTED_ON_RECOVERY" t.retryCount) with heq | ⟨hk, -, heq⟩ <;> rw [heq]
    · exact .inl rfl
    · exact .inr (.inr (.inr ⟨t, rest, rfl, hrecovery, hk.symm.trans hid, rfl⟩))
  | _ => rcases onRow_transition_cases _ s _ _ _ with heq | ⟨-, -, heq⟩ <;> rw [heq] <;> exact .inl rfl

theorem job_written {pc : JobPc} {v : JobVars} {o : DbOutcome TxError} {s' : Settlement}
    (hworker : σ.relayer.worker = some (id, pc)) (hv : pc.vars = some v) (ho : o.committed = true)
    (h : step cfg σ (.job (.written o)) = some σ') (hs : σ.db.findById id = some s)
    (hs' : σ'.db.findById id = some s') : s'.retryCount = v.retryCount := by
  cases stepsTo h with
  | @job k pc e out hworker' hout =>
    rw [hworker] at hworker'
    cases hworker'
    have hid := Db.id_of_findById hs
    have hdb : ∃ toStatus opts, out.db = .transition id toStatus opts ∧ opts.expectedFrom = none ∧
        opts.retryCount = some v.retryCount := by
      cases pc <;> simp only [jobStep, reduceCtorEq] at hout
      case writeSubmitted v' =>
        cases hv
        split_ifs at hout
        cases o with
        | ok | ambiguous => cases hout; exact ⟨_, _, rfl, rfl, rfl⟩
        | lost => cases ho
      case fail v' reason =>
        cases hv
        split_ifs at hout
        cases hout
        cases o with
        | ok | ambiguous => exact ⟨_, _, rfl, rfl, rfl⟩
        | lost => cases ho
    obtain ⟨toStatus, opts, hdb, hany, hcount⟩ := hdb
    have hrow : (σ.afterJob id out).db.findById id =
        some (s.withTransition toStatus opts σ.now) := by
      show (out.db.apply σ.now σ.db).findById id = _
      rw [hdb, findById_apply hs, onRow_transition_of hid]
      rw [TransitionOptions.allows, hany]
      rfl
    rw [hrow] at hs'
    cases hs'
    rw [Settlement.withTransition, hcount]
    rfl

theorem sweep_written {pc : SweepPc} {n : ℕ} {o : DbOutcome TxError} {s' : Settlement}
    (hsweep : σ.relayer.sweep = some pc) (hhand : pc.inHand = some (id, n))
    (ho : o.committed = true) (h : step cfg σ (.sweep (.written o)) = some σ')
    (hs : σ.db.findById id = some s) (hs' : σ'.db.findById id = some s') :
    s'.retryCount = n := by
  cases stepsTo h with
  | @sweep pc' e out hsweep' hout =>
    rw [hsweep] at hsweep'
    cases hsweep'
    have hid := Db.id_of_findById hs
    have hrow : (σ.afterSweep out).db.findById id = some (out.db.onRow σ.now s) := by
      show (out.db.apply σ.now σ.db).findById id = _
      exact findById_apply hs
    rw [hrow] at hs'
    cases hs'
    cases pc <;> simp only [SweepPc.inHand, reduceCtorEq, Option.some.injEq, Prod.mk.injEq] at hhand
    case recordResend t rest tx =>
      obtain ⟨htid, rfl⟩ := hhand
      simp only [sweepStep] at hout
      split_ifs at hout
      have hdb : out.db = .recordResend t.id tx (t.retryCount + 1) := by
        cases o with
        | ok | ambiguous => cases hout; rfl
        | lost => cases ho
      rw [hdb, DbOp.onRow, if_pos (hid.trans htid.symm)]
      rfl
    case fail t rest reason retryCount =>
      obtain ⟨htid, rfl⟩ := hhand
      simp only [sweepStep] at hout
      split_ifs at hout
      cases hout
      have hcommits : o.commits (.transition t.id .failed (failOptions reason retryCount)) =
          .transition t.id .failed (failOptions reason retryCount) := by
        cases o with
        | ok | ambiguous => rfl
        | lost => cases ho
      rw [hcommits, onRow_transition_of (hid.trans htid.symm) rfl]
      rfl

theorem Writes.isOpen (hw : Writes σ ev op) (hs : σ.db.findById id = some s)
    (hopen : (op.onRow σ.now s).isOpen = true) : s.isOpen = true ∨ σ.atWork = some id := by
  have hid := Db.id_of_findById hs
  cases hw with
  | idle | insert | book => exact .inl hopen
  | resend =>
    simp only [DbOp.onRow] at hopen
    split_ifs at hopen <;> exact .inl hopen
  | @submitted k v o r hworker =>
    rcases onRow_transition_cases σ.now s k .submitted (submittedOptions v) with
      heq | ⟨hk, -, -⟩
    · exact .inl (heq ▸ hopen)
    · exact .inr (atWork_eq_some.mpr ⟨_, v, by rw [hworker, ← hk, hid], rfl⟩)
  | reorg | confirm =>
    rcases onRow_transition_cases _ s _ _ _ with heq | ⟨-, hallow, -⟩
    · exact .inl (heq ▸ hopen)
    · left
      simp only [TransitionOptions.allows, reorgOptions, confirmOptions, Option.all_some,
        List.contains_cons, List.contains_nil, Bool.or_false, beq_iff_eq] at hallow
      rw [Settlement.isOpen, hallow]
      rfl
  | _ =>
    rcases onRow_transition_cases _ s _ _ _ with heq | ⟨-, -, heq⟩ <;> rw [heq] at hopen
    · exact .inl hopen
    · exact absurd (show false = true from hopen) Bool.false_ne_true

end Rail
