import SettlementRail.System.ComesToRest
import SettlementRail.System.InflightMoves
import SettlementRail.System.Scenario

/-! Restart recovery: what a boot makes of the instructions it finds in SUBMITTED, whatever the
jobs it queues, the sweep, the listener and the chain do meanwhile. -/

namespace Rail
open Foundation

variable {cfg : Config} {σ₀ σ σ' τ ρ ρ' : State} {ev : Event} {s : Settlement}
variable {C : State → Event → Prop} {base opening : ℕ}

def StaysUp (_ : State) (ev : Event) : Prop := ev ≠ .crash ∧ ev ≠ .drain

instance (σ : State) (ev : Event) : Decidable (StaysUp σ ev) :=
  inferInstanceAs (Decidable (_ ∧ _))

abbrev LivesTo (cfg : Config) : State → State → Prop := ReachUnder (step cfg) StaysUp

inductive LookedAfter (cfg : Config) (τ ρ : State) (s : Settlement) : Prop
  | mined {υ : State} {receipt : Receipt} (hτ : LivesTo cfg τ υ)
      (hreceipt : s.txHash.bind υ.node.getTransactionReceipt = some receipt)
      (hok : receipt.success = true) (hρ : LivesTo cfg υ ρ)
  | reverted {υ ω ω' : State} {receipt : Receipt} {r : Settlement} (hτ : LivesTo cfg τ υ)
      (hreceipt : s.txHash.bind υ.node.getTransactionReceipt = some receipt)
      (hfail : receipt.success = false) (hυ : LivesTo cfg υ ω)
      (hwritten : step cfg ω (.recover .written) = some ω') (hrow : ω.db.findById s.id = some r)
      (hfailed : ω'.db.findById s.id = some
        (r.withTransition .failed (failOptions "REVERTED_ON_RECOVERY" s.retryCount) ω.now))
      (hρ : LivesTo cfg ω' ρ)
  | tracked {υ ω ω' : State} {tx : Tx} (hτ : LivesTo cfg τ υ)
      (hnone : s.txHash.bind υ.node.getTransactionReceipt = none) (hυ : LivesTo cfg υ ω)
      (hlookup : step cfg ω (.recover .txLookup) = some ω')
      (htx : s.txHash.bind ω.node.getTransaction = some tx)
      (hinfo : ω'.relayer.inflight = ω.relayer.inflight.set (trackedTx s tx ω.now))
      (hρ : LivesTo cfg ω' ρ)
  | requeued {υ ω ω' : State} (hτ : LivesTo cfg τ υ)
      (hnone : s.txHash.bind υ.node.getTransactionReceipt = none) (hυ : LivesTo cfg υ ω)
      (hlookup : step cfg ω (.recover .txLookup) = some ω')
      (hgone : s.txHash.bind ω.node.getTransaction = none)
      (hjobs : ω'.relayer.jobs = ω.relayer.jobs ++ [s.id]) (hρ : LivesTo cfg ω' ρ)

theorem LookedAfter.later (h : LookedAfter cfg τ ρ s) (hno : StaysUp ρ ev)
    (hs : step cfg ρ ev = some ρ') : LookedAfter cfg τ ρ' s := by
  cases h with
  | mined hτ hreceipt hok hρ => exact .mined hτ hreceipt hok (hρ.tail hno hs)
  | reverted hτ hreceipt hfail hυ hwritten hrow hfailed hρ =>
    exact .reverted hτ hreceipt hfail hυ hwritten hrow hfailed (hρ.tail hno hs)
  | tracked hτ hnone hυ hlookup htx hinfo hρ =>
    exact .tracked hτ hnone hυ hlookup htx hinfo (hρ.tail hno hs)
  | requeued hτ hnone hυ hlookup hgone hjobs hρ =>
    exact .requeued hτ hnone hυ hlookup hgone hjobs (hρ.tail hno hs)

def GoneWhileDown (σ : State) : Prop :=
  σ.up = false → σ.relayer = {} ∧ σ.creates = [] ∧ σ.dvps = []

theorem goneWhileDown_step (hI : GoneWhileDown σ) (h : step cfg σ ev = some σ') :
    GoneWhileDown σ' := by
  intro hdown
  by_cases hup : σ.up = true
  · -- only a crash takes a process down
    cases stepsTo h with
    | crash => exact ⟨rfl, rfl, rfl⟩
    | boot => cases hdown
    | _ => exact absurd (Eq.trans hdown.symm hup) Bool.false_ne_true
  · obtain ⟨hrelayer, hcreates, hdvps⟩ := hI (Bool.eq_false_iff.mpr hup)
    cases stepsTo h with
    | tick | dropTx | newHead | listen => exact ⟨hrelayer, hcreates, hdvps⟩
    | boot => cases hdown
    | create hcall =>
      rw [hcreates] at hcall
      cases hcall
    | dvp hcall =>
      rw [hdvps] at hcall
      cases hcall
    | job hworker =>
      rw [hrelayer] at hworker
      cases hworker
    | sweep hsweep =>
      rw [hrelayer] at hsweep
      cases hsweep
    | _ => simp [step, State.serving, hup] at h

theorem goneWhileDown_reach (h : RailReach cfg C base opening σ) : GoneWhileDown σ :=
  h.invariant (fun _ => ⟨rfl, rfl, rfl⟩) fun _ _ _ _ hI _ hs => goneWhileDown_step hI hs

theorem awake_step (hawake : σ.relayer.draining = false) (hno : StaysUp σ ev)
    (h : step cfg σ ev = some σ') : σ'.relayer.draining = false := by
  cases stepsTo h with
  | crash => exact absurd rfl hno.1
  | drain => exact absurd rfl hno.2
  | @create i e call out => exact (σ.frame_afterCreate i call out).2.2.trans hawake
  | @job id pc e out => exact (σ.frame_afterJob id out).2.2.trans hawake
  | recover => exact (Relayer.draining_foldl_enqueueId _).trans hawake
  | _ => exact hawake

def RecoveryPc.between : RecoveryPc → Bool
  | .receipt .. | .done => true
  | _ => false

theorem recoveryNext_hashed {l : List Settlement} (h : ∀ t ∈ l, t.txHash.isSome) :
    (recoveryNext l).2 = [] ∧ (recoveryNext l).1.rows = l ∧ (recoveryNext l).1.between = true := by
  cases l with
  | nil => exact ⟨rfl, rfl, rfl⟩
  | cons s rest =>
    rw [recoveryNext, if_pos (h s List.mem_cons_self)]
    exact ⟨rfl, rfl, rfl⟩

structure Walking (cfg : Config) (τ ρ : State) : Prop where
  since : LivesTo cfg τ ρ
  begun : ρ.relayer.recovery ≠ .fetchNonce ∧ ρ.relayer.recovery ≠ .find
  covered : ∀ s ∈ τ.db.findByStatuses [.submitted],
    s ∈ ρ.relayer.recovery.rows ∨ LookedAfter cfg τ ρ s
  failing : ∀ s rest, ρ.relayer.recovery = .fail s rest → ∃ υ receipt, LivesTo cfg τ υ ∧
    s.txHash.bind υ.node.getTransactionReceipt = some receipt ∧ receipt.success = false ∧
      LivesTo cfg υ ρ
  missing : ∀ s rest, ρ.relayer.recovery = .getTransaction s rest → ∃ υ, LivesTo cfg τ υ ∧
    s.txHash.bind υ.node.getTransactionReceipt = none ∧ LivesTo cfg υ ρ

theorem Walking.of_between (hsince : LivesTo cfg τ ρ)
    (hpc : ρ.relayer.recovery.between = true) (hcovered : ∀ s ∈ τ.db.findByStatuses [.submitted],
      s ∈ ρ.relayer.recovery.rows ∨ LookedAfter cfg τ ρ s) : Walking cfg τ ρ := by
  refine ⟨hsince, ⟨fun heq => ?_, fun heq => ?_⟩, hcovered, fun s rest heq => ?_,
    fun s rest heq => ?_⟩ <;>
  · rw [heq] at hpc
    cases hpc

theorem Walking.advances {rest : List Settlement} (hI : Walking cfg τ ρ)
    (hrows : ρ.relayer.recovery.rows = s :: rest) (hrest : ∀ t ∈ rest, t.txHash.isSome)
    (hno : StaysUp ρ ev) (hs : step cfg ρ ev = some ρ')
    (hpc : ρ'.relayer.recovery = (recoveryNext rest).1) (hdone : LookedAfter cfg τ ρ' s) :
    Walking cfg τ ρ' := by
  obtain ⟨-, hleft, hbetween⟩ := recoveryNext_hashed hrest
  refine .of_between (hI.since.tail hno hs) (hpc ▸ hbetween) fun t ht => ?_
  rcases hI.covered t ht with hmem | hlooked
  · rw [hrows] at hmem
    rcases List.mem_cons.mp hmem with rfl | hmem
    · exact .inr hdone
    · rw [hpc, hleft]
      exact .inl hmem
  · exact .inr (hlooked.later hno hs)

theorem Walking.stays (hI : Walking cfg τ ρ) (hno : StaysUp ρ ev) (hs : step cfg ρ ev = some ρ')
    (hrows : ρ'.relayer.recovery.rows = ρ.relayer.recovery.rows)
    (hbegun : ρ'.relayer.recovery ≠ .fetchNonce ∧ ρ'.relayer.recovery ≠ .find)
    (hfailing : ∀ s rest, ρ'.relayer.recovery = .fail s rest → ∃ υ receipt, LivesTo cfg τ υ ∧
      s.txHash.bind υ.node.getTransactionReceipt = some receipt ∧ receipt.success = false ∧
        LivesTo cfg υ ρ)
    (hmissing : ∀ s rest, ρ'.relayer.recovery = .getTransaction s rest → ∃ υ, LivesTo cfg τ υ ∧
      s.txHash.bind υ.node.getTransactionReceipt = none ∧ LivesTo cfg υ ρ) :
    Walking cfg τ ρ' := by
  refine ⟨hI.since.tail hno hs, hbegun, fun t ht => ?_, fun t rest hfail => ?_,
    fun t rest hlookup => ?_⟩
  · rw [hrows]
    exact (hI.covered t ht).imp_right fun hlooked => hlooked.later hno hs
  · obtain ⟨υ, receipt, hυ, hreceipt, hok, hρ⟩ := hfailing t rest hfail
    exact ⟨υ, receipt, hυ, hreceipt, hok, hρ.tail hno hs⟩
  · obtain ⟨υ, hυ, hnone, hρ⟩ := hmissing t rest hlookup
    exact ⟨υ, hυ, hnone, hρ.tail hno hs⟩

theorem walking_step (hI : Walking cfg τ ρ) (hc : Custody ρ)
    (hawake : ρ.relayer.draining = false) (hno : StaysUp ρ ev)
    (h : step cfg ρ ev = some ρ') : Walking cfg τ ρ' := by
  rcases step_recovery h hno.1 with ⟨e, rfl⟩ | hsame
  · cases stepsTo h with | @recover _ out hout => ?_
    have hpc' : (ρ.afterRecovery out).relayer.recovery = out.pc :=
      (Relayer.frame_foldl_enqueueId out.requeue).2.2
    have hhash : ∀ t ∈ ρ.relayer.recovery.rows, t.txHash.isSome := fun t ht =>
      (hc.walked t (.recovery ht)).2
    rcases hpc : ρ.relayer.recovery with _ | _ | ⟨s, rest⟩ | ⟨s, rest⟩ | ⟨s, rest⟩ | _ <;>
      rw [hpc] at hout hhash <;> cases e <;> simp only [recoveryStep, reduceCtorEq] at hout
    case fetchNonce.counted => exact absurd hpc hI.begun.1
    case find.found => exact absurd hpc hI.begun.2
    case receipt.receipt =>
      have hrest : ∀ t ∈ rest, t.txHash.isSome := fun t ht => hhash t (List.mem_cons_of_mem _ ht)
      -- status 1 ends the row; a revert and a missing receipt take one more call
      split at hout
      · rename_i receipt hreceipt
        split_ifs at hout with hok <;> cases hout
        · exact hI.advances (by rw [hpc]; rfl) hrest hno h hpc'
            (.mined hI.since hreceipt hok (.tail .refl hno h))
        · refine hI.stays hno h (by rw [hpc', hpc]; rfl) ?_ (fun t rest' hfail => ?_)
            fun t rest' hlookup => ?_
          · rw [hpc']
            exact ⟨fun heq => (by cases heq), fun heq => (by cases heq)⟩
          · rw [hpc'] at hfail
            cases hfail
            exact ⟨ρ, receipt, hI.since, hreceipt, Bool.eq_false_iff.mpr hok, .refl⟩
          · rw [hpc'] at hlookup
            cases hlookup
      · rename_i hreceipt
        cases hout
        refine hI.stays hno h (by rw [hpc', hpc]; rfl) ?_ (fun t rest' hfail => ?_)
          fun t rest' hlookup => ?_
        · rw [hpc']
          exact ⟨fun heq => (by cases heq), fun heq => (by cases heq)⟩
        · rw [hpc'] at hfail
          cases hfail
        · rw [hpc'] at hlookup
          cases hlookup
          exact ⟨ρ, hI.since, hreceipt, .refl⟩
    case fail.written =>
      have hrest : ∀ t ∈ rest, t.txHash.isSome := fun t ht => hhash t (List.mem_cons_of_mem _ ht)
      split_ifs at hout with hrow
      obtain ⟨r, hr⟩ := Option.ne_none_iff_exists'.mp (Option.isNone_iff_eq_none.not.mp hrow)
      -- the receipt that said so was read before
      obtain ⟨υ, receipt, hυ, hreceipt, hfail, hρ⟩ := hI.failing s rest hpc
      cases hout
      refine hI.advances (by rw [hpc]; rfl) hrest hno h hpc'
        (.reverted hυ hreceipt hfail hρ h hr ?_ .refl)
      rw [State.afterRecovery, findById_apply hr]
      exact congrArg some (onRow_transition_of (Db.id_of_findById hr) rfl)
    case getTransaction.txLookup =>
      have hrest : ∀ t ∈ rest, t.txHash.isSome := fun t ht => hhash t (List.mem_cons_of_mem _ ht)
      have hnothing := (recoveryNext_hashed hrest).1
      obtain ⟨υ, hυ, hnone, hρ⟩ := hI.missing s rest hpc
      split at hout <;> cases hout
      · rename_i tx htx
        refine hI.advances (by rw [hpc]; rfl) hrest hno h hpc'
          (.tracked hυ hnone hρ h htx ?_ .refl)
        rw [State.afterRecovery, Relayer.inflight_foldl_enqueueId]
      · rename_i hgone
        refine hI.advances (by rw [hpc]; rfl) hrest hno h hpc'
          (.requeued hυ hnone hρ h hgone ?_ .refl)
        rw [State.afterRecovery, Relayer.jobs_foldl_enqueueId, hnothing]
        exact if_neg (by simp [hawake])
  · exact hI.stays hno h (by rw [hsame]) (by rw [hsame]; exact hI.begun)
      (fun t rest hfail => hI.failing t rest (hsame ▸ hfail))
      fun t rest hlookup => hI.missing t rest (hsame ▸ hlookup)

/-- A job of an instruction that has its nonce resumes under this nonce. -/
def Resumes (v : JobVars) : Prop := v.isResume = true ∧ v.settlement.nonce = some v.nonce

structure Restarted (cfg : Config) (σ ρ : State) : Prop where
  up : ρ.up = true
  awake : ρ.relayer.draining = false
  closed : ρ.relayer.recovery ≠ .done → ρ.creates = [] ∧ ρ.dvps = []
  kept : ∀ id s, σ.db.findById id = some s → s.nonce.isSome →
    ∃ r, ρ.db.findById id = some r ∧ r.nonce.isSome
  resumed : ∀ id s pc v, σ.db.findById id = some s → s.nonce.isSome →
    ρ.relayer.worker = some (id, pc) → pc.vars = some v → Resumes v
  walking : ρ.relayer.recovery ≠ .fetchNonce → ρ.relayer.recovery ≠ .find →
    ∃ τ, LivesTo cfg σ τ ∧ τ.relayer.recovery = .find ∧ Walking cfg τ ρ

theorem resumes_step {id : SettlementId} {pc : JobPc} {v : JobVars} (hc : Custody ρ)
    (hrow : ∃ r, ρ.db.findById id = some r ∧ r.nonce.isSome)
    (hI : ∀ pc v, ρ.relayer.worker = some (id, pc) → pc.vars = some v → Resumes v)
    (h : step cfg ρ ev = some ρ') (hworker : ρ'.relayer.worker = some (id, pc))
    (hv : pc.vars = some v) : Resumes v := by
  have started : ∀ {s}, ρ.db.findById id = some s →
      (s.status = .complianceApproved ∨ s.status = .submitted) →
      startJob s ρ.relayer.localNonce = some v → Resumes v := by
    intro s hs hstatus hstart
    obtain ⟨r, hr, hnonce⟩ := hrow
    obtain rfl := Option.some.inj (hs.symm.trans hr)
    obtain ⟨n, hn⟩ := Option.isSome_iff_exists.mp hnonce
    obtain ⟨rfl, -, hresume, hused⟩ := startJob_some hstart
    have hsubmitted : v.settlement.status = .submitted := hstatus.resolve_left fun happroved => by
      have hunsent := (hc.columns id _ hs).unsent (.inr (.inr happroved))
      rw [hn] at hunsent
      cases hunsent
    have hisResume : v.isResume = true := by simp [hresume, hsubmitted, hn]
    refine ⟨hisResume, ?_⟩
    rw [hused, if_pos hisResume, hn, Option.getD_some]
  -- a job keeps the nonce it has, asks for another one, or starts
  rcases step_job_nonce h hworker hv with ⟨pc₀, v₀, hworker₀, hv₀, hnonce, -⟩ |
    ⟨-, -, v₀, cls, hworker₀, hfresh⟩ | ⟨-, -, s, hs, hstatus, hstart⟩
  · rcases step_job_vars h hworker hv with ⟨pc₁, v₁, hworker₁, hv₁, hjob⟩ | ⟨s, hs, hstatus, hstart⟩
    · obtain ⟨-, rfl⟩ := Prod.mk.inj (Option.some.inj (hworker₀.symm.trans hworker₁))
      obtain rfl := Option.some.inj (hv₀.symm.trans hv₁)
      obtain ⟨hresume, hstored⟩ := hI pc₀ v₀ hworker₀ hv₀
      exact ⟨hjob.isResume.trans hresume, by rw [hjob.settlement, hnonce, hstored]⟩
    · exact started hs hstatus hstart
  · -- a job that resumes never asks for another nonce
    have hresume := (hI _ v₀ hworker₀ rfl).1
    rw [hfresh] at hresume
    cases hresume
  · exact started hs hstatus hstart

theorem closed_step (hbusy : ρ.relayer.recovery ≠ .done)
    (hclosed : ρ.creates = [] ∧ ρ.dvps = []) (hno : StaysUp ρ ev)
    (h : step cfg ρ ev = some ρ') : ρ'.creates = [] ∧ ρ'.dvps = [] := by
  cases stepsTo h with
  | create hcall =>
    rw [hclosed.1] at hcall
    cases hcall
  | dvp hcall =>
    rw [hclosed.2] at hcall
    cases hcall
  | submit | dvpCall => simp [step, State.serving, hbusy] at h
  | crash => exact absurd rfl hno.1
  | _ => exact hclosed

theorem walking_begins (hc : Custody ρ) (hpc : ρ.relayer.recovery = .find) (hno : StaysUp ρ ev)
    (h : step cfg ρ ev = some ρ') (hbegun : ρ'.relayer.recovery ≠ .find) :
    Walking cfg ρ ρ' := by
  rcases step_recovery h hno.1 with ⟨e, rfl⟩ | hsame
  · cases stepsTo h with | @recover _ out hout => ?_
    have hpc' : (ρ.afterRecovery out).relayer.recovery = out.pc :=
      (Relayer.frame_foldl_enqueueId out.requeue).2.2
    have hhash : ∀ t ∈ ρ.db.findByStatuses [.submitted], t.txHash.isSome := fun t ht => by
      obtain ⟨hrow, hstatus⟩ := Db.mem_findByStatuses.mp ht
      exact ((hc.columns _ t hrow).sent (.inl (List.mem_singleton.mp hstatus))).2
    obtain ⟨-, hrows, hbetween⟩ := recoveryNext_hashed hhash
    rw [hpc] at hout
    cases e <;> simp only [recoveryStep, reduceCtorEq] at hout
    rw [Option.some.injEq] at hout
    rw [← hout] at hpc'
    refine .of_between (.tail .refl hno h) (hout ▸ hpc' ▸ hbetween) fun t ht => .inl ?_
    rw [← hout, hpc', hrows]
    exact ht
  · exact absurd (hsame.trans hpc) hbegun

theorem restarted_step (hr : RailReach cfg C base opening σ) (hσ : LivesTo cfg σ ρ)
    (hI : Restarted cfg σ ρ) (hno : StaysUp ρ ev) (h : step cfg ρ ev = some ρ') :
    Restarted cfg σ ρ' := by
  have hc : Custody ρ := custody_reach (hr.reach.trans hσ.reach)
  refine ⟨?_, awake_step hI.awake hno h, fun hbusy' => ?_, fun id s hs hn => ?_,
    fun id s pc v hs hn hworker hv => ?_, fun hcounted hfound => ?_⟩
  · cases stepsTo h with
    | crash => exact absurd rfl hno.1
    | boot => rfl
    | _ => exact hI.up
  · have hbusy : ρ.relayer.recovery ≠ .done := fun hdone => hbusy' (done_step hdone hno.1 h)
    exact closed_step hbusy (hI.closed hbusy) hno h
  · obtain ⟨r, hrow, hnonce⟩ := hI.kept id s hs hn
    obtain ⟨op, hw, hdb⟩ := step_db h
    exact ⟨_, by rw [hdb, findById_apply hrow], hw.nonce_isSome hnonce⟩
  · exact resumes_step hc (hI.kept id s hs hn)
      (fun pc v hworker hv => hI.resumed id s pc v hs hn hworker hv) h hworker hv
  · by_cases hfind : ρ.relayer.recovery = .find
    · exact ⟨ρ, hσ, hfind, walking_begins hc hfind hno h hfound⟩
    · have hfetched : ρ.relayer.recovery ≠ .fetchNonce := fun hpc => by
        rcases step_recovery h hno.1 with ⟨e, rfl⟩ | hsame
        · cases stepsTo h with | @recover _ out hout => ?_
          rw [hpc] at hout
          cases e <;> simp only [recoveryStep, reduceCtorEq] at hout
          cases hout
          exact hfound rfl
        · exact hcounted (hsame.trans hpc)
      obtain ⟨τ, hτ, hread, hwalk⟩ := hI.walking hfetched hfind
      exact ⟨τ, hτ, hread, walking_step hwalk hc hI.awake hno h⟩

theorem restarted_reach {σ₀ : State} (hr : RailReach cfg C base opening σ₀)
    (hboot : step cfg σ₀ .boot = some σ) (hrun : LivesTo cfg σ ρ) : Restarted cfg σ ρ := by
  have hdown : σ₀.up = false ∧ σ = { σ₀ with up := true } := by
    rw [step] at hboot
    split_ifs at hboot with hup
    cases hboot
    exact ⟨Bool.eq_false_iff.mpr hup, rfl⟩
  obtain ⟨hdown, rfl⟩ := hdown
  obtain ⟨hrelayer, hcreates, hdvps⟩ := goneWhileDown_reach hr hdown
  have hfresh : ({ σ₀ with up := true } : State).relayer = {} := hrelayer
  refine hrun.invariant ⟨rfl, by rw [hfresh], fun _ => ⟨hcreates, hdvps⟩,
    fun id s hs hn => ⟨s, hs, hn⟩, fun id s pc v _ _ hworker => ?_, fun hcounted => ?_⟩
    fun ρ ev ρ' hρ hI hno hs => restarted_step (.tail hr.reach trivial hboot) hρ hI hno hs
  · rw [hfresh] at hworker
    cases hworker
  · exact absurd (by rw [hfresh]) hcounted

/-- Whatever happens meanwhile, as long as the process stays up: the recovery can always go on and
no request is taken before it is over; when it is over, every instruction it found SUBMITTED has
been looked after by what the chain said of its transaction; and one that had a nonce before the
boot is only sent under this nonce. -/
theorem recovery_looks_after_all {σ₀ : State} (hr : RailReach cfg C base opening σ₀)
    (hboot : step cfg σ₀ .boot = some σ) (hrun : LivesTo cfg σ ρ) :
    (ρ.relayer.recovery ≠ .done →
      ρ.creates = [] ∧ ρ.dvps = [] ∧ ∃ e, (step cfg ρ (.recover e)).isSome) ∧
    (ρ.relayer.recovery = .done → ∃ τ, LivesTo cfg σ τ ∧ τ.relayer.recovery = .find ∧
      ∀ s ∈ τ.db.findByStatuses [.submitted], LookedAfter cfg τ ρ s) ∧
    ∀ id s pc v, σ.db.findById id = some s → s.nonce.isSome →
      ρ.relayer.worker = some (id, pc) → pc.vars = some v → Resumes v := by
  have hI := restarted_reach hr hboot hrun
  have hc : Custody ρ :=
    custody_reach ((ReachUnder.tail hr.reach trivial hboot).trans hrun.reach)
  refine ⟨fun hbusy => ?_, fun hdone => ?_, hI.resumed⟩
  · have hrows : ∀ s ∈ ρ.relayer.recovery.rows, (ρ.db.findById s.id).isSome := by
      intro s hs
      obtain ⟨r, hr, -⟩ := (hc.carried s (.walk (.recovery hs))).row
      rw [hr]
      rfl
    obtain ⟨e, he⟩ := recoveryStep_enabled ρ.node ρ.now ρ.relayer.localNonce ρ.relayer.inflight
      hrows hbusy
    obtain ⟨hcreates, hdvps⟩ := hI.closed hbusy
    refine ⟨hcreates, hdvps, e, ?_⟩
    rw [step, if_pos hI.up, Option.isSome_map]
    exact he
  · obtain ⟨τ, hτ, hread, hwalk⟩ := hI.walking (by rw [hdone]; exact fun h => (by cases h))
      (by rw [hdone]; exact fun h => (by cases h))
    refine ⟨τ, hτ, hread, fun s hs => (hwalk.covered s hs).resolve_left fun hmem => ?_⟩
    rw [hdone] at hmem
    cases hmem

def droppedPayout : CreateSettlementDto :=
  { instructionId := "payout-2", toAddress := "0xpayee", amount := 7 }

/-- Two payouts are sent, the process dies, and the second transaction is dropped. -/
def twoSentEvents : List Event :=
  bootEvents ++ submitEvents 0 1 payout ++ sendEvents ++ submitEvents 1 2 droppedPayout ++
    sendEvents ++ [.crash, .dropTx (plainTransfer 8 droppedPayout)]

def recoverEvents : List Event :=
  [.recover .counted, .recover .found, .recover .receipt, .recover .txLookup, .recover .receipt,
    .recover .txLookup, .job .found]

theorem dropped_payout_resumed : ∃ σ₀ σ ρ, RailReach (plainConfig 3) (fun _ _ => True) 7 100 σ₀ ∧
    step (plainConfig 3) σ₀ .boot = some σ ∧ LivesTo (plainConfig 3) σ ρ ∧
      (∃ τ, LivesTo (plainConfig 3) σ τ ∧ τ.relayer.recovery = .find ∧
        ∀ s ∈ τ.db.findByStatuses [.submitted], LookedAfter (plainConfig 3) τ ρ s) ∧
      (ρ.relayer.inflight.get 1).isSome ∧
      ∃ v, ρ.relayer.worker = some (2, .estimateGas v) ∧ Resumes v ∧ v.nonce = 8 := by
  obtain ⟨σ₀, hr, hends⟩ := exists_reach_of_run (step (plainConfig 3))
    (initial (plainConfig 3) 7 100) twoSentEvents
    (fun σ₀ => (step (plainConfig 3) σ₀ .boot).any fun σ =>
      ((σ.db.findById 2).any fun s => s.nonce.isSome) &&
        (checkedRun (step (plainConfig 3)) StaysUp σ recoverEvents).any fun ρ =>
          ρ.relayer.recovery = .done && (ρ.relayer.inflight.get 1).isSome &&
            ρ.relayer.worker.any fun w => match w with
              | (id, .estimateGas v) => id = 2 && v.nonce = 8
              | _ => false) (by decide +kernel)
  obtain ⟨σ, hboot, hends⟩ := (Option.any_eq_true _ _).mp hends
  rw [Bool.and_eq_true] at hends
  obtain ⟨s, hs, hnonce⟩ := (Option.any_eq_true _ _).mp hends.1
  obtain ⟨ρ, hrun, hends⟩ := (Option.any_eq_true _ _).mp hends.2
  have hlives : LivesTo (plainConfig 3) σ ρ := .of_checkedRun hrun
  simp only [Bool.and_eq_true, decide_eq_true_eq] at hends
  obtain ⟨⟨hdone, hinfo⟩, hends⟩ := hends
  obtain ⟨⟨id, pc⟩, hworker, hends⟩ := (Option.any_eq_true _ _).mp hends
  obtain ⟨-, hall, hresumed⟩ := recovery_looks_after_all hr hboot hlives
  cases pc <;> simp only [Bool.false_eq_true, Bool.and_eq_true, decide_eq_true_eq] at hends
  case estimateGas v =>
    obtain ⟨rfl, hused⟩ := hends
    exact ⟨σ₀, σ, ρ, hr, hboot, hlives, hall hdone, hinfo, v, hworker,
      hresumed 2 s _ v hs hnonce hworker rfl, hused⟩

end Rail
