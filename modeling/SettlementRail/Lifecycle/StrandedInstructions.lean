import SettlementRail.System.Custody
import SettlementRail.System.Scenario

/-! Who is going to work on a settlement that was accepted and not yet broadcast. The queue is
in memory and the boot scan looks at SUBMITTED rows only. -/

namespace Rail
open Foundation

/-- RECEIVED rows belong to a running `create`; COMPLIANCE_APPROVED ones to a running `create`,
the queue or the worker. -/
structure State.Attended (σ : State) : Prop where
  received : ∀ id s, σ.db.findById id = some s → s.status = .received →
    ∃ call ∈ σ.creates, call.pc.held = some id
  approved : ∀ id s, σ.db.findById id = some s → s.status = .complianceApproved →
    (∃ call ∈ σ.creates, call.pc.held = some id) ∨ id ∈ σ.relayer.queue ∨
      ∃ pc, σ.relayer.worker = some (id, pc)

/-- Once the boot recovery has finished. -/
def State.NoneStranded (σ : State) : Prop := σ.relayer.recovery = .done → σ.Attended

def State.isApproved (σ : State) (id : SettlementId) : Bool :=
  (σ.db.findById id).any fun s => s.status = .complianceApproved

/-- The steps that end the last thread that has an unsent settlement in hand: a crash, an insert
that commits but throws, a verdict that is lost, an approval that is not enqueued, and the exits
of a job that are neither SUBMITTED nor FAILED. -/
def State.strands (σ : State) : Event → Bool
  | .crash => σ.db.settlements.rows.any fun s =>
      s.status = .received || s.status = .complianceApproved
  | .create _ (.inserted _ (.ambiguous _)) => true
  | .create i (.written o) =>
    match σ.creates[i]?.map CreateCall.pc with
    | some (.reject ..) => !o.committed
    | some (.approve _) => o ≠ .ok || σ.relayer.draining
    | _ => false
  | .job .found =>
    match σ.relayer.worker with
    | some (id, .find) => (σ.db.findById id).any fun s =>
        s.status = .complianceApproved && (startJob s σ.relayer.localNonce).isNone
    | _ => false
  | .job .callError =>
    match σ.relayer.worker with
    | some (id, .find) | some (id, .buildFees _) | some (id, .resync ..) => σ.isApproved id
    | _ => false
  | .job (.written o) =>
    match σ.relayer.worker with
    | some (id, .fail ..) => !o.committed && σ.isApproved id
    | _ => false
  | _ => false

variable {cfg : Config} {σ σ' : State} {ev : Event} {op : DbOp} {t s : Settlement}
variable {id : SettlementId}

theorem held_kept (h : step cfg σ ev = some σ') {call : CreateCall} (hcall : call ∈ σ.creates)
    (hheld : call.pc.held = some id) : (∃ call ∈ σ'.creates, call.pc.held = some id) ∨
      ev = .crash ∨ ∃ i o, ev = .create i (.written o) ∧
        ((∃ reason, σ.creates[i]?.map CreateCall.pc = some (.reject id reason) ∧ σ'.db =
          (o.commits (.transition id .rejectedCompliance (rejectOptions reason))).apply σ.now σ.db) ∨
        (σ.creates[i]?.map CreateCall.pc = some (.approve id) ∧
          σ'.db = (o.commits (.transition id .complianceApproved {})).apply σ.now σ.db)) := by
  cases stepsTo h with
  | @create i e c out hc hout =>
    obtain ⟨j, hj⟩ := List.mem_iff_getElem?.mp hcall
    by_cases hij : i = j
    · subst hij
      obtain rfl := Option.some.inj (hc.symm.trans hj)
      have hi := (List.getElem?_eq_some_iff.mp hc).1
      cases createStep_holds hout with
      | keep _ hkeep =>
        exact .inl ⟨_, List.mem_set hi _, hkeep.trans hheld⟩
      | insert hpc => simp [hpc, CreatePc.held] at hheld
      | reject hpc _ hop =>
        rw [hpc] at hheld
        cases hheld
        exact .inr (.inr ⟨i, _, rfl, .inl ⟨_, by rw [hc, Option.map_some, hpc],
          by rw [State.afterCreate, hop]⟩⟩)
      | approve hpc _ hop =>
        rw [hpc] at hheld
        cases hheld
        exact .inr (.inr ⟨i, _, rfl, .inr ⟨by rw [hc, Option.map_some, hpc],
          by rw [State.afterCreate, hop]⟩⟩)
    · refine .inl ⟨call, List.mem_iff_getElem?.mpr ⟨j, ?_⟩, hheld⟩
      rw [State.afterCreate, List.getElem?_set_ne hij, hj]
  | crash => exact .inr (.inl rfl)
  | submit => exact .inl ⟨call, List.mem_append_left _ hcall, hheld⟩
  | _ => exact .inl ⟨call, hcall, hheld⟩

theorem Writes.unsent_origin (hw : Writes σ ev op) (hs : σ.db.findById id = some s) :
    ((op.onRow σ.now s).status = .received → s.status = .received) ∧
      ((op.onRow σ.now s).status = .complianceApproved → s.status = .complianceApproved ∨
        ∃ i call o, ev = .create i (.written o) ∧ σ.creates[i]? = some call ∧
          call.pc = .approve id) := by
  have hid := Db.id_of_findById hs
  cases hw with
  | idle | insert | book => exact ⟨fun h => h, .inl⟩
  | resend => simp only [DbOp.onRow]; split_ifs <;> exact ⟨fun h => h, .inl⟩
  | @approve i call k o r hcall hpc =>
    rcases onRow_transition_cases σ.now s k .complianceApproved {} with heq | ⟨hk, -, heq⟩ <;> rw [heq]
    · exact ⟨fun h => h, .inl⟩
    · refine ⟨by simp [Settlement.withTransition], fun _ => .inr ⟨i, call, o, rfl, hcall, ?_⟩⟩
      rw [hpc, ← hk, hid]
  | _ =>
    rcases onRow_transition_cases _ s _ _ _ with heq | ⟨-, -, heq⟩ <;> rw [heq]
    · exact ⟨fun h => h, .inl⟩
    · simp [Settlement.withTransition]

theorem status_of_verdict {db : Db} {now : ℕ} {toStatus : SettlementStatus}
    {opts : TransitionOptions} {s' : Settlement} (hs : db.findById id = some s)
    (hallow : opts.allows s.status = true)
    (hs' : ((DbOp.transition id toStatus opts).apply now db).findById id = some s') :
    s'.status = toStatus := by
  rw [findById_apply hs, onRow_transition_of (Db.id_of_findById hs) hallow] at hs'
  rw [← Option.some.inj hs']
  rfl

theorem attended_received (hI : σ.Attended) (hk : σ.strands ev = false)
    (h : step cfg σ ev = some σ') {s' : Settlement} (hs' : σ'.db.findById id = some s')
    (hrec : s'.status = .received) : ∃ call ∈ σ'.creates, call.pc.held = some id := by
  obtain ⟨op, hw, hdb⟩ := step_db h
  have hs₁ := hs'
  rw [hdb] at hs₁
  rcases findById_apply_cases hs₁ with ⟨s, hs, rfl⟩ | ⟨-, rfl, hid⟩
  · have hrec₀ := (hw.unsent_origin hs).1 hrec
    obtain ⟨call, hcall, hheld⟩ := hI.received id s hs hrec₀
    rcases held_kept h hcall hheld with hkept | rfl | ⟨i, o, rfl, ⟨reason, hpc, hdb'⟩ | ⟨hpc, hdb'⟩⟩
    · exact hkept
    · have hall := List.any_eq_false.mp hk s (Db.mem_of_findById hs)
      simp [hrec₀] at hall
    · have ho : o.committed = true := by simpa [State.strands, hpc] using hk
      rw [hdb', (o.commits_eq _).resolve_left ?_ |>.2] at hs'
      · rw [status_of_verdict hs rfl hs'] at hrec
        cases hrec
      · cases o <;> simp_all [DbOutcome.commits, DbOutcome.committed]
    · have ho : o = .ok := by
        by_contra hne
        simp [State.strands, hpc, hne] at hk
      rw [hdb', ho] at hs'
      rw [status_of_verdict hs rfl hs'] at hrec
      cases hrec
  · cases hw with
    | @insert i call k o db' hcall hpc hnew ho =>
      cases stepsTo h with
      | @create _ _ c out hcall' hout =>
        obtain rfl := Option.some.inj (hcall.symm.trans hcall')
        cases o with
        | ok =>
          have hi := (List.getElem?_eq_some_iff.mp hcall).1
          have hfresh : σ.db.findById k = none := Db.findById_none_of_create hnew
          simp only [createStep, hpc, hfresh, ne_eq, not_true_eq_false, if_false, hnew,
            Option.isSome_some, if_true, Option.some.injEq] at hout
          refine ⟨_, List.mem_set hi _, ?_⟩
          rw [← hid, ← hout]
          rfl
        | lost => cases ho
        | ambiguous => cases hk

theorem isApproved_of (hs : σ.db.findById id = some s) (hca : s.status = .complianceApproved) :
    σ.isApproved id = true := by
  simp [State.isApproved, hs, hca]

theorem not_approved_of_ended {pc : JobPc} {e : JobEvent} {s' : Settlement}
    (hk : σ.strands (.job e) = false) (h : step cfg σ (.job e) = some σ')
    (hworker : σ.relayer.worker = some (id, pc)) (hends : JobEnds σ id pc e)
    (hs : σ.db.findById id = some s) (hca : s.status = .complianceApproved)
    (hs' : σ'.db.findById id = some s') : s'.status ≠ .complianceApproved := by
  intro hca'
  have happroved := isApproved_of hs hca
  cases hends with
  | unsendable hwhy =>
    rcases hwhy s hs with ⟨hne, -⟩ | hnone
    · exact hne hca
    · simp [State.strands, hworker, hs, hca, hnone] at hk
  | findError => simp [State.strands, hworker, happroved] at hk
  | feesError => simp [State.strands, hworker, happroved] at hk
  | countError => simp [State.strands, hworker, happroved] at hk
  | submitted v =>
    cases stepsTo h with
    | job hworker' hout =>
      rw [hworker] at hworker'
      cases hworker'
      rw [jobStep] at hout
      split_ifs at hout
      cases hout
      rw [status_of_verdict hs rfl hs'] at hca'
      cases hca'
  | failed v reason o =>
    have ho : o.committed = true := by simpa [State.strands, hworker, happroved] using hk
    cases stepsTo h with
    | job hworker' hout =>
      rw [hworker] at hworker'
      cases hworker'
      rw [jobStep] at hout
      split_ifs at hout
      cases hout
      cases o with
      | lost => cases ho
      | ok | ambiguous =>
        rw [status_of_verdict hs rfl hs'] at hca'
        cases hca'

theorem attended_approved (hc : Custody σ) (hI : σ.Attended) (hk : σ.strands ev = false)
    (h : step cfg σ ev = some σ') {s' : Settlement} (hs' : σ'.db.findById id = some s')
    (hca : s'.status = .complianceApproved) : id ∈ σ'.relayer.jobs := by
  obtain ⟨op, hw, hdb⟩ := step_db h
  have hs₁ := hs'
  rw [hdb] at hs₁
  rcases findById_apply_cases hs₁ with ⟨s, hs, rfl⟩ | ⟨-, rfl, hid⟩
  swap
  · cases hw
    cases hca
  rcases (hw.unsent_origin hs).2 hca with hca₀ | ⟨i, call, o, rfl, hcall, hpc⟩
  · have hjobs : id ∈ σ.relayer.jobs := by
      rcases hI.approved id s hs hca₀ with ⟨call, hcall, hheld⟩ | hq | ⟨pc, hpc⟩
      · obtain ⟨r, hr, hrec⟩ := hc.held call hcall id hheld
        rw [hs] at hr
        cases hr
        simp [hca₀] at hrec
      · exact List.mem_append_right _ hq
      · exact Relayer.mem_jobs_of_worker hpc
    have hline := step_jobs h
    generalize σ'.relayer.jobs = jobs at hline
    cases hline with
    | same => exact hjobs
    | crash =>
      have hall := List.any_eq_false.mp hk s (Db.mem_of_findById hs)
      simp [hca₀] at hall
    | enqueue => split_ifs; exacts [hjobs, List.mem_append_left _ hjobs]
    | requeue => split_ifs; exacts [hjobs, List.mem_append_left _ hjobs]
    | @ended k pc e _ hworker hends hcons =>
      rw [hcons] at hjobs
      rcases List.mem_cons.mp hjobs with rfl | hjobs
      · exact absurd hca (not_approved_of_ended hk h hworker hends hs hca₀ hs')
      · exact hjobs
  -- just approved: the verdict returned and the relayer does not drain
  · have hboth : o = .ok ∧ σ.relayer.draining = false := by
      simpa [State.strands, hcall, hpc] using hk
    obtain ⟨rfl, hdrain⟩ := hboth
    cases stepsTo h with
    | @create _ _ c out hcall' hout =>
      obtain rfl := Option.some.inj (hcall.symm.trans hcall')
      cases createStep_holds hout with
      | keep hev => exact absurd rfl (hev .ok)
      | reject hpc' => simp [hpc] at hpc'
      | approve hpc' _ _ henq =>
        rw [hpc] at hpc'
        cases hpc'
        rw [State.afterCreate, henq, enqueueAfter, Option.elim, Relayer.jobs_enqueueId, hdrain]
        exact List.mem_append_right _ (List.mem_singleton_self id)

theorem attended_step (hc : Custody σ) (hI : σ.Attended) (hk : σ.strands ev = false)
    (h : step cfg σ ev = some σ') : σ'.Attended := by
  refine ⟨fun id s hs hrec => attended_received hI hk h hs hrec, fun id s hs hca => .inr ?_⟩
  rcases List.mem_append.mp (attended_approved hc hI hk h hs hca) with hworker | hqueue
  · obtain ⟨w, hw, rfl⟩ := Option.map_eq_some_iff.mp (Option.mem_toList.mp hworker)
    exact .inr ⟨w.2, hw⟩
  · exact .inl hqueue

theorem attended_initial (cfg : Config) (base opening : ℕ) : (initial cfg base opening).Attended := by
  constructor <;> intro id s hs hst <;> rw [(findById_initial hs).1] at hst <;> cases hst

theorem noneStranded_of_not_strands {base opening : ℕ}
    (h : RailReach cfg (fun σ ev => σ.strands ev = false) base opening σ) : σ.NoneStranded :=
  fun _ => h.invariant (attended_initial cfg base opening) fun _ _ _ hr hI hk hs =>
    attended_step (custody_reach hr) hI hk hs

theorem settled_payout_attended :
    ∃ σ, RailReach (plainConfig 3) (fun σ ev => σ.strands ev = false) 7 100 σ ∧
      ((σ.db.findById 1).any fun s => s.status = .final) = true ∧ σ.NoneStranded := by
  obtain ⟨σ, hr, hfinal⟩ := exists_reach_of_checkedRun (step (plainConfig 3))
    (fun σ ev => σ.strands ev = false) (initial (plainConfig 3) 7 100) settleEvents
    (fun σ => (σ.db.findById 1).any fun s => s.status = .final) (by decide +kernel)
  exact ⟨σ, hr, hfinal, noneStranded_of_not_strands hr⟩

/-- The process dies with an approved instruction in its queue and boots again. -/
def crashedBeforeSend : List Event := bootEvents ++ submitEvents 0 1 payout ++ [.crash] ++ bootEvents

theorem approved_row_forgotten :
    ¬∀ cfg base opening σ, Reach (step cfg) (initial cfg base opening) σ → σ.NoneStranded := by
  intro hall
  obtain ⟨σ, hr, hbad⟩ := exists_reach_of_run (step (plainConfig 3))
    (initial (plainConfig 3) 7 100) crashedBeforeSend
    (fun σ => σ.relayer.recovery = .done && σ.isApproved 1 && σ.creates.isEmpty &&
      σ.relayer.queue.isEmpty && σ.relayer.worker.isNone) (by decide +kernel)
  simp only [Bool.and_eq_true, decide_eq_true_eq, List.isEmpty_iff,
    Option.isNone_iff_eq_none] at hbad
  obtain ⟨⟨⟨⟨hdone, happroved⟩, hcreates⟩, hqueue⟩, hworker⟩ := hbad
  rcases hs : σ.db.findById 1 with _ | s
  · simp [State.isApproved, hs] at happroved
  · have hca : s.status = .complianceApproved := by
      simpa [State.isApproved, hs] using happroved
    have := (hall _ _ _ σ hr hdone).approved 1 s hs hca
    simp [hcreates, hqueue, hworker] at this

end Rail
