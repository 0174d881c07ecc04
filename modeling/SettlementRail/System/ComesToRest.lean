import SettlementRail.System.Custody
import SettlementRail.System.Scenario
import SettlementRail.System.Workload

/-! The process comes to rest. Its runs of internal steps are bounded, and a state without an
internal step is one where every thread is through; none of them waits for another. -/

namespace Rail
open Foundation

def CreatePc.ended : CreatePc → Bool
  | .returned .. | .threw _ => true
  | _ => false

def DvpPc.ended : DvpPc → Bool
  | .returned | .threw => true
  | _ => false

/-- Every request is answered and every loop of the process is between two rounds. -/
structure State.AtRest (σ : State) : Prop where
  creates : ∀ call ∈ σ.creates, call.pc.ended = true
  worker : σ.relayer.worker = none
  sweep : σ.relayer.sweep = none
  recovery : σ.up = true → σ.relayer.recovery = .done
  listeners : ∀ call ∈ σ.listeners, call.pc = .done
  dvps : ∀ pc ∈ σ.dvps, pc.ended = true

def Relayer.Fed (r : Relayer) : Prop := r.worker = none → r.queue = [] ∨ r.draining = true

variable {cfg : Config} {σ σ' : State} {ev : Event} {base opening : ℕ}
variable {C : State → Event → Prop}

theorem createStep_enabled (compliance : Address → ComplianceResult) (db : Db) (now : ℕ)
    {call : CreateCall} (h : call.pc.ended = false) :
    ∃ e, (createStep compliance db now call e).isSome := by
  -- an awaited call may always fail, whatever the database holds
  obtain ⟨dto, pc⟩ := call
  cases pc with
  | find => exact ⟨.dbError, rfl⟩
  | reading reads => exact ⟨.dbError, rfl⟩
  | insert => exact ⟨.inserted 0 (.lost ()), rfl⟩
  | findRaced => exact ⟨.dbError, rfl⟩
  | check id => exact ⟨.screened, rfl⟩
  | reject id reason => exact ⟨.written (.lost ()), rfl⟩
  | approve id => exact ⟨.written (.lost ()), rfl⟩
  | returned | threw => cases h

theorem jobStep_enabled (rc : RelayerConfig) (db : Db) (node : Node) (now localNonce : ℕ)
    (inflight : Inflight) (id : SettlementId) (pc : JobPc) :
    ∃ e, (jobStep rc db node now localNonce inflight id pc e).isSome := by
  cases pc with
  | find => exact ⟨.callError, rfl⟩
  | estimateGas v => exact ⟨.estimated none, rfl⟩
  | buildFees v => exact ⟨.callError, rfl⟩
  | broadcast v => exact ⟨.sent (.refused timeout), rfl⟩
  | writeSubmitted v => exact ⟨.written (.lost timeout), rfl⟩
  | resync v cls => exact ⟨.callError, rfl⟩
  | backoff v => exact ⟨.woke, rfl⟩
  | fail v reason => exact ⟨.written (.lost timeout), rfl⟩

theorem sweepStep_enabled (rc : RelayerConfig) (db : Db) (node : Node) (now : ℕ)
    (inflight : Inflight) (pc : SweepPc) :
    ∃ e, (sweepStep rc db node now inflight pc e).isSome := by
  cases pc with
  | find => exact ⟨.callError, rfl⟩
  | receipt s rest => exact ⟨.callError, rfl⟩
  | feesFromTx s rest => exact ⟨.callError, rfl⟩
  | buildFees s rest => exact ⟨.callError, rfl⟩
  | estimateGas s rest fees => exact ⟨.estimated none, rfl⟩
  | broadcast s rest fees gasLimit => exact ⟨.sent (.refused timeout), rfl⟩
  | recordResend s rest tx => exact ⟨.written (.lost timeout), rfl⟩
  | fail s rest reason retryCount => exact ⟨.written (.lost timeout), rfl⟩

theorem recoveryStep_enabled {db : Db} {pc : RecoveryPc} (node : Node) (now localNonce : ℕ)
    (inflight : Inflight) (hrows : ∀ s ∈ pc.rows, (db.findById s.id).isSome) (h : pc ≠ .done) :
    ∃ e, (recoveryStep db node now localNonce inflight pc e).isSome := by
  cases pc with
  | fetchNonce => exact ⟨.counted, rfl⟩
  | find => exact ⟨.found, rfl⟩
  | receipt s rest =>
    refine ⟨.receipt, ?_⟩
    simp only [recoveryStep]
    repeat' split
    all_goals rfl
  | fail s rest =>
    -- the transition throws for an unknown id only
    refine ⟨.written, ?_⟩
    have hrow := hrows s (by simp [RecoveryPc.rows])
    simp [recoveryStep, Option.ne_none_iff_isSome.mpr hrow]
  | getTransaction s rest =>
    refine ⟨.txLookup, ?_⟩
    simp only [recoveryStep]
    split <;> rfl
  | done => exact absurd rfl h

theorem listenStep_enabled (lc : ListenerConfig) (db : Db) (node : Node) (now : ℕ) {pc : ListenPc}
    (h : pc ≠ .done) : ∃ e, (listenStep lc db node now pc e).isSome := by
  cases pc with
  | pollFind => exact ⟨.callError, rfl⟩
  | pollHead opened => exact ⟨.callError, rfl⟩
  | eventFind txHash => exact ⟨.callError, rfl⟩
  | eventHead s => exact ⟨.callError, rfl⟩
  | receipt s head rest => exact ⟨.callError, rfl⟩
  | revert s head rest => exact ⟨.written (.lost ()), rfl⟩
  | reorg s head rest => exact ⟨.written (.lost ()), rfl⟩
  | confirm s receipt head rest => exact ⟨.written (.lost ()), rfl⟩
  | book s receipt head rest => exact ⟨.written (.lost ()), rfl⟩
  | flip s receipt head rest => exact ⟨.written (.lost ()), rfl⟩
  | done => exact absurd rfl h

theorem dvpStep_enabled (node : Node) (index : ℕ) {pc : DvpPc} (h : pc.ended = false) :
    ∃ e, (dvpStep node index pc e).isSome := by
  cases pc with
  | send nonce call rest => exact ⟨.sent 0 ⟨0, 0⟩ (.refused timeout), rfl⟩
  | getBlock | allowance | populate | wait => exact ⟨.callError, rfl⟩
  | returned | threw => cases h

theorem createStep_ended {compliance : Address → ComplianceResult} {db : Db} {now : ℕ}
    {call : CreateCall} (h : call.pc.ended = true) (e : CreateEvent) :
    createStep compliance db now call e = none := by
  obtain ⟨dto, pc⟩ := call
  cases pc with
  | returned | threw => rfl
  | _ => cases h

theorem dvpStep_ended {node : Node} {index : ℕ} {pc : DvpPc} (h : pc.ended = true) (e : DvpEvent) :
    dvpStep node index pc e = none := by
  cases pc with
  | returned | threw => cases e <;> rfl
  | _ => cases h

theorem stuck_of_atRest (h : σ.AtRest) : Stuck (step cfg) (fun _ ev => ev.internal = true) σ := by
  intro ev hev
  rcases hs : step cfg σ ev with _ | σ'
  · rfl
  · exfalso
    have hup : (∃ e, ev = .recover e) → σ.up = true := by
      rintro ⟨e, rfl⟩
      simp only [step] at hs
      split_ifs at hs with hup
      exact hup
    cases stepsTo hs with
    | create hcall hout =>
      rw [createStep_ended (h.creates _ (List.mem_of_getElem? hcall))] at hout
      cases hout
    | job hworker =>
      rw [h.worker] at hworker
      cases hworker
    | sweep hsweep =>
      rw [h.sweep] at hsweep
      cases hsweep
    | recover hout =>
      rw [h.recovery (hup ⟨_, rfl⟩)] at hout
      cases hout
    | listen hcall hout =>
      rw [h.listeners _ (List.mem_of_getElem? hcall)] at hout
      cases hout
    | dvp hdvp hout =>
      rw [dvpStep_ended (h.dvps _ (List.mem_of_getElem? hdvp))] at hout
      cases hout
    | _ => cases hev

theorem atRest_of_stuck (hc : Custody σ)
    (h : Stuck (step cfg) (fun _ ev => ev.internal = true) σ) : σ.AtRest where
  creates call hmem := by
    obtain ⟨i, hi⟩ := List.mem_iff_getElem?.mp hmem
    by_contra hended
    obtain ⟨e, he⟩ := createStep_enabled cfg.compliance σ.db σ.now (Bool.eq_false_iff.mpr hended)
    have hstep := h (.create i e) rfl
    rw [step, hi, Option.bind_some, Option.map_eq_none_iff] at hstep
    rw [hstep] at he
    cases he
  worker := by
    rcases hw : σ.relayer.worker with _ | ⟨id, pc⟩
    · rfl
    · obtain ⟨e, he⟩ := jobStep_enabled cfg.relayer σ.db σ.node σ.now σ.relayer.localNonce
        σ.relayer.inflight id pc
      have hstep := h (.job e) rfl
      rw [step, hw, Option.bind_some, Option.map_eq_none_iff] at hstep
      rw [hstep] at he
      cases he
  sweep := by
    rcases hw : σ.relayer.sweep with _ | pc
    · rfl
    · obtain ⟨e, he⟩ := sweepStep_enabled cfg.relayer σ.db σ.node σ.now σ.relayer.inflight pc
      have hstep := h (.sweep e) rfl
      rw [step, hw, Option.bind_some, Option.map_eq_none_iff] at hstep
      rw [hstep] at he
      cases he
  recovery hup := by
    by_contra hdone
    have hrows : ∀ s ∈ σ.relayer.recovery.rows, (σ.db.findById s.id).isSome := by
      intro s hs
      obtain ⟨r, hr, -⟩ := (hc.carried s (.walk (.recovery hs))).row
      rw [hr]
      rfl
    obtain ⟨e, he⟩ := recoveryStep_enabled σ.node σ.now σ.relayer.localNonce σ.relayer.inflight
      hrows hdone
    have hstep := h (.recover e) rfl
    rw [step, if_pos hup, Option.map_eq_none_iff] at hstep
    rw [hstep] at he
    cases he
  listeners call hmem := by
    obtain ⟨i, hi⟩ := List.mem_iff_getElem?.mp hmem
    by_contra hdone
    obtain ⟨e, he⟩ := listenStep_enabled cfg.listener σ.db σ.node σ.now hdone
    have hstep := h (.listen i e) rfl
    rw [step, hi, Option.bind_some, Option.map_eq_none_iff] at hstep
    rw [hstep] at he
    cases he
  dvps pc hmem := by
    obtain ⟨i, hi⟩ := List.mem_iff_getElem?.mp hmem
    by_contra hended
    obtain ⟨e, he⟩ := dvpStep_enabled σ.node i (Bool.eq_false_iff.mpr hended)
    have hstep := h (.dvp i e) rfl
    rw [step, hi, Option.bind_some, Option.map_eq_none_iff] at hstep
    rw [hstep] at he
    cases he

theorem Relayer.fed_runWorker (r : Relayer) : r.runWorker.Fed := by
  intro hw
  unfold runWorker at hw ⊢
  split at hw
  · rename_i hq
    exact .inl hq
  · rename_i id queue hq
    split_ifs at hw ⊢ with hdrain
    exact .inr hdrain

theorem Relayer.fed_enqueueId {r : Relayer} (h : r.Fed) (id : SettlementId) :
    (r.enqueueId id).Fed := by
  unfold enqueueId
  split_ifs with hdrain hworker
  · exact h
  · intro hw
    rw [show r.worker = none from hw] at hworker
    cases hworker
  · exact fed_runWorker _

theorem fed_step (hI : σ.relayer.Fed) (h : step cfg σ ev = some σ') : σ'.relayer.Fed := by
  cases stepsTo h with
  | @create i e call out hcall hout =>
    simp only [State.afterCreate]
    rcases out.enqueue with _ | id
    · exact hI
    · exact Relayer.fed_enqueueId hI id
  | @job id pc e out hworker hout =>
    simp only [State.afterJob]
    split_ifs with hpc
    · intro hw
      obtain ⟨pc', hpc'⟩ := Option.isSome_iff_exists.mp hpc
      simp only [hpc', Option.map_some, reduceCtorEq] at hw
    · exact Relayer.fed_runWorker _
  | @recover e out hout =>
    have hfold : ∀ (ids : List SettlementId) (r : Relayer), r.Fed →
        (ids.foldl Relayer.enqueueId r).Fed := by
      intro ids
      induction ids with
      | nil => exact fun _ hr => hr
      | cons id ids ih => exact fun r hr => ih _ (Relayer.fed_enqueueId hr id)
    exact hfold _ _ hI
  | crash => exact fun _ => .inl rfl
  | drain => exact fun _ => .inr rfl
  | _ => exact hI

theorem fed_reach (h : RailReach cfg C base opening σ) : σ.relayer.Fed :=
  h.invariant (fun _ => .inl rfl) fun _ _ _ _ hI _ hs => fed_step hI hs

/-- From any state whatever, however the awaited calls end and in whatever order: no more of them
can resolve than there is work, so there is no infinite run without an event from outside. -/
theorem internal_runs_bounded (cfg : Config) (σ : State) :
    (∀ es σ', RunUnder (step cfg) (fun _ ev => ev.internal = true) σ es σ' →
      es.length + σ'.work cfg σ.rowBound ≤ σ.work cfg σ.rowBound) ∧
    ∀ f : ℕ → State, f 0 = σ →
      ¬∀ n, ∃ ev, Event.internal ev = true ∧ step cfg (f n) ev = some (f (n + 1)) := by
  have hlowers := lowers_work cfg σ.rowBound
  refine ⟨fun es σ' hrun => (hlowers.length_le (Nat.le_refl _) hrun).2, fun f hf => ?_⟩
  exact hlowers.no_infinite_run (by rw [hf])

/-- In the states the rail reaches nothing blocks: without an internal step left every thread is
through and no job waits unless the relayer drains. Every state leads to one like that. -/
theorem stuck_iff_atRest (h : RailReach cfg C base opening σ) :
    (Stuck (step cfg) (fun _ ev => ev.internal = true) σ ↔ σ.AtRest) ∧
      (σ.AtRest → σ.relayer.draining = false → σ.relayer.queue = []) ∧
      ∃ es σ', RunUnder (step cfg) (fun _ ev => ev.internal = true) σ es σ' ∧ σ'.AtRest := by
  refine ⟨⟨atRest_of_stuck (custody_reach h), stuck_of_atRest⟩, fun hrest hlive => ?_, ?_⟩
  · rcases fed_reach h hrest.worker with hempty | hdrain
    · exact hempty
    · rw [hlive] at hdrain
      cases hdrain
  · obtain ⟨es, σ', hrun, hstuck⟩ := (lowers_work cfg σ.rowBound).exists_stuck (Nat.le_refl _)
    have hreach : RailReach cfg (fun _ _ => True) base opening σ' :=
      h.reach.trans hrun.reach.reach
    exact ⟨es, σ', hrun, atRest_of_stuck (custody_reach hreach) hstuck⟩

theorem payout_comes_to_rest :
    ∃ σ, RailReach (plainConfig 3) (fun _ _ => True) 7 100 σ ∧ ¬σ.AtRest ∧
      ∃ es σ', RunUnder (step (plainConfig 3)) (fun _ ev => ev.internal = true) σ es σ' ∧
        σ'.AtRest := by
  obtain ⟨σ, hr, hbusy⟩ := exists_reach_of_run (step (plainConfig 3))
    (initial (plainConfig 3) 7 100) (bootEvents ++ submitEvents 0 1 payout)
    (fun σ => σ.relayer.worker.isSome) (by decide +kernel)
  refine ⟨σ, hr, fun hrest => ?_, (stuck_iff_atRest hr).2.2⟩
  rw [hrest.worker] at hbusy
  cases hbusy

end Rail
