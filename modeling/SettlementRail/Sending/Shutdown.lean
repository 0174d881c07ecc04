import SettlementRail.System.Scenario
import SettlementRail.System.SentTransactions

/-! What the relayer still does once its module is being destroyed: it ends the job and the sweep
it is at. -/

namespace Rail
open Foundation

def Relayer.inHand (r : Relayer) : Option SettlementId := r.worker.map Prod.fst

variable {cfg : Config} {σ σ' ρ : State} {ev : Event} {op : DbOp} {s t : Settlement}
variable {id : SettlementId} {C : State → Event → Prop} {base opening : ℕ} {es : List Event}

structure Relayer.Winds (r r' : Relayer) : Prop where
  draining : r'.draining = true
  queue : r'.queue = r.queue
  inHand : r'.inHand = r.inHand ∨ r'.inHand = none
  sweep : r.sweep = none → r'.sweep = none

theorem Relayer.Winds.refl {r : Relayer} (h : r.draining = true) : r.Winds r :=
  ⟨h, rfl, .inl rfl, id⟩

theorem Relayer.Winds.trans {r r' r'' : Relayer} (h : r.Winds r') (h' : r'.Winds r'') :
    r.Winds r'' := by
  refine ⟨h'.draining, h'.queue.trans h.queue, ?_, fun hnone => h'.sweep (h.sweep hnone)⟩
  rcases h'.inHand with heq | hnone
  · rw [heq]
    exact h.inHand
  · exact .inr hnone

theorem Relayer.enqueueId_of_draining {r : Relayer} (h : r.draining = true) (id : SettlementId) :
    r.enqueueId id = r := if_pos h

theorem Relayer.foldl_of_draining {r : Relayer} (h : r.draining = true) (ids : List SettlementId) :
    ids.foldl enqueueId r = r := by
  induction ids with
  | nil => rfl
  | cons id ids ih => rw [List.foldl_cons, enqueueId_of_draining h, ih]

theorem Relayer.runWorker_of_draining {r : Relayer} (h : r.draining = true) :
    r.runWorker = { r with worker := none } := by
  unfold runWorker
  split
  · rfl
  · exact if_pos h

theorem winds_step (hdrain : σ.relayer.draining = true) (hno : ev ≠ .crash)
    (h : step cfg σ ev = some σ') : σ.relayer.Winds σ'.relayer := by
  cases stepsTo h with
  | crash => exact absurd rfl hno
  | @create i e call out hcall hout =>
    have hsame : out.enqueue.elim σ.relayer σ.relayer.enqueueId = σ.relayer := by
      rcases out.enqueue with _ | id
      · rfl
      · exact Relayer.enqueueId_of_draining hdrain id
    rw [State.afterCreate, hsame]
    exact .refl hdrain
  | @job id pc e out hworker hout =>
    simp only [State.afterJob]
    split_ifs with hgoes
    · obtain ⟨pc', hpc'⟩ := Option.isSome_iff_exists.mp hgoes
      refine ⟨hdrain, rfl, .inl ?_, fun hnone => hnone⟩
      simp only [Relayer.inHand, hpc', hworker, Option.map_some]
    · rw [Relayer.runWorker_of_draining (by exact hdrain)]
      exact ⟨hdrain, rfl, .inr rfl, fun hnone => hnone⟩
  | startSweep =>
    rw [step, hdrain] at h
    simp at h
  | sweep hsweep =>
    refine ⟨hdrain, rfl, .inl rfl, fun hnone => ?_⟩
    rw [hsweep] at hnone
    cases hnone
  | @recover e out hout =>
    have hsame := Relayer.foldl_of_draining
      (r := { σ.relayer with
        recovery := out.pc, localNonce := out.localNonce, inflight := out.inflight })
      hdrain out.requeue
    rw [State.afterRecovery, hsame]
    exact ⟨hdrain, rfl, .inl rfl, fun hnone => hnone⟩
  | drain => exact ⟨rfl, rfl, .inl rfl, fun hnone => hnone⟩
  | _ => exact .refl hdrain

theorem Writes.unsent_untouched (hw : Writes σ ev op) (hc : Custody σ)
    (hs : σ.db.findById s.id = some s) (happroved : s.status = .complianceApproved)
    (hhand : σ.relayer.inHand ≠ some s.id) : op.onRow σ.now s = s := by
  -- rows that are walked over have a nonce, an approved one has none
  have walked : ∀ {t}, σ.Walks t → s.id ≠ t.id := by
    intro t ht hid
    obtain ⟨r, hr, -, -, -, hnonce⟩ := (hc.carried t (.walk ht)).row
    rw [← hid] at hr
    obtain rfl := Option.some.inj (hs.symm.trans hr)
    have hnone := (hc.columns s.id s hs).unsent (.inr (.inr happroved))
    have hsome := hnonce (hc.walked t ht).1
    rw [hnone] at hsome
    cases hsome
  -- a request holds its row in RECEIVED only
  have held : ∀ {i : ℕ} {call : CreateCall}, σ.creates[i]? = some call →
      call.pc.held ≠ some s.id := by
    intro i call hcall hheld
    obtain ⟨r, hr, hrec⟩ := hc.held call (List.mem_of_getElem? hcall) s.id hheld
    obtain rfl := Option.some.inj (hs.symm.trans hr)
    rw [happroved] at hrec
    cases hrec
  cases hw with
  | idle | insert | book => rfl
  | reject hcall hpc | approve hcall hpc =>
    exact onRow_of_ne fun hid => held hcall (by rw [hpc, hid]; rfl)
  | submitted hworker | jobFail hworker =>
    exact onRow_of_ne fun hid => hhand (by rw [Relayer.inHand, hworker, hid]; rfl)
  | resend hsweep => exact if_neg (walked (walks_of_sweep hsweep (by simp [SweepPc.rows])))
  | sweepFail hsweep => exact onRow_of_ne (walked (walks_of_sweep hsweep (by simp [SweepPc.rows])))
  | recoveryFail hrecovery =>
    exact onRow_of_ne (walked (.recovery (by simp [hrecovery, RecoveryPc.rows])))
  | revert hcall hpc | reorg hcall hpc | confirm hcall hpc | flip hcall hpc =>
    exact onRow_of_ne (walked (.listener (List.mem_of_getElem? hcall) (by simp [hpc, ListenPc.rows])))

theorem Accepts.sent_before {tx : Tx} (ha : Accepts σ ev ⟨.settlement id, tx⟩) (hc : Custody σ)
    (hI : SentInv σ) : σ.relayer.inHand = some id ∨
      σ.relayer.sweep ≠ none ∧ ∃ tx', σ.node.Sent id tx' := by
  cases ha with
  | job hworker => exact .inl (by rw [Relayer.inHand, hworker]; rfl)
  | @sweep t rest fees gasLimit baseUnits reply hsweep hunits =>
    have ht : σ.Walks t := walks_of_sweep hsweep (by simp [SweepPc.rows])
    obtain ⟨tx', htx'⟩ := Option.isSome_iff_exists.mp (hc.walked t ht).2
    exact .inr ⟨by simp [hsweep], tx', hI.walkedHash t tx' ht htx'⟩

/-- What holds of a moment after the relayer began to drain, seen from that moment. -/
structure WoundDown (σ ρ : State) : Prop where
  winds : σ.relayer.Winds ρ.relayer
  sent : ∀ id tx, ρ.node.Sent id tx → σ.relayer.inHand = some id ∨ ∃ tx', σ.node.Sent id tx'
  resent : σ.relayer.sweep = none →
    ∀ id tx, ρ.node.Sent id tx → σ.relayer.inHand = some id ∨ σ.node.Sent id tx
  unsent : ∀ id s, σ.db.findById id = some s → s.status = .complianceApproved →
    σ.relayer.inHand ≠ some id → ρ.db.findById id = some s

theorem woundDown_step (hr : RailReach cfg C base opening ρ) (hI : WoundDown σ ρ)
    (hno : ev ≠ .crash) (h : step cfg ρ ev = some σ') : WoundDown σ σ' := by
  have hc := custody_reach hr
  have hhand : ∀ {id}, ρ.relayer.inHand = some id → σ.relayer.inHand = some id := by
    intro id hin
    rcases hI.winds.inHand with heq | hnone
    · exact heq ▸ hin
    · rw [hnone] at hin
      cases hin
  refine ⟨hI.winds.trans (winds_step hI.winds.draining hno h), fun id tx ht => ?_,
    fun hidle id tx ht => ?_, fun id s hs happroved hnot => ?_⟩
  · rcases step_sent h ht with ht | ha
    · exact hI.sent id tx ht
    · rcases ha.sent_before hc (sentInv_reach hr) with hin | ⟨-, tx', ht'⟩
      · exact .inl (hhand hin)
      · exact hI.sent id tx' ht'
  · rcases step_sent h ht with ht | ha
    · exact hI.resent hidle id tx ht
    · rcases ha.sent_before hc (sentInv_reach hr) with hin | ⟨hsweep, -⟩
      · exact .inl (hhand hin)
      · exact absurd (hI.winds.sweep hidle) hsweep
  · have hkept := hI.unsent id s hs happroved hnot
    obtain ⟨op, hw, hdb⟩ := step_db h
    have hid := Db.id_of_findById hkept
    rw [hdb, findById_apply hkept, hw.unsent_untouched hc (by rwa [hid]) happroved
      fun hin => hnot (hhand (hid ▸ hin))]

/-- From the moment the relayer drains, as long as the process lives: no job and no sweep starts,
the queue stays as it is, only the job in hand can get a first transaction accepted, only the
sweep under way can replace one, and the rows of all other approved instructions stay untouched. -/
theorem drained_relayer_starts_nothing (hr : RailReach cfg C base opening σ)
    (hdrain : σ.relayer.draining = true)
    (hrun : RunUnder (step cfg) (fun _ ev => ev ≠ .crash) σ es ρ) : WoundDown σ ρ := by
  refine hrun.reach.invariant (I := WoundDown σ) ⟨.refl hdrain, fun id tx ht => .inr ⟨tx, ht⟩,
    fun _ id tx ht => .inr ht, fun id s hs _ _ => hs⟩ fun ρ ev σ' hρ hI hno hs => ?_
  exact woundDown_step (hr.reach.trans hρ.reach) hI hno hs

def queuedPayout : CreateSettlementDto :=
  { instructionId := "payout-2", toAddress := "0xpayee", amount := 7 }

/-- Two instructions are accepted, and the process is told to stop while it prepares the first. -/
def drainedEvents : List Event :=
  bootEvents ++ submitEvents 0 1 payout ++ submitEvents 1 2 queuedPayout ++ [.drain]

theorem drained_second_payout_waits : ∃ σ es ρ,
    RunUnder (step (plainConfig 3)) (fun _ ev => ev ≠ .crash) σ es ρ ∧
      ρ.relayer.queue = [2] ∧ (∃ tx, ρ.node.Sent 1 tx) ∧ WoundDown σ ρ := by
  obtain ⟨σ, hr, hdrain⟩ := exists_reach_of_run (step (plainConfig 3))
    (initial (plainConfig 3) 7 100) drainedEvents
    (fun σ => σ.relayer.draining && (checkedRun (step (plainConfig 3)) (fun _ ev => ev ≠ .crash) σ
      sendEvents).any fun ρ => ρ.relayer.queue = [2] &&
        ρ.node.Sent 1 (plainTransfer 7 payout)) (by decide +kernel)
  rw [Bool.and_eq_true] at hdrain
  obtain ⟨hdrain, hrest⟩ := hdrain
  obtain ⟨ρ, hρ, hend⟩ := exists_runUnder_of_checkedRun _ _ σ sendEvents _ hrest
  simp only [Bool.and_eq_true, decide_eq_true_eq] at hend
  exact ⟨σ, _, ρ, hρ, hend.1, ⟨_, hend.2⟩, drained_relayer_starts_nothing hr hdrain hρ⟩

end Rail
