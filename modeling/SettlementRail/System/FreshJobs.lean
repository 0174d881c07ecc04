import SettlementRail.System.SentTransactions

/-! Nothing is accepted for a settlement before its first job has started. -/

namespace Rail
open Foundation

variable {cfg : Config} {σ σ' : State} {ev : Event} {s : Settlement} {id : SettlementId} {tx : Tx}

def State.Waiting (σ : State) (id : SettlementId) : Prop :=
  (∃ call ∈ σ.creates, call.pc.held = some id) ∨
    (id ∈ σ.relayer.jobs ∧ ∀ pc, σ.relayer.worker = some (id, pc) → pc = .find)

/-- While a settlement has no nonce, what waits for its first job has nothing accepted. -/
def State.UnsentWaiting (σ : State) : Prop :=
  ∀ id s, σ.db.findById id = some s → s.nonce = none → σ.Waiting id → ∀ tx, ¬σ.node.Sent id tx

theorem Accepts.not_waiting (ha : Accepts σ ev ⟨.settlement id, tx⟩) (hc : Custody σ)
    (hs : σ.db.findById id = some s) (hnone : s.nonce = none) : ¬σ.Waiting id := by
  cases ha with
  | job hworker =>
    have hmem := Relayer.mem_jobs_of_worker hworker
    rintro (⟨call, hcall, hheld⟩ | ⟨-, hfind⟩)
    · have hone := hc.tokens id s hs hnone
      have hpos := holders_pos hcall hheld
      have hcount := List.count_pos_iff.mpr hmem
      simp only [State.tokens] at hone
      omega
    · cases hfind _ hworker
  | @sweep t rest fees gasLimit baseUnits reply hsweep hunits =>
    have ht : σ.Walks t := .sweep (by simp [hsweep, SweepPc.rowsOf, SweepPc.rows])
    obtain ⟨r, hr, -, -, -, hnonce⟩ := (hc.carried t (.walk ht)).row
    rw [hs] at hr
    cases hr
    have := hnonce (hc.walked t ht).1
    simp [hnone] at this

theorem waiting_of_step (hc : Custody σ) (h : step cfg σ ev = some σ')
    (hs : σ.db.findById id = some s) (hnone : s.nonce = none) (hw : σ'.Waiting id) :
    σ.Waiting id := by
  have hone := hc.tokens id s hs hnone
  rcases hw with ⟨call, hcall, hheld⟩ | ⟨hjobs, hfind⟩
  · rcases step_held h hcall hheld with hheld | ⟨hfresh, -⟩
    · exact .inl hheld
    · simp [hs] at hfresh
  have hline := step_jobs h
  have waits : id ∈ σ.relayer.jobs → σ.Waiting id := by
    intro hmem
    refine .inr ⟨hmem, fun pc hpc => ?_⟩
    rcases step_worker_of h hpc with rfl | hworker | ⟨e, rfl, ⟨pc', hworker, hmoves⟩ | ⟨-, hcons⟩⟩
    · cases stepsTo h
      cases hjobs
    · exact hfind pc hworker
    · obtain rfl := hfind pc' hworker
      generalize σ'.relayer.localNonce = localNonce at hmoves
      cases hmoves with
      | advance _ hv' => cases hv'
    -- the job ended and its id is still in the line, so it was there twice
    · exfalso
      have hcount := List.count_pos_iff.mpr hjobs
      simp only [State.tokens, hcons, List.count_cons_self] at hone
      omega
  generalize hjobs' : σ'.relayer.jobs = jobs at hline hjobs
  cases hline with
  | same => exact waits hjobs
  | crash => cases hjobs
  | ended _ _ hcons => exact waits (hcons ▸ List.mem_cons_of_mem _ hjobs)
  | enqueue hcall hpc =>
    split_ifs at hjobs
    · exact waits hjobs
    · rcases List.mem_append.mp hjobs with hmem | hmem
      · exact waits hmem
      · obtain rfl := List.mem_singleton.mp hmem
        exact .inl ⟨_, List.mem_of_getElem? hcall, by rw [hpc]; rfl⟩
  | requeue hids =>
    split_ifs at hjobs
    · exact waits hjobs
    · rcases List.mem_append.mp hjobs with hmem | hmem
      · exact waits hmem
      · obtain ⟨t, ht, rfl⟩ := hids id hmem
        have := requeued_nonce hc ht hs
        simp [hnone] at this

theorem unsentWaiting_step (hc : Custody σ) (hsent : SentInv σ) (hI : σ.UnsentWaiting)
    (h : step cfg σ ev = some σ') : σ'.UnsentWaiting := by
  intro id s' hs' hnone hw tx ht
  have hrow : ∃ s, σ.db.findById id = some s := by
    rcases step_sent h ht with ht | ha
    · obtain ⟨s, hs, -⟩ := hsent.pays id tx ht
      exact ⟨s, hs⟩
    · obtain ⟨s, hs, -⟩ := ha.pays hc
      exact ⟨s, hs⟩
  obtain ⟨s, hs⟩ := hrow
  obtain ⟨op, hwrites, hdb⟩ := step_db h
  have hsnone : s.nonce = none := by
    rw [hdb, findById_apply hs] at hs'
    rw [← Option.not_isSome_iff_eq_none] at hnone ⊢
    exact fun hsome => hnone (Option.some.inj hs' ▸ hwrites.nonce_isSome hsome)
  have hwait := waiting_of_step hc h hs hsnone hw
  rcases step_sent h ht with ht | ha
  · exact hI id s hs hsnone hwait tx ht
  · exact ha.not_waiting hc hs hsnone hwait

theorem unsentWaiting_reach {C : State → Event → Prop} {base opening : ℕ}
    (h : RailReach cfg C base opening σ) : σ.UnsentWaiting :=
  h.invariant (fun _ _ _ _ _ _ ht => by cases ht)
    fun _ _ _ hr hI _ hs => unsentWaiting_step (custody_reach hr) (sentInv_reach hr) hI hs

end Rail
