import SettlementRail.System.LedgerEvolution

/-! The listener books first and flips the status in a second transaction, so a row that is FINAL,
or about to be, has its entries. -/

namespace Rail
open Foundation

structure FlipsBooked (σ : State) : Prop where
  flipping : ∀ c ∈ σ.listeners, ∀ t receipt head rest, c.pc = .flip t receipt head rest →
    σ.db.Booked t.id
  final : ∀ id s, σ.db.findById id = some s → s.status = .final → σ.db.Booked id

variable {cfg : Config} {σ σ' : State} {ev : Event} {op : DbOp} {t : Settlement}
variable {id : SettlementId}

theorem booked_of_flipping {c : ListenCall} {receipt : Receipt} {head : ℕ}
    {rest : List Settlement} (hc : Custody σ) (hp : σ.db.Paired) (hI : FlipsBooked σ)
    (h : step cfg σ ev = some σ') (hmem : c ∈ σ'.listeners)
    (hpc : c.pc = .flip t receipt head rest) : σ'.db.Booked t.id := by
  have hold : c ∈ σ.listeners → σ'.db.Booked t.id := fun hmem =>
    booked_step hc hp h (hI.flipping c hmem t receipt head rest hpc)
  cases stepsTo h with
  | @listen i e call out hcall hout =>
    rcases List.mem_or_eq_of_mem_set hmem with hmem | rfl
    · exact hold hmem
    · obtain ⟨hbook, rfl⟩ := listenStep_flip hout hpc
      have hw := writes_listen hcall hout
      rw [hbook, listenStep] at hout
      split_ifs at hout
      cases hout
      exact hw.booked_of_book hc hp σ.now
  | startPoll | transferEvent =>
    rcases List.mem_append.mp hmem with hmem | hmem
    · exact hold hmem
    · rw [List.mem_singleton.mp hmem] at hpc
      cases hpc
  | crash => cases hmem
  | _ => exact hold hmem

theorem FlipsBooked.of_transition {opts : TransitionOptions} (hI : FlipsBooked σ)
    (hw : Writes σ ev (.transition id .final opts)) : σ.db.Booked id := by
  generalize hop : DbOp.transition id .final opts = op at hw
  cases hw with
  | flip hcall hpc =>
    cases hop
    exact hI.flipping _ (List.mem_of_getElem? hcall) _ _ _ _ hpc
  | _ => cases hop

theorem flipsBooked_step (hc : Custody σ) (hp : σ.db.Paired) (hI : FlipsBooked σ)
    (h : step cfg σ ev = some σ') : FlipsBooked σ' := by
  obtain ⟨op, hw, hdb⟩ := step_db h
  refine ⟨fun c hmem t receipt head rest hpc => booked_of_flipping hc hp hI h hmem hpc,
    fun id s' hs' hfinal => ?_⟩
  have hs := hs'
  rw [hdb] at hs
  rcases findById_apply_cases hs with ⟨s, hrow, rfl⟩ | ⟨-, rfl, -⟩
  · by_cases hbefore : s.status = .final
    · exact booked_step hc hp h (hI.final id s hrow hbefore)
    · cases op with
      | transition k toStatus opts =>
        rcases onRow_transition_cases σ.now s k toStatus opts with heq | ⟨hid, -, heq⟩ <;>
          rw [heq] at hfinal
        · exact absurd hfinal hbefore
        · obtain rfl : toStatus = .final := hfinal
          rw [Db.id_of_findById hrow] at hid
          exact booked_step hc hp h (hid ▸ hI.of_transition hw)
      | recordResend =>
        simp only [DbOp.onRow] at hfinal
        split_ifs at hfinal <;> exact absurd hfinal hbefore
      | none | create | book => exact absurd hfinal hbefore
  · cases hw
    cases hfinal

theorem flipsBooked_initial (cfg : Config) (base opening : ℕ) :
    FlipsBooked (initial cfg base opening) := by
  refine ⟨fun c hc => (List.not_mem_nil hc).elim, fun id s hs _ => ?_⟩
  obtain ⟨-, rfl⟩ := findById_initial hs
  simp [Db.Booked, Db.entriesOf, ledgerEntries_initial]

theorem flipsBooked_reach {C : State → Event → Prop} {base opening : ℕ}
    (h : RailReach cfg C base opening σ) : FlipsBooked σ :=
  h.invariant (flipsBooked_initial cfg base opening)
    fun _ _ _ hr hI _ hs => flipsBooked_step (custody_reach hr) (paired_reach hr) hI hs

end Rail
