import SettlementRail.Lifecycle.StatusEdges
import SettlementRail.System.BookedFlips

/-! The ledger against the statuses. The listener books first and flips the status in a second
transaction, so between the two a settlement is booked but not FINAL. -/

namespace Rail
open Foundation

/-- The opening row apart, FINAL rows have exactly their two entries, and a row with entries is
FINAL, or still open and never yet moved to FINAL. -/
structure Db.BooksAgree (db : Db) : Prop where
  final : ∀ id s, db.findById id = some s → id ≠ 0 → s.status = .final →
    db.entriesOf id = bookingPair id s.amount
  booked : ∀ id s, db.findById id = some s → id ≠ 0 → db.entriesOf id ≠ [] →
    s.status = .final ∨ ((s.status = .submitted ∨ s.status = .confirmed) ∧
      ∀ m ∈ db.trail id, m.2 ≠ .final)
  unpaid : ∀ id s, db.findById id = some s → id ≠ 0 →
    s.status = .failed ∨ s.status = .rejectedCompliance ∨ s.status = .received ∨
      s.status = .complianceApproved → db.entriesOf id = []

def State.listenerWrite (σ : State) : Event → Option ListenPc
  | .listen i (.written o) => if o.committed then σ.listeners[i]?.map ListenCall.pc else none
  | _ => none

/-- A listener write that leaves entries under a settlement that is not open. -/
def ListenPc.missesBooks (db : Db) : ListenPc → Bool
  | .revert t .. =>
    (db.findById t.id).any fun s => decide (db.Booked t.id) && decide (s.status ∈ pendingStatuses)
  | .book t .. =>
    (db.findById t.id).any fun s => !decide (db.Booked t.id) && decide (s.status ∉ pendingStatuses)
  | _ => false

/-- No FAILED write reaches a booked settlement, no SUBMITTED write a FINAL one, and a
settlement is booked while it is open. -/
def KeepsBooks (σ : State) (ev : Event) : Prop :=
  (∀ w ∈ σ.relayerWrite ev, ∀ s ∈ σ.db.findById w.1,
    (w.2 = .failed → ¬σ.db.Booked w.1) ∧ (w.2 = .submitted → s.status ≠ .final)) ∧
  ∀ pc ∈ σ.listenerWrite ev, pc.missesBooks σ.db = false

instance (σ : State) (ev : Event) : Decidable (KeepsBooks σ ev) :=
  inferInstanceAs (Decidable ((∀ _ ∈ _, ∀ _ ∈ _, _) ∧ ∀ _ ∈ _, _))

variable {cfg : Config} {σ σ' : State} {ev : Event} {op : DbOp} {t s : Settlement}
variable {id : SettlementId}

structure BooksInv (σ : State) : Prop where
  flipping : ∀ c ∈ σ.listeners, ∀ t receipt head rest, c.pc = .flip t receipt head rest →
    σ.db.Booked t.id
  flipped : ∀ id, ∀ m ∈ σ.db.trail id, m.2 = .final → σ.db.Booked id
  final : ∀ id s, σ.db.findById id = some s → s.status = .final → σ.db.Booked id
  booked : ∀ id s, σ.db.findById id = some s → id ≠ 0 → σ.db.Booked id →
    s.status = .final ∨ ((s.status = .submitted ∨ s.status = .confirmed) ∧
      ∀ m ∈ σ.db.trail id, m.2 ≠ .final)

theorem Writes.keepsOpen (hw : Writes σ ev op) (hc : Custody σ) (hk : KeepsBooks σ ev)
    (hs : σ.db.findById id = some s) (hb : σ.db.Booked id)
    (hst : s.status = .final ∨ ((s.status = .submitted ∨ s.status = .confirmed) ∧
      ∀ m ∈ σ.db.trail id, m.2 ≠ .final)) :
    (op.onRow σ.now s).status = .final ∨
      (((op.onRow σ.now s).status = .submitted ∨ (op.onRow σ.now s).status = .confirmed) ∧
        ∀ m ∈ (op.apply σ.now σ.db).trail id, m.2 ≠ .final) := by
  rcases Db.trail_onRow σ.now op hs with
    ⟨htrail, hstatus⟩ | ⟨toStatus, opts, rfl, hallow, htrail, hstatus⟩
  · rwa [htrail, hstatus]
  rw [htrail, hstatus]
  have received : ∀ {i : ℕ} {call : CreateCall}, σ.creates[i]? = some call →
      call.pc.held = some id → False := by
    intro i call hcall hheld
    obtain ⟨r, hr, hrec⟩ := hc.held call (List.mem_of_getElem? hcall) id hheld
    rw [hs] at hr
    cases hr
    simp [hrec] at hst
  have snoc : s.status ≠ .final → toStatus ≠ .final → ∀ m ∈ σ.db.trail id ++ [(s.status, toStatus)],
      m.2 ≠ .final := by
    intro hne hto m hm
    rcases List.mem_append.mp hm with hm | hm
    · exact (hst.resolve_left hne).2 m hm
    · rwa [List.mem_singleton.mp hm]
  cases hw with
  | reject hcall hpc => exact (received hcall (by rw [hpc]; rfl)).elim
  | approve hcall hpc => exact (received hcall (by rw [hpc]; rfl)).elim
  | submitted hworker _ ho =>
    have hne := (hk.1 (id, .submitted) (by simp [State.relayerWrite, hworker, ho]) s hs).2 rfl
    exact .inr ⟨.inl rfl, snoc hne (by simp)⟩
  | jobFail hworker _ ho =>
    exact absurd hb ((hk.1 (id, .failed) (by simp [State.relayerWrite, hworker, ho]) s hs).1 rfl)
  | sweepFail hsweep _ ho =>
    exact absurd hb ((hk.1 (_, .failed) (by simp [State.relayerWrite, hsweep, ho]) s hs).1 rfl)
  | recoveryFail hrecovery =>
    exact absurd hb ((hk.1 (_, .failed) (by simp [State.relayerWrite, hrecovery]) s hs).1 rfl)
  | revert hcall hpc _ ho =>
    have hmiss := hk.2 _ (by simp [State.listenerWrite, ho, hcall, hpc]; rfl)
    have hopen : s.status ∈ pendingStatuses := by
      simpa [TransitionOptions.allows, revertOptions, openFrom, pendingStatuses] using hallow
    simp [ListenPc.missesBooks, hs, hb, hopen] at hmiss
  | reorg =>
    have h : s.status = .confirmed := by
      simpa [TransitionOptions.allows, reorgOptions] using hallow
    exact .inr ⟨.inl rfl, snoc (by simp [h]) (by simp)⟩
  | confirm =>
    have h : s.status = .submitted := by
      simpa [TransitionOptions.allows, confirmOptions] using hallow
    exact .inr ⟨.inr rfl, snoc (by simp [h]) (by simp)⟩
  | flip => exact .inl rfl

theorem Writes.book_open {amount : Amount} (hw : Writes σ ev (.book id amount))
    (hk : KeepsBooks σ ev) (hs : σ.db.findById id = some s) (hb : ¬σ.db.Booked id) :
    s.status ∈ pendingStatuses := by
  cases hw with
  | book hcall hpc _ ho =>
    have hmiss := hk.2 _ (by simp [State.listenerWrite, ho, hcall, hpc]; rfl)
    simpa [ListenPc.missesBooks, hs, hb] using hmiss

theorem booksInv_step (hc : Custody σ) (hp : σ.db.Paired) (hI : BooksInv σ) (hk : KeepsBooks σ ev)
    (h : step cfg σ ev = some σ') : BooksInv σ' := by
  have hbooked : ∀ {id}, σ.db.Booked id → σ'.db.Booked id := booked_step hc hp h
  obtain ⟨op, hw, hdb⟩ := step_db h
  have hflips : FlipsBooked σ := ⟨hI.flipping, hI.final⟩
  have hflips' := flipsBooked_step hc hp hflips h
  refine ⟨hflips'.flipping, fun id m hm hfinal => ?_, hflips'.final, fun id s' hs' hne hb => ?_⟩
  · rw [hdb, Db.trail_apply, List.mem_append] at hm
    rcases hm with hm | hm
    · exact hbooked (hI.flipped id m hm hfinal)
    · obtain ⟨t, ht, rfl⟩ := List.mem_map.mp hm
      obtain ⟨ht, hid⟩ := List.mem_filter.mp ht
      obtain ⟨s, opts, -, -, -, hop⟩ := Db.findById_of_mem_audited ht
      rw [show t.toStatus = .final from hfinal, of_decide_eq_true hid] at hop
      exact hbooked (hflips.of_transition (hop ▸ hw))
  · have hb' := hb
    rw [hdb] at hs' hb
    rw [hdb]
    rcases findById_apply_cases hs' with ⟨s, hs, rfl⟩ | ⟨hnone, rfl, -⟩
    · by_cases hold : σ.db.Booked id
      · exact hw.keepsOpen hc hk hs hold (hI.booked id s hs hne hold)
      -- booked by this very step, so the row was open
      · rcases hw.entriesOf_cases hc hp id with heq | ⟨-, -, r, hr, rfl, -⟩
        · rw [Db.Booked, heq] at hb
          exact absurd hb hold
        · rw [hs] at hr
          cases hr
          have hopen := hw.book_open hk hs hold
          refine .inr ⟨by simpa [pendingStatuses, DbOp.onRow] using hopen, fun m hm hfinal => ?_⟩
          rw [Db.trail_apply] at hm
          exact hold (hI.flipped id m (by simpa [DbOp.audited] using hm) hfinal)
    · rcases hw.entriesOf_cases hc hp id with heq | ⟨-, -, r, hr, -⟩
      · rw [Db.Booked, heq] at hb
        obtain ⟨r, hr, -⟩ := hp.pair id hne hb
        simp [hnone] at hr
      · simp [hnone] at hr

theorem booksInv_initial (cfg : Config) (base opening : ℕ) :
    BooksInv (initial cfg base opening) := by
  refine ⟨fun c hc => (List.not_mem_nil hc).elim, ?_, fun id s hs _ => ?_,
    fun id s hs hne => absurd (findById_initial hs).2 hne⟩
  · simp [Db.trail, statusTransitions_initial]
  · obtain ⟨-, rfl⟩ := findById_initial hs
    simp [Db.Booked, Db.entriesOf, ledgerEntries_initial]

theorem booksAgree_of_keepsBooks {base opening : ℕ}
    (h : RailReach cfg KeepsBooks base opening σ) : σ.db.BooksAgree := by
  have hp := paired_reach h
  have hI : BooksInv σ := h.invariant (booksInv_initial cfg base opening)
    fun _ _ _ hr hI hk hs => booksInv_step (custody_reach hr) (paired_reach hr) hI hk hs
  refine ⟨fun id s hs hne hfinal => ?_, hI.booked, fun id s hs hne hst => ?_⟩
  · obtain ⟨r, hr, hpair⟩ := hp.pair id hne (hI.final id s hs hfinal)
    rw [hs] at hr
    cases hr
    exact hpair
  · by_contra hb
    have := hI.booked id s hs hne hb
    rcases hst with h | h | h | h <;> simp [h] at this

theorem settled_payout_books :
    ∃ σ, RailReach (plainConfig 3) KeepsBooks 7 100 σ ∧
      ((σ.db.findById 1).any fun s => s.status = .final) = true ∧ σ.db.BooksAgree := by
  obtain ⟨σ, hr, hfinal⟩ := exists_reach_of_checkedRun (step (plainConfig 3)) KeepsBooks
    (initial (plainConfig 3) 7 100) settleEvents
    (fun σ => (σ.db.findById 1).any fun s => s.status = .final) (by decide +kernel)
  exact ⟨σ, hr, hfinal, booksAgree_of_keepsBooks hr⟩

theorem failed_row_with_entries :
    ¬∀ cfg base opening σ, Reach (step cfg) (initial cfg base opening) σ → σ.db.BooksAgree := by
  intro hall
  obtain ⟨σ, hr, hbad⟩ := exists_reach_of_run (step (plainConfig 0))
    (initial (plainConfig 0) 7 100) overtakenSweep
    (fun σ => (σ.db.findById 1).any fun s => s.status = .failed && decide (σ.db.Booked 1))
    (by decide +kernel)
  rcases hs : σ.db.findById 1 with _ | s
  · simp [hs] at hbad
  · simp only [hs, Option.any_some, Bool.and_eq_true, decide_eq_true_eq] at hbad
    exact hbad.2 ((hall _ _ _ σ hr).unpaid 1 s hs (by decide) (.inl hbad.1))

end Rail
