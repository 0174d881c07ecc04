import SettlementRail.Books.CallInvariant

/-! Double entry under any interleaving of the ledger's calls. The committed ledger holds whole
pairs only, at most one opening entry, and the balance its entries add up to. -/

namespace Rail.Ledger
open Foundation

variable {db db' : Db} {id : SettlementId} {operator : Address} {σ σ' : LedgerState}
variable {ev : LedgerEvent} {pc pc' q : LedgerPc} {i j : ℕ} {ce : CallEvent}

def LedgerEvent.caller : LedgerEvent → Option ℕ
  | .call i _ | .throws i => some i
  | _ => none

theorem caller_step (h : step operator σ ev = some σ') (hi : ev.caller = some i) :
    σ'.db = σ.db ∨ ∃ pc, σ'.calls[i]? = some pc ∧ (pc = .snapshotted ∨ pc = .returned true) := by
  cases ev with
  | createSettlement | ensureOpeningSnapshot | recordSettlementFinalized | crash => cases hi
  | throws j =>
    obtain ⟨pc, -, hthrow⟩ := Option.bind_eq_some_iff.mp h
    split_ifs at hthrow
    exact .inl (Option.some.inj hthrow ▸ rfl)
  | call j ce =>
    obtain rfl := Option.some.inj hi
    obtain ⟨pc, hpc, hcall⟩ := Option.bind_eq_some_iff.mp h
    obtain ⟨⟨pc', db'⟩, hout, rfl⟩ := Option.map_eq_some_iff.mp hcall
    have hlt : j < σ.calls.length := (List.getElem?_eq_some_iff.mp hpc).1
    cases callStep_spec hout with
    | silent | upserted | inserted => exact .inl rfl
    | committed _ hkind =>
      refine .inr ⟨pc', List.getElem?_set_self hlt, ?_⟩
      rcases hkind with ⟨_, _, _, -, rfl⟩ | ⟨_, _, -, rfl⟩
      · exact .inl rfl
      · exact .inr rfl

theorem callStep_not_ended (h : callStep operator σ pc ce = some (pc', db')) :
    pc.ended = false := by
  cases pc with
  | snapshotted | returned | threw | dead => cases ce <;> cases h
  | _ => rfl

theorem ended_set (hpc : σ.calls[i]? = some pc) (hended : pc.ended = true)
    (hq : σ.calls[j]? = some q) (hnot : q.ended = false) (p : LedgerPc) :
    (σ.calls.set j p)[i]? = some pc := by
  have hne : j ≠ i := by
    rintro rfl
    obtain rfl := Option.some.inj (hq.symm.trans hpc)
    rw [hended] at hnot
    cases hnot
  rw [List.getElem?_set_ne hne, hpc]

theorem ended_step (h : step operator σ ev = some σ') (hpc : σ.calls[i]? = some pc)
    (hended : pc.ended = true) : σ'.calls[i]? = some pc := by
  have hlt : i < σ.calls.length := (List.getElem?_eq_some_iff.mp hpc).1
  cases ev with
  | createSettlement row =>
    simp only [step] at h
    split_ifs at h
    obtain ⟨db', -, rfl⟩ := Option.map_eq_some_iff.mp h
    exact hpc
  | ensureOpeningSnapshot =>
    obtain rfl := Option.some.inj h
    rwa [List.getElem?_append_left hlt]
  | recordSettlementFinalized id amount =>
    simp only [step] at h
    split_ifs at h
    obtain rfl := Option.some.inj h
    rwa [List.getElem?_append_left hlt]
  | call j ce =>
    obtain ⟨q, hq, hcall⟩ := Option.bind_eq_some_iff.mp h
    obtain ⟨⟨pc', db'⟩, hout, rfl⟩ := Option.map_eq_some_iff.mp hcall
    exact ended_set hpc hended hq (callStep_not_ended hout) pc'
  | throws j =>
    obtain ⟨q, hq, hthrow⟩ := Option.bind_eq_some_iff.mp h
    split_ifs at hthrow with hnot
    obtain rfl := Option.some.inj hthrow
    exact ended_set hpc hended hq (eq_false_of_ne_true hnot) .threw
  | crash =>
    obtain rfl := Option.some.inj h
    rw [List.getElem?_map, hpc, Option.map_some, if_pos hended]

theorem ended_reach (h : Reach (step operator) σ σ') (hpc : σ.calls[i]? = some pc)
    (hended : pc.ended = true) : σ'.calls[i]? = some pc :=
  h.invariant hpc fun _ _ _ _ hold _ hstep => ended_step hstep hold hended

/-- The ledger is append-only. -/
theorem ledger_step (h : step operator σ ev = some σ') :
    ∃ entries, σ'.db.ledgerEntries.rows = σ.db.ledgerEntries.rows ++ entries := by
  have hsame : ∃ entries, σ.db.ledgerEntries.rows = σ.db.ledgerEntries.rows ++ entries :=
    ⟨[], (List.append_nil _).symm⟩
  cases ev with
  | createSettlement row =>
    simp only [step] at h
    split_ifs at h
    obtain ⟨db', hdb', rfl⟩ := Option.map_eq_some_iff.mp h
    exact ⟨[], (appends_create hdb').entries⟩
  | ensureOpeningSnapshot =>
    obtain rfl := Option.some.inj h
    exact hsame
  | recordSettlementFinalized id amount =>
    simp only [step] at h
    split_ifs at h
    obtain rfl := Option.some.inj h
    exact hsame
  | call i ce =>
    obtain ⟨pc, -, hcall⟩ := Option.bind_eq_some_iff.mp h
    obtain ⟨⟨pc', db'⟩, hout, rfl⟩ := Option.map_eq_some_iff.mp hcall
    cases callStep_spec hout with
    | silent | upserted | inserted => exact hsame
    | committed hcommit => exact ⟨pc.entries, (appends_commit hcommit).entries⟩
  | throws i =>
    obtain ⟨pc, -, hthrow⟩ := Option.bind_eq_some_iff.mp h
    split_ifs at hthrow
    obtain rfl := Option.some.inj hthrow
    exact hsame
  | crash =>
    obtain rfl := Option.some.inj h
    exact hsame

theorem ledger_reach (h : Reach (step operator) σ σ') :
    ∃ entries, σ'.db.ledgerEntries.rows = σ.db.ledgerEntries.rows ++ entries := by
  refine h.invariant (I := fun ρ => ∃ entries,
    ρ.db.ledgerEntries.rows = σ.db.ledgerEntries.rows ++ entries)
    ⟨[], (List.append_nil _).symm⟩ fun _ _ _ _ hI _ hstep => ?_
  obtain ⟨entries, hold⟩ := hI
  obtain ⟨entries', hnew⟩ := ledger_step hstep
  exact ⟨entries ++ entries', by rw [hnew, hold, List.append_assoc]⟩

theorem opening_reach (h : Reach (step operator) σ σ') (hopening : hasOpening σ.db = true) :
    σ'.db.getOpeningBalance = σ.db.getOpeningBalance := by
  obtain ⟨entries, hrows⟩ := ledger_reach h
  obtain ⟨e, he⟩ := Option.isSome_iff_exists.mp
    (List.find?_isSome.mpr (List.any_eq_true.mp hopening))
  rw [Db.getOpeningBalance, Db.getOpeningBalance, hrows, List.find?_append, he, Option.some_or]

/-- Neither sum of `getOperatorBalance` is rounded. -/
def ExactSums (db : Db) : Prop :=
  decimalPlus db.getOpeningBalance (db.operatorSum .credit) =
      db.getOpeningBalance + db.operatorSum .credit ∧
    decimalMinus (db.getOpeningBalance + db.operatorSum .credit) (db.operatorSum .debit) =
      db.getOpeningBalance + db.operatorSum .credit - db.operatorSum .debit

instance exactSumsDecidable (db : Db) : Decidable (ExactSums db) :=
  inferInstanceAs (Decidable (_ ∧ _))

theorem Balanced.getOperatorBalance (h : Balanced db) (hexact : ExactSums db) :
    db.getOperatorBalance =
      db.getOpeningBalance - db.settlements.sumBy fun s => bookedAmount db s.id := by
  obtain ⟨hcredits, hdebits⟩ := h.operatorSum
  rw [Db.getOperatorBalance, operatorBalance, hexact.1, hexact.2, hcredits, hdebits,
    Nat.cast_zero, add_zero]

theorem unsuccessful_wrote_nothing {es : List LedgerEvent} {ρ ρ' : LedgerState}
    (hstep : step operator ρ ev = some ρ') (hrest : run (step operator) ρ' es = some σ)
    (hi : ev.caller = some i) (hpc : σ.calls[i]? = some pc)
    (hfailed : pc = .returned false ∨ pc = .threw) : ρ'.db = ρ.db := by
  rcases caller_step hstep hi with hsame | ⟨pc', hpc', hwell⟩
  · exact hsame
  · have hended : pc'.ended = true := by
      rcases hwell with rfl | rfl <;> rfl
    have heq := Option.some.inj ((ended_reach (.of_run hrest) hpc' hended).symm.trans hpc)
    rw [heq] at hwell
    rcases hfailed with rfl | rfl <;> rcases hwell with hwell | hwell <;> cases hwell

theorem double_entry {es : List LedgerEvent} (h : run (step operator) {} es = some σ) :
    (σ.db.ledgerEntries.rows.filter fun e => e.account = .genesis).length ≤ 1 ∧
    (hasOpening σ.db = true → ∀ (later : List LedgerEvent) (ρ : LedgerState),
      run (step operator) σ later = some ρ →
        ρ.db.getOpeningBalance = σ.db.getOpeningBalance) ∧
    (∀ id, ¬IsGenesis σ.db id →
      σ.db.entriesOf id = [] ∨ ∃ amount, σ.db.entriesOf id = bookingPair id amount) ∧
    (∀ (i : ℕ) (pc : LedgerPc), σ.calls[i]? = some pc → pc = .returned false ∨ pc = .threw →
      ∀ (before : List LedgerEvent) (ev : LedgerEvent) (after : List LedgerEvent)
        (ρ ρ' : LedgerState), es = before ++ ev :: after → ev.caller = some i →
        run (step operator) {} before = some ρ → step operator ρ ev = some ρ' → ρ'.db = ρ.db) ∧
    (ExactSums σ.db → σ.db.getOperatorBalance =
      σ.db.getOpeningBalance - σ.db.settlements.sumBy fun s => bookedAmount σ.db s.id) := by
  have hbalanced := (callsInv_reach (.of_run h)).balanced
  refine ⟨hbalanced.one_opening, fun hopening later ρ hlater => ?_, fun id hid => ?_,
    fun i pc hpc hfailed before ev after ρ ρ' hes hi hbefore hstep => ?_,
    hbalanced.getOperatorBalance⟩
  · exact opening_reach (.of_run hlater) hopening
  · rcases hbalanced id with hnil | ⟨-, hpair⟩ | ⟨hgenesis, -⟩
    · exact .inl hnil
    · exact .inr hpair
    · exact absurd hgenesis hid
  · rw [hes, run_append, hbefore, Option.bind_some, run, hstep, Option.bind_some] at h
    exact unsuccessful_wrote_nothing hstep h hi hpc hfailed

/-- Two calls book one settlement while the opening balance is being written. -/
def racedBooking : List LedgerEvent :=
  [.createSettlement { id := 1, instructionId := "pay-1", toAddress := "0xb", amount := 30
                       status := .final, updatedAt := 0 },
    .ensureOpeningSnapshot, .recordSettlementFinalized 1 30, .call 0 .next,
    .call 0 (.chainAnswers 100), .call 0 .next, .call 0 (.upserts 2 7), .call 1 .next,
    .call 0 .next, .recordSettlementFinalized 1 30, .call 1 .next, .call 0 .next, .call 1 .next,
    .call 2 .next]

theorem raced_booking_counts_once : ∃ σ, run (step "0xa") {} racedBooking = some σ ∧
    σ.calls = [.snapshotted, .returned true, .returned false] ∧ σ.db.getOperatorBalance =
      σ.db.getOpeningBalance - σ.db.settlements.sumBy fun s => bookedAmount σ.db s.id := by
  have hends : ((run (step "0xa") {} racedBooking).any fun σ => decide
      (σ.calls = [.snapshotted, .returned true, .returned false] ∧ ExactSums σ.db)) = true := by
    decide +kernel
  obtain ⟨σ, hrun, hp⟩ := (Option.any_eq_true _ _).mp hends
  obtain ⟨hcalls, hexact⟩ := of_decide_eq_true hp
  exact ⟨σ, hrun, hcalls, (double_entry hrun).2.2.2.2 hexact⟩

end Rail.Ledger
