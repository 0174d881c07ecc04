import SettlementRail.System.LedgerEvolution

/-! The ledger's aggregates over a run. The opening balance stays what it was, the operator is
never credited, and its debits are the amounts of the booked settlements. -/

namespace Rail
open Foundation

def Db.amountWhere (db : Db) (p : Settlement → Prop) [DecidablePred p] : ℕ :=
  db.settlements.sumBy fun s => if p s then s.amount else 0

variable {cfg : Config} {σ σ' : State} {ev : Event} {op : DbOp} {s : Settlement}
variable {db : Db} {now : ℕ} {id k : SettlementId}

theorem sumBy_apply (op : DbOp) (w : Settlement → ℕ) :
    (op.apply now db).settlements.sumBy w =
      (db.settlements.sumBy fun s => w (op.onRow now s)) + ((op.created db).map w).sum := by
  simp only [Table.sumBy, rows_apply, List.map_append, List.sum_append, List.map_map]
  rfl

theorem created_spec (h : s ∈ op.created db) :
    db.findById s.id = none ∧ op = .create s ∧ ∃ db', db.create s = some db' := by
  cases op with
  | create row =>
    simp only [DbOp.created] at h
    split_ifs at h with hnew
    · rw [List.mem_singleton.mp h]
      obtain ⟨db', hdb'⟩ := Option.isSome_iff_exists.mp hnew
      exact ⟨Db.findById_none_of_create hdb', rfl, db', hdb'⟩
    · cases h
  | _ => cases h

def Db.Debited (db : Db) (id : SettlementId) : Prop := id ≠ 0 ∧ db.Booked id

instance (db : Db) (id : SettlementId) : Decidable (db.Debited id) :=
  inferInstanceAs (Decidable (_ ∧ _))

theorem Writes.debited_iff (hw : Writes σ ev op) (hc : Custody σ) (hp : σ.db.Paired)
    (k : SettlementId) :
    (op.apply σ.now σ.db).Debited k ↔ σ.db.Debited k ∨ ∃ amount, op = .book k amount := by
  constructor
  · rintro ⟨hk, hb⟩
    rcases hw.entriesOf_cases hc hp k with heq | ⟨-, -, s, -, hop, -⟩
    · rw [Db.Booked, heq] at hb
      exact .inl ⟨hk, hb⟩
    · exact .inr ⟨s.amount, hop⟩
  · rintro (⟨hk, hb⟩ | ⟨amount, rfl⟩)
    · exact ⟨hk, booked_apply hb op⟩
    · exact ⟨(hw.book_amount hc).1, hw.booked_of_book hc hp σ.now⟩

theorem Writes.debited_same (hw : Writes σ ev op) (hc : Custody σ) (hp : σ.db.Paired)
    (hbooks : ∀ amount, op = .book k amount → σ.db.Debited k) :
    (op.apply σ.now σ.db).Debited k ↔ σ.db.Debited k := by
  rw [hw.debited_iff hc hp]
  exact ⟨fun h => h.elim (fun hb => hb) fun ⟨amount, hop⟩ => hbooks amount hop, .inl⟩

theorem not_debited_of_none (hp : σ.db.Paired) (hnone : σ.db.findById k = none) :
    ¬σ.db.Debited k := by
  rintro ⟨hk, hb⟩
  obtain ⟨s, hs, -⟩ := hp.pair k hk hb
  rw [hs] at hnone
  cases hnone

theorem Writes.amountWhere_debited (hw : Writes σ ev op) (hc : Custody σ) (hp : σ.db.Paired) :
    ((op.apply σ.now σ.db).amountWhere fun s => (op.apply σ.now σ.db).Debited s.id) =
      (σ.db.amountWhere fun s => σ.db.Debited s.id) +
        match op with
        | .book id amount => if σ.db.Booked id then 0 else amount
        | _ => 0 := by
  have hcreated : ((op.created σ.db).map fun s =>
      if (op.apply σ.now σ.db).Debited s.id then s.amount else 0).sum = 0 := by
    refine List.sum_eq_zero fun n hn => ?_
    obtain ⟨s, hs, rfl⟩ := List.mem_map.mp hn
    obtain ⟨hnone, rfl, -⟩ := created_spec hs
    refine if_neg fun hb => not_debited_of_none hp hnone ?_
    exact (hw.debited_same hc hp fun amount hop => by cases hop).mp hb
  rw [Db.amountWhere, sumBy_apply, hcreated, Nat.add_zero, Db.amountWhere]
  simp only [onRow_id, onRow_amount]
  cases op with
  | book id amount =>
    obtain ⟨hne, r, hr, hamount⟩ := hw.book_amount hc
    simp only
    split_ifs with hb
    · rw [Nat.add_zero]
      refine congrArg _ (funext fun s => if_congr ?_ rfl rfl)
      exact hw.debited_same hc hp fun a hop => by cases hop; exact ⟨hne, hb⟩
    · have hpoint : ∀ s : Settlement,
          (if (DbOp.apply σ.now σ.db (.book id amount)).Debited s.id then s.amount else 0) =
            (if σ.db.Debited s.id then s.amount else 0) + if s.id = id then s.amount else 0 := by
        intro s
        by_cases hs : s.id = id
        · have hnot : ¬σ.db.Debited s.id := fun h => hb (hs ▸ h.2)
          have hnew := (hw.debited_iff hc hp s.id).mpr (.inr ⟨amount, by rw [hs]⟩)
          rw [if_pos hnew, if_neg hnot, if_pos hs, Nat.zero_add]
        · rw [if_neg hs, Nat.add_zero]
          refine if_congr (hw.debited_same hc hp fun a hop => ?_) rfl rfl
          cases hop
          exact absurd rfl hs
      rw [funext hpoint, ← Table.sumBy_add, Table.sumBy_key hr, hamount]
  | _ =>
    rw [Nat.add_zero]
    refine congrArg _ (funext fun s => if_congr ?_ rfl rfl)
    exact hw.debited_same hc hp fun amount hop => by cases hop

structure LedgerSums (opening : ℕ) (db : Db) : Prop where
  genesis : ∃ e, db.ledgerEntries.rows.find? (fun e => e.account = .genesis) = some e ∧
    e.amount = opening
  credits : db.operatorSum .credit = 0
  debits : db.operatorSum .debit = db.amountWhere fun s => db.Debited s.id

theorem LedgerSums.opening {opening : ℕ} (h : LedgerSums opening db) :
    db.getOpeningBalance = opening := by
  obtain ⟨e, he, hamount⟩ := h.genesis
  rw [Db.getOpeningBalance, he]
  exact hamount

theorem ledgerSums_step {opening : ℕ} (hc : Custody σ) (hp : σ.db.Paired)
    (hI : LedgerSums opening σ.db) (h : step cfg σ ev = some σ') : LedgerSums opening σ'.db := by
  obtain ⟨op, hw, hdb⟩ := step_db h
  have hrows : (op.apply σ.now σ.db).ledgerEntries.rows =
      σ.db.ledgerEntries.rows ++ op.entries σ.db := hw.ledgerRows hc hp
  have hsum : ∀ dir, (op.apply σ.now σ.db).operatorSum dir = σ.db.operatorSum dir +
      ((op.entries σ.db).map fun e =>
        if e.account = .operator ∧ e.direction = dir then e.amount else 0).sum := by
    intro dir
    simp only [Db.operatorSum, Table.sumBy, hrows, List.map_append, List.sum_append]
  rw [hdb]
  refine ⟨?_, ?_, ?_⟩
  · obtain ⟨e, he, hamount⟩ := hI.genesis
    refine ⟨e, ?_, hamount⟩
    rw [hrows, List.find?_append, he]
    rfl
  · rw [hsum, hI.credits]
    cases op with
    | book id amount =>
      simp only [DbOp.entries]
      split_ifs <;> simp [bookingPair, Db.debitEntry, Db.creditEntry]
    | _ => rfl
  · rw [hsum, hI.debits, hw.amountWhere_debited hc hp]
    cases op with
    | book id amount =>
      simp only [DbOp.entries]
      split_ifs <;> simp [bookingPair, Db.debitEntry, Db.creditEntry]
    | _ => rfl

theorem ledgerSums_initial (cfg : Config) (base opening : ℕ) :
    LedgerSums opening (initial cfg base opening).db where
  genesis := ⟨_, rfl, rfl⟩
  credits := by simp [Db.operatorSum, Table.sumBy, ledgerEntries_initial]
  debits := by
    simp [Db.operatorSum, Db.amountWhere, Table.sumBy, ledgerEntries_initial, rows_initial,
      genesisRow, Db.Debited]

theorem ledgerSums_reach {C : State → Event → Prop} {base opening : ℕ}
    (h : RailReach cfg C base opening σ) : LedgerSums opening σ.db :=
  h.invariant (ledgerSums_initial cfg base opening)
    fun _ _ _ hr hI _ hs => ledgerSums_step (custody_reach hr) (paired_reach hr) hI hs

end Rail
