import SettlementRail.System.Custody

/-! The ledger over a run: a settlement has no entries, or exactly the pair its booking wrote,
with the amount of its row. The opening entry stands apart under the opening row's id. -/

namespace Rail
open Foundation

def Db.entriesOf (db : Db) (id : SettlementId) : List LedgerEntry :=
  db.ledgerEntries.rows.filter fun e => e.settlementId = id

def bookingPair (id : SettlementId) (amount : Amount) : List LedgerEntry :=
  [Db.debitEntry id amount, Db.creditEntry id amount]

def Db.Booked (db : Db) (id : SettlementId) : Prop := db.entriesOf id ≠ []

instance (db : Db) (id : SettlementId) : Decidable (db.Booked id) :=
  inferInstanceAs (Decidable (_ ≠ _))

variable {cfg : Config} {σ σ' : State} {ev : Event} {op : DbOp} {t s : Settlement}
variable {db : Db} {now : ℕ} {id k : SettlementId} {amount : Amount}

theorem Db.not_mem_keys (h : ¬db.Booked id) (account : LedgerAccount) :
    db.ledgerEntries.find? (id, account) = none := by
  rw [Table.find?_eq_none_iff]
  intro hmem
  obtain ⟨e, he, hkey⟩ := List.mem_map.mp hmem
  refine h (List.ne_nil_of_mem (List.mem_filter.mpr ⟨he, ?_⟩))
  simpa using (Prod.ext_iff.mp hkey).1

theorem Table.exists_insert? {κ α : Type} [DecidableEq κ] {key : α → κ} {t : Table κ α key} {a : α}
    (h : t.find? (key a) = none) : ∃ t', t.insert? a = some t' := by
  rw [← Option.isSome_iff_exists, Option.isSome_iff_ne_none, ne_eq, Table.insert?_eq_none_iff, h]
  simp

theorem Db.rows_book_of_not (hs : db.findById id = some s) (h : ¬db.Booked id) :
    (db.recordSettlementFinalized id amount).1.ledgerEntries.rows =
      db.ledgerEntries.rows ++ bookingPair id amount := by
  obtain ⟨t₁, h₁⟩ := Table.exists_insert? (a := debitEntry id amount) (not_mem_keys h .operator)
  have hcredit : t₁.find? (id, .settledOut) = none := by
    rw [Table.find?_insert? h₁, if_neg (by simp [debitEntry])]
    exact not_mem_keys h .settledOut
  obtain ⟨t₂, h₂⟩ := Table.exists_insert? (a := creditEntry id amount) hcredit
  simp only [recordSettlementFinalized, hs, h₁, Option.bind_some, h₂]
  rw [(Table.insert?_eq_some h₂).2, (Table.insert?_eq_some h₁).2, List.append_assoc]
  rfl

theorem Db.book_of_mem {e : LedgerEntry} (he : e ∈ db.ledgerEntries.rows)
    (hid : e.settlementId = id) (haccount : e.account = .operator) :
    (db.recordSettlementFinalized id amount).1 = db := by
  have hfind := Table.find?_of_mem he
  have hnone : db.ledgerEntries.insert? (debitEntry id amount) = none := by
    rw [Table.insert?_eq_none_iff, debitEntry, ← hid, ← haccount, hfind]
    rfl
  simp only [recordSettlementFinalized, hnone, Option.bind_none]
  split <;> rfl

theorem ledgerRows_grow (op : DbOp) :
    db.ledgerEntries.rows <+: (op.apply now db).ledgerEntries.rows := by
  cases op with
  | book id amount =>
    simp only [DbOp.apply, Db.recordSettlementFinalized]
    split
    · exact List.prefix_rfl
    · split
      · exact List.prefix_rfl
      · rename_i entries hentries
        obtain ⟨t₁, h₁, h₂⟩ := Option.bind_eq_some_iff.mp hentries
        rw [(Table.insert?_eq_some h₂).2, (Table.insert?_eq_some h₁).2, List.append_assoc]
        exact List.prefix_append _ _
  | create row =>
    simp only [DbOp.apply]
    rcases hcreate : db.create row with _ | db'
    · exact List.prefix_rfl
    · exact ⟨[], by rw [List.append_nil, Option.getD_some, (Db.create_frame hcreate).1]⟩
  | transition => exact ⟨[], by rw [List.append_nil, DbOp.apply, ledgerEntries_transition]⟩
  | none | recordResend => exact List.prefix_rfl

theorem booked_apply (hb : db.Booked id) (op : DbOp) : (op.apply now db).Booked id := by
  obtain ⟨rest, hrows⟩ := @ledgerRows_grow db now op
  rw [Db.Booked, Db.entriesOf, ← hrows, List.filter_append]
  exact List.append_ne_nil_of_left_ne_nil hb _

theorem booked_book (hs : db.findById id = some s) :
    ((DbOp.book id amount).apply now db).Booked id := by
  by_cases hb : db.Booked id
  · exact booked_apply hb _
  · rw [Db.Booked, Db.entriesOf, DbOp.apply, Db.rows_book_of_not hs hb, List.filter_append]
    exact List.append_ne_nil_of_right_ne_nil _ (by simp [bookingPair, Db.debitEntry])

structure Db.Paired (db : Db) : Prop where
  genesis : db.entriesOf 0 ≠ [] ∧ ∀ e ∈ db.entriesOf 0, e.account = .genesis
  pair : ∀ id, id ≠ 0 → db.Booked id →
    ∃ s, db.findById id = some s ∧ db.entriesOf id = bookingPair id s.amount

theorem Db.entriesOf_append {db' : Db} {l : List LedgerEntry}
    (h : db'.ledgerEntries.rows = db.ledgerEntries.rows ++ l) (id : SettlementId) :
    db'.entriesOf id = db.entriesOf id ++ l.filter fun e => e.settlementId = id := by
  rw [entriesOf, h, List.filter_append]
  rfl

theorem filter_bookingPair (id k : SettlementId) (amount : Amount) :
    ((bookingPair id amount).filter fun e => e.settlementId = k) =
      if id = k then bookingPair id amount else [] := by
  by_cases h : id = k <;> simp [bookingPair, Db.debitEntry, Db.creditEntry, h]

def DbOp.entries (db : Db) : DbOp → List LedgerEntry
  | .book id amount => if db.Booked id then [] else bookingPair id amount
  | _ => []

theorem walks_of_listener {i : ℕ} {call : ListenCall} (hcall : σ.listeners[i]? = some call)
    (ht : t ∈ call.pc.rows) : σ.Walks t :=
  .listener (List.mem_of_getElem? hcall) ht

theorem Writes.book_amount (hw : Writes σ ev (.book id amount)) (hc : Custody σ) :
    id ≠ 0 ∧ ∃ s, σ.db.findById id = some s ∧ s.amount = amount := by
  cases hw with
  | @book i call t receipt head rest o s hcall hpc =>
    have ht := hc.carried t (.walk (walks_of_listener hcall (by simp [hpc, ListenPc.rows])))
    obtain ⟨r, hr, -, hamount, -⟩ := ht.row
    exact ⟨ht.ne_genesis, r, hr, hamount⟩

theorem Writes.ledgerRows (hw : Writes σ ev op) (hc : Custody σ) (hp : σ.db.Paired) :
    (op.apply now σ.db).ledgerEntries.rows = σ.db.ledgerEntries.rows ++ op.entries σ.db := by
  cases op with
  | book id amount =>
    obtain ⟨hne, s, hs, rfl⟩ := hw.book_amount hc
    by_cases hb : σ.db.Booked id
    · obtain ⟨r, hr, hpair⟩ := hp.pair id hne hb
      have hmem : Db.debitEntry id r.amount ∈ σ.db.entriesOf id := by simp [hpair, bookingPair]
      have hbook := @Db.book_of_mem σ.db id s.amount _ (List.mem_filter.mp hmem).1 rfl rfl
      simp only [DbOp.apply, DbOp.entries, hb, if_true, List.append_nil, hbook]
    · simp only [DbOp.apply, DbOp.entries, hb, if_false]
      exact Db.rows_book_of_not hs hb
  | create row =>
    simp only [DbOp.apply, DbOp.entries, List.append_nil]
    rcases hcreate : σ.db.create row with _ | db'
    · rfl
    · rw [Option.getD_some, (Db.create_frame hcreate).1]
  | transition => simp [DbOp.apply, DbOp.entries, ledgerEntries_transition]
  | none | recordResend => simp [DbOp.apply, DbOp.entries, Db.recordResend, Db.update]

theorem Writes.entriesOf (hw : Writes σ ev op) (hc : Custody σ) (hp : σ.db.Paired)
    (id : SettlementId) : (op.apply now σ.db).entriesOf id =
      σ.db.entriesOf id ++ (op.entries σ.db).filter fun e => e.settlementId = id :=
  Db.entriesOf_append (hw.ledgerRows hc hp) id

theorem Writes.entriesOf_cases (hw : Writes σ ev op) (hc : Custody σ) (hp : σ.db.Paired)
    (id : SettlementId) : (op.apply now σ.db).entriesOf id = σ.db.entriesOf id ∨
      (id ≠ 0 ∧ ¬σ.db.Booked id ∧ ∃ s, σ.db.findById id = some s ∧ op = .book id s.amount ∧
        (op.apply now σ.db).entriesOf id = bookingPair id s.amount) := by
  rw [hw.entriesOf hc hp]
  cases op with
  | book k amount =>
    by_cases hk : k = id
    · subst hk
      by_cases hb : σ.db.Booked k
      · simp [DbOp.entries, hb]
      · obtain ⟨hne, s, hs, rfl⟩ := hw.book_amount hc
        have hnil : σ.db.entriesOf k = [] := not_not.mp hb
        refine .inr ⟨hne, hb, s, hs, rfl, ?_⟩
        rw [DbOp.entries, if_neg hb, filter_bookingPair, if_pos rfl, hnil, List.nil_append]
    · left
      by_cases hb : σ.db.Booked k <;> simp [DbOp.entries, hb, filter_bookingPair, hk]
  | _ => simp [DbOp.entries]

theorem Writes.booked_of_book (hw : Writes σ ev (.book id amount)) (hc : Custody σ)
    (hp : σ.db.Paired) (now : ℕ) : ((DbOp.book id amount).apply now σ.db).Booked id := by
  rw [Db.Booked, hw.entriesOf hc hp, DbOp.entries]
  split_ifs with hb
  · exact List.append_ne_nil_of_left_ne_nil hb _
  · rw [filter_bookingPair, if_pos rfl]
    simp [bookingPair]

theorem paired_step (hc : Custody σ) (hp : σ.db.Paired) (h : step cfg σ ev = some σ') :
    σ'.db.Paired := by
  obtain ⟨op, hw, hdb⟩ := step_db h
  rw [hdb]
  refine ⟨?_, fun id hne hb => ?_⟩
  · rcases hw.entriesOf_cases hc hp 0 with heq | ⟨hne, -⟩
    · rw [heq]
      exact hp.genesis
    · exact absurd rfl hne
  · rcases hw.entriesOf_cases hc hp id with heq | ⟨-, -, s, hs, rfl, hpair⟩
    · rw [Db.Booked, heq] at hb
      obtain ⟨s, hs, hpair⟩ := hp.pair id hne hb
      exact ⟨_, findById_apply hs, by rw [heq, hpair, onRow_amount]⟩
    · exact ⟨_, findById_apply hs, hpair⟩

theorem paired_reach {C : State → Event → Prop} {base opening : ℕ}
    (h : RailReach cfg C base opening σ) : σ.db.Paired := by
  refine h.invariant ⟨⟨by simp [Db.entriesOf, ledgerEntries_initial],
    by simp [Db.entriesOf, ledgerEntries_initial]⟩, fun id hne hb => ?_⟩
    fun _ _ _ hr hp _ hs => paired_step (custody_reach hr) hp hs
  simp [Db.Booked, Db.entriesOf, ledgerEntries_initial, Ne.symm hne] at hb

theorem booked_step (hc : Custody σ) (hp : σ.db.Paired) (h : step cfg σ ev = some σ')
    (hb : σ.db.Booked id) : σ'.db.Booked id := by
  obtain ⟨op, hw, hdb⟩ := step_db h
  rw [hdb]
  rcases hw.entriesOf_cases hc hp id with heq | ⟨-, hnot, -⟩
  · rwa [Db.Booked, heq]
  · exact absurd hb hnot

end Rail
