import SettlementRail.Foundation.OrderBook
import SettlementRail.Foundation.Refinement
import SettlementRail.System.LedgerSums
import SettlementRail.System.Scenario

/-! What the rail is for, as far as its database is concerned: an order book. Orders are named by
their instruction id, paid means debited from the operator's account, and the funds are what the
ledger says is left. -/

namespace Rail
open Foundation

abbrev InstructionBook := OrderBook String (Address × Amount)

def orderWorth (order : Address × Amount) : ℤ := order.2

def Db.funds (db : Db) : ℤ :=
  db.getOpeningBalance + db.operatorSum .credit - db.operatorSum .debit

def Db.orderBook (db : Db) : InstructionBook where
  orders i := (db.findByInstructionId i).map fun s => (s.toAddress, s.amount)
  paid := ((db.settlements.rows.filter fun s => db.Debited s.id).map
    Settlement.instructionId).toFinset
  funds := db.funds

variable {cfg : Config} {σ σ' : State} {ev : Event} {op : DbOp} {s : Settlement}
variable {db : Db} {now opening : ℕ} {id : SettlementId} {i : String}

theorem Db.findByInstructionId_of_mem (h : s ∈ db.settlements.rows) :
    db.findByInstructionId s.instructionId = some s := by
  rcases hf : db.findByInstructionId s.instructionId with _ | r
  · have hne := List.find?_eq_none.mp hf s h
    simp at hne
  · have hr : r.instructionId = s.instructionId := by simpa using List.find?_some hf
    exact congrArg some (List.inj_on_of_nodup_map db.instructionIds_nodup
      (List.mem_of_find?_eq_some hf) h hr)

theorem Db.mem_paid :
    i ∈ db.orderBook.paid ↔ ∃ s ∈ db.settlements.rows, db.Debited s.id ∧ s.instructionId = i := by
  simp [orderBook, and_assoc]

theorem Db.orders_apply (op : DbOp) (i : String) :
    (op.apply now db).orderBook.orders i = (db.orderBook.orders i).or
      (((op.created db).find? fun s => s.instructionId = i).map
        fun s => (s.toAddress, s.amount)) := by
  have hmap : ((db.settlements.rows.map (op.onRow now)).find? fun s => s.instructionId = i) =
      (db.settlements.rows.find? fun s => s.instructionId = i).map (op.onRow now) := by
    rw [List.find?_map]
    simp only [Function.comp_def, onRow_instructionId]
  simp only [orderBook, findByInstructionId, rows_apply, List.find?_append, hmap]
  rcases hf : db.settlements.rows.find? fun s => s.instructionId = i with _ | s
  · simp only [hf, Option.map_none, Option.none_or]
  · simp only [hf, Option.map_some, Option.some_or, onRow_toAddress, onRow_amount]

theorem Writes.mem_paid_apply (hw : Writes σ ev op) (hc : Custody σ) (hp : σ.db.Paired) :
    i ∈ (op.apply σ.now σ.db).orderBook.paid ↔ i ∈ σ.db.orderBook.paid ∨
      ∃ s ∈ σ.db.settlements.rows, s.instructionId = i ∧ ∃ amount, op = .book s.id amount := by
  simp only [Db.mem_paid, rows_apply, List.mem_append, hw.debited_iff hc hp]
  constructor
  · rintro ⟨s', hmem, hdebit, rfl⟩
    rcases hmem with hmem | hmem
    · obtain ⟨s, hs, rfl⟩ := List.mem_map.mp hmem
      simp only [onRow_id, onRow_instructionId] at hdebit ⊢
      rcases hdebit with hdebit | hbook
      · exact .inl ⟨s, hs, hdebit, rfl⟩
      · exact .inr ⟨s, hs, rfl, hbook⟩
    -- an inserted row is neither debited nor booked by its insert
    · obtain ⟨hnone, rfl, -⟩ := created_spec hmem
      rcases hdebit with hdebit | ⟨_, hop⟩
      · exact absurd hdebit (not_debited_of_none hp hnone)
      · cases hop
  · rintro (⟨s, hs, hdebit, rfl⟩ | ⟨s, hs, rfl, hbook⟩)
    · refine ⟨op.onRow σ.now s, .inl (List.mem_map_of_mem hs), ?_, onRow_instructionId⟩
      exact .inl (by rwa [onRow_id])
    · refine ⟨op.onRow σ.now s, .inl (List.mem_map_of_mem hs), ?_, onRow_instructionId⟩
      exact .inr (by rwa [onRow_id])

theorem LedgerSums.funds (h : LedgerSums opening db) :
    db.funds = opening - (db.amountWhere fun s => db.Debited s.id : ℕ) := by
  rw [Db.funds, h.opening, h.credits, h.debits]
  omega

theorem Writes.orderBook_same (hw : Writes σ ev op) (hc : Custody σ) (hp : σ.db.Paired)
    (hL : LedgerSums opening σ.db) (hL' : LedgerSums opening (op.apply σ.now σ.db))
    (hcreated : op.created σ.db = [])
    (hbooked : ∀ id amount, op = .book id amount → σ.db.Debited id) :
    (op.apply σ.now σ.db).orderBook = σ.db.orderBook := by
  have horders : (op.apply σ.now σ.db).orderBook.orders = σ.db.orderBook.orders := by
    funext i
    rw [Db.orders_apply, hcreated]
    exact Option.or_none
  have hpaid : (op.apply σ.now σ.db).orderBook.paid = σ.db.orderBook.paid := by
    ext i
    rw [hw.mem_paid_apply hc hp]
    refine ⟨fun h => h.elim (fun h => h) ?_, .inl⟩
    rintro ⟨s, hs, rfl, amount, hop⟩
    exact Db.mem_paid.mpr ⟨s, hs, hbooked _ _ hop, rfl⟩
  -- the pair of a second booking is not written
  have hfunds : (op.apply σ.now σ.db).funds = σ.db.funds := by
    rw [hL'.funds, hL.funds, hw.amountWhere_debited hc hp]
    cases op with
    | book id amount => simp only [(hbooked id amount rfl).2, if_true, Nat.add_zero]
    | _ => rfl
  exact OrderBook.ext horders hpaid hfunds

theorem Db.orderBook_create {db' : Db} {row : Settlement} (hnew : db.create row = some db') :
    db.orderBook.orders row.instructionId = none := by
  unfold Db.create at hnew
  split_ifs at hnew with hmem
  rw [orderBook, Option.map_eq_none_iff, findByInstructionId, List.find?_eq_none]
  intro s hs heq
  exact hmem (of_decide_eq_true heq ▸ List.mem_map_of_mem hs)

theorem orderBook_register {row : Settlement} {db' : Db} (hw : Writes σ ev (.create row))
    (hc : Custody σ) (hp : σ.db.Paired) (hL : LedgerSums opening σ.db)
    (hL' : LedgerSums opening (DbOp.apply σ.now σ.db (.create row)))
    (hnew : σ.db.create row = some db') :
    (DbOp.apply σ.now σ.db (.create row)).orderBook =
      σ.db.orderBook.register row.instructionId (row.toAddress, row.amount) := by
  have hcreated : DbOp.created σ.db (.create row) = [row] := by
    rw [DbOp.created, hnew]
    rfl
  have horders : (DbOp.apply σ.now σ.db (.create row)).orderBook.orders =
      Function.update σ.db.orderBook.orders row.instructionId
        (some (row.toAddress, row.amount)) := by
    funext i
    rw [Db.orders_apply, hcreated]
    by_cases hi : i = row.instructionId
    · subst hi
      rw [Function.update_self, Db.orderBook_create hnew]
      simp
    · rw [Function.update_of_ne hi, List.find?_singleton, if_neg (by simpa using Ne.symm hi)]
      exact Option.or_none
  have hpaid : (DbOp.apply σ.now σ.db (.create row)).orderBook.paid = σ.db.orderBook.paid := by
    ext i
    rw [hw.mem_paid_apply hc hp]
    simp
  have hfunds : (DbOp.apply σ.now σ.db (.create row)).funds = σ.db.funds := by
    rw [hL'.funds, hL.funds, hw.amountWhere_debited hc hp, Nat.add_zero]
  exact OrderBook.ext horders hpaid hfunds

theorem orderBook_pay {amount : Amount} (hw : Writes σ ev (.book id amount)) (hc : Custody σ)
    (hp : σ.db.Paired) (hL : LedgerSums opening σ.db)
    (hL' : LedgerSums opening (DbOp.apply σ.now σ.db (.book id amount)))
    (hs : σ.db.findById id = some s) (hamount : s.amount = amount) (hb : ¬σ.db.Booked id) :
    (DbOp.apply σ.now σ.db (.book id amount)).orderBook =
      σ.db.orderBook.pay orderWorth s.instructionId (s.toAddress, s.amount) := by
  have horders : (DbOp.apply σ.now σ.db (.book id amount)).orderBook.orders =
      σ.db.orderBook.orders := by
    funext i
    rw [Db.orders_apply]
    exact Option.or_none
  have hpaid : (DbOp.apply σ.now σ.db (.book id amount)).orderBook.paid =
      insert s.instructionId σ.db.orderBook.paid := by
    ext i
    rw [hw.mem_paid_apply hc hp, Finset.mem_insert, or_comm]
    refine or_congr_left ⟨?_, fun hi => ?_⟩
    · rintro ⟨r, hr, rfl, _, hop⟩
      cases hop
      have := Db.findById_of_mem hr
      rw [hs] at this
      rw [Option.some.inj this]
    · exact ⟨s, Db.mem_of_findById hs, hi.symm, amount, by rw [Db.id_of_findById hs]⟩
  have hfunds : (DbOp.apply σ.now σ.db (.book id amount)).funds = σ.db.funds - s.amount := by
    rw [hL'.funds, hL.funds, hw.amountWhere_debited hc hp]
    simp only [if_neg hb, ← hamount]
    omega
  exact OrderBook.ext horders hpaid hfunds

/-- The step lemma of the refinement, one case for each kind of operation. -/
theorem rail_refines_orderBook (cfg : Config) (C : State → Event → Prop) (base opening : ℕ) :
    Refines (step cfg) C (initial cfg base opening) (OrderBook.Step orderWorth)
      fun σ => σ.db.orderBook := by
  intro σ ev σ' hr _ hs
  have hc := custody_reach hr
  have hp := paired_reach hr
  have hL := ledgerSums_reach hr
  obtain ⟨op, hw, hdb⟩ := step_db hs
  have hL' := ledgerSums_step hc hp hL hs
  rw [hdb] at hL'
  simp only [hdb]
  cases op with
  | create row =>
    -- a failed insert is no step of the book, nor is a second booking below
    rcases hnew : σ.db.create row with _ | db'
    · exact .inl (hw.orderBook_same hc hp hL hL' (by simp [DbOp.created, hnew])
        fun _ _ hop => by cases hop)
    · rw [orderBook_register hw hc hp hL hL' hnew]
      exact .inr (.register (Db.orderBook_create hnew))
  | book id amount =>
    obtain ⟨hne, s, hrow, hamount⟩ := hw.book_amount hc
    by_cases hb : σ.db.Booked id
    · exact .inl (hw.orderBook_same hc hp hL hL' rfl fun _ _ hop => by cases hop; exact ⟨hne, hb⟩)
    · rw [orderBook_pay hw hc hp hL hL' hrow hamount hb]
      have hmem := Db.mem_of_findById hrow
      refine .inr (.pay ?_ fun hpaid => ?_)
      · simp only [Db.orderBook, Db.findByInstructionId_of_mem hmem, Option.map_some]
      · obtain ⟨r, hr, hdebit, hi⟩ := Db.mem_paid.mp hpaid
        obtain rfl := List.inj_on_of_nodup_map σ.db.instructionIds_nodup hr hmem hi
        exact hb (Db.id_of_findById hrow ▸ hdebit.2)
  | none => exact .inl (hw.orderBook_same hc hp hL hL' rfl fun _ _ hop => by cases hop)
  | transition => exact .inl (hw.orderBook_same hc hp hL hL' rfl fun _ _ hop => by cases hop)
  | recordResend => exact .inl (hw.orderBook_same hc hp hL hL' rfl fun _ _ hop => by cases hop)

theorem accounted_initial (cfg : Config) (base opening : ℕ) :
    OrderBook.Accounted orderWorth opening (initial cfg base opening).db.orderBook := by
  have hpaid : (initial cfg base opening).db.orderBook.paid = ∅ := by
    simp [Db.orderBook, rows_initial, genesisRow, Db.Debited]
  refine ⟨fun i hi => ?_, ?_⟩
  · rw [hpaid] at hi
    exact absurd hi (Finset.notMem_empty i)
  · have hL := ledgerSums_initial cfg base opening
    rw [hpaid, Finset.sum_empty, Int.sub_zero, Db.orderBook, Db.funds, hL.opening, hL.credits,
      hL.debits]
    simp [Db.amountWhere, Table.sumBy, rows_initial, genesisRow, Db.Debited]

/-- The rail is an order book: from any state it ever reaches, whatever it does next is a run of
the book. Orders stand as they came, no payment is taken back or made twice, and the funds are
the opening balance less the orders paid. -/
theorem rail_keeps_orderBook {C : State → Event → Prop} {base : ℕ}
    (hr : RailReach cfg C base opening σ) (h : ReachUnder (step cfg) C σ σ') :
    Relation.ReflTransGen (OrderBook.Step orderWorth) σ.db.orderBook σ'.db.orderBook ∧
      (∀ i order, σ.db.orderBook.orders i = some order →
        σ'.db.orderBook.orders i = some order) ∧
      σ.db.orderBook.paid ⊆ σ'.db.orderBook.paid ∧
      OrderBook.Accounted orderWorth opening σ'.db.orderBook := by
  have hrefines := rail_refines_orderBook cfg C base opening
  have hrun := hrefines.run hr h
  obtain ⟨horders, hpaid⟩ := OrderBook.kept_of_run hrun
  refine ⟨hrun, horders, hpaid, ?_⟩
  exact hrefines.invariant (accounted_initial cfg base opening) (fun _ _ hI hs => hI.step hs)
    (hr.trans h)

theorem settled_payout_paid :
    ∃ σ, RailReach (plainConfig 3) (fun _ _ => True) 7 100 σ ∧
      "payout-1" ∈ σ.db.orderBook.paid ∧ σ.db.funds = 95 ∧
      OrderBook.Accounted orderWorth 100 σ.db.orderBook := by
  obtain ⟨σ, hr, hpaid⟩ := exists_reach_of_run (step (plainConfig 3))
    (initial (plainConfig 3) 7 100) settleEvents
    (fun σ => "payout-1" ∈ σ.db.orderBook.paid && σ.db.funds = 95) (by decide +kernel)
  rw [Bool.and_eq_true, decide_eq_true_eq, decide_eq_true_eq] at hpaid
  exact ⟨σ, hr, hpaid.1, hpaid.2, (rail_keeps_orderBook .refl hr).2.2.2⟩

end Rail
