import SettlementRail.Model.Settlements

/-! What a committed transaction does to one row of the settlement table. -/

namespace Rail
open Foundation

variable {db db' : Db} {now : ℕ} {id k : SettlementId} {s s' row : Settlement}
variable {toStatus : SettlementStatus} {opts : TransitionOptions} {op : DbOp}

namespace Db

theorem id_of_findById (h : db.findById k = some s) : s.id = k := Table.key_of_find? h

theorem findById_of_mem (h : s ∈ db.settlements.rows) : db.findById s.id = some s :=
  Table.find?_of_mem h

theorem mem_of_findById (h : db.findById k = some s) : s ∈ db.settlements.rows :=
  Table.mem_of_find? h

theorem mem_findByStatuses {statuses : List SettlementStatus} :
    s ∈ db.findByStatuses statuses ↔ db.findById s.id = some s ∧ s.status ∈ statuses := by
  simp [findByStatuses, findById, Table.mem_iff_find?]

theorem found_by_status {statuses : List SettlementStatus} (hs : db.findById k = some s)
    (hstatus : s.status ∈ statuses) : s ∈ db.findByStatuses statuses := by
  have hid := id_of_findById hs
  exact mem_findByStatuses.mpr ⟨by rwa [hid], hstatus⟩

theorem findByTxHash_some {txHash : TxHash} (h : db.findByTxHash txHash = some s) :
    db.findById s.id = some s ∧ s.txHash = some txHash :=
  ⟨findById_of_mem (List.mem_of_find?_eq_some h), by simpa using List.find?_some h⟩

theorem settlements_create (h : db.create row = some db') :
    db.settlements.insert? row = some db'.settlements := by
  unfold create at h
  split_ifs at h
  split at h
  · cases h
  · rename_i hs
    rw [← Option.some.inj h]
    exact hs

theorem create_frame (h : db.create row = some db') :
    db'.ledgerEntries = db.ledgerEntries ∧ db'.statusTransitions = db.statusTransitions ∧
      db'.outboxEvents = db.outboxEvents := by
  unfold create at h
  split_ifs at h
  split at h
  · cases h
  · rw [← Option.some.inj h]
    exact ⟨rfl, rfl, rfl⟩

theorem findById_create (h : db.create row = some db') :
    db'.findById k = if k = row.id then some row else db.findById k :=
  Table.find?_insert? (settlements_create h) k

theorem findById_none_of_create (h : db.create row = some db') : db.findById row.id = none :=
  (Table.insert?_eq_some (settlements_create h)).1

end Db

def DbOp.onRow (now : ℕ) : DbOp → Settlement → Settlement
  | .transition id toStatus opts, s =>
    if s.id = id ∧ opts.allows s.status then s.withTransition toStatus opts now else s
  | .recordResend id txHash retryCount, s =>
    if s.id = id then s.withResend txHash retryCount now else s
  | _, s => s

def DbOp.created (db : Db) : DbOp → List Settlement
  | .create row => if (db.create row).isSome then [row] else []
  | _ => []

theorem map_onRow_of_fixed {l : List Settlement} (h : ∀ s ∈ l, op.onRow now s = s) :
    l.map (op.onRow now) = l :=
  (List.map_congr_left h).trans (List.map_id l)

theorem onRow_transition_of_not (h : ¬(s.id = id ∧ opts.allows s.status)) :
    DbOp.onRow now (.transition id toStatus opts) s = s := if_neg h

theorem onRow_transition_of (hid : s.id = id) (h : opts.allows s.status) :
    DbOp.onRow now (.transition id toStatus opts) s = s.withTransition toStatus opts now :=
  if_pos ⟨hid, h⟩

theorem rows_transition :
    (db.transition now id toStatus opts).settlements.rows =
      db.settlements.rows.map (DbOp.onRow now (.transition id toStatus opts)) := by
  unfold Db.transition
  split
  · rename_i hnone
    refine (map_onRow_of_fixed fun s hs => onRow_transition_of_not fun hid => ?_).symm
    have := Db.findById_of_mem hs
    rw [hid.1, hnone] at this
    cases this
  · rename_i current hcur
    split_ifs with hallow
    · refine List.map_congr_left fun s hs => ?_
      by_cases hid : s.id = id
      · have hs' := Db.findById_of_mem hs
        rw [hid, hcur] at hs'
        cases hs'
        simp [Table.updateRow, DbOp.onRow, hid, hallow]
      · simp [Table.updateRow, DbOp.onRow, hid]
    · refine (map_onRow_of_fixed fun s hs =>
        onRow_transition_of_not fun hid => hallow ?_).symm
      have := Db.findById_of_mem hs
      rw [hid.1, hcur] at this
      cases this
      exact hid.2

theorem ledgerEntries_transition :
    (db.transition now id toStatus opts).ledgerEntries = db.ledgerEntries := by
  unfold Db.transition
  split
  · rfl
  · split_ifs <;> rfl

theorem settlements_book (id : SettlementId) (amount : Amount) :
    (db.recordSettlementFinalized id amount).1.settlements = db.settlements := by
  unfold Db.recordSettlementFinalized
  repeat' split <;> try rfl

theorem rows_apply (op : DbOp) :
    (op.apply now db).settlements.rows =
      db.settlements.rows.map (op.onRow now) ++ op.created db := by
  cases op with
  | none =>
    rw [map_onRow_of_fixed fun _ _ => rfl]
    simp [DbOp.apply, DbOp.created]
  | create row =>
    rw [map_onRow_of_fixed fun _ _ => rfl]
    rcases hc : db.create row with _ | db'
    · simp [DbOp.apply, DbOp.created, hc]
    · simp [DbOp.apply, DbOp.created, hc, (Table.insert?_eq_some (Db.settlements_create hc)).2]
  | transition id toStatus opts => simp [DbOp.apply, DbOp.created, rows_transition]
  | recordResend id txHash retryCount =>
    simp only [DbOp.apply, Db.recordResend, Db.update, Table.modify, DbOp.created, List.append_nil]
    rfl
  | book id amount =>
    rw [map_onRow_of_fixed fun _ _ => rfl]
    simp [DbOp.apply, DbOp.created, settlements_book]

@[simp] theorem onRow_id : (op.onRow now s).id = s.id := by
  cases op <;> simp only [DbOp.onRow] <;> split_ifs <;> rfl

@[simp] theorem onRow_amount : (op.onRow now s).amount = s.amount := by
  cases op <;> simp only [DbOp.onRow] <;> split_ifs <;> rfl

@[simp] theorem onRow_toAddress : (op.onRow now s).toAddress = s.toAddress := by
  cases op <;> simp only [DbOp.onRow] <;> split_ifs <;> rfl

@[simp] theorem onRow_instructionId : (op.onRow now s).instructionId = s.instructionId := by
  cases op <;> simp only [DbOp.onRow] <;> split_ifs <;> rfl

theorem findById_apply (h : db.findById k = some s) :
    (op.apply now db).findById k = some (op.onRow now s) := by
  have hmem : op.onRow now s ∈ (op.apply now db).settlements.rows := by
    rw [rows_apply]
    exact List.mem_append_left _ (List.mem_map_of_mem (Db.mem_of_findById h))
  have := Db.findById_of_mem hmem
  rwa [onRow_id, Db.id_of_findById h] at this

/-- Where a row comes from: an old row under the same id, or the insert of this very row. -/
theorem findById_apply_cases (h : (op.apply now db).findById k = some s') :
    (∃ s, db.findById k = some s ∧ s' = op.onRow now s) ∨
      (db.findById k = none ∧ op = .create s' ∧ s'.id = k) := by
  rcases hk : db.findById k with _ | s
  · right
    have hmem := Db.mem_of_findById h
    rw [rows_apply, List.mem_append] at hmem
    have hid := Db.id_of_findById h
    rcases hmem with hmem | hmem
    · obtain ⟨s, hs, rfl⟩ := List.mem_map.mp hmem
      have := Db.findById_of_mem hs
      rw [← @onRow_id now s op, hid, hk] at this
      cases this
    · cases op with
      | create row =>
        simp only [DbOp.created] at hmem
        split_ifs at hmem
        · rw [List.mem_singleton] at hmem
          exact ⟨rfl, by rw [hmem], hid⟩
        · simp at hmem
      | _ => simp [DbOp.created] at hmem
  · left
    rw [findById_apply hk] at h
    exact ⟨s, rfl, (Option.some.inj h).symm⟩

/-- The audit row an operation adds, in the transaction of the update it reports. -/
def DbOp.audited (db : Db) : DbOp → List StatusTransition
  | .transition id toStatus opts =>
    match db.findById id with
    | .none => []
    | .some current =>
      if opts.allows current.status then
        [{ settlementId := id
           fromStatus := current.status
           toStatus
           txHash := (opts.txHash.getD .none).or current.txHash }]
      else []
  | _ => []

theorem statusTransitions_apply (op : DbOp) :
    (op.apply now db).statusTransitions = db.statusTransitions ++ op.audited db := by
  cases op with
  | transition id toStatus opts =>
    simp only [DbOp.apply, Db.transition, DbOp.audited]
    rcases db.findById id with _ | current
    · simp
    · by_cases hallow : opts.allows current.status <;> simp [hallow]
  | create row =>
    simp only [DbOp.apply, DbOp.audited, List.append_nil]
    rcases hc : db.create row with _ | db'
    · rfl
    · rw [Option.getD_some, (Db.create_frame hc).2.1]
  | book id amount =>
    simp only [DbOp.apply, DbOp.audited, List.append_nil]
    unfold Db.recordSettlementFinalized
    repeat' split <;> try rfl
  | _ => simp [DbOp.apply, DbOp.audited, Db.recordResend, Db.update]

/-- The outbox row an operation adds, in the same transaction. -/
def DbOp.emitted (now : ℕ) (db : Db) : DbOp → List OutboxEvent
  | .transition id toStatus opts =>
    match db.findById id with
    | .none => []
    | .some current =>
      if opts.allows current.status then
        (outboxEventType toStatus).toList.map fun type =>
          { settlementId := id
            type
            instructionId := current.instructionId
            status := toStatus
            amount := current.amount
            toAddress := current.toAddress
            txHash := (current.withTransition toStatus opts now).txHash }
      else []
  | _ => []

theorem outboxEvents_apply (op : DbOp) :
    (op.apply now db).outboxEvents = db.outboxEvents ++ op.emitted now db := by
  cases op with
  | transition id toStatus opts =>
    simp only [DbOp.apply, Db.transition, DbOp.emitted]
    rcases db.findById id with _ | current
    · simp
    · by_cases hallow : opts.allows current.status <;> simp [hallow, Settlement.withTransition]
  | create row =>
    simp only [DbOp.apply, DbOp.emitted, List.append_nil]
    rcases hc : db.create row with _ | db'
    · rfl
    · rw [Option.getD_some, (Db.create_frame hc).2.2]
  | book id amount =>
    simp only [DbOp.apply, DbOp.emitted, List.append_nil]
    unfold Db.recordSettlementFinalized
    repeat' split <;> try rfl
  | _ => simp [DbOp.apply, DbOp.emitted, Db.recordResend, Db.update]

end Rail
