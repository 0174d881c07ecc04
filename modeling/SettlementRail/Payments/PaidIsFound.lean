import SettlementRail.System.LedgerEvolution
import SettlementRail.System.QuietPoll
import SettlementRail.System.ReceiptBranches
import SettlementRail.System.Scenario
import SettlementRail.System.SentTransactions

/-! Whether the poll finds a payment. It looks for the one hash the row stores, and a resend
replaces that hash while the replaced transaction may still be mined. -/

namespace Rail
open Foundation

/-- Some transaction accepted for the settlement is on chain with status 1, deep enough. -/
def State.PaidDeep (cfg : Config) (σ : State) (id : SettlementId) : Prop :=
  ∃ a ∈ σ.node.accepted, a.sender = .settlement id ∧
    ∃ r ∈ σ.node.getTransactionReceipt a.tx, r.success = true ∧
      (cfg.listener.confirmationsFinal : ℤ) ≤ confirmations σ.node.currentBlock r

instance (cfg : Config) (σ : State) (id : SettlementId) : Decidable (σ.PaidDeep cfg id) :=
  inferInstanceAs (Decidable (∃ _ ∈ _, _ ∧ ∃ _ ∈ _, _ ∧ _))

def State.FinalAndBooked (σ : State) (id : SettlementId) : Prop :=
  (∃ s ∈ σ.db.findById id, s.status = .final) ∧ σ.db.Booked id

instance (σ : State) (id : SettlementId) : Decidable (σ.FinalAndBooked id) :=
  inferInstanceAs (Decidable ((∃ _ ∈ _, _) ∧ _))

/-- The stored hash is that of a successful transaction, deep enough, and the row does not stand
at SUBMITTED with the hash of another block that once confirmed it. -/
def Settlement.Findable (s : Settlement) (cfg : ListenerConfig) (node : Node) : Prop :=
  ∃ r ∈ s.txHash.bind node.getTransactionReceipt, r.success = true ∧
    (cfg.confirmationsFinal : ℤ) ≤ confirmations node.currentBlock r ∧
    (s.confirmedBlockHash = none ∨ s.confirmedBlockHash = some r.blockHash ∨ s.status = .confirmed)

instance (s : Settlement) (cfg : ListenerConfig) (node : Node) : Decidable (s.Findable cfg node) :=
  inferInstanceAs (Decidable (∃ _ ∈ _, _ ∧ _ ∧ _))

def Settlement.action (s : Settlement) (cfg : ListenerConfig) (node : Node) : ReceiptAction :=
  decideReceipt cfg s node.currentBlock (s.txHash.bind node.getTransactionReceipt)

def Settlement.polled (cfg : ListenerConfig) (node : Node) (now : ℕ) (s : Settlement) : Settlement :=
  if s.status ∈ openStatuses then DbOp.onRowAll now (rowOps cfg node s) s else s

variable {cfg : Config} {σ : State} {op : DbOp} {ops : List DbOp} {s t : Settlement}
variable {lcfg : ListenerConfig} {node : Node} {now : ℕ} {db : Db} {id : SettlementId} {r : Receipt}

theorem rowOps_onRow_of_ne (hne : s.id ≠ t.id) (hop : op ∈ rowOps lcfg node t) :
    op.onRow now s = s := by
  unfold rowOps at hop
  split_ifs at hop
  · unfold receiptOps at hop
    split at hop
    · cases hop
    · rw [List.mem_singleton.mp hop, onRow_of_ne hne]
    · rw [List.mem_singleton.mp hop, onRow_of_ne hne]
    · rw [List.mem_singleton.mp hop, onRow_of_ne hne]
    · rcases List.mem_pair.mp hop with rfl | rfl
      · rfl
      · exact onRow_of_ne hne
  · cases hop

theorem onRowAll_of_fixed (h : ∀ op ∈ ops, op.onRow now s = s) : DbOp.onRowAll now ops s = s := by
  induction ops with
  | nil => rfl
  | cons op ops ih =>
    have htail : DbOp.onRowAll now ops s = s := ih fun o ho => h o (List.mem_cons_of_mem _ ho)
    rw [DbOp.onRowAll, List.foldl_cons, h op List.mem_cons_self]
    exact htail

theorem onRowAll_single : DbOp.onRowAll now [op] s = op.onRow now s := rfl

theorem onRowAll_others {rows : List Settlement} (h : ∀ t ∈ rows, s.id ≠ t.id) :
    DbOp.onRowAll now (rows.flatMap (rowOps lcfg node)) s = s := by
  refine onRowAll_of_fixed fun op hop => ?_
  obtain ⟨t, ht, hop⟩ := List.mem_flatMap.mp hop
  exact rowOps_onRow_of_ne (h t ht) hop

theorem findById_polledDb (hs : σ.db.findById id = some s) :
    (σ.polledDb cfg).findById id = some (s.polled cfg.listener σ.node σ.now) := by
  have hid := Db.id_of_findById hs
  rw [State.polledDb, findById_applyAll hs, passOps, Settlement.polled]
  congr 1
  split_ifs with hopen
  · have hmem := Db.found_by_status hs hopen
    have hnodup : ((σ.db.findByStatuses openStatuses).map Settlement.id).Nodup :=
      σ.db.settlements.keys_nodup.sublist (List.filter_sublist.map _)
    obtain ⟨before, after, hsplit⟩ := List.append_of_mem hmem
    rw [hsplit, List.map_append, List.map_cons, List.nodup_append, List.nodup_cons] at hnodup
    obtain ⟨-, ⟨hafter, -⟩, hbefore⟩ := hnodup
    have hne₁ : ∀ t ∈ before, s.id ≠ t.id := fun t ht heq =>
      hbefore t.id (List.mem_map_of_mem ht) s.id List.mem_cons_self heq.symm
    have hne₂ : ∀ t ∈ after, s.id ≠ t.id := fun t ht heq =>
      hafter (heq ▸ List.mem_map_of_mem ht)
    rw [hsplit, List.flatMap_append, List.flatMap_cons, onRowAll_append, onRowAll_append,
      onRowAll_others hne₁, onRowAll_others]
    intro t ht
    rw [onRowAll_id]
    exact hne₂ t ht
  · refine onRowAll_others fun t ht heq => hopen ?_
    rw [Db.mem_findByStatuses, ← heq, hid, hs] at ht
    rw [Option.some.inj ht.1]
    exact ht.2

theorem polled_of_closed (hclosed : s.status ∉ openStatuses) : s.polled lcfg node now = s :=
  if_neg hclosed

theorem polled_of_open (hopen : s.status ∈ openStatuses) (hhash : s.txHash.isSome) :
    s.polled lcfg node now = DbOp.onRowAll now
      (receiptOps lcfg s node.currentBlock (s.txHash.bind node.getTransactionReceipt)) s := by
  rw [Settlement.polled, if_pos hopen, rowOps, if_pos hhash]

theorem hash_of_finalize (hr : s.action lcfg node = .finalize r) : s.txHash.isSome := by
  have hreceipt := (decideReceipt_finalize_iff.mp hr).1
  exact Option.isSome_of_isSome_bind (by rw [hreceipt]; rfl)

theorem polled_of_finalize (hopen : s.status ∈ openStatuses) (hr : s.action lcfg node = .finalize r) :
    s.polled lcfg node now = s.withTransition .final (finalOptions s) now := by
  have hhash := hash_of_finalize hr
  have hallow : (finalOptions s).allows s.status = true := by
    simpa [finalOptions, openFrom, TransitionOptions.allows, openStatuses] using hopen
  rw [polled_of_open hopen hhash, receiptOps]
  rw [Settlement.action] at hr
  simp only [hr]
  exact onRow_transition_of rfl hallow

theorem polled_of_reorg (hopen : s.status ∈ openStatuses) (hhash : s.txHash.isSome)
    (hr : s.action lcfg node = .reorg) :
    s.polled lcfg node now = DbOp.onRow now (.transition s.id .submitted reorgOptions) s := by
  rw [polled_of_open hopen hhash, receiptOps]
  rw [Settlement.action] at hr
  simp only [hr]
  rfl

theorem polled_of_not_finalize (hopen : s.status ∈ openStatuses)
    (hnot : ∀ r, s.action lcfg node ≠ .finalize r) :
    (s.polled lcfg node now).status ≠ .final ∧ (s.polled lcfg node now).txHash = s.txHash ∧
      ((s.polled lcfg node now).confirmedBlockHash = s.confirmedBlockHash ∨ s.status = .confirmed ∨
        ∃ r, s.txHash.bind node.getTransactionReceipt = some r ∧
          (s.confirmedBlockHash = none ∨ s.confirmedBlockHash = some r.blockHash)) := by
  have hfinal : s.status ≠ .final := by
    rintro hst
    simp [hst, openStatuses] at hopen
  have same : s.status ≠ .final ∧ s.txHash = s.txHash ∧ (s.confirmedBlockHash = s.confirmedBlockHash ∨
      s.status = .confirmed ∨ ∃ r, s.txHash.bind node.getTransactionReceipt = some r ∧
        (s.confirmedBlockHash = none ∨ s.confirmedBlockHash = some r.blockHash)) :=
    ⟨hfinal, rfl, .inl rfl⟩
  by_cases hhash : s.txHash.isSome
  swap
  · have hpolled : s.polled lcfg node now = s := by
      rw [Settlement.polled, if_pos hopen, rowOps, if_neg hhash]
      rfl
    rwa [hpolled]
  rw [polled_of_open hopen hhash]
  simp only [Settlement.action] at hnot
  rw [receiptOps]
  rcases haction : decideReceipt lcfg s node.currentBlock
    (s.txHash.bind node.getTransactionReceipt) with _ | _ | _ | q | q
  · exact same
  · rcases onRow_transition_cases now s s.id .failed revertOptions with heq | ⟨-, -, heq⟩ <;>
      rw [onRowAll_single, heq]
    · exact same
    · exact ⟨by simp [Settlement.withTransition], rfl, .inl rfl⟩
  · rcases onRow_transition_cases now s s.id .submitted reorgOptions with heq | ⟨-, hallow, heq⟩ <;>
      rw [onRowAll_single, heq]
    · exact same
    · refine ⟨by simp [Settlement.withTransition], rfl, .inr (.inl ?_)⟩
      simpa [TransitionOptions.allows, reorgOptions] using hallow
  · rcases onRow_transition_cases now s s.id .confirmed (confirmOptions s q) with heq | ⟨-, -, heq⟩ <;>
      rw [onRowAll_single, heq]
    · exact same
    · exact ⟨by simp [Settlement.withTransition], rfl, .inr (.inr ⟨q, (decideReceipt_confirm haction).1, (decideReceipt_confirm haction).2.2.1⟩)⟩
  · exact absurd haction (hnot q)

theorem findable_of_finalize (hr : s.action lcfg node = .finalize r) : s.Findable lcfg node := by
  obtain ⟨hreceipt, hsuccess, hblock, hdeep⟩ := decideReceipt_finalize_iff.mp hr
  exact ⟨r, hreceipt, hsuccess, hdeep, hblock.imp_right .inl⟩

theorem polled_twice_of_moved (hopen : s.status ∈ openStatuses) (hfind : s.Findable lcfg node)
    (hnot : ∀ r, s.action lcfg node ≠ .finalize r) :
    (s.polled lcfg node now).status ∈ openStatuses ∧
      ∃ r, (s.polled lcfg node now).action lcfg node = .finalize r := by
  obtain ⟨r, hreceipt, hsuccess, hdeep, hblock⟩ := hfind
  have hhash : s.txHash.isSome := Option.isSome_of_isSome_bind (by rw [hreceipt]; rfl)
  have hmoved : s.confirmedBlockHash.isSome ∧ s.confirmedBlockHash ≠ some r.blockHash := by
    by_contra hsame
    exact hnot r (decideReceipt_finalize_iff.mpr
      ⟨hreceipt, hsuccess, blockHash_matches.mp hsame, hdeep⟩)
  have hstatus : s.status = .confirmed := by
    rcases hblock with hnone | hsame | hstatus
    · simp [hnone] at hmoved
    · exact absurd hsame hmoved.2
    · exact hstatus
  have haction : s.action lcfg node = .reorg := by
    rw [Settlement.action, Option.mem_def.mp hreceipt, decideReceipt, if_neg (by simp [hsuccess]),
      if_pos hmoved]
  rw [polled_of_reorg hopen hhash haction, onRow_transition_of rfl (by
    simp [TransitionOptions.allows, reorgOptions, hstatus])]
  refine ⟨by simp [Settlement.withTransition, openStatuses], r, ?_⟩
  exact decideReceipt_finalize_iff.mpr ⟨hreceipt, hsuccess, .inl rfl, hdeep⟩

theorem polled_twice_final_iff (hopen : s.status ∈ openStatuses) :
    ((s.polled lcfg node now).polled lcfg node now).status = .final ↔ s.Findable lcfg node := by
  have closed : ∀ {t : Settlement}, t.status = .final → t.status ∉ openStatuses := by
    intro t ht
    simp [ht, openStatuses]
  by_cases hfin : ∃ r, s.action lcfg node = .finalize r
  · obtain ⟨r, hr⟩ := hfin
    have hfirst : (s.polled lcfg node now).status = .final := by rw [polled_of_finalize hopen hr]; rfl
    rw [polled_of_closed (closed hfirst), iff_true_intro hfirst, true_iff]
    exact findable_of_finalize hr
  · have hnot : ∀ r, s.action lcfg node ≠ .finalize r := fun r hr => hfin ⟨r, hr⟩
    obtain ⟨hfirst, hhash, hblock⟩ := polled_of_not_finalize hopen hnot
    constructor
    · intro hsecond
      by_cases hopen₁ : (s.polled lcfg node now).status ∈ openStatuses
      swap
      · rw [polled_of_closed hopen₁] at hsecond
        exact absurd hsecond hfirst
      have hfin₁ : ∃ r, (s.polled lcfg node now).action lcfg node = .finalize r := by
        by_contra hnone
        exact (polled_of_not_finalize hopen₁ fun r hr => hnone ⟨r, hr⟩).1 hsecond
      obtain ⟨r, hr⟩ := hfin₁
      obtain ⟨hreceipt, hsuccess, hsame, hdeep⟩ := decideReceipt_finalize_iff.mp hr
      rw [hhash] at hreceipt
      refine ⟨r, hreceipt, hsuccess, hdeep, ?_⟩
      rcases hblock with heq | hstatus | ⟨q, hq, hmatch⟩
      · rw [heq] at hsame
        exact hsame.imp_right .inl
      · exact .inr (.inr hstatus)
      · rw [hreceipt] at hq
        rw [Option.some.inj hq]
        exact hmatch.imp_right .inl
    · intro hfind
      obtain ⟨hopen₁, r, hr⟩ := polled_twice_of_moved hopen hfind hnot
      rw [polled_of_finalize hopen₁ hr]
      rfl

theorem booked_applyAll (hb : db.Booked id) : (DbOp.applyAll now db ops).Booked id := by
  induction ops generalizing db with
  | nil => exact hb
  | cons op ops ih => exact ih (booked_apply hb op)

theorem booked_applyAll_of_mem {amount : Amount} (hs : db.findById id = some s)
    (hmem : .book id amount ∈ ops) : (DbOp.applyAll now db ops).Booked id := by
  induction ops generalizing db s with
  | nil => cases hmem
  | cons op ops ih =>
    rcases List.mem_cons.mp hmem with rfl | hmem
    · show (DbOp.applyAll now ((DbOp.book id amount).apply now db) ops).Booked id
      exact booked_applyAll (booked_book hs)
    · exact ih (findById_apply hs) hmem

theorem booked_polledDb (hs : σ.db.findById id = some s) (hopen : s.status ∈ openStatuses)
    (hr : s.action cfg.listener σ.node = .finalize r) : (σ.polledDb cfg).Booked id := by
  have hmem := Db.found_by_status hs hopen
  have hhash := hash_of_finalize hr
  have hbook : .book id s.amount ∈ passOps cfg.listener σ.db σ.node := by
    refine List.mem_flatMap.mpr ⟨s, hmem, ?_⟩
    rw [Settlement.action] at hr
    simp [rowOps, hhash, receiptOps, hr, Db.id_of_findById hs]
  exact booked_applyAll_of_mem hs hbook

/-- Two undisturbed polls run through, and leave an open settlement FINAL and booked exactly if
its row lets them find the payment. -/
theorem finalAndBooked_iff_findable (hup : σ.up = true) (hidle : σ.isPolling = false)
    (hs : σ.db.findById id = some s) (hopen : s.status ∈ openStatuses) :
    ∃ σ₁ σ₂, run (step cfg) σ (pollEvents cfg σ) = some σ₁ ∧
      run (step cfg) σ₁ (pollEvents cfg σ₁) = some σ₂ ∧
      (σ₂.FinalAndBooked id ↔ s.Findable cfg.listener σ.node) := by
  obtain ⟨metrics₁, hrun₁⟩ := @run_poll cfg σ hup hidle
  let σ₁ : State := { σ with
    db := σ.polledDb cfg
    listeners := σ.listeners ++ [{ isPoll := true, pc := .done }], metrics := metrics₁ }
  have hidle₁ : σ₁.isPolling = false := by
    simpa [σ₁, State.isPolling] using hidle
  obtain ⟨metrics₂, hrun₂⟩ := @run_poll cfg σ₁ hup hidle₁
  refine ⟨σ₁, _, hrun₁, hrun₂, ?_⟩
  have hs₁ : σ₁.db.findById id = some (s.polled cfg.listener σ.node σ.now) := findById_polledDb hs
  have hs₂ := @findById_polledDb cfg _ _ _ hs₁
  constructor
  · rintro ⟨⟨s₂, hrow, hfinal⟩, -⟩
    obtain rfl := Option.some.inj (hs₂.symm.trans hrow)
    exact (polled_twice_final_iff hopen).mp hfinal
  · intro hfind
    refine ⟨⟨_, hs₂, (polled_twice_final_iff hopen).mpr hfind⟩, ?_⟩
    by_cases hfin : ∃ r, s.action cfg.listener σ.node = .finalize r
    · obtain ⟨r, hr⟩ := hfin
      exact booked_applyAll (booked_polledDb hs hopen hr)
    · have hnot : ∀ r, s.action cfg.listener σ.node ≠ .finalize r := fun r hr => hfin ⟨r, hr⟩
      obtain ⟨hopen₁, r, hr⟩ := polled_twice_of_moved hopen hfind hnot
      exact booked_polledDb hs₁ hopen₁ hr

theorem mined_payout_found :
    ∃ (σ : State) (s : Settlement), Reach (step (plainConfig 3)) (initial (plainConfig 3) 7 100) σ ∧
      s.Findable (plainConfig 3).listener σ.node ∧
      ∃ σ₁ σ₂, run (step (plainConfig 3)) σ (pollEvents (plainConfig 3) σ) = some σ₁ ∧
        run (step (plainConfig 3)) σ₁ (pollEvents (plainConfig 3) σ₁) = some σ₂ ∧
        (σ₂.FinalAndBooked 1 ↔ s.Findable (plainConfig 3).listener σ.node) := by
  obtain ⟨σ, hr, hcheck⟩ := exists_reach_of_run (step (plainConfig 3))
    (initial (plainConfig 3) 7 100) (bootEvents ++ submitEvents 0 1 payout ++ sendEvents ++
      [.newHead 0 (mined [plainTransfer 7 payout] 4)])
    (fun σ => σ.up ∧ σ.isPolling = false ∧ ∃ s ∈ σ.db.findById 1, s.status ∈ openStatuses ∧
      s.Findable (plainConfig 3).listener σ.node) (by decide +kernel)
  obtain ⟨hup, hidle, s, hs, hopen, hfind⟩ := of_decide_eq_true hcheck
  exact ⟨σ, s, hr, hfind, finalAndBooked_iff_findable hup hidle hs hopen⟩

/-- A stuck transfer is resent with higher fees and the row gets the new hash; then the first
transfer is mined. -/
def originalMined : List Event :=
  bootEvents ++ submitEvents 0 1 payout ++ sendEvents ++
    [.tick 60000, .startSweep, .sweep .found, .sweep .receipt, .sweep (.sent (.accepted none)),
      .sweep (.written .ok), .newHead 0 (mined [plainTransfer 7 payout] 4)]

theorem paid_and_not_found :
    ¬∀ cfg base opening σ id σ₁ σ₂, Reach (step cfg) (initial cfg base opening) σ →
      σ.up = true → σ.isPolling = false →
      (∃ s ∈ σ.db.findById id, s.status ∈ openStatuses) → σ.PaidDeep cfg id →
      run (step cfg) σ (pollEvents cfg σ) = some σ₁ →
      run (step cfg) σ₁ (pollEvents cfg σ₁) = some σ₂ → σ₂.FinalAndBooked id := by
  intro hall
  obtain ⟨σ, hr, hbad⟩ := exists_reach_of_run (step (plainConfig 3))
    (initial (plainConfig 3) 7 100) originalMined
    (fun σ => σ.up ∧ σ.isPolling = false ∧ (∃ s ∈ σ.db.findById 1, s.status ∈ openStatuses) ∧
      σ.PaidDeep (plainConfig 3) 1 ∧
      ((run (step (plainConfig 3)) σ (pollEvents (plainConfig 3) σ)).any fun σ₁ =>
        (run (step (plainConfig 3)) σ₁ (pollEvents (plainConfig 3) σ₁)).any fun σ₂ =>
          decide (¬σ₂.FinalAndBooked 1)) = true) (by decide +kernel)
  obtain ⟨hup, hidle, hopen, hpaid, hruns⟩ := of_decide_eq_true hbad
  obtain ⟨σ₁, h₁, hruns⟩ := (Option.any_eq_true _ _).mp hruns
  obtain ⟨σ₂, h₂, hnot⟩ := (Option.any_eq_true _ _).mp hruns
  exact of_decide_eq_true hnot (hall _ _ _ σ 1 σ₁ σ₂ hr hup hidle hopen hpaid h₁ h₂)

end Rail
