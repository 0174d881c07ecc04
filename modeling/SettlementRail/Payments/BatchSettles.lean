import SettlementRail.Books.OverCommitment
import SettlementRail.Payments.PaidIsFound
import SettlementRail.Payments.TwinCalls
import SettlementRail.System.QuietPayout

/-! The rail can do what it is for: from any state in which nothing is under way, any payouts that
pass screening and are covered by the balance can be settled, one after another. -/

namespace Rail
open Foundation
open Ledger (Appends appends_create)

variable {cfg : Config} {σ ρ : State} {dto : CreateSettlementDto} {C : State → Event → Prop}
variable {base opening : ℕ} {id : SettlementId} {db : Db}

structure Ready (σ : State) : Prop where
  up : σ.up = true
  recovered : σ.relayer.recovery = .done
  awake : σ.relayer.draining = false
  idle : σ.relayer.worker = none
  drained : σ.relayer.queue = []
  quiet : σ.isPolling = false
  pool : σ.node.mempool = []
  synced : σ.relayer.localNonce = σ.node.minedCount
  settled : σ.db.findByStatuses openStatuses = []

def Db.drawn (db : Db) : ℕ := db.operatorSum .debit + db.sumByStatuses inFlightStatuses

theorem available_eq_sub (hsmall : opening < 10 ^ 20) (hsums : LedgerSums opening db)
    (hcovered : db.drawn ≤ opening) : db.available = (opening : ℤ) - db.drawn := by
  have hdebits : db.operatorSum .debit ≤ opening := (Nat.le_add_right _ _).trans hcovered
  have hflight : db.sumByStatuses inFlightStatuses < 10 ^ 20 :=
    ((Nat.le_add_left _ _).trans hcovered).trans_lt hsmall
  have hleft : opening - db.operatorSum .debit < 10 ^ 20 := (Nat.sub_le _ _).trans_lt hsmall
  have hbalance : db.getOperatorBalance = ((opening - db.operatorSum .debit : ℕ) : ℤ) := by
    have hdebited : db.operatorSum .debit = db.debited := hsums.debits
    rw [hdebited] at hdebits ⊢
    rw [getOperatorBalance_eq hsmall hsums hdebits, Nat.cast_sub hdebits]
  rw [Db.available, hbalance, decimalMinus, roundSig_sub hleft hflight, Nat.cast_sub hdebits,
    Db.drawn, Nat.cast_add, sub_sub]

structure Payable (cfg : Config) (db : Db) (dto : CreateSettlementDto) : Prop where
  positive : 0 < dto.amount
  approved : (cfg.compliance dto.toAddress).approved = true
  unused : db.findByInstructionId dto.instructionId = none

structure Pays (σ ρ : State) (dto : CreateSettlementDto) (s : Settlement) (tx : Tx) : Prop where
  appends : Appends σ.db ρ.db [s] (bookingPair s.id dto.amount)
  final : s.status = .final
  instructionId : s.instructionId = dto.instructionId
  toAddress : s.toAddress = dto.toAddress
  amount : s.amount = dto.amount
  txHash : s.txHash = some tx
  entries : ρ.node.entries = σ.node.entries ++ [minedEntry tx]
  call : tx.call = .transfer dto.toAddress dto.amount

theorem polledDb_single {s : Settlement} {r : Receipt}
    (hopened : σ.db.findByStatuses openStatuses = [s])
    (hr : s.action cfg.listener σ.node = .finalize r) :
    σ.polledDb cfg = (DbOp.transition s.id .final (finalOptions s)).apply σ.now
      ((DbOp.book s.id s.amount).apply σ.now σ.db) := by
  have hops : rowOps cfg.listener σ.node s =
      [.book s.id s.amount, .transition s.id .final (finalOptions s)] := by
    rw [rowOps, if_pos (hash_of_finalize hr), receiptOps]
    rw [Settlement.action] at hr
    rw [hr]
  rw [State.polledDb, passOps, hopened, List.flatMap_singleton, hops]
  rfl

theorem Relayer.enqueueId_idle {r : Relayer} (hawake : r.draining = false)
    (hidle : r.worker = none) (hqueue : r.queue = []) (id : SettlementId) :
    r.enqueueId id = { r with worker := some (id, .find) } := by
  simp [Relayer.enqueueId, Relayer.runWorker, hawake, hidle, hqueue]

theorem findByStatuses_appends {db' : Db} {s : Settlement} {es : List LedgerEntry}
    (h : Appends db db' [s] es) (statuses : List SettlementStatus) :
    db'.findByStatuses statuses =
      db.findByStatuses statuses ++ [s].filter fun s => s.status ∈ statuses := by
  rw [Db.findByStatuses, h.rows, List.filter_append]
  rfl

theorem payout_settles (hsmall : opening < 10 ^ 20) (hr : RailReach cfg C base opening σ)
    (hready : Ready σ) (hdto : Payable cfg σ.db dto)
    (hcovered : σ.db.drawn + dto.amount ≤ opening) :
    ∃ es ρ s tx, run (step cfg) σ es = some ρ ∧ Ready ρ ∧ Pays σ ρ dto s tx := by
  obtain ⟨hpos, happroved, hnew⟩ := hdto
  obtain ⟨id, hid⟩ := Db.exists_unused σ.db
  obtain ⟨db₁, hcreate⟩ : ∃ db₁, σ.db.create (dto.row id σ.now) = some db₁ :=
    Db.exists_create hid hnew
  have hfunds : (dto.amount : ℤ) ≤ σ.db.available := by
    rw [available_eq_sub hsmall (ledgerSums_reach hr) ((Nat.le_add_right _ _).trans hcovered)]
    omega
  have hunits : dto.amount < 10 ^ 27 :=
    (((Nat.le_add_left _ _).trans hcovered).trans_lt hsmall).trans (by decide)
  have hnotBooked : ¬σ.db.Booked id := by
    intro hbooked
    -- the opening entry of the ledger belongs to a row of its own
    have hne : id ≠ 0 := by
      rintro rfl
      obtain ⟨s, hs, -⟩ := (custody_reach hr).genesis
      rw [hid] at hs
      cases hs
    obtain ⟨-, s, hs, -⟩ := debited_passed_reach hr id ⟨hne, hbooked⟩
    rw [hid] at hs
    cases hs
  -- the request
  let s₁ := (dto.row id σ.now).withTransition .complianceApproved {} σ.now
  let σ₁ : State :=
    { σ with
      db := (DbOp.transition id .complianceApproved {}).apply σ.now db₁
      creates := σ.creates ++ [{ dto, pc := .returned id true }]
      relayer := { σ.relayer with worker := some (id, .find) } }
  have hrun₁ : run (step cfg) σ (submitEvents σ.creates.length id dto) = some σ₁ := by
    have hserving : σ.serving = true := by simp [State.serving, hready.up, hready.recovered]
    rw [run_submit hserving hpos hnew hid hfunds happroved hcreate,
      Relayer.enqueueId_idle hready.awake hready.idle hready.drained]
  have happends₁ : Appends σ.db σ₁.db [s₁] [] :=
    Appends.transition (appends_create hcreate) hid rfl
  -- the job
  let v := sentVars s₁ σ.relayer.localNonce
  let s₂ := s₁.withTransition .submitted (submittedOptions v) σ.now
  let σ₂ : State :=
    { σ₁ with
      db := (DbOp.transition id .submitted (submittedOptions v)).apply σ.now σ₁.db
      node := σ.node.accept (.settlement id) v.tx
      relayer :=
        { σ.relayer with
          localNonce := σ.relayer.localNonce + 1
          inflight := σ.relayer.inflight.set (jobInflight v σ.now) } }
  have hnonce : v.tx.nonce = σ.node.minedCount := hready.synced
  have hrun₂ : run (step cfg) σ₁ sendEvents = some σ₂ := by
    have haccepts : σ.node.accepts v.tx = true := by
      simp [Node.accepts, hnonce, hready.pool]
    have hrow : σ₁.db.findById id = some s₁ := Appends.findById_new happends₁
    rw [run_send (σ := σ₁) rfl hready.drained hrow rfl hunits haccepts]
    simp only [σ₂, σ₁, v, hready.idle]
  have happends₂ : Appends σ.db σ₂.db [s₂] [] := Appends.transition happends₁ hid rfl
  have hreach₂ : RailReach cfg (fun _ _ => True) base opening σ₂ :=
    (hr.reach.trans (.of_run hrun₁)).trans (.of_run hrun₂)
  -- the block, with as many on top as make it final
  let n := cfg.listener.confirmationsFinal
  let σ₃ : State := { σ₂ with node := σ₂.node.withHead 0 (mined [v.tx] n) }
  have hpool₂ : σ₂.node.mempool = [v.tx] := by
    simp [σ₂, Node.accept, hready.pool]
  have hrun₃ : step cfg σ₂ (.newHead 0 (mined [v.tx] n)) = some σ₃ := by
    have hknown : σ₂.node.Known v.tx := Node.known_accept.mpr (.inr rfl)
    have hpossible := Node.headPossible_mined (n := n) (nodeInv_reach hreach₂) hnonce hknown
    exact if_pos hpossible
  have hreach₃ : RailReach cfg (fun _ _ => True) base opening σ₃ := hreach₂.tail trivial hrun₃
  -- the poll
  obtain ⟨r, hreceipt, hok, hdeep⟩ := Node.receipt_mined (nodeInv_reach hreach₃)
  have hopened : σ₃.db.findByStatuses openStatuses = [s₂] := by
    rw [findByStatuses_appends happends₂, hready.settled]
    rfl
  have haction : s₂.action cfg.listener σ₃.node = .finalize r := by
    have hone : ((n : ℕ) : ℤ) ≤ ((n + 1 : ℕ) : ℤ) := Int.ofNat_le.mpr (Nat.le_succ n)
    exact decideReceipt_finalize_iff.mpr ⟨hreceipt, hok, .inl rfl, hone.trans hdeep⟩
  obtain ⟨metrics, hrun₄⟩ := @run_poll cfg σ₃ hready.up hready.quiet
  rw [polledDb_single hopened haction] at hrun₄
  let s₃ := s₂.withTransition .final (finalOptions s₂) σ.now
  let ρ : State :=
    { σ₃ with
      db := (DbOp.transition id .final (finalOptions s₂)).apply σ.now
        ((DbOp.book id dto.amount).apply σ.now σ₃.db)
      listeners := σ.listeners ++ [{ isPoll := true, pc := .done }], metrics }
  have happends₃ : Appends σ.db ρ.db [s₃] (bookingPair id dto.amount) :=
    Appends.transition (Appends.book happends₂ hnotBooked) hid rfl
  refine ⟨submitEvents σ.creates.length id dto ++ sendEvents ++ [.newHead 0 (mined [v.tx] n)] ++
    pollEvents cfg σ₃, ρ, s₃, v.tx, ?_, ?_, ⟨happends₃, rfl, rfl, rfl, rfl, rfl, ?_, rfl⟩⟩
  · rw [run_append, run_append, run_append, hrun₁, Option.bind_some, hrun₂, Option.bind_some, run,
      hrun₃]
    exact hrun₄
  · refine ⟨hready.up, hready.recovered, hready.awake, hready.idle, hready.drained, ?_,
      Node.mempool_mined hpool₂ hnonce, ?_, ?_⟩
    · have hquiet := hready.quiet
      rw [State.isPolling] at hquiet ⊢
      simpa [ρ] using hquiet
    · show σ.relayer.localNonce + 1 = (σ₂.node.withHead 0 (mined [v.tx] n)).minedCount
      rw [Node.minedCount_mined]
      exact congrArg (· + 1) hready.synced
    · rw [findByStatuses_appends happends₃, hready.settled]
      rfl
  · exact Node.entries_mined

def Settled (ρ : State) (dto : CreateSettlementDto) : Prop :=
  ∃ s, ρ.db.findById s.id = some s ∧ s.instructionId = dto.instructionId ∧
    s.toAddress = dto.toAddress ∧ s.amount = dto.amount ∧ ρ.FinalAndBooked s.id ∧
    ∃ e ∈ ρ.node.entries, e.success = true ∧ s.txHash = some e.tx ∧
      e.tx.call = .transfer dto.toAddress dto.amount

variable {s : Settlement} {tx : Tx} {d : CreateSettlementDto}

theorem Pays.settled (h : Pays σ ρ dto s tx) : Settled ρ dto := by
  have hrow : ρ.db.findById s.id = some s := Appends.findById_new h.appends
  have hbooked : ρ.db.Booked s.id := by
    rw [Db.Booked, h.appends.entriesOf]
    refine List.append_ne_nil_of_right_ne_nil _ fun hnil => ?_
    simp [bookingPair, Db.debitEntry] at hnil
  refine ⟨s, hrow, h.instructionId, h.toAddress, h.amount, ⟨⟨s, hrow, h.final⟩, hbooked⟩,
    minedEntry tx, ?_, rfl, h.txHash, h.call⟩
  rw [h.entries]
  exact List.mem_append_right _ List.mem_cons_self

theorem Settled.kept (hd : Settled σ d) (h : Pays σ ρ dto s tx) : Settled ρ d := by
  obtain ⟨t, hrow, hinstr, haddress, hamount, ⟨⟨t', ht', hfinal⟩, hbooked⟩, e, he, hrest⟩ := hd
  refine ⟨t, h.appends.findById_some hrow, hinstr, haddress, hamount,
    ⟨⟨t', h.appends.findById_some ht', hfinal⟩, ?_⟩, e, ?_, hrest⟩
  · rw [Db.Booked, h.appends.entriesOf]
    exact List.append_ne_nil_of_left_ne_nil hbooked _
  · rw [h.entries]
    exact List.mem_append_left _ he

theorem Pays.drawn (h : Pays σ ρ dto s tx) : ρ.db.drawn = σ.db.drawn + dto.amount := by
  have hdebits : ρ.db.operatorSum .debit = σ.db.operatorSum .debit + dto.amount := by
    rw [Db.operatorSum, Table.sumBy, h.appends.entries, List.map_append, List.sum_append]
    rfl
  have hflight : ρ.db.sumByStatuses inFlightStatuses = σ.db.sumByStatuses inFlightStatuses := by
    rw [Db.sumByStatuses, Table.sumBy, h.appends.rows, List.map_append, List.sum_append]
    simp [h.final, inFlightStatuses, Db.sumByStatuses, Table.sumBy]
  rw [Db.drawn, hdebits, hflight, Db.drawn, Nat.add_right_comm]

theorem Pays.payable (h : Pays σ ρ dto s tx) (hd : Payable cfg σ.db d)
    (hne : d.instructionId ≠ dto.instructionId) : Payable cfg ρ.db d := by
  refine ⟨hd.positive, hd.approved, ?_⟩
  rw [Db.findByInstructionId, h.appends.rows, List.find?_append]
  have hold := hd.unused
  rw [Db.findByInstructionId] at hold
  rw [hold, Option.none_or, List.find?_singleton, h.instructionId]
  simp [hne.symm]

/-- From every reachable state in which nothing is under way, every list of payouts with instruction
ids not used before, to addresses that pass the screening, and within the opening balance less what
is debited or in flight, has a run that settles all of them: each one FINAL, booked and paid on
chain by a successful transfer of its own amount to its own address. The run ends with nothing
under way. -/
theorem batch_settles {dtos : List CreateSettlementDto} (hsmall : opening < 10 ^ 20)
    (hr : RailReach cfg C base opening σ) (hready : Ready σ)
    (hdtos : ∀ dto ∈ dtos, Payable cfg σ.db dto)
    (hnodup : (dtos.map CreateSettlementDto.instructionId).Nodup)
    (hcovered : σ.db.drawn + (dtos.map CreateSettlementDto.amount).sum ≤ opening) :
    ∃ es ρ, run (step cfg) σ es = some ρ ∧ Ready ρ ∧ (∀ dto ∈ dtos, Settled ρ dto) ∧
      ∀ d, Settled σ d → Settled ρ d := by
  induction dtos generalizing σ C with
  | nil => exact ⟨[], σ, rfl, hready, fun _ hd => (by cases hd), fun _ hd => hd⟩
  | cons dto dtos ih =>
    rw [List.map_cons, List.nodup_cons] at hnodup
    rw [List.map_cons, List.sum_cons, ← Nat.add_assoc] at hcovered
    obtain ⟨es, τ, s, tx, hrun, hτ, hpays⟩ := payout_settles hsmall hr hready
      (hdtos dto List.mem_cons_self) ((Nat.le_add_right _ _).trans hcovered)
    have hrest : ∀ d ∈ dtos, Payable cfg τ.db d := by
      intro d hd
      refine hpays.payable (hdtos d (List.mem_cons_of_mem _ hd)) fun heq => hnodup.1 ?_
      rw [← heq]
      exact List.mem_map_of_mem hd
    obtain ⟨es', ρ, hrun', hρ, hall, hkept⟩ := ih (hr.reach.trans (.of_run hrun)) hτ hrest hnodup.2
      (by rwa [hpays.drawn])
    refine ⟨es ++ es', ρ, ?_, hρ, fun d hd => ?_, fun d hd => hkept d (hd.kept hpays)⟩
    · rw [run_append, hrun, Option.bind_some, hrun']
    · rcases List.mem_cons.mp hd with rfl | hd
      · exact hkept _ hpays.settled
      · exact hall d hd

def restPayout : CreateSettlementDto :=
  { instructionId := "payout-2", toAddress := "0xother", amount := 95 }

theorem whole_balance_settles : ∃ es ρ,
    run (step (plainConfig 3)) (initial (plainConfig 3) 7 100) (bootEvents ++ es) = some ρ ∧
      Settled ρ payout ∧ Settled ρ restPayout := by
  have hboot := run_bootEvents (plainConfig 3) 7 100
  have hready : Ready { initial (plainConfig 3) 7 100 with
      up := true, relayer := { localNonce := 7, recovery := .done } } :=
    ⟨rfl, rfl, rfl, rfl, rfl, rfl, rfl, rfl, by decide +kernel⟩
  have hdtos : ∀ dto ∈ [payout, restPayout],
      Payable (plainConfig 3) (initial (plainConfig 3) 7 100).db dto := by
    intro dto hdto
    rcases List.mem_pair.mp hdto with rfl | rfl
    · exact ⟨by decide, rfl, by decide +kernel⟩
    · exact ⟨by decide, rfl, by decide +kernel⟩
  obtain ⟨es, ρ, hrun, -, hall, -⟩ := batch_settles (by decide) (.of_run hboot) hready hdtos
    (by decide) (by decide +kernel)
  refine ⟨es, ρ, ?_, hall payout List.mem_cons_self, hall restPayout (by simp)⟩
  rw [run_append, hboot, Option.bind_some, hrun]

end Rail
