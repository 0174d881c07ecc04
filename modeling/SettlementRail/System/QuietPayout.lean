import SettlementRail.Books.BalancedLedger
import SettlementRail.System.NodeMoves
import SettlementRail.System.QuietPoll
import SettlementRail.System.Scenario

/-! One payout that nothing disturbs, computed from the request to FINAL in any state in which
nothing is under way. -/

namespace Rail
open Foundation
open Ledger (Appends appends_create)

variable {cfg : Config} {σ : State} {dto : CreateSettlementDto} {db db' : Db} {s row : Settlement}
variable {es : List LedgerEntry} {id : SettlementId} {now : ℕ} {opts : TransitionOptions}
variable {toStatus : SettlementStatus} {amount : Amount}

theorem Appends.findById_new (h : Appends db db' [s] es) : db'.findById s.id = some s :=
  Db.findById_of_mem (by rw [h.rows]; exact List.mem_append_right _ List.mem_cons_self)

theorem Appends.transition (h : Appends db db' [s] es) (hfresh : db.findById s.id = none)
    (hallow : opts.allows s.status = true) :
    Appends db ((DbOp.transition s.id toStatus opts).apply now db')
      [s.withTransition toStatus opts now] es := by
  have hold : db.settlements.rows.map (DbOp.onRow now (.transition s.id toStatus opts)) =
      db.settlements.rows := by
    refine map_onRow_of_fixed fun t ht => onRow_transition_of_not fun hid => ?_
    have hrow := Db.findById_of_mem ht
    rw [hid.1, hfresh] at hrow
    cases hrow
  constructor
  · rw [rows_apply, h.rows, List.map_append, hold, List.map_singleton,
      onRow_transition_of rfl hallow]
    exact List.append_nil _
  · exact (congrArg Table.rows ledgerEntries_transition).trans h.entries

theorem Appends.book (h : Appends db db' [s] []) (hnot : ¬db.Booked s.id) :
    Appends db ((DbOp.book s.id amount).apply now db') [s] (bookingPair s.id amount) := by
  have hsame : db'.ledgerEntries.rows = db.ledgerEntries.rows := h.entries.trans (List.append_nil _)
  constructor
  · exact (congrArg Table.rows (settlements_book s.id amount)).trans h.rows
  · have hnot' : ¬db'.Booked s.id := by
      rwa [Db.Booked, Db.entriesOf, hsame]
    rw [DbOp.apply, Db.rows_book_of_not (Appends.findById_new h) hnot', hsame]

theorem Db.exists_create (hid : db.findById row.id = none)
    (hinstr : db.findByInstructionId row.instructionId = none) : ∃ db', db.create row = some db' := by
  have hnot : row.instructionId ∉ db.settlements.rows.map Settlement.instructionId := by
    intro hmem
    obtain ⟨t, ht, heq⟩ := List.mem_map.mp hmem
    have hnone := List.find?_eq_none.mp hinstr t ht
    simp [heq] at hnone
  obtain ⟨table, htable⟩ := Table.exists_insert? (t := db.settlements) hid
  rw [← Option.isSome_iff_exists, Db.create, dif_neg hnot]
  split
  · rename_i hnone
    rw [htable] at hnone
    cases hnone
  · rfl

def State.creating (σ : State) (dto : CreateSettlementDto) (db : Db) (pc : CreatePc) : State :=
  { σ with db, creates := σ.creates ++ [{ dto, pc }] }

theorem step_creating {pc : CreatePc} {e : CreateEvent} {out : CreateOut}
    (hout : createStep cfg.compliance db σ.now { dto, pc } e = some out)
    (henq : out.enqueue = none) :
    step cfg (σ.creating dto db pc) (.create σ.creates.length e) =
      some (σ.creating dto (out.db.apply σ.now db) out.pc) := by
  have hcall : (σ.creating dto db pc).creates[σ.creates.length]? = some { dto, pc } :=
    List.getElem?_concat_length
  simp only [step, hcall, Option.bind_some]
  rw [show createStep cfg.compliance (σ.creating dto db pc).db (σ.creating dto db pc).now
    { dto, pc } e = some out from hout, Option.map_some, State.afterCreate, henq]
  simp [State.creating, List.set_append_right]

def Db.available (db : Db) : ℤ :=
  decimalMinus db.getOperatorBalance (db.sumByStatuses inFlightStatuses)

theorem run_submit (hserving : σ.serving = true) (hpos : 0 < dto.amount)
    (hnew : σ.db.findByInstructionId dto.instructionId = none)
    (hid : σ.db.findById id = none) (hfunds : (dto.amount : ℤ) ≤ σ.db.available)
    (happroved : (cfg.compliance dto.toAddress).approved = true)
    (hcreate : σ.db.create (dto.row id σ.now) = some db') :
    run (step cfg) σ (submitEvents σ.creates.length id dto) = some
      { σ with
        db := (DbOp.transition id .complianceApproved {}).apply σ.now db'
        creates := σ.creates ++ [{ dto, pc := .returned id true }]
        relayer := σ.relayer.enqueueId id } := by
  let n := σ.creates.length
  let opened : BalanceReads := { opening := some σ.db.getOpeningBalance }
  let credited : BalanceReads := { opened with credits := some (σ.db.operatorSum .credit) }
  let debited : BalanceReads := { credited with debits := some (σ.db.operatorSum .debit) }
  have hrow : db'.findById id = some (dto.row id σ.now) :=
    (Db.findById_create hcreate).trans (if_pos rfl)
  have hsubmit : step cfg σ (.submit dto) = some (σ.creating dto σ.db .find) := by
    simp only [step, hserving, hpos, decide_true, Bool.and_self, if_true]
    rfl
  have hfound : createStep cfg.compliance σ.db σ.now { dto, pc := .find } .found =
      some { pc := .reading {} } := by
    simp only [createStep, hnew]
  have hopened : createStep cfg.compliance σ.db σ.now { dto, pc := .reading {} } .readOpening =
      some { pc := .reading opened } := rfl
  have hcredited : createStep cfg.compliance σ.db σ.now { dto, pc := .reading opened }
      .readCredits = some { pc := .reading credited } := rfl
  have hdebited : createStep cfg.compliance σ.db σ.now { dto, pc := .reading credited }
      .readDebits = some { pc := .reading debited } := rfl
  have hlast : createStep cfg.compliance σ.db σ.now { dto, pc := .reading debited } .readInFlight =
      some { pc := .insert } := by
    have henough : ¬(dto.amount : ℤ) > σ.db.available := not_lt.mpr hfunds
    exact congrArg some (if_neg henough)
  have hinsert : createStep cfg.compliance σ.db σ.now { dto, pc := .insert } (.inserted id .ok) =
      some { pc := .check id, db := .create (dto.row id σ.now) } := by
    simp [createStep, hid, hcreate]
  have hscreen : createStep cfg.compliance db' σ.now { dto, pc := .check id } .screened =
      some { pc := .approve id } := by
    simp [createStep, screen, happroved]
  have hdone : createStep cfg.compliance db' σ.now { dto, pc := .approve id } (.written .ok) =
      some { pc := .returned id true, db := .transition id .complianceApproved {}
             enqueue := some id } := by
    simp [createStep, Db.canCommit, hrow, createEnd, enqueueAfter, DbOutcome.commits]
  have h₁ : step cfg (σ.creating dto σ.db .find) (.create n .found) =
      some (σ.creating dto σ.db (.reading {})) := step_creating hfound rfl
  have h₂ : step cfg (σ.creating dto σ.db (.reading {})) (.create n .readOpening) =
      some (σ.creating dto σ.db (.reading opened)) := step_creating hopened rfl
  have h₃ : step cfg (σ.creating dto σ.db (.reading opened)) (.create n .readCredits) =
      some (σ.creating dto σ.db (.reading credited)) := step_creating hcredited rfl
  have h₄ : step cfg (σ.creating dto σ.db (.reading credited)) (.create n .readDebits) =
      some (σ.creating dto σ.db (.reading debited)) := step_creating hdebited rfl
  have h₅ : step cfg (σ.creating dto σ.db (.reading debited)) (.create n .readInFlight) =
      some (σ.creating dto σ.db .insert) := step_creating hlast rfl
  have h₆ : step cfg (σ.creating dto σ.db .insert) (.create n (.inserted id .ok)) =
      some (σ.creating dto db' (.check id)) := by
    rw [step_creating hinsert rfl, DbOp.apply, hcreate, Option.getD_some]
  have h₇ : step cfg (σ.creating dto db' (.check id)) (.create n .screened) =
      some (σ.creating dto db' (.approve id)) := step_creating hscreen rfl
  have h₈ : step cfg (σ.creating dto db' (.approve id)) (.create n (.written .ok)) = some
      { σ with
        db := (DbOp.transition id .complianceApproved {}).apply σ.now db'
        creates := σ.creates ++ [{ dto, pc := .returned id true }]
        relayer := σ.relayer.enqueueId id } := by
    have hcall : (σ.creating dto db' (.approve id)).creates[n]? =
        some { dto, pc := .approve id } := List.getElem?_concat_length
    simp only [step, hcall, Option.bind_some]
    rw [show createStep cfg.compliance (σ.creating dto db' (.approve id)).db
      (σ.creating dto db' (.approve id)).now { dto, pc := .approve id } (.written .ok) = _ from
      hdone, Option.map_some]
    simp [State.afterCreate, State.creating, n]
  simp only [submitEvents, run, hsubmit, Option.bind_some, h₁, h₂, h₃, h₄, h₅, h₆, h₇, h₈, n]

def sentVars (s : Settlement) (nonce : ℕ) : JobVars :=
  { settlement := s, isResume := false, nonce, baseUnits := s.amount
    gasLimit := gasWithHeadroom none, fees := buildFees plainFees, retryCount := s.retryCount }

def State.jobAt (σ : State) (id : SettlementId) (pc : JobPc) : State :=
  { σ with relayer := { σ.relayer with worker := some (id, pc) } }

theorem step_jobAt {pc pc' : JobPc} {e : JobEvent}
    (hout : jobStep cfg.relayer σ.db σ.node σ.now σ.relayer.localNonce σ.relayer.inflight id pc e =
      some { pc := some pc', localNonce := σ.relayer.localNonce, inflight := σ.relayer.inflight }) :
    step cfg (σ.jobAt id pc) (.job e) = some (σ.jobAt id pc') := by
  simp only [step, State.jobAt, Option.bind_some, hout, Option.map_some]
  rfl

theorem run_send (hworker : σ.relayer.worker = some (id, .find)) (hqueue : σ.relayer.queue = [])
    (hs : σ.db.findById id = some s) (happroved : s.status = .complianceApproved)
    (hsmall : s.amount < 10 ^ 27)
    (haccepts : σ.node.accepts (sentVars s σ.relayer.localNonce).tx = true) :
    run (step cfg) σ sendEvents = some
      { σ with
        db := (DbOp.transition id .submitted
          (submittedOptions (sentVars s σ.relayer.localNonce))).apply σ.now σ.db
        node := σ.node.accept (.settlement id) (sentVars s σ.relayer.localNonce).tx
        relayer :=
          { σ.relayer with
            worker := none, localNonce := σ.relayer.localNonce + 1
            inflight := σ.relayer.inflight.set
              (jobInflight (sentVars s σ.relayer.localNonce) σ.now) } } := by
  let v := sentVars s σ.relayer.localNonce
  let started : JobVars := { v with gasLimit := 0, fees := ⟨0, 0⟩ }
  have hstart : startJob s σ.relayer.localNonce = some started := by
    rw [startJob, toBaseUnits, if_pos hsmall]
    simp [happroved, started, v, sentVars]
  have hbegin : σ = σ.jobAt id .find := by
    rw [State.jobAt, ← hworker]
  have hfound : step cfg (σ.jobAt id .find) (.job .found) = some (σ.jobAt id (.estimateGas started)) := by
    refine step_jobAt ?_
    simp [jobStep, hs, happroved, hstart]
  have hestimated : step cfg (σ.jobAt id (.estimateGas started)) (.job (.estimated none)) =
      some (σ.jobAt id (.buildFees { started with gasLimit := gasWithHeadroom none })) :=
    step_jobAt rfl
  have hfees : step cfg (σ.jobAt id (.buildFees { started with gasLimit := gasWithHeadroom none }))
      (.job (.feeData plainFees)) = some (σ.jobAt id (.broadcast v)) := step_jobAt rfl
  let sent : State :=
    { σ with
      node := σ.node.accept (.settlement id) v.tx
      relayer :=
        { σ.relayer with
          worker := some (id, .writeSubmitted v), localNonce := σ.relayer.localNonce + 1
          inflight := σ.relayer.inflight.set (jobInflight v σ.now) } }
  have hsent : step cfg (σ.jobAt id (.broadcast v)) (.job (.sent (.accepted none))) = some sent := by
    have hconsumed : consumeNonce v σ.relayer.localNonce = σ.relayer.localNonce + 1 := by
      simp [consumeNonce, v, sentVars]
    simp only [step, State.jobAt, Option.bind_some, jobStep, v, haccepts, Bool.not_true,
      Bool.false_eq_true, if_false, Option.map_some, State.afterJob, Option.isSome_some, if_true]
    rw [hconsumed]
    rfl
  have hwritten : step cfg sent (.job (.written .ok)) = some
      { sent with
        db := (DbOp.transition id .submitted (submittedOptions v)).apply σ.now σ.db
        relayer := { sent.relayer with worker := none } } := by
    have hcan : σ.db.canCommit id (.ok : DbOutcome TxError) = true := by
      simp [Db.canCommit, hs]
    simp only [step, sent, Option.bind_some, jobStep, hcan, Bool.not_true, Bool.false_eq_true,
      if_false, Option.map_some, State.afterJob, Option.isSome_none]
    simp [Relayer.runWorker, hqueue, NodeOp.apply]
  rw [sendEvents, prepareEvents, hbegin]
  simp only [List.cons_append, List.nil_append, run, hfound, hestimated, hfees, hsent, hwritten,
    Option.bind_some]
  rfl

variable {node : Node} {tx : Tx} {n : ℕ}

def minedEntry (tx : Tx) : Entry := ⟨tx, true, 21000, 1⟩

theorem chainEntries_mined : chainEntries Block.entries (mined [tx] n) = [minedEntry tx] := by
  have hempty : (List.range n).flatMap (fun i => ({ hash := i + 1, entries := [] } : Block).entries)
      = [] := List.flatMap_eq_nil_iff.mpr fun _ _ => rfl
  rw [mined, chainEntries, List.flatMap_cons, List.flatMap_map, hempty, List.append_nil]
  rfl

theorem newHead_all (chain new : List Block) : newHead 0 new chain = chain ++ new := by
  rw [newHead, Nat.sub_zero, List.take_length]

theorem Node.entries_mined : (node.withHead 0 (mined [tx] n)).entries =
    node.entries ++ [minedEntry tx] := by
  rw [entries, withHead]
  simp only [newHead_all, chainEntries_append, chainEntries_mined]
  rfl

theorem Node.minedCount_mined : (node.withHead 0 (mined [tx] n)).minedCount =
    node.minedCount + 1 := by
  rw [minedCount, entries_mined, List.length_append]
  rfl

theorem Node.mempool_mined (hpool : node.mempool = [tx]) (hnonce : tx.nonce = node.minedCount) :
    (node.withHead 0 (mined [tx] n)).mempool = [] := by
  have hdropped : node.chain.drop (node.chain.length - 0) = [] := by
    rw [Nat.sub_zero, List.drop_length]
  have hmined := @minedCount_mined node tx n
  rw [minedCount, entries] at hmined
  simp only [withHead, hpool, hdropped, chainEntries_nil, List.map_nil, List.append_nil] at hmined ⊢
  rw [hmined]
  simp [hnonce]

theorem Node.headPossible_mined (hinv : NodeInv node) (hnonce : tx.nonce = node.minedCount)
    (hknown : node.Known tx) : node.headPossible 0 (mined [tx] n) = true := by
  have hsequential := hinv.sequential
  rw [headPossible, newHead_all, chainEntries_mined, Bool.and_eq_true]
  constructor
  · rw [decide_eq_true_eq, Foundation.Sequential, chainEntries_append, chainEntries_mined, List.map_append,
      List.length_append, hsequential, List.length_singleton, List.range'_concat]
    simp [minedEntry, Entry.nonce, hnonce, minedCount, entries]
  · obtain ⟨a, ha, rfl⟩ := hknown
    simpa [minedEntry] using ⟨a, ha, rfl⟩

theorem Node.receipt_mined (hinv : NodeInv (node.withHead 0 (mined [tx] n))) :
    ∃ r, (node.withHead 0 (mined [tx] n)).getTransactionReceipt tx = some r ∧ r.success = true ∧
      ((n + 1 : ℕ) : ℤ) ≤ confirmations (node.withHead 0 (mined [tx] n)).currentBlock r := by
  have hmem : minedEntry tx ∈ (node.withHead 0 (mined [tx] n)).entries := by
    rw [entries_mined]
    exact List.mem_append_right _ List.mem_cons_self
  obtain ⟨⟨i, b, e⟩, hq⟩ := exists_locate (p := fun e : Entry => e.tx = tx) hmem
    (by simp [minedEntry])
  obtain ⟨hblock, hentry, htx⟩ := locate_spec hq
  simp only [decide_eq_true_eq] at hblock hentry htx
  refine ⟨Node.receiptOf (i, b, e), by rw [getTransactionReceipt, hq, Option.map_some], ?_, ?_⟩
  · -- the nonce has one entry only
    have hin : e ∈ (node.withHead 0 (mined [tx] n)).entries :=
      mem_chainEntries.mpr ⟨b, List.mem_of_getElem? hblock, hentry⟩
    have hsame : e = minedEntry tx :=
      hinv.sequential.eq_of_number_eq hin hmem (congrArg Tx.nonce htx)
    rw [hsame]
    rfl
  · have hchain : (node.withHead 0 (mined [tx] n)).chain = node.chain ++ mined [tx] n :=
      newHead_all _ _
    have hlength : (mined [tx] n).length = n + 1 := by simp [mined]
    -- the blocks on top are empty
    have hi : i ≤ node.chain.length := by
      by_contra hlt
      rw [hchain, List.getElem?_append_right (by omega)] at hblock
      obtain ⟨k, hk⟩ : ∃ k, i - node.chain.length = k + 1 := ⟨i - node.chain.length - 1, by omega⟩
      rw [hk, mined, List.getElem?_cons_succ] at hblock
      obtain ⟨j, -, rfl⟩ := List.mem_map.mp (List.mem_of_getElem? hblock)
      cases hentry
    simp only [confirmations, receiptOf, currentBlock, hchain, List.length_append, hlength]
    push_cast
    omega

end Rail
