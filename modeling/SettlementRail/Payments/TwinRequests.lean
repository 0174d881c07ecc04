import SettlementRail.Payments.TwinCalls

/-! Twins side by side: as long as none of them reads a balance that its own row has used up, all
of them come out as one submission. -/

namespace Rail
open Foundation

variable {cfg : Config} {σ₀ σ σ' : State} {ev : Event} {es : List Event} {op : DbOp}
variable {dto : CreateSettlementDto} {now base opening : ℕ} {id : SettlementId}
variable {call : CreateCall} {e : CreateEvent} {out : CreateOut} {instructionId : String}

def State.twins (σ : State) (instructionId : String) (p : CreatePc → Bool) : ℕ :=
  σ.creates.countP fun call => decide (call.dto.instructionId = instructionId) && p call.pc

structure TwinsInv (cfg : Config) (dto : CreateSettlementDto) (opening : ℕ) (σ₀ : State)
    (es : List Event) (σ : State) : Prop where
  same : ∀ call ∈ σ.creates, call.dto.instructionId = dto.instructionId → call.dto = dto
  room : σ.db.idOf dto.instructionId = none →
    σ.db.sumByStatuses inFlightStatuses ≤ σ₀.db.sumByStatuses inFlightStatuses
  calls : ∀ call ∈ σ.creates, call.dto.instructionId = dto.instructionId →
    TwinOk cfg dto opening σ.db call.pc
  won : σ.twins dto.instructionId CreatePc.won =
    if (σ.db.idOf dto.instructionId).isSome then 1 else 0
  unasked : ∀ id, σ.db.findById id = none → asks cfg id σ₀ es = 0
  asked : ∀ id, σ.db.idOf dto.instructionId = some id → asks cfg id σ₀ es =
    if (cfg.compliance dto.toAddress).approved then σ.twins dto.instructionId CreatePc.created
    else 0

theorem asks_snoc (h : run (step cfg) σ₀ es = some σ) : asks cfg id σ₀ (es ++ [ev]) =
    asks cfg id σ₀ es + if σ.asked cfg ev = some id then 1 else 0 := by
  induction es generalizing σ₀ with
  | nil =>
    obtain rfl := Option.some.inj h
    rw [List.nil_append, asks, asks, Nat.zero_add]
    rcases step cfg σ₀ ev with _ | σ' <;> rfl
  | cons e es ih =>
    obtain ⟨σ₁, h₁, hrest⟩ := Option.bind_eq_some_iff.mp h
    rw [List.cons_append, asks, asks, h₁, Option.elim_some, Option.elim_some, ih hrest,
      Nat.add_assoc]

theorem twins_set {i : ℕ} (instructionId : String) (p : CreatePc → Bool)
    (hcall : σ.creates[i]? = some call)
    (hσ' : σ'.creates = σ.creates.set i { call with pc := out.pc }) :
    σ'.twins instructionId p +
      (if call.dto.instructionId = instructionId ∧ p call.pc = true then 1 else 0) =
    σ.twins instructionId p +
      if call.dto.instructionId = instructionId ∧ p out.pc = true then 1 else 0 := by
  have hcount := countP_set_add (p := fun c : CreateCall =>
    decide (c.dto.instructionId = instructionId) && p c.pc) (b := { call with pc := out.pc }) hcall
  rw [State.twins, State.twins, hσ']
  simpa only [Bool.and_eq_true, decide_eq_true_eq] using hcount

theorem State.twins_created_le (σ : State) (instructionId : String) :
    σ.twins instructionId CreatePc.created ≤ σ.twins instructionId CreatePc.won := by
  refine List.countP_mono_left fun call _ h => ?_
  rw [Bool.and_eq_true] at h ⊢
  refine ⟨h.1, ?_⟩
  revert h
  rcases call.pc with _ | _ | _ | _ | _ | _ | _ | ⟨_, _ | _⟩ | _ <;>
    simp [CreatePc.created, CreatePc.won]

theorem read_fits {i : ℕ} (hI : TwinsInv cfg dto opening σ₀ es σ)
    (hsums₀ : LedgerSums opening σ₀.db) (hsums : LedgerSums opening σ.db)
    (hroom : (dto.amount : ℤ) ≤ σ₀.db.availableBalance) (hcall : σ.creates[i]? = some call)
    (htwin : call.dto.instructionId = dto.instructionId)
    (hfit : ReadsFit dto σ₀ σ (.create i e)) (he : e = .readInFlight) :
    (dto.amount : ℤ) ≤ σ.db.availableBalance := by
  subst he
  by_cases hmoved : (σ.db.idOf dto.instructionId).isSome = true ∨
      σ.db.operatorSum .debit ≠ σ₀.db.operatorSum .debit
  · exact hfit call hcall htwin hmoved
  · obtain ⟨hnone, hdebits⟩ := not_or.mp hmoved
    have hsum := hI.room (Option.not_isSome_iff_eq_none.mp hnone)
    have hbalance : σ.db.getOperatorBalance = σ₀.db.getOperatorBalance := by
      rw [hsums.getOperatorBalance, hsums₀.getOperatorBalance, not_not.mp hdebits]
    rw [Db.availableBalance, hbalance]
    refine hroom.trans (roundSig_mono (by decide) ?_)
    exact Int.sub_le_sub_left (Int.ofNat_le.mpr hsum) _

theorem Writes.debits_mono (hw : Writes σ ev op) (hc : Custody σ) (hp : σ.db.Paired)
    (hsums : LedgerSums opening σ.db) (hsums' : LedgerSums opening (op.apply σ.now σ.db)) :
    σ.db.operatorSum .debit ≤ (op.apply σ.now σ.db).operatorSum .debit := by
  rw [hsums'.debits, hsums.debits]
  exact hw.debited_mono hc hp

theorem Writes.debits_eq (hw : Writes σ ev op) (hc : Custody σ) (hp : σ.db.Paired)
    (hsums : LedgerSums opening σ.db) (hsums' : LedgerSums opening (op.apply σ.now σ.db))
    (hbooks : ∀ id ∈ op.books, σ.db.Debited id) :
    (op.apply σ.now σ.db).operatorSum .debit = σ.db.operatorSum .debit := by
  rw [hsums'.debits, hsums.debits, hw.amountWhere_debited hc hp]
  cases op with
  | book id amount => exact congrArg _ (if_pos (hbooks id rfl).2)
  | _ => rfl

theorem Writes.inFlight_le (hw : Writes σ ev op) (hev : ∀ i e, ev ≠ .create i e)
    (hback : ∀ s ∈ σ.db.settlements.rows, s.status ∉ inFlightStatuses →
      ((σ.awaitedWrite ev).onRow σ.now s).status ∉ inFlightStatuses) :
    (op.apply σ.now σ.db).sumByStatuses inFlightStatuses ≤
      σ.db.sumByStatuses inFlightStatuses := by
  have hnew : op.created σ.db = [] :=
    hw.created_cases.resolve_right fun ⟨_, _, _, _, hcreate, _⟩ => hev _ _ hcreate
  rw [Db.sumByStatuses, Db.sumByStatuses, sumBy_apply, hnew, List.map_nil, List.sum_nil,
    Nat.add_zero]
  refine Table.sumBy_le fun s hs => ?_
  rw [onRow_amount]
  rcases hw.eq_awaitedWrite with rfl | rfl | ⟨i, e, rfl⟩
  · exact le_rfl
  · by_cases hs' : s.status ∈ inFlightStatuses
    · rw [if_pos hs']
      split_ifs
      · exact le_rfl
      · exact Nat.zero_le _
    · rw [if_neg hs', if_neg (hback s hs hs')]
  · exact absurd rfl (hev i e)

theorem TwinsInv.around (hI : TwinsInv cfg dto opening σ₀ es σ) (hc : Custody σ)
    (hp : σ.db.Paired) (hsums : LedgerSums opening σ.db) (hsums' : LedgerSums opening σ'.db)
    (hrun : run (step cfg) σ₀ es = some σ) (hev : ∀ i e, ev ≠ .create i e)
    (hapart : BooksApart dto σ ev) (hback : NoneBack dto σ ev) (h : step cfg σ ev = some σ')
    (hcreates : σ'.creates = σ.creates) : TwinsInv cfg dto opening σ₀ (es ++ [ev]) σ' := by
  obtain ⟨op, hw, hdb⟩ := step_db h
  rw [hdb] at hsums'
  have hasks : ∀ id, asks cfg id σ₀ (es ++ [ev]) = asks cfg id σ₀ es := by
    intro id
    have hasked : σ.asked cfg ev = none := by
      cases ev with
      | create i e => exact absurd rfl (hev i e)
      | _ => rfl
    rw [asks_snoc hrun, hasked]
    rfl
  have hid : σ'.db.idOf dto.instructionId = σ.db.idOf dto.instructionId := by
    have hnew : op.created σ.db = [] :=
      hw.created_cases.resolve_right fun ⟨_, _, _, _, hcreate, _⟩ => hev _ _ hcreate
    rw [hdb, idOf_uncreated hnew]
  refine ⟨by rw [hcreates]; exact hI.same, fun hnone => ?_, fun call hcall htwin => ?_, ?_,
    fun id hnone => ?_, fun id hsome => ?_⟩
  · rw [hid] at hnone
    rw [hdb]
    exact (hw.inFlight_le hev (hback hnone)).trans (hI.room hnone)
  · rw [hcreates] at hcall
    rw [hdb]
    refine (hI.calls call hcall htwin).apply (hw.debits_mono hc hp hsums hsums')
      fun hbetween => hw.debits_eq hc hp hsums hsums' fun id hid => ?_
    rcases hw.eq_awaitedWrite with rfl | rfl | ⟨i, e, rfl⟩
    · cases hid
    · exact hapart ⟨call, hcall, htwin, hbetween⟩ id hid
    · exact absurd rfl (hev i e)
  · rw [State.twins, hcreates, hid]
    exact hI.won
  · rw [hasks]
    refine hI.unasked id ?_
    rcases hs : σ.db.findById id with _ | s
    · rfl
    · rw [hdb, findById_apply hs] at hnone
      cases hnone
  · rw [hasks, State.twins, hcreates]
    exact hI.asked id (hid ▸ hsome)

theorem TwinsInv.submit {other : CreateSettlementDto} (hI : TwinsInv cfg dto opening σ₀ es σ)
    (hrun : run (step cfg) σ₀ es = some σ)
    (hother : other.instructionId = dto.instructionId → other = dto) :
    TwinsInv cfg dto opening σ₀ (es ++ [.submit other])
      { σ with creates := σ.creates ++ [{ dto := other }] } := by
  have hasks : ∀ id, asks cfg id σ₀ (es ++ [.submit other]) = asks cfg id σ₀ es := by
    intro id
    rw [asks_snoc hrun]
    rfl
  have htwins : ∀ p : CreatePc → Bool, p .find = false →
      ({ σ with creates := σ.creates ++ [{ dto := other }] } : State).twins dto.instructionId p =
        σ.twins dto.instructionId p := by
    intro p hp
    rw [State.twins, State.twins, List.countP_append, List.countP_singleton, hp, Bool.and_false]
    rfl
  refine ⟨fun call hcall htwin => ?_, hI.room, fun call hcall htwin => ?_, ?_,
    fun id hid => ?_, fun id hid => ?_⟩
  · rcases List.mem_append.mp hcall with hcall | hcall
    · exact hI.same call hcall htwin
    · rw [List.mem_singleton.mp hcall] at htwin ⊢
      exact hother htwin
  · rcases List.mem_append.mp hcall with hcall | hcall
    · exact hI.calls call hcall htwin
    · rw [List.mem_singleton.mp hcall]
      trivial
  · rw [htwins _ rfl]
    exact hI.won
  · rw [hasks]
    exact hI.unasked id hid
  · rw [hasks, htwins _ rfl]
    exact hI.asked id hid

theorem room_create {i : ℕ} (hc : Custody σ) (hI : TwinsInv cfg dto opening σ₀ es σ)
    (hw : Writes σ (.create i e) op)
    (hnew : (op.apply σ.now σ.db).idOf dto.instructionId = none → op.created σ.db = [])
    (hnone : (op.apply σ.now σ.db).idOf dto.instructionId = none) :
    (op.apply σ.now σ.db).sumByStatuses inFlightStatuses ≤
      σ₀.db.sumByStatuses inFlightStatuses := by
  have hbefore : σ.db.idOf dto.instructionId = none := by
    rw [idOf_apply, Option.or_eq_none_iff] at hnone
    exact hnone.1
  exact (inFlight_create hc hw (hnew hnone)).trans (hI.room hbefore)

theorem asked_create {i : ℕ} (hcall : σ.creates[i]? = some call)
    (hout : createStep cfg.compliance σ.db σ.now call e = some out) :
    σ.asked cfg (.create i e) = out.enqueue := by
  simp only [State.asked, hcall, hout, Option.bind_some]

theorem unasked_create {i : ℕ} (howner : ∀ c ∈ σ.creates, ∀ k, c.pc.held = some k →
      σ.db.idOf c.dto.instructionId = some k) (hI : TwinsInv cfg dto opening σ₀ es σ)
    (hrun : run (step cfg) σ₀ es = some σ) (hcall : σ.creates[i]? = some call)
    (hout : createStep cfg.compliance σ.db σ.now call e = some out)
    (hnone : (op.apply now σ.db).findById id = none) :
    asks cfg id σ₀ (es ++ [.create i e]) = 0 := by
  have hbefore : σ.db.findById id = none := by
    rcases hs : σ.db.findById id with _ | s
    · rfl
    · rw [findById_apply hs] at hnone
      cases hnone
  rw [asks_snoc hrun, hI.unasked id hbefore, asked_create hcall hout, if_neg]
  intro henq
  obtain ⟨s, hs, -⟩ := findById_of_idOf (asked_owner howner hcall hout henq)
  rw [hbefore] at hs
  cases hs

theorem debits_create {i : ℕ} (hw : Writes σ (.create i e) op) :
    (op.apply σ.now σ.db).operatorSum .debit = σ.db.operatorSum .debit := by
  rw [Db.operatorSum, Db.operatorSum, ledger_create hw]

theorem TwinsInv.other {i : ℕ} (hI : TwinsInv cfg dto opening σ₀ es σ) (hc : Custody σ)
    (howner : ∀ c ∈ σ.creates, ∀ k, c.pc.held = some k →
      σ.db.idOf c.dto.instructionId = some k)
    (hrun : run (step cfg) σ₀ es = some σ) (hcall : σ.creates[i]? = some call)
    (hother : call.dto.instructionId ≠ dto.instructionId)
    (hinserts : (σ.db.idOf dto.instructionId).isSome = true ∨ σ.inserting (.create i e) = none)
    (hout : createStep cfg.compliance σ.db σ.now call e = some out) :
    TwinsInv cfg dto opening σ₀ (es ++ [.create i e]) (σ.afterCreate i call out) := by
  have hw := writes_create hcall hout
  have hid := idOf_other dto.instructionId hcall hother hw
  have htwins : ∀ p : CreatePc → Bool, (σ.afterCreate i call out).twins dto.instructionId p =
      σ.twins dto.instructionId p := by
    intro p
    have hset := twins_set dto.instructionId p hcall (rfl : (σ.afterCreate i call out).creates = _)
    rwa [if_neg fun h => hother h.1, if_neg fun h => hother h.1] at hset
  have hold : ∀ c ∈ (σ.afterCreate i call out).creates, c.dto.instructionId = dto.instructionId →
      c ∈ σ.creates := by
    intro c hmem htwin
    rcases List.mem_or_eq_of_mem_set hmem with hmem | rfl
    · exact hmem
    · exact absurd htwin hother
  refine ⟨fun c hmem htwin => hI.same c (hold c hmem htwin) htwin,
    room_create hc hI hw fun hnone => ?_,
    fun c hmem htwin => (hI.calls c (hold c hmem htwin) htwin).apply (debits_create hw).ge
      fun _ => debits_create hw, ?_,
    fun k hk => unasked_create howner hI hrun hcall hout hk, fun k hk => ?_⟩
  · rcases hinserts with hrow | hins
    · rw [hid] at hnone
      rw [hnone] at hrow
      cases hrow
    · rcases hw.created_cases with hnil | ⟨_, _, _, _, -, -, -, -, hsome⟩
      · exact hnil
      · rw [hins] at hsome
        cases hsome
  · rw [htwins]
    show _ = if ((out.db.apply σ.now σ.db).idOf dto.instructionId).isSome then 1 else 0
    rw [hid]
    exact hI.won
  · change (out.db.apply σ.now σ.db).idOf dto.instructionId = some k at hk
    rw [hid] at hk
    have hnot : out.enqueue ≠ some k := by
      intro henq
      obtain ⟨s, hs, hinstr⟩ := findById_of_idOf (asked_owner howner hcall hout henq)
      obtain ⟨s', hs', hinstr'⟩ := findById_of_idOf hk
      obtain rfl := Option.some.inj (hs.symm.trans hs')
      exact hother (hinstr.symm.trans hinstr')
    rw [htwins, asks_snoc hrun, hI.asked k hk, asked_create hcall hout, if_neg hnot, Nat.add_zero]

theorem idOf_inserted {db db' : Db} (hnew : db.create (dto.row id now) = some db') :
    db.idOf dto.instructionId = none ∧
      ((DbOp.create (dto.row id now)).apply now db).idOf dto.instructionId = some id := by
  rw [DbOp.apply, hnew, Option.getD_some]
  exact idOf_of_create hnew

theorem TwinsInv.won_twin {won : ℕ} (hI : TwinsInv cfg dto opening σ₀ es σ)
    (hmoves : TwinMoves cfg dto σ.db σ.now call out)
    (hcount : won + (if call.pc.won = true then 1 else 0) =
      σ.twins dto.instructionId CreatePc.won + if out.pc.won = true then 1 else 0) :
    won = if ((out.db.apply σ.now σ.db).idOf dto.instructionId).isSome then 1 else 0 := by
  cases hmoves with
  | stay hwon _ _ hnil =>
    rw [hwon] at hcount
    rw [idOf_uncreated hnil, ← hI.won]
    exact Nat.add_right_cancel hcount
  | finish hwon _ _ hpc' _ hnil =>
    rw [hpc', hwon] at hcount
    rw [idOf_uncreated hnil, ← hI.won]
    exact Nat.add_right_cancel hcount
  | insert hpc hnew hpc' hop =>
    obtain ⟨hbefore, hafter⟩ := idOf_inserted hnew
    rw [hpc, hpc', hI.won, hbefore] at hcount
    rw [hop, hafter]
    exact hcount

theorem TwinsInv.asked_twin {created : ℕ} (hI : TwinsInv cfg dto opening σ₀ es σ)
    (hmoves : TwinMoves cfg dto σ.db σ.now call out)
    (hcount : created + (if call.pc.created = true then 1 else 0) =
      σ.twins dto.instructionId CreatePc.created + if out.pc.created = true then 1 else 0)
    (hid : (out.db.apply σ.now σ.db).idOf dto.instructionId = some id) :
    (asks cfg id σ₀ es + if out.enqueue = some id then 1 else 0) =
      if (cfg.compliance dto.toAddress).approved then created else 0 := by
  cases hmoves with
  | stay hcreated hsame henq hnil =>
    rw [idOf_uncreated hnil] at hid
    rw [hsame] at hcount
    rw [henq, if_neg (fun heq => by cases heq), Nat.add_zero, hI.asked id hid,
      Nat.add_right_cancel hcount]
  | @finish k _ hnotcreated hk hpc' henq hnil =>
    rw [idOf_uncreated hnil] at hid
    obtain rfl := Option.some.inj (hk.symm.trans hid)
    rw [hnotcreated, hpc'] at hcount
    rw [henq, hI.asked k hid]
    by_cases happroved : (cfg.compliance dto.toAddress).approved = true
    · rw [if_pos happroved, if_pos happroved, if_pos rfl, if_pos happroved]
      exact hcount.symm
    · rw [if_neg happroved, if_neg happroved, if_neg (fun heq => by cases heq), if_neg happroved]
  | @insert k db' hpc hnew hpc' hop henq =>
    obtain ⟨hbefore, hafter⟩ := idOf_inserted hnew
    rw [hop] at hid
    obtain rfl := Option.some.inj (hafter.symm.trans hid)
    -- nobody has won before the row is there, so nobody has been told that it is created
    have hle := σ.twins_created_le dto.instructionId
    rw [hI.won, hbefore] at hle
    rw [hpc, hpc', Nat.le_zero.mp hle] at hcount
    have hzero : created = 0 := hcount
    rw [hI.unasked k (Db.findById_none_of_create hnew), henq, if_neg (fun heq => by cases heq),
      hzero, ite_self]

theorem TwinsInv.twin {i : ℕ} (hI : TwinsInv cfg dto opening σ₀ es σ) (hc : Custody σ)
    (howner : ∀ c ∈ σ.creates, ∀ k, c.pc.held = some k →
      σ.db.idOf c.dto.instructionId = some k)
    (hsums₀ : LedgerSums opening σ₀.db) (hsums : LedgerSums opening σ.db)
    (hroom : (dto.amount : ℤ) ≤ σ₀.db.availableBalance)
    (hrun : run (step cfg) σ₀ es = some σ) (hcall : σ.creates[i]? = some call)
    (htwin : call.dto.instructionId = dto.instructionId) (hclean : e.clean = true)
    (hfit : ReadsFit dto σ₀ σ (.create i e))
    (hout : createStep cfg.compliance σ.db σ.now call e = some out) :
    TwinsInv cfg dto opening σ₀ (es ++ [.create i e]) (σ.afterCreate i call out) := by
  have hmem := List.mem_of_getElem? hcall
  have hw := writes_create hcall hout
  have hdto := hI.same call hmem htwin
  obtain ⟨hok, hmoves⟩ := twin_step hdto (hI.calls call hmem htwin) hclean hsums
    (read_fits hI hsums₀ hsums hroom hcall htwin hfit) hout
  have hset : ∀ p : CreatePc → Bool, (σ.afterCreate i call out).twins dto.instructionId p +
      (if p call.pc = true then 1 else 0) =
        σ.twins dto.instructionId p + if p out.pc = true then 1 else 0 := by
    intro p
    have hset := twins_set dto.instructionId p hcall (rfl : (σ.afterCreate i call out).creates = _)
    simpa only [htwin, true_and] using hset
  refine ⟨fun c hc' htwin' => ?_, room_create hc hI hw fun hnone => ?_,
    fun c hc' htwin' => ?_, hI.won_twin hmoves (hset _),
    fun k hk => unasked_create howner hI hrun hcall hout hk, fun k hk => ?_⟩
  · rcases List.mem_or_eq_of_mem_set hc' with hold | rfl
    · exact hI.same c hold htwin'
    · exact hdto
  · cases hmoves with
    | stay _ _ _ hnil => exact hnil
    | finish _ _ _ _ _ hnil => exact hnil
    | insert _ hnew _ hop =>
      rw [hop, (idOf_inserted hnew).2] at hnone
      cases hnone
  · rcases List.mem_or_eq_of_mem_set hc' with hold | rfl
    · exact (hI.calls c hold htwin').apply (debits_create hw).ge fun _ => debits_create hw
    · exact hok
  · rw [asks_snoc hrun, asked_create hcall hout]
    exact hI.asked_twin hmoves (hset _) hk

theorem twinsInv_step (hreach : RailReach cfg (fun _ _ => True) base opening σ)
    (hsums₀ : LedgerSums opening σ₀.db) (hroom : (dto.amount : ℤ) ≤ σ₀.db.availableBalance)
    (hrun : run (step cfg) σ₀ es = some σ) (hI : TwinsInv cfg dto opening σ₀ es σ)
    (hone : OneSubmission dto σ ev) (hreads : RoomAtReads dto σ₀ σ ev)
    (h : step cfg σ ev = some σ') : TwinsInv cfg dto opening σ₀ (es ++ [ev]) σ' := by
  have hc := custody_reach hreach
  have hsums := ledgerSums_reach hreach
  obtain ⟨hup, hfit, hapart, hback⟩ := hreads
  have around : (∀ i e, ev ≠ .create i e) → σ'.creates = σ.creates →
      TwinsInv cfg dto opening σ₀ (es ++ [ev]) σ' := fun hev hcreates =>
    hI.around hc (paired_reach hreach) hsums (ledgerSums_reach (hreach.tail trivial h)) hrun hev
      hapart hback h hcreates
  cases stepsTo h with
  | submit => exact hI.submit hrun hone
  | @create i e call out hcall hout =>
    have howner := owner_reach hreach
    have hcond := hone call hcall
    split_ifs at hcond with htwin
    · exact hI.twin hc howner hsums₀ hsums hroom hrun hcall htwin hcond hfit hout
    · exact hI.other hc howner hrun hcall htwin hcond hout
  | crash => exact absurd rfl hup
  | _ => exact around (fun _ _ heq => by cases heq) rfl

theorem twinsInv_run
    (hreach : RailReach cfg (fun _ _ => True) base opening σ₀)
    (hnew : σ₀.db.idOf dto.instructionId = none)
    (hfirst : ∀ call ∈ σ₀.creates, call.dto.instructionId ≠ dto.instructionId)
    (hroom : (dto.amount : ℤ) ≤ σ₀.db.availableBalance)
    (h : RunUnder (step cfg) (fun σ ev => OneSubmission dto σ ev ∧ RoomAtReads dto σ₀ σ ev)
      σ₀ es σ) :
    TwinsInv cfg dto opening σ₀ es σ := by
  induction h with
  | nil =>
    refine ⟨fun call hcall htwin => absurd htwin (hfirst call hcall), fun _ => le_rfl,
      fun call hcall htwin => absurd htwin (hfirst call hcall), ?_, fun _ _ => rfl,
      fun id hid => ?_⟩
    · rw [hnew, State.twins, List.countP_eq_zero.mpr]
      · rfl
      · intro call hcall htwin
        rw [Bool.and_eq_true, decide_eq_true_eq] at htwin
        exact hfirst call hcall htwin.1
    · rw [hnew] at hid
      cases hid
  | snoc hr hcond hstep ih =>
    exact twinsInv_step (hreach.trans hr.reach.reach) (ledgerSums_reach hreach) hroom hr.run_eq ih
      hcond.1 hcond.2 hstep

/-- The calls with this `instructionId` come out as one submission. -/
structure Converges (cfg : Config) (dto : CreateSettlementDto) (σ₀ : State) (es : List Event)
    (σ : State) : Prop where
  throws_nothing : ∀ call ∈ σ.creates, call.dto.instructionId = dto.instructionId →
    ∀ err, call.pc ≠ .threw err
  goes_on : ∀ (i : ℕ) (call : CreateCall), σ.creates[i]? = some call →
    call.dto.instructionId = dto.instructionId → (∃ id created, call.pc = .returned id created) ∨
      ∃ e σ', e.clean = true ∧ step cfg σ (.create i e) = some σ' ∧
        ∃ call', σ'.creates[i]? = some call' ∧ call'.pc.left < call.pc.left
  one_id : ∀ call ∈ σ.creates, ∀ call' ∈ σ.creates,
    call.dto.instructionId = dto.instructionId → call'.dto.instructionId = dto.instructionId →
      ∀ id id' created created', call.pc = .returned id created →
        call'.pc = .returned id' created' → id = id'
  one_row : (σ.db.settlements.rows.filter fun s =>
    s.instructionId = dto.instructionId).length ≤ 1
  one_creator : σ.twins dto.instructionId CreatePc.created ≤ 1
  one_ask : ∀ id, σ.db.idOf dto.instructionId = some id → asks cfg id σ₀ es ≤ 1
  ends : (∃ call ∈ σ.creates, call.dto.instructionId = dto.instructionId) →
    (∀ call ∈ σ.creates, call.dto.instructionId = dto.instructionId →
      ∃ id created, call.pc = .returned id created) →
    (σ.db.settlements.rows.filter fun s => s.instructionId = dto.instructionId).length = 1 ∧
      σ.twins dto.instructionId CreatePc.created = 1 ∧
      ∃ id, σ.db.idOf dto.instructionId = some id ∧ asks cfg id σ₀ es =
        if (cfg.compliance dto.toAddress).approved then 1 else 0

theorem TwinsInv.created_le (hI : TwinsInv cfg dto opening σ₀ es σ) :
    σ.twins dto.instructionId CreatePc.created ≤ 1 := by
  have hle := (σ.twins_created_le dto.instructionId).trans_eq hI.won
  split_ifs at hle
  · exact hle
  · exact hle.trans zero_le_one

theorem TwinsInv.created_of_returned (hI : TwinsInv cfg dto opening σ₀ es σ)
    (hall : ∀ call ∈ σ.creates, call.dto.instructionId = dto.instructionId →
      ∃ id created, call.pc = .returned id created) :
    σ.twins dto.instructionId CreatePc.created =
      if (σ.db.idOf dto.instructionId).isSome then 1 else 0 := by
  rw [← hI.won]
  refine List.countP_congr fun call hcall => ?_
  simp only [Bool.and_eq_true, decide_eq_true_eq]
  refine and_congr_right fun htwin => ?_
  obtain ⟨id, created, hpc⟩ := hall call hcall htwin
  rw [hpc]
  cases created <;> rfl

theorem TwinsInv.goes_on {i : ℕ} (hI : TwinsInv cfg dto opening σ₀ es σ)
    (hcall : σ.creates[i]? = some call) (htwin : call.dto.instructionId = dto.instructionId) :
    (∃ id created, call.pc = .returned id created) ∨
      ∃ e σ', e.clean = true ∧ step cfg σ (.create i e) = some σ' ∧
        ∃ call', σ'.creates[i]? = some call' ∧ call'.pc.left < call.pc.left := by
  have hok := hI.calls call (List.mem_of_getElem? hcall) htwin
  refine (twin_enabled σ.now hok).imp_right fun ⟨e, hclean, henabled⟩ => ?_
  obtain ⟨out, hout⟩ := Option.isSome_iff_exists.mp henabled
  refine ⟨e, σ.afterCreate i call out, hclean, ?_, { call with pc := out.pc }, ?_,
    createStep_left hout⟩
  · rw [step, hcall, Option.bind_some, hout, Option.map_some]
  · exact List.getElem?_set_self (List.getElem?_eq_some_iff.mp hcall).1

theorem twins_converge (hreach : RailReach cfg (fun _ _ => True) base opening σ₀)
    (hnew : σ₀.db.idOf dto.instructionId = none)
    (hfirst : ∀ call ∈ σ₀.creates, call.dto.instructionId ≠ dto.instructionId)
    (hroom : (dto.amount : ℤ) ≤ σ₀.db.availableBalance)
    (h : RunUnder (step cfg) (fun σ ev => OneSubmission dto σ ev ∧ RoomAtReads dto σ₀ σ ev)
      σ₀ es σ) :
    Converges cfg dto σ₀ es σ := by
  have hI := twinsInv_run hreach hnew hfirst hroom h
  have hreturned : ∀ call ∈ σ.creates, call.dto.instructionId = dto.instructionId →
      ∀ id created, call.pc = .returned id created → σ.db.idOf dto.instructionId = some id := by
    intro call hcall htwin id created hpc
    have hok := hI.calls call hcall htwin
    rwa [hpc] at hok
  refine ⟨fun call hcall htwin err hpc => ?_, fun i call hcall htwin => hI.goes_on hcall htwin,
    fun call hcall call' hcall' htwin htwin' id id' created created' hpc hpc' => ?_, ?_,
    hI.created_le, fun id hid => ?_, fun ⟨call, hcall, htwin⟩ hall => ?_⟩
  · have hok := hI.calls call hcall htwin
    rw [hpc] at hok
    exact hok
  · have hid := hreturned call hcall htwin id created hpc
    exact Option.some.inj (hid.symm.trans (hreturned call' hcall' htwin' id' created' hpc'))
  · rw [rows_of_instruction]
    split_ifs
    · exact le_rfl
    · exact zero_le_one
  · rw [hI.asked id hid]
    split_ifs
    · exact hI.created_le
    · exact zero_le_one
  · obtain ⟨id, created, hpc⟩ := hall call hcall htwin
    have hid := hreturned call hcall htwin id created hpc
    have hone := hI.created_of_returned hall
    rw [hid] at hone
    refine ⟨?_, hone, id, hid, ?_⟩
    · rw [rows_of_instruction, hid]
      rfl
    · rw [hI.asked id hid, hone]
      rfl

def freshRail : State :=
  { initial (plainConfig 3) 7 100 with
    up := true
    relayer := { localNonce := 7, recovery := .done } }

def readEvents (i : ℕ) : List Event :=
  [.create i .readOpening, .create i .readCredits, .create i .readDebits, .create i .readInFlight]

/-- Both twins pass the balance check before the row is there; the job of the first one is sent
before the second one has returned. -/
def twinsChecked (dto : CreateSettlementDto) : List Event :=
  [.submit dto, .submit dto, .create 0 .found, .create 1 .found] ++ readEvents 0 ++ readEvents 1 ++
    [.create 0 (.inserted 1 .ok), .create 0 .screened, .create 0 (.written .ok)] ++ sendEvents ++
      [.create 1 (.inserted 2 .ok), .create 1 .found]

theorem twins_checked_converge : ∃ σ,
    σ.creates.map CreateCall.pc = [.returned 1 true, .returned 1 false] ∧
      Converges (plainConfig 3) (large "a") freshRail (twinsChecked (large "a")) σ := by
  obtain ⟨σ, hr, hends⟩ := exists_runUnder_of_checkedRun (step (plainConfig 3))
    (fun σ ev => OneSubmission (large "a") σ ev ∧ RoomAtReads (large "a") freshRail σ ev) freshRail
    (twinsChecked (large "a"))
    (fun σ => σ.creates.map CreateCall.pc = [.returned 1 true, .returned 1 false])
    (by decide +kernel)
  exact ⟨σ, of_decide_eq_true hends, twins_converge (.of_run (run_bootEvents (plainConfig 3) 7 100))
    (by decide +kernel) (by decide +kernel) (by decide +kernel) hr⟩

/-- The row is inserted between the pre-check of the second twin and its balance check. -/
def twinOvertaken : List Event :=
  [.submit (large "a"), .submit (large "a"), .create 0 .found, .create 1 .found] ++ readEvents 0 ++
    [.create 0 (.inserted 1 .ok)] ++ readEvents 1

theorem twin_turned_away : ¬∀ cfg base opening σ₀ dto es σ,
    RailReach cfg (fun _ _ => True) base opening σ₀ → σ₀.db.idOf dto.instructionId = none →
    (∀ call ∈ σ₀.creates, call.dto.instructionId ≠ dto.instructionId) →
    (dto.amount : ℤ) ≤ σ₀.db.availableBalance → RunUnder (step cfg) (OneSubmission dto) σ₀ es σ →
    Converges cfg dto σ₀ es σ := by
  intro hall
  obtain ⟨σ, hr, hthrew⟩ := exists_runUnder_of_checkedRun (step (plainConfig 3))
    (OneSubmission (large "a")) freshRail twinOvertaken
    (fun σ => σ.creates[1]? = some ⟨large "a", .threw (.insufficientBalance 60 40)⟩)
    (by decide +kernel)
  have hconverges := hall (plainConfig 3) 7 100 freshRail (large "a") twinOvertaken σ
    (.of_run (run_bootEvents (plainConfig 3) 7 100)) (by decide +kernel) (by decide +kernel)
    (by decide +kernel) hr
  exact hconverges.throws_nothing _ (List.mem_of_getElem? (of_decide_eq_true hthrew)) rfl _ rfl

end Rail
