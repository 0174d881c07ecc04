import SettlementRail.System.AwaitedWrites
import SettlementRail.System.LedgerSums
import SettlementRail.System.Scenario

/-! The balance check of `create`. It reads the ledger and the in-flight sum in two queries and
inserts the row later; what the accepted instructions may draw is bounded as long as nothing
that matters happens in between. -/

namespace Rail
open Foundation

/-- What is in flight and not booked fits into the operator balance of the ledger. -/
def Db.Covered (db : Db) : Prop :=
  ((db.amountWhere fun s => s.status ∈ inFlightStatuses ∧ ¬db.Booked s.id : ℕ) : ℤ) ≤
    db.getOperatorBalance

instance (db : Db) : Decidable db.Covered := inferInstanceAs (Decidable (_ ≤ _))

def Db.committed (db : Db) : ℕ :=
  db.amountWhere fun s => db.Debited s.id ∨ s.status ∈ inFlightStatuses

def Db.debited (db : Db) : ℕ := db.amountWhere fun s => db.Debited s.id

def Db.settledOut (db : Db) : ℕ :=
  db.amountWhere fun s => db.Debited s.id ∧ s.status ∉ inFlightStatuses

/-- The call has read the in-flight sum and has not inserted its row yet. -/
def CreatePc.counted : CreatePc → Bool
  | .reading reads => reads.inFlight.isSome
  | .insert => true
  | _ => false

/-- The call has read the ledger's debits and not yet the in-flight sum. -/
def CreatePc.torn : CreatePc → Bool
  | .reading reads => reads.debits.isSome && reads.inFlight.isNone
  | _ => false

def State.inserting (σ : State) : Event → Option ℕ
  | .create i (.inserted id o) =>
    if o.committed && σ.creates[i]?.any fun call => (σ.db.create (call.dto.row id σ.now)).isSome then
      some i
    else none
  | _ => none

def DbOp.books : DbOp → Option SettlementId
  | .book id _ => some id
  | _ => Option.none

/-- No call inserts its row while another one stands between its in-flight sum and its insert. -/
def State.InsertsApart (σ : State) (ev : Event) : Prop :=
  ∀ c ∈ σ.creates.zipIdx, c.1.pc.counted = true →
    σ.inserting ev = none ∨ σ.inserting ev = some c.2

/-- No debited row leaves flight while a call stands between its two reads. -/
def State.ReadsWhole (σ : State) (ev : Event) : Prop :=
  (∃ c ∈ σ.creates, c.pc.torn = true) → ∀ s ∈ σ.db.settlements.rows, σ.db.Debited s.id →
    s.status ∈ inFlightStatuses → ((σ.awaitedWrite ev).onRow σ.now s).status ∈ inFlightStatuses

/-- No write of the relayer or the listener brings a row back that is neither debited nor in
flight. -/
def State.NoneRevived (σ : State) (ev : Event) : Prop :=
  ∀ s ∈ σ.db.settlements.rows, ¬σ.db.Debited s.id → s.status ∉ inFlightStatuses →
    ((σ.awaitedWrite ev).onRow σ.now s).status ∉ inFlightStatuses ∧
      (σ.awaitedWrite ev).books ≠ some s.id

def ChecksApart (σ : State) (ev : Event) : Prop :=
  σ.InsertsApart ev ∧ σ.ReadsWhole ev ∧ σ.NoneRevived ev

instance (σ : State) (ev : Event) : Decidable (σ.InsertsApart ev) :=
  inferInstanceAs (Decidable (∀ _ ∈ _, _ → _))

instance (σ : State) (ev : Event) : Decidable (σ.ReadsWhole ev) :=
  inferInstanceAs (Decidable (_ → ∀ _ ∈ _, _ → _))

instance (σ : State) (ev : Event) : Decidable (σ.NoneRevived ev) :=
  inferInstanceAs (Decidable (∀ _ ∈ _, _ → _))

instance (σ : State) (ev : Event) : Decidable (ChecksApart σ ev) :=
  inferInstanceAs (Decidable (_ ∧ _))

variable {cfg : Config} {σ σ' : State} {ev : Event} {op : DbOp} {s : Settlement} {opening : ℕ}
variable {db db' : Db} {call : CreateCall} {reads : BalanceReads}

theorem Db.amountWhere_le {p q : Settlement → Prop} [DecidablePred p] [DecidablePred q]
    (h : ∀ s, p s → q s) : db.amountWhere p ≤ db.amountWhere q := by
  refine Table.sumBy_le fun s _ => ?_
  by_cases hp : p s
  · rw [if_pos hp, if_pos (h s hp)]
  · rw [if_neg hp]
    exact Nat.zero_le _

theorem Db.amountWhere_le_add {p q r : Settlement → Prop} [DecidablePred p] [DecidablePred q]
    [DecidablePred r] (h : ∀ s, p s → q s ∨ r s) :
    db.amountWhere p ≤ db.amountWhere q + db.amountWhere r := by
  simp only [amountWhere, Table.sumBy_add]
  refine Table.sumBy_le fun s _ => ?_
  have := h s
  split_ifs <;> first | omega | tauto

theorem Db.amountWhere_add_le {p q r : Settlement → Prop} [DecidablePred p] [DecidablePred q]
    [DecidablePred r] (hp : ∀ s, p s → r s) (hq : ∀ s, q s → r s) (hpq : ∀ s, p s → ¬q s) :
    db.amountWhere p + db.amountWhere q ≤ db.amountWhere r := by
  simp only [amountWhere, Table.sumBy_add]
  refine Table.sumBy_le fun s _ => ?_
  have hp' := hp s
  have hq' := hq s
  have hpq' := hpq s
  split_ifs <;> first | omega | tauto

theorem Db.debited_le_committed : db.debited ≤ db.committed := amountWhere_le fun _ => .inl

theorem Db.settledOut_le_debited : db.settledOut ≤ db.debited := amountWhere_le fun _ h => h.1

theorem Db.inFlight_le_committed : db.sumByStatuses inFlightStatuses ≤ db.committed :=
  amountWhere_le (p := fun s => s.status ∈ inFlightStatuses) fun _ => .inr

theorem Db.committed_le_debited : db.committed ≤ db.debited + db.sumByStatuses inFlightStatuses :=
  amountWhere_le_add (r := fun s => s.status ∈ inFlightStatuses) fun _ h => h

theorem Db.committed_le_settledOut :
    db.committed ≤ db.settledOut + db.sumByStatuses inFlightStatuses := by
  refine amountWhere_le_add (r := fun s => s.status ∈ inFlightStatuses) fun s h => ?_
  by_cases hs : s.status ∈ inFlightStatuses
  · exact .inr hs
  · exact .inl ⟨h.resolve_right hs, hs⟩

structure ReadsSound (opening : ℕ) (db : Db) (reads : BalanceReads) : Prop where
  start : ∀ o, reads.opening = some o → o = opening
  credits : ∀ c, reads.credits = some c → c = 0
  debits : ∀ d, reads.debits = some d → d ≤ opening ∧ (reads.inFlight = none → db.settledOut ≤ d)
  inFlight : ∀ f, reads.inFlight = some f →
    f ≤ opening ∧ (reads.debits = none → db.committed ≤ db.debited + f)
  both : ∀ d f, reads.debits = some d → reads.inFlight = some f → db.committed ≤ d + f

/-- The reads bound what is committed; at the insert the instruction fits in. -/
def CreateCall.Sound (opening : ℕ) (db : Db) (call : CreateCall) : Prop :=
  match call.pc with
  | .reading reads => ReadsSound opening db reads
  | .insert => call.dto.amount + db.committed ≤ opening
  | _ => True

theorem CreateCall.Sound.mono (h : call.Sound opening db) (hdebited : db.debited ≤ db'.debited)
    (hcommitted : call.pc.counted = true → db'.committed ≤ db.committed)
    (hsettled : call.pc.torn = true → db'.settledOut ≤ db.settledOut) : call.Sound opening db' := by
  unfold CreateCall.Sound at h ⊢
  rcases hpc : call.pc with _ | reads | _ | _ | _ | _ | _ | _ | _ <;> rw [hpc] at h hcommitted hsettled
  case reading =>
    refine ⟨h.start, h.credits, fun d hd => ⟨(h.debits d hd).1, fun hnone => ?_⟩,
      fun f hf => ⟨(h.inFlight f hf).1, fun hnone => ?_⟩, fun d f hd hf => ?_⟩
    · have := (h.debits d hd).2 hnone
      have := hsettled (by simp [CreatePc.torn, hd, hnone])
      omega
    · have := (h.inFlight f hf).2 hnone
      have := hcommitted (by simp [CreatePc.counted, hf])
      omega
    · have := h.both d f hd hf
      have := hcommitted (by simp [CreatePc.counted, hf])
      omega
  case insert =>
    exact (Nat.add_le_add_left (hcommitted rfl) _).trans h
  all_goals trivial

/-- Each read leaves sound what was sound. -/
theorem readStep_sound {e : CreateEvent} {reads' : BalanceReads} (hsums : LedgerSums opening db)
    (htotal : db.committed ≤ opening) (h : ReadsSound opening db reads)
    (hread : readStep db reads e = some reads') : ReadsSound opening db reads' := by
  have hdebits : db.operatorSum .debit = db.debited := hsums.debits
  cases e <;> simp only [readStep, reduceCtorEq] at hread
  case readOpening =>
    split_ifs at hread
    cases hread
    exact ⟨fun o ho => by cases ho; exact hsums.opening, h.credits, h.debits, h.inFlight, h.both⟩
  case readCredits =>
    split_ifs at hread
    cases hread
    exact ⟨h.start, fun c hcr => by cases hcr; exact hsums.credits, h.debits, h.inFlight, h.both⟩
  case readDebits =>
    split_ifs at hread with hnone
    cases hread
    refine ⟨h.start, h.credits, fun d hd => ?_,
      fun f hf => ⟨(h.inFlight f hf).1, fun h => by cases h⟩, fun d f hd hf => ?_⟩ <;> cases hd <;> rw [hdebits]
    · exact ⟨db.debited_le_committed.trans htotal, fun _ => db.settledOut_le_debited⟩
    · exact (h.inFlight f hf).2 hnone.2
  case readInFlight =>
    split_ifs at hread with hnone
    cases hread
    refine ⟨h.start, h.credits, fun d hd => ⟨(h.debits d hd).1, fun h => by cases h⟩, fun f hf => ?_,
      fun d f hd hf => ?_⟩ <;> cases hf
    · exact ⟨db.inFlight_le_committed.trans htotal, fun _ => db.committed_le_debited⟩
    · have := (h.debits d hd).2 hnone
      have := db.committed_le_settledOut
      omega

theorem afterRead_sound {dto : CreateSettlementDto} (hsmall : opening < 10 ^ 20)
    (h : ReadsSound opening db reads) :
    CreateCall.Sound opening db { dto, pc := (afterRead dto reads).pc } := by
  unfold afterRead
  rcases havailable : reads.available with _ | available
  · exact h
  · simp only [BalanceReads.available, bind, Option.bind_eq_some_iff, pure, Option.some.injEq]
      at havailable
    obtain ⟨o, ho, c, hcr, d, hd, f, hf, rfl⟩ := havailable
    obtain rfl := h.start o ho
    obtain rfl := h.credits c hcr
    have hdo := (h.debits d hd).1
    have hfo := (h.inFlight f hf).1
    have hexact : decimalMinus (operatorBalance o 0 d) f = (o : ℤ) - d - f := by
      have hopening : decimalPlus o (0 : ℕ) = o := by
        rw [decimalPlus, Int.natCast_zero, add_zero, roundSig_natCast hsmall]
      have hbalance : operatorBalance o 0 d = (o : ℤ) - d := by
        rw [operatorBalance, hopening, decimalMinus, roundSig_sub hsmall (hdo.trans_lt hsmall)]
      rw [hbalance, decimalMinus, roundSig_of_lt (by omega)]
    rw [hexact]
    simp only
    split_ifs with hlow
    · trivial
    · have hboth := h.both d f hd hf
      have hfits : (dto.amount : ℤ) ≤ o - d - f := not_lt.mp hlow
      show dto.amount + db.committed ≤ o
      exact Int.ofNat_le.mp (by push_cast; omega)

theorem createStep_sound {compliance : Address → ComplianceResult} {now : ℕ} {e : CreateEvent}
    {out : CreateOut} (hsmall : opening < 10 ^ 20) (hsums : LedgerSums opening db)
    (htotal : db.committed ≤ opening) (h : call.Sound opening db)
    (hout : createStep compliance db now call e = some out) :
    (∀ db', CreateCall.Sound opening db' { call with pc := out.pc }) ∨
      out.db = .none ∧ CreateCall.Sound opening db { call with pc := out.pc } := by
  have hinit : CreateCall.Sound opening db { call with pc := .reading {} } :=
    ⟨nofun, nofun, nofun, nofun, nofun⟩
  rcases hpc : call.pc with _ | reads | _ | _ | _ | ⟨id, reason⟩ | id | _ | _ <;> cases e <;>
    simp only [createStep, hpc, reduceCtorEq] at hout
  case find.found =>
    split at hout <;> cases hout
    · exact .inl fun _ => trivial
    · exact .inr ⟨rfl, hinit⟩
  case reading.readOpening | reading.readCredits | reading.readDebits | reading.readInFlight =>
    obtain ⟨reads', hread, rfl⟩ := Option.map_eq_some_iff.mp hout
    rw [CreateCall.Sound, hpc] at h
    refine .inr ⟨?_, afterRead_sound hsmall (readStep_sound hsums htotal h hread)⟩
    unfold afterRead
    repeat' split
    all_goals rfl
  case reading.found | reading.inserted | reading.screened | reading.written =>
    simp [readStep] at hout
  case insert.inserted id o =>
    refine .inl fun db' => ?_
    cases o with
    | lost => cases hout; trivial
    | ok => simp only at hout; split_ifs at hout <;> cases hout <;> trivial
    | ambiguous => simp only at hout; split_ifs at hout; cases hout; trivial
  case check.screened id =>
    cases hout
    refine .inl fun _ => ?_
    simp only [screen]
    split_ifs <;> trivial
  case reject.written o | approve.written o =>
    split_ifs at hout
    cases hout
    cases o <;> exact .inl fun _ => trivial
  case findRaced.found => split at hout <;> cases hout <;> exact .inl fun _ => trivial
  all_goals cases hout; exact .inl fun _ => trivial

theorem debited_passed_step (hc : Custody σ) (hp : σ.db.Paired) (h : step cfg σ ev = some σ')
    (hI : ∀ k, σ.db.Debited k → σ.db.Passed k) (k : SettlementId) (hk : σ'.db.Debited k) :
    σ'.db.Passed k := by
  obtain ⟨op, hw, hdb⟩ := step_db h
  rw [hdb, hw.debited_iff hc hp] at hk
  rcases hk with hk | ⟨amount, rfl⟩
  · exact passed_step hc h (hI k hk)
  · refine passed_step hc h ?_
    cases hw with
    | @book i call t receipt head rest o s hcall hpc =>
      exact (hc.carried t (.walk (walks_of_listener hcall (by simp [hpc, ListenPc.rows])))).passed

theorem debited_passed_reach {C : State → Event → Prop} {base : ℕ}
    (h : RailReach cfg C base opening σ) (k : SettlementId) (hk : σ.db.Debited k) :
    σ.db.Passed k := by
  revert k
  refine h.invariant (fun k hk => ?_)
    fun _ _ _ hr hI _ hs => debited_passed_step (custody_reach hr) (paired_reach hr) hs hI
  exact absurd hk.2 (by simp [Db.Booked, Db.entriesOf, ledgerEntries_initial, Ne.symm hk.1])

theorem Writes.onRow_cases (hw : Writes σ ev op) (hc : Custody σ)
    (hs : σ.db.findById s.id = some s) :
    op.onRow σ.now s = s ∨ op.onRow σ.now s = (σ.awaitedWrite ev).onRow σ.now s ∨
      s.status = .received := by
  have verdict : ∀ {i : ℕ} {call : CreateCall}, σ.creates[i]? = some call →
      call.pc.held = some s.id → s.status = .received := by
    intro i call hcall hheld
    obtain ⟨r, hr, hrec⟩ := hc.held call (List.mem_of_getElem? hcall) s.id hheld
    rw [hs] at hr
    rw [Option.some.inj hr]
    exact hrec
  rcases hw.eq_awaitedWrite with rfl | rfl | ⟨i, e, rfl⟩
  · exact .inl rfl
  · exact .inr (.inl rfl)
  · rcases hw.writer hc (s := s) with heq | ⟨-, r, hr, hscr⟩ | ⟨i, call, o, -, hcall, hheld⟩
    · exact .inl heq
    · cases hw with
      | idle | insert => exact .inl rfl
      | @reject _ call k reason o _ hcall hpc =>
        by_cases hid : s.id = k
        · exact .inr (.inr (verdict hcall (by rw [hpc, hid]; rfl)))
        · exact .inl (onRow_of_ne hid)
      | @approve _ call k o _ hcall hpc =>
        by_cases hid : s.id = k
        · exact .inr (.inr (verdict hcall (by rw [hpc, hid]; rfl)))
        · exact .inl (onRow_of_ne hid)
    · exact .inr (.inr (verdict hcall hheld))

theorem received_inFlight (h : s.status = .received) : s.status ∈ inFlightStatuses := by
  rw [h]
  decide

theorem Writes.committed_row (hw : Writes σ ev op) (hc : Custody σ) (hp : σ.db.Paired)
    (hrevived : σ.NoneRevived ev) (hs : s ∈ σ.db.settlements.rows)
    (h : (op.apply σ.now σ.db).Debited s.id ∨ (op.onRow σ.now s).status ∈ inFlightStatuses) :
    σ.db.Debited s.id ∨ s.status ∈ inFlightStatuses := by
  by_contra hnot
  obtain ⟨hd, hf⟩ := not_or.mp hnot
  obtain ⟨hstatus, hbooks⟩ := hrevived s hs hd hf
  rcases h with h | h
  · rcases (hw.debited_iff hc hp s.id).mp h with h | ⟨amount, rfl⟩
    · exact hd h
    · rcases hw.eq_awaitedWrite with hop | hop | ⟨i, e, rfl⟩
      · cases hop
      · exact hbooks (hop ▸ rfl)
      · cases hw
  · rcases hw.onRow_cases hc (Db.findById_of_mem hs) with heq | heq | hrec
    · exact hf (heq ▸ h)
    · exact hstatus (heq ▸ h)
    · exact hf (received_inFlight hrec)

theorem Writes.settledOut_row (hw : Writes σ ev op) (hc : Custody σ) (hp : σ.db.Paired)
    (hpassed : ∀ k, σ.db.Debited k → σ.db.Passed k) (hapart : ChecksApart σ ev)
    (htorn : ∃ c ∈ σ.creates, c.pc.torn = true) (hs : s ∈ σ.db.settlements.rows)
    (h : (op.apply σ.now σ.db).Debited s.id ∧ (op.onRow σ.now s).status ∉ inFlightStatuses) :
    σ.db.Debited s.id ∧ s.status ∉ inFlightStatuses := by
  by_cases hd : σ.db.Debited s.id
  · refine ⟨hd, fun hf => h.2 ?_⟩
    rcases hw.onRow_cases hc (Db.findById_of_mem hs) with heq | heq | hrec
    · rwa [heq]
    · exact heq ▸ hapart.2.1 htorn s hs hd hf
    · obtain ⟨-, r, hr, hscr⟩ := hpassed _ hd
      rw [Db.findById_of_mem hs] at hr
      rw [← Option.some.inj hr, hrec] at hscr
      cases hscr
  · exfalso
    rcases (hw.debited_iff hc hp s.id).mp h.1 with hd' | ⟨amount, rfl⟩
    · exact hd hd'
    · rcases hw.committed_row hc hp hapart.2.2 hs (.inl h.1) with hd' | hf
      · exact hd hd'
      · exact h.2 hf

theorem Writes.debited_mono (hw : Writes σ ev op) (hc : Custody σ) (hp : σ.db.Paired) :
    σ.db.debited ≤ (op.apply σ.now σ.db).debited := by
  rw [Db.debited, Db.debited, hw.amountWhere_debited hc hp]
  exact Nat.le_add_right _ _

theorem Writes.committed_le (hw : Writes σ ev op) (hc : Custody σ) (hp : σ.db.Paired)
    (hrevived : σ.NoneRevived ev) :
    (op.apply σ.now σ.db).committed ≤
      σ.db.committed + ((op.created σ.db).map Settlement.amount).sum := by
  rw [Db.committed, Db.amountWhere, sumBy_apply]
  refine Nat.add_le_add (Table.sumBy_le fun s hs => ?_) (List.sum_le_sum fun s _ => ?_)
  · simp only [onRow_id, onRow_amount]
    split_ifs with hnew hold
    · exact le_rfl
    · exact absurd (hw.committed_row hc hp hrevived hs hnew) hold
    · exact Nat.zero_le _
    · exact le_rfl
  · split_ifs
    · exact le_rfl
    · exact Nat.zero_le _

theorem Writes.settledOut_le (hw : Writes σ ev op) (hc : Custody σ) (hp : σ.db.Paired)
    (hpassed : ∀ k, σ.db.Debited k → σ.db.Passed k) (hapart : ChecksApart σ ev)
    (htorn : ∃ c ∈ σ.creates, c.pc.torn = true) :
    (op.apply σ.now σ.db).settledOut ≤ σ.db.settledOut := by
  have hcreated : ∀ s ∈ op.created σ.db, s.status = .received := by
    intro s hs
    obtain ⟨-, rfl, -⟩ := created_spec hs
    cases hw
    rfl
  rw [Db.settledOut, Db.amountWhere, sumBy_apply]
  have hzero : ((op.created σ.db).map fun s => if (op.apply σ.now σ.db).Debited s.id ∧
      s.status ∉ inFlightStatuses then s.amount else 0).sum = 0 := by
    refine List.sum_eq_zero fun n hn => ?_
    obtain ⟨s, hs, rfl⟩ := List.mem_map.mp hn
    exact if_neg fun h => h.2 (received_inFlight (hcreated s hs))
  rw [hzero, Nat.add_zero]
  refine Table.sumBy_le fun s hs => ?_
  simp only [onRow_id, onRow_amount]
  split_ifs with hnew hold
  · exact le_rfl
  · exact absurd (hw.settledOut_row hc hp hpassed hapart htorn hs hnew) hold
  · exact Nat.zero_le _
  · exact le_rfl

structure Commitments (opening : ℕ) (σ : State) : Prop where
  total : σ.db.committed ≤ opening
  calls : ∀ (i : ℕ) (call : CreateCall), σ.creates[i]? = some call → call.Sound opening σ.db

theorem Writes.created_cases (hw : Writes σ ev op) : op.created σ.db = [] ∨
    ∃ i call id o, ev = .create i (.inserted id o) ∧ σ.creates[i]? = some call ∧
      call.pc = .insert ∧ op = .create (call.dto.row id σ.now) ∧ σ.inserting ev = some i := by
  cases hw with
  | @insert i call id o db' hcall hpc hnew ho =>
    refine .inr ⟨i, call, id, o, rfl, hcall, hpc, rfl, ?_⟩
    simp only [State.inserting, ho, hcall, Option.any_some, hnew, Option.isSome_some, Bool.and_self,
      if_true]
  | _ => exact .inl rfl

theorem Commitments.other {i : ℕ} (hI : Commitments opening σ) (hc : Custody σ)
    (hp : σ.db.Paired) (hpassed : ∀ k, σ.db.Debited k → σ.db.Passed k) (hapart : ChecksApart σ ev)
    (h : step cfg σ ev = some σ') (hcall : σ.creates[i]? = some call)
    (hev : ∀ e, ev ≠ .create i e) : call.Sound opening σ'.db := by
  obtain ⟨op, hw, hdb⟩ := step_db h
  rw [hdb]
  refine (hI.calls i call hcall).mono (hw.debited_mono hc hp) (fun hcounted => ?_) fun htorn => ?_
  · have hle := hw.committed_le hc hp hapart.2.2
    rcases hw.created_cases with hnil | ⟨j, _, id, o, rfl, -, -, -, hins⟩
    · rwa [hnil] at hle
    · exfalso
      have hmem : (call, i) ∈ σ.creates.zipIdx := List.mem_zipIdx_iff_getElem?.mpr hcall
      rcases hapart.1 _ hmem hcounted with hnone | hsome
      · rw [hins] at hnone
        cases hnone
      · rw [hins, Option.some.injEq] at hsome
        exact hev _ (by rw [hsome])
  · exact hw.settledOut_le hc hp hpassed hapart ⟨call, List.mem_of_getElem? hcall, htorn⟩

theorem commitments_total (hI : Commitments opening σ) (hc : Custody σ) (hp : σ.db.Paired)
    (hapart : ChecksApart σ ev) (h : step cfg σ ev = some σ') : σ'.db.committed ≤ opening := by
  obtain ⟨op, hw, hdb⟩ := step_db h
  have hle := hw.committed_le hc hp hapart.2.2
  rw [hdb]
  rcases hw.created_cases with hnil | ⟨i, call, id, o, -, hcall, hpc, rfl, -⟩
  · rw [hnil] at hle
    exact hle.trans hI.total
  · have hfits := hI.calls i call hcall
    rw [CreateCall.Sound, hpc] at hfits
    have hrow : ((DbOp.created σ.db (.create (call.dto.row id σ.now))).map
        Settlement.amount).sum ≤ call.dto.amount := by
      simp only [DbOp.created]
      split_ifs
      · exact le_rfl
      · exact Nat.zero_le _
    calc _ ≤ _ := hle
      _ ≤ σ.db.committed + call.dto.amount := Nat.add_le_add_left hrow _
      _ = call.dto.amount + σ.db.committed := Nat.add_comm _ _
      _ ≤ opening := hfits

theorem commitments_step (hsmall : opening < 10 ^ 20) (hI : Commitments opening σ)
    (hc : Custody σ) (hp : σ.db.Paired) (hsums : LedgerSums opening σ.db)
    (hpassed : ∀ k, σ.db.Debited k → σ.db.Passed k) (hapart : ChecksApart σ ev)
    (h : step cfg σ ev = some σ') : Commitments opening σ' := by
  refine ⟨commitments_total hI hc hp hapart h, fun j c hj => ?_⟩
  generalize hcreates : σ'.creates = creates at hj
  have hmove := step_creates h
  rw [hcreates] at hmove
  cases hmove with
  | same hev => exact hI.other hc hp hpassed hapart h hj (hev j)
  | crash => cases hj
  | submit dto =>
    rcases getElem?_snoc_cases hj with ⟨-, rfl⟩ | ⟨-, hold⟩
    · trivial
    · exact hI.other hc hp hpassed hapart h hold (fun _ => nofun)
  | @call i e call out hcall hout =>
    rcases getElem?_set_cases hj with ⟨rfl, rfl⟩ | ⟨hji, hold⟩
    · rcases createStep_sound hsmall hsums hI.total (hI.calls j call hcall) hout with hall | ⟨hnone, hs⟩
      · exact hall _
      · obtain ⟨call', hcall', out', hout', rfl⟩ : ∃ call', σ.creates[j]? = some call' ∧ ∃ out',
            createStep cfg.compliance σ.db σ.now call' e = some out' ∧
              σ' = σ.afterCreate j call' out' := by
          cases stepsTo h with
          | create hcall' hout' => exact ⟨_, hcall', _, hout', rfl⟩
        obtain rfl := Option.some.inj (hcall.symm.trans hcall')
        obtain rfl := Option.some.inj (hout.symm.trans hout')
        rw [State.afterCreate, hnone]
        exact hs
    · refine hI.other hc hp hpassed hapart h hold fun e' he => hji ?_
      cases he
      rfl

theorem commitments_reach {base : ℕ} (hsmall : opening < 10 ^ 20)
    (h : RailReach cfg ChecksApart base opening σ) : Commitments opening σ := by
  refine h.invariant ⟨?_, fun i call hcall => by cases hcall⟩ fun _ _ _ hr hI hapart hs =>
    commitments_step hsmall hI (custody_reach hr) (paired_reach hr) (ledgerSums_reach hr)
      (debited_passed_reach hr) hapart hs
  simp [Db.committed, Db.amountWhere, Table.sumBy, rows_initial, genesisRow, Db.Debited,
    inFlightStatuses]

theorem getOperatorBalance_eq (hsmall : opening < 10 ^ 20) (hsums : LedgerSums opening db)
    (htotal : db.debited ≤ opening) : db.getOperatorBalance = (opening : ℤ) - db.debited := by
  have hdebits : db.operatorSum .debit = db.debited := hsums.debits
  have hopening : decimalPlus opening (0 : ℕ) = opening := by
    rw [decimalPlus, Int.natCast_zero, add_zero, roundSig_natCast hsmall]
  rw [Db.getOperatorBalance, operatorBalance, hsums.opening, hsums.credits, hdebits, hopening,
    decimalMinus, roundSig_sub hsmall (htotal.trans_lt hsmall)]

/-- In runs where the checks are apart the balance check keeps its promise. -/
theorem covered_of_checksApart {base : ℕ} (hsmall : opening < 10 ^ 20)
    (h : RailReach cfg ChecksApart base opening σ) : σ.db.Covered := by
  have htotal := (commitments_reach hsmall h).total
  have hsplit : (σ.db.amountWhere fun s => s.status ∈ inFlightStatuses ∧ ¬σ.db.Booked s.id) +
      σ.db.debited ≤ σ.db.committed :=
    Db.amountWhere_add_le (fun _ hs => .inr hs.1) (fun _ hs => .inl hs) fun _ hs hd => hs.2 hd.2
  have hdebited := σ.db.debited_le_committed.trans htotal
  rw [Db.Covered, getOperatorBalance_eq hsmall (ledgerSums_reach h) hdebited]
  omega

theorem settled_run_covered : ∃ σ, RailReach (plainConfig 3) ChecksApart 7 100 σ ∧
    σ.db.debited = 5 ∧ σ.db.Covered := by
  obtain ⟨σ, hr, hany⟩ := exists_reach_of_checkedRun (step (plainConfig 3)) ChecksApart
    (initial (plainConfig 3) 7 100) settleEvents (fun σ => σ.db.debited = 5) (by decide +kernel)
  exact ⟨σ, hr, of_decide_eq_true hany, covered_of_checksApart (by decide) hr⟩

def large (instructionId : String) : CreateSettlementDto :=
  { instructionId, toAddress := "0xpayee", amount := 60 }

/-- Two requests for 60 each out of 100 pass their checks before either inserts its row. -/
def bothChecked : List Event :=
  bootEvents ++ [.submit (large "a"), .submit (large "b"), .create 0 .found, .create 1 .found,
    .create 0 .readOpening, .create 0 .readCredits, .create 0 .readDebits, .create 0 .readInFlight,
    .create 1 .readOpening, .create 1 .readCredits, .create 1 .readDebits, .create 1 .readInFlight,
    .create 0 (.inserted 1 .ok), .create 1 (.inserted 2 .ok)]

theorem both_accepted :
    ¬∀ cfg base opening σ, Reach (step cfg) (initial cfg base opening) σ → σ.db.Covered := by
  intro hall
  obtain ⟨σ, hr, hover⟩ := exists_reach_of_run (step (plainConfig 3))
    (initial (plainConfig 3) 7 100) bothChecked (fun σ => ¬σ.db.Covered) (by decide +kernel)
  exact of_decide_eq_true hover (hall _ _ _ σ hr)

end Rail
