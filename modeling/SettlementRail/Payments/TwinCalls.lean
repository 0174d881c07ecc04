import SettlementRail.Books.OverCommitment

/-! Requests with one `instructionId` in flight at the same time. Between the pre-check and the
insert each of them checks the balance, and the check of a late one already counts the row of an
early one. -/

namespace Rail
open Foundation

def Db.availableBalance (db : Db) : ℤ :=
  decimalMinus db.getOperatorBalance (db.sumByStatuses inFlightStatuses)

def Db.idOf (db : Db) (instructionId : String) : Option SettlementId :=
  (db.findByInstructionId instructionId).map Settlement.id

def CreateEvent.clean : CreateEvent → Bool
  | .dbError => false
  | .inserted _ o | .written o => o = .ok
  | _ => true

/-- What the requests are supposed to do. Those with this `instructionId` all carry `dto` and meet
no database error, and nobody else inserts a row before theirs is there. -/
def OneSubmission (dto : CreateSettlementDto) (σ : State) : Event → Prop
  | .submit other => other.instructionId = dto.instructionId → other = dto
  | .create i e => ∀ call ∈ σ.creates[i]?,
    if call.dto.instructionId = dto.instructionId then e.clean = true
    else (σ.db.idOf dto.instructionId).isSome = true ∨ σ.inserting (.create i e) = none
  | _ => True

def CreatePc.between : CreatePc → Bool
  | .reading reads => reads.inFlight.isSome && reads.debits.isNone
  | _ => false

/-- A twin that asks for the in-flight sum when the row is already there, or when more has been
booked than at the start, finds a balance that covers the amount. -/
def ReadsFit (dto : CreateSettlementDto) (σ₀ σ : State) : Event → Prop
  | .create i .readInFlight => ∀ call ∈ σ.creates[i]?,
    call.dto.instructionId = dto.instructionId → (σ.db.idOf dto.instructionId).isSome = true ∨
      σ.db.operatorSum .debit ≠ σ₀.db.operatorSum .debit →
        (dto.amount : ℤ) ≤ σ.db.availableBalance
  | _ => True

/-- Nothing is booked while a twin stands between its in-flight sum and its debit sum. -/
def BooksApart (dto : CreateSettlementDto) (σ : State) (ev : Event) : Prop :=
  (∃ call ∈ σ.creates, call.dto.instructionId = dto.instructionId ∧ call.pc.between = true) →
    ∀ id ∈ (σ.awaitedWrite ev).books, σ.db.Debited id

/-- Before the row is there, no write of the relayer or the listener takes a row back into
flight. -/
def NoneBack (dto : CreateSettlementDto) (σ : State) (ev : Event) : Prop :=
  σ.db.idOf dto.instructionId = none → ∀ s ∈ σ.db.settlements.rows,
    s.status ∉ inFlightStatuses → ((σ.awaitedWrite ev).onRow σ.now s).status ∉ inFlightStatuses

/-- The process stays up, and the balance that a twin computes has room for it. -/
def RoomAtReads (dto : CreateSettlementDto) (σ₀ σ : State) (ev : Event) : Prop :=
  ev ≠ .crash ∧ ReadsFit dto σ₀ σ ev ∧ BooksApart dto σ ev ∧ NoneBack dto σ ev

instance oneSubmissionDecidable (dto : CreateSettlementDto) (σ : State) (ev : Event) :
    Decidable (OneSubmission dto σ ev) :=
  match ev with
  | .submit _ => inferInstanceAs (Decidable (_ → _))
  | .create i _ => inferInstanceAs (Decidable (∀ call ∈ σ.creates[i]?, ite _ _ _))
  | .tick _ | .boot | .crash | .drain | .job _ | .startSweep | .sweep _ | .recover _ | .startPoll
  | .transferEvent _ | .listen _ _ | .dvpCall _ | .dvp _ _ | .dropTx _ | .newHead _ _ =>
    inferInstanceAs (Decidable True)

instance readsFitDecidable (dto : CreateSettlementDto) (σ₀ σ : State) (ev : Event) :
    Decidable (ReadsFit dto σ₀ σ ev) :=
  match ev with
  | .create i .readInFlight => inferInstanceAs (Decidable (∀ call ∈ σ.creates[i]?, _ → _ → _))
  | .create _ .found | .create _ .readOpening | .create _ .readCredits | .create _ .readDebits
  | .create _ (.inserted _ _) | .create _ .screened | .create _ (.written _) | .create _ .dbError
  | .tick _ | .submit _ | .boot | .crash | .drain | .job _ | .startSweep | .sweep _ | .recover _
  | .startPoll | .transferEvent _ | .listen _ _ | .dvpCall _ | .dvp _ _ | .dropTx _
  | .newHead _ _ => inferInstanceAs (Decidable True)

instance (dto : CreateSettlementDto) (σ : State) (ev : Event) : Decidable (BooksApart dto σ ev) :=
  inferInstanceAs (Decidable (_ → ∀ _ ∈ _, _))

instance (dto : CreateSettlementDto) (σ : State) (ev : Event) : Decidable (NoneBack dto σ ev) :=
  inferInstanceAs (Decidable (_ → ∀ _ ∈ _, _ → _))

instance (dto : CreateSettlementDto) (σ₀ σ : State) (ev : Event) :
    Decidable (RoomAtReads dto σ₀ σ ev) := inferInstanceAs (Decidable (_ ∧ _ ∧ _ ∧ _))

def State.asked (cfg : Config) (σ : State) : Event → Option SettlementId
  | .create i e => σ.creates[i]?.bind fun call =>
    (createStep cfg.compliance σ.db σ.now call e).bind CreateOut.enqueue
  | _ => none

def asks (cfg : Config) (id : SettlementId) : State → List Event → ℕ
  | _, [] => 0
  | σ, ev :: es => (if σ.asked cfg ev = some id then 1 else 0) +
    (step cfg σ ev).elim 0 fun σ' => asks cfg id σ' es

def CreatePc.left : CreatePc → ℕ
  | .find => 9
  | .reading reads =>
    4 + ((if reads.opening = none then 1 else 0) + (if reads.credits = none then 1 else 0) +
      (if reads.debits = none then 1 else 0) + if reads.inFlight = none then 1 else 0)
  | .insert => 4
  | .check _ => 3
  | .reject _ _ | .approve _ => 2
  | .findRaced => 1
  | .returned _ _ | .threw _ => 0

def CreatePc.won : CreatePc → Bool
  | .check _ | .reject _ _ | .approve _ | .returned _ true => true
  | _ => false

def CreatePc.created : CreatePc → Bool
  | .returned _ true => true
  | _ => false

variable {cfg : Config} {σ₀ σ σ' : State} {ev : Event} {es : List Event} {op : DbOp}
variable {dto : CreateSettlementDto} {db db' : Db} {now opening : ℕ} {id k : SettlementId}
variable {call : CreateCall} {e : CreateEvent} {out : CreateOut} {reads reads' : BalanceReads}
variable {instructionId : String}

theorem idOf_apply : (op.apply now db).idOf instructionId =
    (db.idOf instructionId).or (((op.created db).find? fun s =>
      s.instructionId = instructionId).map Settlement.id) := by
  have hsame : (fun s : Settlement => decide (s.instructionId = instructionId)) ∘ op.onRow now =
      fun s => decide (s.instructionId = instructionId) := by
    funext s
    exact congrArg (fun i => decide (i = instructionId)) onRow_instructionId
  rw [Db.idOf, Db.findByInstructionId, rows_apply, List.find?_append, List.find?_map, hsame,
    Option.map_or, Option.map_map]
  congr 2
  funext s
  exact onRow_id

theorem idOf_uncreated (hnil : op.created db = []) :
    (op.apply now db).idOf instructionId = db.idOf instructionId := by
  rw [idOf_apply, hnil, List.find?_nil, Option.map_none, Option.or_none]

theorem idOf_mono (h : db.idOf instructionId = some id) :
    (op.apply now db).idOf instructionId = some id := by
  rw [idOf_apply, h, Option.some_or]

theorem idOf_eq_none : db.idOf instructionId = none ↔
    instructionId ∉ db.settlements.rows.map Settlement.instructionId := by
  rw [Db.idOf, Option.map_eq_none_iff, Db.findByInstructionId, List.find?_eq_none, List.mem_map]
  constructor
  · rintro h ⟨s, hs, heq⟩
    exact h s hs (decide_eq_true heq)
  · exact fun h s hs heq => h ⟨s, hs, of_decide_eq_true heq⟩

theorem findById_of_idOf (h : db.idOf instructionId = some id) :
    ∃ s, db.findById id = some s ∧ s.instructionId = instructionId := by
  obtain ⟨s, hs, rfl⟩ := Option.map_eq_some_iff.mp h
  exact ⟨s, Db.findById_of_mem (List.mem_of_find?_eq_some hs), by simpa using List.find?_some hs⟩

theorem idOf_of_findById {s : Settlement} (h : db.findById id = some s) :
    db.idOf s.instructionId = some id := by
  rcases hid : db.idOf s.instructionId with _ | k
  · exact absurd (List.mem_map_of_mem (Db.mem_of_findById h)) (idOf_eq_none.mp hid)
  · obtain ⟨r, hr, hinstr⟩ := findById_of_idOf hid
    have heq : r = s := List.inj_on_of_nodup_map db.instructionIds_nodup
      (Db.mem_of_findById hr) (Db.mem_of_findById h) hinstr
    rw [← Db.id_of_findById hr, heq, Db.id_of_findById h]

theorem rows_of_instruction (db : Db) (instructionId : String) :
    (db.settlements.rows.filter fun s => s.instructionId = instructionId).length =
      if (db.idOf instructionId).isSome then 1 else 0 := by
  have hcount : (db.settlements.rows.filter fun s => s.instructionId = instructionId).length =
      (db.settlements.rows.map Settlement.instructionId).count instructionId := by
    rw [List.count, List.countP_map, List.countP_eq_length_filter]
    rfl
  rw [hcount]
  split_ifs with hid
  · refine List.count_eq_one_of_mem db.instructionIds_nodup ?_
    by_contra hnot
    rw [idOf_eq_none.mpr hnot] at hid
    cases hid
  · refine List.count_eq_zero_of_not_mem (idOf_eq_none.mp ?_)
    exact Option.not_isSome_iff_eq_none.mp hid

/-- What a twin has read leaves room for it, with the debits of now where it has not read them. -/
structure TwinReads (dto : CreateSettlementDto) (opening : ℕ) (db : Db) (reads : BalanceReads) :
    Prop where
  start : ∀ o, reads.opening = some o → o = opening
  credits : ∀ c, reads.credits = some c → c = 0
  debits : ∀ d, reads.debits = some d → d ≤ db.operatorSum .debit
  inFlight : ∀ f, reads.inFlight = some f → (dto.amount : ℤ) ≤
    decimalMinus (operatorBalance opening 0 (reads.debits.getD (db.operatorSum .debit))) f

def TwinOk (cfg : Config) (dto : CreateSettlementDto) (opening : ℕ) (db : Db) : CreatePc → Prop
  | .find | .insert => True
  | .reading reads => reads.available = none ∧ TwinReads dto opening db reads
  | .findRaced => (db.idOf dto.instructionId).isSome = true
  | .check id => db.idOf dto.instructionId = some id
  | .reject id _ => db.idOf dto.instructionId = some id ∧
    (cfg.compliance dto.toAddress).approved = false
  | .approve id => db.idOf dto.instructionId = some id ∧
    (cfg.compliance dto.toAddress).approved = true
  | .returned id _ => db.idOf dto.instructionId = some id
  | .threw _ => False

theorem twinReads_empty (dto : CreateSettlementDto) (opening : ℕ) (db : Db) :
    TwinReads dto opening db {} where
  start := fun o h => by cases h
  credits := fun c h => by cases h
  debits := fun d h => by cases h
  inFlight := fun f h => by cases h

theorem TwinReads.mono (h : TwinReads dto opening db reads)
    (hmono : db.operatorSum .debit ≤ db'.operatorSum .debit)
    (hapart : (CreatePc.reading reads).between = true →
      db'.operatorSum .debit = db.operatorSum .debit) : TwinReads dto opening db' reads := by
  refine ⟨h.start, h.credits, fun d hd => (h.debits d hd).trans hmono, fun f hf => ?_⟩
  have hfits := h.inFlight f hf
  cases hdebits : reads.debits with
  | none =>
    rw [hdebits, Option.getD_none] at hfits
    rwa [Option.getD_none, hapart (by simp [CreatePc.between, hf, hdebits])]
  | some d => rwa [hdebits, Option.getD_some] at hfits

theorem TwinOk.apply {pc : CreatePc} (h : TwinOk cfg dto opening db pc)
    (hmono : db.operatorSum .debit ≤ (op.apply now db).operatorSum .debit)
    (hapart : pc.between = true →
      (op.apply now db).operatorSum .debit = db.operatorSum .debit) :
    TwinOk cfg dto opening (op.apply now db) pc := by
  cases pc with
  | find | insert => exact h
  | reading reads => exact ⟨h.1, h.2.mono hmono hapart⟩
  | findRaced =>
    obtain ⟨id, hid⟩ := Option.isSome_iff_exists.mp h
    exact Option.isSome_iff_exists.mpr ⟨id, idOf_mono hid⟩
  | check | returned => exact idOf_mono h
  | reject | approve => exact ⟨idOf_mono h.1, h.2⟩
  | threw => exact h

theorem available_eq_some {available : ℤ} (h : reads.available = some available) :
    ∃ o c d f, reads.opening = some o ∧ reads.credits = some c ∧ reads.debits = some d ∧
      reads.inFlight = some f ∧ available = decimalMinus (operatorBalance o c d) f := by
  simp only [BalanceReads.available, bind, Option.bind_eq_some_iff, pure, Option.some.injEq] at h
  obtain ⟨o, ho, c, hc, d, hd, f, hf, heq⟩ := h
  exact ⟨o, c, d, f, ho, hc, hd, hf, heq.symm⟩

theorem afterRead_twin (h : TwinReads dto opening db reads) :
    TwinOk cfg dto opening db (afterRead dto reads).pc := by
  unfold afterRead
  rcases havailable : reads.available with _ | available
  · exact ⟨havailable, h⟩
  · obtain ⟨o, c, d, f, ho, hc, hd, hf, rfl⟩ := available_eq_some havailable
    have hfits := h.inFlight f hf
    rw [← h.start o ho, ← h.credits c hc, hd, Option.getD_some] at hfits
    simp only [if_neg (not_lt.mpr hfits)]
    trivial

theorem operatorBalance_anti {o c d d' : ℕ} (h : d ≤ d') :
    operatorBalance o c d' ≤ operatorBalance o c d :=
  roundSig_mono (by decide) (Int.sub_le_sub_left (Int.ofNat_le.mpr h) _)

theorem decimalMinus_mono {x y : ℤ} (h : x ≤ y) (z : ℤ) : decimalMinus x z ≤ decimalMinus y z :=
  roundSig_mono (by decide) (Int.sub_le_sub_right h z)

theorem LedgerSums.getOperatorBalance (h : LedgerSums opening db) :
    db.getOperatorBalance = operatorBalance opening 0 (db.operatorSum .debit) := by
  rw [Db.getOperatorBalance, h.opening, h.credits]

theorem readStep_twin (hsums : LedgerSums opening db)
    (hfits : e = .readInFlight → (dto.amount : ℤ) ≤ db.availableBalance)
    (h : TwinReads dto opening db reads) (hread : readStep db reads e = some reads') :
    TwinReads dto opening db reads' := by
  cases e <;> simp only [readStep, reduceCtorEq] at hread
  case readOpening =>
    split_ifs at hread
    cases hread
    refine ⟨fun o ho => ?_, h.credits, h.debits, h.inFlight⟩
    rw [← Option.some.inj ho, hsums.opening]
  case readCredits =>
    split_ifs at hread
    cases hread
    refine ⟨h.start, fun c hc => ?_, h.debits, h.inFlight⟩
    rw [← Option.some.inj hc, hsums.credits]
  case readDebits =>
    split_ifs at hread with hunread
    cases hread
    refine ⟨h.start, h.credits, fun d hd => (Option.some.inj hd).ge, fun f hf => ?_⟩
    have hroom := h.inFlight f hf
    rwa [hunread.2, Option.getD_none] at hroom
  case readInFlight =>
    split_ifs at hread
    cases hread
    refine ⟨h.start, h.credits, h.debits, fun f hf => ?_⟩
    have hroom := hfits rfl
    rw [Db.availableBalance, hsums.getOperatorBalance] at hroom
    rw [← Option.some.inj hf]
    -- debits read earlier are at most those of now
    refine hroom.trans (decimalMinus_mono (operatorBalance_anti ?_) _)
    cases hd : reads.debits with
    | none => exact le_rfl
    | some d => exact h.debits d hd

theorem createStep_left {compliance : Address → ComplianceResult}
    (hout : createStep compliance db now call e = some out) : out.pc.left < call.pc.left := by
  rcases hpc : call.pc with _ | reads | _ | _ | id | ⟨id, reason⟩ | id | _ | _ <;> cases e <;>
    simp only [createStep, hpc, reduceCtorEq] at hout
  case reading.readOpening | reading.readCredits | reading.readDebits | reading.readInFlight =>
    obtain ⟨reads', hread, rfl⟩ := Option.map_eq_some_iff.mp hout
    have hless : (CreatePc.reading reads').left < (CreatePc.reading reads).left := by
      simp only [readStep] at hread
      split_ifs at hread with hnone
      cases hread
      simp only [CreatePc.left, hnone]
      simp
    refine lt_of_le_of_lt ?_ hless
    unfold afterRead
    repeat' split
    all_goals simp [CreatePc.left]
  case reading.found | reading.inserted | reading.screened | reading.written =>
    simp [readStep] at hout
  case insert.inserted id o =>
    cases o with
    | lost => cases hout; simp [CreatePc.left]
    | ok => simp only at hout; split_ifs at hout <;> cases hout <;> simp [CreatePc.left]
    | ambiguous => simp only at hout; split_ifs at hout; cases hout; simp [CreatePc.left]
  case check.screened =>
    cases hout
    simp only [screen]
    split_ifs <;> simp [CreatePc.left]
  case reject.written o | approve.written o =>
    split_ifs at hout
    cases hout
    cases o <;> simp [CreatePc.left, createEnd]
  case find.found | findRaced.found => split at hout <;> cases hout <;> simp [CreatePc.left]
  all_goals cases hout; simp [CreatePc.left]

inductive TwinMoves (cfg : Config) (dto : CreateSettlementDto) (db : Db) (now : ℕ)
    (call : CreateCall) (out : CreateOut) : Prop
  | stay (hwon : out.pc.won = call.pc.won) (hcreated : out.pc.created = call.pc.created)
      (henq : out.enqueue = none) (hnew : out.db.created db = [])
  | insert {id : SettlementId} {db' : Db} (hpc : call.pc = .insert)
      (hnew : db.create (dto.row id now) = some db') (hout : out.pc = .check id)
      (hop : out.db = .create (dto.row id now)) (henq : out.enqueue = none)
  | finish {id : SettlementId} (hwon : call.pc.won = true) (hcreated : call.pc.created = false)
      (hid : db.idOf dto.instructionId = some id) (hout : out.pc = .returned id true)
      (henq : out.enqueue = if (cfg.compliance dto.toAddress).approved then some id else none)
      (hnew : out.db.created db = [])

theorem idOf_of_create {row : Settlement} {db' : Db} (h : db.create row = some db') :
    db.idOf row.instructionId = none ∧ db'.idOf row.instructionId = some row.id := by
  have hfresh : row.instructionId ∉ db.settlements.rows.map Settlement.instructionId := by
    intro hmem
    rw [Db.create, dif_pos hmem] at h
    cases h
  have hrow : db'.findById row.id = some row := by
    rw [Db.findById_create h, if_pos rfl]
  exact ⟨idOf_eq_none.mpr hfresh, idOf_of_findById hrow⟩

theorem idOf_of_violation {row : Settlement} (h : db.create row = none)
    (hid : db.findById row.id = none) : (db.idOf row.instructionId).isSome = true := by
  by_contra hnone
  rw [Option.not_isSome_iff_eq_none, idOf_eq_none] at hnone
  rw [Db.create, dif_neg hnone] at h
  split at h
  · rename_i hins
    rw [Table.insert?_eq_none_iff] at hins
    rw [Db.findById] at hid
    rw [hid] at hins
    cases hins
  · cases h

theorem afterRead_op (dto : CreateSettlementDto) (reads : BalanceReads) :
    (afterRead dto reads).db = .none := by
  unfold afterRead
  repeat' split
  all_goals rfl

theorem afterRead_won (dto : CreateSettlementDto) (reads : BalanceReads) :
    (afterRead dto reads).pc.won = false ∧ (afterRead dto reads).pc.created = false := by
  unfold afterRead
  repeat' split
  all_goals exact ⟨rfl, rfl⟩

theorem twin_step (hdto : call.dto = dto) (hok : TwinOk cfg dto opening db call.pc)
    (hclean : e.clean = true) (hsums : LedgerSums opening db)
    (hfits : e = .readInFlight → (dto.amount : ℤ) ≤ db.availableBalance)
    (hout : createStep cfg.compliance db now call e = some out) :
    TwinOk cfg dto opening (out.db.apply now db) out.pc ∧
      TwinMoves cfg dto db now call out := by
  subst hdto
  rcases hpc : call.pc with _ | reads | _ | _ | id | ⟨id, reason⟩ | id | ⟨id, created⟩ | _ <;>
    rw [hpc] at hok <;> cases e <;> simp only [createStep, hpc, reduceCtorEq] at hout
  case find.found =>
    rcases hfind : db.findByInstructionId call.dto.instructionId with _ | existing <;>
      rw [hfind] at hout <;> cases hout
    · refine ⟨⟨rfl, twinReads_empty call.dto opening _⟩, .stay ?_ ?_ rfl rfl⟩ <;>
        rw [hpc] <;> rfl
    · refine ⟨?_, .stay ?_ ?_ rfl rfl⟩
      · show (db.findByInstructionId _).map _ = _
        rw [hfind, Option.map_some]
      · rw [hpc]; rfl
      · rw [hpc]; rfl
  case reading.readOpening | reading.readCredits | reading.readDebits | reading.readInFlight =>
    obtain ⟨reads', hread, rfl⟩ := Option.map_eq_some_iff.mp hout
    obtain ⟨hwon, hcreated⟩ := afterRead_won call.dto reads'
    have hpc' : TwinOk cfg call.dto opening db (afterRead call.dto reads').pc :=
      afterRead_twin (readStep_twin hsums hfits hok.2 hread)
    refine ⟨by rwa [afterRead_op], .stay ?_ ?_ (afterRead_held _ _).2 ?_⟩
    · rw [hwon, hpc]; rfl
    · rw [hcreated, hpc]; rfl
    · rw [afterRead_op]; rfl
  case reading.found | reading.inserted | reading.screened | reading.written =>
    simp [readStep] at hout
  case insert.inserted id o =>
    obtain rfl : o = .ok := of_decide_eq_true hclean
    simp only at hout
    split_ifs at hout with hid hnew <;> cases hout
    · obtain ⟨db', hdb'⟩ := Option.isSome_iff_exists.mp hnew
      refine ⟨?_, .insert hpc hdb' rfl rfl rfl⟩
      show (((db.create _).getD db).idOf _) = some id
      rw [hdb', Option.getD_some]
      exact (idOf_of_create hdb').2
    · rw [Option.not_isSome_iff_eq_none] at hnew
      refine ⟨idOf_of_violation hnew (not_not.mp hid), .stay ?_ ?_ rfl rfl⟩ <;> rw [hpc] <;> rfl
  case findRaced.found =>
    obtain ⟨raced, hraced⟩ := Option.isSome_iff_exists.mp (Option.isSome_map ▸ hok :
      (db.findByInstructionId call.dto.instructionId).isSome = true)
    rw [hraced] at hout
    cases hout
    refine ⟨?_, .stay ?_ ?_ rfl rfl⟩
    · show (db.findByInstructionId _).map _ = _
      rw [hraced, Option.map_some]
    · rw [hpc]; rfl
    · rw [hpc]; rfl
  case check.screened =>
    cases hout
    simp only [screen]
    split_ifs with happroved
    · refine ⟨⟨hok, happroved⟩, .stay ?_ ?_ rfl rfl⟩ <;> rw [hpc] <;> rfl
    · refine ⟨⟨hok, eq_false_of_ne_true happroved⟩, .stay ?_ ?_ rfl rfl⟩ <;> rw [hpc] <;> rfl
  case reject.written o =>
    obtain rfl : o = .ok := of_decide_eq_true hclean
    split_ifs at hout
    cases hout
    refine ⟨idOf_mono hok.1, .finish (by rw [hpc]; rfl) (by rw [hpc]; rfl) hok.1 rfl ?_ rfl⟩
    rw [hok.2]
    rfl
  case approve.written o =>
    obtain rfl : o = .ok := of_decide_eq_true hclean
    split_ifs at hout
    cases hout
    refine ⟨idOf_mono hok.1, .finish (by rw [hpc]; rfl) (by rw [hpc]; rfl) hok.1 rfl ?_ rfl⟩
    rw [hok.2]
    rfl
  all_goals cases hclean

theorem Db.exists_unused (db : Db) : ∃ id, db.findById id = none := by
  refine ⟨(db.settlements.rows.map Settlement.id).sum + 1, Table.find?_eq_none_iff.mpr ?_⟩
  intro hmem
  have hle := List.le_sum_of_mem hmem
  exact absurd hle (Nat.not_succ_le_self _)

theorem readStep_enabled (db : Db) (h : reads.available = none) :
    ∃ e, e.clean = true ∧ (readStep db reads e).isSome = true := by
  obtain ⟨opening, credits, debits, inFlight⟩ := reads
  cases opening with
  | none => exact ⟨.readOpening, rfl, rfl⟩
  | some o =>
    cases credits with
    | none => exact ⟨.readCredits, rfl, rfl⟩
    | some c =>
      cases debits with
      | none => exact ⟨.readDebits, rfl, rfl⟩
      | some d =>
        cases inFlight with
        | none => exact ⟨.readInFlight, rfl, rfl⟩
        | some f => cases h

theorem twin_enabled (now : ℕ) (hok : TwinOk cfg dto opening db call.pc) :
    (∃ id created, call.pc = .returned id created) ∨
      ∃ e, e.clean = true ∧ (createStep cfg.compliance db now call e).isSome = true := by
  rcases hpc : call.pc with _ | reads | _ | _ | id | ⟨id, reason⟩ | id | ⟨id, created⟩ | _ <;>
    rw [hpc] at hok
  case returned => exact .inl ⟨id, created, rfl⟩
  case threw => exact hok.elim
  all_goals refine .inr ?_
  case find =>
    refine ⟨.found, rfl, ?_⟩
    simp only [createStep, hpc]
    split <;> rfl
  case reading =>
    obtain ⟨e, hclean, hread⟩ := readStep_enabled db hok.1
    refine ⟨e, hclean, ?_⟩
    have hnot : e ≠ .dbError := by
      rintro rfl
      cases hclean
    simpa only [createStep, hpc, Option.isSome_map] using hread
  case insert =>
    obtain ⟨id, hid⟩ := db.exists_unused
    refine ⟨.inserted id .ok, rfl, ?_⟩
    simp only [createStep, hpc, hid, ne_eq, not_true_eq_false, if_false]
    split_ifs <;> rfl
  case findRaced =>
    refine ⟨.found, rfl, ?_⟩
    simp only [createStep, hpc]
    split <;> rfl
  case check => exact ⟨.screened, rfl, by simp only [createStep, hpc, Option.isSome_some]⟩
  case reject | approve =>
    obtain ⟨s, hs, -⟩ := findById_of_idOf hok.1
    refine ⟨.written .ok, rfl, ?_⟩
    simp only [createStep, hpc, Db.canCommit, hs, Option.isSome_some, Bool.not_true]
    rfl

theorem owner_step (h : step cfg σ ev = some σ')
    (hI : ∀ c ∈ σ.creates, ∀ k, c.pc.held = some k → σ.db.idOf c.dto.instructionId = some k) :
    ∀ c ∈ σ'.creates, ∀ k, c.pc.held = some k → σ'.db.idOf c.dto.instructionId = some k := by
  intro c' hc' k hheld
  obtain ⟨op, -, hdb⟩ := step_db h
  obtain ⟨i, hi⟩ := List.mem_iff_getElem?.mp hc'
  rcases step_create h hi with hfind | hold | ⟨e, c, out, rfl, hc, hout, rfl, rfl⟩
  · rw [hfind] at hheld
    cases hheld
  · rw [hdb]
    exact idOf_mono (hI c' (List.mem_of_getElem? hold) k hheld)
  · cases createStep_holds hout with
    | keep _ hkeep =>
      refine idOf_mono (hI c (List.mem_of_getElem? hc) k ?_)
      rw [← hkeep]
      exact hheld
    | @insert id db' _ hpc hnew hpc' hop =>
      obtain rfl : id = k := by
        rw [show ({ c with pc := out.pc } : CreateCall).pc = out.pc from rfl, hpc'] at hheld
        exact Option.some.inj hheld
      rw [State.afterCreate, hop, DbOp.apply, hnew, Option.getD_some]
      exact (idOf_of_create hnew).2
    | reject _ hnone => cases hnone.symm.trans hheld
    | approve _ hnone => cases hnone.symm.trans hheld

theorem owner_reach {base opening : ℕ} {C : State → Event → Prop}
    (h : RailReach cfg C base opening σ) : ∀ c ∈ σ.creates, ∀ k, c.pc.held = some k →
      σ.db.idOf c.dto.instructionId = some k :=
  h.invariant (fun c hc => by cases hc) fun _ _ _ _ hI _ hs => owner_step hs hI

theorem asked_owner {i : ℕ} (howner : ∀ c ∈ σ.creates, ∀ k, c.pc.held = some k →
    σ.db.idOf c.dto.instructionId = some k) (hcall : σ.creates[i]? = some call)
    (hout : createStep cfg.compliance σ.db σ.now call e = some out) (henq : out.enqueue = some k) :
    σ.db.idOf call.dto.instructionId = some k := by
  have hmem := List.mem_of_getElem? hcall
  cases createStep_holds hout with
  | keep _ _ hnone => rw [hnone] at henq; cases henq
  | insert _ _ _ _ hnone => rw [hnone] at henq; cases henq
  | reject _ _ _ hnone => rw [hnone] at henq; cases henq
  | @approve id o _ hpc _ _ hsome =>
    rw [hsome] at henq
    refine howner call hmem k ?_
    rw [hpc]
    cases o with
    | ok => exact henq
    | lost | ambiguous => cases henq

theorem ledger_create {i : ℕ} (hw : Writes σ (.create i e) op) :
    (op.apply σ.now σ.db).ledgerEntries = σ.db.ledgerEntries := by
  cases hw with
  | idle => rfl
  | insert _ _ hnew =>
    rw [DbOp.apply, hnew, Option.getD_some]
    exact (Db.create_frame hnew).1
  | reject | approve => exact ledgerEntries_transition

theorem inFlight_create {i : ℕ} (hc : Custody σ) (hw : Writes σ (.create i e) op)
    (hnew : op.created σ.db = []) : (op.apply σ.now σ.db).sumByStatuses inFlightStatuses ≤
      σ.db.sumByStatuses inFlightStatuses := by
  rw [Db.sumByStatuses, Db.sumByStatuses, sumBy_apply, hnew, List.map_nil, List.sum_nil,
    Nat.add_zero]
  refine Table.sumBy_le fun s hs => ?_
  rw [onRow_amount]
  rcases hw.onRow_cases hc (Db.findById_of_mem hs) with heq | heq | hrec
  · rw [heq]
  · rw [heq]
    rfl
  · rw [if_pos (received_inFlight hrec)]
    split_ifs
    · exact le_rfl
    · exact Nat.zero_le _

theorem idOf_other {i : ℕ} (instructionId : String) (hcall : σ.creates[i]? = some call)
    (hother : call.dto.instructionId ≠ instructionId) (hw : Writes σ (.create i e) op) :
    (op.apply σ.now σ.db).idOf instructionId = σ.db.idOf instructionId := by
  have hnone : ((op.created σ.db).find? fun s => s.instructionId = instructionId) = none := by
    rw [List.find?_eq_none]
    intro s hs heq
    obtain ⟨-, rfl, -⟩ := created_spec hs
    cases hw with
    | insert hcall' =>
      obtain rfl := Option.some.inj (hcall'.symm.trans hcall)
      exact hother (of_decide_eq_true heq)
  rw [idOf_apply, hnone, Option.map_none, Option.or_none]

end Rail
