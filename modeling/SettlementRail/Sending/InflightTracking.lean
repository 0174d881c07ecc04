import SettlementRail.Foundation.HistoryVariables
import SettlementRail.System.Custody
import SettlementRail.System.InflightMoves
import SettlementRail.System.Scenario

/-! What the inflight map may hold. The sweep removes the entry of a mined settlement only while
the row is in SUBMITTED; the listener knows nothing of the map. -/

namespace Rail
open Foundation

variable {cfg : Config} {σ σ' : State} {ev : Event} {receipts receipts' : List SettlementId}
variable {id : SettlementId} {s : Settlement}

def SweepPc.readMined (node : Node) : SweepPc → SweepEvent → Option SettlementId
  | .receipt s _, .receipt =>
    if (s.txHash.bind node.getTransactionReceipt).isSome then some s.id else none
  | _, _ => none

/-- The settlements for which the latest sweep has read a receipt. -/
def readReceipts (σ : State) (ev : Event) (receipts : List SettlementId) : List SettlementId :=
  match ev with
  | .startSweep => []
  | .sweep e => (σ.relayer.sweep.bind fun pc => pc.readMined σ.node e).toList ++ receipts
  | _ => receipts

def watchedStep (cfg : Config) : State × List SettlementId → Event →
    Option (State × List SettlementId) := withHistory (step cfg) readReceipts

def Db.isSubmitted (db : Db) (id : SettlementId) : Bool :=
  (db.findById id).any fun s => s.status = .submitted

def Relayer.queueDepth (r : Relayer) : ℕ := r.queue.length + r.inflight.length

def State.notYetMined (σ : State) (receipts : List SettlementId) : List Settlement :=
  (σ.db.findByStatuses [.submitted]).filter fun s => s.id ∉ receipts

def State.tracked (σ : State) (id : SettlementId) : Bool := (σ.relayer.inflight.get id).isSome

/-- The map holds the settlements not yet mined and nothing else, each once. -/
structure TrackingExact (σ : State) (receipts : List SettlementId) : Prop where
  keys_nodup : (σ.relayer.inflight.map InflightTx.settlementId).Nodup
  notYetMined : ∀ info ∈ σ.relayer.inflight,
    ∃ s ∈ σ.notYetMined receipts, s.id = info.settlementId
  tracked : ∀ s ∈ σ.notYetMined receipts, σ.tracked s.id = true
  queueDepth_eq : σ.relayer.queueDepth = σ.relayer.queue.length + (σ.notYetMined receipts).length

def State.recording (σ : State) : Option SettlementId :=
  match σ.relayer.worker with
  | some (id, .writeSubmitted _) => some id
  | _ => none

def State.leaving (σ : State) : Event → Option SettlementId
  | .job (.written o) =>
    match σ.relayer.worker with
    | some (id, .fail _ _) => if o.committed then some id else none
    | _ => none
  | .sweep (.written o) =>
    match σ.relayer.sweep with
    | some (.fail s _ _ _) => if o.committed then some s.id else none
    | _ => none
  | .recover .written =>
    match σ.relayer.recovery with
    | .fail s _ => some s.id
    | _ => none
  | .listen i (.written o) =>
    match σ.listeners[i]?.map ListenCall.pc with
    | some (.revert s _ _) | some (.confirm s _ _ _) | some (.flip s _ _ _) =>
      if o.committed then some s.id else none
    | _ => none
  | _ => none

/-- No committed write takes a tracked settlement out of SUBMITTED. -/
def State.LeavesUntracked (σ : State) (ev : Event) : Prop :=
  ∀ id ∈ σ.leaving ev, σ.db.isSubmitted id = true → σ.tracked id = true →
    σ.recording = some id

/-- An entry is set for a settlement of which the sweep under way has read no receipt, and by the
sweep or the recovery only while the row is in SUBMITTED. -/
def SetsUnread (p : State × List SettlementId) (ev : Event) : Prop :=
  ∀ id ∈ p.1.tracking ev, (p.1.relayer.sweep.isSome = true → id ∉ p.2) ∧
    (ev.isJob = false → p.1.recording = some id ∨ p.1.db.isSubmitted id = true)

/-- The settlement for which a committed write stores a transaction, or SUBMITTED once more. -/
def State.storing (σ : State) : Event → Option SettlementId
  | .job (.written o) =>
    match σ.relayer.worker with
    | some (id, .writeSubmitted _) => if o.committed then some id else none
    | _ => none
  | .sweep (.written o) =>
    match σ.relayer.sweep with
    | some (.recordResend s _ _) => if o.committed then some s.id else none
    | _ => none
  | .listen i (.written o) =>
    match σ.listeners[i]?.map ListenCall.pc with
    | some (.reorg s _ _) =>
      if o.committed && (σ.db.findById s.id).any fun r => reorgOptions.allows r.status then
        some s.id
      else none
    | _ => none
  | _ => none

/-- The rows that the sweep or the recovery under way has still before it. -/
def State.ahead (σ : State) : List Settlement :=
  SweepPc.rowsOf σ.relayer.sweep ++ σ.relayer.recovery.rows

/-- Such a write finds the entry in the map; a job or the listener makes it only for a settlement
that no walk has still before it. -/
def State.StoresTracked (σ : State) (ev : Event) : Prop :=
  ∀ id ∈ σ.storing ev, σ.tracked id = true ∧
    (ev.ofSweep = false → id ∉ σ.ahead.map Settlement.id)

def Node.hasReceipt (node : Node) (s : Settlement) : Bool :=
  (s.txHash.bind node.getTransactionReceipt).isSome

/-- A reorganisation takes the stored transaction of a settlement in SUBMITTED out of the chain
only while the settlement is tracked. -/
def State.KeepsMined (σ : State) : Event → Prop
  | .newHead drop blocks => ∀ s ∈ σ.db.findByStatuses [.submitted], σ.node.hasReceipt s = true →
    σ.tracked s.id = true ∨ (σ.node.withHead drop blocks).hasReceipt s = true
  | _ => True

def SweepPc.asking : SweepPc → Option Settlement
  | .receipt s _ => some s
  | _ => none

/-- Sweeps and the shutdown begin after the recovery, and a sweep asks for no receipt of a
settlement that waits for a job or has one. -/
def State.SweepsAlone (σ : State) : Event → Prop
  | .startSweep | .drain => σ.relayer.recovery = .done
  | .sweep .receipt => ∀ s ∈ σ.relayer.sweep.bind SweepPc.asking, s.id ∉ σ.relayer.jobs
  | _ => True

def KeepsTracked (p : State × List SettlementId) (ev : Event) : Prop :=
  p.1.LeavesUntracked ev ∧ SetsUnread p ev ∧ p.1.StoresTracked ev ∧ p.1.KeepsMined ev ∧
    p.1.SweepsAlone ev

instance (σ : State) (ev : Event) : Decidable (σ.LeavesUntracked ev) :=
  inferInstanceAs (Decidable (∀ _ ∈ _, _ → _ → _))

instance (p : State × List SettlementId) (ev : Event) : Decidable (SetsUnread p ev) :=
  inferInstanceAs (Decidable (∀ _ ∈ _, _))

instance (σ : State) (ev : Event) : Decidable (σ.StoresTracked ev) :=
  inferInstanceAs (Decidable (∀ _ ∈ _, _))

instance keepsMinedDecidable (σ : State) (ev : Event) : Decidable (σ.KeepsMined ev) :=
  match ev with
  | .newHead _ _ => inferInstanceAs (Decidable (∀ _ ∈ _, _ → _))
  | .boot | .crash | .drain | .tick _ | .submit _ | .create _ _ | .job _ | .startSweep | .sweep _
  | .recover _ | .startPoll | .transferEvent _ | .listen _ _ | .dvpCall _ | .dvp _ _ | .dropTx _ =>
    inferInstanceAs (Decidable True)

instance sweepsAloneDecidable (σ : State) (ev : Event) : Decidable (σ.SweepsAlone ev) :=
  match ev with
  | .startSweep | .drain => inferInstanceAs (Decidable (_ = _))
  | .sweep .receipt => inferInstanceAs (Decidable (∀ _ ∈ _, _))
  | .sweep .found | .sweep .txLookup | .sweep (.feeData _) | .sweep (.estimated _)
  | .sweep (.sent _) | .sweep (.written _) | .sweep .callError
  | .boot | .crash | .tick _ | .submit _ | .create _ _ | .job _ | .recover _ | .startPoll
  | .transferEvent _ | .listen _ _ | .dvpCall _ | .dvp _ _ | .dropTx _ | .newHead _ _ =>
    inferInstanceAs (Decidable True)

instance (p : State × List SettlementId) (ev : Event) : Decidable (KeepsTracked p ev) :=
  inferInstanceAs (Decidable (_ ∧ _ ∧ _ ∧ _ ∧ _))

def DbOutcome.isOk {ε : Type} : DbOutcome ε → Bool
  | .ok => true
  | .lost _ | .ambiguous _ => false

def Event.errorFree : Event → Bool
  | .create _ (.inserted _ o) | .create _ (.written o) | .listen _ (.written o) => o.isOk
  | .job (.written o) | .sweep (.written o) => o.isOk
  | .job (.sent o) | .sweep (.sent o) | .dvp _ (.sent _ _ o) => o = .accepted none
  | .job (.estimated est) | .sweep (.estimated est) => est.isSome
  | .create _ .dbError | .job .callError | .sweep .callError | .listen _ .callError
  | .dvp _ .callError => false
  | _ => true

theorem Db.isSubmitted_iff {db : Db} :
    db.isSubmitted id = true ↔ ∃ s, db.findById id = some s ∧ s.status = .submitted := by
  unfold isSubmitted
  rcases db.findById id with _ | s <;> simp

theorem Writes.stays_submitted {op : DbOp} (hw : Writes σ ev op) (hc : Custody σ)
    (hs : σ.db.findById s.id = some s) (hstatus : s.status = .submitted)
    (hleaves : σ.leaving ev ≠ some s.id) : (op.onRow σ.now s).status = .submitted := by
  have heldNot : ∀ {i : ℕ} {call : CreateCall}, σ.creates[i]? = some call →
      call.pc.held ≠ some s.id := by
    intro i call hcall hheld
    obtain ⟨s', hs', hreceived⟩ := hc.held call (List.mem_of_getElem? hcall) s.id hheld
    rw [hs] at hs'
    cases hs'
    rw [hreceived] at hstatus
    cases hstatus
  cases hw with
  | idle | insert | book => exact hstatus
  | resend => simp only [DbOp.onRow]; split_ifs <;> exact hstatus
  | submitted | reorg =>
    rcases onRow_transition_cases σ.now s _ .submitted _ with heq | ⟨-, -, heq⟩ <;> rw [heq]
    · exact hstatus
    · rfl
  | @reject i call k reason o r hcall hpc =>
    rw [onRow_of_ne]
    · exact hstatus
    · rintro rfl
      exact heldNot hcall (by rw [hpc]; rfl)
  | @approve i call k o r hcall hpc =>
    rw [onRow_of_ne]
    · exact hstatus
    · rintro rfl
      exact heldNot hcall (by rw [hpc]; rfl)
  | jobFail hworker hrow ho =>
    rw [onRow_of_ne]
    · exact hstatus
    · rintro rfl
      exact hleaves (by simp only [State.leaving, hworker, ho, if_true])
  | sweepFail hsweep hrow ho =>
    rw [onRow_of_ne]
    · exact hstatus
    · intro hid
      exact hleaves (by simp only [State.leaving, hsweep, ho, if_true, hid])
  | recoveryFail hrecovery =>
    rw [onRow_of_ne]
    · exact hstatus
    · intro hid
      exact hleaves (by simp only [State.leaving, hrecovery, hid])
  | revert hcall hpc hrow ho | confirm hcall hpc hrow ho | flip hcall hpc hrow ho =>
    rw [onRow_of_ne]
    · exact hstatus
    · intro hid
      exact hleaves (by simp only [State.leaving, hcall, Option.map_some, hpc, ho, if_true, hid])

theorem recording_eq (h : σ.recording = some id) :
    ∃ v, σ.relayer.worker = some (id, .writeSubmitted v) := by
  unfold State.recording at h
  split at h
  · rename_i k v hworker
    cases h
    exact ⟨v, hworker⟩
  · cases h

theorem written_submitted {v : JobVars} {o : DbOutcome TxError}
    (hworker : σ.relayer.worker = some (id, .writeSubmitted v)) (ho : o.committed = true)
    (h : step cfg σ (.job (.written o)) = some σ') : σ'.db.isSubmitted id = true := by
  cases stepsTo h with
  | @job k pc e out hworker' hout =>
    rw [hworker] at hworker'
    cases hworker'
    simp only [jobStep] at hout
    split_ifs at hout with hcan
    rw [Bool.not_eq_true', Bool.not_eq_false] at hcan
    obtain ⟨s, hs⟩ := Db.exists_of_canCommit hcan ho
    have hdb : out.db = .transition id .submitted (submittedOptions v) := by
      cases o with
      | ok | ambiguous => cases hout; rfl
      | lost => cases ho
    have hrow : (σ.afterJob id out).db.findById id =
        some (s.withTransition .submitted (submittedOptions v) σ.now) := by
      show (out.db.apply σ.now σ.db).findById id = _
      rw [hdb, findById_apply hs, onRow_transition_of (Db.id_of_findById hs) rfl]
    exact Db.isSubmitted_iff.mpr ⟨_, hrow, rfl⟩

theorem submitted_step (hc : Custody σ) (h : step cfg σ ev = some σ') (hcrash : ev ≠ .crash)
    (hclean : ev.errorFree = true)
    (hleaving : σ.leaving ev = some id → σ.db.isSubmitted id = true → σ.recording = some id)
    (hI : σ.recording = some id ∨ σ.db.isSubmitted id = true) :
    σ'.recording = some id ∨ σ'.db.isSubmitted id = true := by
  by_cases hrec : σ.recording = some id
  · obtain ⟨v, hworker⟩ := recording_eq hrec
    rcases step_worker_of h hworker with heq | hsame | ⟨e, rfl, hjob⟩
    · exact absurd heq hcrash
    · left
      simp only [State.recording, hsame]
    · -- the SUBMITTED write is answered, and it was not lost
      right
      have hanswered : ∃ o, e = .written o := by
        cases stepsTo h with
        | job hworker' hout =>
          rw [hworker] at hworker'
          cases hworker'
          cases e <;> simp only [jobStep, reduceCtorEq] at hout
          exact ⟨_, rfl⟩
      obtain ⟨o, rfl⟩ := hanswered
      refine written_submitted hworker ?_ h
      cases o with
      | ok | ambiguous => rfl
      | lost err => cases hclean
  · have hsub : σ.db.isSubmitted id = true := hI.resolve_left hrec
    obtain ⟨s, hs, hstatus⟩ := Db.isSubmitted_iff.mp hsub
    obtain ⟨op, hw, hdb⟩ := step_db h
    have hid := Db.id_of_findById hs
    right
    refine Db.isSubmitted_iff.mpr ⟨op.onRow σ.now s, by rw [hdb]; exact findById_apply hs, ?_⟩
    exact hw.stays_submitted hc (hid ▸ hs) hstatus
      fun hl => hrec (hleaving (hid ▸ hl) hsub)

structure TrackingInv (σ : State) (receipts : List SettlementId) : Prop where
  keys : (σ.relayer.inflight.map InflightTx.settlementId).Nodup
  tracked : ∀ info ∈ σ.relayer.inflight,
    σ.recording = some info.settlementId ∨ σ.db.isSubmitted info.settlementId = true
  unread : σ.relayer.sweep.isSome = true →
    ∀ info ∈ σ.relayer.inflight, info.settlementId ∉ receipts
  ahead : ((SweepPc.rowsOf σ.relayer.sweep).map Settlement.id).Nodup
  apart : ∀ s ∈ SweepPc.rowsOf σ.relayer.sweep, s.id ∉ receipts
  starts : σ.relayer.sweep = some .find → receipts = []

theorem readReceipts_of_ne (hev : ev.ofSweep = false) :
    readReceipts σ ev receipts = receipts := by
  unfold readReceipts
  split
  · cases hev
  · cases hev
  · rfl

theorem mem_readReceipts_sweep {pc : SweepPc} {e : SweepEvent}
    (hsweep : σ.relayer.sweep = some pc) :
    id ∈ readReceipts σ (.sweep e) receipts ↔ pc.readMined σ.node e = some id ∨ id ∈ receipts := by
  rw [readReceipts, hsweep, List.mem_append, Option.bind_some, Option.mem_toList]

theorem sweepStep_readMined {rcfg : RelayerConfig} {pc : SweepPc} {e : SweepEvent} {out : SweepOut}
    {inflight : Inflight} (hread : pc.readMined σ.node e = some id)
    (hout : sweepStep rcfg σ.db σ.node σ.now inflight pc e = some out) :
    ∃ s rest, pc.rows = s :: rest ∧ s.id = id ∧ out.pc = sweepNext rest ∧
      out.inflight = inflight.delete id := by
  unfold SweepPc.readMined at hread
  split at hread
  · rename_i s rest
    split_ifs at hread with hreceipt
    cases hread
    simp only [sweepStep, hreceipt, if_true] at hout
    cases hout
    exact ⟨s, rest, rfl, rfl, rfl, rfl⟩
  · cases hread

theorem apart_step {sweep' : Option SweepPc} (hI : TrackingInv σ receipts)
    (hmoves : SweepMoves cfg σ ev sweep') (hs : s ∈ SweepPc.rowsOf sweep') :
    s.id ∉ readReceipts σ ev receipts := by
  cases hmoves with
  | same hev =>
    rw [readReceipts_of_ne hev]
    exact hI.apart s hs
  | start | crash => cases hs
  | @step pc e out hsweep hout =>
    have hahead := hI.ahead
    have hapart := hI.apart
    rw [hsweep] at hahead hapart
    rw [mem_readReceipts_sweep hsweep]
    rintro (hread | hold)
    · obtain ⟨t, rest, hrows, hid, hpc, -⟩ := sweepStep_readMined hread hout
      rw [hpc] at hs
      have hrest : s ∈ rest := (sweepNext_sublist rest).subset hs
      rw [SweepPc.rowsOf, Option.elim, hrows, List.map_cons, List.nodup_cons] at hahead
      exact hahead.1 (List.mem_map.mpr ⟨s, hrest, hid.symm⟩)
    · rcases (sweepStep_goes hout).sublist with hsub | ⟨rfl, -⟩
      · exact hapart s (hsub.subset hs) hold
      · rw [hI.starts hsweep] at hold
        cases hold

theorem starts_step {sweep' : Option SweepPc} (hI : TrackingInv σ receipts)
    (hmoves : SweepMoves cfg σ ev sweep') (hfind : sweep' = some .find) :
    readReceipts σ ev receipts = [] := by
  cases hmoves with
  | same hev =>
    rw [readReceipts_of_ne hev]
    exact hI.starts hfind
  | start => rfl
  | crash => cases hfind
  | step hsweep hout => exact absurd hfind (sweepStep_goes hout).ne_find

theorem unread_step (hc : Custody σ) (hI : TrackingInv σ receipts)
    (hsets : SetsUnread (σ, receipts) ev) (h : step cfg σ ev = some σ')
    (hsweep' : σ'.relayer.sweep.isSome = true ∨ ∃ e, ev = .sweep e) {info : InflightTx}
    (hi : info ∈ σ'.relayer.inflight) : info.settlementId ∉ readReceipts σ ev receipts := by
  have hmoves := step_inflight (fun k pc v hw hv => (hc.worker k pc v hw hv).1) h
  by_cases hev : ∃ e, ev = .sweep e
  · obtain ⟨e, rfl⟩ := hev
    cases stepsTo h with
    | @sweep pc e out hsweep hout =>
      have hsome : σ.relayer.sweep.isSome = true := by rw [hsweep]; rfl
      rw [mem_readReceipts_sweep hsweep]
      rintro (hread | hold)
      · obtain ⟨t, rest, -, -, -, hinflight⟩ := sweepStep_readMined hread hout
        have hi' : info ∈ σ.relayer.inflight.delete info.settlementId := hinflight ▸ hi
        exact (Inflight.mem_delete.mp hi').2 rfl
      · rcases hmoves.mem hi with hmem | hset
        · exact hI.unread hsome info hmem hold
        · exact (hsets _ hset).1 hsome hold
  · by_cases hstart : ev = .startSweep
    · subst hstart
      exact List.not_mem_nil
    · have hother : ev.ofSweep = false := by
        cases ev with
        | sweep e => exact absurd ⟨e, rfl⟩ hev
        | startSweep => exact absurd rfl hstart
        | _ => rfl
      rw [readReceipts_of_ne hother]
      have hsome' : σ'.relayer.sweep.isSome = true := hsweep'.resolve_right hev
      have hsome : σ.relayer.sweep.isSome = true := by
        have hm := step_sweep h
        generalize σ'.relayer.sweep = sweep' at hm hsome'
        cases hm with
        | same => exact hsome'
        | start => exact absurd rfl hstart
        | crash => cases hsome'
        | step => exact absurd ⟨_, rfl⟩ hev
      rcases hmoves.mem hi with hmem | hset
      · exact hI.unread hsome info hmem
      · exact (hsets _ hset).1 hsome

theorem tracked_step (hc : Custody σ) (hI : TrackingInv σ receipts)
    (hleaves : σ.LeavesUntracked ev) (hsets : SetsUnread (σ, receipts) ev)
    (hclean : ev.errorFree = true) (h : step cfg σ ev = some σ') {info : InflightTx}
    (hi : info ∈ σ'.relayer.inflight) :
    σ'.recording = some info.settlementId ∨ σ'.db.isSubmitted info.settlementId = true := by
  have hmoves := step_inflight (fun k pc v hw hv => (hc.worker k pc v hw hv).1) h
  have hcrash : ev ≠ .crash := by
    rintro rfl
    cases stepsTo h
    cases hi
  rcases hmoves.mem hi with hmem | hset
  · refine submitted_step hc h hcrash hclean (fun hl hsub => ?_) (hI.tracked info hmem)
    refine hleaves _ hl hsub ?_
    rw [State.tracked, Inflight.get, List.find?_isSome]
    exact ⟨info, hmem, decide_eq_true rfl⟩
  · rcases tracking_cases hset with ⟨rfl, v, hworker⟩ | ⟨rfl, -⟩ | ⟨rfl, -⟩
    · -- the entry is set by the job that goes on to write SUBMITTED
      left
      cases stepsTo h with
      | job hworker' hout =>
        rw [hworker] at hworker'
        cases hworker'
        simp only [jobStep] at hout
        split_ifs at hout
        cases hout
        rfl
    · exact submitted_step hc h hcrash hclean (fun hl => by cases hl) ((hsets _ hset).2 rfl)
    · exact submitted_step hc h hcrash hclean (fun hl => by cases hl) ((hsets _ hset).2 rfl)

theorem trackingInv_step (hc : Custody σ) (hI : TrackingInv σ receipts)
    (hleaves : σ.LeavesUntracked ev) (hsets : SetsUnread (σ, receipts) ev)
    (hclean : ev.errorFree = true) (h : step cfg σ ev = some σ') :
    TrackingInv σ' (readReceipts σ ev receipts) := by
  have hsweep := step_sweep h
  constructor
  case keys =>
    exact (step_inflight (fun k pc v hw hv => (hc.worker k pc v hw hv).1) h).keys hI.keys
  case tracked => exact fun info hi => tracked_step hc hI hleaves hsets hclean h hi
  case unread => exact fun hsome info hi => unread_step hc hI hsets h (.inl hsome) hi
  case ahead => exact hsweep.nodup hI.ahead
  case apart => exact fun s hs => apart_step hI hsweep hs
  case starts => exact starts_step hI hsweep

theorem trackingInv_reach {base opening : ℕ}
    (h : ReachUnder (watchedStep cfg) (fun p ev => ev.errorFree = true ∧ KeepsTracked p ev)
      (initial cfg base opening, []) (σ, receipts)) : TrackingInv σ receipts := by
  refine h.invariant (I := fun p => TrackingInv p.1 p.2) ?_ ?_
  · exact ⟨List.nodup_nil, fun _ hi => (List.not_mem_nil hi).elim, nofun, List.nodup_nil,
      fun _ hs => (List.not_mem_nil hs).elim, fun _ => rfl⟩
  · rintro p ev p' hr hI ⟨hclean, hleaves, hsets, -⟩ hstep
    obtain ⟨hstep, hmined⟩ := withHistory_eq_some.mp hstep
    have hc : Custody p.1 := custody_reach (C := fun _ _ => True) (hr.forget fun _ _ _ => trivial)
    exact hmined ▸ trackingInv_step hc hI hleaves hsets hclean hstep

end Rail
