import SettlementRail.Lifecycle.StatusEdges

/-! The outbox against the audit trail. Both are written in the transaction of the status change, so
the outbox is the audit trail less the changes nobody is told of, and its reader knows the statuses. -/

namespace Rail
open Foundation

/-- The outbox row that tells of a status change: the change, with the columns of its settlement. -/
def Db.announcement (db : Db) (t : StatusTransition) : Option OutboxEvent :=
  (db.findById t.settlementId).bind fun s =>
    (outboxEventType t.toStatus).map fun type =>
      { settlementId := t.settlementId
        type
        instructionId := s.instructionId
        status := t.toStatus
        amount := s.amount
        toAddress := s.toAddress
        txHash := t.txHash }

/-- What a reader of the events knows of a settlement: the status announced last. -/
def knownStatus (events : List OutboxEvent) (id : SettlementId) : Option SettlementStatus :=
  (events.filter fun e => e.settlementId = id).getLast?.map OutboxEvent.status

def SettlementStatus.announced (status : SettlementStatus) : Bool :=
  (outboxEventType status).isSome

structure Db.Announces (db : Db) : Prop where
  owned : ∀ t ∈ db.statusTransitions, (db.findById t.settlementId).isSome
  outbox : db.outboxEvents = db.statusTransitions.filterMap db.announcement
  trail : ∀ id s, db.findById id = some s → id ≠ 0 →
    Follows (fun _ _ => True) .received (db.trail id) s.status
  unsent : ∀ id s, db.findById id = some s → s.status.announced = false →
    ∀ m ∈ db.trail id, m.2.announced = false

variable {cfg : Config} {σ σ' : State} {ev : Event} {op : DbOp} {s : Settlement}
variable {db : Db} {now : ℕ} {id : SettlementId} {toStatus : SettlementStatus}
variable {opts : TransitionOptions}

theorem Writes.txHash_kept (hw : Writes σ ev (.transition id toStatus opts)) (hc : Custody σ) :
    opts.txHash ≠ some none := by
  have walked : ∀ {i : ℕ} {call : ListenCall} {t : Settlement}, σ.listeners[i]? = some call →
      t ∈ call.pc.rows → some t.txHash ≠ some none := by
    intro i call t hcall ht heq
    have hsome := (hc.walked t (.listener (List.mem_of_getElem? hcall) ht)).2
    rw [Option.some.inj heq] at hsome
    cases hsome
  cases hw with
  | confirm hcall hpc => exact walked hcall (by simp [hpc, ListenPc.rows])
  | flip hcall hpc => exact walked hcall (by simp [hpc, ListenPc.rows])
  | _ => simp [rejectOptions, submittedOptions, failOptions, revertOptions, reorgOptions]

theorem Writes.verdict_or_announced (hw : Writes σ ev (.transition id toStatus opts))
    (hc : Custody σ) (hs : σ.db.findById id = some s) :
    s.status = .received ∨ toStatus.announced = true := by
  have received : ∀ {i : ℕ} {call : CreateCall}, σ.creates[i]? = some call →
      call.pc.held = some id → s.status = .received := by
    intro i call hcall hheld
    obtain ⟨r, hr, hrec⟩ := hc.held call (List.mem_of_getElem? hcall) id hheld
    rw [hs] at hr
    cases hr
    exact hrec
  cases hw with
  | reject hcall hpc => exact .inl (received hcall (by rw [hpc]; rfl))
  | approve hcall hpc => exact .inl (received hcall (by rw [hpc]; rfl))
  | _ => exact .inr rfl

theorem Db.announcement_apply {t : StatusTransition} (h : (db.findById t.settlementId).isSome) :
    (op.apply now db).announcement t = db.announcement t := by
  obtain ⟨s, hs⟩ := Option.isSome_iff_exists.mp h
  simp only [announcement, findById_apply hs, hs, Option.bind_some, onRow_instructionId,
    onRow_amount, onRow_toAddress]

theorem Writes.emitted_eq (hw : Writes σ ev op) (hc : Custody σ) :
    op.emitted σ.now σ.db =
      (op.audited σ.db).filterMap (op.apply σ.now σ.db).announcement := by
  cases op with
  | transition id toStatus opts =>
    rcases hs : σ.db.findById id with _ | s
    · simp only [DbOp.emitted, DbOp.audited, hs, List.filterMap_nil]
    · by_cases hallow : opts.allows s.status = true
      · have hkept := hw.txHash_kept hc
        -- the audit row and the row it is about take the hash alike, as none is ever erased
        have hhash : (s.withTransition toStatus opts σ.now).txHash =
            (opts.txHash.getD none).or s.txHash := by
          rcases h : opts.txHash with _ | (_ | txHash)
          · simp [Settlement.withTransition, h]
          · exact absurd h hkept
          · simp [Settlement.withTransition, h]
        simp only [DbOp.emitted, DbOp.audited, hs, hallow, if_true, hhash, List.filterMap_cons,
          List.filterMap_nil, Db.announcement, findById_apply hs, Option.bind_some,
          onRow_instructionId, onRow_amount, onRow_toAddress]
        rcases outboxEventType toStatus with _ | type <;> rfl
      · simp [DbOp.emitted, DbOp.audited, hs, hallow]
  | _ => rfl

theorem Db.Announces.trail_of_none (hI : db.Announces) (hnone : db.findById id = none) :
    db.trail id = [] := by
  simp only [Db.trail, List.map_eq_nil_iff, List.filter_eq_nil_iff, decide_eq_true_eq]
  intro t ht hid
  have := hI.owned t ht
  simp [hid, hnone] at this

theorem announces_step (hc : Custody σ) (hI : σ.db.Announces) (h : step cfg σ ev = some σ') :
    σ'.db.Announces := by
  obtain ⟨op, hw, hdb⟩ := step_db h
  rw [hdb]
  refine ⟨fun t ht => ?_, ?_, fun id s' hs' hne => ?_, fun id s' hs' hquiet => ?_⟩
  · rw [statusTransitions_apply, List.mem_append] at ht
    have hsome : (σ.db.findById t.settlementId).isSome := by
      rcases ht with ht | ht
      · exact hI.owned t ht
      · obtain ⟨s, -, hs, -⟩ := Db.findById_of_mem_audited ht
        simp [hs]
    obtain ⟨s, hs⟩ := Option.isSome_iff_exists.mp hsome
    simp [findById_apply hs]
  · have hold : σ.db.statusTransitions.filterMap (op.apply σ.now σ.db).announcement =
        σ.db.statusTransitions.filterMap σ.db.announcement :=
      List.filterMap_congr fun t ht => Db.announcement_apply (hI.owned t ht)
    rw [outboxEvents_apply, statusTransitions_apply, List.filterMap_append, hold, ← hI.outbox,
      hw.emitted_eq hc]
  · rcases findById_apply_cases hs' with ⟨s, hs, rfl⟩ | ⟨hnone, rfl, rfl⟩
    · rcases Db.trail_onRow σ.now op hs with
        ⟨htrail, hst⟩ | ⟨toStatus, opts, rfl, hallow, htrail, hst⟩ <;> rw [htrail, hst]
      · exact hI.trail id s hs hne
      · exact (hI.trail id s hs hne).snoc trivial
    · rw [Db.trail_apply, hI.trail_of_none hnone]
      cases hw
      rfl
  · rcases findById_apply_cases hs' with ⟨s, hs, rfl⟩ | ⟨hnone, rfl, rfl⟩
    · rcases Db.trail_onRow σ.now op hs with
        ⟨htrail, hst⟩ | ⟨toStatus, opts, rfl, hallow, htrail, hst⟩ <;> rw [htrail]
      · exact hI.unsent id s hs (by rwa [hst] at hquiet)
      · rw [hst] at hquiet
        -- a change nobody is told of is a verdict, and nothing was told before a verdict
        have hrec : s.status = .received := by
          rcases hw.verdict_or_announced hc hs with hrec | htold
          · exact hrec
          · rw [hquiet] at htold
            cases htold
        have hbefore := hI.unsent id s hs (by rw [hrec]; rfl)
        intro m hm
        rcases List.mem_append.mp hm with hm | hm
        · exact hbefore m hm
        · rw [List.mem_singleton.mp hm]
          exact hquiet
    · rw [Db.trail_apply, hI.trail_of_none hnone]
      intro m hm
      cases hm

theorem announces_initial (cfg : Config) (base opening : ℕ) :
    (initial cfg base opening).db.Announces := by
  refine ⟨?_, rfl, fun id s hs hne => absurd (findById_initial hs).2 hne, fun id s _ _ m hm => ?_⟩
  · simp [statusTransitions_initial]
  · cases hm

theorem announces_reach {C : State → Event → Prop} {base opening : ℕ}
    (h : RailReach cfg C base opening σ) : σ.db.Announces :=
  h.invariant (announces_initial cfg base opening)
    fun _ _ _ hr hI _ hs => announces_step (custody_reach hr) hI hs

theorem settlementId_of_announcement {t : StatusTransition} {e : OutboxEvent}
    (h : db.announcement t = some e) :
    e.settlementId = t.settlementId ∧ e.status = t.toStatus := by
  obtain ⟨s, -, h⟩ := Option.bind_eq_some_iff.mp h
  obtain ⟨type, -, rfl⟩ := Option.map_eq_some_iff.mp h
  exact ⟨rfl, rfl⟩

theorem Db.Announces.events_of (hI : db.Announces) (id : SettlementId) :
    (db.outboxEvents.filter fun e => e.settlementId = id) =
      (db.statusTransitions.filter fun t => t.settlementId = id).filterMap db.announcement := by
  rw [hI.outbox, List.filter_filterMap, List.filterMap_filter]
  refine List.filterMap_congr fun t _ => ?_
  rcases h : db.announcement t with _ | e
  · simp
  · rw [Option.filter_some, (settlementId_of_announcement h).1]

theorem Db.announcement_isSome {t : StatusTransition} (hs : db.findById t.settlementId = some s) :
    (db.announcement t).isSome = t.toStatus.announced := by
  rw [announcement, hs, Option.bind_some, Option.isSome_map, SettlementStatus.announced]

theorem Db.Announces.knownStatus_eq (hI : db.Announces) (hne : id ≠ 0)
    (hs : db.findById id = some s) :
    knownStatus db.outboxEvents id = if s.status.announced then some s.status else none := by
  have hwalk := (hI.trail id s hs hne).last_eq
  rw [knownStatus, hI.events_of]
  split_ifs with htold
  · rcases List.eq_nil_or_concat (db.statusTransitions.filter fun t => t.settlementId = id) with
      hnil | ⟨before, t, hlast⟩
    · rw [Db.trail, hnil] at hwalk
      rw [← hwalk] at htold
      cases htold
    · rw [List.concat_eq_append] at hlast
      have ht : t.settlementId = id := by
        have hmem : t ∈ db.statusTransitions.filter fun t => t.settlementId = id := by
          rw [hlast]
          exact List.mem_append_right _ List.mem_cons_self
        exact of_decide_eq_true (List.mem_filter.mp hmem).2
      -- the trail ends in the present status
      have hto : t.toStatus = s.status := by
        rw [Db.trail, hlast, List.map_append, List.map_cons, List.map_nil] at hwalk
        simpa using hwalk
      have hsome : (db.announcement t).isSome := by
        rw [announcement_isSome (ht ▸ hs), hto, htold]
      obtain ⟨e, he⟩ := Option.isSome_iff_exists.mp hsome
      rw [hlast, List.filterMap_append, List.filterMap_cons, he, List.filterMap_nil,
        List.getLast?_concat, Option.map_some, (settlementId_of_announcement he).2, hto]
  · have hquiet := hI.unsent id s hs (Bool.eq_false_iff.mpr htold)
    have hnil : (db.statusTransitions.filter fun t => t.settlementId = id).filterMap
        db.announcement = [] := by
      refine List.filterMap_eq_nil_iff.mpr fun t ht => ?_
      have hid : t.settlementId = id := of_decide_eq_true (List.mem_filter.mp ht).2
      have hto := hquiet _ (List.mem_map_of_mem ht)
      rw [← Option.not_isSome_iff_eq_none, announcement_isSome (hid ▸ hs), hto]
      exact Bool.false_ne_true
    rw [hnil]
    rfl

/-- In every state of every run, whoever has read the outbox to its end knows the status of every
settlement that ever left approval, and the payloads are true of the rows they tell of. -/
theorem outbox_tells_statuses {C : State → Event → Prop} {base opening : ℕ}
    (h : RailReach cfg C base opening σ) :
    σ.db.outboxEvents = σ.db.statusTransitions.filterMap σ.db.announcement ∧
      ∀ id s, id ≠ 0 → σ.db.findById id = some s →
        knownStatus σ.db.outboxEvents id =
          if s.status.announced then some s.status else none :=
  ⟨(announces_reach h).outbox, fun _ _ hne hs => (announces_reach h).knownStatus_eq hne hs⟩

theorem settled_payout_announced :
    ∃ σ, RailReach (plainConfig 3) (fun _ _ => True) 7 100 σ ∧
      ((σ.db.findById 1).any fun s => s.status = .final) = true ∧
      knownStatus σ.db.outboxEvents 1 = some .final := by
  obtain ⟨σ, hr, hfinal⟩ := exists_reach_of_run (step (plainConfig 3))
    (initial (plainConfig 3) 7 100) settleEvents
    (fun σ => (σ.db.findById 1).any fun s => s.status = .final) (by decide +kernel)
  refine ⟨σ, hr, hfinal, ?_⟩
  obtain ⟨s, hs, hstatus⟩ := (Option.any_eq_true _ _).mp hfinal
  rw [(outbox_tells_statuses hr).2 1 s Nat.one_ne_zero hs, of_decide_eq_true hstatus]
  rfl

end Rail
