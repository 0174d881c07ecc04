import SettlementRail.Payments.PaidIsFound
import SettlementRail.System.BookedFlips

/-! A settlement that only the listener touches, under any number of polls and event handlers at
once, each of which a crash may cut off between its two transactions. -/

namespace Rail
open Foundation

def Event.isListen : Event → Bool
  | .listen .. => true
  | _ => false

/-- Only listener steps touch the row, and its transaction is not on chain with status 0. -/
def OnlyListened (cfg : Config) (id : SettlementId) (σ : State) (ev : Event) : Prop :=
  (ev.isListen = true ∨ ∀ σ' ∈ step cfg σ ev, σ'.db.findById id = σ.db.findById id) ∧
  ∀ s ∈ σ.db.findById id, ∀ r ∈ s.txHash.bind σ.node.getTransactionReceipt, r.success = true

instance (cfg : Config) (id : SettlementId) (σ : State) (ev : Event) :
    Decidable (OnlyListened cfg id σ ev) :=
  inferInstanceAs (Decidable ((_ ∨ ∀ _ ∈ _, _) ∧ ∀ _ ∈ _, ∀ _ ∈ _, _))

/-- SUBMITTED, with no confirmed block, and no listener thread has the row in hand. -/
def State.Untouched (σ : State) (id : SettlementId) : Prop :=
  (∃ s ∈ σ.db.findById id, s.status = .submitted ∧ s.confirmedBlockHash = none) ∧
    ∀ c ∈ σ.listeners, ∀ t ∈ c.pc.rows, t.id ≠ id

instance (σ : State) (id : SettlementId) : Decidable (σ.Untouched id) :=
  inferInstanceAs (Decidable ((∃ _ ∈ _, _) ∧ ∀ _ ∈ _, ∀ _ ∈ _, _))

def State.FinalDepth (cfg : Config) (σ : State) (id : SettlementId) : Prop :=
  ∃ s ∈ σ.db.findById id, ∃ r ∈ s.txHash.bind σ.node.getTransactionReceipt, r.success = true ∧
    (cfg.listener.confirmationsFinal : ℤ) ≤ confirmations σ.node.currentBlock r

instance (cfg : Config) (σ : State) (id : SettlementId) : Decidable (σ.FinalDepth cfg id) :=
  inferInstanceAs (Decidable (∃ _ ∈ _, ∃ _ ∈ _, _))

def Db.finalMoves (db : Db) (id : SettlementId) : ℕ :=
  db.statusTransitions.countP fun t => t.settlementId = id ∧ t.toStatus = .final

def Db.finalEvents (db : Db) (id : SettlementId) : ℕ :=
  db.outboxEvents.countP fun e => e.settlementId = id ∧ e.type = "settlement.final"

def Metric.isGasOf (id : SettlementId) : Metric → Bool
  | .gas k _ => k = id
  | .reorg => false

def State.gasCounts (σ : State) (id : SettlementId) : ℕ := σ.metrics.countP (Metric.isGasOf id)

def State.statusIs (σ : State) (id : SettlementId) (status : SettlementStatus) : Prop :=
  ∃ s, σ.db.findById id = some s ∧ s.status = status

variable {cfg : Config} {σ₀ σ σ' : State} {ev : Event} {op : DbOp} {s t : Settlement}
variable {id : SettlementId} {txHash : TxHash} {db : Db} {now : ℕ}

theorem no_final_trace {k : SettlementId} {toStatus : SettlementStatus} {opts : TransitionOptions}
    (h : k ≠ id ∨ toStatus ≠ .final) :
    ((DbOp.transition k toStatus opts).audited db).countP
        (fun t => t.settlementId = id ∧ t.toStatus = .final) = 0 ∧
      ((DbOp.transition k toStatus opts).emitted now db).countP
        (fun e => e.settlementId = id ∧ e.type = "settlement.final") = 0 := by
  simp only [DbOp.audited, DbOp.emitted]
  split
  · exact ⟨rfl, rfl⟩
  · split_ifs
    · rcases h with h | h
      · refine ⟨by simp [h], ?_⟩
        rw [List.countP_eq_zero]
        intro e he
        obtain ⟨type, -, rfl⟩ := List.mem_map.mp he
        simp [h]
      · refine ⟨by simp [h], ?_⟩
        cases toStatus <;> first | exact absurd rfl h | simp [outboxEventType]
    · exact ⟨rfl, rfl⟩

theorem one_final_trace {opts : TransitionOptions} (hs : db.findById id = some s)
    (hallow : opts.allows s.status = true) :
    ((DbOp.transition id .final opts).audited db).countP
        (fun t => t.settlementId = id ∧ t.toStatus = .final) = 1 ∧
      ((DbOp.transition id .final opts).emitted now db).countP
        (fun e => e.settlementId = id ∧ e.type = "settlement.final") = 1 := by
  simp [DbOp.audited, DbOp.emitted, hs, hallow, outboxEventType]

theorem Writes.final_traces (hw : Writes σ ev op) (hs : σ.db.findById id = some s) :
    (((op.onRow σ.now s).status = .final → s.status = .final) ∧
        (op.apply σ.now σ.db).finalMoves id = σ.db.finalMoves id ∧
        (op.apply σ.now σ.db).finalEvents id = σ.db.finalEvents id) ∨
      s.status ∈ openStatuses ∧ (op.onRow σ.now s).status = .final ∧
        (op.apply σ.now σ.db).finalMoves id = σ.db.finalMoves id + 1 ∧
        (op.apply σ.now σ.db).finalEvents id = σ.db.finalEvents id + 1 := by
  simp only [Db.finalMoves, Db.finalEvents, statusTransitions_apply, outboxEvents_apply,
    List.countP_append]
  cases op with
  | transition k toStatus opts =>
    by_cases hk : k = id ∧ toStatus = .final
    swap
    · obtain ⟨hmoves, hevents⟩ := @no_final_trace id σ.db σ.now k toStatus opts
        (not_and_or.mp hk)
      refine .inl ⟨fun hfinal => ?_, by rw [hmoves, Nat.add_zero], by rw [hevents, Nat.add_zero]⟩
      rcases onRow_transition_cases σ.now s k toStatus opts with heq | ⟨hid, -, heq⟩
      · rwa [heq] at hfinal
      · rw [heq] at hfinal
        exact absurd ⟨hid.symm.trans (Db.id_of_findById hs), hfinal⟩ hk
    obtain ⟨rfl, rfl⟩ := hk
    have hopts : ∃ t, opts = finalOptions t := by
      generalize hop : DbOp.transition k .final opts = op at hw
      cases hw with
      | flip => cases hop; exact ⟨_, rfl⟩
      | _ => cases hop
    obtain ⟨t, rfl⟩ := hopts
    by_cases hallow : (finalOptions t).allows s.status = true
    · obtain ⟨hmoves, hevents⟩ := @one_final_trace s k σ.db σ.now (finalOptions t) hs hallow
      refine .inr ⟨?_, ?_, by rw [hmoves], by rw [hevents]⟩
      · simpa [TransitionOptions.allows, finalOptions, openFrom, openStatuses] using hallow
      · rw [onRow_transition_of (Db.id_of_findById hs) hallow]
        rfl
    · refine .inl ⟨?_, ?_, ?_⟩
      · rw [onRow_transition_of_not fun h => hallow h.2]
        exact id
      · simp [DbOp.audited, hs, hallow]
      · simp [DbOp.emitted, hs, hallow]
  | recordResend =>
    refine .inl ⟨fun hfinal => ?_, rfl, rfl⟩
    simp only [DbOp.onRow] at hfinal
    split_ifs at hfinal <;> exact hfinal
  | none | create | book => exact .inl ⟨fun h => h, rfl, rfl⟩

theorem finalizeMetrics_cases (db : Db) (now : ℕ) (t : Settlement) (receipt : Receipt)
    (o : DbOutcome Unit) : finalizeMetrics db now t receipt o = [] ∨
      o = .ok ∧ (∃ next, db.transitionOutcome now t.id .final (finalOptions t) = .moved next) ∧
        ∃ wei, finalizeMetrics db now t receipt o = [.gas t.id wei] := by
  unfold finalizeMetrics
  split
  · rename_i next hmoved
    exact .inr ⟨rfl, ⟨next, hmoved⟩, _, rfl⟩
  · exact .inl rfl

theorem step_gasCounts (h : step cfg σ ev = some σ') (hs : σ.db.findById id = some s) :
    σ'.gasCounts id = σ.gasCounts id ∨ σ'.gasCounts id = σ.gasCounts id + 1 ∧
      s.status ∈ openStatuses ∧ σ'.statusIs id .final := by
  cases stepsTo h with
  | @listen i e call out hcall hout =>
    have hsum : (σ.afterListen i call out).gasCounts id =
        σ.gasCounts id + out.metrics.countP (Metric.isGasOf id) := List.countP_append
    rw [hsum]
    rcases hpc : call.pc <;> rw [hpc] at hout <;> cases e <;>
      simp only [listenStep, reduceCtorEq] at hout
    case flip.written t receipt head rest o =>
      split_ifs at hout
      cases hout
      rcases finalizeMetrics_cases σ.db σ.now t receipt o with hnil | ⟨rfl, ⟨next, hmoved⟩, wei, hgas⟩
      · exact .inl (by simp [hnil])
      · by_cases hid : t.id = id
        · subst hid
          simp only [Db.transitionOutcome, hs] at hmoved
          split_ifs at hmoved with hallow
          refine .inr ⟨by simp [hgas, Metric.isGasOf], ?_, _, findById_apply hs, ?_⟩
          · simpa [TransitionOptions.allows, finalOptions, openFrom, openStatuses] using hallow
          · rw [DbOutcome.commits, onRow_transition_of (Db.id_of_findById hs) hallow]
            rfl
        · exact .inl (by simp [hgas, Metric.isGasOf, hid])
    case receipt.receipt =>
      cases hout
      left
      unfold afterReceipt
      split <;> simp [Metric.isGasOf]
    case revert.written | reorg.written | confirm.written | book.written =>
      split_ifs at hout
      cases hout
      exact .inl rfl
    case pollFind.found => split at hout <;> cases hout <;> exact .inl rfl
    case eventFind.found =>
      split at hout
      · cases hout
        exact .inl rfl
      · split_ifs at hout <;> cases hout <;> exact .inl rfl
    all_goals cases hout; exact .inl rfl
  | _ => exact .inl rfl

structure Replayed (σ₀ : State) (id : SettlementId) (txHash : TxHash) (σ : State) : Prop where
  row : ∃ s, σ.db.findById id = some s ∧ s.txHash = some txHash ∧
    (s.status = .submitted ∧ s.confirmedBlockHash = none ∨ s.status = .confirmed ∨
      s.status = .final)
  hash : ∀ (i : ℕ) (c : ListenCall), σ.listeners[i]? = some c → ∀ t ∈ c.pc.rows, t.id = id →
    t.txHash = some txHash
  failing : ∀ (i : ℕ) (c : ListenCall) (t : Settlement), σ.listeners[i]? = some c →
    c.pc.reverting = some t → t.id ≠ id
  traces : (σ.statusIs id .final ∧ σ.db.finalMoves id = σ₀.db.finalMoves id + 1 ∧
      σ.db.finalEvents id = σ₀.db.finalEvents id + 1 ∧
      σ.gasCounts id ≤ σ₀.gasCounts id + 1) ∨
    ¬σ.statusIs id .final ∧ σ.db.finalMoves id = σ₀.db.finalMoves id ∧
      σ.db.finalEvents id = σ₀.db.finalEvents id ∧ σ.gasCounts id = σ₀.gasCounts id

inductive ListenWrites (σ : State) (i : ℕ) (s : Settlement) : Settlement → Prop
  | revert {c : ListenCall} {t s' : Settlement} (hc : σ.listeners[i]? = some c)
      (hpc : c.pc.reverting = some t) (hid : s.id = t.id) : ListenWrites σ i s s'
  | reorg : ListenWrites σ i s (s.withTransition .submitted reorgOptions σ.now)
  | confirm {c : ListenCall} {t : Settlement} {r : Receipt} (hc : σ.listeners[i]? = some c)
      (ht : t ∈ c.pc.rows) (hid : s.id = t.id) :
      ListenWrites σ i s (s.withTransition .confirmed (confirmOptions t r) σ.now)
  | flip {c : ListenCall} {t : Settlement} (hc : σ.listeners[i]? = some c)
      (ht : t ∈ c.pc.rows) (hid : s.id = t.id) :
      ListenWrites σ i s (s.withTransition .final (finalOptions t) σ.now)

theorem Writes.listened_row {i : ℕ} {e : ListenEvent} (hw : Writes σ (.listen i e) op)
    (s : Settlement) : op.onRow σ.now s = s ∨
      s.status ∈ openStatuses ∧ ListenWrites σ i s (op.onRow σ.now s) := by
  cases hw with
  | idle | book => exact .inl rfl
  | @revert _ call t head rest o _ hcall hpc =>
    rcases onRow_transition_cases σ.now s t.id .failed revertOptions with heq | ⟨hid, hallow, -⟩
    · exact .inl heq
    · refine .inr ⟨?_, .revert hcall (by rw [hpc]; rfl) hid⟩
      simpa [TransitionOptions.allows, revertOptions, openFrom, openStatuses] using hallow
  | @reorg _ call t head rest o _ hcall hpc =>
    rcases onRow_transition_cases σ.now s t.id .submitted reorgOptions with heq | ⟨-, hallow, heq⟩
    · exact .inl heq
    · have hst : s.status = .confirmed := by
        simpa [TransitionOptions.allows, reorgOptions] using hallow
      exact .inr ⟨by simp [openStatuses, hst], heq ▸ .reorg⟩
  | @confirm _ call t r head rest o _ hcall hpc =>
    rcases onRow_transition_cases σ.now s t.id .confirmed (confirmOptions t r) with
      heq | ⟨hid, hallow, heq⟩
    · exact .inl heq
    · have hst : s.status = .submitted := by
        simpa [TransitionOptions.allows, confirmOptions] using hallow
      have hmem : t ∈ call.pc.rows := by simp [hpc, ListenPc.rows]
      exact .inr ⟨by simp [openStatuses, hst], heq ▸ .confirm hcall hmem hid⟩
  | @flip _ call t r head rest o _ hcall hpc =>
    rcases onRow_transition_cases σ.now s t.id .final (finalOptions t) with heq | ⟨hid, hallow, heq⟩
    · exact .inl heq
    · have hmem : t ∈ call.pc.rows := by simp [hpc, ListenPc.rows]
      refine .inr ⟨?_, heq ▸ .flip hcall hmem hid⟩
      simpa [TransitionOptions.allows, finalOptions, openFrom, openStatuses] using hallow

theorem OnlyListened.row_step (hc : OnlyListened cfg id σ ev) (h : step cfg σ ev = some σ')
    (hs : σ.db.findById id = some s) : σ'.db.findById id = some s ∨
      s.status ∈ openStatuses ∧ ∃ i s', σ'.db.findById id = some s' ∧ ListenWrites σ i s s' := by
  rcases hc.1 with hlisten | hsame
  · obtain ⟨i, e, rfl⟩ : ∃ i e, ev = .listen i e := by
      cases ev <;> first | exact ⟨_, _, rfl⟩ | cases hlisten
    obtain ⟨op, hw, hdb⟩ := step_db h
    have hs' : σ'.db.findById id = some (op.onRow σ.now s) := hdb ▸ findById_apply hs
    rcases hw.listened_row s with heq | ⟨hopen, hwrites⟩
    · exact .inl (by rw [hs', heq])
    · exact .inr ⟨hopen, i, _, hs', hwrites⟩
  · exact .inl ((hsame σ' h).trans hs)

theorem OnlyListened.final_stays (hc : OnlyListened cfg id σ ev) (h : step cfg σ ev = some σ')
    (hfinal : σ.statusIs id .final) : σ'.statusIs id .final := by
  obtain ⟨s, hs, hst⟩ := hfinal
  rcases hc.row_step h hs with hs' | ⟨hopen, -⟩
  · exact ⟨s, hs', hst⟩
  · rw [hst] at hopen
    exact absurd hopen (by decide)

theorem replayed_row (hI : Replayed σ₀ id txHash σ) (hc : OnlyListened cfg id σ ev)
    (h : step cfg σ ev = some σ') : ∃ s, σ'.db.findById id = some s ∧ s.txHash = some txHash ∧
      (s.status = .submitted ∧ s.confirmedBlockHash = none ∨ s.status = .confirmed ∨
        s.status = .final) := by
  obtain ⟨s, hs, hhash, hst⟩ := hI.row
  rcases hc.row_step h hs with hs' | ⟨-, i, s', hs', hwrites⟩
  · exact ⟨s, hs', hhash, hst⟩
  · have hid := Db.id_of_findById hs
    refine ⟨s', hs', ?_⟩
    cases hwrites with
    | revert hcall hpc hsid => exact absurd (hsid.symm.trans hid) (hI.failing i _ _ hcall hpc)
    | reorg => exact ⟨hhash, .inl ⟨rfl, rfl⟩⟩
    | @confirm _ t _ hcall ht hsid =>
      exact ⟨hI.hash i _ hcall t ht (hsid.symm.trans hid), .inr (.inl rfl)⟩
    | @flip _ t hcall ht hsid =>
      exact ⟨hI.hash i _ hcall t ht (hsid.symm.trans hid), .inr (.inr rfl)⟩

theorem replayed_hash {i : ℕ} {c : ListenCall} (hI : Replayed σ₀ id txHash σ)
    (h : step cfg σ ev = some σ') (hcall : σ'.listeners[i]? = some c) (ht : t ∈ c.pc.rows)
    (hid : t.id = id) : t.txHash = some txHash := by
  rcases step_listener_rows h (List.mem_of_getElem? hcall) ht with ⟨c₀, hc₀, ht₀⟩ | hread
  · obtain ⟨j, hj⟩ := List.mem_iff_getElem?.mp hc₀
    exact hI.hash j c₀ hj t ht₀ hid
  · obtain ⟨s, hs, hhash, -⟩ := hI.row
    rw [Db.mem_findByStatuses, hid, hs] at hread
    rwa [← Option.some.inj hread.1]

theorem replayed_failing {i : ℕ} {c : ListenCall} (hI : Replayed σ₀ id txHash σ)
    (hc : OnlyListened cfg id σ ev) (h : step cfg σ ev = some σ')
    (hcall : σ'.listeners[i]? = some c) (hpc : c.pc.reverting = some t) : t.id ≠ id := by
  rcases step_listener h hcall with hnew | ⟨_, hnew⟩ | hold | ⟨e, c₀, out, -, hc₀, hout, hmoved⟩
  · rw [hnew] at hpc
    cases hpc
  · rw [hnew] at hpc
    cases hpc
  · exact hI.failing i c t hold hpc
  · rw [hmoved] at hpc
    rcases (listenStep_spec hout).reverting with hnone | ⟨s, head, rest, hread, -, hsome, hr⟩
    · rw [hnone] at hpc
      cases hpc
    · rw [hsome] at hpc
      obtain rfl := Option.some.inj hpc
      rintro hid
      obtain ⟨r, hreceipt, hfailed⟩ := decideReceipt_revert hr
      obtain ⟨row, hrow, hhash, -⟩ := hI.row
      have hsame := hI.hash i c₀ hc₀ s (by simp [hread, ListenPc.rows]) hid
      have hsuccess := hc.2 row hrow r (by rw [hhash, ← hsame]; exact hreceipt)
      rw [hfailed] at hsuccess
      cases hsuccess

theorem replayed_traces (hI : Replayed σ₀ id txHash σ) (hc : OnlyListened cfg id σ ev)
    (h : step cfg σ ev = some σ') :
    (σ'.statusIs id .final ∧ σ'.db.finalMoves id = σ₀.db.finalMoves id + 1 ∧
        σ'.db.finalEvents id = σ₀.db.finalEvents id + 1 ∧
        σ'.gasCounts id ≤ σ₀.gasCounts id + 1) ∨
      ¬σ'.statusIs id .final ∧ σ'.db.finalMoves id = σ₀.db.finalMoves id ∧
        σ'.db.finalEvents id = σ₀.db.finalEvents id ∧ σ'.gasCounts id = σ₀.gasCounts id := by
  obtain ⟨s, hs, -, -⟩ := hI.row
  obtain ⟨op, hw, hdb⟩ := step_db h
  have hiff : ∀ {status}, σ.statusIs id status ↔ s.status = status := fun {status} => by
    simp [State.statusIs, hs]
  have hiff' : σ'.statusIs id .final ↔ (op.onRow σ.now s).status = .final := by
    simp only [State.statusIs, hdb, findById_apply hs, Option.some.injEq, exists_eq_left']
  have hclosed : σ.statusIs id .final → s.status ∉ openStatuses := by
    rw [hiff]
    rintro hfinal
    rw [hfinal]
    decide
  have htraces := hw.final_traces hs
  rw [← hdb] at htraces
  rcases hI.traces with ⟨hfinal, hmoves, hevents, hgas⟩ | ⟨hnot, hmoves, hevents, hgas⟩
  · refine .inl ⟨hc.final_stays h hfinal, ?_⟩
    rcases htraces with ⟨-, hm, he⟩ | ⟨hopen, -⟩
    · rcases step_gasCounts h hs with hg | ⟨-, hopen, -⟩
      · exact ⟨hm.trans hmoves, he.trans hevents, hg.trans_le hgas⟩
      · exact absurd hopen (hclosed hfinal)
    · exact absurd hopen (hclosed hfinal)
  · rcases htraces with ⟨hback, hm, he⟩ | ⟨-, hnow, hm, he⟩
    · have hnot' : ¬σ'.statusIs id .final := fun hf => hnot (hiff.mpr (hback (hiff'.mp hf)))
      refine .inr ⟨hnot', hm.trans hmoves, he.trans hevents, ?_⟩
      rcases step_gasCounts h hs with hg | ⟨-, -, hf⟩
      · exact hg.trans hgas
      · exact absurd hf hnot'
    · refine .inl ⟨hiff'.mpr hnow, by rw [hm, hmoves], by rw [he, hevents], ?_⟩
      rcases step_gasCounts h hs with hg | ⟨hg, -, -⟩
      · rw [hg, hgas]
        exact Nat.le_succ _
      · rw [hg, hgas]

theorem replayed_reach (hr : ∃ s, σ₀.db.findById id = some s ∧ s.txHash = some txHash)
    (hstart : σ₀.Untouched id) (h : ReachUnder (step cfg) (OnlyListened cfg id) σ₀ σ) :
    Replayed σ₀ id txHash σ := by
  refine h.invariant ?_ fun _ _ _ _ hI hc hs => ⟨replayed_row hI hc hs,
    fun _ _ hcall _ ht hid => replayed_hash hI hs hcall ht hid,
    fun _ _ _ hcall hpc => replayed_failing hI hc hs hcall hpc, replayed_traces hI hc hs⟩
  obtain ⟨⟨s, hs, hst, hblock⟩, hidle⟩ := hstart
  obtain ⟨s', hs', hhash⟩ := hr
  obtain rfl := Option.some.inj (hs.symm.trans hs')
  have free : ∀ (i : ℕ) (c : ListenCall), σ₀.listeners[i]? = some c → ∀ t ∈ c.pc.rows, t.id ≠ id :=
    fun i c hc => hidle c (List.mem_of_getElem? hc)
  refine ⟨⟨s, hs, hhash, .inl ⟨hst, hblock⟩⟩, fun i c hc t ht hid => absurd hid (free i c hc t ht),
    fun i c t hc hpc => ?_, .inr ⟨?_, rfl, rfl, rfl⟩⟩
  · refine free i c hc t ?_
    rcases hcpc : c.pc <;> rw [hcpc] at hpc <;> cases hpc
    exact List.mem_cons_self
  · rintro ⟨s', hs', hfinal⟩
    obtain rfl := Option.some.inj (hs.symm.trans hs')
    rw [hst] at hfinal
    cases hfinal

theorem replayed_settles (hI : Replayed σ₀ id txHash σ) (hflips : FlipsBooked σ)
    (hup : σ.up = true) (hidle : σ.isPolling = false) (hdeep : σ.FinalDepth cfg id) :
    ∃ σ₁ σ₂, run (step cfg) σ (pollEvents cfg σ) = some σ₁ ∧
      run (step cfg) σ₁ (pollEvents cfg σ₁) = some σ₂ ∧ σ₂.statusIs id .final ∧ σ₂.db.Booked id := by
  obtain ⟨s, hs, r, hreceipt, hsuccess, hfinal⟩ := hdeep
  obtain ⟨s', hs', -, hst⟩ := hI.row
  obtain rfl := Option.some.inj (hs'.symm.trans hs)
  have hfind : s'.status ∈ openStatuses → s'.Findable cfg.listener σ.node := by
    intro hopen
    refine ⟨r, hreceipt, hsuccess, hfinal, ?_⟩
    rcases hst with ⟨-, hnone⟩ | hconfirmed | hclosed
    · exact .inl hnone
    · exact .inr (.inr hconfirmed)
    · rw [hclosed] at hopen
      exact absurd hopen (by decide)
  by_cases hopen : s'.status ∈ openStatuses
  · obtain ⟨σ₁, σ₂, h₁, h₂, hiff⟩ := @finalAndBooked_iff_findable cfg σ s' id hup hidle hs hopen
    obtain ⟨⟨s₂, hs₂, hfin⟩, hbooked⟩ := hiff.mpr (hfind hopen)
    exact ⟨σ₁, σ₂, h₁, h₂, ⟨s₂, hs₂, hfin⟩, hbooked⟩
  · have hclosed : s'.status = .final := by
      rcases hst with ⟨h, -⟩ | h | h
      · exact absurd (by rw [h]; decide) hopen
      · exact absurd (by rw [h]; decide) hopen
      · exact h
    obtain ⟨metrics₁, h₁⟩ := @run_poll cfg σ hup hidle
    let σ₁ : State := { σ with
      db := σ.polledDb cfg
      listeners := σ.listeners ++ [{ isPoll := true, pc := .done }], metrics := metrics₁ }
    have hidle₁ : σ₁.isPolling = false := by simpa [σ₁, State.isPolling] using hidle
    obtain ⟨metrics₂, h₂⟩ := @run_poll cfg σ₁ hup hidle₁
    have hs₁ : σ₁.db.findById id = some s' := by
      have hs₁ := @findById_polledDb cfg σ s' id hs
      rwa [polled_of_closed hopen] at hs₁
    have hs₂ := @findById_polledDb cfg σ₁ s' id hs₁
    rw [polled_of_closed hopen] at hs₂
    refine ⟨σ₁, _, h₁, h₂, ⟨s', hs₂, hclosed⟩, ?_⟩
    exact booked_applyAll (booked_applyAll (hflips.final id s' hs hclosed))

theorem finalization_replay_safe {C : State → Event → Prop} {base opening : ℕ}
    (hr : RailReach cfg C base opening σ₀) (hstart : σ₀.Untouched id)
    (h : ReachUnder (step cfg) (OnlyListened cfg id) σ₀ σ) :
    (σ.db.entriesOf id = [] ∨
      ∃ s, σ.db.findById id = some s ∧ σ.db.entriesOf id = bookingPair id s.amount) ∧
    σ.db.finalMoves id ≤ σ₀.db.finalMoves id + 1 ∧
    σ.db.finalEvents id ≤ σ₀.db.finalEvents id + 1 ∧ σ.gasCounts id ≤ σ₀.gasCounts id + 1 ∧
    (σ.statusIs id .final → ∀ ev σ', OnlyListened cfg id σ ev → step cfg σ ev = some σ' →
      σ'.statusIs id .final) ∧
    (σ.up = true → σ.isPolling = false → σ.FinalDepth cfg id →
      ∃ σ₁ σ₂, run (step cfg) σ (pollEvents cfg σ) = some σ₁ ∧
        run (step cfg) σ₁ (pollEvents cfg σ₁) = some σ₂ ∧ σ₂.statusIs id .final ∧
        ∃ s, σ₂.db.findById id = some s ∧ σ₂.db.entriesOf id = bookingPair id s.amount) := by
  obtain ⟨s, hs, hst, -⟩ := hstart.1
  have hc₀ := custody_reach hr
  have hne : id ≠ 0 := by
    rintro rfl
    obtain ⟨g, hg, hfinal⟩ := hc₀.genesis
    obtain rfl := Option.some.inj (hg.symm.trans hs)
    rw [hst] at hfinal
    cases hfinal
  obtain ⟨txHash, hhash⟩ := Option.isSome_iff_exists.mp ((hc₀.columns id s hs).sent (.inl hst)).2
  have hI := replayed_reach ⟨s, hs, hhash⟩ hstart h
  have hreach : Reach (step cfg) (initial cfg base opening) σ := hr.reach.trans h.reach
  refine ⟨?_, ?_, ?_, ?_, fun hf ev σ' hc hs => hc.final_stays hs hf, fun hup hidle hdeep => ?_⟩
  · by_cases hb : σ.db.Booked id
    · exact .inr ((paired_reach hreach).pair id hne hb)
    · exact .inl (not_not.mp hb)
  · rcases hI.traces with ⟨-, hm, -, -⟩ | ⟨-, hm, -, -⟩ <;> omega
  · rcases hI.traces with ⟨-, -, he, -⟩ | ⟨-, -, he, -⟩ <;> omega
  · rcases hI.traces with ⟨-, -, -, hg⟩ | ⟨-, -, -, hg⟩ <;> omega
  · obtain ⟨σ₁, σ₂, h₁, h₂, hfinal, hb⟩ :=
      replayed_settles hI (flipsBooked_reach hreach) hup hidle hdeep
    have hreach₂ := (hreach.trans (.of_run h₁)).trans (.of_run h₂)
    exact ⟨σ₁, σ₂, h₁, h₂, hfinal, (paired_reach hreach₂).pair id hne hb⟩

/-- A poll that books, a crash before the flip, and the polls after the next boot. -/
theorem crashed_poll_settles : ∃ σ₀ σ σ₁ σ₂, Reach (step (plainConfig 3))
      (initial (plainConfig 3) 7 100) σ₀ ∧ σ₀.Untouched 1 ∧
    ReachUnder (step (plainConfig 3)) (OnlyListened (plainConfig 3) 1) σ₀ σ ∧
    ¬σ.statusIs 1 .final ∧ σ.db.Booked 1 ∧
    run (step (plainConfig 3)) σ (pollEvents (plainConfig 3) σ) = some σ₁ ∧
    run (step (plainConfig 3)) σ₁ (pollEvents (plainConfig 3) σ₁) = some σ₂ ∧
    σ₂.statusIs 1 .final := by
  obtain ⟨σ₀, hr, hany⟩ := exists_reach_of_run (step (plainConfig 3))
    (initial (plainConfig 3) 7 100) (bootEvents ++ submitEvents 0 1 payout ++ sendEvents ++
      [.newHead 0 (mined [plainTransfer 7 payout] 4)])
    (fun σ₀ => σ₀.Untouched 1 ∧ ((checkedRun (step (plainConfig 3))
      (OnlyListened (plainConfig 3) 1) σ₀
        ((finalizeEvents 0).dropLast ++ [.crash, .boot])).any fun σ => σ.up = true ∧
          σ.isPolling = false ∧ σ.FinalDepth (plainConfig 3) 1 ∧ σ.db.Booked 1 ∧
          (σ.db.findById 1).any (fun s => s.status = .submitted) = true) = true) (by decide +kernel)
  obtain ⟨hstart, hany⟩ := of_decide_eq_true hany
  obtain ⟨σ, hr', hσ⟩ := exists_reach_of_checkedRun _ _ _ _ _ hany
  obtain ⟨hup, hidle, hdeep, hbooked, hst⟩ := of_decide_eq_true hσ
  obtain ⟨σ₁, σ₂, h₁, h₂, hfinal, -⟩ :=
    (finalization_replay_safe hr hstart hr').2.2.2.2.2 hup hidle hdeep
  refine ⟨σ₀, σ, σ₁, σ₂, hr, hstart, hr', ?_, hbooked, h₁, h₂, hfinal⟩
  rintro ⟨s, hs, hf⟩
  rw [hs, Option.any_some, decide_eq_true_eq, hf] at hst
  cases hst

end Rail
