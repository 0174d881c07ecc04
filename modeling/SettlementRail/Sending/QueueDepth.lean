import SettlementRail.Sending.NoneUntracked

/-! The relayer_queue_depth gauge: when a sweep is over, the map holds the settlements sent and not
yet mined, unless the listener was faster than the sweep. -/

namespace Rail
open Foundation

variable {σ : State} {receipts : List SettlementId} {s : Settlement}

theorem mem_notYetMined : s ∈ σ.notYetMined receipts ↔
    σ.db.findById s.id = some s ∧ s.status = .submitted ∧ s.id ∉ receipts := by
  rw [State.notYetMined, List.mem_filter, Db.mem_findByStatuses, List.mem_singleton,
    decide_eq_true_eq, and_assoc]

theorem trackingExact_of (hkeys : (σ.relayer.inflight.map InflightTx.settlementId).Nodup)
    (hrows : ∀ info ∈ σ.relayer.inflight,
      ∃ s ∈ σ.notYetMined receipts, s.id = info.settlementId)
    (htracked : ∀ s ∈ σ.notYetMined receipts, σ.tracked s.id = true) :
    TrackingExact σ receipts := by
  refine ⟨hkeys, hrows, htracked, ?_⟩
  have hids : ((σ.notYetMined receipts).map Settlement.id).Nodup :=
    (σ.db.ids_nodup_findByStatuses _).sublist (List.filter_sublist.map _)
  have hperm : (σ.relayer.inflight.map InflightTx.settlementId).Perm
      ((σ.notYetMined receipts).map Settlement.id) := by
    refine (List.perm_ext_iff_of_nodup hkeys hids).mpr fun id => ?_
    constructor
    · intro hid
      obtain ⟨info, hi, rfl⟩ := List.mem_map.mp hid
      obtain ⟨s, hs, hsid⟩ := hrows info hi
      exact List.mem_map.mpr ⟨s, hs, hsid⟩
    · intro hid
      obtain ⟨s, hs, rfl⟩ := List.mem_map.mp hid
      obtain ⟨info, hi, hinfo⟩ := Inflight.get_isSome.mp (htracked s hs)
      exact List.mem_map.mpr ⟨info, hi, hinfo⟩
  have hlength := hperm.length_eq
  rw [List.length_map, List.length_map] at hlength
  rw [Relayer.queueDepth, hlength]

/-- When a sweep is over and no job is at work, the map holds the settlements in SUBMITTED for
which that sweep has read no receipt, all of them and each once. -/
theorem exact_after_sweep (cfg : Config) (base opening : ℕ) {σ σ' : State}
    {receipts receipts' : List SettlementId} {e : SweepEvent}
    (h : ReachUnder (watchedStep cfg) (fun p ev => ev.errorFree = true ∧ KeepsTracked p ev)
      (initial cfg base opening, []) (σ, receipts))
    (hclean : (Event.sweep e).errorFree = true) (hC : KeepsTracked (σ, receipts) (.sweep e))
    (hstep : watchedStep cfg (σ, receipts) (.sweep e) = some (σ', receipts'))
    (hended : σ'.relayer.sweep = none) (hidle : σ'.relayer.worker = none) :
    TrackingExact σ' receipts' := by
  obtain ⟨hleaves, hsets, hstores, -, halone⟩ := hC
  have hrail : RailReach cfg (fun _ _ => True) base opening σ := h.forget fun _ _ _ => trivial
  have hc : Custody σ := custody_reach hrail
  have hT : TrackingInv σ receipts := trackingInv_reach h
  obtain ⟨hs, hmined⟩ := withHistory_eq_some.mp hstep
  have hT' := trackingInv_step hc hT hleaves hsets hclean hs
  rw [show receipts' = readReceipts σ (.sweep e) receipts from hmined]
  have hrecording : σ'.recording = none := by rw [State.recording, hidle]
  refine trackingExact_of hT'.keys (fun info hi => ?_) fun s hs' => ?_
  · have hsub := (hT'.tracked info hi).resolve_left (fun h => by rw [hrecording] at h; cases h)
    obtain ⟨s, hs', hstatus⟩ := Db.isSubmitted_iff.mp hsub
    have hid := Db.id_of_findById hs'
    have hunread := unread_step hc hT hsets hs (.inr ⟨e, rfl⟩) hi
    exact ⟨s, mem_notYetMined.mpr ⟨hid ▸ hs', hstatus, hid ▸ hunread⟩, hid⟩
  · obtain ⟨hrow, hstatus, hunread⟩ := mem_notYetMined.mp hs'
    have hswept := swept_step hc (coverageInv_reach h) hclean hstores halone
      (fun _ ht => convertible_walked hrail ht) hs (.inr ⟨e, rfl⟩) hrow hstatus
    rcases hswept with htracked | hread | hfind | hahead
    · exact htracked
    · exact absurd hread hunread
    · rw [hended] at hfind
      cases hfind
    · rw [hended] at hahead
      cases hahead

def laterPayout : CreateSettlementDto := { payout with instructionId := "payout-2" }

def estimatedSend : List Event :=
  [.job .found, .job (.estimated (some 100000)), .job (.feeData plainFees),
    .job (.sent (.accepted none)), .job (.written .ok)]

def firstMined : List Event :=
  bootEvents ++ submitEvents 0 1 payout ++ estimatedSend ++ submitEvents 1 2 laterPayout ++
    estimatedSend ++ [.newHead 0 (mined [plainTransfer 7 payout] 0)]

theorem swept_before_confirmed : ∃ σ receipts,
    ReachUnder (watchedStep (plainConfig 3)) (fun p ev => ev.errorFree = true ∧ KeepsTracked p ev)
      (initial (plainConfig 3) 7 100, []) (σ, receipts) ∧
    σ.relayer.inflight.map InflightTx.settlementId = [2] ∧ TrackingExact σ receipts := by
  obtain ⟨⟨σ, receipts⟩, hreach, hends⟩ := exists_reach_of_checkedRun (watchedStep (plainConfig 3))
    (fun p ev => ev.errorFree = true ∧ KeepsTracked p ev) (initial (plainConfig 3) 7 100, [])
    (firstMined ++ [.startSweep, .sweep .found, .sweep .receipt])
    (fun p => (watchedStep (plainConfig 3) p (.sweep .receipt)).any fun p' =>
      p'.1.relayer.sweep.isNone && p'.1.relayer.worker.isNone &&
        p'.1.relayer.inflight.map InflightTx.settlementId = [2] &&
        KeepsTracked p (.sweep .receipt)) (by decide +kernel)
  obtain ⟨⟨σ', receipts'⟩, hstep, hends⟩ := (Option.any_eq_true _ _).mp hends
  simp only [Bool.and_eq_true, Option.isNone_iff_eq_none, decide_eq_true_eq] at hends
  obtain ⟨⟨⟨hended, hidle⟩, hkeys⟩, hC⟩ := hends
  exact ⟨σ', receipts', hreach.tail ⟨rfl, hC⟩ hstep, hkeys,
    exact_after_sweep (plainConfig 3) 7 100 hreach rfl hC hstep hended hidle⟩

/-- A payout is sent and mined, and the listener makes it CONFIRMED before the first sweep. -/
def confirmedFirst : List Event :=
  bootEvents ++ submitEvents 0 1 payout ++ estimatedSend ++
    [.newHead 0 (mined [plainTransfer 7 payout] 0), .startPoll, .listen 0 .found,
      .listen 0 .headRead, .listen 0 .receipt, .listen 0 (.written .ok), .startSweep]

theorem confirmed_entry_left :
    ¬∀ (cfg : Config) (base opening : ℕ) (σ σ' : State) (receipts receipts' : List SettlementId)
      (e : SweepEvent),
      ReachUnder (watchedStep cfg) (fun _ ev => ev.errorFree = true)
        (initial cfg base opening, []) (σ, receipts) →
      (Event.sweep e).errorFree = true →
      watchedStep cfg (σ, receipts) (.sweep e) = some (σ', receipts') →
      σ'.relayer.sweep = none → σ'.relayer.worker = none → TrackingExact σ' receipts' := by
  intro hclaim
  obtain ⟨⟨σ, receipts⟩, hreach, hends⟩ := exists_reach_of_checkedRun (watchedStep (plainConfig 3))
    (fun _ ev => ev.errorFree = true) (initial (plainConfig 3) 7 100, []) confirmedFirst
    (fun p => (watchedStep (plainConfig 3) p (.sweep .found)).any fun p' =>
      p'.1.relayer.sweep.isNone && p'.1.relayer.worker.isNone &&
        p'.1.relayer.queueDepth = 1 && p'.1.relayer.queue.isEmpty &&
        (p'.1.notYetMined p'.2).isEmpty) (by decide +kernel)
  obtain ⟨⟨σ', receipts'⟩, hstep, hends⟩ := (Option.any_eq_true _ _).mp hends
  simp only [Bool.and_eq_true, Option.isNone_iff_eq_none, decide_eq_true_eq,
    List.isEmpty_iff] at hends
  obtain ⟨⟨⟨⟨hended, hidle⟩, hdepth⟩, hqueue⟩, hnone⟩ := hends
  have hexact := hclaim (plainConfig 3) 7 100 σ σ' receipts receipts' .found hreach rfl hstep hended
    hidle
  have hgauge := hexact.queueDepth_eq
  rw [hdepth, hqueue, hnone] at hgauge
  exact absurd hgauge (by decide)

end Rail
