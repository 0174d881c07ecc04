import SettlementRail.Books.OverCommitment
import SettlementRail.Model.Compliance
import SettlementRail.Payments.OnlyScreened

/-! The verdict of the screening decides over a settlement, for good: a passed one was approved, a
rejected one was not, tells why, and never reaches a node or the ledger. -/

namespace Rail
open Foundation

structure VerdictInv (cfg : Config) (σ : State) : Prop where
  approving : ∀ call ∈ σ.creates, ∀ id, call.pc = .approve id →
    (cfg.compliance call.dto.toAddress).approved = true
  rejecting : ∀ call ∈ σ.creates, ∀ id reason, call.pc = .reject id reason →
    (cfg.compliance call.dto.toAddress).approved = false ∧
      reason = (cfg.compliance call.dto.toAddress).reason.getD "COMPLIANCE_REJECTED"
  passed : ∀ id s, σ.db.findById id = some s → id ≠ 0 → s.status.screened = true →
    (cfg.compliance s.toAddress).approved = true
  rejected : ∀ id s, σ.db.findById id = some s → s.status = .rejectedCompliance →
    (cfg.compliance s.toAddress).approved = false ∧
      s.failureReason = some ((cfg.compliance s.toAddress).reason.getD "COMPLIANCE_REJECTED")

variable {cfg : Config} {σ σ' : State} {ev : Event} {op : DbOp} {s : Settlement}
variable {id : SettlementId} {call : CreateCall} {e : CreateEvent} {out : CreateOut}
variable {base opening : ℕ} {C : State → Event → Prop}

theorem createStep_reject {db : Db} {now : ℕ} {reason : String}
    (hout : createStep cfg.compliance db now call e = some out) (hpc : out.pc = .reject id reason) :
    (cfg.compliance call.dto.toAddress).approved = false ∧
      reason = (cfg.compliance call.dto.toAddress).reason.getD "COMPLIANCE_REJECTED" := by
  rcases hcall : call.pc with _ | reads | _ | _ | k | ⟨k, r⟩ | k | _ | _ <;> cases e <;>
    simp only [createStep, hcall, reduceCtorEq] at hout
  case check.screened =>
    cases hout
    simp only [screen] at hpc
    split_ifs at hpc with happroved
    cases hpc
    exact ⟨Bool.eq_false_iff.mpr happroved, rfl⟩
  case reading.readOpening | reading.readCredits | reading.readDebits | reading.readInFlight =>
    obtain ⟨reads', -, rfl⟩ := Option.map_eq_some_iff.mp hout
    have hnone := (afterRead_held call.dto reads').1
    rw [hpc] at hnone
    cases hnone
  case reading.found | reading.inserted | reading.screened | reading.written =>
    simp [readStep] at hout
  case insert.inserted k o =>
    cases o with
    | lost => cases hout; cases hpc
    | ok => simp only at hout; split_ifs at hout <;> cases hout <;> cases hpc
    | ambiguous => simp only at hout; split_ifs at hout; cases hout; cases hpc
  case reject.written o | approve.written o =>
    split_ifs at hout
    cases hout
    cases o <;> cases hpc
  case find.found | findRaced.found => split at hout <;> cases hout <;> cases hpc
  all_goals cases hout; cases hpc

theorem Writes.verdict_cases (hw : Writes σ ev op) (hc : Custody σ)
    (hs : σ.db.findById s.id = some s) :
    ((op.onRow σ.now s).status = s.status ∧ (op.onRow σ.now s).failureReason = s.failureReason) ∨
      (∃ call ∈ σ.creates, call.pc = .approve s.id ∧
        (op.onRow σ.now s).status = .complianceApproved) ∨
      (∃ call ∈ σ.creates, ∃ reason, call.pc = .reject s.id reason ∧
        (op.onRow σ.now s).status = .rejectedCompliance ∧
        (op.onRow σ.now s).failureReason = some reason) ∨
      (s.id ≠ 0 ∧ s.status.screened = true ∧ (op.onRow σ.now s).status.screened = true) := by
  rcases hw.writer hc (s := s) with heq | ⟨hne, r, hr, hscr⟩ | ⟨i, call, o, rfl, hcall, hheld⟩
  · rw [heq]
    exact .inl ⟨rfl, rfl⟩
  · obtain rfl := Option.some.inj (hs.symm.trans hr)
    exact .inr (.inr (.inr ⟨hne, hscr, hw.screened hc hs hscr⟩))
  · obtain ⟨r, hr, hrec⟩ := hc.held call (List.mem_of_getElem? hcall) s.id hheld
    obtain rfl := Option.some.inj (hs.symm.trans hr)
    cases hw with
    | idle => exact .inl ⟨rfl, rfl⟩
    | @reject _ call' k reason _ _ hcall' hpc =>
      obtain rfl := Option.some.inj (hcall.symm.trans hcall')
      rw [hpc] at hheld
      obtain rfl := Option.some.inj hheld
      rw [onRow_transition_of rfl (by rw [hrec]; rfl)]
      exact .inr (.inr (.inl ⟨call, List.mem_of_getElem? hcall, reason, hpc, rfl, rfl⟩))
    | @approve _ call' k _ _ hcall' hpc =>
      obtain rfl := Option.some.inj (hcall.symm.trans hcall')
      rw [hpc] at hheld
      obtain rfl := Option.some.inj hheld
      rw [onRow_transition_of rfl (by rw [hrec]; rfl)]
      exact .inr (.inl ⟨call, List.mem_of_getElem? hcall, hpc, rfl⟩)

theorem verdictInv_creates (hI : VerdictInv cfg σ) (h : step cfg σ ev = some σ')
    (hcall : call ∈ σ'.creates) :
    (∀ id, call.pc = .approve id → (cfg.compliance call.dto.toAddress).approved = true) ∧
      ∀ id reason, call.pc = .reject id reason →
        (cfg.compliance call.dto.toAddress).approved = false ∧
          reason = (cfg.compliance call.dto.toAddress).reason.getD "COMPLIANCE_REJECTED" := by
  obtain ⟨i, hi⟩ := List.mem_iff_getElem?.mp hcall
  rcases step_create h hi with hfind | hold | ⟨e, c, out, rfl, hc, hout, rfl, -⟩
  · refine ⟨fun id hpc => ?_, fun id reason hpc => ?_⟩ <;>
    · rw [hfind] at hpc
      cases hpc
  · exact ⟨hI.approving call (List.mem_of_getElem? hold),
      hI.rejecting call (List.mem_of_getElem? hold)⟩
  · exact ⟨fun id hpc => (createStep_approve hout hpc).2.2,
      fun id reason hpc => (by have hrej := createStep_reject hout hpc; exact hrej)⟩

theorem verdictInv_step (hr : RailReach cfg C base opening σ) (hI : VerdictInv cfg σ)
    (h : step cfg σ ev = some σ') : VerdictInv cfg σ' := by
  have hc := custody_reach hr
  have haddress : ∀ call ∈ σ.creates, ∀ s, call.pc.held = some s.id →
      σ.db.findById s.id = some s → s.toAddress = call.dto.toAddress := by
    intro call hcall s hheld hs
    obtain ⟨i, hi⟩ := List.mem_iff_getElem?.mp hcall
    obtain ⟨r, hr, -, hto, -⟩ := holdsOrdered_reach hr i call s.id hi hheld
    rw [← hto, Option.some.inj (hs.symm.trans hr)]
  have hcreates : ∀ call ∈ σ'.creates, _ := fun call hcall => verdictInv_creates hI h hcall
  obtain ⟨op, hw, hdb⟩ := step_db h
  refine ⟨fun call hcall => (hcreates call hcall).1, fun call hcall => (hcreates call hcall).2,
    fun id s' hs' hne hscr => ?_, fun id s' hs' hrej => ?_⟩ <;> rw [hdb] at hs' <;>
    rcases findById_apply_cases hs' with ⟨s, hs, rfl⟩ | ⟨-, rfl, -⟩
  · have hs₀ := hs
    rw [← Db.id_of_findById hs] at hs₀ hne
    rw [onRow_toAddress]
    rcases hw.verdict_cases hc hs₀ with ⟨hst, -⟩ | ⟨call, hcall, hpc, -⟩ |
      ⟨call, hcall, reason, hpc, hst, -⟩ | ⟨-, hbefore, -⟩
    · exact hI.passed _ s hs₀ hne (by rwa [hst] at hscr)
    · rw [haddress call hcall s (by rw [hpc]; rfl) hs₀]
      exact hI.approving call hcall _ hpc
    · rw [hst] at hscr
      cases hscr
    · exact hI.passed _ s hs₀ hne hbefore
  · cases hw
    cases hscr
  · have hs₀ := hs
    rw [← Db.id_of_findById hs] at hs₀
    rw [onRow_toAddress]
    rcases hw.verdict_cases hc hs₀ with ⟨hst, hreason⟩ | ⟨call, hcall, hpc, hst⟩ |
      ⟨call, hcall, reason, hpc, -, hreason⟩ | ⟨-, -, hafter⟩
    · rw [hreason]
      exact hI.rejected _ s hs₀ (hst.symm.trans hrej)
    · rw [hst] at hrej
      cases hrej
    · obtain ⟨hnot, hwhy⟩ := hI.rejecting call hcall _ _ hpc
      rw [hreason, hwhy, haddress call hcall s (by rw [hpc]; rfl) hs₀]
      exact ⟨hnot, rfl⟩
    · rw [hrej] at hafter
      cases hafter
  · cases hw
    cases hrej

theorem verdictInv_reach (h : RailReach cfg C base opening σ) : VerdictInv cfg σ := by
  refine h.invariant ⟨?_, ?_, fun id s hs hne => absurd (findById_initial hs).2 hne,
    fun id s hs hrej => ?_⟩ fun _ _ _ hr hI _ hs => verdictInv_step hr hI hs
  · exact fun call hcall => (List.not_mem_nil hcall).elim
  · exact fun call hcall => (List.not_mem_nil hcall).elim
  · rw [(findById_initial hs).1] at hrej
    cases hrej

theorem Accepts.passed {tx : Tx} (ha : Accepts σ ev ⟨.settlement id, tx⟩) (hc : Custody σ) :
    σ.db.Passed id := by
  cases ha with
  | job hworker => exact hc.jobs id (Relayer.mem_jobs_of_worker hworker)
  | sweep hsweep =>
    exact (hc.carried _ (.walk (walks_of_sweep hsweep (by simp [SweepPc.rows])))).passed

theorem passed_of_sent (h : RailReach cfg C base opening σ) {tx : Tx} (ht : σ.node.Sent id tx) :
    σ.db.Passed id := by
  revert id tx
  refine h.invariant (I := fun σ => ∀ {id tx}, σ.node.Sent id tx → σ.db.Passed id)
    (fun ht => by cases ht) fun σ ev σ' hr hI _ hs id tx ht => ?_
  have hc := custody_reach hr
  rcases step_sent hs ht with ht | ha
  · exact passed_step hc hs (hI ht)
  · exact passed_step hc hs (ha.passed hc)

variable {getAddress : Address → Option Address}

theorem ComplianceService.not_approved_of_blocklisted {a b : Address} (hb : b ∈ blocklistLiterals)
    (hsame : SameAddress getAddress a b) : (check getAddress a).approved = false ∧
      (check getAddress a).reason = some "ADDRESS_BLOCKLISTED" := by
  have hnot : (check getAddress a).approved = false := by
    rw [← Bool.not_eq_true, check_approved_iff]
    exact fun happroved => happroved.2 b hb hsame
  obtain ⟨c, ha, -⟩ := hsame
  refine ⟨hnot, ?_⟩
  unfold check at hnot ⊢
  rw [ha] at hnot ⊢
  simp only at hnot ⊢
  split_ifs at hnot ⊢
  rfl

/-- However the text of a blocklisted address is cased, no node ever gets a transfer to it, and
a settlement with it waits for its verdict or was turned away for the blocklist; and of the
addresses that pass validation only a blocklisted one is turned away. -/
theorem blocklisted_never_paid (hcompliance : cfg.compliance = ComplianceService.check getAddress)
    (h : RailReach cfg C base opening σ) :
    (∀ id tx, σ.node.Sent id tx → ∃ toAddress amount, tx.call = .transfer toAddress amount ∧
      (∃ c, getAddress toAddress = some c) ∧
        ∀ b ∈ blocklistLiterals, ¬SameAddress getAddress toAddress b) ∧
    (∀ id s, σ.db.findById id = some s → id ≠ 0 →
      ∀ b ∈ blocklistLiterals, SameAddress getAddress s.toAddress b →
        ¬σ.db.Debited id ∧ (s.status = .received ∨
          s.status = .rejectedCompliance ∧ s.failureReason = some "ADDRESS_BLOCKLISTED")) ∧
    ∀ id s, σ.db.findById id = some s → s.status = .rejectedCompliance →
      isChecksummedAddress getAddress s.toAddress = true →
        ∃ b ∈ blocklistLiterals, SameAddress getAddress s.toAddress b := by
  have hI := verdictInv_reach h
  have passed : ∀ {id s}, σ.db.Passed id → σ.db.findById id = some s →
      (ComplianceService.check getAddress s.toAddress).approved = true := by
    intro id s ⟨hne, r, hr, hscr⟩ hs
    obtain rfl := Option.some.inj (hs.symm.trans hr)
    rw [← hcompliance]
    exact hI.passed id s hs hne hscr
  refine ⟨fun id tx ht => ?_, fun id s hs hne b hb hsame => ?_, fun id s hs hrej hvalid => ?_⟩
  · obtain ⟨s, hs, hcall⟩ := (sentInv_reach h).pays id tx ht
    exact ⟨_, _, hcall, ComplianceService.check_approved_iff.mp (passed (passed_of_sent h ht) hs)⟩
  · obtain ⟨hnot, hreason⟩ := ComplianceService.not_approved_of_blocklisted hb hsame
    have hunpassed : ¬σ.db.Passed id := fun hp => by
      rw [passed hp hs] at hnot
      cases hnot
    refine ⟨fun hdebited => hunpassed (debited_passed_reach h id hdebited), ?_⟩
    by_cases hrej : s.status = .rejectedCompliance
    · obtain ⟨-, hwhy⟩ := hI.rejected id s hs hrej
      rw [hcompliance, hreason, Option.getD_some] at hwhy
      exact .inr ⟨hrej, hwhy⟩
    · refine .inl ?_
      have hscr : ¬s.status.screened = true := fun hscr => hunpassed ⟨hne, s, hs, hscr⟩
      -- RECEIVED is the one status before the verdict
      generalize s.status = status at hrej hscr
      cases status <;> first | rfl | exact absurd rfl hrej | exact absurd rfl hscr
  · obtain ⟨hnot, -⟩ := hI.rejected id s hs hrej
    have hcanonical : getAddress s.toAddress = some s.toAddress := of_decide_eq_true hvalid
    by_contra hfree
    rw [hcompliance, ComplianceService.check_approved_iff.mpr
      ⟨⟨_, hcanonical⟩, fun b hb hsame => hfree ⟨b, hb, hsame⟩⟩] at hnot
    cases hnot

def knownAddresses (a : Address) : Option Address :=
  if a = "0x000000000000000000000000000000000000dead" ∨
      a = "0x000000000000000000000000000000000000dEaD" then
    some "0x000000000000000000000000000000000000dEaD"
  else if a = "0x0000000000000000000000000000000000000bad" ∨
      a = "0x0000000000000000000000000000000000000Bad" then
    some "0x0000000000000000000000000000000000000Bad"
  else none

/-- A payout to the first address of the blocklist, in its checksummed text. -/
theorem payout_to_blocklisted_rejected : ∃ σ s,
    RailReach { plainConfig 3 with compliance := ComplianceService.check knownAddresses }
      (fun _ _ => True) 7 100 σ ∧
    σ.db.findById 1 = some s ∧ s.status = .rejectedCompliance ∧
    ∃ b ∈ blocklistLiterals, SameAddress knownAddresses s.toAddress b := by
  let cfg := { plainConfig 3 with compliance := ComplianceService.check knownAddresses }
  let dto := { payout with toAddress := "0x000000000000000000000000000000000000dEaD" }
  obtain ⟨σ, hr, hany⟩ := exists_reach_of_run (step cfg) (initial cfg 7 100)
    (bootEvents ++ submitEvents 0 1 dto)
    (fun σ => (σ.db.findById 1).any fun s => s.status = .rejectedCompliance &&
      isChecksummedAddress knownAddresses s.toAddress) (by decide +kernel)
  obtain ⟨s, hs, hrow⟩ := (Option.any_eq_true _ _).mp hany
  simp only [Bool.and_eq_true, decide_eq_true_eq] at hrow
  exact ⟨σ, s, hr, hs, hrow.1, (blocklisted_never_paid rfl hr).2.2 1 s hs hrow.1 hrow.2⟩

end Rail
