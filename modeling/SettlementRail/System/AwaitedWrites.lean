import SettlementRail.System.Custody

/-! The write to an existing row that the relayer or the listener awaits, as an operation, so
that a condition on a step can speak of its effect on the rows before the step. -/

namespace Rail
open Foundation

/-- The write of this event if it commits; `.none` for an event that writes no row read before. -/
def State.awaitedWrite (σ : State) : Event → DbOp
  | .job (.written o) =>
    match σ.relayer.worker with
    | some (id, .writeSubmitted v) => o.commits (.transition id .submitted (submittedOptions v))
    | some (id, .fail v reason) =>
      o.commits (.transition id .failed (failOptions reason v.retryCount))
    | _ => .none
  | .sweep (.written o) =>
    match σ.relayer.sweep with
    | some (.recordResend t _ tx) => o.commits (.recordResend t.id tx (t.retryCount + 1))
    | some (.fail t _ reason retryCount) =>
      o.commits (.transition t.id .failed (failOptions reason retryCount))
    | _ => .none
  | .recover .written =>
    match σ.relayer.recovery with
    | .fail t _ => .transition t.id .failed (failOptions "REVERTED_ON_RECOVERY" t.retryCount)
    | _ => .none
  | .listen i (.written o) =>
    match σ.listeners[i]?.map ListenCall.pc with
    | some (.revert t ..) => o.commits (.transition t.id .failed revertOptions)
    | some (.reorg t ..) => o.commits (.transition t.id .submitted reorgOptions)
    | some (.confirm t receipt ..) =>
      o.commits (.transition t.id .confirmed (confirmOptions t receipt))
    | some (.book t ..) => o.commits (.book t.id t.amount)
    | some (.flip t ..) => o.commits (.transition t.id .final (finalOptions t))
    | _ => .none
  | _ => .none

variable {cfg : Config} {σ σ' : State} {ev : Event} {op : DbOp} {r s : Settlement}
variable {id : SettlementId}

theorem DbOutcome.commits_of {ε : Type} {o : DbOutcome ε} (ho : o.committed = true) (op : DbOp) :
    o.commits op = op := by
  cases o with
  | ok | ambiguous => rfl
  | lost => cases ho

theorem Writes.eq_awaitedWrite (hw : Writes σ ev op) :
    op = .none ∨ op = σ.awaitedWrite ev ∨ ∃ i e, ev = .create i e := by
  cases hw with
  | idle => exact .inl rfl
  | insert | reject | approve => exact .inr (.inr ⟨_, _, rfl⟩)
  | submitted hworker _ ho | jobFail hworker _ ho =>
    exact .inr (.inl (by simp only [State.awaitedWrite, hworker, DbOutcome.commits_of ho]))
  | resend hsweep _ ho | sweepFail hsweep _ ho =>
    exact .inr (.inl (by simp only [State.awaitedWrite, hsweep, DbOutcome.commits_of ho]))
  | recoveryFail hrecovery => exact .inr (.inl (by simp only [State.awaitedWrite, hrecovery]))
  | revert hcall hpc _ ho | reorg hcall hpc _ ho | confirm hcall hpc _ ho | book hcall hpc _ ho
  | flip hcall hpc _ ho =>
    refine .inr (.inl ?_)
    simp only [State.awaitedWrite, hcall, Option.map_some, hpc, DbOutcome.commits_of ho]

theorem step_screened_row (hc : Custody σ) (h : step cfg σ ev = some σ')
    (hs : σ.db.findById id = some s) (hscr : s.status.screened = true) :
    ∃ s', σ'.db.findById id = some s' ∧
      (s' = s ∨ s' = (σ.awaitedWrite ev).onRow σ.now s) := by
  obtain ⟨op, hw, hdb⟩ := step_db h
  refine ⟨_, hdb ▸ findById_apply hs, ?_⟩
  rcases hw.eq_awaitedWrite with rfl | rfl | ⟨i, e, rfl⟩
  · exact .inl rfl
  · exact .inr rfl
  · refine .inl ?_
    have received : ∀ {call : CreateCall}, σ.creates[i]? = some call →
        call.pc.held = some s.id → False := by
      intro call hcall hheld
      obtain ⟨r, hr, hrec⟩ := hc.held call (List.mem_of_getElem? hcall) s.id hheld
      rw [Db.id_of_findById hs, hs] at hr
      rw [Option.some.inj hr, hrec] at hscr
      cases hscr
    cases hw with
    | idle | insert => rfl
    | @reject _ call k reason o r hcall hpc =>
      refine onRow_of_ne fun hid => received hcall ?_
      rw [hpc, hid]
      rfl
    | @approve _ call k o r hcall hpc =>
      refine onRow_of_ne fun hid => received hcall ?_
      rw [hpc, hid]
      rfl

theorem onRow_eq_of_changed {now : ℕ} (hs : op.onRow now s ≠ s) (hne : r.id ≠ s.id) :
    op.onRow now r = r := by
  cases op with
  | transition id toStatus opts =>
    have hid : s.id = id := by
      by_contra hid
      exact hs (onRow_of_ne hid)
    exact onRow_of_ne (hid ▸ hne)
  | recordResend id txHash retryCount =>
    have hid : s.id = id := by
      by_contra hid
      exact hs (if_neg hid)
    exact if_neg (hid ▸ hne)
  | _ => rfl

end Rail
