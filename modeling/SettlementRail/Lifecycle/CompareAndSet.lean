import SettlementRail.Lifecycle.RowLocks

/-! Guarded transitions as compare-and-set. The guard looks at the row of the SELECT, the UPDATE
at the row as it is by then; the two agree as long as nobody has moved the row in between. -/

namespace Rail.StateService
open Foundation

/-- A call that commits replaces the status its SELECT read. If it goes to FINAL, nobody went there
from this status after the SELECT. -/
def TransitionCall.Current (db : Db) (call : TransitionCall) : Prop :=
  match call.pc with
  | .commit current seen _ =>
    (∀ s ∈ db.findById call.request.id, s.status = current.status) ∧
      (call.request.toStatus = .final →
        (current.status, SettlementStatus.final) ∉ (db.trail call.request.id).drop seen)
  | _ => True

def CommitsCurrent (σ : TransitionState) : TransitionEvent → Prop
  | .call i _ => ∀ call ∈ σ.calls[i]?, call.Current σ.db
  | _ => True

instance currentDecidable (db : Db) (call : TransitionCall) : Decidable (call.Current db) :=
  match call with
  | ⟨r, .commit current seen _⟩ => inferInstanceAs (Decidable
    ((∀ s ∈ db.findById r.id, s.status = current.status) ∧ (r.toStatus = .final →
      (current.status, SettlementStatus.final) ∉ (db.trail r.id).drop seen)))
  | ⟨_, .select⟩ | ⟨_, .update _ _⟩ | ⟨_, .audit _ _ _⟩ | ⟨_, .emit _ _ _⟩ | ⟨_, .returned _⟩
  | ⟨_, .threw⟩ | ⟨_, .dead⟩ => inferInstanceAs (Decidable True)

instance commitsCurrentDecidable (σ : TransitionState) (ev : TransitionEvent) :
    Decidable (CommitsCurrent σ ev) :=
  match ev with
  | .call i _ => inferInstanceAs (Decidable (∀ call ∈ σ.calls[i]?, call.Current σ.db))
  | .create _ _ _ _ _ | .transition _ | .throws _ | .crash => inferInstanceAs (Decidable True)

/-- Two calls on their way to FINAL, both past a SELECT that found the same status. -/
def RacingToFinal (σ : TransitionState) (i j : ℕ) : Prop :=
  ∃ a b current current' seen seen', σ.calls[i]? = some a ∧ σ.calls[j]? = some b ∧
    a.request.id = b.request.id ∧ a.request.toStatus = .final ∧ b.request.toStatus = .final ∧
    a.pc.read = some (current, seen) ∧ b.pc.read = some (current', seen') ∧
    current.status = current'.status

def Succeeded (σ : TransitionState) (i : ℕ) : Prop :=
  ∃ call, σ.calls[i]? = some call ∧ call.pc.succeeded = true

def Emits (es : List TransitionEvent) (i : ℕ) (type : String) : Prop :=
  ∃ before now after ρ ρ', es = before ++ .call i now :: after ∧ run step {} before = some ρ ∧
    step ρ (.call i now) = some ρ' ∧
    ∃ row ∈ ρ'.db.outboxEvents.drop ρ.db.outboxEvents.length, row.type = type

structure CompareAndSet (es : List TransitionEvent) (σ : TransitionState) : Prop where
  guarded : ∀ before i now after ρ ρ' call next, es = before ++ .call i now :: after →
    run step {} before = some ρ → step ρ (.call i now) = some ρ' → ρ.calls[i]? = some call →
    ρ'.calls[i]? = some { call with pc := .returned (some next) } →
      ∃ s, ρ.db.findById call.request.id = some s ∧ call.request.opts.allows s.status = true
  chain : ∀ id s, σ.db.findById id = some s →
    Follows (fun _ _ => True) .received (σ.db.trail id) s.status
  one_final : ∀ before after ρ i j, es = before ++ after → run step {} before = some ρ → i ≠ j →
    RacingToFinal ρ i j → ¬(Succeeded σ i ∧ Succeeded σ j) ∧
      ¬(Emits es i "settlement.final" ∧ Emits es j "settlement.final")

variable {σ σ' ρ ρ' : TransitionState} {ev : TransitionEvent} {call : TransitionCall}
variable {pc' : TransitionPc} {db db' : Db} {current next row s : Settlement}
variable {i j seen now : ℕ} {id k : SettlementId} {r : TransitionRequest}

theorem current_of_commit (h : call.Current db) (hpc : call.pc = .commit current seen next) :
    (∀ s, db.findById call.request.id = some s → s.status = current.status) ∧
      (call.request.toStatus = .final →
        (current.status, SettlementStatus.final) ∉ (db.trail call.request.id).drop seen) := by
  rw [TransitionCall.Current, hpc] at h
  exact h

def Chained (db : Db) : Prop :=
  ∀ id s, db.findById id = some s → Follows (fun _ _ => True) .received (db.trail id) s.status

theorem chained_step (hI : Isolated σ) (hchain : Chained σ.db) (hcurrent : CommitsCurrent σ ev)
    (h : step σ ev = some σ') : Chained σ'.db := by
  have hc := step_commits h
  intro id s hs
  generalize σ'.db = db at hc hs
  cases hc with
  | nothing => exact hchain id s hs
  | @creates _ row _ hnew hstatus =>
    rw [Db.findById_create hnew] at hs
    rw [trail_create hnew]
    split_ifs at hs with hid
    · obtain rfl := Option.some.inj hs
      rw [hid, hI.unborn row.id (Db.findById_none_of_create hnew), hstatus]
      rfl
    · exact hchain id s hs
  | @transition i now seen call current next hcall hpc =>
    by_cases hid : id = call.request.id
    · subst hid
      obtain ⟨row, now', hrow, hnext⟩ := hI.next_eq hcall hpc
      have hcond := (current_of_commit (hcurrent call hcall) hpc).1
      rw [hI.findById_commit hcall hpc] at hs
      obtain rfl := Option.some.inj hs
      rw [trail_commitDb, if_pos rfl, hnext, ← hcond row hrow]
      exact (hchain _ row hrow).snoc trivial
    · rw [findById_commitDb_of_ne hid] at hs
      rw [trail_commitDb, if_neg hid, List.append_nil]
      exact hchain id s hs

theorem chained_reach (h : ReachUnder step CommitsCurrent {} σ) : Chained σ.db :=
  h.invariant (fun id s hs => by cases hs) fun _ _ _ hr hchain hcurrent hstep =>
    chained_step (isolated_reach hr.reach) hchain hcurrent hstep

theorem ended_of_succeeded {pc : TransitionPc} (h : pc.succeeded = true) : pc.ended = true := by
  cases pc <;> first | rfl | cases h

theorem succeeded_reach (h : Reach step σ σ') (hs : Succeeded σ i) : Succeeded σ' i := by
  obtain ⟨call, hcall, hsucceeded⟩ := hs
  exact ⟨call, ended_reach h hcall (ended_of_succeeded hsucceeded), hsucceeded⟩

/-- A call to FINAL that read `status` when the row had gone through at most `n` transitions. If it
has succeeded, its entry comes after these. -/
def Racer (σ : TransitionState) (i : ℕ) (id : SettlementId) (status : SettlementStatus) (n : ℕ) :
    Prop :=
  ∃ call, σ.calls[i]? = some call ∧ call.request.id = id ∧ call.request.toStatus = .final ∧
    ((∃ current seen, call.pc.read = some (current, seen) ∧ current.status = status ∧ seen ≤ n) ∨
      call.pc.ended = true ∧ (call.pc.succeeded = true →
        (status, SettlementStatus.final) ∈ (σ.db.trail id).drop n))

theorem drop_grows {α : Type} {l l' : List α} {n : ℕ} {a : α} (h : a ∈ l.drop n) :
    a ∈ (l ++ l').drop n := by
  rw [List.drop_append]
  exact List.mem_append_left _ h

theorem Commits.trail (hc : Commits σ ev db') (id : SettlementId) :
    ∃ more, db'.trail id = σ.db.trail id ++ more := by
  cases hc with
  | nothing => exact ⟨[], (List.append_nil _).symm⟩
  | creates hnew => exact ⟨[], by rw [trail_create hnew, List.append_nil]⟩
  | transition => exact ⟨_, trail_commitDb⟩

theorem calls_grow (h : step σ ev = some σ') : σ.calls.length ≤ σ'.calls.length := by
  cases ev with
  | create =>
    obtain ⟨db', -, rfl⟩ := Option.map_eq_some_iff.mp h
    exact le_rfl
  | transition request =>
    obtain rfl := Option.some.inj h
    simp
  | call j now =>
    obtain ⟨other, -, hstep⟩ := Option.bind_eq_some_iff.mp h
    obtain ⟨out, -, rfl⟩ := Option.map_eq_some_iff.mp hstep
    exact (List.length_set).ge
  | throws j =>
    obtain ⟨other, -, hthrow⟩ := Option.bind_eq_some_iff.mp h
    split_ifs at hthrow
    obtain rfl := Option.some.inj hthrow
    exact (List.length_set).ge
  | crash =>
    obtain rfl := Option.some.inj h
    exact (List.length_map _).ge

theorem step_fate_of (h : step σ ev = some σ') (hcall : σ.calls[i]? = some call) :
    ∃ call', σ'.calls[i]? = some call' ∧ Fate σ σ' ev i call' := by
  have hlt := (List.getElem?_eq_some_iff.mp hcall).1.trans_le (calls_grow h)
  exact ⟨_, List.getElem?_eq_getElem hlt, step_fate h (List.getElem?_eq_getElem hlt)⟩

theorem racer_step {status : SettlementStatus} {n : ℕ} (h : step σ ev = some σ')
    (hn : n ≤ (σ.db.trail id).length) (hr : Racer σ i id status n) : Racer σ' i id status n := by
  obtain ⟨call, hcall, hid, hfinal, hrace⟩ := hr
  obtain ⟨more, hmore⟩ := (step_commits h).trail id
  rcases hrace with ⟨current, seen, hread, hstatus, hseen⟩ | ⟨hended, hentry⟩
  · have hfails : ∀ {pc' : TransitionPc}, σ'.calls[i]? = some { call with pc := pc' } →
        pc'.ended = true → pc'.succeeded = false → Racer σ' i id status n := by
      intro pc' hcall' hended hfailed
      refine ⟨_, hcall', hid, hfinal, .inr ⟨hended, fun hs => ?_⟩⟩
      cases hfailed.symm.trans hs
    have hgoes : ∀ {pc' : TransitionPc}, σ'.calls[i]? = some { call with pc := pc' } →
        pc'.read = call.pc.read → Racer σ' i id status n := by
      intro pc' hcall' hsame
      exact ⟨_, hcall', hid, hfinal, .inl ⟨current, seen, hsame.trans hread, hstatus, hseen⟩⟩
    obtain ⟨call', hcall', hfate⟩ := step_fate_of h hcall
    cases hfate with
    | stays hold =>
      obtain rfl := Option.some.inj (hold.symm.trans hcall)
      exact hgoes hcall' rfl
    | starts hnew => cases hnew.symm.trans hcall
    | dies hold hended hfailed =>
      obtain rfl := Option.some.inj (hold.symm.trans hcall)
      exact hfails hcall' hended hfailed
    | @moves c now pc' hold hev hmoves =>
      obtain rfl := Option.some.inj (hold.symm.trans hcall)
      generalize hdb : σ'.db = db at hmoves
      cases hmoves with
      | fails hended hfailed => exact hfails hcall' hended hfailed
      | selected hpc =>
        rw [hpc] at hread
        cases hread
      | updated hpc => exact hgoes hcall' (by rw [hpc]; rfl)
      | wrote hsame => exact hgoes hcall' hsame
      | @committed current' seen' next hpc =>
        rw [hpc] at hread
        obtain ⟨rfl, rfl⟩ := Prod.mk.inj (Option.some.inj hread)
        refine ⟨_, hcall', hid, hfinal, .inr ⟨rfl, fun _ => ?_⟩⟩
        rw [hdb, ← hid, trail_commitDb, if_pos rfl, hid, List.drop_append_of_le_length hn]
        refine List.mem_append_right _ ?_
        rw [hstatus, hfinal]
        exact List.mem_cons_self
  · refine ⟨call, ended_step h hcall hended, hid, hfinal, .inr ⟨hended, fun hs => ?_⟩⟩
    rw [hmore]
    exact drop_grows (hentry hs)

theorem succeeded_step (h : step σ ev = some σ') (hs : Succeeded σ' i) : Succeeded σ i ∨
    ∃ call current seen next now, σ.calls[i]? = some call ∧ ev = .call i now ∧
      call.pc = .commit current seen next := by
  obtain ⟨call', hcall', hsucceeded⟩ := hs
  cases step_fate h hcall' with
  | stays hcall => exact .inl ⟨call', hcall, hsucceeded⟩
  | starts => cases hsucceeded
  | dies _ _ hfailed => cases hfailed.symm.trans hsucceeded
  | @moves call now pc' hcall hev hmoves =>
    generalize σ'.db = db at hmoves
    cases hmoves with
    | fails _ hfailed => cases hfailed.symm.trans hsucceeded
    | selected => cases hsucceeded
    | updated => cases hsucceeded
    | @wrote pc' hread hwritten hgoes =>
      cases (ended_of_succeeded hsucceeded).symm.trans hgoes
    | @committed current seen next hpc =>
      exact .inr ⟨call, current, seen, next, now, hcall, hev, hpc⟩

theorem second_not_current {status : SettlementStatus} {n : ℕ}
    (hi : Racer σ i id status n) (hj : Racer σ j id status n) (hs : Succeeded σ i)
    (hcurrent : CommitsCurrent σ (.call j now)) (hcall : σ.calls[j]? = some call)
    (hpc : call.pc = .commit current seen next) : False := by
  obtain ⟨a, ha, -, -, hrace⟩ := hi
  obtain ⟨a', ha', hsucceeded⟩ := hs
  obtain rfl := Option.some.inj (ha.symm.trans ha')
  have hentry : (status, SettlementStatus.final) ∈ (σ.db.trail id).drop n := by
    rcases hrace with ⟨_, _, hread, -, -⟩ | ⟨-, hentry⟩
    · cases (read_of_ended (ended_of_succeeded hsucceeded)).1.symm.trans hread
    · exact hentry hsucceeded
  obtain ⟨b, hb, hid, hfinal, hrace'⟩ := hj
  obtain rfl := Option.some.inj (hb.symm.trans hcall)
  have hcond := (current_of_commit (hcurrent b hcall) hpc).2
  rcases hrace' with ⟨current', seen', hread, hstatus, hseen⟩ | ⟨hended, -⟩
  · rw [hpc] at hread
    obtain ⟨rfl, rfl⟩ := Prod.mk.inj (Option.some.inj hread)
    rw [hid, hstatus] at hcond
    exact hcond hfinal (List.drop_subset_drop_left _ hseen hentry)
  · rw [hpc] at hended
    cases hended

structure Race (σ : TransitionState) (i j : ℕ) (id : SettlementId) (status : SettlementStatus)
    (n : ℕ) : Prop where
  grown : n ≤ (σ.db.trail id).length
  left : Racer σ i id status n
  right : Racer σ j id status n
  one : ¬(Succeeded σ i ∧ Succeeded σ j)

theorem race_step {status : SettlementStatus} {n : ℕ} (hne : i ≠ j) (hI : Race σ i j id status n)
    (hcurrent : CommitsCurrent σ ev) (h : step σ ev = some σ') : Race σ' i j id status n := by
  obtain ⟨more, hmore⟩ := (step_commits h).trail id
  refine ⟨?_, racer_step h hI.grown hI.left, racer_step h hI.grown hI.right, fun ⟨hi, hj⟩ => ?_⟩
  · rw [hmore, List.length_append]
    exact hI.grown.trans (Nat.le_add_right _ _)
  · rcases succeeded_step h hi with hi | ⟨a, _, _, _, now, ha, rfl, hpca⟩
    · rcases succeeded_step h hj with hj | ⟨b, _, _, _, now, hb, rfl, hpcb⟩
      · exact hI.one ⟨hi, hj⟩
      · exact second_not_current hI.left hI.right hi hcurrent hb hpcb
    · rcases succeeded_step h hj with hj | ⟨b, _, _, _, now', hb, hev, hpcb⟩
      · exact second_not_current hI.right hI.left hj hcurrent ha hpca
      · cases hev
        exact hne rfl

theorem race_of_racing (hI : Isolated σ) (hrace : RacingToFinal σ i j) :
    ∃ id status, Race σ i j id status (σ.db.trail id).length := by
  obtain ⟨a, b, current, current', seen, seen', ha, hb, hid, hfa, hfb, hra, hrb, hstatus⟩ := hrace
  have hseen := ((hI.calls i a ha).read current seen hra).2
  have hseen' := ((hI.calls j b hb).read current' seen' hrb).2
  refine ⟨a.request.id, current.status, le_rfl,
    ⟨a, ha, rfl, hfa, .inl ⟨current, seen, hra, rfl, hseen⟩⟩,
    ⟨b, hb, hid.symm, hfb, .inl ⟨current', seen', hrb, hstatus.symm, hid ▸ hseen'⟩⟩, ?_⟩
  rintro ⟨⟨a', ha', hs⟩, -⟩
  obtain rfl := Option.some.inj (ha.symm.trans ha')
  cases (read_of_ended (ended_of_succeeded hs)).1.symm.trans hra

theorem emits_succeeded {es : List TransitionEvent} {type : String}
    (h : run step {} es = some σ) (hemits : Emits es i type) : Succeeded σ i := by
  obtain ⟨before, now, after, ρ, ρ', rfl, hbefore, hstep, row, hrow, -⟩ := hemits
  rw [run_append, hbefore, Option.bind_some, run, hstep, Option.bind_some] at h
  refine succeeded_reach (.of_run h) ?_
  obtain ⟨call, hcall, hout⟩ := Option.bind_eq_some_iff.mp hstep
  obtain ⟨⟨pc', db'⟩, hpc', rfl⟩ := Option.map_eq_some_iff.mp hout
  have hlt := (List.getElem?_eq_some_iff.mp hcall).1
  cases callStep_spec hpc' with
  | fails | selected | updated | wrote =>
    rw [List.drop_length] at hrow
    cases hrow
  | committed => exact ⟨_, List.getElem?_set_self hlt, rfl⟩

theorem transitions_compare_and_set {es : List TransitionEvent}
    (h : RunUnder step CommitsCurrent {} es σ) : CompareAndSet es σ := by
  refine ⟨fun before i now after ρ ρ' call next hes hbefore hstep hcall hcall' => ?_,
    chained_reach h.reach, fun before after ρ i j hes hbefore hne hrace => ?_⟩
  · subst hes
    obtain ⟨hr, hcurrent, -⟩ := h.at_step hbefore hstep
    have hI := isolated_reach hr.reach.reach
    rcases succeeded_step hstep ⟨_, hcall', rfl⟩ with ⟨call', hold, hs⟩ |
      ⟨call', current, seen, next', now', hold, hev, hpc⟩
    · obtain ⟨c, hc, hout⟩ := Option.bind_eq_some_iff.mp hstep
      obtain ⟨out, hpc', -⟩ := Option.map_eq_some_iff.mp hout
      obtain rfl := Option.some.inj (hc.symm.trans hold)
      cases (ended_of_succeeded hs).symm.trans (callStep_running hpc')
    · obtain rfl := Option.some.inj (hold.symm.trans hcall)
      obtain ⟨row, -, hrow, -⟩ := hI.next_eq hold hpc
      refine ⟨row, hrow, ?_⟩
      rw [(current_of_commit (hcurrent call' hold) hpc).1 row hrow]
      exact ((hI.calls i call' hold).read current seen (by rw [hpc]; rfl)).1
  · have hrun := h.run_eq
    subst hes
    obtain ⟨ρ₁, hr, hrest⟩ := h.split
    obtain rfl := Option.some.inj (hbefore.symm.trans hr.run_eq)
    obtain ⟨id, status, hstart⟩ := race_of_racing (isolated_reach hr.reach.reach) hrace
    have hend := hrest.reach.invariant hstart fun _ _ _ _ hI hcurrent hstep =>
      race_step hne hI hcurrent hstep
    exact ⟨hend.one, fun ⟨hi, hj⟩ => hend.one ⟨emits_succeeded hrun hi, emits_succeeded hrun hj⟩⟩

def toFinal : TransitionRequest :=
  { id := 1, toStatus := .final, opts := { expectedFrom := some [.submitted, .confirmed] } }

/-- A settlement up to CONFIRMED, two calls to make it FINAL, and the SELECTs of both. -/
def bothSelect : List TransitionEvent :=
  [.create 1 "payout-1" "0xpayee" 5 0, .transition { id := 1, toStatus := .complianceApproved }] ++
    List.replicate 4 (.call 0 1) ++ [.transition { id := 1, toStatus := .submitted }] ++
    List.replicate 5 (.call 1 2) ++ [.transition { id := 1, toStatus := .confirmed }] ++
    List.replicate 5 (.call 2 3) ++
    [.transition toFinal, .transition toFinal, .call 3 4, .call 4 4]

def firstCommits : List TransitionEvent := List.replicate 4 (.call 3 5)

theorem first_of_two_finals : ∃ σ, RunUnder step CommitsCurrent {}
    (bothSelect ++ firstCommits ++ [.throws 4]) σ ∧
    CompareAndSet (bothSelect ++ firstCommits ++ [.throws 4]) σ ∧
      (σ.db.trail 1).getLast? = some (.confirmed, .final) := by
  obtain ⟨σ, hr, hlast⟩ := exists_runUnder_of_checkedRun step CommitsCurrent {}
    (bothSelect ++ firstCommits ++ [.throws 4])
    (fun σ => (σ.db.trail 1).getLast? = some (.confirmed, .final)) (by decide +kernel)
  exact ⟨σ, hr, transitions_compare_and_set hr, of_decide_eq_true hlast⟩

def confirmedRow : Settlement :=
  { id := 1, instructionId := "payout-1", toAddress := "0xpayee", amount := 5
    status := .confirmed, updatedAt := 3 }

/-- Both calls find CONFIRMED, both make the row FINAL and both return it. -/
theorem both_made_final : ¬∀ es σ, run step {} es = some σ → CompareAndSet es σ := by
  intro hall
  have hrun : ((run step {} bothSelect).any fun ρ =>
      decide (ρ.calls.drop 3 = List.replicate 2 ⟨toFinal, .update confirmedRow 3⟩) &&
        (run step ρ (firstCommits ++ List.replicate 4 (.call 4 6))).any fun σ =>
          (σ.calls.drop 3).map (fun call => call.pc.succeeded) = [true, true]) = true := by
    decide +kernel
  obtain ⟨ρ, hρ, hboth⟩ := (Option.any_eq_true _ _).mp hrun
  obtain ⟨hselected, hends⟩ := Bool.and_eq_true_iff.mp hboth
  obtain ⟨σ, hσ, hreturned⟩ := (Option.any_eq_true _ _).mp hends
  have hall' : run step {} (bothSelect ++ (firstCommits ++ List.replicate 4 (.call 4 6))) =
      some σ := by
    rw [run_append, hρ, Option.bind_some, hσ]
  have hpc : ∀ n, ρ.calls[3 + n]? =
      (List.replicate 2 (⟨toFinal, .update confirmedRow 3⟩ : TransitionCall))[n]? := by
    intro n
    rw [← of_decide_eq_true hselected, List.getElem?_drop]
  have hsucceeded : ∀ n, ([true, true] : List Bool)[n]? = some true → Succeeded σ (3 + n) := by
    intro n hn
    rw [← of_decide_eq_true hreturned, List.getElem?_map, List.getElem?_drop] at hn
    obtain ⟨call, hcall, hs⟩ := Option.map_eq_some_iff.mp hn
    exact ⟨call, hcall, hs⟩
  have hrace : RacingToFinal ρ 3 4 :=
    ⟨_, _, confirmedRow, confirmedRow, 3, 3, hpc 0, hpc 1, rfl, rfl, rfl, rfl, rfl, rfl⟩
  exact ((hall _ σ hall').one_final bothSelect _ ρ 3 4 rfl hρ (by decide) hrace).1
    ⟨hsucceeded 0 rfl, hsucceeded 1 rfl⟩

end Rail.StateService
