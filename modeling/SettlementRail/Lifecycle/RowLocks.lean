import SettlementRail.Foundation.ThreadPool
import SettlementRail.Lifecycle.StatusEdges
import SettlementRail.Model.TransitionCalls

/-! What row locks guarantee the transactions of `transition`: from its UPDATE to its commit a call
has its row to itself. What they do not: that the row is still the one of the SELECT. -/

namespace Rail.StateService
open Foundation

def TransitionPc.read : TransitionPc → Option (Settlement × ℕ)
  | .update current seen | .audit current seen _ | .emit current seen _ | .commit current seen _ =>
    some (current, seen)
  | _ => none

def TransitionPc.succeeded : TransitionPc → Bool
  | .returned (some _) => true
  | _ => false

variable {σ σ' ρ ρ' : TransitionState} {ev : TransitionEvent} {call : TransitionCall}
variable {pc' : TransitionPc} {db db' : Db} {current next row s : Settlement}
variable {i j seen now : ℕ} {id k : SettlementId} {r : TransitionRequest}

def TransitionPc.written : TransitionPc → Option Settlement
  | .audit _ _ next | .emit _ _ next | .commit _ _ next => some next
  | _ => none

inductive CallMoves (σ : TransitionState) (call : TransitionCall) (now : ℕ) :
    TransitionPc → Db → Prop
  | fails {pc' : TransitionPc} (hended : pc'.ended = true) (hfailed : pc'.succeeded = false) :
      CallMoves σ call now pc' σ.db
  | selected {current : Settlement} (hpc : call.pc = .select)
      (hrow : σ.db.findById call.request.id = some current)
      (hallow : call.request.opts.allows current.status = true) :
      CallMoves σ call now (.update current (transitionCount σ.db call.request.id)) σ.db
  | updated {current : Settlement} {seen : ℕ} {row : Settlement}
      (hpc : call.pc = .update current seen) (hfree : σ.locked call.request.id = false)
      (hrow : σ.db.findById call.request.id = some row) :
      CallMoves σ call now
        (.audit current seen (row.withTransition call.request.toStatus call.request.opts now)) σ.db
  | wrote {pc' : TransitionPc} (hread : pc'.read = call.pc.read)
      (hwritten : pc'.written = call.pc.written) (hgoes : pc'.ended = false) : CallMoves σ call now pc' σ.db
  | committed {current : Settlement} {seen : ℕ} {next : Settlement}
      (hpc : call.pc = .commit current seen next) :
      CallMoves σ call now (.returned (some next)) (commitDb call.request current next σ.db)

theorem callStep_spec (h : callStep σ call now = some (pc', db')) :
    CallMoves σ call now pc' db' := by
  rcases hpc : call.pc with _ | ⟨current, seen⟩ | ⟨current, seen, next⟩ | ⟨current, seen, next⟩ |
    ⟨current, seen, next⟩ | _ | _ | _ <;> simp only [callStep, hpc, reduceCtorEq] at h
  case select =>
    rcases hrow : σ.db.findById call.request.id with _ | current <;> rw [hrow] at h
    · cases h
      exact .fails rfl rfl
    · simp only at h
      split_ifs at h with hallow <;> cases h
      · exact .selected hpc hrow hallow
      · exact .fails rfl rfl
  case update =>
    split_ifs at h with hlocked
    rcases hrow : σ.db.findById call.request.id with _ | row <;> rw [hrow] at h <;> cases h
    · exact .fails rfl rfl
    · exact .updated hpc (eq_false_of_ne_true hlocked) hrow
  case audit =>
    split_ifs at h <;> cases h
    · exact .wrote (by rw [hpc]; rfl) (by rw [hpc]; rfl) rfl
    · exact .wrote (by rw [hpc]; rfl) (by rw [hpc]; rfl) rfl
  case emit =>
    cases h
    exact .wrote (by rw [hpc]; rfl) (by rw [hpc]; rfl) rfl
  case commit =>
    cases h
    exact .committed hpc

theorem callStep_running (h : callStep σ call now = some (pc', db')) : call.pc.ended = false := by
  rcases hpc : call.pc <;> simp only [callStep, hpc, reduceCtorEq] at h <;> rfl

inductive Fate (σ σ' : TransitionState) (ev : TransitionEvent) (i : ℕ) : TransitionCall → Prop
  | stays {call : TransitionCall} (hcall : σ.calls[i]? = some call)
      (hev : ∀ now, ev ≠ .call i now) : Fate σ σ' ev i call
  | starts {request : TransitionRequest} (hnew : σ.calls[i]? = none) : Fate σ σ' ev i { request }
  | dies {call : TransitionCall} {pc' : TransitionPc} (hcall : σ.calls[i]? = some call)
      (hended : pc'.ended = true) (hfailed : pc'.succeeded = false) :
      Fate σ σ' ev i { call with pc := pc' }
  | moves {call : TransitionCall} {now : ℕ} {pc' : TransitionPc}
      (hcall : σ.calls[i]? = some call) (hev : ev = .call i now)
      (hmoves : CallMoves σ call now pc' σ'.db) : Fate σ σ' ev i { call with pc := pc' }

theorem step_fate {call' : TransitionCall} (h : step σ ev = some σ')
    (hcall : σ'.calls[i]? = some call') : Fate σ σ' ev i call' := by
  cases ev with
  | create id instructionId toAddress amount now =>
    obtain ⟨db', -, rfl⟩ := Option.map_eq_some_iff.mp h
    exact .stays hcall fun _ => nofun
  | transition request =>
    obtain rfl := Option.some.inj h
    rcases getElem?_snoc_cases hcall with ⟨rfl, rfl⟩ | ⟨-, hold⟩
    · exact .starts (List.getElem?_eq_none le_rfl)
    · exact .stays hold fun _ => nofun
  | call j now =>
    obtain ⟨call, hj, hstep⟩ := Option.bind_eq_some_iff.mp h
    obtain ⟨⟨pc', db'⟩, hout, rfl⟩ := Option.map_eq_some_iff.mp hstep
    rcases getElem?_set_cases hcall with ⟨rfl, rfl⟩ | ⟨hij, hold⟩
    · exact .moves hj rfl (callStep_spec hout)
    · refine .stays hold fun now' heq => hij ?_
      cases heq
      rfl
  | throws j =>
    obtain ⟨call, hj, hthrow⟩ := Option.bind_eq_some_iff.mp h
    split_ifs at hthrow with hended
    obtain rfl := Option.some.inj hthrow
    rcases getElem?_set_cases hcall with ⟨rfl, rfl⟩ | ⟨-, hold⟩
    · exact .dies hj rfl rfl
    · exact .stays hold fun _ => nofun
  | crash =>
    obtain rfl := Option.some.inj h
    rw [List.getElem?_map] at hcall
    obtain ⟨call, hi, rfl⟩ := Option.map_eq_some_iff.mp hcall
    split_ifs with hended
    · exact .stays hi fun _ => nofun
    · exact .dies hi rfl rfl

inductive Commits (σ : TransitionState) : TransitionEvent → Db → Prop
  | nothing {ev : TransitionEvent} : Commits σ ev σ.db
  | creates {ev : TransitionEvent} {row : Settlement} {db' : Db}
      (hnew : σ.db.create row = some db') (hstatus : row.status = .received) : Commits σ ev db'
  | transition {i now seen : ℕ} {call : TransitionCall} {current next : Settlement}
      (hcall : σ.calls[i]? = some call) (hpc : call.pc = .commit current seen next) :
      Commits σ (.call i now) (commitDb call.request current next σ.db)

theorem step_commits (h : step σ ev = some σ') : Commits σ ev σ'.db := by
  cases ev with
  | create id instructionId toAddress amount now =>
    obtain ⟨db', hnew, rfl⟩ := Option.map_eq_some_iff.mp h
    exact .creates hnew rfl
  | transition request =>
    obtain rfl := Option.some.inj h
    exact .nothing
  | call i now =>
    obtain ⟨call, hcall, hstep⟩ := Option.bind_eq_some_iff.mp h
    obtain ⟨⟨pc', db'⟩, hout, rfl⟩ := Option.map_eq_some_iff.mp hstep
    cases callStep_spec hout with
    | fails | selected | updated | wrote => exact .nothing
    | committed hpc => exact .transition hcall hpc
  | throws i =>
    obtain ⟨call, -, hthrow⟩ := Option.bind_eq_some_iff.mp h
    split_ifs at hthrow
    obtain rfl := Option.some.inj hthrow
    exact .nothing
  | crash =>
    obtain rfl := Option.some.inj h
    exact .nothing

theorem trail_commitDb : (commitDb r current next db).trail k =
    db.trail k ++ if k = r.id then [(current.status, r.toStatus)] else [] := by
  rw [Db.trail, Db.trail, commitDb, List.filter_append, List.map_append]
  congr 1
  by_cases hk : k = r.id
  · simp [auditRow, hk]
  · simp [auditRow, hk, Ne.symm hk]

theorem trail_create (h : db.create row = some db') : db'.trail k = db.trail k := by
  rw [Db.trail, Db.trail, (Db.create_frame h).2.1]

theorem findById_commitDb : (commitDb r current next db).findById k =
    if k = r.id then (db.findById k).map fun s =>
      { next with id := s.id, instructionId := s.instructionId }
    else db.findById k :=
  @Table.find?_modify _ _ _ _ db.settlements r.id
    (fun s => { next with id := s.id, instructionId := s.instructionId }) (fun _ => rfl) k

theorem findById_commitDb_of_ne (hk : k ≠ r.id) :
    (commitDb r current next db).findById k = db.findById k := by
  rw [findById_commitDb, if_neg hk]

theorem findById_commitDb_self (hrow : db.findById r.id = some row) (hid : next.id = row.id)
    (hinstr : next.instructionId = row.instructionId) :
    (commitDb r current next db).findById r.id = some next := by
  rw [findById_commitDb, if_pos rfl, hrow, Option.map_some, ← hid, ← hinstr]

theorem update_congr {f g : Settlement → Settlement} {hf : ∀ s, (f s).id = s.id}
    {hf' : ∀ s, (f s).instructionId = s.instructionId} {hg : ∀ s, (g s).id = s.id}
    {hg' : ∀ s, (g s).instructionId = s.instructionId}
    (h : ∀ s, db.findById id = some s → f s = g s) :
    db.update id f hf hf' = db.update id g hg hg' := by
  have hrows : db.settlements.rows.map (Table.updateRow Settlement.id id f) =
      db.settlements.rows.map (Table.updateRow Settlement.id id g) := by
    refine List.map_congr_left fun s hs => ?_
    unfold Table.updateRow
    split_ifs with hid
    · exact h s (hid ▸ Db.findById_of_mem hs)
    · rfl
  simp only [Db.update, Table.modify, hrows]

/-- On the row it has read, a commit is the transition in one piece. -/
theorem commit_refines (hrow : db.findById r.id = some current)
    (hallow : r.opts.allows current.status = true) :
    commitDb r current (current.withTransition r.toStatus r.opts now) db =
      db.transition now r.id r.toStatus r.opts := by
  have hupdate : db.update r.id
      (fun s => { current.withTransition r.toStatus r.opts now with
        id := s.id, instructionId := s.instructionId }) (fun _ => rfl) (fun _ => rfl) =
      db.update r.id (·.withTransition r.toStatus r.opts now) (fun _ => rfl) (fun _ => rfl) := by
    refine update_congr fun s hs => ?_
    obtain rfl := Option.some.inj (hrow.symm.trans hs)
    rfl
  simp only [Db.transition, hrow, if_pos hallow, commitDb, hupdate, auditRow, outboxRows]

/-- The guard held of what was read; what was written is the committed row, moved on. -/
structure TransitionCall.Sound (db : Db) (call : TransitionCall) : Prop where
  read : ∀ current seen, call.pc.read = some (current, seen) →
    call.request.opts.allows current.status = true ∧ seen ≤ (db.trail call.request.id).length
  written : ∀ next, call.pc.written = some next → ∃ row now,
    db.findById call.request.id = some row ∧
      next = row.withTransition call.request.toStatus call.request.opts now

structure Isolated (σ : TransitionState) : Prop where
  calls : ∀ (i : ℕ) (call : TransitionCall), σ.calls[i]? = some call → call.Sound σ.db
  exclusive : ∀ (i j : ℕ) (a b : TransitionCall), σ.calls[i]? = some a → σ.calls[j]? = some b →
    i ≠ j → a.pc.locks = true → b.pc.locks = true → a.request.id ≠ b.request.id
  unborn : ∀ id, σ.db.findById id = none → σ.db.trail id = []

theorem written_isSome (pc : TransitionPc) : pc.written.isSome = pc.locks := by
  cases pc <;> rfl

theorem locks_of_written {pc : TransitionPc} (h : pc.written = some next) : pc.locks = true := by
  rw [← written_isSome, h]
  rfl

theorem read_of_ended {pc : TransitionPc} (h : pc.ended = true) :
    pc.read = none ∧ pc.written = none ∧ pc.locks = false := by
  cases pc <;> first | exact ⟨rfl, rfl, rfl⟩ | cases h

theorem length_trail (db : Db) (id : SettlementId) :
    (db.trail id).length = transitionCount db id := by
  rw [Db.trail, List.length_map, transitionCount, List.countP_eq_length_filter]

theorem locked_of_call (hcall : σ.calls[i]? = some call) (hlocks : call.pc.locks = true) :
    σ.locked call.request.id = true := by
  refine List.any_eq_true.mpr ⟨call, List.mem_of_getElem? hcall, ?_⟩
  rw [hlocks, decide_eq_true rfl]
  rfl

theorem Isolated.next_eq (hI : Isolated σ) (hcall : σ.calls[i]? = some call)
    (hpc : call.pc = .commit current seen next) : ∃ row now,
      σ.db.findById call.request.id = some row ∧
        next = row.withTransition call.request.toStatus call.request.opts now :=
  (hI.calls i call hcall).written next (by rw [hpc]; rfl)

theorem Isolated.findById_commit (hI : Isolated σ) (hcall : σ.calls[i]? = some call)
    (hpc : call.pc = .commit current seen next) :
    (commitDb call.request current next σ.db).findById call.request.id = some next := by
  obtain ⟨row, now, hrow, rfl⟩ := hI.next_eq hcall hpc
  exact findById_commitDb_self hrow rfl rfl

/-- What others commit touches neither what a call has read nor what it has locked. -/
theorem Isolated.sound_stays (hI : Isolated σ) (hc : Commits σ ev db')
    (hcall : σ.calls[i]? = some call) (hev : ∀ now, ev ≠ .call i now) : call.Sound db' := by
  have hold := hI.calls i call hcall
  cases hc with
  | nothing => exact hold
  | @creates _ row _ hnew =>
    refine ⟨fun current seen hread => ?_, fun next hwritten => ?_⟩
    · rw [trail_create hnew]
      exact hold.read current seen hread
    · obtain ⟨s, now, hs, hnext⟩ := hold.written next hwritten
      refine ⟨s, now, ?_, hnext⟩
      rw [Db.findById_create hnew, if_neg, hs]
      rintro heq
      rw [heq, Db.findById_none_of_create hnew] at hs
      cases hs
  | @transition j now seen' other current' next' hother hpc =>
    have hji : j ≠ i := by
      rintro rfl
      exact hev now rfl
    refine ⟨fun current seen hread => ?_, fun next hwritten => ?_⟩
    · obtain ⟨hallow, hseen⟩ := hold.read current seen hread
      refine ⟨hallow, hseen.trans ?_⟩
      rw [trail_commitDb, List.length_append]
      exact Nat.le_add_right _ _
    · obtain ⟨s, now', hs, hnext⟩ := hold.written next hwritten
      refine ⟨s, now', ?_, hnext⟩
      rw [findById_commitDb_of_ne, hs]
      exact hI.exclusive i j call other hcall hother (Ne.symm hji) (locks_of_written hwritten)
        (by rw [hpc]; rfl)

theorem Isolated.sound_fate {call' : TransitionCall} (hI : Isolated σ)
    (hc : Commits σ ev σ'.db) (hfate : Fate σ σ' ev i call') : call'.Sound σ'.db := by
  have ended : ∀ {request : TransitionRequest} {pc : TransitionPc}, pc.ended = true →
      TransitionCall.Sound σ'.db { request, pc } := by
    intro request pc hended
    obtain ⟨hread, hwritten, -⟩ := read_of_ended hended
    refine ⟨fun current seen h => ?_, fun next h => ?_⟩
    · cases hread.symm.trans h
    · cases hwritten.symm.trans h
  cases hfate with
  | stays hcall hev => exact hI.sound_stays hc hcall hev
  | starts =>
    refine ⟨fun current seen h => ?_, fun next h => ?_⟩
    · cases h
    · cases h
  | dies _ hended => exact ended hended
  | @moves call now pc' hcall hev hmoves =>
    have hold := hI.calls i call hcall
    generalize σ'.db = db at hmoves ended
    cases hmoves with
    | fails hended => exact ended hended
    | selected hpc hrow hallow =>
      refine ⟨fun current seen h => ?_, fun next h => by cases h⟩
      cases h
      exact ⟨hallow, (length_trail σ.db call.request.id).ge⟩
    | @updated current seen row hpc hfree hrow =>
      refine ⟨fun current' seen' h => ?_, fun next h => ?_⟩
      · cases h
        exact hold.read current seen (by rw [hpc]; rfl)
      · cases h
        exact ⟨row, now, hrow, rfl⟩
    | wrote hread hwritten =>
      exact ⟨fun current seen h => hold.read current seen (hread ▸ h),
        fun next h => hold.written next (hwritten ▸ h)⟩
    | committed => exact ended rfl

theorem lock_origin {call' : TransitionCall} (hfate : Fate σ σ' ev i call')
    (hlocks : call'.pc.locks = true) : ∃ call, σ.calls[i]? = some call ∧
      call'.request = call.request ∧ (call.pc.locks = true ∨
        σ.locked call.request.id = false ∧ ∃ now, ev = .call i now) := by
  cases hfate with
  | stays hcall => exact ⟨call', hcall, rfl, .inl hlocks⟩
  | starts => cases hlocks
  | dies _ hended =>
    have hnot := (read_of_ended hended).2.2
    cases hnot.symm.trans hlocks
  | @moves call now pc' hcall hev hmoves =>
    refine ⟨call, hcall, rfl, ?_⟩
    generalize σ'.db = db at hmoves
    cases hmoves with
    | fails hended =>
      have hnot := (read_of_ended hended).2.2
      cases hnot.symm.trans hlocks
    | selected => cases hlocks
    | updated _ hfree => exact .inr ⟨hfree, now, hev⟩
    | wrote _ hwritten =>
      refine .inl ?_
      rw [← written_isSome, ← hwritten, written_isSome]
      exact hlocks
    | committed => cases hlocks

theorem isolated_step (hI : Isolated σ) (h : step σ ev = some σ') : Isolated σ' := by
  have hc := step_commits h
  refine ⟨fun i call hcall => hI.sound_fate hc (step_fate h hcall),
    fun i j a b ha hb hne hla hlb heq => ?_, fun id hnone => ?_⟩
  · obtain ⟨a₀, ha₀, hra, hla₀⟩ := lock_origin (step_fate h ha) hla
    obtain ⟨b₀, hb₀, hrb, hlb₀⟩ := lock_origin (step_fate h hb) hlb
    rw [hra, hrb] at heq
    rcases hla₀ with hla₀ | ⟨hfree, now, hev⟩
    · rcases hlb₀ with hlb₀ | ⟨hfree, -⟩
      · exact hI.exclusive i j a₀ b₀ ha₀ hb₀ hne hla₀ hlb₀ heq
      · rw [← heq, locked_of_call ha₀ hla₀] at hfree
        cases hfree
    · rcases hlb₀ with hlb₀ | ⟨-, now', hev'⟩
      · rw [heq, locked_of_call hb₀ hlb₀] at hfree
        cases hfree
      · rw [hev] at hev'
        cases hev'
        exact hne rfl
  · generalize σ'.db = db at hc hnone
    cases hc with
    | nothing => exact hI.unborn id hnone
    | creates hnew =>
      rw [trail_create hnew]
      refine hI.unborn id ?_
      rw [Db.findById_create hnew] at hnone
      split_ifs at hnone
      exact hnone
    | @transition i now seen call current next hcall hpc =>
      by_cases hid : id = call.request.id
      · rw [hid, hI.findById_commit hcall hpc] at hnone
        cases hnone
      · rw [findById_commitDb_of_ne hid] at hnone
        rw [trail_commitDb, if_neg hid, List.append_nil]
        exact hI.unborn id hnone

theorem isolated_initial : Isolated {} where
  calls := fun i call hcall => by cases hcall
  exclusive := fun i j a b ha => by cases ha
  unborn := fun _ _ => rfl

theorem isolated_reach (h : Reach step {} σ) : Isolated σ :=
  h.invariant isolated_initial fun _ _ _ _ hI _ hstep => isolated_step hI hstep

theorem ended_step (h : step σ ev = some σ') (hcall : σ.calls[i]? = some call)
    (hended : call.pc.ended = true) : σ'.calls[i]? = some call := by
  have hlt : i < σ.calls.length := (List.getElem?_eq_some_iff.mp hcall).1
  have hset : ∀ {j : ℕ} {other : TransitionCall} (call' : TransitionCall),
      σ.calls[j]? = some other → other.pc.ended = false →
        (σ.calls.set j call')[i]? = some call := by
    intro j other call' hother hrunning
    rw [List.getElem?_set_ne, hcall]
    rintro rfl
    obtain rfl := Option.some.inj (hother.symm.trans hcall)
    cases hended.symm.trans hrunning
  cases ev with
  | create =>
    obtain ⟨db', -, rfl⟩ := Option.map_eq_some_iff.mp h
    exact hcall
  | transition request =>
    obtain rfl := Option.some.inj h
    rwa [List.getElem?_append_left hlt]
  | call j now =>
    obtain ⟨other, hother, hstep⟩ := Option.bind_eq_some_iff.mp h
    obtain ⟨⟨pc', db'⟩, hout, rfl⟩ := Option.map_eq_some_iff.mp hstep
    exact hset { other with pc := pc' } hother (callStep_running hout)
  | throws j =>
    obtain ⟨other, hother, hthrow⟩ := Option.bind_eq_some_iff.mp h
    split_ifs at hthrow with hnot
    obtain rfl := Option.some.inj hthrow
    exact hset { other with pc := .threw } hother (eq_false_of_ne_true hnot)
  | crash =>
    obtain rfl := Option.some.inj h
    rw [List.getElem?_map, hcall, Option.map_some, if_pos hended]

theorem ended_reach (h : Reach step σ σ') (hcall : σ.calls[i]? = some call)
    (hended : call.pc.ended = true) : σ'.calls[i]? = some call :=
  h.invariant hcall fun _ _ _ _ hold _ hstep => ended_step hstep hold hended

end Rail.StateService
