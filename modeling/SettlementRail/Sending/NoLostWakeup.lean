import SettlementRail.Foundation.ThreadPool
import SettlementRail.Model.RailSystem
import SettlementRail.Model.WorkerLoop

/-! The worker loses no wake-up. One call of `runWorker` at a time is past its flag test, and it
gives the flag back only after it saw the queue empty or the relayer draining. -/

namespace Rail.Worker
open Foundation

structure Only (loops : List LoopPc) (i : ℕ) (pc : LoopPc) : Prop where
  at_pc : loops[i]? = some pc
  others : ∀ (j : ℕ) (p : LoopPc), j ≠ i → loops[j]? = some p → p = .finished

def AllFinished (loops : List LoopPc) : Prop := ∀ p ∈ loops, p = .finished

/-- The invariant, one case for each kind of state. A new call sees the calls before it at rest,
or one of them inside a job. -/
inductive Inv (σ : State) : Prop
  | dead (halive : σ.alive = false) (hturn : σ.turn = none) (hall : AllFinished σ.loops)
  | resting (hturn : σ.turn = none) (hflag : σ.workerRunning = false) (hall : AllFinished σ.loops)
      (hqueue : σ.queue = [] ∨ σ.draining = true)
  | suspended (i : ℕ) (id : SettlementId) (hturn : σ.turn = none) (hflag : σ.workerRunning = true)
      (honly : Only σ.loops i (.inJob id))
  | arriving (loops : List LoopPc) (hturn : σ.turn = some loops.length)
      (hflag : σ.workerRunning = false) (hloops : σ.loops = loops ++ [.entry])
      (hall : AllFinished loops)
  | arrivingBusy (loops : List LoopPc) (i : ℕ) (id : SettlementId)
      (hturn : σ.turn = some loops.length) (hflag : σ.workerRunning = true)
      (hloops : σ.loops = loops ++ [.entry]) (honly : Only loops i (.inJob id))
  | running (i : ℕ) (pc : LoopPc) (hturn : σ.turn = some i) (hflag : σ.workerRunning = true)
      (honly : Only σ.loops i pc) (hpc : pc = .test ∨ pc = .afterJob)
  | shifting (i : ℕ) (hturn : σ.turn = some i) (hflag : σ.workerRunning = true)
      (honly : Only σ.loops i .shift) (hqueue : σ.queue ≠ [])
  | resetting (i : ℕ) (hturn : σ.turn = some i) (hflag : σ.workerRunning = true)
      (honly : Only σ.loops i .resetFlag) (hqueue : σ.queue = [] ∨ σ.draining = true)

variable {σ σ' : State} {loops : List LoopPc} {i j : ℕ} {pc pc' : LoopPc} {ev : Event}

theorem Only.set (h : Only loops i pc) (pc' : LoopPc) : Only (loops.set i pc') i pc' := by
  have hlt : i < loops.length := (List.getElem?_eq_some_iff.mp h.at_pc).1
  refine ⟨List.getElem?_set_self hlt, fun j p hj hp => ?_⟩
  rcases getElem?_set_cases hp with ⟨heq, -⟩ | ⟨-, hold⟩
  · exact absurd heq hj
  · exact h.others j p hj hold

theorem Only.finish (h : Only loops i pc) : AllFinished (loops.set i .finished) := by
  intro p hp
  obtain ⟨j, hj⟩ := List.mem_iff_getElem?.mp hp
  by_cases hij : j = i
  · rw [hij, (h.set .finished).at_pc] at hj
    exact (Option.some.inj hj).symm
  · exact (h.set .finished).others j p hij hj

theorem AllFinished.only (h : AllFinished loops) (pc : LoopPc) :
    Only (loops ++ [pc]) loops.length pc := by
  refine ⟨by simp, fun j p hj hp => ?_⟩
  rcases Nat.lt_or_ge j loops.length with hlt | hge
  · rw [List.getElem?_append_left hlt] at hp
    exact h p (List.mem_of_getElem? hp)
  · rw [List.getElem?_append_right hge] at hp
    have hzero : j - loops.length ≠ 0 := by omega
    obtain ⟨k, hk⟩ := Nat.exists_eq_succ_of_ne_zero hzero
    rw [hk] at hp
    cases hp

theorem Only.append_finished (h : Only loops i pc) : Only (loops ++ [.finished]) i pc := by
  have hlt : i < loops.length := (List.getElem?_eq_some_iff.mp h.at_pc).1
  refine ⟨by rw [List.getElem?_append_left hlt, h.at_pc], fun j p hj hp => ?_⟩
  rcases Nat.lt_or_ge j loops.length with hlt | hge
  · rw [List.getElem?_append_left hlt] at hp
    exact h.others j p hj hp
  · rw [List.getElem?_append_right hge] at hp
    have hmem := List.mem_of_getElem? hp
    rwa [List.mem_singleton] at hmem

theorem set_last (loops : List LoopPc) (pc pc' : LoopPc) :
    (loops ++ [pc]).set loops.length pc' = loops ++ [pc'] := by simp

theorem inv_proceed (hI : Inv σ) (h : step σ .proceed = some σ') : Inv σ' := by
  simp only [step] at h
  cases hI with
  | dead _ hturn | resting hturn | suspended _ _ hturn => rw [hturn] at h; cases h
  | arriving loops hturn hflag hloops hall =>
    rw [hturn, Option.bind_some, hloops, (hall.only .entry).at_pc, Option.bind_some] at h
    simp only [statement, hflag, hloops, set_last, Bool.false_eq_true, if_false] at h
    cases h
    exact .running loops.length .test hturn rfl (hall.only .test) (.inl rfl)
  | arrivingBusy loops i id hturn hflag hloops honly =>
    have hentry : (loops ++ [LoopPc.entry])[loops.length]? = some .entry := by simp
    rw [hturn, Option.bind_some, hloops, hentry, Option.bind_some] at h
    simp only [statement, hflag, hloops, set_last, if_true] at h
    cases h
    exact .suspended i id rfl rfl honly.append_finished
  | running i pc hturn hflag honly hpc =>
    rw [hturn, Option.bind_some, honly.at_pc, Option.bind_some] at h
    rcases hpc with rfl | rfl
    · simp only [statement] at h
      split_ifs at h with hqueue
      · cases h
        simp only [ne_eq, Bool.and_eq_true, decide_eq_true_eq] at hqueue
        exact .shifting i hturn hflag (honly.set .shift) hqueue.1
      · cases h
        refine .resetting i hturn hflag (honly.set .resetFlag) ?_
        simpa [imp_iff_not_or] using hqueue
    · simp only [statement] at h
      cases h
      exact .running i .test hturn hflag (honly.set .test) (.inl rfl)
  | shifting i hturn hflag honly hqueue =>
    rw [hturn, Option.bind_some, honly.at_pc, Option.bind_some] at h
    simp only [statement] at h
    split at h
    · cases h
    · rename_i id queue _
      cases h
      exact .suspended i id rfl hflag (honly.set (.inJob id))
  | resetting i hturn hflag honly hqueue =>
    rw [hturn, Option.bind_some, honly.at_pc, Option.bind_some] at h
    simp only [statement] at h
    cases h
    exact .resting rfl rfl honly.finish hqueue

theorem turn_of_idle (h : σ.idle = true) : σ.alive = true ∧ σ.turn = none := by
  simpa [State.idle] using h

theorem Inv.between (hI : Inv σ) (hidle : σ.idle = true) :
    (σ.workerRunning = false ∧ AllFinished σ.loops ∧ (σ.queue = [] ∨ σ.draining = true)) ∨
      (σ.workerRunning = true ∧ ∃ i id, Only σ.loops i (.inJob id)) := by
  obtain ⟨halive, hnone⟩ := turn_of_idle hidle
  cases hI with
  | dead hdead => rw [halive] at hdead; cases hdead
  | resting _ hflag hall hqueue => exact .inl ⟨hflag, hall, hqueue⟩
  | suspended i id _ hflag honly => exact .inr ⟨hflag, i, id, honly⟩
  | arriving _ hturn | arrivingBusy _ _ _ hturn | running _ _ hturn | shifting _ hturn
  | resetting _ hturn =>
    rw [hturn] at hnone
    cases hnone

theorem inv_enqueueId {id : SettlementId} (hI : Inv σ) (h : step σ (.enqueueId id) = some σ') :
    Inv σ' := by
  simp only [step] at h
  split_ifs at h with hidle hdrain
  · cases h
    exact hI
  · cases h
    rcases hI.between (by simpa using hidle) with ⟨hflag, hall, -⟩ | ⟨hflag, i, k, honly⟩
    · exact .arriving σ.loops rfl hflag rfl hall
    · exact .arrivingBusy σ.loops i k rfl hflag rfl honly

theorem inv_onModuleDestroy (hI : Inv σ) (h : step σ .onModuleDestroy = some σ') : Inv σ' := by
  simp only [step] at h
  split_ifs at h with hidle
  cases h
  have hturn := (turn_of_idle hidle).2
  rcases hI.between hidle with ⟨hflag, hall, -⟩ | ⟨hflag, i, id, honly⟩
  · exact .resting hturn hflag hall (.inr rfl)
  · exact .suspended i id hturn hflag honly

theorem inv_jobSettles {outcome : JobOutcome} (hI : Inv σ)
    (h : step σ (.jobSettles i outcome) = some σ') : Inv σ' := by
  simp only [step] at h
  split at h
  · rename_i id hat
    split_ifs at h with hidle
    cases h
    obtain ⟨-, hturn⟩ := turn_of_idle hidle
    rcases hI.between hidle with ⟨-, hall, -⟩ | ⟨hflag, k, job, honly⟩
    · cases hall _ (List.mem_of_getElem? hat)
    · have hi : i = k := by
        by_contra hne
        cases honly.others i _ hne hat
      subst hi
      have after : Inv { σ with loops := σ.loops.set i .afterJob, turn := some i } :=
        .running i .afterJob rfl hflag (honly.set .afterJob) (.inr rfl)
      rcases outcome with _ | (_ | err)
      · exact after
      · exact .dead rfl hturn honly.finish
      · exact after
  · cases h

theorem inv_step (hI : Inv σ) (h : step σ ev = some σ') : Inv σ' := by
  cases ev with
  | proceed => exact inv_proceed hI h
  | enqueueId id => exact inv_enqueueId hI h
  | onModuleDestroy => exact inv_onModuleDestroy hI h
  | jobSettles i outcome => exact inv_jobSettles hI h

/-- The jobs started and those still queued are the ids enqueued, in order. -/
theorem order_step (hI : σ.enqueued = σ.started ++ σ.queue) (h : step σ ev = some σ') :
    σ'.enqueued = σ'.started ++ σ'.queue := by
  cases ev with
  | enqueueId id =>
    simp only [step] at h
    split_ifs at h <;> cases h
    · exact hI
    · simp [hI]
  | onModuleDestroy =>
    simp only [step] at h
    split_ifs at h
    cases h
    exact hI
  | jobSettles i outcome =>
    simp only [step] at h
    split at h
    · split_ifs at h
      cases h
      rcases outcome with _ | (_ | err) <;> exact hI
    · cases h
  | proceed =>
    simp only [step] at h
    obtain ⟨i, -, h⟩ := Option.bind_eq_some_iff.mp h
    obtain ⟨pc, -, h⟩ := Option.bind_eq_some_iff.mp h
    cases pc <;> simp only [statement] at h
    case entry | test => split_ifs at h <;> cases h <;> exact hI
    case afterJob | resetFlag => cases h; exact hI
    case inJob | finished => cases h
    case shift =>
      split at h
      · cases h
      · rename_i id queue hqueue
        cases h
        rw [hI, hqueue, List.append_assoc, List.singleton_append]

def LoopPc.rank : LoopPc → ℕ
  | .entry | .afterJob => 3
  | .test => 2
  | .shift | .resetFlag => 1
  | .inJob _ | .finished => 0

def State.turnRank (σ : State) : ℕ := (σ.turn.bind fun i => σ.loops[i]?).elim 0 LoopPc.rank

theorem turnRank_of_turn (hturn : σ.turn = some i) (hat : σ.loops[i]? = some pc) :
    σ.turnRank = pc.rank := by
  rw [State.turnRank, hturn, Option.bind_some, hat, Option.elim_some]

theorem turnRank_none (hturn : σ.turn = none) : σ.turnRank = 0 := by
  rw [State.turnRank, hturn]
  rfl

theorem Inv.proceeds (hI : Inv σ) (hturn : σ.turn ≠ none) :
    ∃ σ', step σ .proceed = some σ' ∧ σ'.turnRank < σ.turnRank := by
  obtain ⟨i, hi⟩ := Option.ne_none_iff_exists'.mp hturn
  have stmt : ∀ pc σ', σ.loops[i]? = some pc → statement σ i pc = some σ' →
      (σ'.turn = none ∨ ∃ pc', σ'.turn = some i ∧ σ'.loops = σ.loops.set i pc' ∧
        pc'.rank < pc.rank) → 0 < pc.rank →
      ∃ σ', step σ .proceed = some σ' ∧ σ'.turnRank < σ.turnRank := by
    intro pc σ' hat hstmt hnext hpos
    refine ⟨σ', by simp only [step, hi, Option.bind_some, hat, hstmt], ?_⟩
    rw [turnRank_of_turn hi hat]
    rcases hnext with hnone | ⟨pc', hsame, hloops, hlt⟩
    · rwa [turnRank_none hnone]
    · have hlen : i < σ.loops.length := (List.getElem?_eq_some_iff.mp hat).1
      rwa [turnRank_of_turn hsame (by rw [hloops, List.getElem?_set_self hlen])]
  cases hI with
  | dead _ hnone | resting hnone | suspended _ _ hnone => exact absurd hnone hturn
  | arriving loops hat hflag hloops hall =>
    obtain rfl : loops.length = i := Option.some.inj (hat.symm.trans hi)
    refine stmt .entry { σ with workerRunning := true, loops := σ.loops.set loops.length .test }
      (by simp [hloops]) ?_ (.inr ⟨.test, hi, rfl, by decide⟩) (by decide)
    simp [statement, hflag]
  | arrivingBusy loops k id hat hflag hloops honly =>
    obtain rfl : loops.length = i := Option.some.inj (hat.symm.trans hi)
    refine stmt .entry { σ with loops := σ.loops.set loops.length .finished, turn := none }
      (by simp [hloops]) ?_ (.inl rfl) (by decide)
    simp [statement, hflag]
  | running k pc hat hflag honly hpc =>
    obtain rfl : k = i := Option.some.inj (hat.symm.trans hi)
    rcases hpc with rfl | rfl
    · by_cases hqueue : (σ.queue ≠ [] && !σ.draining) = true
      · refine stmt .test { σ with loops := σ.loops.set k .shift } honly.at_pc ?_
          (.inr ⟨.shift, hi, rfl, by decide⟩) (by decide)
        rw [statement, if_pos hqueue]
      · refine stmt .test { σ with loops := σ.loops.set k .resetFlag } honly.at_pc ?_
          (.inr ⟨.resetFlag, hi, rfl, by decide⟩) (by decide)
        rw [statement, if_neg hqueue]
    · exact stmt .afterJob _ honly.at_pc rfl (.inr ⟨.test, hi, rfl, by decide⟩) (by decide)
  | shifting k hat hflag honly hqueue =>
    obtain rfl : k = i := Option.some.inj (hat.symm.trans hi)
    obtain ⟨id, queue, hcons⟩ := List.exists_cons_of_ne_nil hqueue
    refine stmt .shift { σ with
      queue, started := σ.started ++ [id], loops := σ.loops.set k (.inJob id), turn := none }
      honly.at_pc ?_ (.inl rfl) (by decide)
    simp only [statement, hcons]
  | resetting k hat hflag honly hqueue =>
    obtain rfl : k = i := Option.some.inj (hat.symm.trans hi)
    exact stmt .resetFlag _ honly.at_pc rfl (.inl rfl) (by decide)

theorem Inv.turn_ends (hI : Inv σ) : ∃ n ≤ σ.turnRank, ∃ σ',
    run step σ (List.replicate n .proceed) = some σ' ∧ σ'.turn = none := by
  generalize hrank : σ.turnRank = rank
  induction rank using Nat.strong_induction_on generalizing σ with
  | _ rank ih =>
    by_cases hturn : σ.turn = none
    · exact ⟨0, Nat.zero_le _, σ, rfl, hturn⟩
    · obtain ⟨τ, hstep, hlt⟩ := hI.proceeds hturn
      obtain ⟨n, hn, σ', hrun, hend⟩ := ih τ.turnRank (hrank ▸ hlt) (inv_step hI hstep) rfl
      refine ⟨n + 1, by omega, σ', ?_, hend⟩
      rw [List.replicate_succ, run, hstep, Option.bind_some, hrun]

theorem turnRank_le (σ : State) : σ.turnRank ≤ 3 := by
  rw [State.turnRank]
  rcases σ.turn.bind fun i => σ.loops[i]? with _ | pc
  · exact Nat.zero_le _
  · cases pc <;> simp [LoopPc.rank]

structure Matches (σ : State) (r : Relayer) : Prop where
  queue : r.queue = σ.queue
  draining : r.draining = σ.draining
  worker : ∀ id, (∃ pc, r.worker = some (id, pc)) ↔ ∃ i : ℕ, σ.loops[i]? = some (.inJob id)

theorem AllFinished.not_inJob (h : AllFinished loops) {id : SettlementId} :
    loops[i]? ≠ some (.inJob id) := fun hi => by cases h _ (List.mem_of_getElem? hi)

theorem Only.inJob_iff {k : ℕ} {job id : SettlementId} (h : Only loops k (.inJob job)) :
    (∃ i : ℕ, loops[i]? = some (.inJob id)) ↔ id = job := by
  constructor
  · rintro ⟨i, hi⟩
    by_cases hik : i = k
    · rw [hik, h.at_pc] at hi
      cases hi
      rfl
    · cases h.others i _ hik hi
  · rintro rfl
    exact ⟨k, h.at_pc⟩

theorem step_proceed (hturn : σ.turn = some i) (hat : σ.loops[i]? = some pc) :
    step σ .proceed = statement σ i pc := by
  simp only [step, hturn, Option.bind_some, hat]

theorem run_two {e e' : Event} {τ υ : State} (h : step σ e = some τ) (h' : step τ e' = some υ) :
    run step σ [e, e'] = some υ := by
  rw [run, h, Option.bind_some, run, h', Option.bind_some, run]

/-- From its loop test on, a turn does what `runWorker` of the system does. -/
theorem run_from_test {r : Relayer} (halive : σ.alive = true) (hturn : σ.turn = some i)
    (honly : Only σ.loops i .test) (hqueue : r.queue = σ.queue) (hdrain : r.draining = σ.draining) :
    ∃ σ', run step σ [.proceed, .proceed] = some σ' ∧ σ'.idle = true ∧ Matches σ' r.runWorker := by
  have reset : (σ.queue ≠ [] && !σ.draining) = false → r.runWorker = { r with worker := none } →
      ∃ σ', run step σ [.proceed, .proceed] = some σ' ∧ σ'.idle = true ∧
        Matches σ' r.runWorker := by
    intro hstop hworker
    have hall : AllFinished ((σ.loops.set i .resetFlag).set i .finished) :=
      (honly.set .resetFlag).finish
    refine ⟨{ σ with
      workerRunning := false, loops := (σ.loops.set i .resetFlag).set i .finished, turn := none },
      ?_, by simp [State.idle, halive], hworker ▸ ⟨hqueue, hdrain, fun id => ?_⟩⟩
    · refine run_two ((step_proceed hturn honly.at_pc).trans ?_)
        (step_proceed (σ := { σ with loops := σ.loops.set i .resetFlag }) hturn
          (honly.set .resetFlag).at_pc)
      rw [statement, hstop]
      rfl
    · constructor
      · rintro ⟨pc, hpc⟩
        cases hpc
      · rintro ⟨j, hj⟩
        exact absurd hj hall.not_inJob
  rcases hq : σ.queue with _ | ⟨id, queue⟩
  · refine reset (by simp [hq]) ?_
    rw [Relayer.runWorker, hqueue, hq]
  · by_cases hd : σ.draining = true
    · refine reset (by simp [hd]) ?_
      rw [Relayer.runWorker, hqueue, hq]
      simp [hdrain, hd]
    · have hworker : r.runWorker = { r with queue, worker := some (id, .find) } := by
        rw [Relayer.runWorker, hqueue, hq]
        simp [hdrain, hd]
      have hjob := (honly.set .shift).set (.inJob id)
      refine ⟨{ σ with
        queue, started := σ.started ++ [id], loops := (σ.loops.set i .shift).set i (.inJob id)
        turn := none }, ?_, by simp [State.idle, halive], hworker ▸ ⟨rfl, hdrain, fun k => ?_⟩⟩
      · refine run_two ((step_proceed hturn honly.at_pc).trans ?_)
          ((step_proceed (σ := { σ with loops := σ.loops.set i .shift }) hturn
            (honly.set .shift).at_pc).trans ?_)
        · rw [statement, if_pos (by simp [hq, hd])]
        · simp only [statement, hq]
      · rw [hjob.inJob_iff]
        constructor
        · rintro ⟨pc, hpc⟩
          cases hpc
          rfl
        · rintro rfl
          exact ⟨.find, rfl⟩

/-- The turn that `enqueueId` begins. -/
theorem matches_enqueueId {r : Relayer} (hI : Inv σ) (hidle : σ.idle = true) (hm : Matches σ r)
    (id : SettlementId) : ∃ n σ', run step σ (.enqueueId id :: List.replicate n .proceed) = some σ' ∧
      σ'.idle = true ∧ Matches σ' (r.enqueueId id) := by
  obtain ⟨halive, -⟩ := turn_of_idle hidle
  by_cases hd : σ.draining = true
  · refine ⟨0, σ, by simp [run, step, hidle, hd], hidle, ?_⟩
    rwa [Relayer.enqueueId, hm.draining, if_pos hd]
  let τ : State := { σ with
    queue := σ.queue ++ [id], enqueued := σ.enqueued ++ [id]
    loops := σ.loops ++ [.entry], turn := some σ.loops.length }
  have hstep : step σ (.enqueueId id) = some τ := by
    rw [step, if_neg (by simp [hidle]), if_neg hd]
  have hdraining : r.draining = false := by
    rw [hm.draining]
    exact Bool.eq_false_of_not_eq_true hd
  rcases hI.between hidle with ⟨hflag, hall, -⟩ | ⟨hflag, k, job, honly⟩
  · let υ : State := { τ with workerRunning := true, loops := σ.loops ++ [.test] }
    have hproceed : step τ .proceed = some υ := by
      simp [τ, υ, step, statement, hflag]
    have hfree : r.worker = none := by
      rcases hw : r.worker with _ | ⟨job, pc⟩
      · rfl
      · obtain ⟨j, hj⟩ := (hm.worker job).mp ⟨pc, hw⟩
        exact absurd hj hall.not_inJob
    obtain ⟨σ', hrun, hidle', hm'⟩ := run_from_test (σ := υ) (r := { r with queue := r.queue ++ [id] })
      halive rfl (hall.only .test) (by rw [hm.queue]) hm.draining
    refine ⟨3, σ', ?_, hidle', ?_⟩
    · rw [run, hstep, Option.bind_some, List.replicate_succ, run, hproceed, Option.bind_some]
      exact hrun
    · have henqueue : r.enqueueId id = Relayer.runWorker { r with queue := r.queue ++ [id] } := by
        simp only [Relayer.enqueueId, hdraining, hfree, Option.isSome_none, Bool.false_eq_true,
          if_false]
      rwa [henqueue]
  · refine ⟨1, { τ with loops := σ.loops ++ [.finished], turn := none }, ?_, ?_, ?_⟩
    · rw [run, hstep, Option.bind_some]
      simp [τ, run, step, statement, hflag]
    · simp [τ, State.idle, halive]
    · obtain ⟨pc, hpc⟩ := (hm.worker job).mpr ⟨k, honly.at_pc⟩
      have henqueue : r.enqueueId id = { r with queue := r.queue ++ [id] } := by
        simp only [Relayer.enqueueId, hdraining, hpc, Option.isSome_some, Bool.false_eq_true,
          if_false, if_true]
      rw [henqueue]
      refine ⟨by rw [hm.queue], hm.draining, fun i => ?_⟩
      rw [honly.append_finished.inJob_iff, ← honly.inJob_iff]
      exact hm.worker i

/-- The turn in which a job settles. -/
theorem matches_jobSettles {r : Relayer} {outcome : JobOutcome} {job : SettlementId} (hI : Inv σ)
    (hidle : σ.idle = true) (hm : Matches σ r) (hjob : σ.loops[i]? = some (.inJob job))
    (hreadable : outcome ≠ .rejected none) :
    ∃ σ', run step σ [.jobSettles i outcome, .proceed, .proceed, .proceed] = some σ' ∧
      σ'.idle = true ∧ Matches σ' r.runWorker := by
  obtain ⟨halive, -⟩ := turn_of_idle hidle
  rcases hI.between hidle with ⟨-, hall, -⟩ | ⟨-, k, id, honly⟩
  · exact absurd hjob hall.not_inJob
  obtain rfl : i = k := by
    by_contra hne
    cases honly.others i _ hne hjob
  have hstep : step σ (.jobSettles i outcome) =
      some { σ with loops := σ.loops.set i .afterJob, turn := some i } := by
    simp only [step, hjob, hidle, if_true]
    rcases outcome with _ | (_ | err)
    · rfl
    · exact absurd rfl hreadable
    · rfl
  let τ : State := { σ with loops := (σ.loops.set i .afterJob).set i .test, turn := some i }
  have hproceed : step { σ with loops := σ.loops.set i .afterJob, turn := some i } .proceed =
      some τ := by
    simp [τ, step, (honly.set .afterJob).at_pc, statement]
  obtain ⟨σ', hrun, hend⟩ := run_from_test (σ := τ) halive rfl ((honly.set .afterJob).set .test)
    hm.queue hm.draining
  refine ⟨σ', ?_, hend⟩
  rw [run, hstep, Option.bind_some, run, hproceed, Option.bind_some, hrun]

/-- At most one job is active; jobs start in the order of the queue, each entry at most once; an
entry that waits between two turns has its worker suspended in a job; every turn ends. -/
structure Sound (σ : State) : Prop where
  one_active : ∀ (i j : ℕ) (id id' : SettlementId), σ.loops[i]? = some (.inJob id) →
    σ.loops[j]? = some (.inJob id') → i = j
  in_order : σ.enqueued = σ.started ++ σ.queue
  not_lost : σ.idle = true → σ.queue ≠ [] → σ.draining = false →
    σ.workerRunning = true ∧ ∃ i id, Only σ.loops i (.inJob id)
  turn_ends : ∃ n ≤ 3, ∃ σ', run step σ (List.replicate n .proceed) = some σ' ∧ σ'.turn = none

theorem Only.one_active {loops : List LoopPc} {k : ℕ} {pc : LoopPc} (h : Only loops k pc)
    {i j : ℕ} {id id' : SettlementId} (hi : loops[i]? = some (.inJob id))
    (hj : loops[j]? = some (.inJob id')) : i = j := by
  have hat : ∀ {m : ℕ} {id : SettlementId}, loops[m]? = some (.inJob id) → m = k := by
    intro m id hm
    by_contra hne
    cases h.others m _ hne hm
  exact (hat hi).trans (hat hj).symm

theorem Inv.one_active (hI : Inv σ) {i j : ℕ} {id id' : SettlementId}
    (hi : σ.loops[i]? = some (.inJob id)) (hj : σ.loops[j]? = some (.inJob id')) : i = j := by
  cases hI with
  | dead _ _ hall | resting _ _ hall => exact absurd hi hall.not_inJob
  | suspended _ _ _ _ honly | running _ _ _ _ honly | shifting _ _ _ honly
  | resetting _ _ _ honly => exact honly.one_active hi hj
  | arriving loops _ _ hloops hall =>
    rw [hloops] at hi hj
    exact (hall.only .entry).one_active hi hj
  | arrivingBusy loops k job _ _ hloops honly =>
    have old : ∀ {m : ℕ} {id : SettlementId}, (loops ++ [LoopPc.entry])[m]? = some (.inJob id) →
        loops[m]? = some (.inJob id) := by
      intro m id hm
      rcases Nat.lt_or_ge m loops.length with hlt | hge
      · rwa [List.getElem?_append_left hlt] at hm
      · rw [List.getElem?_append_right hge] at hm
        cases List.mem_singleton.mp (List.mem_of_getElem? hm)
    rw [hloops] at hi hj
    exact honly.one_active (old hi) (old hj)

theorem sound_of_reach (h : Reach step {} σ) : Sound σ := by
  have hI : Inv σ := h.invariant
    (.resting rfl rfl (fun p hp => absurd hp List.not_mem_nil) (.inl rfl))
    fun _ _ _ _ hI _ hs => inv_step hI hs
  have horder : σ.enqueued = σ.started ++ σ.queue :=
    h.invariant (I := fun σ => σ.enqueued = σ.started ++ σ.queue) rfl
      fun _ _ _ _ hI _ hs => order_step hI hs
  refine ⟨fun i j id id' => hI.one_active, horder, fun hidle hqueue hdrain => ?_, ?_⟩
  · rcases hI.between hidle with ⟨-, -, hnil | hd⟩ | hbusy
    · exact absurd hnil hqueue
    · rw [hdrain] at hd
      cases hd
    · exact hbusy
  · obtain ⟨n, hn, σ', hrun, hend⟩ := hI.turn_ends
    exact ⟨n, hn.trans (turnRank_le σ), σ', hrun, hend⟩

/-- Two entries arrive while the second job runs; the first one was rejected. -/
theorem two_entries_wait : ∃ σ, Sound σ ∧ σ.queue = [9, 4] ∧ σ.idle = true := by
  obtain ⟨σ, hr, hlast⟩ := exists_reach_of_run step {}
    [.enqueueId 7, .proceed, .proceed, .proceed, .enqueueId 4, .proceed,
      .jobSettles 0 (.rejected (some { message := "" })), .proceed, .proceed, .proceed,
      .enqueueId 9, .proceed, .enqueueId 4, .proceed]
    (fun σ => σ.queue = [9, 4] ∧ σ.idle = true) (by decide +kernel)
  exact ⟨σ, sound_of_reach hr, of_decide_eq_true hlast⟩

end Rail.Worker
