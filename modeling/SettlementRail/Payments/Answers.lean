import SettlementRail.Foundation.HistoryVariables
import SettlementRail.Model.HttpApi
import SettlementRail.Payments.OnlyScreened
import SettlementRail.Payments.TwinCalls

/-! What the clients are told, over a whole run of the rail, restarts included. A history variable
keeps the answers, since a process forgets the requests it has answered. -/

namespace Rail
open Foundation

/-- A request and the point at which its call ended. -/
structure Answer where
  dto : CreateSettlementDto
  pc : CreatePc
deriving DecidableEq, Repr

def CreatePc.shown : CreatePc → Option SettlementId
  | .returned id _ => some id
  | _ => none

def CreatePc.answers : CreatePc → Bool
  | .returned .. | .threw _ => true
  | _ => false

def State.answered (cfg : Config) (σ : State) : Event → Option Answer
  | .create i e => σ.creates[i]?.bind fun call =>
    (createStep cfg.compliance σ.db σ.now call e).bind fun out =>
      if out.pc.answers then some ⟨call.dto, out.pc⟩ else none
  | _ => none

def recordAnswer (cfg : Config) (σ : State) (ev : Event) (answers : List Answer) : List Answer :=
  answers ++ (σ.answered cfg ev).toList

def createdAnswers (answers : List Answer) (id : SettlementId) : ℕ :=
  answers.countP fun a => a.pc.created && a.pc.shown = some id

structure AnswersInv (σ : State) (answers : List Answer) : Prop where
  ended : ∀ a ∈ answers, a.pc.answers = true
  rows : ∀ a ∈ answers, ∀ id, a.pc.shown = some id → ∃ s, σ.db.findById id = some s ∧
    s.instructionId = a.dto.instructionId ∧ (a.pc.created = true → s.Orders a.dto)
  once : ∀ id, createdAnswers answers id + σ.holders id ≤ 1

variable {cfg : Config} {σ σ' : State} {ev : Event} {s : Settlement} {id : SettlementId}
variable {answers : List Answer} {a : Answer} {call : CreateCall} {e : CreateEvent}
variable {out : CreateOut} {base opening : ℕ} {i : ℕ}

theorem createStep_shown {db : Db} {now : ℕ}
    (hout : createStep cfg.compliance db now call e = some out) (hpc : out.pc.shown = some id) :
    (out.pc.created = false ∧
      ∃ s, db.findByInstructionId call.dto.instructionId = some s ∧ s.id = id) ∨
    (out.pc.created = true ∧ call.pc.held = some id ∧ ∃ o, e = .written o) := by
  rcases hcall : call.pc with _ | reads | _ | _ | k | ⟨k, reason⟩ | k | _ | _ <;> cases e <;>
    simp only [createStep, hcall, reduceCtorEq] at hout
  case find.found | findRaced.found =>
    split at hout
    · rename_i r hr
      cases hout
      cases hpc
      exact .inl ⟨rfl, r, hr, rfl⟩
    · cases hout
      cases hpc
  case reading.readOpening | reading.readCredits | reading.readDebits | reading.readInFlight =>
    obtain ⟨reads', -, rfl⟩ := Option.map_eq_some_iff.mp hout
    unfold afterRead at hpc
    repeat' split at hpc
    all_goals cases hpc
  case reading.found | reading.inserted | reading.screened | reading.written =>
    simp [readStep] at hout
  case insert.inserted k o =>
    cases o with
    | lost => cases hout; cases hpc
    | ok => simp only at hout; split_ifs at hout <;> cases hout <;> cases hpc
    | ambiguous => simp only at hout; split_ifs at hout; cases hout; cases hpc
  case check.screened =>
    cases hout
    simp only [screen] at hpc
    split_ifs at hpc <;> cases hpc
  case reject.written o | approve.written o =>
    split_ifs at hout
    cases hout
    cases o with
    | ok =>
      cases hpc
      exact .inr ⟨rfl, rfl, _, rfl⟩
    | _ => cases hpc
  all_goals
    cases hout
    cases hpc

theorem answered_eq_some (h : σ.answered cfg ev = some a) :
    ∃ i e call out, ev = .create i e ∧ σ.creates[i]? = some call ∧
      createStep cfg.compliance σ.db σ.now call e = some out ∧ out.pc.answers = true ∧
      a = ⟨call.dto, out.pc⟩ := by
  unfold State.answered at h
  split at h
  · obtain ⟨call, hcall, h⟩ := Option.bind_eq_some_iff.mp h
    obtain ⟨out, hout, h⟩ := Option.bind_eq_some_iff.mp h
    split_ifs at h with hends
    exact ⟨_, _, call, out, rfl, hcall, hout, hends, (Option.some.inj h).symm⟩
  · cases h

theorem createdAnswers_append (answers new : List Answer) (id : SettlementId) :
    createdAnswers (answers ++ new) id = createdAnswers answers id + createdAnswers new id :=
  List.countP_append

theorem AnswersInv.none_created (hI : AnswersInv σ answers) (hnone : σ.db.findById id = none) :
    createdAnswers answers id = 0 := by
  refine List.countP_eq_zero.mpr fun a ha hcreated => ?_
  rw [Bool.and_eq_true, decide_eq_true_eq] at hcreated
  obtain ⟨s, hs, -⟩ := hI.rows a ha id hcreated.2
  rw [hs] at hnone
  cases hnone

theorem AnswersInv.once_step (hI : AnswersInv σ answers) (hc : Custody σ)
    (h : step cfg σ ev = some σ') (id : SettlementId) :
    createdAnswers (recordAnswer cfg σ ev answers) id + σ'.holders id ≤ 1 := by
  have hbefore := hI.once id
  rw [recordAnswer, createdAnswers_append]
  have hquiet : (∀ i e, ev ≠ .create i e) → createdAnswers (σ.answered cfg ev).toList id = 0 := by
    intro hev
    rcases ha : σ.answered cfg ev with _ | a
    · rfl
    · obtain ⟨i, e, -, -, rfl, -⟩ := answered_eq_some ha
      exact absurd rfl (hev i e)
  have hmove := step_creates h
  unfold State.holders at hbefore ⊢
  generalize σ'.creates = creates' at hmove
  cases hmove with
  | same hev =>
    rw [hquiet hev]
    exact hbefore
  | crash =>
    rw [hquiet fun i e hev => (by cases hev), List.countP_nil]
    omega
  | submit dto =>
    rw [hquiet fun i e hev => (by cases hev), List.countP_append]
    exact hbefore
  | @call i e call out hcall hout =>
    have hcount := countP_set_add (p := fun call => decide (call.pc.held = some id))
      (b := { call with pc := out.pc }) hcall
    simp only [decide_eq_true_eq] at hcount
    have hone : createdAnswers (σ.answered cfg (.create i e)).toList id ≤ 1 := by
      refine List.countP_le_length.trans ?_
      rcases σ.answered cfg (.create i e) with _ | a
      · exact Nat.zero_le _
      · exact Nat.le_refl _
    -- only the holder answers 201, with its last write
    have hnone : ¬(call.pc.held = some id ∧ ∃ o, e = .written o) →
        createdAnswers (σ.answered cfg (.create i e)).toList id = 0 := by
      intro hkeeps
      refine List.countP_eq_zero.mpr fun a ha hcreated => hkeeps ?_
      rw [Option.mem_toList] at ha
      obtain ⟨j, e', c, o, hev, hc, hout', -, rfl⟩ := answered_eq_some ha
      cases hev
      obtain rfl := Option.some.inj (hcall.symm.trans hc)
      obtain rfl := Option.some.inj (hout.symm.trans hout')
      rw [Bool.and_eq_true, decide_eq_true_eq] at hcreated
      rcases createStep_shown hout hcreated.2 with ⟨hnot, -⟩ | ⟨-, hheld, hwritten⟩
      · rw [hnot] at hcreated
        cases hcreated.1
      · exact ⟨hheld, hwritten⟩
    cases createStep_holds hout with
    | keep hev hheld =>
      have hzero := hnone fun hgives => hev _ hgives.2.choose_spec
      simp only [hheld] at hcount
      omega
    | @insert k db' _ hpc hnew hpc' =>
      have hzero := hnone fun hgives => (by
        obtain ⟨o, ho⟩ := hgives.2
        cases ho)
      by_cases hk : k = id
      · subst hk
        -- a new id is in nobody's hands and in no answer
        have hfresh : σ.db.findById k = none := Db.findById_none_of_create hnew
        have hholders := tokens_of_none hc hfresh
        have hcreated := hI.none_created hfresh
        rw [State.tokens, State.holders] at hholders
        split_ifs at hcount <;> omega
      · have hnot : ¬out.pc.held = some id := by
          rw [hpc']
          exact fun hheld => hk (Option.some.inj hheld)
        rw [if_neg hnot] at hcount
        omega
    | reject hpc hheld | approve hpc hheld =>
      rw [hheld] at hcount
      simp only [reduceCtorEq, if_false, Nat.add_zero] at hcount
      by_cases hgives : call.pc.held = some id
      · rw [if_pos hgives] at hcount
        omega
      · have hzero := hnone fun hboth => hgives hboth.1
        rw [if_neg hgives] at hcount
        omega

theorem answersInv_step (hr : RailReach cfg (fun _ _ => True) base opening σ)
    (hI : AnswersInv σ answers) (h : step cfg σ ev = some σ') :
    AnswersInv σ' (recordAnswer cfg σ ev answers) := by
  have hrow : ∀ id s dto, σ.db.findById id = some s → s.instructionId = dto.instructionId →
      ∃ s', σ'.db.findById id = some s' ∧ s'.instructionId = dto.instructionId ∧
        (s.Orders dto → s'.Orders dto) := by
    intro id s dto hs hinstr
    obtain ⟨op, -, hdb⟩ := step_db h
    refine ⟨_, hdb ▸ findById_apply hs, onRow_instructionId.trans hinstr, fun hd => ?_⟩
    simpa only [Settlement.Orders, onRow_instructionId, onRow_toAddress, onRow_amount] using hd
  refine ⟨fun a ha => ?_, fun a ha id hshown => ?_, hI.once_step (custody_reach hr) h⟩
  · rcases List.mem_append.mp ha with ha | ha
    · exact hI.ended a ha
    · rw [Option.mem_toList] at ha
      obtain ⟨i, e, call, out, -, -, -, hends, rfl⟩ := answered_eq_some ha
      exact hends
  · rcases List.mem_append.mp ha with ha | ha
    · obtain ⟨s, hs, hinstr, horders⟩ := hI.rows a ha id hshown
      obtain ⟨s', hs', hinstr', horders'⟩ := hrow id s a.dto hs hinstr
      exact ⟨s', hs', hinstr', fun hcreated => horders' (horders hcreated)⟩
    · rw [Option.mem_toList] at ha
      obtain ⟨i, e, call, out, rfl, hcall, hout, -, rfl⟩ := answered_eq_some ha
      rcases createStep_shown hout hshown with ⟨hnot, s, hs, rfl⟩ | ⟨-, hheld, -⟩
      · have hinstr : s.instructionId = call.dto.instructionId := by
          simpa using List.find?_some hs
        obtain ⟨s', hs', hinstr', -⟩ := hrow s.id s call.dto
          (Db.findById_of_mem (List.mem_of_find?_eq_some hs)) hinstr
        refine ⟨s', hs', hinstr', fun hcreated => ?_⟩
        rw [hnot] at hcreated
        cases hcreated
      · obtain ⟨s, hs, hd⟩ := holdsOrdered_reach hr i call id hcall hheld
        obtain ⟨s', hs', hinstr', horders'⟩ := hrow id s call.dto hs hd.1
        exact ⟨s', hs', hinstr', fun _ => horders' hd⟩

theorem answersInv_reach {η : State × List Answer}
    (h : ReachUnder (withHistory (step cfg) (recordAnswer cfg)) (fun _ _ => True)
      (initial cfg base opening, []) η) : AnswersInv η.1 η.2 := by
  refine h.invariant (I := fun η => AnswersInv η.1 η.2) ⟨?_, ?_, fun id => ?_⟩
    fun η ev η' hr hI _ hs => ?_
  · exact fun a ha => (List.not_mem_nil ha).elim
  · exact fun a ha => (List.not_mem_nil ha).elim
  · exact Nat.zero_le 1
  · obtain ⟨hstep, hanswers⟩ := withHistory_eq_some.mp hs
    rw [hanswers]
    exact answersInv_step (hr.forget fun _ _ _ => trivial) hI hstep

/-- What the clients have been told in any run: each answer has one of four statuses, the body of
a 500 is fixed, a settlement shown is stored under the instruction id that was asked for, all
answers of one instruction show the same one, and at most one of them is a 201, which shows the
order as it was sent. -/
theorem answers_consistent {η : State × List Answer}
    (h : ReachUnder (withHistory (step cfg) (recordAnswer cfg)) (fun _ _ => True)
      (initial cfg base opening, []) η) (toText : ℤ → String) (stack : String) :
    (∀ a ∈ η.2, ∀ lookup, ∃ r, createResponse toText stack lookup a.pc = some r ∧
      (r.status = 201 ∨ r.status = 200 ∨ r.status = 422 ∨ r = .error (serverError 500))) ∧
    (∀ a ∈ η.2, ∀ lookup status id,
      createResponse toText stack lookup a.pc = some (.settlement status id) → ∃ s,
        η.1.db.findById id = some s ∧ s.instructionId = a.dto.instructionId ∧
        (status = 201 → s.Orders a.dto)) ∧
    (∀ a ∈ η.2, ∀ b ∈ η.2, a.dto.instructionId = b.dto.instructionId →
      ∀ id id', a.pc.shown = some id → b.pc.shown = some id' → id = id') ∧
    ∀ instructionId lookup, (η.2.countP fun a => a.dto.instructionId = instructionId &&
      (createResponse toText stack lookup a.pc).any fun r => r.status = 201) ≤ 1 := by
  have hI := answersInv_reach h
  have hsame : ∀ a ∈ η.2, ∀ b ∈ η.2, a.dto.instructionId = b.dto.instructionId →
      ∀ id id', a.pc.shown = some id → b.pc.shown = some id' → id = id' := by
    intro a ha b hb hinstr id id' hid hid'
    obtain ⟨s, hs, hsi, -⟩ := hI.rows a ha id hid
    obtain ⟨t, ht, hti, -⟩ := hI.rows b hb id' hid'
    have heq := Db.eq_of_instructionId (Db.mem_of_findById hs) (Db.mem_of_findById ht)
      (hsi.trans (hinstr.trans hti.symm))
    rw [← Db.id_of_findById hs, ← Db.id_of_findById ht, heq]
  have hstatus : ∀ lookup (pc : CreatePc),
      (createResponse toText stack lookup pc).any (fun r => r.status = 201) = pc.created := by
    intro lookup pc
    cases pc with
    | returned id created => cases created <;> cases lookup <;> rfl
    | threw err => cases err <;> rfl
    | _ => rfl
  refine ⟨fun a ha lookup => ?_, fun a ha lookup status id hr => ?_, hsame,
    fun instructionId lookup => ?_⟩
  · have hends := hI.ended a ha
    obtain ⟨dto, pc⟩ := a
    cases pc with
    | returned id created =>
      cases created with
      | true => exact ⟨_, rfl, .inl rfl⟩
      | false =>
        cases lookup with
        | none => exact ⟨_, rfl, .inr (.inl rfl)⟩
        | some => exact ⟨_, rfl, .inr (.inr (.inr rfl))⟩
    | threw err =>
      cases err with
      | insufficientBalance => exact ⟨_, rfl, .inr (.inr (.inl rfl))⟩
      | database => exact ⟨_, rfl, .inr (.inr (.inr rfl))⟩
    | _ => cases hends
  · obtain ⟨dto, pc⟩ := a
    cases pc with
    | returned k created =>
      have hshown : k = id ∧ (status = 201 → created = true) := by
        cases created with
        | true =>
          cases hr
          exact ⟨rfl, fun _ => rfl⟩
        | false =>
          cases lookup <;> cases hr
          exact ⟨rfl, fun h201 => (by cases h201)⟩
      obtain ⟨rfl, h201⟩ := hshown
      obtain ⟨s, hs, hinstr, horders⟩ := hI.rows _ ha k rfl
      refine ⟨s, hs, hinstr, fun hstatus => horders ?_⟩
      rw [h201 hstatus]
      rfl
    | _ => cases hr
  -- all the 201s of one instruction show one settlement, and it is created once
  · simp only [hstatus]
    by_contra hmany
    have hpos : 0 < η.2.countP fun a => a.dto.instructionId = instructionId && a.pc.created := by
      omega
    obtain ⟨a, ha, hcreated⟩ := List.countP_pos_iff.mp hpos
    rw [Bool.and_eq_true, decide_eq_true_eq] at hcreated
    have hshows : ∀ pc : CreatePc, pc.created = true → ∃ id, pc.shown = some id := by
      intro pc hpc
      cases pc with
      | returned id created => exact ⟨id, rfl⟩
      | _ => cases hpc
    obtain ⟨id, hid⟩ := hshows a.pc hcreated.2
    have hle : (η.2.countP fun a => a.dto.instructionId = instructionId && a.pc.created) ≤
        createdAnswers η.2 id := by
      refine List.countP_mono_left fun b hb hb' => ?_
      rw [Bool.and_eq_true, decide_eq_true_eq] at hb'
      obtain ⟨id', hid'⟩ := hshows b.pc hb'.2
      rw [hb'.2, Bool.true_and, decide_eq_true_eq, hid',
        hsame a ha b hb (hcreated.1.trans hb'.1.symm) id id' hid hid']
    have honce := hI.once id
    omega

/-- A payout sent twice is answered with 201, then with 200 and the same settlement. -/
theorem resubmission_answered :
    ∃ η, ReachUnder (withHistory (step (plainConfig 3)) (recordAnswer (plainConfig 3)))
        (fun _ _ => True) (initial (plainConfig 3) 7 100, []) η ∧
      η.2.map (fun a => createResponse toString "" none a.pc) =
        [some (.settlement 201 1), some (.settlement 200 1)] ∧
      ∀ instructionId, (η.2.countP fun a => a.dto.instructionId = instructionId &&
        (createResponse toString "" none a.pc).any fun r => r.status = 201) ≤ 1 := by
  obtain ⟨η, hr, htold⟩ := exists_reach_of_run
    (withHistory (step (plainConfig 3)) (recordAnswer (plainConfig 3)))
    (initial (plainConfig 3) 7 100, [])
    (bootEvents ++ submitEvents 0 1 payout ++ [.submit payout, .create 1 .found])
    (fun η => η.2.map (fun a => createResponse toString "" none a.pc) =
      [some (.settlement 201 1), some (.settlement 200 1)]) (by decide +kernel)
  exact ⟨η, hr, of_decide_eq_true htold, fun instructionId =>
    (answers_consistent hr toString "").2.2.2 instructionId none⟩

end Rail
