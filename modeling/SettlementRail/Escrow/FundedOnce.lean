import SettlementRail.Escrow.SharedAllowance

/-! What parallel `fund` calls may do at worst. Whatever they read, in whatever order their
transactions are executed, however many of them revert or get lost and whichever calls fail: money
is locked once for a deal, for the terms of the call that returned, and none of it is created or
lost. -/

namespace Rail.Funding
open Escrow (Account DealId Deals Deal moveBalance moveBalance_spec fundedTotal fundedTotal_update)
open Foundation

variable {cfg : DvpConfig} {chain chain' : Contracts} {dtos : List CreateDvpDto}
variable {σ σ' : State} {e : FundingEvent} {i j : ℕ} {dto dto' : CreateDvpDto}
variable {pc pc' : FundPc} {answer : FundAnswer} {call : Call} {P : ℕ → Prop}
variable {T T' : ℕ → CreateDvpDto → ℕ → Prop}

/-- How the deals and the balances of a chain came from those of `chain`. `T i dto deadline` says
that call `i` computed this deadline for its deal. -/
structure Lockup (cfg : DvpConfig) (dtos : List CreateDvpDto) (T : ℕ → CreateDvpDto → ℕ → Prop)
    (chain chain' : Contracts) : Prop where
  deals : ∀ id, chain'.deals id = chain.deals id ∨ (chain.deals id).state = .none ∧
    ∃ i dto deadline, dtos[i]? = some dto ∧ T i dto deadline ∧
      id = cfg.dealId dto.instructionId ∧ chain'.deals id = fundedDeal cfg dto deadline
  operator : fundedTotal chain'.deals + chain'.token.balanceOf cfg.operator =
    fundedTotal chain.deals + chain.token.balanceOf cfg.operator
  escrow : fundedTotal chain'.deals + chain.token.balanceOf cfg.escrow =
    fundedTotal chain.deals + chain'.token.balanceOf cfg.escrow
  others : ∀ a, a ≠ cfg.operator → a ≠ cfg.escrow →
    chain'.token.balanceOf a = chain.token.balanceOf a

inductive Sends (P : ℕ → Prop) (dto : CreateDvpDto) : Call → Prop
  | approve : Sends P dto (.approve dto.amount)
  | fund {deadline : ℕ} (h : P deadline) : Sends P dto (fundCall dto dto.amount deadline)

inductive Does (cfg : DvpConfig) (P : ℕ → Prop) (dto : CreateDvpDto) (chain chain' : Contracts) :
    Call → Prop
  | approve (hdeals : chain'.deals = chain.deals)
      (hbalance : chain'.token.balanceOf = chain.token.balanceOf) :
      Does cfg P dto chain chain' (.approve dto.amount)
  | fund {deadline : ℕ} (h : P deadline)
      (hunused : (chain.deals (cfg.dealId dto.instructionId)).state = .none)
      (hdeals : chain'.deals = Function.update chain.deals (cfg.dealId dto.instructionId)
        (fundedDeal cfg dto deadline))
      (hmove : moveBalance chain.token.balanceOf cfg.operator cfg.escrow dto.amount =
        some chain'.token.balanceOf) :
      Does cfg P dto chain chain' (fundCall dto dto.amount deadline)

theorem Sends.does (hsends : Sends P dto call) (h : chain.execute cfg call = some chain') :
    Does cfg P dto chain chain' call := by
  cases hsends with
  | approve =>
    cases h
    exact .approve rfl rfl
  | @fund deadline hP =>
    rw [fundCall, Contracts.execute, Escrow.fund] at h
    -- the guards of the contract, one after the other
    by_cases hzero : dto.amount = 0
    · rw [if_pos hzero] at h
      cases h
    by_cases hlate : deadline ≤ chain.now
    · rw [if_neg hzero, if_pos hlate] at h
      cases h
    by_cases hused : (chain.deals (cfg.dealId dto.instructionId)).state ≠ .none
    · rw [if_neg hzero, if_neg hlate, if_pos hused] at h
      cases h
    rw [if_neg hzero, if_neg hlate, if_neg hused] at h
    obtain ⟨token, htoken, rfl⟩ := Option.map_eq_some_iff.mp h
    refine .fund hP (not_not.mp hused) rfl ?_
    rw [Erc20.transferFrom] at htoken
    split_ifs at htoken with hless
    all_goals
      obtain ⟨balanceOf, hmove, rfl⟩ := Option.map_eq_some_iff.mp htoken
      exact hmove

theorem Does.keeps {id : DealId} (hdoes : Does cfg P dto chain chain' call)
    (hused : (chain.deals id).state ≠ .none) : chain'.deals id = chain.deals id := by
  cases hdoes with
  | approve hdeals _ => exact congrFun hdeals id
  | fund _ hunused hdeals _ =>
    rw [hdeals, Function.update_of_ne]
    rintro rfl
    exact hused hunused

theorem Does.funds (hdoes : Does cfg P dto chain chain' call)
    (hnot : ∀ amount, call ≠ .approve amount) :
    (chain.deals (cfg.dealId dto.instructionId)).state = .none ∧ ∃ deadline, P deadline ∧
      chain'.deals (cfg.dealId dto.instructionId) = fundedDeal cfg dto deadline := by
  cases hdoes with
  | approve => exact absurd rfl (hnot dto.amount)
  | @fund deadline hP hunused hdeals _ =>
    exact ⟨hunused, deadline, hP, by rw [hdeals, Function.update_self]⟩

theorem Lockup.mono {chain₀ : Contracts} (hI : Lockup cfg dtos T chain₀ chain)
    (h : ∀ i dto deadline, T i dto deadline → T' i dto deadline) :
    Lockup cfg dtos T' chain₀ chain := by
  refine ⟨fun id => (hI.deals id).imp_right ?_, hI.operator, hI.escrow, hI.others⟩
  rintro ⟨hnone, i, dto, deadline, hdto, hT, hdeal⟩
  exact ⟨hnone, i, dto, deadline, hdto, h _ _ _ hT, hdeal⟩

theorem Lockup.executes {chain₀ : Contracts} (hne : cfg.operator ≠ cfg.escrow)
    (hI : Lockup cfg dtos T chain₀ chain) (hdto : dtos[i]? = some dto)
    (h : Does cfg (T i dto) dto chain chain' call) : Lockup cfg dtos T chain₀ chain' := by
  cases h with
  | approve hdeals hbalance =>
    exact ⟨by rw [hdeals]; exact hI.deals, by rw [hdeals, hbalance]; exact hI.operator,
      by rw [hdeals, hbalance]; exact hI.escrow, by rw [hbalance]; exact hI.others⟩
  | @fund deadline hT hunused hdeals hmove =>
    obtain ⟨hcovered, hbalance⟩ := moveBalance_spec hmove
    have htotal : fundedTotal (Function.update chain.deals (cfg.dealId dto.instructionId)
        (fundedDeal cfg dto deadline)) + (chain.deals (cfg.dealId dto.instructionId)).locked =
        fundedTotal chain.deals + (fundedDeal cfg dto deadline).locked := fundedTotal_update _
    -- an unused deal has nothing locked, so the total grows by the amount
    have hfree : (chain.deals (cfg.dealId dto.instructionId)).locked = 0 := by
      rw [Deal.locked, hunused]
      rfl
    have hlocked : (fundedDeal cfg dto deadline).locked = dto.amount := rfl
    rw [← hdeals, hfree, hlocked] at htotal
    have hoperator : chain'.token.balanceOf cfg.operator =
        chain.token.balanceOf cfg.operator - dto.amount := by
      rw [hbalance, Function.update_of_ne hne, Function.update_self]
    have hescrow : chain'.token.balanceOf cfg.escrow =
        chain.token.balanceOf cfg.escrow + dto.amount := by
      rw [hbalance, Function.update_self, Function.update_of_ne hne.symm]
    refine ⟨fun id => ?_, ?_, ?_, fun a ha ha' => ?_⟩
    · by_cases heq : id = cfg.dealId dto.instructionId
      · have hnew : chain'.deals id = fundedDeal cfg dto deadline := by
          rw [hdeals, heq, Function.update_self]
        have hbefore : (chain₀.deals id).state = .none := by
          rcases hI.deals id with hsame | ⟨hnone, -⟩
          · rw [← hsame, heq]
            exact hunused
          · exact hnone
        exact .inr ⟨hbefore, i, dto, deadline, hdto, hT, heq, hnew⟩
      · rw [hdeals, Function.update_of_ne heq]
        exact hI.deals id
    · have hold := hI.operator
      omega
    · have hold := hI.escrow
      omega
    · rw [hbalance, Function.update_of_ne ha', Function.update_of_ne ha]
      exact hI.others a ha ha'

theorem fits_fundStep (h : Fits dto pc) (hstep : fundStep pc answer = some pc') :
    pc' = .threw ∨ Fits dto pc' := by
  cases h with
  | getBlock =>
    cases answer <;> cases hstep
    exact .inr (.allowance _)
  | allowance deadline =>
    cases answer <;> cases hstep
    unfold approveAndFund
    split_ifs
    · exact .inr (.approve deadline)
    · exact .inr (.fund deadline)
  | approve deadline =>
    cases answer <;> cases hstep
    · exact .inr (.approved _ deadline)
    · exact .inl rfl
  | approved number deadline =>
    cases answer <;> cases hstep
    split_ifs
    · exact .inr (.fund deadline)
    · exact .inl rfl
  | fund deadline =>
    cases answer <;> cases hstep
    · exact .inr (.funded _ deadline)
    · exact .inl rfl
  | funded number deadline =>
    cases answer <;> cases hstep
    split_ifs
    · exact .inr .returned
    · exact .inl rfl
  | returned => cases hstep

def deadlineOf : Call → Option ℕ
  | .fund _ _ _ deadline => some deadline
  | .approve _ | .transfer _ _ | .release _ => none

def FundPc.deadline : FundPc → Option ℕ
  | .allowance _ _ deadline => some deadline
  | .send call rest | .wait _ call rest => (call :: rest).findSome? deadlineOf
  | .getBlock _ _ | .returned | .threw => none

/-- A deadline is computed once, from the block that the call has read. -/
theorem deadline_fundStep (h : Fits dto pc) (hstep : fundStep pc answer = some pc') :
    ∀ deadline ∈ pc'.deadline, deadline ∈ pc.deadline ∨
      ∃ timestamp, answer = .block timestamp ∧
        deadline = timestamp + dto.deadlineSeconds.getD 3600 := by
  cases h with
  | getBlock =>
    cases answer <;> cases hstep
    intro deadline hd
    cases hd
    exact .inr ⟨_, rfl, rfl⟩
  | allowance deadline =>
    cases answer <;> cases hstep
    unfold approveAndFund
    split_ifs <;> exact fun _ hd => .inl hd
  | approve deadline | fund deadline =>
    cases answer <;> cases hstep
    · exact fun _ hd => .inl hd
    · exact nofun
  | approved number deadline =>
    cases answer <;> cases hstep
    split_ifs
    · exact fun _ hd => .inl hd
    · exact nofun
  | funded number deadline =>
    cases answer <;> cases hstep
    split_ifs <;> exact nofun
  | returned => cases hstep

theorem sends_of_fits {rest : List Call} (h : Fits dto (.send call rest))
    (hP : ∀ deadline ∈ (FundPc.send call rest).deadline, P deadline) : Sends P dto call := by
  cases h with
  | approve => exact .approve
  | fund deadline => exact .fund (hP deadline rfl)

def State.landed (σ : State) : FundPc → Prop
  | .wait number (.fund _ _ _ _) _ => σ.receipts[number]? = some true
  | .returned => True
  | _ => False

/-- Of a call that threw, a transaction may still be on its way. -/
structure Tracked (cfg : DvpConfig) (chain : Contracts) (dtos : List CreateDvpDto)
    (T : ℕ → CreateDvpDto → ℕ → Prop) (σ : State) : Prop where
  length_eq : σ.calls.length = dtos.length
  fits : ∀ {i : ℕ} {dto : CreateDvpDto} {pc : FundPc},
    dtos[i]? = some dto → σ.calls[i]? = some pc → pc = .threw ∨ Fits dto pc
  stamped : ∀ {i : ℕ} {dto : CreateDvpDto} {pc : FundPc},
    dtos[i]? = some dto → σ.calls[i]? = some pc → ∀ deadline ∈ pc.deadline, T i dto deadline
  queued : ∀ {k : ℕ} {tx : SentTx}, σ.queue[k]? = some tx →
    ∃ dto pc, dtos[tx.sender]? = some dto ∧ Sends (T tx.sender dto) dto tx.call ∧
      σ.calls[tx.sender]? = some pc ∧
        (pc = .threw ∨ ∃ rest, pc = .wait (σ.receipts.length + k) tx.call rest)
  waits : ∀ {i n : ℕ} {call : Call} {rest : List Call}, σ.calls[i]? = some (.wait n call rest) →
    n < σ.receipts.length ∨ ∃ k, n = σ.receipts.length + k ∧ σ.queue[k]? = some ⟨i, call⟩
  landed : ∀ {i : ℕ} {dto : CreateDvpDto} {pc : FundPc},
    dtos[i]? = some dto → σ.calls[i]? = some pc → σ.landed pc →
    (chain.deals (cfg.dealId dto.instructionId)).state = .none ∧ ∃ deadline, T i dto deadline ∧
      σ.chain.deals (cfg.dealId dto.instructionId) = fundedDeal cfg dto deadline
  once : ∀ {i j : ℕ} {dto dto' : CreateDvpDto} {pc pc' : FundPc},
    dtos[i]? = some dto → dtos[j]? = some dto' → σ.calls[i]? = some pc → σ.calls[j]? = some pc' →
      σ.landed pc → σ.landed pc' →
        cfg.dealId dto.instructionId = cfg.dealId dto'.instructionId → i = j
  lockup : Lockup cfg dtos T chain σ.chain

theorem Tracked.mono {chain₀ : Contracts} (hI : Tracked cfg chain₀ dtos T σ)
    (h : ∀ i dto deadline, T i dto deadline → T' i dto deadline) :
    Tracked cfg chain₀ dtos T' σ := by
  refine ⟨hI.length_eq, hI.fits, fun hd hq deadline hdl => h _ _ _ (hI.stamped hd hq deadline hdl),
    fun htx => ?_, hI.waits, fun hd hq hl => ?_, hI.once, hI.lockup.mono h⟩
  · obtain ⟨dto, pc, hdto, hsends, hpc⟩ := hI.queued htx
    refine ⟨dto, pc, hdto, ?_, hpc⟩
    generalize SentTx.call _ = call at hsends
    cases hsends with
    | approve => exact .approve
    | fund hT => exact .fund (h _ _ _ hT)
  · obtain ⟨hnone, deadline, hT, hdeal⟩ := hI.landed hd hq hl
    exact ⟨hnone, deadline, h _ _ _ hT, hdeal⟩

theorem Tracked.exists_dto {chain₀ : Contracts} (hI : Tracked cfg chain₀ dtos T σ)
    (hpc : σ.calls[i]? = some pc) : ∃ dto, dtos[i]? = some dto := by
  have hlt : i < σ.calls.length := (List.getElem?_eq_some_iff.mp hpc).1
  exact ⟨_, List.getElem?_eq_getElem (hI.length_eq ▸ hlt)⟩

/-- What an answer makes of a call: it sends its next transaction and waits for it, or it does
not wait, and its money is in the escrow only if it was before. -/
theorem resume_cases (hfits : pc = .threw ∨ Fits dto pc) (hanswers : σ.answers cfg pc answer = true)
    (hstep : fundStep pc answer = some pc') :
    (∃ call rest, pc = .send call rest ∧ pc' = .wait σ.sentCount call rest ∧
      State.outgoing i pc answer = [⟨i, call⟩]) ∨
    ((∀ n call rest, pc' ≠ .wait n call rest) ∧ State.outgoing i pc answer = [] ∧
      (σ.landed pc' → σ.landed pc) ∧
      ∀ n call rest, pc = .wait n call rest → n < σ.receipts.length) := by
  rcases hfits with rfl | hfits
  · cases hstep
  cases hfits with
  | getBlock =>
    cases answer <;> cases hstep
    exact .inr ⟨fun _ _ _ h => (by cases h), rfl, id, fun _ _ _ h => (by cases h)⟩
  | allowance deadline =>
    cases answer <;> cases hstep
    unfold approveAndFund
    split_ifs <;>
      exact .inr ⟨fun _ _ _ h => (by cases h), rfl, id, fun _ _ _ h => (by cases h)⟩
  | approve deadline | fund deadline =>
    cases answer <;> cases hstep
    · obtain ⟨-, rfl⟩ : _ ∧ _ = σ.sentCount := by simpa [State.answers] using hanswers
      exact .inl ⟨_, _, rfl, rfl, rfl⟩
    · exact .inr ⟨fun _ _ _ h => (by cases h), rfl, fun h => h.elim, fun _ _ _ h => (by cases h)⟩
  | approved number deadline | funded number deadline =>
    cases answer with
    | mined success =>
      cases hstep
      have hreceipt : σ.receipts[number]? = some success := of_decide_eq_true hanswers
      have hlt : number < σ.receipts.length := (List.getElem?_eq_some_iff.mp hreceipt).1
      refine .inr ⟨fun _ _ _ h => ?_, rfl, fun h => ?_, fun _ _ _ h => ?_⟩
      · split_ifs at h
        cases h
      · split_ifs at h with hsuccess
        · first | exact h.elim | (rw [hsuccess] at hreceipt; exact hreceipt)
        · exact h.elim
      · cases h
        exact hlt
    | _ => cases hstep
  | returned => cases hstep

theorem Tracked.resumes {chain₀ : Contracts} {sent : List SentTx} (hI : Tracked cfg chain₀ dtos T σ)
    (hpc : σ.calls[i]? = some pc) (hdto : dtos[i]? = some dto) (hfits : pc' = .threw ∨ Fits dto pc')
    (hstamped : ∀ deadline ∈ pc'.deadline, T i dto deadline)
    (hlanded : σ.landed pc' → σ.landed pc)
    (hgone : pc' = .threw ∨
      pc ≠ .threw ∧ ∀ n call rest, pc = .wait n call rest → n < σ.receipts.length)
    (hsent : (∃ call, sent = [⟨i, call⟩] ∧ Sends (T i dto) dto call ∧
        (pc' = .threw ∨ ∃ rest, pc' = .wait σ.sentCount call rest)) ∨
      sent = [] ∧ ∀ n call rest, pc' ≠ .wait n call rest) :
    Tracked cfg chain₀ dtos T { σ with calls := σ.calls.set i pc', queue := σ.queue ++ sent } := by
  have hlt : i < σ.calls.length := (List.getElem?_eq_some_iff.mp hpc).1
  have hself : (σ.calls.set i pc')[i]? = some pc' := List.getElem?_set_self hlt
  -- where a landed call of the new state was before
  have hbefore : ∀ {k : ℕ} {q : FundPc}, (σ.calls.set i pc')[k]? = some q → σ.landed q →
      ∃ q₀, σ.calls[k]? = some q₀ ∧ σ.landed q₀ := by
    intro k q hq hl
    rcases getElem?_set_cases hq with ⟨rfl, rfl⟩ | ⟨-, hold⟩
    · exact ⟨pc, hpc, hlanded hl⟩
    · exact ⟨q, hold, hl⟩
  constructor
  case length_eq => rw [List.length_set, hI.length_eq]
  case fits =>
    intro k d q hd hq
    rcases getElem?_set_cases hq with ⟨rfl, rfl⟩ | ⟨-, hold⟩
    · obtain rfl := Option.some.inj (hdto.symm.trans hd)
      exact hfits
    · exact hI.fits hd hold
  case stamped =>
    intro k d q hd hq
    rcases getElem?_set_cases hq with ⟨rfl, rfl⟩ | ⟨-, hold⟩
    · obtain rfl := Option.some.inj (hdto.symm.trans hd)
      exact hstamped
    · exact hI.stamped hd hold
  case queued =>
    intro k tx htx
    rw [List.getElem?_append] at htx
    split_ifs at htx with hk
    · obtain ⟨d, q, hd, hsends, hq, hwait⟩ := hI.queued htx
      by_cases heq : tx.sender = i
      · refine ⟨d, pc', hd, hsends, by rw [heq, hself], ?_⟩
        rw [heq, hpc] at hq
        obtain rfl := Option.some.inj hq
        rcases hgone with hthrew | ⟨hnot, hgone⟩
        · exact .inl hthrew
        · rcases hwait with hthrew | ⟨rest, hwait⟩
          · exact absurd hthrew hnot
          · exact absurd (hgone _ _ _ hwait) (by omega)
      · exact ⟨d, q, hd, hsends, (List.getElem?_set_ne (Ne.symm heq)).trans hq, hwait⟩
    · rcases hsent with ⟨call, rfl, hsends, hnext⟩ | ⟨rfl, -⟩
      · obtain ⟨hk0, -⟩ := List.getElem?_eq_some_iff.mp htx
        have hk' : σ.queue.length = k := by
          rw [List.length_singleton] at hk0
          omega
        obtain rfl : tx = ⟨i, call⟩ := by simpa [← hk'] using htx.symm
        refine ⟨dto, pc', hdto, hsends, hself, ?_⟩
        rwa [← hk']
      · cases htx
  case waits =>
    intro k n call rest hwait
    rcases getElem?_set_cases hwait with ⟨rfl, rfl⟩ | ⟨-, hold⟩
    · rcases hsent with ⟨call', rfl, -, hthrew | ⟨rest', heq⟩⟩ | ⟨-, hnot⟩
      · cases hthrew
      · cases heq
        exact .inr ⟨σ.queue.length, rfl, List.getElem?_concat_length⟩
      · exact absurd rfl (hnot n call rest)
    · refine (hI.waits hold).imp_right fun ⟨m, hn, htx⟩ => ⟨m, hn, ?_⟩
      rw [List.getElem?_append_left (List.getElem?_eq_some_iff.mp htx).1]
      exact htx
  case landed =>
    intro k d q hd hq hl
    obtain ⟨q₀, hq₀, hl₀⟩ := hbefore hq hl
    exact hI.landed hd hq₀ hl₀
  case once =>
    intro k l d d' q q' hd hd' hq hq' hl hl' heq
    obtain ⟨q₀, hq₀, hl₀⟩ := hbefore hq hl
    obtain ⟨q₁, hq₁, hl₁⟩ := hbefore hq' hl'
    exact hI.once hd hd' hq₀ hq₁ hl₀ hl₁ heq
  case lockup => exact hI.lockup

theorem tracked_resume {chain₀ : Contracts} (hI : Tracked cfg chain₀ dtos T σ)
    (hblock : ∀ timestamp, answer = .block timestamp →
      ∀ dto : CreateDvpDto, T i dto (timestamp + dto.deadlineSeconds.getD 3600))
    (h : step cfg σ (.resume i answer) = some σ') : Tracked cfg chain₀ dtos T σ' := by
  unfold step at h
  rcases hpc : σ.calls[i]? with _ | pc
  · simp only [hpc] at h
    cases h
  simp only [hpc] at h
  split_ifs at h with hanswers
  obtain ⟨pc', hpc', rfl⟩ := Option.map_eq_some_iff.mp h
  obtain ⟨dto, hdto⟩ := hI.exists_dto hpc
  have hfits : Fits dto pc := (hI.fits hdto hpc).resolve_left fun hthrew => by
    rw [hthrew] at hpc'
    cases hpc'
  have hnot : pc ≠ .threw := fun hthrew => by
    rw [hthrew] at hpc'
    cases hpc'
  have hstamped : ∀ deadline ∈ pc'.deadline, T i dto deadline := fun deadline hdl => by
    rcases deadline_fundStep hfits hpc' deadline hdl with hold | ⟨timestamp, hanswer, rfl⟩
    · exact hI.stamped hdto hpc deadline hold
    · exact hblock timestamp hanswer dto
  have hfits' := fits_fundStep hfits hpc'
  rcases resume_cases (i := i) (.inr hfits) hanswers hpc' with
    ⟨call, rest, rfl, rfl, hout⟩ | ⟨hwait, hout, hlanded, hgone⟩ <;> rw [hout]
  · have hsends := sends_of_fits hfits (hI.stamped hdto hpc)
    refine hI.resumes hpc hdto hfits' hstamped (fun hl => ?_) (.inr ⟨hnot, nofun⟩)
      (.inl ⟨call, rfl, hsends, .inr ⟨rest, rfl⟩⟩)
    -- what was just sent has no receipt
    cases call with
    | fund =>
      have hlt := (List.getElem?_eq_some_iff.mp hl).1
      exact absurd hlt (by unfold State.sentCount; omega)
    | _ => exact hl.elim
  · exact hI.resumes hpc hdto hfits' hstamped hlanded (.inr ⟨hnot, hgone⟩) (.inr ⟨rfl, hwait⟩)

theorem Tracked.landed_after {chain₀ : Contracts} {tx : SentTx} {queue : List SentTx} {ok : Bool}
    (hI : Tracked cfg chain₀ dtos T σ) (hqueue : σ.queue = tx :: queue)
    (hσ' : σ'.receipts = σ.receipts ++ [ok]) (hpc : σ.calls[i]? = some pc) (hl : σ'.landed pc) :
    σ.landed pc ∨ ok = true ∧ i = tx.sender ∧
      ∃ n rest, pc = .wait n tx.call rest ∧ ∀ amount, tx.call ≠ .approve amount := by
  unfold State.landed at hl ⊢
  split at hl
  · rename_i n a b c d rest
    rw [hσ', List.getElem?_append] at hl
    split_ifs at hl with hlt
    · exact .inl hl
    · rcases hI.waits hpc with hlt' | ⟨k, rfl, hk⟩
      · exact absurd hlt' hlt
      · obtain ⟨hk0, hok⟩ := List.getElem?_eq_some_iff.mp hl
        have hk0' : k = 0 := by
          rw [List.length_singleton] at hk0
          omega
        subst hk0'
        rw [hqueue] at hk
        obtain rfl := Option.some.inj hk
        exact .inr ⟨by simpa using hok, rfl, _, rest, rfl, fun _ heq => by cases heq⟩
  · exact .inl trivial
  · exact hl.elim

theorem Tracked.executes {chain₀ chain' : Contracts} {tx : SentTx} {queue : List SentTx} {ok : Bool}
    (hne : cfg.operator ≠ cfg.escrow) (hI : Tracked cfg chain₀ dtos T σ)
    (hqueue : σ.queue = tx :: queue) (hdto : dtos[tx.sender]? = some dto)
    (hdid : (ok = false ∧ chain' = σ.chain) ∨
      ok = true ∧ Does cfg (T tx.sender dto) dto σ.chain chain' tx.call) :
    Tracked cfg chain₀ dtos T
      { σ with chain := chain', queue, receipts := σ.receipts ++ [ok] } := by
  have hlockup : Lockup cfg dtos T chain₀ chain' := by
    rcases hdid with ⟨-, rfl⟩ | ⟨-, hdoes⟩
    · exact hI.lockup
    · exact hI.lockup.executes hne hdto hdoes
  -- the deal of a call that had landed is not touched
  have hkept : ∀ {k : ℕ} {d : CreateDvpDto} {q : FundPc}, dtos[k]? = some d →
      σ.calls[k]? = some q → σ.landed q →
      chain'.deals (cfg.dealId d.instructionId) = σ.chain.deals (cfg.dealId d.instructionId) := by
    intro k d q hd hq hl
    obtain ⟨-, deadline, -, hdeal⟩ := hI.landed hd hq hl
    rcases hdid with ⟨-, rfl⟩ | ⟨-, hdoes⟩
    · rfl
    · exact hdoes.keeps (by rw [hdeal]; nofun)
  -- the call whose fund has just succeeded
  have hnew : ok = true → (∀ amount, tx.call ≠ .approve amount) →
      (σ.chain.deals (cfg.dealId dto.instructionId)).state = .none ∧
        ∃ deadline, T tx.sender dto deadline ∧
          chain'.deals (cfg.dealId dto.instructionId) = fundedDeal cfg dto deadline := by
    intro hok hnot
    rcases hdid with ⟨hfailed, -⟩ | ⟨-, hdoes⟩
    · rw [hok] at hfailed
      cases hfailed
    · exact hdoes.funds hnot
  constructor
  case length_eq => exact hI.length_eq
  case fits => exact hI.fits
  case stamped => exact hI.stamped
  case queued =>
    intro k tx' htx'
    have htail : σ.queue[k + 1]? = some tx' := by rw [hqueue]; exact htx'
    have hcount : (σ.receipts ++ [ok]).length + k = σ.receipts.length + (k + 1) := by
      rw [List.length_append, List.length_singleton, Nat.add_assoc, Nat.add_comm 1 k]
    rw [hcount]
    exact hI.queued htail
  case waits =>
    intro i n call rest' hwait'
    rw [List.length_append, List.length_singleton]
    rcases hI.waits hwait' with hlt | ⟨k, rfl, hk⟩
    · exact .inl (by omega)
    · cases k with
      | zero => exact .inl (by omega)
      | succ k =>
        rw [hqueue] at hk
        exact .inr ⟨k, by omega, hk⟩
  case landed =>
    intro i d q hd hq hl
    rcases hI.landed_after hqueue rfl hq hl with hold | ⟨hok, rfl, n, rest', rfl, hnot⟩
    · rw [hkept hd hq hold]
      exact hI.landed hd hq hold
    · obtain rfl := Option.some.inj (hdto.symm.trans hd)
      obtain ⟨hunused, hdeal⟩ := hnew hok hnot
      refine ⟨?_, hdeal⟩
      rcases hI.lockup.deals (cfg.dealId dto.instructionId) with hsame | ⟨hnone, -⟩
      · rw [← hsame]
        exact hunused
      · exact hnone
  case once =>
    -- a fund cannot succeed for a deal that exists
    have hclash : ∀ {i : ℕ} {d : CreateDvpDto} {q : FundPc},
        dtos[i]? = some d → σ.calls[i]? = some q → σ.landed q →
        ok = true → (∀ amount, tx.call ≠ .approve amount) →
        cfg.dealId d.instructionId ≠ cfg.dealId dto.instructionId := by
      intro i d q hd hq hl hok hnot heq
      obtain ⟨-, deadline, -, hdeal⟩ := hI.landed hd hq hl
      have hunused := (hnew hok hnot).1
      rw [← heq, hdeal] at hunused
      cases hunused
    intro i j d d' q q' hd hd' hq hq' hl hl' heq
    rcases hI.landed_after hqueue rfl hq hl with hold | ⟨hok, hi, n, rest', -, hnot⟩ <;>
      rcases hI.landed_after hqueue rfl hq' hl' with hold' | ⟨hok', hj, n', rest'', -, hnot'⟩
    · exact hI.once hd hd' hq hq' hold hold' heq
    · rw [hj, hdto] at hd'
      exact absurd (Option.some.inj hd' ▸ heq) (hclash hd hq hold hok' hnot')
    · rw [hi, hdto] at hd
      exact absurd (Option.some.inj hd ▸ heq.symm) (hclash hd' hq' hold' hok hnot)
    · rw [hi, hj]
  case lockup => exact hlockup

theorem tracked_execute {chain₀ : Contracts} (hne : cfg.operator ≠ cfg.escrow)
    (hI : Tracked cfg chain₀ dtos T σ) (h : step cfg σ .execute = some σ') :
    Tracked cfg chain₀ dtos T σ' := by
  simp only [step] at h
  split at h
  · cases h
  rename_i tx queue hqueue
  cases h
  have hhead : σ.queue[0]? = some tx := by rw [hqueue]; rfl
  obtain ⟨dto, pc, hdto, hsends, -⟩ := hI.queued hhead
  refine hI.executes hne hqueue hdto ?_
  rcases hexecutes : σ.chain.execute cfg tx.call with _ | chain'
  · exact .inl ⟨rfl, rfl⟩
  · exact .inr ⟨rfl, hsends.does hexecutes⟩

theorem tracked_fault {chain₀ : Contracts} {fault : Fault} (hne : cfg.operator ≠ cfg.escrow)
    (hI : Tracked cfg chain₀ dtos T σ) (h : faultStep σ fault = some σ') :
    Tracked cfg chain₀ dtos T σ' := by
  cases fault with
  | rejects i =>
    simp only [faultStep] at h
    split at h
    · rename_i pc hpc
      split_ifs at h
      cases h
      obtain ⟨dto, hdto⟩ := hI.exists_dto hpc
      have hthrown : Tracked cfg chain₀ dtos T
          { σ with calls := σ.calls.set i .threw, queue := σ.queue ++ [] } :=
        hI.resumes hpc hdto (.inl rfl) nofun (fun hl => hl.elim) (.inl rfl) (.inr ⟨rfl, nofun⟩)
      rwa [List.append_nil] at hthrown
    · cases h
  | sentAnyway i =>
    simp only [faultStep] at h
    split at h
    · rename_i call rest hpc
      cases h
      obtain ⟨dto, hdto⟩ := hI.exists_dto hpc
      have hfits := (hI.fits hdto hpc).resolve_left nofun
      exact hI.resumes hpc hdto (.inl rfl) nofun (fun hl => hl.elim) (.inl rfl)
        (.inl ⟨call, rfl, sends_of_fits hfits (hI.stamped hdto hpc), .inl rfl⟩)
    · cases h
  | loses =>
    simp only [faultStep] at h
    split at h
    · cases h
    · rename_i tx queue hqueue
      cases h
      have hhead : σ.queue[0]? = some tx := by rw [hqueue]; rfl
      obtain ⟨dto, -, hdto, -⟩ := hI.queued hhead
      exact hI.executes hne hqueue hdto (.inl ⟨rfl, rfl⟩)

variable {es : List (FundingEvent ⊕ Fault)}

/-- Call `i` read a time in this run, and its deadline is that much later as the request asks for, an
hour where it says nothing. -/
def Stamped (es : List (FundingEvent ⊕ Fault)) (i : ℕ) (dto : CreateDvpDto) (deadline : ℕ) : Prop :=
  ∃ timestamp, .inl (.resume i (.block timestamp)) ∈ es ∧
    deadline = timestamp + dto.deadlineSeconds.getD 3600

theorem tracked_step {chain₀ : Contracts} {e : FundingEvent ⊕ Fault}
    (hne : cfg.operator ≠ cfg.escrow) (hI : Tracked cfg chain₀ dtos (Stamped es) σ)
    (h : faultyStep cfg σ e = some σ') : Tracked cfg chain₀ dtos (Stamped (es ++ [e])) σ' := by
  have hI' : Tracked cfg chain₀ dtos (Stamped (es ++ [e])) σ :=
    hI.mono fun _ _ _ ⟨timestamp, hmem, hdl⟩ => ⟨timestamp, List.mem_append_left _ hmem, hdl⟩
  rcases e with (now | _ | ⟨i, answer⟩) | fault
  · simp only [faultyStep, step] at h
    split_ifs at h
    cases h
    exact ⟨hI'.length_eq, hI'.fits, hI'.stamped, hI'.queued, hI'.waits, hI'.landed, hI'.once,
      ⟨hI'.lockup.deals, hI'.lockup.operator, hI'.lockup.escrow, hI'.lockup.others⟩⟩
  · exact tracked_execute hne hI' h
  · refine tracked_resume hI' ?_ h
    rintro timestamp rfl dto
    exact ⟨timestamp, List.mem_append_right _ List.mem_cons_self, rfl⟩
  · exact tracked_fault hne hI' h

theorem tracked_called : Tracked cfg chain dtos T (called chain dtos) := by
  have hstart : ∀ {i : ℕ} {pc : FundPc}, (dtos.map FundPc.start)[i]? = some pc →
      ∃ dto, dtos[i]? = some dto ∧ FundPc.start dto = pc := by
    intro i pc hpc
    rw [List.getElem?_map] at hpc
    exact Option.map_eq_some_iff.mp hpc
  constructor
  case length_eq => exact List.length_map _
  case fits =>
    intro i dto pc hdto hpc
    obtain ⟨dto', hdto', rfl⟩ := hstart hpc
    rw [hdto] at hdto'
    exact .inr (Option.some.inj hdto' ▸ .getBlock)
  case stamped =>
    intro i dto pc hdto hpc
    obtain ⟨dto', -, rfl⟩ := hstart hpc
    exact nofun
  case queued => exact fun h => absurd h (by simp [called])
  case waits =>
    intro i n call rest hwait
    obtain ⟨dto, -, hpc⟩ := hstart hwait
    cases hpc
  case landed =>
    intro i dto pc hdto hpc hl
    obtain ⟨dto', -, rfl⟩ := hstart hpc
    exact hl.elim
  case once =>
    intro i j d d' q q' hd hd' hq hq' hl
    obtain ⟨dto', -, rfl⟩ := hstart hq
    exact hl.elim
  case lockup => exact ⟨fun id => .inl rfl, rfl, rfl, fun _ _ _ => rfl⟩

theorem tracked_run (hne : cfg.operator ≠ cfg.escrow)
    (h : RunUnder (faultyStep cfg) (fun _ _ => True) (called chain dtos) es σ) :
    Tracked cfg chain dtos (Stamped es) σ := by
  induction h with
  | nil => exact tracked_called
  | snoc _ _ hs ih => exact tracked_step hne ih hs

/-- For one deal at most one call returns. It found the deal unused, and the escrow now holds its
terms. What the operator paid is what the escrow got and what the new deals lock, each of them for
the terms of a call; existing deals and other accounts are as they were. -/
theorem funded_once (hne : cfg.operator ≠ cfg.escrow)
    (h : RunUnder (faultyStep cfg) (fun _ _ => True) (called chain dtos) es σ) :
    (∀ (i j : ℕ) (dto dto' : CreateDvpDto), dtos[i]? = some dto → dtos[j]? = some dto' →
      σ.calls[i]? = some .returned → σ.calls[j]? = some .returned →
        cfg.dealId dto.instructionId = cfg.dealId dto'.instructionId → i = j) ∧
    (∀ (i : ℕ) (dto : CreateDvpDto), dtos[i]? = some dto → σ.calls[i]? = some .returned →
      (chain.deals (cfg.dealId dto.instructionId)).state = .none ∧
        ∃ deadline, Stamped es i dto deadline ∧
          σ.chain.deals (cfg.dealId dto.instructionId) = fundedDeal cfg dto deadline) ∧
    Lockup cfg dtos (Stamped es) chain σ.chain := by
  have hI := tracked_run hne h
  refine ⟨fun i j dto dto' hd hd' hi hj heq => ?_, fun i dto hd hi => ?_, hI.lockup⟩
  · exact hI.once hd hd' hi hj trivial trivial heq
  · exact hI.landed hd hi trivial

/-- One instruction is submitted three times. The error of its own send reaches the first call,
whose approval is on its way; the fund transactions of the others are on their way at a time. -/
def bothFund : List (FundingEvent ⊕ Fault) :=
  [.inl (.resume 0 (.block 0)), .inl (.resume 1 (.block 5)), .inl (.resume 2 (.block 5)),
    .inl (.resume 0 (.allowance 0)), .inr (.sentAnyway 0), .inl .execute,
    .inl (.resume 1 (.allowance 10)), .inl (.resume 2 (.allowance 10)), .inl (.resume 1 (.sent 1)),
    .inl (.resume 2 (.sent 2)), .inl .execute, .inl .execute, .inl (.resume 1 (.mined true)),
    .inl (.resume 2 (.mined false))]

theorem resubmission_funded_once : ∃ σ,
    RunUnder (faultyStep twoDeals) (fun _ _ => True) (called richOperator [ten, ten, ten]) bothFund
      σ ∧ σ.calls = [.threw, .returned, .threw] ∧
    ∃ deadline, Stamped bothFund 1 ten deadline ∧
      σ.chain.deals 0 = fundedDeal twoDeals ten deadline := by
  obtain ⟨σ, hrun, hcalls⟩ := exists_runUnder_of_checkedRun (faultyStep twoDeals) (fun _ _ => True)
    (called richOperator [ten, ten, ten]) bothFund
    (fun σ => σ.calls = [.threw, .returned, .threw]) (by decide +kernel)
  have hcalls := of_decide_eq_true hcalls
  refine ⟨σ, hrun, hcalls, ?_⟩
  exact ((funded_once (by decide) hrun).2.1 1 ten rfl (by rw [hcalls]; rfl)).2

end Rail.Funding
