import SettlementRail.Escrow.Solvency
import SettlementRail.Foundation.Quiescence
import SettlementRail.Foundation.ThreadPool
import SettlementRail.Model.DvpFundings

/-! Parallel `DvpService.fund` calls draw on one allowance. Between its check (or its approval) and
its fund a call relies on that allowance without holding anything that keeps the others off it. -/

namespace Rail.Funding
open Foundation Escrow

variable {cfg : DvpConfig} {dtos : List CreateDvpDto} {σ σ' : State} {dto : CreateDvpDto}
  {pc pc' : FundPc} {answer : FundAnswer} {i n deadline : ℕ} {call : Call} {rest : List Call}

inductive SameAwait : DvpPc → FundPc → Prop
  | getBlock (dto : CreateDvpDto) (n : ℕ) : SameAwait (.getBlock dto n) (.getBlock dto n)
  | allowance (dto : CreateDvpDto) (n deadline : ℕ) :
      SameAwait (.allowance dto n deadline) (.allowance dto n deadline)
  | populate (call : Call) (rest : List Call) : SameAwait (.populate call rest) (.send call rest)
  | send (nonce : ℕ) (call : Call) (rest : List Call) :
      SameAwait (.send nonce call rest) (.send call rest)
  | wait (tx : Tx) (number : ℕ) (rest : List Call) :
      SameAwait (.wait tx rest) (.wait number tx.call rest)
  | returned : SameAwait .returned .returned
  | threw : SameAwait .threw .threw

theorem sameAwait_start (dto : CreateDvpDto) :
    SameAwait (dvpStart (.fund dto)) (FundPc.start dto) := .getBlock dto dto.amount

theorem sameAwait_next (calls : List Call) : SameAwait (dvpNext calls) (FundPc.next calls) := by
  cases calls with
  | nil => exact .returned
  | cons call rest => exact .populate call rest

theorem sameAwait_approveOrFund (baseUnits a : ℕ) (fund : Call) :
    SameAwait (dvpApproveOrFund baseUnits a fund) (.next (approveAndFund baseUnits a fund)) := by
  unfold dvpApproveOrFund approveAndFund
  split_ifs
  · exact .populate _ _
  · exact .populate _ _

/-- A step of a call of the system is an answer here, or only looks up the nonce. -/
theorem sameAwait_step {node : Node} {index : ℕ} {dvp : DvpPc} {e : DvpEvent} {out : DvpOut}
    (hsame : SameAwait dvp pc) (he : e ≠ .callError) (h : dvpStep node index dvp e = some out) :
    SameAwait out.pc pc ∨
      ∃ answer pc', fundStep pc answer = some pc' ∧ SameAwait out.pc pc' := by
  unfold dvpStep at h
  split at h
  · cases h
    cases hsame
    exact .inr ⟨.block _, _, rfl, .allowance _ _ _⟩
  · cases h
    cases hsame
    exact .inr ⟨.allowance _, _, rfl, sameAwait_approveOrFund _ _ _⟩
  · cases h
    cases hsame
    exact .inl (.send _ _ _)
  · cases h
    cases hsame
    exact .inr ⟨.refused, _, rfl, .threw⟩
  · split_ifs at h with haccepts hreply <;> cases h <;> cases hsame
    · exact .inr ⟨.sent 0, _, rfl, .wait _ _ _⟩
    · exact .inr ⟨.refused, _, rfl, .threw⟩
  · split at h
    · cases h
    · rename_i receipt hreceipt
      cases h
      cases hsame
      refine .inr ⟨.mined receipt.success, _, rfl, ?_⟩
      split_ifs
      · exact sameAwait_next _
      · exact .threw
  · cases h
  · cases h
  · exact absurd rfl he
  · cases h

def State.allowance (cfg : DvpConfig) (σ : State) : ℕ :=
  σ.chain.token.allowance cfg.operator cfg.escrow

/-- What a call counts on: it has checked or approved that much and not consumed it yet. -/
def State.countsOn (σ : State) : FundPc → ℕ
  | .send (.fund _ _ amount _) _ => amount
  | .wait number (.fund _ _ amount _) _ => if number < σ.receipts.length then 0 else amount
  | .wait number (.approve amount) _ => if number < σ.receipts.length then amount else 0
  | _ => 0

/-- What a transaction leaves of an allowance. -/
def leaves (allowance : ℕ) : Call → ℕ
  | .approve amount => amount
  | .fund _ _ amount _ => if allowance ≠ maxUint256 then allowance - amount else allowance
  | .transfer _ _ | .release _ => allowance

def inTime (now : ℕ) : Call → Bool
  | .fund _ _ _ deadline => now < deadline
  | _ => true

/-- A transaction is sent and executed before its deadline, and when it is executed it leaves
every other call what that call counts on. -/
def Spares (cfg : DvpConfig) (σ : State) : FundingEvent → Prop
  | .block _ => True
  | .execute => ∀ tx ∈ σ.queue.head?, inTime σ.chain.now tx.call = true ∧
      ∀ i < σ.calls.length, i ≠ tx.sender →
        ∀ pc ∈ σ.calls[i]?, σ.countsOn pc ≤ leaves (σ.allowance cfg) tx.call
  | .resume i _ => ∀ pc ∈ σ.calls[i]?,
      match pc with
      | .send call _ => inTime σ.chain.now call = true
      | _ => True

instance decidableSpares (cfg : DvpConfig) : ∀ σ e, Decidable (Spares cfg σ e)
  | _, .block _ => .isTrue trivial
  | σ, .execute => inferInstanceAs (Decidable (∀ tx ∈ σ.queue.head?,
      inTime σ.chain.now tx.call = true ∧ ∀ i < σ.calls.length, i ≠ tx.sender →
        ∀ pc ∈ σ.calls[i]?, σ.countsOn pc ≤ leaves (σ.allowance cfg) tx.call))
  | σ, .resume i _ =>
    match h : σ.calls[i]? with
    | some (.send call _) =>
      decidable_of_iff (inTime σ.chain.now call = true) (by simp [Spares, h])
    | some (.getBlock _ _) | some (.allowance _ _ _) | some (.wait _ _ _) | some .returned
    | some .threw | none => .isTrue (by simp [Spares, h])

def State.Queued (σ : State) (i : ℕ) : FundPc → Prop
  | .wait number call _ =>
    ∃ k, number = σ.receipts.length + k ∧ σ.queue[k]? = some { sender := i, call }
  | _ => False

/-- Every fund transaction finds its allowance, none reverts, no call throws, a call that has
returned has its deal funded, and one that has not ended goes on. -/
structure FundsThrough (cfg : DvpConfig) (dtos : List CreateDvpDto) (σ : State) : Prop where
  allowed : ∀ (i : ℕ) dealId beneficiary amount deadline,
    σ.queue.head? = some ⟨i, .fund dealId beneficiary amount deadline⟩ → amount ≤ σ.allowance cfg
  succeeded : ∀ ok ∈ σ.receipts, ok = true
  noneThrew : FundPc.threw ∉ σ.calls
  funded : ∀ (i : ℕ) (dto : CreateDvpDto), dtos[i]? = some dto →
    σ.calls[i]? = some .returned → (σ.chain.deals (cfg.dealId dto.instructionId)).state = .funded
  goesOn : ∀ (i : ℕ) (pc : FundPc), σ.calls[i]? = some pc → pc = .returned ∨ σ.Queued i pc ∨
    ∃ answer, (step cfg σ (.resume i answer)).isSome

def fundedDeal (cfg : DvpConfig) (dto : CreateDvpDto) (deadline : ℕ) : Deal :=
  { depositor := cfg.operator, beneficiary := cfg.account dto.beneficiary
    amount := dto.amount, deadline, state := .funded }

theorem execute_fund {chain : Contracts} (hpos : 0 < dto.amount)
    (htime : inTime chain.now (fundCall dto dto.amount deadline) = true)
    (hunused : (chain.deals (cfg.dealId dto.instructionId)).state = .none)
    (hallowed : dto.amount ≤ chain.token.allowance cfg.operator cfg.escrow)
    (hfunds : dto.amount ≤ chain.token.balanceOf cfg.operator) :
    ∃ chain', chain.execute cfg (fundCall dto dto.amount deadline) = some chain' ∧
      chain'.token.allowance cfg.operator cfg.escrow =
        leaves (chain.token.allowance cfg.operator cfg.escrow)
          (fundCall dto dto.amount deadline) ∧
      chain.token.balanceOf cfg.operator ≤
        chain'.token.balanceOf cfg.operator + dto.amount ∧
      ∀ id, (chain'.deals id).state =
        if id = cfg.dealId dto.instructionId then .funded else (chain.deals id).state := by
  have hfund : Escrow.fund chain.deals cfg.operator chain.now (cfg.dealId dto.instructionId)
      (cfg.account dto.beneficiary) dto.amount deadline =
      .ok (Function.update chain.deals (cfg.dealId dto.instructionId)
        (fundedDeal cfg dto deadline), .transferFrom cfg.operator dto.amount) := by
    have htime' : ¬deadline ≤ chain.now := not_le.mpr (of_decide_eq_true htime)
    rw [Escrow.fund, if_neg hpos.ne', if_neg htime', if_neg (not_not.mpr hunused)]
    rfl
  have hmove : ∃ balanceOf, moveBalance chain.token.balanceOf cfg.operator cfg.escrow dto.amount =
      some balanceOf := ⟨_, if_neg (not_lt.mpr hfunds)⟩
  obtain ⟨balanceOf, hmove⟩ := hmove
  have hbalance : chain.token.balanceOf cfg.operator ≤ balanceOf cfg.operator + dto.amount := by
    obtain ⟨-, rfl⟩ := moveBalance_spec hmove
    by_cases heq : cfg.operator = cfg.escrow
    · rw [← heq, Function.update_self, Function.update_self]
      omega
    · rw [Function.update_of_ne heq, Function.update_self]
      omega
  have hexecute : chain.execute cfg (fundCall dto dto.amount deadline) =
      (chain.token.transferFrom cfg.escrow cfg.operator cfg.escrow dto.amount).map fun token =>
        { chain with
          token
          deals := Function.update chain.deals (cfg.dealId dto.instructionId)
            (fundedDeal cfg dto deadline) } := by
    rw [fundCall, Contracts.execute, hfund]
  rw [hexecute, Erc20.transferFrom, if_neg (not_lt.mpr hallowed), hmove]
  refine ⟨_, rfl, ?_, hbalance, fun id => ?_⟩
  · show (if chain.token.allowance cfg.operator cfg.escrow ≠ maxUint256 then
        chain.token.setAllowance cfg.operator cfg.escrow _ else chain.token.allowance)
      cfg.operator cfg.escrow = _
    unfold fundCall leaves Erc20.setAllowance
    split_ifs with hlimited
    · rw [Function.update_self, Function.update_self]
    · rfl
  · show (Function.update chain.deals _ _ id).state = _
    by_cases hid : id = cfg.dealId dto.instructionId
    · rw [hid, Function.update_self, if_pos rfl]
      rfl
    · rw [Function.update_of_ne hid, if_neg hid]

theorem execute_approve (cfg : DvpConfig) (chain : Contracts) (amount : ℕ) :
    ∃ chain', chain.execute cfg (.approve amount) = some chain' ∧
      chain'.token.allowance cfg.operator cfg.escrow = amount ∧
      chain'.token.balanceOf = chain.token.balanceOf ∧ chain'.deals = chain.deals := by
  refine ⟨_, rfl, ?_, rfl, rfl⟩
  show chain.token.setAllowance cfg.operator cfg.escrow amount cfg.operator cfg.escrow = amount
  rw [Erc20.setAllowance, Function.update_self, Function.update_self]

inductive Fits (dto : CreateDvpDto) : FundPc → Prop
  | getBlock : Fits dto (.getBlock dto dto.amount)
  | allowance (deadline : ℕ) : Fits dto (.allowance dto dto.amount deadline)
  | approve (deadline : ℕ) :
      Fits dto (.send (.approve dto.amount) [fundCall dto dto.amount deadline])
  | approved (number deadline : ℕ) :
      Fits dto (.wait number (.approve dto.amount) [fundCall dto dto.amount deadline])
  | fund (deadline : ℕ) : Fits dto (.send (fundCall dto dto.amount deadline) [])
  | funded (number deadline : ℕ) : Fits dto (.wait number (fundCall dto dto.amount deadline) [])
  | returned : Fits dto .returned

def State.paid (σ : State) : FundPc → Bool
  | .wait number (.fund _ _ _ _) _ => number < σ.receipts.length
  | .returned => true
  | _ => false

def unpaid (cfg : DvpConfig) (chain : Contracts) (dto : CreateDvpDto) : ℕ :=
  if (chain.deals (cfg.dealId dto.instructionId)).state = .none then dto.amount else 0

structure Inv (cfg : DvpConfig) (dtos : List CreateDvpDto) (σ : State) : Prop where
  length_eq : σ.calls.length = dtos.length
  fits : ∀ {i : ℕ} {dto : CreateDvpDto} {pc : FundPc},
    dtos[i]? = some dto → σ.calls[i]? = some pc → Fits dto pc
  queued : ∀ {k : ℕ} {tx : SentTx}, σ.queue[k]? = some tx →
    ∃ rest, σ.calls[tx.sender]? = some (.wait (σ.receipts.length + k) tx.call rest)
  waits : ∀ {i n : ℕ} {call : Call} {rest : List Call},
    σ.calls[i]? = some (.wait n call rest) → n < σ.receipts.length ∨
      ∃ k, n = σ.receipts.length + k ∧ σ.queue[k]? = some { sender := i, call }
  succeeded : ∀ ok ∈ σ.receipts, ok = true
  counted : ∀ {i : ℕ} {pc : FundPc}, σ.calls[i]? = some pc → σ.countsOn pc ≤ σ.allowance cfg
  deals : ∀ {i : ℕ} {dto : CreateDvpDto} {pc : FundPc},
    dtos[i]? = some dto → σ.calls[i]? = some pc →
      (σ.chain.deals (cfg.dealId dto.instructionId)).state =
        if σ.paid pc then .funded else .none
  covered : (dtos.map (unpaid cfg σ.chain)).sum ≤ σ.chain.token.balanceOf cfg.operator

theorem Inv.exists_dto (hI : Inv cfg dtos σ) (hpc : σ.calls[i]? = some pc) :
    ∃ dto, dtos[i]? = some dto := by
  have hlt : i < σ.calls.length := (List.getElem?_eq_some_iff.mp hpc).1
  exact ⟨_, List.getElem?_eq_getElem (hI.length_eq ▸ hlt)⟩

theorem Inv.execute_fund (hI : Inv cfg dtos σ) (hpos : ∀ dto ∈ dtos, 0 < dto.amount)
    (hdto : dtos[i]? = some dto) (hpc : σ.calls[i]? = some pc) (hunpaid : σ.paid pc = false)
    (hcounts : σ.countsOn pc = dto.amount)
    (htime : inTime σ.chain.now (fundCall dto dto.amount deadline) = true) :
    ∃ chain', σ.chain.execute cfg (fundCall dto dto.amount deadline) = some chain' ∧
      chain'.token.allowance cfg.operator cfg.escrow =
        leaves (σ.allowance cfg) (fundCall dto dto.amount deadline) ∧
      σ.chain.token.balanceOf cfg.operator ≤
        chain'.token.balanceOf cfg.operator + dto.amount ∧
      ∀ id, (chain'.deals id).state =
        if id = cfg.dealId dto.instructionId then .funded else (σ.chain.deals id).state := by
  have hmem : dto ∈ dtos := List.mem_of_getElem? hdto
  have hunused : (σ.chain.deals (cfg.dealId dto.instructionId)).state = .none := by
    rw [hI.deals hdto hpc, hunpaid]
    rfl
  have hfunds : dto.amount ≤ σ.chain.token.balanceOf cfg.operator := by
    have hterm : unpaid cfg σ.chain dto = dto.amount := if_pos hunused
    have hle : unpaid cfg σ.chain dto ≤ (dtos.map (unpaid cfg σ.chain)).sum :=
      List.le_sum_of_mem (List.mem_map_of_mem hmem)
    exact hterm ▸ hle.trans hI.covered
  exact Funding.execute_fund (hpos dto hmem) htime hunused (hcounts ▸ hI.counted hpc) hfunds

theorem State.countsOn_congr (h : σ'.receipts = σ.receipts) (pc : FundPc) :
    σ'.countsOn pc = σ.countsOn pc := by
  unfold State.countsOn
  rw [h]

theorem State.paid_congr (h : σ'.receipts = σ.receipts) (pc : FundPc) :
    σ'.paid pc = σ.paid pc := by
  unfold State.paid
  rw [h]

theorem Inv.resumes {sent : List SentTx} (hI : Inv cfg dtos σ) (hpc : σ.calls[i]? = some pc)
    (hdto : dtos[i]? = some dto) (hfits : Fits dto pc')
    (hcounted : σ.countsOn pc' ≤ σ.allowance cfg) (hpaid : σ.paid pc' = σ.paid pc)
    (hgone : ∀ {n : ℕ} {call : Call} {rest : List Call}, pc = .wait n call rest →
      n < σ.receipts.length)
    (hsent : (sent = [] ∧ ∀ n call rest, pc' ≠ .wait n call rest) ∨
      ∃ call rest, sent = [⟨i, call⟩] ∧ pc' = .wait σ.sentCount call rest) :
    Inv cfg dtos { σ with calls := σ.calls.set i pc', queue := σ.queue ++ sent } := by
  have hlt : i < σ.calls.length := (List.getElem?_eq_some_iff.mp hpc).1
  constructor
  case length_eq => rw [List.length_set, hI.length_eq]
  case fits =>
    intro k d q hd hq
    rcases getElem?_set_cases hq with ⟨rfl, rfl⟩ | ⟨-, hold⟩
    · obtain rfl := Option.some.inj (hdto.symm.trans hd)
      exact hfits
    · exact hI.fits hd hold
  case queued =>
    intro k tx htx
    rw [List.getElem?_append] at htx
    split_ifs at htx with hk
    · obtain ⟨rest, hwait⟩ := hI.queued htx
      have hne : tx.sender ≠ i := by
        intro heq
        rw [heq, hpc] at hwait
        exact absurd (hgone (Option.some.inj hwait)) (by omega)
      exact ⟨rest, (List.getElem?_set_ne (Ne.symm hne)).trans hwait⟩
    · rcases hsent with ⟨rfl, -⟩ | ⟨call, rest, rfl, rfl⟩
      · cases htx
      · obtain ⟨hk0, htx'⟩ := List.getElem?_eq_some_iff.mp htx
        have hk' : σ.queue.length = k := by
          rw [List.length_singleton] at hk0
          omega
        have heq : tx = ⟨i, call⟩ := by simpa [← hk'] using htx.symm
        exact ⟨rest, by rw [heq, List.getElem?_set_self hlt, ← hk']; rfl⟩
  case waits =>
    intro k n call rest hwait
    rcases getElem?_set_cases hwait with ⟨rfl, heq⟩ | ⟨-, hold⟩
    · rcases hsent with ⟨-, hnot⟩ | ⟨call', rest', rfl, rfl⟩
      · exact absurd heq.symm (hnot n call rest)
      · cases heq
        exact .inr ⟨σ.queue.length, rfl, List.getElem?_concat_length⟩
    · refine (hI.waits hold).imp_right fun ⟨m, hn, htx⟩ => ⟨m, hn, ?_⟩
      rw [List.getElem?_append_left (List.getElem?_eq_some_iff.mp htx).1]
      exact htx
  case succeeded => exact hI.succeeded
  case counted =>
    intro k q hq
    rw [State.countsOn_congr rfl]
    rcases getElem?_set_cases hq with ⟨-, rfl⟩ | ⟨-, hold⟩
    · exact hcounted
    · exact hI.counted hold
  case deals =>
    intro k d q hd hq
    rw [State.paid_congr rfl]
    rcases getElem?_set_cases hq with ⟨rfl, rfl⟩ | ⟨-, hold⟩
    · show _ = if σ.paid q then DealState.funded else DealState.none
      rw [hpaid]
      exact hI.deals hd hpc
    · exact hI.deals hd hold
  case covered => exact hI.covered

theorem inv_resume (hI : Inv cfg dtos σ) (hpos : ∀ dto ∈ dtos, 0 < dto.amount)
    (hspares : Spares cfg σ (.resume i answer)) (h : step cfg σ (.resume i answer) = some σ') :
    Inv cfg dtos σ' := by
  unfold step at h
  rcases hpc : σ.calls[i]? with _ | pc
  · simp only [hpc] at h
    cases h
  simp only [hpc] at h
  split_ifs at h with hanswers
  obtain ⟨pc', hpc', rfl⟩ := Option.map_eq_some_iff.mp h
  obtain ⟨dto, hdto⟩ := hI.exists_dto hpc
  have hfits : Fits dto pc := hI.fits hdto hpc
  have hcounted : σ.countsOn pc ≤ σ.allowance cfg := hI.counted hpc
  have htime : ∀ {call : Call} {rest : List Call}, pc = .send call rest →
      inTime σ.chain.now call = true := by
    rintro call rest rfl
    exact hspares _ hpc
  cases hfits with
  | getBlock =>
    cases answer with
    | block timestamp =>
      cases hpc'
      exact hI.resumes hpc hdto (.allowance _) (Nat.zero_le _) rfl nofun (.inl ⟨rfl, nofun⟩)
    | _ => cases hpc'
  | allowance deadline =>
    cases answer with
    | allowance a =>
      cases hpc'
      have ha : a = σ.allowance cfg := of_decide_eq_true hanswers
      unfold approveAndFund
      split_ifs with hless
      · exact hI.resumes hpc hdto (.approve deadline) (Nat.zero_le _) rfl nofun
          (.inl ⟨rfl, nofun⟩)
      · exact hI.resumes hpc hdto (.fund deadline) (ha ▸ not_lt.mp hless) rfl nofun
          (.inl ⟨rfl, nofun⟩)
    | _ => cases hpc'
  | approve deadline =>
    cases answer with
    | sent number =>
      cases hpc'
      obtain ⟨-, rfl⟩ : _ ∧ number = σ.sentCount := by simpa [State.answers] using hanswers
      refine hI.resumes hpc hdto (.approved _ deadline) ?_ rfl nofun (.inr ⟨_, _, rfl, rfl⟩)
      show (if σ.sentCount < σ.receipts.length then dto.amount else 0) ≤ _
      rw [if_neg (by unfold State.sentCount; omega)]
      exact Nat.zero_le _
    | refused =>
      obtain ⟨chain', hchain, -⟩ := execute_approve cfg σ.chain dto.amount
      simp [State.answers, hchain] at hanswers
    | _ => cases hpc'
  | approved number deadline =>
    cases answer with
    | mined success =>
      cases hpc'
      have hreceipt : σ.receipts[number]? = some success := of_decide_eq_true hanswers
      have hlt : number < σ.receipts.length := (List.getElem?_eq_some_iff.mp hreceipt).1
      rw [hI.succeeded success (List.mem_of_getElem? hreceipt), if_pos rfl]
      rw [State.countsOn, if_pos hlt] at hcounted
      exact hI.resumes hpc hdto (.fund deadline) hcounted rfl (fun he => by cases he; exact hlt)
        (.inl ⟨rfl, nofun⟩)
    | _ => cases hpc'
  | fund deadline =>
    cases answer with
    | sent number =>
      cases hpc'
      obtain ⟨-, rfl⟩ : _ ∧ number = σ.sentCount := by simpa [State.answers] using hanswers
      have hnot : ¬σ.sentCount < σ.receipts.length := by unfold State.sentCount; omega
      refine hI.resumes hpc hdto (.funded _ deadline) ?_ (decide_eq_false hnot) nofun
        (.inr ⟨_, _, rfl, rfl⟩)
      show (if σ.sentCount < σ.receipts.length then 0 else dto.amount) ≤ _
      rw [if_neg hnot]
      exact hcounted
    | refused =>
      obtain ⟨chain', hchain, -⟩ := hI.execute_fund hpos hdto hpc rfl rfl (htime rfl)
      simp [State.answers, hchain] at hanswers
    | _ => cases hpc'
  | funded number deadline =>
    cases answer with
    | mined success =>
      cases hpc'
      have hreceipt : σ.receipts[number]? = some success := of_decide_eq_true hanswers
      have hlt : number < σ.receipts.length := (List.getElem?_eq_some_iff.mp hreceipt).1
      rw [hI.succeeded success (List.mem_of_getElem? hreceipt), if_pos rfl]
      exact hI.resumes hpc hdto .returned (Nat.zero_le _) (decide_eq_true hlt).symm
        (fun he => by cases he; exact hlt) (.inl ⟨rfl, nofun⟩)
    | _ => cases hpc'
  | returned => cases hpc'

theorem Inv.others {tx : SentTx} {queue : List SentTx} {ok : Bool} (hI : Inv cfg dtos σ)
    (hqueue : σ.queue = tx :: queue) (hσ' : σ'.receipts = σ.receipts ++ [ok])
    (hpc : σ.calls[i]? = some pc) (hne : i ≠ tx.sender) :
    σ'.countsOn pc = σ.countsOn pc ∧ σ'.paid pc = σ.paid pc := by
  have hnot : ∀ {n : ℕ} {call : Call} {rest : List Call}, pc = .wait n call rest →
      (n < σ'.receipts.length ↔ n < σ.receipts.length) := by
    rintro n call rest rfl
    rw [hσ', List.length_append, List.length_singleton]
    rcases hI.waits hpc with hlt | ⟨k, rfl, hk⟩
    · omega
    · rcases k with _ | k
      · rw [hqueue] at hk
        exact absurd (congrArg SentTx.sender (Option.some.inj hk)).symm hne
      · omega
  unfold State.countsOn State.paid
  constructor <;> split <;> first | rfl | simp only [hnot rfl]

theorem sum_add_le {α : Type} {l : List α} {f g : α → ℕ} {x : α} {c : ℕ}
    (hle : ∀ y ∈ l, g y ≤ f y) (hx : x ∈ l) (hgap : g x + c ≤ f x) :
    (l.map g).sum + c ≤ (l.map f).sum := by
  induction l with
  | nil => exact absurd hx List.not_mem_nil
  | cons y l ih =>
    have hrest : ∀ z ∈ l, g z ≤ f z := fun z hz => hle z (List.mem_cons_of_mem y hz)
    simp only [List.map_cons, List.sum_cons]
    rcases List.mem_cons.mp hx with rfl | hx
    · have hsum : (l.map g).sum ≤ (l.map f).sum := List.sum_le_sum hrest
      omega
    · have hy : g y ≤ f y := hle y List.mem_cons_self
      have hsum : (l.map g).sum + c ≤ (l.map f).sum := ih hrest hx
      omega

theorem Inv.counted_after {tx : SentTx} {queue : List SentTx} {ok : Bool} {pc₀ : FundPc}
    {left : ℕ} (hI : Inv cfg dtos σ) (hqueue : σ.queue = tx :: queue)
    (hσ' : σ'.receipts = σ.receipts ++ [ok]) (hpc : σ.calls[tx.sender]? = some pc₀)
    (hown : σ'.countsOn pc₀ ≤ left)
    (hothers : ∀ {i : ℕ} {pc : FundPc}, σ.calls[i]? = some pc → i ≠ tx.sender →
      σ.countsOn pc ≤ left) (hq : σ.calls[i]? = some pc) : σ'.countsOn pc ≤ left := by
  by_cases hi : i = tx.sender
  · subst hi
    rw [hpc] at hq
    exact Option.some.inj hq ▸ hown
  · rw [(hI.others hqueue hσ' hq hi).1]
    exact hothers hq hi

theorem Inv.executes {tx : SentTx} {queue : List SentTx} {chain : Contracts}
    (hI : Inv cfg dtos σ) (hqueue : σ.queue = tx :: queue)
    (hσ' : σ' = { σ with chain, queue, receipts := σ.receipts ++ [true] })
    (hcounted : ∀ {i : ℕ} {pc : FundPc}, σ.calls[i]? = some pc →
      σ'.countsOn pc ≤ chain.token.allowance cfg.operator cfg.escrow)
    (hdeals : ∀ {i : ℕ} {dto : CreateDvpDto} {pc : FundPc},
      dtos[i]? = some dto → σ.calls[i]? = some pc →
      (chain.deals (cfg.dealId dto.instructionId)).state = if σ'.paid pc then .funded else .none)
    (hcovered : (dtos.map (unpaid cfg chain)).sum ≤ chain.token.balanceOf cfg.operator) :
    Inv cfg dtos σ' := by
  subst hσ'
  constructor
  case length_eq => exact hI.length_eq
  case fits => exact hI.fits
  case queued =>
    intro k tx' htx'
    obtain ⟨rest, hwait⟩ := hI.queued (k := k + 1) (by rw [hqueue]; exact htx')
    refine ⟨rest, ?_⟩
    rw [List.length_append, List.length_singleton, Nat.add_assoc, Nat.add_comm 1 k]
    exact hwait
  case waits =>
    intro i n call rest hwait
    rw [List.length_append, List.length_singleton]
    rcases hI.waits hwait with hlt | ⟨k, rfl, hk⟩
    · exact .inl (Nat.lt_succ_of_lt hlt)
    · rcases k with _ | k
      · exact .inl (Nat.lt_succ_self _)
      · rw [hqueue] at hk
        exact .inr ⟨k, by omega, hk⟩
  case succeeded =>
    intro ok hok
    rcases List.mem_append.mp hok with hold | hnew
    · exact hI.succeeded ok hold
    · exact List.mem_singleton.mp hnew
  case counted => exact hcounted
  case deals => exact hdeals
  case covered => exact hcovered

theorem inv_execute (hI : Inv cfg dtos σ) (hpos : ∀ dto ∈ dtos, 0 < dto.amount)
    (hdistinct : (dtos.map fun dto => cfg.dealId dto.instructionId).Nodup)
    (hspares : Spares cfg σ .execute) (h : step cfg σ .execute = some σ') :
    Inv cfg dtos σ' := by
  unfold step at h
  rcases hqueue : σ.queue with _ | ⟨tx, queue⟩
  · simp only [hqueue] at h
    cases h
  simp only [hqueue, Option.some.injEq] at h
  obtain ⟨htime, hleaves⟩ := hspares tx (by rw [hqueue]; rfl)
  obtain ⟨rest, hpc⟩ := hI.queued (k := 0) (by rw [hqueue]; rfl)
  obtain ⟨dto, hdto⟩ := hI.exists_dto hpc
  have hothers : ∀ {i : ℕ} {pc : FundPc}, σ.calls[i]? = some pc → i ≠ tx.sender →
      σ.countsOn pc ≤ leaves (σ.allowance cfg) tx.call := fun hi hne =>
    hleaves _ (List.getElem?_eq_some_iff.mp hi).1 hne _ hi
  have hnow : σ.receipts.length < (σ.receipts ++ [true]).length := by
    rw [List.length_append, List.length_singleton]
    exact Nat.lt_succ_self _
  have hreceipts : ∀ {chain : Contracts}, ({ σ with
      chain, queue, receipts := σ.receipts ++ [true] } : State).receipts = σ.receipts ++ [true] :=
    rfl
  obtain ⟨sender, call⟩ := tx
  rw [Nat.add_zero] at hpc
  cases hI.fits hdto hpc with
  | approved number deadline =>
    obtain ⟨chain', hchain, hallowance, hbalance, hdeals⟩ :=
      execute_approve cfg σ.chain dto.amount
    rw [hchain, Option.getD_some, Option.isSome_some] at h
    refine hI.executes hqueue h.symm (fun hq => ?_) (fun {k d q} hd hq => ?_) ?_
    · rw [hallowance, ← h]
      exact hI.counted_after hqueue hreceipts hpc (if_pos hnow).le hothers hq
    · rw [hdeals, hI.deals hd hq, ← h]
      by_cases hk : k = sender
      · subst hk
        rw [hpc] at hq
        cases hq
        rfl
      · rw [(hI.others hqueue hreceipts hq hk).2]
    · have hsame : unpaid cfg chain' = unpaid cfg σ.chain := by
        funext d
        rw [unpaid, unpaid, hdeals]
      rw [hsame, hbalance]
      exact hI.covered
  | funded number deadline =>
    have hnot : ¬σ.receipts.length < σ.receipts.length := Nat.lt_irrefl _
    obtain ⟨chain', hchain, hallowance, hbalance, hdeals⟩ :=
      hI.execute_fund hpos hdto hpc (decide_eq_false hnot) (if_neg hnot) htime
    unfold fundCall at hchain
    rw [hchain, Option.getD_some, Option.isSome_some] at h
    refine hI.executes hqueue h.symm (fun hq => ?_) (fun {k d q} hd hq => ?_) ?_
    · rw [hallowance, ← h]
      exact hI.counted_after hqueue hreceipts hpc ((if_pos hnow).trans_le (Nat.zero_le _))
        hothers hq
    · rw [hdeals, ← h]
      by_cases hk : k = sender
      · subst hk
        rw [hpc] at hq
        cases hq
        rw [hdto] at hd
        cases hd
        rw [if_pos rfl, State.paid, if_pos (decide_eq_true hnow)]
      · have hne : cfg.dealId d.instructionId ≠ cfg.dealId dto.instructionId := by
          intro heq
          have hlt : k < (dtos.map fun dto => cfg.dealId dto.instructionId).length := by
            rw [List.length_map]
            exact (List.getElem?_eq_some_iff.mp hd).1
          refine hk ((List.getElem?_inj hlt hdistinct).mp ?_)
          rw [List.getElem?_map, List.getElem?_map, hd, hdto]
          exact congrArg some heq
        rw [if_neg hne, hI.deals hd hq, (hI.others hqueue hreceipts hq hk).2]
    · have hunused : (σ.chain.deals (cfg.dealId dto.instructionId)).state = .none := by
        rw [hI.deals hdto hpc, State.paid, if_neg (by simp)]
      have hgap : unpaid cfg chain' dto + dto.amount ≤ unpaid cfg σ.chain dto := by
        rw [unpaid, unpaid, if_pos hunused, hdeals, if_pos rfl, if_neg nofun, Nat.zero_add]
      have hle : ∀ d ∈ dtos, unpaid cfg chain' d ≤ unpaid cfg σ.chain d := by
        intro d _
        rw [unpaid, unpaid, hdeals]
        split_ifs <;> first | exact le_rfl | exact Nat.zero_le _ | simp_all
      have hsum := sum_add_le hle (List.mem_of_getElem? hdto) hgap
      have hcovered := hI.covered
      omega

theorem inv_step (hpos : ∀ dto ∈ dtos, 0 < dto.amount)
    (hdistinct : (dtos.map fun dto => cfg.dealId dto.instructionId).Nodup)
    (hI : Inv cfg dtos σ) {e : FundingEvent} (hspares : Spares cfg σ e)
    (h : step cfg σ e = some σ') : Inv cfg dtos σ' := by
  cases e with
  | block now =>
    simp only [step] at h
    split_ifs at h
    cases h
    exact ⟨hI.length_eq, hI.fits, hI.queued, hI.waits, hI.succeeded, hI.counted, hI.deals,
      hI.covered⟩
  | execute => exact inv_execute hI hpos hdistinct hspares h
  | resume i answer => exact inv_resume hI hpos hspares h

theorem inv_called {chain : Contracts}
    (hunused : ∀ dto ∈ dtos, (chain.deals (cfg.dealId dto.instructionId)).state = .none)
    (htotal : (dtos.map CreateDvpDto.amount).sum ≤ chain.token.balanceOf cfg.operator) :
    Inv cfg dtos (called chain dtos) := by
  have hstart : ∀ {i : ℕ} {pc : FundPc}, (dtos.map FundPc.start)[i]? = some pc →
      ∃ dto, dtos[i]? = some dto ∧ FundPc.start dto = pc := by
    intro i pc hpc
    rw [List.getElem?_map] at hpc
    exact Option.map_eq_some_iff.mp hpc
  constructor
  case length_eq => exact List.length_map _
  case fits =>
    intro i dto pc hdto hpc
    obtain ⟨dto', hdto', rfl⟩ := hstart hpc
    rw [hdto] at hdto'
    exact Option.some.inj hdto' ▸ .getBlock
  case queued => exact fun h => absurd h (by simp [called])
  case waits =>
    intro i n call rest hwait
    obtain ⟨dto, -, hpc⟩ := hstart hwait
    cases hpc
  case succeeded => exact fun ok h => absurd h List.not_mem_nil
  case counted =>
    intro i pc hpc
    obtain ⟨dto, -, rfl⟩ := hstart hpc
    exact Nat.zero_le _
  case deals =>
    intro i dto pc hdto hpc
    obtain ⟨dto', -, rfl⟩ := hstart hpc
    exact hunused dto (List.mem_of_getElem? hdto)
  case covered =>
    have hterm : ∀ dto ∈ dtos, unpaid cfg chain dto ≤ dto.amount := by
      intro dto _
      unfold unpaid
      split_ifs
      · exact le_rfl
      · exact Nat.zero_le _
    exact (List.sum_le_sum hterm).trans htotal

theorem Inv.goesOn (hI : Inv cfg dtos σ) (hpc : σ.calls[i]? = some pc) :
    pc = .returned ∨ σ.Queued i pc ∨ ∃ answer, (step cfg σ (.resume i answer)).isSome := by
  have hanswered : ∀ answer, σ.answers cfg pc answer = true → (fundStep pc answer).isSome →
      (step cfg σ (.resume i answer)).isSome := by
    intro answer hanswers hnext
    simp only [step, hpc, hanswers, if_true, Option.isSome_map]
    exact hnext
  have hsends : ∀ {call : Call} {rest : List Call}, pc = .send call rest →
      ∃ answer, (step cfg σ (.resume i answer)).isSome := by
    rintro call rest rfl
    rcases hchain : σ.chain.execute cfg call with _ | chain'
    · exact ⟨.refused, hanswered _ (by rw [State.answers, hchain]; rfl) rfl⟩
    · refine ⟨.sent σ.sentCount, hanswered _ ?_ rfl⟩
      rw [State.answers, hchain, decide_eq_true rfl]
      rfl
  obtain ⟨dto, hdto⟩ := hI.exists_dto hpc
  cases hI.fits hdto hpc with
  | getBlock => exact .inr (.inr ⟨.block 0, hanswered _ rfl rfl⟩)
  | allowance deadline => exact .inr (.inr ⟨.allowance _, hanswered _ (decide_eq_true rfl) rfl⟩)
  | approve deadline | fund deadline => exact .inr (.inr (hsends rfl))
  | approved number deadline | funded number deadline =>
    rcases hI.waits hpc with hlt | hqueued
    · exact .inr (.inr ⟨.mined _,
        hanswered _ (decide_eq_true (List.getElem?_eq_getElem hlt)) rfl⟩)
    · exact .inr (.inl hqueued)
  | returned => exact .inl rfl

/-- More than the steps a call has left, counting the execution of what it sends. -/
def FundPc.todo : FundPc → ℕ
  | .getBlock _ _ => 8
  | .allowance _ _ _ => 7
  | .send _ rest => 3 * rest.length + 3
  | .wait _ _ rest => 3 * rest.length + 1
  | .returned | .threw => 0

def State.todo (σ : State) : ℕ := (σ.calls.map FundPc.todo).sum + σ.queue.length

theorem todo_next (calls : List Call) : (FundPc.next calls).todo = 3 * calls.length := by
  cases calls with
  | nil => rfl
  | cons call rest => rfl

theorem todo_fundStep (h : fundStep pc answer = some pc') :
    pc'.todo + (State.outgoing i pc answer).length < pc.todo := by
  unfold fundStep at h
  split at h <;> cases h
  · exact Nat.lt_succ_self _
  · rw [todo_next, approveAndFund]
    split_ifs <;> exact Nat.le_of_ble_eq_true rfl
  · show 3 * _ + 1 + 1 < 3 * _ + 3
    omega
  · exact Nat.succ_pos _
  · split_ifs
    · rw [todo_next]
      exact Nat.lt_succ_self _
    · exact Nat.succ_pos _

/-- Every step but the passing of time brings the calls nearer to their ends. -/
theorem todo_step {e : FundingEvent} (he : ∀ now, e ≠ .block now)
    (h : step cfg σ e = some σ') : σ'.todo < σ.todo := by
  cases e with
  | block now => exact absurd rfl (he now)
  | execute =>
    simp only [step] at h
    split at h
    · cases h
    · rename_i tx queue hqueue
      cases h
      simp only [State.todo, hqueue, List.length_cons]
      omega
  | resume i answer =>
    simp only [step] at h
    split at h
    · cases h
    · rename_i pc hpc
      split_ifs at h
      obtain ⟨pc', hpc', rfl⟩ := Option.map_eq_some_iff.mp h
      have hless := todo_fundStep (i := i) hpc'
      have hsum := sum_set (b := pc') FundPc.todo hpc
      simp only [State.todo, List.length_append]
      omega

theorem Inv.fundsThrough (hI : Inv cfg dtos σ) : FundsThrough cfg dtos σ := by
  constructor
  case allowed =>
    intro i dealId beneficiary amount deadline hhead
    obtain ⟨rest, hwait⟩ := hI.queued (k := 0) (List.head?_eq_getElem? ▸ hhead)
    have hcounted := hI.counted hwait
    rw [State.countsOn, if_neg (by simp)] at hcounted
    exact hcounted
  case succeeded => exact hI.succeeded
  case noneThrew =>
    intro hthrew
    obtain ⟨i, hi⟩ := List.mem_iff_getElem?.mp hthrew
    obtain ⟨dto, hdto⟩ := hI.exists_dto hi
    cases hI.fits hdto hi
  case funded =>
    intro i dto hdto hreturned
    exact hI.deals hdto hreturned
  case goesOn => exact fun i pc hpc => hI.goesOn hpc

/-- As long as no transaction takes from another call what that call has checked or approved,
and each is sent and executed before its deadline, all deals end funded. -/
theorem fundsThrough_of_spares (cfg : DvpConfig) (chain : Contracts) (dtos : List CreateDvpDto)
    (hpos : ∀ dto ∈ dtos, 0 < dto.amount)
    (hdistinct : (dtos.map fun dto => cfg.dealId dto.instructionId).Nodup)
    (hunused : ∀ dto ∈ dtos, (chain.deals (cfg.dealId dto.instructionId)).state = .none)
    (htotal : (dtos.map CreateDvpDto.amount).sum ≤ chain.token.balanceOf cfg.operator)
    (h : ReachUnder (step cfg) (Spares cfg) (called chain dtos) σ) :
    FundsThrough cfg dtos σ := by
  have hI : Inv cfg dtos σ := h.invariant (inv_called hunused htotal)
    fun _ _ _ _ hI hspares hstep => inv_step hpos hdistinct hI hspares hstep
  exact hI.fundsThrough

def twoDeals : DvpConfig :=
  { operator := 1, escrow := 2, dealId := fun id => if id = "a" then 0 else 1
    account := fun _ => 3 }

def ten : CreateDvpDto := { instructionId := "a", beneficiary := "b", amount := 10 }

def five : CreateDvpDto := { instructionId := "c", beneficiary := "b", amount := 5 }

def richOperator : Contracts :=
  { now := 0, deals := fun _ => {}
    token := { balanceOf := fun a => if a = 1 then 15 else 0, allowance := fun _ _ => 0 } }

/-- The second call reads the allowance when the fund of the first has been executed. -/
def oneByOne : List FundingEvent :=
  [.resume 0 (.block 0), .resume 0 (.allowance 0), .resume 0 (.sent 0), .resume 1 (.block 0),
    .execute, .resume 0 (.mined true), .resume 0 (.sent 1), .execute, .resume 1 (.allowance 0),
    .resume 1 (.sent 2), .resume 0 (.mined true), .execute, .resume 1 (.mined true),
    .resume 1 (.sent 3), .execute, .resume 1 (.mined true)]

theorem one_by_one_funded : ∃ σ, ReachUnder (step twoDeals) (Spares twoDeals)
    (called richOperator [ten, five]) σ ∧ σ.calls = [.returned, .returned] ∧
      FundsThrough twoDeals [ten, five] σ := by
  obtain ⟨σ, hreach, hcalls⟩ := exists_reach_of_checkedRun (step twoDeals) (Spares twoDeals)
    (called richOperator [ten, five]) oneByOne
    (fun σ => σ.calls = [.returned, .returned]) (by decide +kernel)
  exact ⟨σ, hreach, of_decide_eq_true hcalls, fundsThrough_of_spares twoDeals richOperator
    [ten, five] (by decide) (by decide) (by decide) (by decide) hreach⟩

/-- Both calls find no allowance and approve. The second approval is executed while the fund of
the first is on its way. -/
def bothApprove : List FundingEvent :=
  [.resume 0 (.block 0), .resume 1 (.block 0), .resume 0 (.allowance 0), .resume 1 (.allowance 0),
    .resume 0 (.sent 0), .resume 1 (.sent 1), .execute, .resume 0 (.mined true),
    .resume 0 (.sent 2), .execute, .execute]

theorem allowance_overwritten : ¬∀ (cfg : DvpConfig) (chain : Contracts) (dtos : List CreateDvpDto),
    (∀ dto ∈ dtos, 0 < dto.amount) →
    (dtos.map fun dto => cfg.dealId dto.instructionId).Nodup →
    (∀ dto ∈ dtos, (chain.deals (cfg.dealId dto.instructionId)).state = .none) →
    (dtos.map CreateDvpDto.amount).sum ≤ chain.token.balanceOf cfg.operator →
    ∀ σ, Reach (step cfg) (called chain dtos) σ → FundsThrough cfg dtos σ := by
  intro hclaim
  obtain ⟨σ, hreach, hfailed⟩ := exists_reach_of_run (step twoDeals)
    (called richOperator [ten, five]) bothApprove (fun σ => σ.receipts.contains false)
    (by decide +kernel)
  have hfunds := hclaim twoDeals richOperator [ten, five] (by decide) (by decide) (by decide)
    (by decide) σ hreach
  exact absurd (hfunds.succeeded false (List.contains_iff_mem.mp hfailed)) Bool.false_ne_true

end Rail.Funding
