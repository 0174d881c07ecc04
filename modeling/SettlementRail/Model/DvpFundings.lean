import SettlementRail.Model.DvPEscrow
import SettlementRail.Model.DvpCalls

/-! `DvpService.fund` calls in parallel, over the escrow and the allowance they share. The
operator's transactions are executed one after another in the order they were sent in. -/

namespace Rail.Funding
open Escrow (Account DealId Deals moveBalance)

/-! `MockERC20`. -/

structure Erc20 where
  balanceOf : Account → ℕ
  allowance : Account → Account → ℕ

def maxUint256 : ℕ := 2 ^ 256 - 1

namespace Erc20

def setAllowance (token : Erc20) (owner spender : Account) (amount : ℕ) :
    Account → Account → ℕ :=
  Function.update token.allowance owner (Function.update (token.allowance owner) spender amount)

def approve (token : Erc20) (sender spender : Account) (amount : ℕ) : Erc20 :=
  { token with allowance := token.setAllowance sender spender amount }

def transferFrom (token : Erc20) (sender owner recipient : Account) (amount : ℕ) :
    Option Erc20 :=
  let a := token.allowance owner sender
  if a < amount then none
  else
    let allowance :=
      if a ≠ maxUint256 then token.setAllowance owner sender (a - amount) else token.allowance
    (moveBalance token.balanceOf owner recipient amount).map fun balanceOf =>
      { balanceOf, allowance }

end Erc20

/-- `dealId` is the keccak of an instruction id, `account` the address behind its text. -/
structure DvpConfig where
  operator : Account
  escrow : Account
  dealId : String → DealId
  account : Address → Account

structure Contracts where
  now : ℕ
  token : Erc20
  deals : Deals

/-- A transaction of the operator that calls `approve` or `escrow.fund`; `none` is a revert. -/
def Contracts.execute (cfg : DvpConfig) (chain : Contracts) : Call → Option Contracts
  | .approve amount =>
    some { chain with token := chain.token.approve cfg.operator cfg.escrow amount }
  | .fund dealId beneficiary amount deadline =>
    match Escrow.fund chain.deals cfg.operator chain.now (cfg.dealId dealId)
        (cfg.account beneficiary) amount deadline with
    | .ok (deals, .transferFrom owner amount) =>
      (chain.token.transferFrom cfg.escrow owner cfg.escrow amount).map fun token =>
        { chain with token, deals }
    | _ => none
  | .transfer _ _ | .release _ => none

/-- `number` counts the operator's transactions in the order they were sent in. -/
inductive FundPc
  | getBlock (dto : CreateDvpDto) (baseUnits : ℕ)
  | allowance (dto : CreateDvpDto) (baseUnits deadline : ℕ)
  | send (call : Call) (rest : List Call)
  | wait (number : ℕ) (call : Call) (rest : List Call)
  | returned
  | threw
deriving DecidableEq, Repr

/-- What an await resolves to, or that it rejects. -/
inductive FundAnswer
  | block (timestamp : ℕ)
  | allowance (allowance : ℕ)
  | sent (number : ℕ)
  | refused
  | mined (success : Bool)
deriving DecidableEq, Repr

def FundPc.start (dto : CreateDvpDto) : FundPc := .getBlock dto dto.amount

def FundPc.next : List Call → FundPc
  | [] => .returned
  | call :: rest => .send call rest

def approveAndFund (baseUnits allowance : ℕ) (fund : Call) : List Call :=
  if allowance < baseUnits then [.approve baseUnits, fund] else [fund]

def fundStep : FundPc → FundAnswer → Option FundPc
  | .getBlock dto baseUnits, .block timestamp =>
    some (.allowance dto baseUnits (timestamp + dto.deadlineSeconds.getD 3600))
  | .allowance dto baseUnits deadline, .allowance a =>
    some (.next (approveAndFund baseUnits a (fundCall dto baseUnits deadline)))
  | .send call rest, .sent number => some (.wait number call rest)
  | .send _ _, .refused => some .threw
  | .wait _ _ rest, .mined success => some (if success then .next rest else .threw)
  | _, _ => none

structure SentTx where
  sender : ℕ
  call : Call
deriving DecidableEq, Repr

/-- `queue` holds what is sent and not executed; `receipts` tell which of the executed
transactions succeeded. -/
structure State where
  chain : Contracts
  queue : List SentTx := []
  receipts : List Bool := []
  calls : List FundPc

def State.sentCount (σ : State) : ℕ := σ.receipts.length + σ.queue.length

/-- The answers the provider may give. A transaction is sent only when `estimateGas`, which runs
it on the latest block, does not see it revert. -/
def State.answers (cfg : DvpConfig) (σ : State) : FundPc → FundAnswer → Bool
  | .getBlock _ _, .block _ => true
  | .allowance _ _ _, .allowance a => a = σ.chain.token.allowance cfg.operator cfg.escrow
  | .send call _, .sent number =>
    (σ.chain.execute cfg call).isSome && decide (number = σ.sentCount)
  | .send call _, .refused => (σ.chain.execute cfg call).isNone
  | .wait number _ _, .mined success => σ.receipts[number]? = some success
  | _, _ => false

def State.outgoing (i : ℕ) : FundPc → FundAnswer → List SentTx
  | .send call _, .sent _ => [{ sender := i, call }]
  | _, _ => []

inductive FundingEvent
  | block (now : ℕ)
  | execute
  | resume (i : ℕ) (answer : FundAnswer)
deriving DecidableEq, Repr

def step (cfg : DvpConfig) (σ : State) : FundingEvent → Option State
  | .block now =>
    if σ.chain.now ≤ now then some { σ with chain := { σ.chain with now } } else none
  | .execute =>
    match σ.queue with
    | [] => none
    | tx :: queue =>
      let chain := σ.chain.execute cfg tx.call
      some { σ with
        chain := chain.getD σ.chain, queue, receipts := σ.receipts ++ [chain.isSome] }
  | .resume i answer =>
    match σ.calls[i]? with
    | none => none
    | some pc =>
      if σ.answers cfg pc answer then
        (fundStep pc answer).map fun pc' =>
          { σ with calls := σ.calls.set i pc', queue := σ.queue ++ State.outgoing i pc answer }
      else none

/-- An await of a call rejects, whatever the chain says; or its send does although a node took the
transaction in; or the transaction next in line is lost, and the wait for it comes to nothing. -/
inductive Fault
  | rejects (i : ℕ)
  | sentAnyway (i : ℕ)
  | loses
deriving DecidableEq, Repr

def FundPc.isAwaiting : FundPc → Bool
  | .getBlock _ _ | .allowance _ _ _ | .send _ _ | .wait _ _ _ => true
  | .returned | .threw => false

def faultStep (σ : State) : Fault → Option State
  | .rejects i =>
    match σ.calls[i]? with
    | some pc => if pc.isAwaiting then some { σ with calls := σ.calls.set i .threw } else none
    | none => none
  | .sentAnyway i =>
    match σ.calls[i]? with
    | some (.send call _) => some
      { σ with calls := σ.calls.set i .threw, queue := σ.queue ++ [{ sender := i, call }] }
    | _ => none
  | .loses =>
    match σ.queue with
    | [] => none
    | _ :: queue => some { σ with queue, receipts := σ.receipts ++ [false] }

def faultyStep (cfg : DvpConfig) (σ : State) : FundingEvent ⊕ Fault → Option State
  | .inl e => step cfg σ e
  | .inr fault => faultStep σ fault

def called (chain : Contracts) (dtos : List CreateDvpDto) : State :=
  { chain, calls := dtos.map FundPc.start }

end Rail.Funding
