import Mathlib.Algebra.Order.Ring.Nat
import SettlementRail.Foundation.CallFrames

/-! `DvPEscrow.sol` over an arbitrary token with hooks. Amounts, deadlines and timestamps are
only compared and passed on, so their words are plain numbers here. A function of the contract
is its checks and writes, the call of the token they end in, and the return from that call. -/

namespace Rail.Escrow
open Foundation

abbrev DealId := Fin (2 ^ 256)
abbrev Account := Fin (2 ^ 160)

instance neZeroDealIds : NeZero (2 ^ 256) := ⟨by decide⟩
instance neZeroAccounts : NeZero (2 ^ 160) := ⟨by decide⟩

inductive DealState
  | none | funded | released | refunded
deriving DecidableEq, Repr

structure Deal where
  depositor : Account := 0
  beneficiary : Account := 0
  amount : ℕ := 0
  deadline : ℕ := 0
  state : DealState := .none
deriving DecidableEq, Repr

/-- `mapping(bytes32 => Deal)`: a key never written maps to the zero deal. -/
abbrev Deals := DealId → Deal

inductive EscrowError
  | notSettler | badState | deadlinePassed | deadlineNotReached | zeroAmount | transferFailed
deriving DecidableEq, Repr

/-- `transferFrom` always names the escrow as the recipient. -/
inductive TokenCall
  | transferFrom (sender : Account) (amount : ℕ)
  | transfer (recipient : Account) (amount : ℕ)
deriving DecidableEq, Repr

inductive EscrowCall
  | fund (dealId : DealId) (beneficiary : Account) (amount deadline : ℕ)
  | release (dealId : DealId)
  | refund (dealId : DealId)
  | cancel (dealId : DealId)
deriving DecidableEq, Repr

def EscrowCall.dealId : EscrowCall → DealId
  | fund dealId _ _ _ | release dealId | refund dealId | cancel dealId => dealId

inductive EscrowLog
  | funded (dealId : DealId) (depositor beneficiary : Account) (amount deadline : ℕ)
  | released (dealId : DealId) (beneficiary : Account) (amount : ℕ)
  | refunded (dealId : DealId) (depositor : Account) (amount : ℕ)
deriving DecidableEq, Repr

/-- `self` is the escrow's own address. -/
structure EscrowConfig where
  settler : Account
  self : Account

section Functions
variable (cfg : EscrowConfig) (deals : Deals) (sender : Account) (now : ℕ) (dealId : DealId)

def onlySettler {α : Type} (body : Except EscrowError α) : Except EscrowError α :=
  if sender ≠ cfg.settler then .error .notSettler else body

def fund (beneficiary : Account) (amount deadline : ℕ) : Except EscrowError (Deals × TokenCall) :=
  if amount = 0 then .error .zeroAmount
  else if deadline ≤ now then .error .deadlinePassed
  else if (deals dealId).state ≠ .none then .error .badState
  else
    let d : Deal := { depositor := sender, beneficiary, amount, deadline, state := .funded }
    .ok (Function.update deals dealId d, .transferFrom sender amount)

def release : Except EscrowError (Deals × TokenCall) :=
  onlySettler cfg sender <|
    let d := deals dealId
    if d.state ≠ .funded then .error .badState
    else if now > d.deadline then .error .deadlinePassed
    else .ok (Function.update deals dealId { d with state := .released },
      .transfer d.beneficiary d.amount)

def refund : Except EscrowError (Deals × TokenCall) :=
  let d := deals dealId
  if d.state ≠ .funded then .error .badState
  else if now ≤ d.deadline then .error .deadlineNotReached
  else .ok (Function.update deals dealId { d with state := .refunded },
    .transfer d.depositor d.amount)

def cancel : Except EscrowError (Deals × TokenCall) :=
  onlySettler cfg sender <|
    let d := deals dealId
    if d.state ≠ .funded then .error .badState
    else .ok (Function.update deals dealId { d with state := .refunded },
      .transfer d.depositor d.amount)

def EscrowCall.body : EscrowCall → Except EscrowError (Deals × TokenCall)
  | .fund dealId beneficiary amount deadline =>
    Escrow.fund deals sender now dealId beneficiary amount deadline
  | .release dealId => Escrow.release cfg deals sender now dealId
  | .refund dealId => Escrow.refund deals now dealId
  | .cancel dealId => Escrow.cancel cfg deals sender dealId

/-- The event emitted after the token returned `true`; `release` and `refund` read the deal
from storage once more. -/
def EscrowCall.log : EscrowCall → EscrowLog
  | .fund dealId beneficiary amount deadline =>
    .funded dealId sender beneficiary amount deadline
  | .release dealId => .released dealId (deals dealId).beneficiary (deals dealId).amount
  | .refund dealId | .cancel dealId =>
    .refunded dealId (deals dealId).depositor (deals dealId).amount

/-- The rest of each function, from the answer of the token on. -/
def EscrowCall.afterToken (op : EscrowCall) (ok : Bool) : Except EscrowError EscrowLog :=
  if !ok then .error .transferFailed else .ok (op.log deals sender)

end Functions

/-- The escrow waits for a token call; `moved` once the token has moved the amount. -/
structure Awaited where
  sender : Account
  call : EscrowCall
  token : TokenCall
  moved : Bool := false
deriving DecidableEq, Repr

structure Payout where
  dealId : DealId
  recipient : Account
  amount : ℕ
deriving DecidableEq, Repr

def Awaited.payout (a : Awaited) : Option Payout :=
  match a.token with
  | .transferFrom _ _ => .none
  | .transfer recipient amount => some { dealId := a.call.dealId, recipient, amount }

/-- Everything a revert undoes. `awaited` has the innermost token call first; `payouts` records
what the token moved out of the escrow, and for which deal. -/
structure World where
  deals : Deals := fun _ => {}
  balanceOf : Account → ℕ
  awaited : List Awaited := []
  logs : List EscrowLog := []
  payouts : List Payout := []

def moveBalance (balanceOf : Account → ℕ) (sender recipient : Account) (amount : ℕ) :
    Option (Account → ℕ) :=
  if balanceOf sender < amount then none
  else
    let debited := Function.update balanceOf sender (balanceOf sender - amount)
    some (Function.update debited recipient (debited recipient + amount))

def TokenCall.move (self : Account) (balanceOf : Account → ℕ) :
    TokenCall → Option (Account → ℕ)
  | .transferFrom sender amount => moveBalance balanceOf sender self amount
  | .transfer recipient amount => moveBalance balanceOf self recipient amount

inductive Context
  | escrow | foreign
deriving DecidableEq, Repr

structure Evm where
  now : ℕ
  nest : Nest Context World

/-- `others` is whatever else happens to the token's balances. -/
inductive EvmEvent
  | mine (now : ℕ)
  | call (sender : Account) (op : EscrowCall)
  | moves
  | returns (ok : Bool)
  | reverts
  | enters
  | leaves
  | others (balanceOf : Account → ℕ)

def deployed (balanceOf : Account → ℕ) (now : ℕ) : Evm :=
  { now, nest := { world := { balanceOf } } }

/-- Any call may come while a token call is awaited. The escrow calls nothing but the token, so
it is never the sender itself. Only the innermost awaited token call can move its amount; the
escrow's balance is otherwise not spent. -/
def step (cfg : EscrowConfig) (σ : Evm) : EvmEvent → Option Evm
  | .mine now => if σ.nest.frames.isEmpty && σ.now ≤ now then some { σ with now } else none
  | .call sender op =>
    if sender = cfg.self then none
    else match op.body cfg σ.nest.world.deals sender σ.now with
      | .error _ => some σ
      | .ok (deals, token) =>
        let awaited := { sender, call := op, token } :: σ.nest.world.awaited
        some { σ with nest := σ.nest.enter .escrow { σ.nest.world with deals, awaited } }
  | .moves =>
    match σ.nest.world.awaited with
    | [] => none
    | a :: rest =>
      if a.moved then none
      else (a.token.move cfg.self σ.nest.world.balanceOf).map fun balanceOf =>
        let awaited := { a with moved := true } :: rest
        let payouts := a.payout.toList ++ σ.nest.world.payouts
        { σ with nest := σ.nest.write { σ.nest.world with balanceOf, awaited, payouts } }
  | .returns ok =>
    match σ.nest.kinds, σ.nest.world.awaited with
    | .escrow :: _, a :: rest =>
      match a.call.afterToken σ.nest.world.deals a.sender ok with
      | .error _ => some { σ with nest := σ.nest.rollback }
      | .ok log =>
        let world := { σ.nest.world with awaited := rest, logs := σ.nest.world.logs ++ [log] }
        if a.moved then some { σ with nest := (σ.nest.write world).leave } else none
    | _, _ => none
  | .reverts => if σ.nest.frames.isEmpty then none else some { σ with nest := σ.nest.rollback }
  | .enters => some { σ with nest := σ.nest.enter .foreign σ.nest.world }
  | .leaves =>
    match σ.nest.kinds with
    | .foreign :: _ => some { σ with nest := σ.nest.leave }
    | _ => none
  | .others balanceOf =>
    if σ.nest.world.balanceOf cfg.self ≤ balanceOf cfg.self then
      some { σ with nest := σ.nest.write { σ.nest.world with balanceOf } }
    else none

end Rail.Escrow
