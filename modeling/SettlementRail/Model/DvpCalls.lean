import SettlementRail.Model.Relayer

/-! `DvpService.fund` and `release`. They send through the wallet directly: ethers looks up the
pending nonce itself, so neither the relayer's lock nor its local nonce is involved. -/

namespace Rail

structure CreateDvpDto where
  instructionId : String
  beneficiary : Address
  amount : Amount
  deadlineSeconds : Option ℕ := none
deriving DecidableEq, Repr

inductive DvpRequest
  | fund (dto : CreateDvpDto)
  | release (instructionId : String)
deriving DecidableEq, Repr

inductive DvpPc
  | getBlock (dto : CreateDvpDto) (baseUnits : ℕ)
  | allowance (dto : CreateDvpDto) (baseUnits deadline : ℕ)
  | populate (call : Call) (rest : List Call)
  | send (nonce : ℕ) (call : Call) (rest : List Call)
  | wait (tx : Tx) (rest : List Call)
  | returned
  | threw
deriving DecidableEq, Repr

inductive DvpEvent
  | blockRead (timestamp : ℕ)
  | allowanceRead (allowance : ℕ)
  | counted
  | sent (gasLimit : ℕ) (fees : Fees) (outcome : SendOutcome)
  | mined
  | callError
deriving DecidableEq, Repr

structure DvpOut where
  pc : DvpPc
  node : NodeOp := .none
deriving DecidableEq, Repr

/-- The first await of a request. The amount of a DTO is text, which `toBaseUnits` reads digit by
digit, whatever its size. -/
def dvpStart : DvpRequest → DvpPc
  | .fund dto => .getBlock dto dto.amount
  | .release instructionId => .populate (.release instructionId) []

def dvpNext : List Call → DvpPc
  | [] => .returned
  | call :: rest => .populate call rest

def fundCall (dto : CreateDvpDto) (baseUnits deadline : ℕ) : Call :=
  .fund dto.instructionId dto.beneficiary baseUnits deadline

def dvpApproveOrFund (baseUnits allowance : ℕ) (fund : Call) : DvpPc :=
  if allowance < baseUnits then .populate (.approve baseUnits) [fund] else .populate fund []

/-- `index` names the service call the transactions are sent for. -/
def dvpStep (node : Node) (index : ℕ) (pc : DvpPc) (e : DvpEvent) : Option DvpOut :=
  match pc, e with
  | .getBlock dto baseUnits, .blockRead timestamp =>
    some { pc := .allowance dto baseUnits (timestamp + dto.deadlineSeconds.getD 3600) }
  | .allowance dto baseUnits deadline, .allowanceRead allowance =>
    some { pc := dvpApproveOrFund baseUnits allowance (fundCall dto baseUnits deadline) }
  | .populate call rest, .counted => some { pc := .send node.pendingCount call rest }
  | .send _ _ _, .sent _ _ (.refused _) => some { pc := .threw }
  | .send nonce call rest, .sent gasLimit fees (.accepted reply) =>
    if !node.accepts { nonce, gasLimit, fees, call } then none
    else some
      { pc := if reply.isNone then .wait { nonce, gasLimit, fees, call } rest else .threw
        node := .accept (.dvp index) { nonce, gasLimit, fees, call } }
  | .wait tx rest, .mined =>
    match node.getTransactionReceipt tx with
    | none => none
    | some receipt => some { pc := if receipt.success then dvpNext rest else .threw }
  | .returned, _ | .threw, _ => none
  | _, .callError => some { pc := .threw }
  | _, _ => none

end Rail
