import SettlementRail.Foundation.SignificantDigits

/-! Amounts, fees and the operator wallet's transactions. Money is counted in base units
(six decimal places), the resolution of the `DECIMAL(38,6)` columns and of the token. -/

namespace Rail
open Foundation

abbrev Address := String
abbrev SettlementId := ℕ
abbrev BlockHash := ℕ
abbrev Amount := ℕ

/-! `decimal.js` rounds the result of `plus` and `minus` to 20 significant digits. -/

def decimalPlus (a b : ℤ) : ℤ := roundSig 20 (a + b)

def decimalMinus (a b : ℤ) : ℤ := roundSig 20 (a - b)

/-- `parseUnits(amount.toString(), 6)`. From 10^21 on `toString` writes an exponent, which
`parseUnits` refuses by throwing; six places never reach the exponent -7. -/
def toBaseUnits (amount : Amount) : Option ℕ :=
  if amount < 10 ^ 27 then some amount else none

structure Fees where
  maxFeePerGas : ℕ
  maxPriorityFeePerGas : ℕ
deriving DecidableEq, Repr

def bumpFees (fees : Fees) : Fees :=
  { maxFeePerGas := fees.maxFeePerGas * 125 / 100
    maxPriorityFeePerGas := fees.maxPriorityFeePerGas * 125 / 100 }

/-- What `provider.getFeeData()` resolves to; either field may be null. -/
structure FeeData where
  maxFeePerGas : Option ℕ
  maxPriorityFeePerGas : Option ℕ
deriving DecidableEq, Repr

def buildFees (fd : FeeData) : Fees :=
  let maxPriorityFeePerGas := fd.maxPriorityFeePerGas.getD 1000000000
  { maxFeePerGas := fd.maxFeePerGas.getD (maxPriorityFeePerGas * 2)
    maxPriorityFeePerGas }

def fallbackGasLimit : ℕ := 120000

/-- `estimateGas`: the estimate with 20% headroom, the fallback when the call throws. -/
def gasWithHeadroom : Option ℕ → ℕ
  | some est => est * 120 / 100
  | none => fallbackGasLimit

/-- The calls the operator wallet sends. A deal id stands for the keccak of its instruction id. -/
inductive Call
  | transfer (recipient : Address) (baseUnits : ℕ)
  | approve (amount : ℕ)
  | fund (dealId : String) (beneficiary : Address) (amount deadline : ℕ)
  | release (dealId : String)
deriving DecidableEq, Repr

structure Tx where
  nonce : ℕ
  gasLimit : ℕ
  fees : Fees
  call : Call
deriving DecidableEq, Repr

/-- Signing is deterministic and the hash has no collisions, so equal hash is equal content. -/
abbrev TxHash := Tx

/-- What the operator's token balance loses when the call succeeds: a transfer to itself changes
nothing. -/
def Call.outflow (operator : Address) : Call → ℕ
  | .transfer recipient baseUnits => if recipient = operator then 0 else baseUnits
  | .fund _ _ amount _ => amount
  | .approve _ | .release _ => 0

end Rail
