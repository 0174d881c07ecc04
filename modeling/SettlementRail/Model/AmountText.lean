import SettlementRail.Foundation.DecimalText

/-! The amounts of requests, which are texts until `parseUnits` makes a number of base units out
of them. The libraries on the way are parameters; `none` is an exception. -/

namespace Rail
open Foundation

/-- decimal.js, the `DECIMAL(38,6)` column behind Prisma, and the unit functions of ethers.
`column` is what reading a stored amount gives back. -/
structure AmountLibraries where
  Decimal : Type
  value : Decimal → ℚ
  newDecimal : List Char → Option Decimal
  toString : Decimal → List Char
  column : Decimal → Option Decimal
  parseUnits : List Char → ℕ → Option ℤ
  formatUnits : ℤ → ℕ → List Char

namespace AmountLibraries

/-- The documented behaviour. `toString` has an exponent from 10^21 on and below 10^-6, and
`parseUnits` takes no exponent; its numbers have 512 bits. -/
structure Documented (L : AmountLibraries) : Prop where
  newDecimal_plain : ∀ p : Plain, ∃ d, L.newDecimal p.text = some d ∧ L.value d = p.value
  toString_plain : ∀ d, 1 ≤ L.value d * 10 ^ 6 → L.value d < 10 ^ 21 →
    ∃ p : Plain, L.toString d = p.text ∧ p.value = L.value d ∧ p.fraction.getLast? ≠ some '0'
  toString_exponent : ∀ d, 10 ^ 21 ≤ L.value d → 'e' ∈ L.toString d
  column_fits : ∀ d (n : ℕ), L.value d * 10 ^ 6 = n → n < 10 ^ 38 →
    ∃ stored, L.column d = some stored ∧ L.value stored = L.value d
  parseUnits_plain : ∀ (p : Plain) decimals, p.fraction.length ≤ decimals →
    p.units decimals < 2 ^ 511 → L.parseUnits p.text decimals = some (p.units decimals : ℤ)
  parseUnits_exponent : ∀ text decimals, 'e' ∈ text → L.parseUnits text decimals = none
  formatUnits_plain : ∀ units decimals : ℕ, units < 2 ^ 511 →
    ∃ p : Plain, L.formatUnits units decimals = p.text ∧ p.value = units / 10 ^ decimals

variable (L : AmountLibraries)

/-- `validate`: the pattern `^\d+(\.\d{1,n})?$` first, then `gt(0)`. -/
def isPositiveDecimal (maxDecimals : ℕ) (value : List Char) : Bool :=
  ((readPlain value).any fun p => p.fraction.length ≤ maxDecimals) &&
    (L.newDecimal value).any fun d => 0 < L.value d

def toBaseUnits (decimals : ℕ) (amount : L.Decimal ⊕ List Char) : Option ℤ :=
  L.parseUnits (amount.elim L.toString id) decimals

def fromBaseUnits (decimals : ℕ) (units : ℤ) : Option L.Decimal :=
  L.newDecimal (L.formatUnits units decimals)

/-- `create` stores the amount, `processJob` reads it back. -/
def settlementUnits (decimals : ℕ) (amount : List Char) : Option ℤ := do
  let decimal ← L.newDecimal amount
  let stored ← L.column decimal
  L.toBaseUnits decimals (.inl stored)

def dvpUnits (decimals : ℕ) (amount : List Char) : Option ℤ := L.toBaseUnits decimals (.inr amount)

end AmountLibraries

def usdcDecimals : ℕ := 6

def textValue (text : List Char) : ℚ := (readPlain text).elim 0 Plain.value

end Rail
