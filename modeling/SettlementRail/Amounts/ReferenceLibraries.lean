import Mathlib.Tactic.Linarith
import Mathlib.Tactic.NormNum
import SettlementRail.Model.AmountText

/-! The documented behaviour has a model: numbers as a coefficient and a count of decimal places,
printed and parsed the way decimal.js and ethers describe it. -/

namespace Rail.Reference
open Foundation

structure ScaledDecimal where
  coefficient : ℕ
  places : ℕ
deriving DecidableEq, Repr

def ScaledDecimal.value (d : ScaledDecimal) : ℚ := d.coefficient / 10 ^ d.places

def newDecimal (text : List Char) : Option ScaledDecimal :=
  (readPlain text).map fun p => ⟨p.coefficient, p.fraction.length⟩

def digitCount (d : ScaledDecimal) : ℕ := (Nat.toDigits 10 d.coefficient).length

def needsExponent (d : ScaledDecimal) : Bool :=
  d.coefficient ≠ 0 && (d.places + 21 < digitCount d || digitCount d + 6 ≤ d.places)

def mantissa : List Char → List Char
  | [] => []
  | [c] => [c]
  | c :: rest => c :: '.' :: rest

def exponentText (d : ScaledDecimal) : List Char :=
  mantissa (trimZeros (Nat.toDigits 10 d.coefficient)) ++ 'e' ::
    if d.places < digitCount d then '+' :: Nat.toDigits 10 (digitCount d - 1 - d.places)
    else '-' :: Nat.toDigits 10 (d.places + 1 - digitCount d)

def toString (d : ScaledDecimal) : List Char :=
  if needsExponent d then exponentText d else (plainOf d.coefficient d.places).text

/-- Rounded to six places; more than 38 digits do not fit. -/
def column (d : ScaledDecimal) : Option ScaledDecimal :=
  let units := (2 * (d.coefficient * 10 ^ 6) + 10 ^ d.places) / (2 * 10 ^ d.places)
  if units < 10 ^ 38 then some ⟨units, 6⟩ else none

def afterPoint : List Char → List Char
  | '.' :: fraction => fraction
  | rest => rest

/-- `^(-?)([0-9]*)\.?([0-9]*)$` with at least one digit; places beyond `decimals` hold zeros. -/
def parseUnits (text : List Char) (decimals : ℕ) : Option ℤ :=
  let negative := text.head? = some '-'
  let body := if negative then text.tail else text
  let whole := body.takeWhile Char.isDigit
  let fraction := afterPoint (body.dropWhile Char.isDigit)
  if allDigits fraction && !(whole ++ fraction).isEmpty && (fraction.drop decimals).all (· = '0') then
    let units : ℤ := (Nat.ofDigitChars 10 (whole ++ fraction.take decimals) 0 *
      10 ^ (decimals - fraction.length) : ℕ)
    let signed := if negative then -units else units
    if -2 ^ 511 ≤ signed ∧ signed < 2 ^ 511 then some signed else none
  else none

def withFraction (p : Plain) : Plain :=
  if p.fraction = [] then
    { p with
      fraction := ['0']
      fraction_digits := fun c hc => by rw [List.mem_singleton.mp hc]; rfl }
  else p

def formatUnits (units : ℤ) (decimals : ℕ) : List Char :=
  (if units < 0 then ['-'] else []) ++
    (if decimals = 0 then plainOf units.natAbs 0
    else withFraction (plainOf units.natAbs decimals)).text

def libraries : AmountLibraries where
  Decimal := ScaledDecimal
  value := ScaledDecimal.value
  newDecimal := newDecimal
  toString := toString
  column := column
  parseUnits := parseUnits
  formatUnits := formatUnits

variable {d : ScaledDecimal} {p : Plain} {decimals : ℕ}

theorem value_scale (d : ScaledDecimal) : d.value * 10 ^ d.places = d.coefficient := by
  rw [ScaledDecimal.value]
  exact div_mul_cancel₀ _ (by positivity)

/-- The number of digits decides on which side of a power of ten the value is. -/
theorem value_lt_iff (k : ℕ) (hk : 0 < d.places + k) :
    d.value < 10 ^ k ↔ digitCount d ≤ d.places + k := by
  rw [digitCount, Nat.length_toDigits_le_iff (by decide) hk]
  have hscaled : d.value < 10 ^ k ↔ d.value * 10 ^ d.places < 10 ^ k * 10 ^ d.places :=
    (mul_lt_mul_iff_left₀ (by positivity)).symm
  rw [hscaled, value_scale, ← pow_add, Nat.add_comm k]
  exact_mod_cast Iff.rfl

theorem toString_plain (hlow : 1 ≤ d.value * 10 ^ 6) (hhigh : d.value < 10 ^ 21) :
    toString d = (plainOf d.coefficient d.places).text := by
  have hcount : digitCount d ≤ d.places + 21 := (value_lt_iff 21 (by omega)).mp hhigh
  have hsmall : d.places < digitCount d + 6 := by
    by_contra hlt
    have hle : digitCount d ≤ d.places - 6 := by omega
    have hpos : 0 < d.places - 6 := lt_of_lt_of_le Nat.length_toDigits_pos hle
    rw [digitCount, Nat.length_toDigits_le_iff (by decide) hpos] at hle
    have hscale := value_scale d
    rw [show d.places = 6 + (d.places - 6) by omega, pow_add, ← mul_assoc] at hscale
    have hge : (10 : ℚ) ^ (d.places - 6) ≤ d.coefficient := by
      rw [← hscale]
      exact le_mul_of_one_le_left (by positivity) hlow
    exact absurd hle (not_lt.mpr (by exact_mod_cast hge))
  have hplain : needsExponent d = false := by
    simp only [needsExponent, Bool.and_eq_false_iff, Bool.or_eq_false_iff, decide_eq_false_iff_not]
    exact .inr ⟨by omega, by omega⟩
  rw [toString, hplain]
  rfl

theorem toString_exponent (h : 10 ^ 21 ≤ d.value) : 'e' ∈ toString d := by
  have hcount : d.places + 21 < digitCount d := by
    rw [← not_le, ← value_lt_iff 21 (by omega), not_lt]
    exact h
  have hne : d.coefficient ≠ 0 := by
    intro hzero
    rw [ScaledDecimal.value, hzero, Nat.cast_zero, zero_div] at h
    norm_num at h
  have hexponent : needsExponent d = true := by simp [needsExponent, hne, hcount]
  rw [toString, hexponent, if_pos rfl, exponentText]
  exact List.mem_append_right _ List.mem_cons_self

theorem column_fits {n : ℕ} (hn : d.value * 10 ^ 6 = n) (hlt : n < 10 ^ 38) :
    ∃ stored, column d = some stored ∧ stored.value = d.value := by
  have hunits : d.coefficient * 10 ^ 6 = n * 10 ^ d.places := by
    have hq : (d.coefficient : ℚ) * 10 ^ 6 = n * 10 ^ d.places := by
      rw [← value_scale, ← hn]
      ring
    exact_mod_cast hq
  have hround : (2 * (d.coefficient * 10 ^ 6) + 10 ^ d.places) / (2 * 10 ^ d.places) = n := by
    have hpos : 0 < 10 ^ d.places := Nat.pow_pos (by decide)
    rw [hunits, show 2 * (n * 10 ^ d.places) = 2 * 10 ^ d.places * n by ring,
      Nat.mul_add_div (by omega), Nat.div_eq_of_lt (by omega), Nat.add_zero]
  refine ⟨⟨n, 6⟩, by simp only [column, hround, if_pos hlt], ?_⟩
  rw [ScaledDecimal.value, ← hn]
  exact mul_div_cancel_right₀ _ (by norm_num)

theorem afterPoint_text (p : Plain) : afterPoint (p.text.dropWhile Char.isDigit) = p.fraction := by
  rw [(takeWhile_text p).2]
  split_ifs with h
  · rw [h]
    rfl
  · rfl

theorem head?_text (p : Plain) : p.text.head? ≠ some '-' := by
  intro h
  exact not_mem_text (c := '-') rfl (by decide) p (List.mem_of_mem_head? h)

theorem parseUnits_plain (hlength : p.fraction.length ≤ decimals)
    (hlt : p.units decimals < 2 ^ 511) :
    parseUnits p.text decimals = some (p.units decimals : ℤ) := by
  have hdigits : allDigits p.fraction = true := List.all_eq_true.mpr p.fraction_digits
  have hne : (p.whole ++ p.fraction).isEmpty = false := by
    rw [List.isEmpty_eq_false_iff]
    exact List.append_ne_nil_of_left_ne_nil p.whole_ne_nil _
  have hwidth : (0 : ℤ) ≤ 2 ^ 511 := pow_nonneg (by decide) _
  have hrange : -2 ^ 511 ≤ (p.units decimals : ℤ) ∧ (p.units decimals : ℤ) < 2 ^ 511 :=
    ⟨(neg_nonpos.mpr hwidth).trans (Int.natCast_nonneg _), by exact_mod_cast hlt⟩
  simp only [parseUnits, head?_text, if_false, (takeWhile_text p).1, afterPoint_text, hdigits, hne, List.drop_eq_nil_of_le hlength,
    List.take_of_length_le hlength, List.all_nil, Bool.not_false, Bool.and_self, if_true]
  exact if_pos hrange

theorem parseUnits_exponent {text : List Char} (h : 'e' ∈ text) :
    parseUnits text decimals = none := by
  have hbody : ∀ body : List Char, 'e' ∈ body →
      allDigits (afterPoint (body.dropWhile Char.isDigit)) = false := by
    intro body he
    rw [← List.takeWhile_append_dropWhile (p := Char.isDigit) (l := body), List.mem_append] at he
    have hrest : 'e' ∈ body.dropWhile Char.isDigit := by
      refine he.resolve_left fun hdigit => ?_
      have := List.mem_takeWhile_imp hdigit
      cases this
    have hafter : 'e' ∈ afterPoint (body.dropWhile Char.isDigit) := by
      unfold afterPoint
      split
      · rename_i fraction heq
        rw [heq, List.mem_cons] at hrest
        exact hrest.resolve_left (by decide)
      · exact hrest
    exact List.all_eq_false.mpr ⟨'e', hafter, by decide⟩
  have htail : ∀ body : List Char, body.head? = some '-' → 'e' ∈ body → 'e' ∈ body.tail := by
    intro body hhead he
    cases body with
    | nil => cases he
    | cons c rest =>
      cases Option.some.inj hhead
      exact (List.mem_cons.mp he).resolve_left (by decide)
  unfold parseUnits
  by_cases hsign : text.head? = some '-'
  · simp only [hsign, if_true, hbody _ (htail text hsign h), Bool.false_and,
      Bool.false_eq_true, if_false]
  · simp only [hsign, Bool.false_eq_true, if_false, hbody _ h, Bool.false_and]

theorem value_withFraction (p : Plain) : (withFraction p).value = p.value := by
  unfold withFraction
  split_ifs with h
  · rw [Plain.value, Plain.value, Plain.coefficient, Plain.coefficient, h, List.append_nil,
      Nat.ofDigitChars_append, Nat.ofDigitChars_cons, Nat.ofDigitChars_nil]
    push_cast
    norm_num
  · rfl

theorem formatUnits_plain (units decimals : ℕ) :
    ∃ p : Plain, formatUnits units decimals = p.text ∧ p.value = units / 10 ^ decimals := by
  have hsign : ¬(units : ℤ) < 0 := not_lt.mpr (Int.natCast_nonneg _)
  simp only [formatUnits, if_neg hsign, List.nil_append, Int.natAbs_natCast]
  by_cases h : decimals = 0
  · refine ⟨plainOf units 0, by rw [if_pos h], ?_⟩
    rw [h, value_plainOf]
  · refine ⟨withFraction (plainOf units decimals), by rw [if_neg h], ?_⟩
    rw [value_withFraction, value_plainOf]

theorem documented : libraries.Documented where
  newDecimal_plain p := ⟨⟨p.coefficient, p.fraction.length⟩,
    by simp [libraries, newDecimal, readPlain_text], rfl⟩
  toString_plain d hlow hhigh := ⟨plainOf d.coefficient d.places, toString_plain hlow hhigh,
    value_plainOf _ _, getLast?_trimZeros _⟩
  toString_exponent _ h := toString_exponent h
  column_fits _ _ hn hlt := column_fits hn hlt
  parseUnits_plain _ _ hlength hlt := parseUnits_plain hlength hlt
  parseUnits_exponent _ _ h := parseUnits_exponent h
  formatUnits_plain units decimals _ := formatUnits_plain units decimals

end Rail.Reference
