import SettlementRail.Amounts.ReferenceLibraries
import SettlementRail.Model.Transactions

/-! An amount on its two ways to the chain. Both ways read the same number, as long as the stored
amount is printed without an exponent. -/

namespace Rail
open Foundation

/-- Both ways end in the positive number of base units, and the way back gives the amount. -/
def AmountLibraries.Survives (L : AmountLibraries) (text : List Char) : Prop :=
  ∃ units : ℕ, 0 < units ∧ (units : ℚ) = textValue text * 10 ^ usdcDecimals ∧
    L.settlementUnits usdcDecimals text = some (units : ℤ) ∧
    L.dvpUnits usdcDecimals text = some (units : ℤ) ∧
    ∃ d, L.fromBaseUnits usdcDecimals units = some d ∧ L.value d = textValue text

variable {L : AmountLibraries} {text : List Char} {d : L.Decimal} {units : ℕ}

theorem plain_of_isPositiveDecimal (hL : L.Documented)
    (h : L.isPositiveDecimal usdcDecimals text = true) :
    ∃ p : Plain, text = p.text ∧ textValue text = p.value ∧ p.fraction.length ≤ usdcDecimals ∧
      0 < p.units usdcDecimals ∧
      (p.units usdcDecimals : ℚ) = textValue text * 10 ^ usdcDecimals := by
  rw [AmountLibraries.isPositiveDecimal, Bool.and_eq_true] at h
  obtain ⟨p, hread, hlength⟩ := (Option.any_eq_true _ _).mp h.1
  obtain ⟨d, hnew, hpositive⟩ := (Option.any_eq_true _ _).mp h.2
  have htext : p.text = text := text_of_readPlain hread
  have hvalue : textValue text = p.value := by rw [textValue, hread, Option.elim_some]
  obtain ⟨d', hnew', hd'⟩ := hL.newDecimal_plain p
  rw [htext, hnew] at hnew'
  cases hnew'
  have hpos : 0 < p.value := hd' ▸ of_decide_eq_true hpositive
  have hunits := Plain.units_eq (of_decide_eq_true hlength)
  refine ⟨p, htext.symm, hvalue, of_decide_eq_true hlength, ?_, by rw [hunits, hvalue]⟩
  have hcast : (0 : ℚ) < p.units usdcDecimals := by
    rw [hunits]
    exact mul_pos hpos (by norm_num)
  exact_mod_cast hcast

theorem units_lt_of_fits (hunits : (units : ℚ) = textValue text * 10 ^ usdcDecimals)
    (hfits : textValue text < 10 ^ 32) : units < 10 ^ 38 := by
  have h : (units : ℚ) < 10 ^ 38 := by
    calc (units : ℚ) = textValue text * 10 ^ usdcDecimals := hunits
      _ < 10 ^ 32 * 10 ^ usdcDecimals := by
        exact mul_lt_mul_of_pos_right hfits (by norm_num)
      _ = 10 ^ 38 := by norm_num [usdcDecimals]
  exact_mod_cast h

theorem lt_width_of_lt (h : units < 10 ^ 38) : units < 2 ^ 511 := by
  have hcolumn : 10 ^ 38 < 2 ^ 127 := by norm_num
  exact h.trans (hcolumn.trans_le (pow_le_pow_right₀ one_le_two (by decide)))

theorem toBaseUnits_plain (hL : L.Documented) (hunits : L.value d * 10 ^ usdcDecimals = units)
    (hpos : 0 < units) (hplain : L.value d < 10 ^ 21) (hlt : units < 2 ^ 511) :
    L.toBaseUnits usdcDecimals (.inl d) = some (units : ℤ) := by
  have hone : 1 ≤ L.value d * 10 ^ 6 := by
    rw [show L.value d * 10 ^ 6 = units from hunits]
    exact_mod_cast hpos
  obtain ⟨p, hprint, hvalue, hlast⟩ := hL.toString_plain d hone hplain
  rw [← hvalue] at hunits
  have hlength : p.fraction.length ≤ usdcDecimals := Plain.length_fraction_le hlast hunits.symm
  have hsame : p.units usdcDecimals = units := by
    have hcast := (Plain.units_eq hlength).trans hunits
    exact_mod_cast hcast
  calc L.toBaseUnits usdcDecimals (.inl d) = L.parseUnits p.text usdcDecimals := by
        rw [← hprint]
        rfl
    _ = some (units : ℤ) := by
      rw [hL.parseUnits_plain p usdcDecimals hlength (hsame ▸ hlt), hsame]

theorem toBaseUnits_exponent (hL : L.Documented) (h : 10 ^ 21 ≤ L.value d) :
    L.toBaseUnits usdcDecimals (.inl d) = none :=
  hL.parseUnits_exponent _ _ (hL.toString_exponent d h)

/-- The conversion of the settlement rows is this one on the printed amount. -/
theorem toBaseUnits_eq (hL : L.Documented) (hunits : L.value d * 10 ^ usdcDecimals = units)
    (hpos : 0 < units) :
    L.toBaseUnits usdcDecimals (.inl d) = (toBaseUnits units).map Int.ofNat := by
  have hscale : L.value d < 10 ^ 21 ↔ units < 10 ^ 27 := by
    have hcast : (units : ℚ) < 10 ^ 27 ↔ units < 10 ^ 27 := by exact_mod_cast Iff.rfl
    rw [← hcast, ← hunits]
    norm_num [usdcDecimals]
    constructor <;> intro h <;> linarith
  rw [toBaseUnits]
  by_cases h : units < 10 ^ 27
  · rw [if_pos h]
    exact toBaseUnits_plain hL hunits hpos (hscale.mpr h) (lt_width_of_lt (h.trans (by norm_num)))
  · rw [if_neg h]
    exact toBaseUnits_exponent hL (not_lt.mp fun hlt => h (hscale.mp hlt))

/-- An accepted amount survives below 10^21; from there on `toBaseUnits` of the stored amount
throws. -/
theorem survives_iff_lt (hL : L.Documented) (haccept : L.isPositiveDecimal usdcDecimals text = true)
    (hfits : textValue text < 10 ^ 32) : L.Survives text ↔ textValue text < 10 ^ 21 := by
  obtain ⟨p, htext, hvalue, hlength, hpos, hunits⟩ := plain_of_isPositiveDecimal hL haccept
  have hlt : p.units usdcDecimals < 10 ^ 38 := units_lt_of_fits hunits hfits
  obtain ⟨decimal, hnew, hdecimal⟩ := hL.newDecimal_plain p
  have hcolumn : L.value decimal * 10 ^ 6 = p.units usdcDecimals := by
    rw [hdecimal, ← hvalue]
    exact hunits.symm
  obtain ⟨stored, hstore, hstored⟩ := hL.column_fits decimal _ hcolumn hlt
  have hsettlement : L.settlementUnits usdcDecimals text =
      L.toBaseUnits usdcDecimals (.inl stored) := by
    simp only [AmountLibraries.settlementUnits, htext, hnew, hstore, Option.bind_eq_bind,
      Option.bind_some]
  have hstoredValue : L.value stored = textValue text := by rw [hstored, hdecimal, hvalue]
  constructor
  · rintro ⟨units, -, -, hsurvives, -⟩
    by_contra hge
    have hthrows := toBaseUnits_exponent hL (d := stored) (by rw [hstoredValue]; exact not_lt.mp hge)
    rw [hsettlement, hthrows] at hsurvives
    cases hsurvives
  · intro hplain
    have hbig : p.units usdcDecimals < 2 ^ 511 := lt_width_of_lt hlt
    refine ⟨p.units usdcDecimals, hpos, hunits, ?_, ?_, ?_⟩
    · rw [hsettlement]
      exact toBaseUnits_plain hL (by rw [hstoredValue, hunits]) hpos (hstoredValue ▸ hplain) hbig
    · rw [AmountLibraries.dvpUnits, htext]
      exact hL.parseUnits_plain p usdcDecimals hlength hbig
    · obtain ⟨q, hformat, hq⟩ := hL.formatUnits_plain (p.units usdcDecimals) usdcDecimals hbig
      obtain ⟨back, hback, hbackValue⟩ := hL.newDecimal_plain q
      refine ⟨back, by rw [AmountLibraries.fromBaseUnits, hformat, hback], ?_⟩
      rw [hbackValue, hq, hunits]
      exact mul_div_cancel_right₀ _ (by norm_num)

theorem padded_half_survives : Reference.libraries.Survives "007.50".toList :=
  (survives_iff_lt Reference.documented (by decide +kernel) (by decide +kernel)).mpr
    (by decide +kernel)

/-- The amount 10^21 is stored, printed as `1e+21` and refused by `parseUnits`. -/
theorem exponent_amount_throws : ¬∀ L : AmountLibraries, L.Documented → ∀ text,
    L.isPositiveDecimal usdcDecimals text = true → textValue text < 10 ^ 32 → L.Survives text := by
  intro h
  obtain ⟨units, -, -, hsettlement, -⟩ := h Reference.libraries Reference.documented
    "1000000000000000000000".toList (by decide +kernel) (by decide +kernel)
  have hthrows : Reference.libraries.settlementUnits usdcDecimals
      "1000000000000000000000".toList = none := by decide +kernel
  rw [hthrows] at hsettlement
  cases hsettlement

end Rail
