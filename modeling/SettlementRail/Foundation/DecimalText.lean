import Mathlib.Data.List.DropRight
import Mathlib.Algebra.Order.Field.Rat
import Mathlib.Tactic.FieldSimp
import Mathlib.Tactic.Ring

/-! Plain decimal notation: digits, and perhaps a point with more digits behind it. A text is
read back from what it says, and every decimal fraction has a text without trailing zeros. -/

namespace Foundation

/-- The digits before and after the point; an empty fraction is written without the point. -/
structure Plain where
  whole : List Char
  fraction : List Char
  whole_ne_nil : whole ≠ []
  whole_digits : ∀ c ∈ whole, c.isDigit = true
  fraction_digits : ∀ c ∈ fraction, c.isDigit = true

namespace Plain

def text (p : Plain) : List Char :=
  if p.fraction = [] then p.whole else p.whole ++ '.' :: p.fraction

def coefficient (p : Plain) : ℕ := Nat.ofDigitChars 10 (p.whole ++ p.fraction) 0

def value (p : Plain) : ℚ := p.coefficient / 10 ^ p.fraction.length

def units (p : Plain) (decimals : ℕ) : ℕ := p.coefficient * 10 ^ (decimals - p.fraction.length)

end Plain

def allDigits (text : List Char) : Bool := text.all Char.isDigit

/-- The longest run of digits first, then either the end or a point and digits. -/
def readPlain (text : List Char) : Option Plain :=
  let whole := text.takeWhile Char.isDigit
  if hwhole : whole = [] then none
  else
    match text.dropWhile Char.isDigit with
    | [] => some
      { whole, fraction := [], whole_ne_nil := hwhole
        whole_digits := fun _ hc => List.mem_takeWhile_imp hc
        fraction_digits := fun _ hc => absurd hc List.not_mem_nil }
    | c :: fraction =>
      if h : c = '.' ∧ fraction ≠ [] ∧ allDigits fraction = true then some
        { whole, fraction, whole_ne_nil := hwhole
          whole_digits := fun _ hc => List.mem_takeWhile_imp hc
          fraction_digits := fun c hc => List.all_eq_true.mp h.2.2 c hc }
      else none

variable {p q : Plain} {decimals : ℕ}

theorem takeWhile_text (p : Plain) : p.text.takeWhile Char.isDigit = p.whole ∧
    p.text.dropWhile Char.isDigit = if p.fraction = [] then [] else '.' :: p.fraction := by
  have htake : p.whole.takeWhile Char.isDigit = p.whole :=
    List.takeWhile_eq_self_iff.mpr p.whole_digits
  have hdrop : p.whole.dropWhile Char.isDigit = [] :=
    List.dropWhile_eq_nil_iff.mpr p.whole_digits
  rw [Plain.text]
  split_ifs with h
  · exact ⟨htake, hdrop⟩
  · rw [List.takeWhile_append_of_pos p.whole_digits, List.dropWhile_append_of_pos p.whole_digits]
    exact ⟨by simp, by simp⟩

theorem readPlain_text (p : Plain) : readPlain p.text = some p := by
  obtain ⟨htake, hdrop⟩ := takeWhile_text p
  obtain ⟨whole, fraction, hne, hwhole, hfraction⟩ := p
  simp only [readPlain, htake, dif_neg hne, hdrop]
  by_cases h : fraction = []
  · simp only [h, if_true]
  · have hall : allDigits fraction = true := List.all_eq_true.mpr hfraction
    simp only [h, if_false, ne_eq, not_false_eq_true, hall, and_self, dite_true]

theorem text_of_readPlain {text : List Char} (h : readPlain text = some p) : p.text = text := by
  have hsplit : text.takeWhile Char.isDigit ++ text.dropWhile Char.isDigit = text :=
    List.takeWhile_append_dropWhile
  unfold readPlain at h
  simp only at h
  split_ifs at h with hwhole
  split at h
  · rename_i hdrop
    cases h
    rw [Plain.text, if_pos rfl]
    rwa [hdrop, List.append_nil] at hsplit
  · rename_i c fraction hdrop
    split_ifs at h with hpoint
    cases h
    rw [Plain.text, if_neg hpoint.2.1, ← hpoint.1, ← hdrop, hsplit]

theorem not_mem_text {c : Char} (hdigit : c.isDigit = false) (hpoint : c ≠ '.') (p : Plain) :
    c ∉ p.text := by
  have hnot : ∀ l : List Char, (∀ x ∈ l, x.isDigit = true) → c ∉ l := by
    intro l hl hc
    rw [hl c hc] at hdigit
    cases hdigit
  rw [Plain.text]
  split_ifs
  · exact hnot _ p.whole_digits
  · rw [List.mem_append, List.mem_cons]
    rintro (hc | hc | hc)
    · exact hnot _ p.whole_digits hc
    · exact hpoint hc
    · exact hnot _ p.fraction_digits hc

theorem Plain.units_eq (h : p.fraction.length ≤ decimals) :
    (p.units decimals : ℚ) = p.value * 10 ^ decimals := by
  obtain ⟨k, rfl⟩ := Nat.exists_eq_add_of_le h
  rw [Plain.units, Plain.value, Nat.add_sub_cancel_left, pow_add]
  push_cast
  field_simp

theorem Plain.length_fraction_le (hlast : p.fraction.getLast? ≠ some '0') {n : ℕ}
    (h : (n : ℚ) = p.value * 10 ^ decimals) : p.fraction.length ≤ decimals := by
  by_contra hlt
  obtain ⟨k, hk⟩ : ∃ k, p.fraction.length = decimals + (k + 1) :=
    ⟨p.fraction.length - decimals - 1, by omega⟩
  have hcoefficient : p.coefficient = n * 10 ^ k * 10 := by
    have hq : (p.coefficient : ℚ) = n * 10 ^ k * 10 := by
      rw [h, Plain.value, hk, pow_add, pow_succ]
      field_simp
    exact_mod_cast hq
  obtain ⟨rest, c, hfraction⟩ : ∃ rest c, p.fraction = rest ++ [c] := by
    rcases List.eq_nil_or_concat p.fraction with hnil | ⟨rest, c, hconcat⟩
    · rw [hnil] at hk
      simp at hk
    · exact ⟨rest, c, by rw [hconcat, List.concat_eq_append]⟩
  have hdigit : c.isDigit = true := p.fraction_digits c (by simp [hfraction])
  have hzero : c ≠ '0' := fun hc => hlast (by simp [hfraction, hc])
  rw [Plain.coefficient, hfraction, ← List.append_assoc, Nat.ofDigitChars_append,
    Nat.ofDigitChars_cons, Nat.ofDigitChars_nil] at hcoefficient
  have hrange : 48 ≤ c.toNat ∧ c.toNat ≤ 57 := by
    simpa [Char.isDigit, Char.le_def, UInt32.le_iff_toNat_le] using hdigit
  have hne : c.toNat ≠ 48 := fun heq => hzero (Char.toNat_inj.mp heq)
  have hzeroNat : '0'.toNat = 48 := rfl
  omega

def lastDigits : ℕ → ℕ → List Char
  | 0, _ => []
  | k + 1, n => lastDigits k (n / 10) ++ [(n % 10).digitChar]

theorem length_lastDigits (k n : ℕ) : (lastDigits k n).length = k := by
  induction k generalizing n with
  | zero => rfl
  | succ k ih => rw [lastDigits, List.length_append, ih, List.length_singleton]

theorem isDigit_lastDigits {k n : ℕ} : ∀ c ∈ lastDigits k n, c.isDigit = true := by
  induction k generalizing n with
  | zero => exact fun _ hc => absurd hc List.not_mem_nil
  | succ k ih =>
    intro c hc
    rw [lastDigits, List.mem_append, List.mem_singleton] at hc
    rcases hc with hc | rfl
    · exact ih c hc
    · have hlt : n % 10 < 10 := Nat.mod_lt _ (by decide)
      refine Nat.isDigit_of_mem_toDigits (b := 10) (n := n % 10) (by decide) (by decide) ?_
      rw [Nat.toDigits_of_lt_base hlt]
      exact List.mem_singleton_self _

theorem ofDigitChars_lastDigits (k n init : ℕ) :
    Nat.ofDigitChars 10 (lastDigits k n) init = init * 10 ^ k + n % 10 ^ k := by
  induction k generalizing n with
  | zero => simp [lastDigits, Nat.mod_one]
  | succ k ih =>
    have hlt : n % 10 < 10 := Nat.mod_lt _ (by decide)
    have hmod : n % 10 ^ (k + 1) = n % 10 + 10 * (n / 10 % 10 ^ k) := by
      rw [pow_succ', Nat.mod_mul]
    rw [lastDigits, Nat.ofDigitChars_append, ih, Nat.ofDigitChars_cons_digitChar_of_lt_ten hlt,
      Nat.ofDigitChars_nil, hmod, pow_succ]
    ring

def trimZeros (digits : List Char) : List Char := digits.rdropWhile fun c => c = '0'

theorem trimZeros_spec (digits : List Char) :
    ∃ k, digits = trimZeros digits ++ List.replicate k '0' := by
  refine ⟨(digits.rtakeWhile fun c => c = '0').length, ?_⟩
  have hall : digits.rtakeWhile (fun c => c = '0') =
      List.replicate (digits.rtakeWhile fun c => c = '0').length '0' :=
    List.eq_replicate_iff.mpr ⟨rfl, fun c hc => by simpa using List.mem_rtakeWhile_imp hc⟩
  rw [← hall, trimZeros, List.rdropWhile, List.rtakeWhile, ← List.reverse_append,
    List.takeWhile_append_dropWhile, List.reverse_reverse]

theorem getLast?_trimZeros (digits : List Char) : (trimZeros digits).getLast? ≠ some '0' := by
  intro h
  have hne : trimZeros digits ≠ [] := fun hnil => by simp [hnil] at h
  have hlast := List.rdropWhile_last_not (fun c => c = '0') digits hne
  rw [List.getLast?_eq_getLast_of_ne_nil hne] at h
  exact hlast (by simpa [trimZeros] using h)

def plainOf (n k : ℕ) : Plain where
  whole := Nat.toDigits 10 (n / 10 ^ k)
  fraction := trimZeros (lastDigits k n)
  whole_ne_nil := Nat.toDigits_ne_nil
  whole_digits _ hc := Nat.isDigit_of_mem_toDigits (by decide) (by decide) hc
  fraction_digits c hc := by
    obtain ⟨j, hj⟩ := trimZeros_spec (lastDigits k n)
    exact isDigit_lastDigits c (by rw [hj]; exact List.mem_append_left _ hc)

theorem value_plainOf (n k : ℕ) : (plainOf n k).value = n / 10 ^ k := by
  obtain ⟨j, hj⟩ := trimZeros_spec (lastDigits k n)
  have hlength : (trimZeros (lastDigits k n)).length + j = k := by
    have := congrArg List.length hj
    rwa [length_lastDigits, List.length_append, List.length_replicate, eq_comm] at this
  have hcoefficient : (plainOf n k).coefficient * 10 ^ j = n := by
    have hdigits := ofDigitChars_lastDigits k n (n / 10 ^ k)
    rw [hj, Nat.ofDigitChars_append, Nat.ofDigitChars_replicate_zero] at hdigits
    calc (plainOf n k).coefficient * 10 ^ j
        = 10 ^ j * Nat.ofDigitChars 10 (trimZeros (lastDigits k n)) (n / 10 ^ k) := by
          rw [Plain.coefficient, plainOf, Nat.ofDigitChars_append, Nat.ofDigitChars_ten_toDigits,
            Nat.mul_comm]
      _ = n := by rw [hdigits, Nat.div_add_mod']
  have hq : ((plainOf n k).coefficient : ℚ) * 10 ^ j = n := by exact_mod_cast hcoefficient
  have hpow : (10 : ℚ) ^ k = 10 ^ (plainOf n k).fraction.length * 10 ^ j := by
    rw [← pow_add, show (plainOf n k).fraction.length + j = k from hlength]
  rw [Plain.value, ← hq, hpow]
  field_simp

end Foundation
