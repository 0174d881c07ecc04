import Mathlib.Algebra.Order.Ring.Int
import Mathlib.Algebra.Order.Ring.Nat
import Mathlib.Data.Nat.Log

/-! Rounding of an integer to its leading `p` decimal digits, ties away from zero. -/

namespace Foundation

def roundSig (p : ℕ) (x : ℤ) : ℤ :=
  if x.natAbs < 10 ^ p then x
  else
    let k := Nat.log 10 x.natAbs + 1 - p
    x.sign * ((x.natAbs + 5 * 10 ^ (k - 1)) / 10 ^ k * 10 ^ k : ℕ)

theorem roundSig_of_lt {p : ℕ} {x : ℤ} (h : x.natAbs < 10 ^ p) : roundSig p x = x := if_pos h

theorem roundSig_natCast {p n : ℕ} (h : n < 10 ^ p) : roundSig p n = n := roundSig_of_lt h

theorem roundSig_sub {p m n : ℕ} (hm : m < 10 ^ p) (hn : n < 10 ^ p) :
    roundSig p ((m : ℤ) - n) = m - n :=
  roundSig_of_lt (by omega)

def roundNat (p n : ℕ) : ℕ :=
  if n < 10 ^ p then n
  else (n + 5 * 10 ^ (Nat.log 10 n + 1 - p - 1)) / 10 ^ (Nat.log 10 n + 1 - p) *
    10 ^ (Nat.log 10 n + 1 - p)

variable {p m n : ℕ}

theorem le_log_of_not_lt (h : ¬n < 10 ^ p) : p ≤ Nat.log 10 n :=
  Nat.le_log_of_pow_le (by decide) (not_lt.mp h)

theorem roundNat_bounds (hp : 0 < p) (h : ¬n < 10 ^ p) :
    10 ^ Nat.log 10 n ≤ roundNat p n ∧ roundNat p n ≤ 10 ^ (Nat.log 10 n + 1) := by
  have hlog := le_log_of_not_lt h
  have hpos : 0 < 10 ^ p := Nat.pow_pos (by decide)
  have hlow : 10 ^ Nat.log 10 n ≤ n := Nat.pow_log_le_self 10 (by omega)
  have hhigh : n < 10 ^ (Nat.log 10 n + 1) := Nat.lt_pow_succ_log_self (by decide) n
  rw [roundNat, if_neg h]
  generalize Nat.log 10 n = l at hlog hlow hhigh ⊢
  obtain ⟨k, hk⟩ : ∃ k, l + 1 - p = k + 1 := ⟨l - p, by omega⟩
  have hl : l = l - (k + 1) + (k + 1) := by omega
  rw [hk, Nat.add_sub_cancel]
  have hunit : 0 < 10 ^ (k + 1) := Nat.pow_pos (by decide)
  have hhalf : 5 * 10 ^ k < 10 ^ (k + 1) := by
    have : 0 < 10 ^ k := Nat.pow_pos (by decide)
    rw [pow_succ]
    omega
  constructor
  · have hle : 10 ^ (l - (k + 1)) ≤ (n + 5 * 10 ^ k) / 10 ^ (k + 1) := by
      rw [Nat.le_div_iff_mul_le hunit, ← pow_add, ← hl]
      exact hlow.trans (Nat.le_add_right _ _)
    calc 10 ^ l = 10 ^ (l - (k + 1)) * 10 ^ (k + 1) := by rw [← pow_add, ← hl]
      _ ≤ _ := Nat.mul_le_mul_right _ hle
  · have hl' : l + 1 = l + 1 - (k + 1) + (k + 1) := by omega
    have hlt : (n + 5 * 10 ^ k) / 10 ^ (k + 1) < 10 ^ (l + 1 - (k + 1)) + 1 := by
      rw [Nat.div_lt_iff_lt_mul hunit, Nat.add_mul, Nat.one_mul, ← pow_add, ← hl']
      omega
    calc _ ≤ 10 ^ (l + 1 - (k + 1)) * 10 ^ (k + 1) := Nat.mul_le_mul_right _ (Nat.lt_succ_iff.mp hlt)
      _ = 10 ^ (l + 1) := by rw [← pow_add, ← hl']

theorem roundNat_mono (hp : 0 < p) (h : m ≤ n) : roundNat p m ≤ roundNat p n := by
  by_cases hn : n < 10 ^ p
  · rwa [roundNat, roundNat, if_pos hn, if_pos (h.trans_lt hn)]
  · have hlow := (roundNat_bounds hp hn).1
    by_cases hm : m < 10 ^ p
    · calc roundNat p m = m := if_pos hm
        _ ≤ 10 ^ p := hm.le
        _ ≤ 10 ^ Nat.log 10 n := Nat.pow_le_pow_right (by decide) (le_log_of_not_lt hn)
        _ ≤ roundNat p n := hlow
    · rcases (Nat.log_mono_right h : Nat.log 10 m ≤ Nat.log 10 n).lt_or_eq with hlt | heq
      · calc roundNat p m ≤ 10 ^ (Nat.log 10 m + 1) := (roundNat_bounds hp hm).2
          _ ≤ 10 ^ Nat.log 10 n := Nat.pow_le_pow_right (by decide) hlt
          _ ≤ roundNat p n := hlow
      · rw [roundNat, roundNat, if_neg hm, if_neg hn, heq]
        exact Nat.mul_le_mul_right _ (Nat.div_le_div_right (Nat.add_le_add_right h _))

theorem roundSig_eq (p : ℕ) (x : ℤ) : roundSig p x = x.sign * (roundNat p x.natAbs : ℕ) := by
  unfold roundSig roundNat
  split_ifs
  · rw [Int.sign_mul_natAbs]
  · rfl

theorem roundSig_mono (hp : 0 < p) {x y : ℤ} (h : x ≤ y) : roundSig p x ≤ roundSig p y := by
  have hnonneg : ∀ n : ℕ, (n : ℤ).sign * (roundNat p n : ℕ) = roundNat p n := by
    intro n
    rcases n.eq_zero_or_pos with rfl | hn
    · rw [roundNat, if_pos (Nat.pow_pos (by decide))]
      rfl
    · rw [Int.sign_eq_one_of_pos (Int.natCast_pos.mpr hn), one_mul]
  have hneg : ∀ n : ℕ, (-(n : ℤ)).sign * (roundNat p n : ℕ) = -(roundNat p n : ℤ) := by
    intro n
    rw [Int.sign_neg, neg_mul, hnonneg]
  rw [roundSig_eq, roundSig_eq]
  obtain ⟨m, rfl | rfl⟩ := Int.eq_nat_or_neg x <;> obtain ⟨n, rfl | rfl⟩ := Int.eq_nat_or_neg y
  · rw [Int.natAbs_natCast, Int.natAbs_natCast, hnonneg, hnonneg]
    exact Int.ofNat_le.mpr (roundNat_mono hp (Int.ofNat_le.mp h))
  · rw [Int.natAbs_natCast, Int.natAbs_neg, Int.natAbs_natCast, hnonneg, hneg]
    have hm : m = 0 := by omega
    have hn : n = 0 := by omega
    rw [hm, hn, roundNat, if_pos (Nat.pow_pos (by decide))]
    rfl
  · rw [Int.natAbs_neg, Int.natAbs_natCast, Int.natAbs_natCast, hnonneg, hneg]
    exact (Int.neg_nonpos_of_nonneg (Int.natCast_nonneg _)).trans (Int.natCast_nonneg _)
  · rw [Int.natAbs_neg, Int.natAbs_neg, Int.natAbs_natCast, Int.natAbs_natCast, hneg, hneg]
    exact Int.neg_le_neg (Int.ofNat_le.mpr (roundNat_mono hp (by omega)))

end Foundation
