import SettlementRail.Model.Reconciliation

/-! The arithmetic of a reconciliation run on any three balances. Every addition and subtraction
keeps twenty significant digits; what it cuts off is followed through the run. -/

namespace Rail
open Foundation

/-- What rounding to twenty digits takes away from an exact result. -/
def cutOff (x : ℤ) : ℤ := x - roundSig 20 x

def pendingSum (sum : ℤ) (amounts : List Amount) : ℤ :=
  amounts.foldl (fun (sum : ℤ) (amount : Amount) => decimalPlus sum (amount : ℤ)) sum

def reconcileAmounts (ledgerBalance chainBalance : ℤ) (amounts : List Amount) :
    ReconciliationRun :=
  let pendingAmount := pendingSum 0 amounts
  let diff := decimalMinus (decimalMinus ledgerBalance pendingAmount) chainBalance
  { ledgerBalance, chainBalance, pendingAmount, diff
    status := if diff.natAbs < 1 then .matched else .mismatch }

def exactDiff (ledgerBalance chainBalance : ℤ) (amounts : List Amount) : ℤ :=
  ledgerBalance - amounts.sum - chainBalance

/-- MATCHED exactly on equality, and MISMATCH with the exact difference otherwise. -/
structure Sharp (ledgerBalance chainBalance : ℤ) (amounts : List Amount) : Prop where
  matched : (reconcileAmounts ledgerBalance chainBalance amounts).status = .matched ↔
    ledgerBalance - amounts.sum = chainBalance
  mismatch : ledgerBalance - amounts.sum ≠ chainBalance →
    (reconcileAmounts ledgerBalance chainBalance amounts).status = .mismatch ∧
      (reconcileAmounts ledgerBalance chainBalance amounts).diff =
        exactDiff ledgerBalance chainBalance amounts

def partialSums : ℤ → List Amount → List ℤ
  | _, [] => []
  | sum, amount :: amounts => (sum + amount) :: partialSums (sum + amount) amounts

def exactSteps (ledgerBalance chainBalance : ℤ) (amounts : List Amount) : List ℤ :=
  partialSums 0 amounts ++
    [ledgerBalance - amounts.sum, exactDiff ledgerBalance chainBalance amounts]

def NothingCut (ledgerBalance chainBalance : ℤ) (amounts : List Amount) : Prop :=
  ∀ x ∈ exactSteps ledgerBalance chainBalance amounts, cutOff x = 0

instance (ledgerBalance chainBalance : ℤ) (amounts : List Amount) :
    Decidable (NothingCut ledgerBalance chainBalance amounts) :=
  inferInstanceAs (Decidable (∀ _ ∈ _, _))

variable {ledgerBalance chainBalance sum x : ℤ} {amounts : List Amount}

theorem reconcile_eq (db : Db) (node : Node) :
    reconcile db node = reconcileAmounts db.getOperatorBalance node.operatorFunds
      (((db.findByStatuses pendingStatuses).filter fun s =>
        (s.txHash.bind node.getTransactionReceipt).any Receipt.success).map Settlement.amount) := by
  have hloop : ∀ (rows : List Settlement) (sum : ℤ), rows.foldl (addMinedPending node) sum =
      pendingSum sum ((rows.filter fun s =>
        (s.txHash.bind node.getTransactionReceipt).any Receipt.success).map Settlement.amount) := by
    intro rows
    induction rows with
    | nil => exact fun _ => rfl
    | cons s rows ih =>
      intro sum
      rw [List.foldl_cons, ih, addMinedPending, List.filter_cons]
      rcases s.txHash.bind node.getTransactionReceipt with _ | receipt
      · rfl
      · by_cases hsuccess : receipt.success
        · simp only [hsuccess, if_true, Option.any_some, List.map_cons, pendingSum, List.foldl_cons]
        · simp [hsuccess]
  simp only [reconcile, reconcileAmounts, computeMinedPending, hloop]

theorem cutOff_eq_zero_iff : cutOff x = 0 ↔ roundSig 20 x = x := by
  rw [cutOff, sub_eq_zero]
  exact eq_comm

theorem pendingSum_of_nothingCut (h : ∀ x ∈ partialSums sum amounts, cutOff x = 0) :
    pendingSum sum amounts = sum + amounts.sum := by
  induction amounts generalizing sum with
  | nil => simp [pendingSum]
  | cons amount amounts ih =>
    obtain ⟨hfirst, hrest⟩ := List.forall_mem_cons.mp h
    have hstep : decimalPlus sum amount = sum + amount := cutOff_eq_zero_iff.mp hfirst
    calc pendingSum sum (amount :: amounts)
        = pendingSum (decimalPlus sum amount) amounts := rfl
      _ = sum + amount + amounts.sum := by rw [hstep, ih hrest]
      _ = sum + (amount :: amounts).sum := by rw [List.sum_cons, Nat.cast_add, add_assoc]

theorem NothingCut.diff_eq (h : NothingCut ledgerBalance chainBalance amounts) :
    (reconcileAmounts ledgerBalance chainBalance amounts).diff =
      exactDiff ledgerBalance chainBalance amounts := by
  rw [NothingCut, exactSteps, List.forall_mem_append] at h
  have hsum : pendingSum 0 amounts = amounts.sum := by
    rw [pendingSum_of_nothingCut h.1, zero_add]
  have hleft : decimalMinus ledgerBalance amounts.sum = ledgerBalance - amounts.sum :=
    cutOff_eq_zero_iff.mp (h.2 _ (by simp))
  have hdiff : decimalMinus (ledgerBalance - amounts.sum) chainBalance =
      exactDiff ledgerBalance chainBalance amounts :=
    cutOff_eq_zero_iff.mp (h.2 _ (List.mem_cons_of_mem _ (List.mem_singleton_self _)))
  simp only [reconcileAmounts, hsum, hleft, hdiff]

theorem status_matched_iff :
    (reconcileAmounts ledgerBalance chainBalance amounts).status = .matched ↔
      (reconcileAmounts ledgerBalance chainBalance amounts).diff = 0 := by
  have hsmall : ∀ x : ℤ, x.natAbs < 1 ↔ x = 0 := fun x => by omega
  simp only [reconcileAmounts]
  rw [← hsmall]
  split_ifs with h <;> simp [h]

/-- When no digit is cut off, a run tells equal balances from different ones. -/
theorem sharp_of_nothingCut (h : NothingCut ledgerBalance chainBalance amounts) :
    Sharp ledgerBalance chainBalance amounts := by
  have hdiff := h.diff_eq
  have hzero : exactDiff ledgerBalance chainBalance amounts = 0 ↔
      ledgerBalance - amounts.sum = chainBalance := sub_eq_zero
  refine ⟨by rw [status_matched_iff, hdiff, hzero], fun hne => ⟨?_, hdiff⟩⟩
  have hnot : (reconcileAmounts ledgerBalance chainBalance amounts).status ≠ .matched := by
    rwa [ne_eq, status_matched_iff, hdiff, hzero]
  cases hstatus : (reconcileAmounts ledgerBalance chainBalance amounts).status with
  | matched => exact absurd hstatus hnot
  | mismatch => rfl

/-- Balances of twenty-two digits that end in zeros, two hundred base units apart. -/
theorem drift_of_round_balances_found : Sharp (10 ^ 21 + 700) (10 ^ 21) [200, 300] :=
  sharp_of_nothingCut (by decide)

-- digits cut off in two places may cancel: four too little, then four too much
example : ¬NothingCut (10 ^ 20 + 4) (3 * 10 ^ 20 + 4) [] ∧
    (reconcileAmounts (10 ^ 20 + 4) (3 * 10 ^ 20 + 4) []).diff =
      exactDiff (10 ^ 20 + 4) (3 * 10 ^ 20 + 4) [] := by decide

/-- Below 10^20 base units nothing is cut off. -/
theorem nothingCut_of_lt (hledger : ledgerBalance.natAbs + amounts.sum < 10 ^ 20)
    (hdiff : ledgerBalance.natAbs + amounts.sum + chainBalance.natAbs < 10 ^ 20) :
    NothingCut ledgerBalance chainBalance amounts := by
  have hsums : ∀ (amounts : List Amount) (sum : ℤ), sum.natAbs + amounts.sum < 10 ^ 20 →
      ∀ x ∈ partialSums sum amounts, cutOff x = 0 := by
    intro amounts
    induction amounts with
    | nil => simp [partialSums]
    | cons amount amounts ih =>
      intro sum hlt
      rw [List.sum_cons] at hlt
      refine List.forall_mem_cons.mpr ⟨?_, ih _ (by omega)⟩
      exact cutOff_eq_zero_iff.mpr (roundSig_of_lt (by omega))
  rw [NothingCut, exactSteps, List.forall_mem_append]
  refine ⟨hsums amounts 0 (by omega), fun x hx => ?_⟩
  refine cutOff_eq_zero_iff.mpr (roundSig_of_lt ?_)
  rcases List.mem_pair.mp hx with rfl | rfl
  · omega
  · rw [exactDiff]
    omega

/-- The chain holds one base unit less than the ledger says, and the run records MATCHED. -/
theorem one_unit_drift_matched :
    ¬∀ (ledgerBalance chainBalance : ℤ) (amounts : List Amount),
      ledgerBalance.natAbs < 10 ^ 38 → chainBalance.natAbs < 10 ^ 38 →
        (∀ amount ∈ amounts, amount < 10 ^ 38) → Sharp ledgerBalance chainBalance amounts := by
  intro h
  have hsharp := h (10 ^ 20 + 1) (10 ^ 20) [] (by decide) (by decide) (by simp)
  exact absurd (hsharp.matched.mp (by decide)) (by decide)

end Rail
