import SettlementRail.Model.Relayer

/-! Errors that ethers marks as permanent. The cascade of `classifyTxError` looks for transient
texts first, and the text of an error holds addresses, amounts and calldata. -/

namespace Rail

def permanentCodes : List String := ["INSUFFICIENT_FUNDS", "CALL_EXCEPTION"]

/-- A text that the transient branches of the cascade look for stands in the message. -/
def TxError.diverted (err : TxError) : Bool :=
  isNonceDesync none (lowerChars err.message) || isTransient none (lowerChars err.message) ||
    isUnderpriced (lowerChars err.message)

/-- An await inside the try block of the send loop throws the error. -/
inductive JobPc.Throws (v : JobVars) (err : TxError) : JobPc → JobEvent → Prop
  | refused : Throws v err (.broadcast v) (.sent (.refused err))
  | replyLost : Throws v err (.broadcast v) (.sent (.accepted (some err)))
  | writeLost : Throws v err (.writeSubmitted v) (.written (.lost err))
  | writeAmbiguous : Throws v err (.writeSubmitted v) (.written (.ambiguous err))

/-- From this program point the job ends in one step that sends nothing, keeps the local nonce
and writes at most FAILED. -/
def JobPc.Closing (id : SettlementId) (pc : JobPc) : Prop :=
  ∀ cfg db node now localNonce inflight e out,
    jobStep cfg db node now localNonce inflight id pc e = some out →
      out.pc = none ∧ out.node = .none ∧ out.localNonce = localNonce ∧
        (out.db = .none ∨ ∃ opts, out.db = .transition id .failed opts)

/-- One attempt: the error is neither retryable nor a nonce problem, and wherever the send loop
meets it the job goes to its FAILED write with the local nonce as it was. -/
structure TxError.FailsAtOnce (err : TxError) : Prop where
  not_retryable : (classifyTxError err).retryable = false
  keeps_nonce : (classifyTxError err).resyncNonce = false
  fails : ∀ cfg db node now localNonce inflight id v pc e out, JobPc.Throws v err pc e →
    jobStep cfg db node now localNonce inflight id pc e = some out →
      out.localNonce = localNonce ∧ ∃ reason, out.pc = some (.fail v reason) ∧
        (JobPc.fail v reason).Closing id

variable {err : TxError} {id : SettlementId} {v : JobVars}

theorem isNonceDesync_permanent {message : List Char} (h : err.code.any (· ∈ permanentCodes)) :
    isNonceDesync err.code message = isNonceDesync none message := by
  obtain ⟨code, hcode, hmem⟩ := (Option.any_eq_true _ _).mp h
  rw [hcode]
  simp only [permanentCodes, List.mem_cons, List.not_mem_nil, or_false, decide_eq_true_eq] at hmem
  rcases hmem with rfl | rfl <;> rfl

theorem isTransient_permanent {message : List Char} (h : err.code.any (· ∈ permanentCodes)) :
    isTransient err.code message = isTransient none message := by
  obtain ⟨code, hcode, hmem⟩ := (Option.any_eq_true _ _).mp h
  rw [hcode]
  simp only [permanentCodes, List.mem_cons, List.not_mem_nil, or_false, decide_eq_true_eq] at hmem
  rcases hmem with rfl | rfl <;> rfl

/-- A permanent code decides the class only after every transient text was ruled out. -/
theorem classify_permanent (h : err.code.any (· ∈ permanentCodes)) :
    (classifyTxError err).retryable = err.diverted := by
  simp only [classifyTxError, isNonceDesync_permanent h, isTransient_permanent h]
  have hpermanent : isInsufficientFunds err.code (lowerChars err.message) = true ∨
      isReverted err.code (lowerChars err.message) = true := by
    obtain ⟨code, hcode, hmem⟩ := (Option.any_eq_true _ _).mp h
    simp only [permanentCodes, List.mem_cons, List.not_mem_nil, or_false, decide_eq_true_eq] at hmem
    rw [hcode]
    rcases hmem with rfl | rfl
    · exact .inl rfl
    · exact .inr rfl
  rw [TxError.diverted]
  split_ifs with hnonce htransient hunder hfunds hreverted
  · rw [hnonce, Bool.true_or, Bool.true_or]
  · rw [htransient, Bool.or_true, Bool.true_or]
  · rw [hunder, Bool.or_true]
  · simp only [hnonce, htransient, hunder, Bool.or_self]
  · simp only [hnonce, htransient, hunder, Bool.or_self]
  · exact (hpermanent.elim hfunds hreverted).elim

theorem resync_of_not_retryable (h : (classifyTxError err).retryable = false) :
    (classifyTxError err).resyncNonce = false := by
  revert h
  unfold classifyTxError
  simp only
  split_ifs <;> simp

theorem closing_fail (id : SettlementId) (v : JobVars) (reason : String) :
    (JobPc.fail v reason).Closing id := by
  intro cfg db node now localNonce inflight e out hout
  cases e <;> simp only [jobStep, reduceCtorEq] at hout
  case written outcome =>
    split_ifs at hout
    cases hout
    refine ⟨rfl, rfl, rfl, ?_⟩
    cases outcome
    · exact .inr ⟨_, rfl⟩
    · exact .inl rfl
    · exact .inr ⟨_, rfl⟩

theorem caught_of_not_retryable (cfg : RelayerConfig) (localNonce : ℕ) (inflight : Inflight)
    (h : (classifyTxError err).retryable = false) :
    (caught cfg v err localNonce inflight).localNonce = localNonce ∧
      (caught cfg v err localNonce inflight).pc = some (.fail v (classifyTxError err).reason) := by
  simp [caught, caughtAs, h]

theorem jobStep_throws {cfg : RelayerConfig} {db : Db} {node : Node} {now localNonce : ℕ}
    {inflight : Inflight} {pc : JobPc} {e : JobEvent} {out : JobOut} (hthrows : JobPc.Throws v err pc e)
    (hout : jobStep cfg db node now localNonce inflight id pc e = some out) :
    out.pc = (caught cfg v err localNonce inflight).pc ∧
      out.localNonce = (caught cfg v err localNonce inflight).localNonce := by
  cases hthrows <;> simp only [jobStep] at hout
  case refused =>
    cases hout
    exact ⟨rfl, rfl⟩
  all_goals
    split_ifs at hout
    cases hout
    exact ⟨rfl, rfl⟩

theorem failsAtOnce_iff_not_diverted (h : err.code.any (· ∈ permanentCodes)) :
    err.FailsAtOnce ↔ err.diverted = false := by
  rw [← classify_permanent h]
  refine ⟨fun hfails => hfails.not_retryable, fun hretry => ?_⟩
  refine ⟨hretry, resync_of_not_retryable hretry, ?_⟩
  intro cfg db node now localNonce inflight id v pc e out hthrows hout
  obtain ⟨hpc, hnonce⟩ := jobStep_throws hthrows hout
  have hcaught := @caught_of_not_retryable err v cfg localNonce inflight hretry
  exact ⟨hnonce.trans hcaught.1, _, hpc.trans hcaught.2, closing_fail id v _⟩

/-- A revert whose calldata happens to hold the digits 429. -/
def revertedTransfer : TxError :=
  { code := some "CALL_EXCEPTION"
    message := "execution reverted (action=\"sendTransaction\", data=\"0xa9059cbb429f\")" }

theorem plain_revert_failsAtOnce :
    TxError.FailsAtOnce { code := some "CALL_EXCEPTION", message := "execution reverted" } :=
  (failsAtOnce_iff_not_diverted (by decide)).mpr (by decide +kernel)

theorem reverted_transfer_retried :
    ¬∀ err : TxError, err.code.any (· ∈ permanentCodes) → err.FailsAtOnce := by
  intro h
  have hretry := (h revertedTransfer (by decide)).not_retryable
  have hdiverted : (classifyTxError revertedTransfer).retryable = true := by decide +kernel
  rw [hdiverted] at hretry
  cases hretry

end Rail
