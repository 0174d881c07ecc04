import SettlementRail.Model.RailSystem
import SettlementRail.System.RowEvolution

/-! The sweep: how it moves from program point to program point, and the rows it still has
before it. -/

namespace Rail

def SweepPc.rows : SweepPc → List Settlement
  | .find => []
  | .receipt s rest | .feesFromTx s rest | .buildFees s rest | .estimateGas s rest _
  | .broadcast s rest _ _ | .recordResend s rest _ | .fail s rest _ _ => s :: rest

def SweepPc.rowsOf (pc : Option SweepPc) : List Settlement := pc.elim [] SweepPc.rows

def SweepPc.inTry : SweepPc → Bool
  | .broadcast .. | .recordResend .. => true
  | _ => false

def SweepPc.inHand : SweepPc → Option (SettlementId × ℕ)
  | .recordResend s _ _ => some (s.id, s.retryCount + 1)
  | .fail s _ _ retryCount => some (s.id, retryCount)
  | _ => none

def SweepPc.bumping : SweepPc → Option Settlement
  | .feesFromTx s _ | .buildFees s _ | .estimateGas s _ _ | .broadcast s _ _ _
  | .recordResend s _ _ => some s
  | _ => none

def SweepEvent.error : SweepEvent → Option TxError
  | .sent (.accepted reply) => reply
  | .sent (.refused e) | .written (.lost e) | .written (.ambiguous e) => some e
  | _ => none

def TxError.givesUp (e : TxError) : Bool :=
  !(classifyTxError e).resyncNonce && !(classifyTxError e).retryable

inductive SweepGoes (cfg : RelayerConfig) (db : Db) (node : Node) (now : ℕ) (inflight : Inflight) :
    SweepPc → SweepEvent → Option SweepPc → Prop
  | found : SweepGoes cfg db node now inflight .find .found (sweepNext (db.findByStatuses [.submitted]))
  | skip (s : Settlement) (rest : List Settlement) :
      SweepGoes cfg db node now inflight (.receipt s rest) .receipt (sweepNext rest)
  | giveUp {s : Settlement} {rest : List Settlement} (hcap : cfg.maxRetries ≤ s.retryCount) :
      SweepGoes cfg db node now inflight (.receipt s rest) .receipt
        (some (.fail s rest "STUCK_MAX_RETRIES" s.retryCount))
  | bump {s : Settlement} {rest : List Settlement} {info : InflightTx}
      (hcap : s.retryCount < cfg.maxRetries) (hinfo : inflight.get s.id = some info)
      (hunmined : (s.txHash.bind node.getTransactionReceipt).isNone)
      (hstuck : isStuck cfg now s (some info)) :
      SweepGoes cfg db node now inflight (.receipt s rest) .receipt
        (some (.broadcast s rest (bumpFees info.fees) info.gasLimit))
  | lookup {s : Settlement} {rest : List Settlement} (hcap : s.retryCount < cfg.maxRetries)
      (hinfo : inflight.get s.id = none) :
      SweepGoes cfg db node now inflight (.receipt s rest) .receipt (some (.feesFromTx s rest))
  | feesFound {s : Settlement} {rest : List Settlement} {fees : Fees}
      (hfees : feesFromTx (s.txHash.bind node.getTransaction) = some fees) :
      SweepGoes cfg db node now inflight (.feesFromTx s rest) .txLookup
        (some (.estimateGas s rest (bumpFees fees)))
  | feesMissing {s : Settlement} {rest : List Settlement}
      (hfees : feesFromTx (s.txHash.bind node.getTransaction) = none) :
      SweepGoes cfg db node now inflight (.feesFromTx s rest) .txLookup (some (.buildFees s rest))
  | feeData (s : Settlement) (rest : List Settlement) (fd : FeeData) :
      SweepGoes cfg db node now inflight (.buildFees s rest) (.feeData fd)
        (some (.estimateGas s rest (bumpFees (buildFees fd))))
  | estimated (s : Settlement) (rest : List Settlement) (fees : Fees) (est : Option ℕ) :
      SweepGoes cfg db node now inflight (.estimateGas s rest fees) (.estimated est)
        (some (.broadcast s rest fees (gasWithHeadroom est)))
  | sent {s : Settlement} {rest : List Settlement} {fees : Fees} {gasLimit baseUnits : ℕ}
      (hunits : toBaseUnits s.amount = some baseUnits) :
      SweepGoes cfg db node now inflight (.broadcast s rest fees gasLimit) (.sent (.accepted none))
        (some (.recordResend s rest (resendTx s fees gasLimit baseUnits)))
  | recorded (s : Settlement) (rest : List Settlement) (tx : Tx) :
      SweepGoes cfg db node now inflight (.recordResend s rest tx) (.written .ok) (sweepNext rest)
  | leave {pc : SweepPc} {e : SweepEvent} {s : Settlement} {rest : List Settlement} {err : TxError}
      (hpc : pc.inTry = true) (hrows : pc.rows = s :: rest) (herr : e.error = some err)
      (hleft : err.givesUp = false) : SweepGoes cfg db node now inflight pc e (sweepNext rest)
  | reject {pc : SweepPc} {e : SweepEvent} {s : Settlement} {rest : List Settlement} {err : TxError}
      {reason : String} (hpc : pc.inTry = true) (hrows : pc.rows = s :: rest)
      (herr : e.error = some err) (hfails : err.givesUp = true) :
      SweepGoes cfg db node now inflight pc e (some (.fail s rest reason (s.retryCount + 1)))
  | failed (s : Settlement) (rest : List Settlement) (reason : String) (retryCount : ℕ)
      (o : DbOutcome TxError) :
      SweepGoes cfg db node now inflight (.fail s rest reason retryCount) (.written o)
        (afterFail rest o)
  | stop {pc : SweepPc} {e : SweepEvent} (hpc : pc.inTry = false) (hhand : pc.inHand = none)
      (he : e = .callError ∨ ∃ est, e = .estimated est) : SweepGoes cfg db node now inflight pc e none

variable {cfg : RelayerConfig} {db : Db} {node : Node} {now : ℕ} {inflight : Inflight}
variable {pc : SweepPc} {e : SweepEvent} {out : SweepOut} {pc' : Option SweepPc}
variable {s t : Settlement} {l rest : List Settlement}

theorem resendCaught_goes {err : TxError} (hpc : pc.inTry = true) (hrows : pc.rows = s :: rest)
    (herr : e.error = some err) :
    SweepGoes cfg db node now inflight pc e (resendCaught s rest err inflight).pc := by
  unfold resendCaught resendCaughtAs
  split_ifs with hresync hretry
  · exact .leave hpc hrows herr (by rw [TxError.givesUp, hresync]; rfl)
  · refine .reject hpc hrows herr ?_
    rw [TxError.givesUp, Bool.eq_false_of_not_eq_true hresync, hretry]
    rfl
  · refine .leave hpc hrows herr ?_
    rw [TxError.givesUp, Bool.eq_false_of_not_eq_true hretry, Bool.and_false]

theorem sweepStuck_goes (hunmined : (s.txHash.bind node.getTransactionReceipt).isNone)
    (hstuck : isStuck cfg now s (inflight.get s.id)) :
    SweepGoes cfg db node now inflight (.receipt s rest) .receipt
      (sweepStuck cfg s rest (inflight.get s.id) inflight).pc := by
  unfold sweepStuck
  split_ifs with hcap
  · exact .giveUp hcap
  · rcases hinfo : inflight.get s.id with _ | info
    · exact .lookup (not_le.mp hcap) hinfo
    · exact .bump (not_le.mp hcap) hinfo hunmined (hinfo ▸ hstuck)

theorem sweepStep_goes (hout : sweepStep cfg db node now inflight pc e = some out) :
    SweepGoes cfg db node now inflight pc e out.pc := by
  cases pc <;> cases e <;> simp only [sweepStep, reduceCtorEq] at hout
  case find.found => cases hout; exact .found
  case receipt.receipt s rest =>
    split_ifs at hout with hmined hstuck <;> cases hout
    · exact .skip s rest
    · exact sweepStuck_goes (Option.isNone_iff_eq_none.mpr (Option.not_isSome_iff_eq_none.mp hmined))
        hstuck
    · exact .skip s rest
  case feesFromTx.txLookup s rest =>
    split at hout <;> cases hout
    · exact .feesFound ‹_›
    · exact .feesMissing ‹_›
  case buildFees.feeData s rest fd => cases hout; exact .feeData s rest fd
  case estimateGas.estimated s rest fees est =>
    cases hout
    rcases toBaseUnits s.amount with _ | units
    · exact .stop rfl rfl (.inr ⟨est, rfl⟩)
    · exact .estimated s rest fees est
  case broadcast.sent s rest fees gasLimit outcome =>
    rcases outcome with (_ | err) | err <;> simp only at hout
    · split at hout
      · cases hout
      · split_ifs at hout
        cases hout
        exact .sent ‹_›
    · split at hout
      · cases hout
      · split_ifs at hout
        cases hout
        exact resendCaught_goes rfl rfl rfl
    · cases hout
      exact resendCaught_goes rfl rfl rfl
  case recordResend.written s rest tx outcome =>
    split_ifs at hout
    cases outcome <;> cases hout
    · exact .recorded s rest tx
    · exact resendCaught_goes rfl rfl rfl
    · exact resendCaught_goes rfl rfl rfl
  case fail.written s rest reason retryCount outcome =>
    split_ifs at hout
    cases hout
    exact .failed s rest reason retryCount outcome
  all_goals cases hout; exact .stop rfl rfl (.inl rfl)

theorem sweepNext_sublist (l : List Settlement) :
    List.Sublist (SweepPc.rowsOf (sweepNext l)) l := by
  induction l with
  | nil => exact List.Sublist.refl _
  | cons s rest ih =>
    unfold sweepNext
    split_ifs
    · exact List.Sublist.refl _
    · exact ih.cons s

theorem sweepNext_cases (l : List Settlement) :
    sweepNext l = none ∨ ∃ s rest, sweepNext l = some (.receipt s rest) := by
  induction l with
  | nil => exact .inl rfl
  | cons s rest ih =>
    unfold sweepNext
    split_ifs
    · exact .inr ⟨s, rest, rfl⟩
    · exact ih

theorem afterFail_cases (rest : List Settlement) (o : DbOutcome TxError) :
    afterFail rest o = none ∨ afterFail rest o = sweepNext rest := by
  cases o with
  | ok => exact .inr rfl
  | lost | ambiguous => exact .inl rfl

theorem SweepGoes.sublist (h : SweepGoes cfg db node now inflight pc e pc') :
    List.Sublist (SweepPc.rowsOf pc') pc.rows ∨
      (pc = .find ∧ List.Sublist (SweepPc.rowsOf pc') (db.findByStatuses [.submitted])) := by
  cases h with
  | found => exact .inr ⟨rfl, sweepNext_sublist _⟩
  | skip s rest | recorded s rest => exact .inl ((sweepNext_sublist rest).cons s)
  | leave _ hrows => exact .inl (hrows ▸ (sweepNext_sublist _).cons _)
  | reject _ hrows => exact .inl (hrows ▸ List.Sublist.refl _)
  | failed s rest reason retryCount o =>
    left
    rcases afterFail_cases rest o with heq | heq <;> rw [heq]
    · exact List.nil_sublist _
    · exact (sweepNext_sublist rest).cons s
  | stop => exact .inl (List.nil_sublist _)
  | _ => exact .inl (List.Sublist.refl _)

theorem sweepNext_ne_find (l : List Settlement) : sweepNext l ≠ some .find := by
  rcases sweepNext_cases l with heq | ⟨s, rest, heq⟩ <;> simp [heq]

theorem SweepGoes.ne_find (h : SweepGoes cfg db node now inflight pc e pc') : pc' ≠ some .find := by
  cases h with
  | found | skip | recorded | leave => exact sweepNext_ne_find _
  | failed s rest reason retryCount o =>
    rcases afterFail_cases rest o with heq | heq <;> rw [heq]
    · simp
    · exact sweepNext_ne_find rest
  | _ => simp

theorem Db.ids_nodup_findByStatuses (db : Db) (statuses : List SettlementStatus) :
    ((db.findByStatuses statuses).map Settlement.id).Nodup :=
  db.settlements.keys_nodup.sublist (List.filter_sublist.map _)

end Rail
