import SettlementRail.Model.RailSystem

/-! The step function read backwards: from an event and its two states to the call of the
thread that made the step. -/

namespace Rail

inductive StepsTo (cfg : Config) (σ : State) : Event → State → Prop
  | boot (hup : σ.up = false) : StepsTo cfg σ .boot { σ with up := true }
  | crash : StepsTo cfg σ .crash σ.crashed
  | drain : StepsTo cfg σ .drain { σ with relayer := { σ.relayer with draining := true } }
  | tick (ms : ℕ) : StepsTo cfg σ (.tick ms) { σ with now := σ.now + ms }
  | submit {dto : CreateSettlementDto} (hpos : 0 < dto.amount) :
      StepsTo cfg σ (.submit dto) { σ with creates := σ.creates ++ [{ dto }] }
  | create {i : ℕ} {e : CreateEvent} {call : CreateCall} {out : CreateOut}
      (hcall : σ.creates[i]? = some call)
      (hout : createStep cfg.compliance σ.db σ.now call e = some out) :
      StepsTo cfg σ (.create i e) (σ.afterCreate i call out)
  | job {id : SettlementId} {pc : JobPc} {e : JobEvent} {out : JobOut}
      (hworker : σ.relayer.worker = some (id, pc))
      (hout : jobStep cfg.relayer σ.db σ.node σ.now σ.relayer.localNonce σ.relayer.inflight id pc e
        = some out) : StepsTo cfg σ (.job e) (σ.afterJob id out)
  | startSweep (hidle : σ.relayer.sweep = none) :
      StepsTo cfg σ .startSweep { σ with relayer := { σ.relayer with sweep := some .find } }
  | sweep {pc : SweepPc} {e : SweepEvent} {out : SweepOut} (hsweep : σ.relayer.sweep = some pc)
      (hout : sweepStep cfg.relayer σ.db σ.node σ.now σ.relayer.inflight pc e = some out) :
      StepsTo cfg σ (.sweep e) (σ.afterSweep out)
  | recover {e : RecoveryEvent} {out : RecoveryOut}
      (hout : recoveryStep σ.db σ.node σ.now σ.relayer.localNonce σ.relayer.inflight
        σ.relayer.recovery e = some out) : StepsTo cfg σ (.recover e) (σ.afterRecovery out)
  | startPoll (hidle : σ.isPolling = false) : StepsTo cfg σ .startPoll
      { σ with listeners := σ.listeners ++ [{ isPoll := true, pc := .pollFind }] }
  | transferEvent (txHash : TxHash) : StepsTo cfg σ (.transferEvent txHash)
      { σ with listeners := σ.listeners ++ [{ isPoll := false, pc := .eventFind txHash }] }
  | listen {i : ℕ} {e : ListenEvent} {call : ListenCall} {out : ListenOut}
      (hcall : σ.listeners[i]? = some call)
      (hout : listenStep cfg.listener σ.db σ.node σ.now call.pc e = some out) :
      StepsTo cfg σ (.listen i e) (σ.afterListen i call out)
  | dvpCall (request : DvpRequest) :
      StepsTo cfg σ (.dvpCall request) { σ with dvps := σ.dvps ++ [dvpStart request] }
  | dvp {i : ℕ} {pc : DvpPc} {e : DvpEvent} {out : DvpOut} (hdvp : σ.dvps[i]? = some pc)
      (hout : dvpStep σ.node i pc e = some out) : StepsTo cfg σ (.dvp i e) (σ.afterDvp i out)
  | dropTx (tx : Tx) : StepsTo cfg σ (.dropTx tx) { σ with node := σ.node.dropTx tx }
  | newHead {drop : ℕ} {blocks : List Block}
      (hpossible : σ.node.headPossible drop blocks = true) :
      StepsTo cfg σ (.newHead drop blocks) { σ with node := σ.node.withHead drop blocks }

theorem stepsTo {cfg : Config} {σ σ' : State} {ev : Event} (h : step cfg σ ev = some σ') :
    StepsTo cfg σ ev σ' := by
  cases ev <;> simp only [step] at h
  case create i e =>
    obtain ⟨call, hcall, h⟩ := Option.bind_eq_some_iff.mp h
    obtain ⟨out, hout, rfl⟩ := Option.map_eq_some_iff.mp h
    exact .create hcall hout
  case job e =>
    obtain ⟨⟨id, pc⟩, hw, h⟩ := Option.bind_eq_some_iff.mp h
    obtain ⟨out, hout, rfl⟩ := Option.map_eq_some_iff.mp h
    exact .job hw hout
  case sweep e =>
    obtain ⟨pc, hpc, h⟩ := Option.bind_eq_some_iff.mp h
    obtain ⟨out, hout, rfl⟩ := Option.map_eq_some_iff.mp h
    exact .sweep hpc hout
  case recover e =>
    split_ifs at h
    obtain ⟨out, hout, rfl⟩ := Option.map_eq_some_iff.mp h
    exact .recover hout
  case listen i e =>
    obtain ⟨call, hcall, h⟩ := Option.bind_eq_some_iff.mp h
    obtain ⟨out, hout, rfl⟩ := Option.map_eq_some_iff.mp h
    exact .listen hcall hout
  case dvp i e =>
    obtain ⟨pc, hpc, h⟩ := Option.bind_eq_some_iff.mp h
    obtain ⟨out, hout, rfl⟩ := Option.map_eq_some_iff.mp h
    exact .dvp hpc hout
  case boot =>
    split_ifs at h with hup
    cases h
    exact .boot (by simpa using hup)
  case submit dto =>
    split_ifs at h with hpos
    cases h
    rw [Bool.and_eq_true, decide_eq_true_eq] at hpos
    exact .submit hpos.2
  case startSweep =>
    split_ifs at h with hidle
    cases h
    simp only [Bool.and_eq_true, Option.isNone_iff_eq_none] at hidle
    exact .startSweep hidle.2
  case startPoll =>
    split_ifs at h with hidle
    cases h
    simp only [Bool.and_eq_true, Bool.not_eq_true'] at hidle
    exact .startPoll hidle.2
  case newHead =>
    split_ifs at h with hpossible
    cases h
    exact .newHead hpossible
  case crash => split_ifs at h; cases h; exact .crash
  case drain => split_ifs at h; cases h; exact .drain
  case tick ms => cases h; exact .tick ms
  case transferEvent txHash => split_ifs at h; cases h; exact .transferEvent txHash
  case dvpCall request => split_ifs at h; cases h; exact .dvpCall request
  case dropTx tx => cases h; exact .dropTx tx

def genesisRow (operator : Address) (opening : ℕ) : Settlement :=
  { id := 0, instructionId := Db.genesisInstructionId, toAddress := operator, amount := opening
    status := .final, updatedAt := 0 }

theorem rows_initial (cfg : Config) (base opening : ℕ) :
    (initial cfg base opening).db.settlements.rows = [genesisRow cfg.operator opening] := rfl

theorem ledgerEntries_initial (cfg : Config) (base opening : ℕ) :
    (initial cfg base opening).db.ledgerEntries.rows =
      [{ settlementId := 0, account := .genesis, direction := .credit, amount := opening }] := rfl

theorem statusTransitions_initial (cfg : Config) (base opening : ℕ) :
    (initial cfg base opening).db.statusTransitions = [] := rfl

theorem findById_initial {cfg : Config} {base opening : ℕ} {id : SettlementId} {s : Settlement}
    (h : (initial cfg base opening).db.findById id = some s) :
    s = genesisRow cfg.operator opening ∧ id = 0 := by
  have hmem := Foundation.Table.mem_of_find? h
  rw [rows_initial, List.mem_singleton] at hmem
  exact ⟨hmem, (Foundation.Table.key_of_find? h).symm.trans (by rw [hmem]; rfl)⟩

end Rail
