import SettlementRail.Model.RailSystem

/-! Event sequences of undisturbed activity, from which particular runs are put together. -/

namespace Rail
open Foundation

/-- Every address passes screening; one block confirms and five make final. -/
def plainConfig (maxRetries : ℕ) : Config where
  operator := "0xoperator"
  compliance := fun _ => { approved := true }
  relayer := { maxRetries, stuckTxSeconds := 60 }
  listener :=
    { confirmationsConfirmed := 1, confirmationsFinal := 5
      confirmed_pos := by decide, confirmed_le_final := by decide }

def bootEvents : List Event := [.boot, .recover .counted, .recover .found]

/-- The `i`-th call of this process creates settlement `id`, up to its being enqueued. -/
def submitEvents (i : ℕ) (id : SettlementId) (dto : CreateSettlementDto) : List Event :=
  [.submit dto, .create i .found, .create i .readOpening, .create i .readCredits,
    .create i .readDebits, .create i .readInFlight, .create i (.inserted id .ok),
    .create i .screened, .create i (.written .ok)]

def plainFees : FeeData := ⟨some 1000, some 100⟩

def prepareEvents : List Event := [.job .found, .job (.estimated none), .job (.feeData plainFees)]

def sendEvents : List Event :=
  prepareEvents ++ [.job (.sent (.accepted none)), .job (.written .ok)]

/-- A sweep that finds its only row stuck and gets a second transaction accepted and stored. -/
def stuckResend : List Event :=
  [.tick 60000, .startSweep, .sweep .found, .sweep .receipt, .sweep (.sent (.accepted none)),
    .sweep (.written .ok)]

/-- A poll by the `i`-th listener thread of this process that makes its only row FINAL. -/
def finalizeEvents (i : ℕ) : List Event :=
  [.startPoll, .listen i .found, .listen i .headRead, .listen i .receipt, .listen i (.written .ok),
    .listen i (.written .ok)]

def plainTransfer (nonce : ℕ) (dto : CreateSettlementDto) : Tx :=
  { nonce, gasLimit := fallbackGasLimit, fees := buildFees plainFees
    call := .transfer dto.toAddress dto.amount }

def mined (txs : List Tx) (n : ℕ) : List Block :=
  { hash := 0, entries := txs.map fun tx => ⟨tx, true, 21000, 1⟩ } ::
    (List.range n).map fun i => { hash := i + 1, entries := [] }

def timeout : TxError := { code := some "TIMEOUT", message := "request timeout" }

def alreadyKnown : TxError := { code := none, message := "already known" }

def payout : CreateSettlementDto :=
  { instructionId := "payout-1", toAddress := "0xpayee", amount := 5 }

/-- One payout from the request to FINAL, with seven transactions on the account before. -/
def settleEvents : List Event :=
  bootEvents ++ submitEvents 0 1 payout ++ sendEvents ++
    [.newHead 0 (mined [plainTransfer 7 payout] 4)] ++ finalizeEvents 0

theorem run_bootEvents (cfg : Config) (base opening : ℕ) :
    run (step cfg) (initial cfg base opening) bootEvents = some
      { initial cfg base opening with
        up := true
        relayer := { localNonce := base, recovery := .done } } := rfl

end Rail
