import SettlementRail.Amounts.TextRoundTrip
import SettlementRail.Books.DoubleEntry
import SettlementRail.Books.LedgerStatus
import SettlementRail.Books.MatchedExactly
import SettlementRail.Books.OverCommitment
import SettlementRail.Books.ReconciliationIdentity
import SettlementRail.Escrow.DealLifecycle
import SettlementRail.Escrow.FundedOnce
import SettlementRail.Escrow.SharedAllowance
import SettlementRail.Escrow.Solvency
import SettlementRail.Finality.Convergence
import SettlementRail.Finality.ReplaySafe
import SettlementRail.Lifecycle.CompareAndSet
import SettlementRail.Lifecycle.StatusEdges
import SettlementRail.Lifecycle.StrandedInstructions
import SettlementRail.Model.DvpFundings
import SettlementRail.Model.Reconciliation
import SettlementRail.Nonces.NonceGaps
import SettlementRail.Nonces.SharedNonce
import SettlementRail.Outbox.AtLeastOnce
import SettlementRail.Outbox.AuditMirror
import SettlementRail.Outbox.Deduplicated
import SettlementRail.Outbox.Drain
import SettlementRail.Outbox.EventStream
import SettlementRail.Payments.Answers
import SettlementRail.Payments.BatchSettles
import SettlementRail.Payments.ExactlyOnce
import SettlementRail.Payments.FailedMeansUnpaid
import SettlementRail.Payments.OnlyScreened
import SettlementRail.Payments.PaidIsFound
import SettlementRail.Payments.TwinRequests
import SettlementRail.Payments.Verdicts
import SettlementRail.Sending.BroadcastLock
import SettlementRail.Sending.EntryDrops
import SettlementRail.Sending.GasBump
import SettlementRail.Sending.InflightTracking
import SettlementRail.Sending.NoLostWakeup
import SettlementRail.Sending.NoneUntracked
import SettlementRail.Sending.PermanentErrors
import SettlementRail.Sending.QueueDepth
import SettlementRail.Sending.RestartRecovery
import SettlementRail.Sending.RetryCap
import SettlementRail.Sending.Shutdown
import SettlementRail.System.ComesToRest
import SettlementRail.System.OrderBookRefinement
import SettlementRail.System.QuietPayout
import SettlementRail.System.Reconnects
