import Mathlib.Algebra.Order.Ring.Nat
import SettlementRail.Foundation.Runs

/-! The WSS connection of `ChainService`, and the subscription that `ChainListenerService` keeps
on it. A socket closes once, for whatever reason. -/

namespace Rail.Wss
open Foundation

inductive SocketStatus
  | connecting | opened | closed
deriving DecidableEq, Repr

/-- `subscribed` tells whether the Transfer listener is attached to the contract of the socket. -/
structure Socket where
  status : SocketStatus := .connecting
  subscribed : Bool := false
deriving DecidableEq, Repr

/-- The await that the function started by a reconnect timer stands at. -/
inductive ReconnectPc
  | closeWss
  | pollConfirmations
  | done
deriving DecidableEq, Repr

/-- The newest socket comes first; `wssProvider` and `usdcEvents` belong to it. `registered` is
set once the listener has handed in its handler. `delays` is the history of the timers set since
a socket last opened. -/
structure State where
  sockets : List Socket := []
  registered : Bool := false
  shuttingDown : Bool := false
  reconnectAttempts : ℕ := 0
  timers : ℕ := 0
  reconnects : List ReconnectPc := []
  delays : List ℕ := []
deriving DecidableEq, Repr

inductive Event
  | moduleInit
  | bootstrap
  | opens (i : ℕ)
  | closes (i : ℕ)
  | timer
  | torn (i : ℕ)
  | polled (i : ℕ)
  | moduleDestroy
deriving DecidableEq, Repr

def reconnectDelay (reconnectAttempts : ℕ) : ℕ := min (1000 * 2 ^ (reconnectAttempts - 1)) 30000

namespace State

def subscribeTransfers (σ : State) : State :=
  { σ with sockets := σ.sockets.modifyHead fun s => { s with subscribed := true } }

def closeWss (σ : State) : State :=
  { σ with sockets := σ.sockets.modifyHead fun s => { s with subscribed := false } }

def connectWss (σ : State) : State := { σ with sockets := {} :: σ.sockets }

def scheduleReconnect (σ : State) : State :=
  { σ with
    reconnectAttempts := σ.reconnectAttempts + 1
    timers := σ.timers + 1
    delays := σ.delays ++ [reconnectDelay (σ.reconnectAttempts + 1)] }

end State

def step (σ : State) : Event → Option State
  | .moduleInit => if σ.sockets = [] then some σ.connectWss else none
  | .bootstrap =>
    if σ.sockets ≠ [] ∧ σ.registered = false then
      some { σ.subscribeTransfers with registered := true }
    else none
  | .opens i =>
    match σ.sockets[i]? with
    | some s =>
      if s.status = .connecting then
        some { σ with
          sockets := σ.sockets.set i { s with status := .opened }
          reconnectAttempts := 0, delays := [] }
      else none
    | none => none
  | .closes i =>
    match σ.sockets[i]? with
    | some s =>
      if s.status = .closed then none
      else
        let closed := { σ with sockets := σ.sockets.set i { s with status := .closed } }
        some (if σ.shuttingDown then closed else closed.scheduleReconnect)
    | none => none
  | .timer =>
    match σ.timers with
    | 0 => none
    | timers + 1 =>
      let fired := { σ with timers }
      some (if σ.shuttingDown then fired
        else { fired.closeWss with reconnects := σ.reconnects ++ [.closeWss] })
  | .torn i =>
    if σ.reconnects[i]? = some .closeWss then
      let connected := σ.connectWss
      -- the handler of the listener runs to its first await at once
      some (if σ.registered then
          { connected.subscribeTransfers with reconnects := σ.reconnects.set i .pollConfirmations }
        else { connected with reconnects := σ.reconnects.set i .done })
    else none
  | .polled i =>
    if σ.reconnects[i]? = some .pollConfirmations then
      some { σ with reconnects := σ.reconnects.set i .done }
    else none
  | .moduleDestroy => some { σ.closeWss with shuttingDown := true }

end Rail.Wss
