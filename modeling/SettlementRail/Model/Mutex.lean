import Mathlib.Data.Nat.Notation
import SettlementRail.Foundation.Promises
import SettlementRail.Foundation.Runs

/-! `Mutex.runExclusive`, the lock around every broadcast, on the promises it chains. The
functions it runs are the environment: they return or throw, and the promises they return settle
when they like. -/

namespace Rail.Mutex
open Foundation.Promises

/-- `tail n` is the tail of the chain after `n` calls, `run i` what call `i` returned, and `fn i`
the promise that its function returns. -/
inductive PromiseName
  | tail (n : ℕ)
  | run (i : ℕ)
  | fn (i : ℕ)
deriving DecidableEq, Repr

/-- The two handlers of `runExclusive`: call the function, and forget how it ended. -/
inductive Handler
  | fn (i : ℕ)
  | forget
deriving DecidableEq, Repr

/-- A function starts when it is called; it settles when it throws or its promise settles. -/
inductive Moment (V : Type)
  | started (i : ℕ)
  | settled (i : ℕ) (outcome : Outcome V)
deriving DecidableEq, Repr

/-- `calls` counts the calls so far. `executing` is the function on the stack, and `returned`
lists those that left it with a promise. -/
structure State (V : Type) where
  heap : Heap PromiseName V Handler
  tail : PromiseName
  calls : ℕ := 0
  executing : Option ℕ := none
  returned : List ℕ := []
  history : List (Moment V) := []

inductive Event (V : Type)
  | runExclusive
  | microtask
  | returns
  | throws (e : V)
  | settles (i : ℕ) (outcome : Outcome V)
deriving DecidableEq, Repr

variable {V : Type} [Inhabited V]

/-- `Promise.resolve()`, and what `() => undefined` settles with. -/
def undefined : Outcome V := .fulfilled default

def initial : State V :=
  { heap := { cells := Function.update (fun _ => {}) (.tail 0) { outcome := some undefined } }
    tail := .tail 0 }

/-- A call may come at any time, also from a function that is running. -/
def runExclusive (σ : State V) : State V :=
  { σ with
    heap := (σ.heap.onSettled σ.tail (.run σ.calls) (.fn σ.calls)).onSettled (.run σ.calls)
      (.tail (σ.calls + 1)) .forget
    tail := .tail (σ.calls + 1)
    calls := σ.calls + 1 }

def perform (σ : State V) : Job PromiseName V Handler → State V
  | .handle (.fn i) _ _ => { σ with executing := some i, history := σ.history ++ [.started i] }
  | .handle .forget derived _ => { σ with heap := σ.heap.settle derived undefined }
  | .forward derived o => { σ with heap := σ.heap.settle derived o }
  | .adopt derived p => { σ with heap := σ.heap.react p (.forward derived) }

/-- The microtask queue only moves on when the stack is empty. -/
def step (σ : State V) : Event V → Option (State V)
  | .runExclusive => some (runExclusive σ)
  | .microtask =>
    if σ.executing.isSome then none
    else
      match σ.heap.jobs with
      | [] => none
      | job :: jobs => some (perform { σ with heap := { σ.heap with jobs } } job)
  | .returns =>
    σ.executing.map fun i =>
      { σ with
        heap := σ.heap.follow (.run i) (.fn i), executing := none, returned := σ.returned ++ [i] }
  | .throws e =>
    σ.executing.map fun i =>
      { σ with
        heap := σ.heap.settle (.run i) (.rejected e), executing := none
        history := σ.history ++ [.settled i (.rejected e)] }
  | .settles i outcome =>
    if i ∈ σ.returned ∧ (σ.heap.cells (.fn i)).outcome = none then
      some { σ with
        heap := σ.heap.settle (.fn i) outcome
        history := σ.history ++ [.settled i outcome] }
    else none

end Rail.Mutex
