import Mathlib.Logic.Function.Basic

/-! Promises and their microtasks. Settling a promise queues one job for each reaction that waits
for it, in the order of registration; a reaction registered later is queued at once. -/

namespace Foundation.Promises

universe u v w
variable {κ : Type u} {V : Type v} {H : Type w}

inductive Outcome (V : Type v)
  | fulfilled (value : V)
  | rejected (error : V)
deriving DecidableEq, Repr

/-- `handle` calls a handler and settles `derived` with what comes of it; `forward` settles
`derived` with the outcome itself. -/
inductive Reaction (κ : Type u) (H : Type w)
  | handle (handler : H) (derived : κ)
  | forward (derived : κ)
deriving DecidableEq, Repr

/-- `adopt derived promise` makes `derived` follow a promise that its handler returned. -/
inductive Job (κ : Type u) (V : Type v) (H : Type w)
  | handle (handler : H) (derived : κ) (outcome : Outcome V)
  | forward (derived : κ) (outcome : Outcome V)
  | adopt (derived promise : κ)
deriving DecidableEq, Repr

/-- A promise that was not created yet looks like a pending one without reactions. -/
structure Cell (κ : Type u) (V : Type v) (H : Type w) where
  outcome : Option (Outcome V) := none
  reactions : List (Reaction κ H) := []
deriving DecidableEq, Repr

structure Heap (κ : Type u) (V : Type v) (H : Type w) where
  cells : κ → Cell κ V H := fun _ => {}
  jobs : List (Job κ V H) := []

def Reaction.job (outcome : Outcome V) : Reaction κ H → Job κ V H
  | handle handler derived => .handle handler derived outcome
  | forward derived => .forward derived outcome

namespace Heap
variable [DecidableEq κ]

def react (heap : Heap κ V H) (k : κ) (r : Reaction κ H) : Heap κ V H :=
  match (heap.cells k).outcome with
  | none =>
    { heap with
      cells := Function.update heap.cells k
        { outcome := none, reactions := (heap.cells k).reactions ++ [r] } }
  | some o => { heap with jobs := heap.jobs ++ [r.job o] }

def onSettled (heap : Heap κ V H) (source derived : κ) (handler : H) : Heap κ V H :=
  heap.react source (.handle handler derived)

/-- Only the first settlement counts. -/
def settle (heap : Heap κ V H) (k : κ) (o : Outcome V) : Heap κ V H :=
  match (heap.cells k).outcome with
  | some _ => heap
  | none =>
    { cells := Function.update heap.cells k { outcome := some o, reactions := [] }
      jobs := heap.jobs ++ (heap.cells k).reactions.map (Reaction.job o) }

/-- A handler returned the promise `p`: `derived` follows it one job later. -/
def follow (heap : Heap κ V H) (derived p : κ) : Heap κ V H :=
  { heap with jobs := heap.jobs ++ [.adopt derived p] }

variable {heap : Heap κ V H} {k : κ} {r : Reaction κ H} {o : Outcome V}

theorem settle_pending (h : (heap.cells k).outcome = none) :
    heap.settle k o =
      { cells := Function.update heap.cells k { outcome := some o, reactions := [] }
        jobs := heap.jobs ++ (heap.cells k).reactions.map (Reaction.job o) } := by
  rw [settle, h]

end Heap
end Foundation.Promises
