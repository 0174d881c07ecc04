import Mathlib.Algebra.BigOperators.Group.Finset.Basic
import Mathlib.Algebra.Order.Group.Int
import Mathlib.Logic.Relation

/-! An order book: orders come in under names that are never reused, and each is paid at most
once, out of one fund. -/

namespace Foundation

universe u v
variable {ι : Type u} {δ : Type v} [DecidableEq ι]

@[ext] structure OrderBook (ι : Type u) (δ : Type v) where
  orders : ι → Option δ
  paid : Finset ι
  funds : ℤ

namespace OrderBook

variable {worth : δ → ℤ} {b b' : OrderBook ι δ} {i : ι} {d : δ} {opening : ℤ}

def register (b : OrderBook ι δ) (i : ι) (d : δ) : OrderBook ι δ :=
  { b with orders := Function.update b.orders i (some d) }

def pay (worth : δ → ℤ) (b : OrderBook ι δ) (i : ι) (d : δ) : OrderBook ι δ :=
  { b with paid := insert i b.paid, funds := b.funds - worth d }

@[simp] theorem register_orders : (b.register i d).orders = Function.update b.orders i (some d) := rfl

@[simp] theorem register_paid : (b.register i d).paid = b.paid := rfl

@[simp] theorem register_funds : (b.register i d).funds = b.funds := rfl

@[simp] theorem pay_orders : (b.pay worth i d).orders = b.orders := rfl

@[simp] theorem pay_paid : (b.pay worth i d).paid = insert i b.paid := rfl

@[simp] theorem pay_funds : (b.pay worth i d).funds = b.funds - worth d := rfl

inductive Step (worth : δ → ℤ) (b : OrderBook ι δ) : OrderBook ι δ → Prop
  | register {i : ι} {d : δ} (hnew : b.orders i = none) : Step worth b (b.register i d)
  | pay {i : ι} {d : δ} (horder : b.orders i = some d) (hunpaid : i ∉ b.paid) :
      Step worth b (b.pay worth i d)

theorem Step.orders_kept (h : Step worth b b') (hd : b.orders i = some d) :
    b'.orders i = some d := by
  cases h with
  | @register j _ hnew =>
    have hne : i ≠ j := by
      rintro rfl
      rw [hnew] at hd
      cases hd
    rw [register_orders, Function.update_of_ne hne, hd]
  | pay => exact hd

theorem Step.paid_kept (h : Step worth b b') (hi : i ∈ b.paid) : i ∈ b'.paid := by
  cases h with
  | register => exact hi
  | pay => exact Finset.mem_insert_of_mem hi

theorem kept_of_run (h : Relation.ReflTransGen (Step worth) b b') :
    (∀ i d, b.orders i = some d → b'.orders i = some d) ∧ b.paid ⊆ b'.paid := by
  induction h with
  | refl => exact ⟨fun _ _ hd => hd, Finset.Subset.refl _⟩
  | tail _ hstep ih =>
    exact ⟨fun i d hd => hstep.orders_kept (ih.1 i d hd), fun i hi => hstep.paid_kept (ih.2 hi)⟩

def cost (worth : δ → ℤ) (b : OrderBook ι δ) (i : ι) : ℤ := (b.orders i).elim 0 worth

/-- Only orders are paid, and the fund is short of the opening by what they are worth. -/
structure Accounted (worth : δ → ℤ) (opening : ℤ) (b : OrderBook ι δ) : Prop where
  ordered : ∀ i ∈ b.paid, (b.orders i).isSome
  funds : b.funds = opening - ∑ i ∈ b.paid, b.cost worth i

theorem Accounted.step (h : Accounted worth opening b) (hstep : Step worth b b') :
    Accounted worth opening b' := by
  have hsome : ∀ i ∈ b.paid, (b'.orders i).isSome := by
    intro i hi
    obtain ⟨d, hd⟩ := Option.isSome_iff_exists.mp (h.ordered i hi)
    rw [hstep.orders_kept hd]
    rfl
  have hcost : ∑ i ∈ b.paid, b'.cost worth i = ∑ i ∈ b.paid, b.cost worth i := by
    refine Finset.sum_congr rfl fun i hi => ?_
    obtain ⟨d, hd⟩ := Option.isSome_iff_exists.mp (h.ordered i hi)
    rw [cost, cost, hstep.orders_kept hd, hd]
  cases hstep with
  | register =>
    refine ⟨hsome, ?_⟩
    rw [register_paid, hcost, register_funds]
    exact h.funds
  | @pay i d horder hunpaid =>
    refine ⟨fun j hj => ?_, ?_⟩
    · rcases Finset.mem_insert.mp hj with rfl | hj
      · rw [pay_orders, horder]
        rfl
      · exact hsome j hj
    · have hi : (b.pay worth i d).cost worth i = worth d := by
        rw [cost, pay_orders, horder]
        rfl
      rw [pay_paid, Finset.sum_insert hunpaid, hcost, hi, pay_funds, h.funds]
      omega

end OrderBook
end Foundation
