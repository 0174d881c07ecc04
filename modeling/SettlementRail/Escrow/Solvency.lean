import Mathlib.Algebra.BigOperators.Group.Finset.Basic
import Mathlib.Data.Fintype.Card
import SettlementRail.Escrow.EscrowSteps

/-! The escrow stays solvent under re-entrancy. In the middle of nested calls the books balance
once the token calls still awaited are counted: deposits on their way in, payouts on their way
out. -/

namespace Rail.Escrow
open Foundation

def Deal.locked (d : Deal) : ℕ := if d.state = .funded then d.amount else 0

def fundedTotal (deals : Deals) : ℕ := ∑ id with (deals id).state = .funded, (deals id).amount

def World.payoutsOf (w : World) (id : DealId) : List Payout :=
  w.payouts.filter fun p => p.dealId = id

def totalPaid (ps : List Payout) : ℕ := (ps.map Payout.amount).sum

def Deal.owed (d : Deal) (id : DealId) : List Payout :=
  match d.state with
  | .none | .funded => []
  | .released => [{ dealId := id, recipient := d.beneficiary, amount := d.amount }]
  | .refunded => [{ dealId := id, recipient := d.depositor, amount := d.amount }]

def TokenCall.pulled : TokenCall → ℕ
  | .transferFrom _ amount => amount
  | .transfer _ _ => 0

def Awaited.coming (a : Awaited) : ℕ := if a.moved then 0 else a.token.pulled

def Awaited.due (a : Awaited) : List Payout := if a.moved then [] else a.payout.toList

def coming (as : List Awaited) : ℕ := (as.map Awaited.coming).sum

def due (as : List Awaited) : List Payout := as.flatMap Awaited.due

structure Consistent (me : Account) (w : World) : Prop where
  foreign : ∀ a ∈ w.awaited, ∀ n, a.token ≠ .transferFrom me n
  solvent : fundedTotal w.deals + totalPaid (due w.awaited) ≤ w.balanceOf me + coming w.awaited
  settled : ∀ id, (due w.awaited ++ w.payouts).filter (fun p => p.dealId = id) =
    (w.deals id).owed id

/-- Each awaited token call belongs to an escrow call in progress. -/
def Balanced (cfg : EscrowConfig) (ks : List Context) (w : World) : Prop :=
  Consistent cfg.self w ∧ w.awaited.length = ks.count .escrow

variable {cfg : EscrowConfig} {σ σ' : Evm} {ev : EvmEvent} {deals : Deals} {w : World}
variable {sender self : Account} {now : ℕ} {op : EscrowCall} {token : TokenCall} {d d' : Deal}
variable {a : Awaited} {rest : List Awaited} {balanceOf balanceOf' : Account → ℕ} {id : DealId}

theorem sum_update {ι α : Type*} [Fintype ι] [DecidableEq ι] (f : ι → α) (i : ι) (b : α)
    (g : α → ℕ) : ∑ k, g (Function.update f i b k) + g (f i) = ∑ k, g (f k) + g b := by
  have hrest : ∑ k ∈ Finset.univ.erase i, g (Function.update f i b k) =
      ∑ k ∈ Finset.univ.erase i, g (f k) :=
    Finset.sum_congr rfl fun k hk => by rw [Function.update_of_ne (Finset.ne_of_mem_erase hk)]
  rw [← Finset.add_sum_erase _ (fun k => g (Function.update f i b k)) (Finset.mem_univ i),
    ← Finset.add_sum_erase _ (fun k => g (f k)) (Finset.mem_univ i), hrest, Function.update_self]
  omega

theorem fundedTotal_update (d' : Deal) :
    fundedTotal (Function.update deals id d') + (deals id).locked =
      fundedTotal deals + d'.locked := by
  simp only [fundedTotal, Finset.sum_filter]
  exact sum_update deals id d' Deal.locked

theorem coming_cons : coming (a :: rest) = a.coming + coming rest := by
  rw [coming, List.map_cons, List.sum_cons, coming]

theorem due_cons : due (a :: rest) = a.due ++ due rest := by rw [due, List.flatMap_cons, due]

theorem totalPaid_append (ps qs : List Payout) :
    totalPaid (ps ++ qs) = totalPaid ps + totalPaid qs := by
  rw [totalPaid, List.map_append, List.sum_append, totalPaid, totalPaid]

theorem coming_of_moved (h : a.moved = true) : a.coming = 0 := if_pos h

theorem due_of_moved (h : a.moved = true) : a.due = [] := if_pos h

theorem coming_of_waiting (h : a.moved = false) : a.coming = a.token.pulled :=
  if_neg (Bool.not_eq_true _ ▸ h)

theorem due_of_waiting (h : a.moved = false) : a.due = a.payout.toList :=
  if_neg (Bool.not_eq_true _ ▸ h)

theorem Admits.locked (h : Admits cfg d sender now op d' token) :
    d'.locked + totalPaid (Awaited.mk sender op token false).due =
      d.locked + (Awaited.mk sender op token false).coming := by
  cases h with
  | fund hnew _ _ => simp [Deal.locked, hnew, Awaited.due, Awaited.payout, totalPaid,
      Awaited.coming, TokenCall.pulled]
  | release _ hfunded _ | refund hfunded _ | cancel _ hfunded =>
    simp [Deal.locked, hfunded, Awaited.due, Awaited.payout, totalPaid, Awaited.coming,
      TokenCall.pulled]

theorem Admits.owed (h : Admits cfg d sender now op d' token) :
    d.owed op.dealId = [] ∧ d'.owed op.dealId = (Awaited.mk sender op token false).due := by
  cases h with
  | fund hnew _ _ => exact ⟨by rw [Deal.owed, hnew], rfl⟩
  | release _ hfunded _ | refund hfunded _ | cancel _ hfunded =>
    exact ⟨by rw [Deal.owed, hfunded], rfl⟩

theorem Admits.foreign (h : Admits cfg d sender now op d' token) (hsender : sender ≠ self)
    (n : ℕ) : token ≠ .transferFrom self n := by
  cases h with
  | fund => exact fun heq => hsender (TokenCall.transferFrom.inj heq).1
  | release | refund | cancel => nofun

theorem mem_due_dealId {p : Payout} (h : p ∈ a.due) : p.dealId = a.call.dealId := by
  unfold Awaited.due at h
  split_ifs at h with hmoved
  · cases h
  · rw [Option.mem_toList, Awaited.payout] at h
    split at h
    · cases h
    · exact Option.some.inj h ▸ rfl

theorem Consistent.called (h : Consistent self w) (hsender : sender ≠ self)
    (hadmits : Admits cfg (w.deals op.dealId) sender now op d' token) :
    Consistent self (w.called sender op d' token) := by
  have hlocked := hadmits.locked
  obtain ⟨hnothing, howed⟩ := hadmits.owed
  refine ⟨?_, ?_, fun id => ?_⟩
  · intro a ha
    rcases List.mem_cons.mp ha with rfl | ha
    · exact hadmits.foreign hsender
    · exact h.foreign a ha
  · have htotal := @fundedTotal_update w.deals op.dealId d'
    have hsolvent := h.solvent
    simp only [World.called, due_cons, coming_cons, totalPaid_append]
    omega
  · have hold := h.settled id
    simp only [World.called, due_cons, List.append_assoc, List.filter_append] at hold ⊢
    rw [hold]
    by_cases hid : id = op.dealId
    · subst hid
      rw [Function.update_self, hnothing, howed, List.append_nil, List.filter_eq_self]
      exact fun p hp => decide_eq_true (mem_due_dealId hp)
    · rw [Function.update_of_ne hid, List.filter_eq_nil_iff.mpr, List.nil_append]
      intro p hp heq
      exact hid ((of_decide_eq_true heq).symm.trans (mem_due_dealId hp))

theorem moveBalance_spec {recipient : Account} {n : ℕ}
    (h : moveBalance balanceOf sender recipient n = some balanceOf') :
    n ≤ balanceOf sender ∧ balanceOf' = Function.update
      (Function.update balanceOf sender (balanceOf sender - n)) recipient
      (Function.update balanceOf sender (balanceOf sender - n) recipient + n) := by
  unfold moveBalance at h
  split_ifs at h with hshort
  exact ⟨not_lt.mp hshort, (Option.some.inj h).symm⟩

theorem move_self (hforeign : ∀ n, a.token ≠ .transferFrom self n) (hmoved : a.moved = false)
    (h : a.token.move self balanceOf = some balanceOf') :
    balanceOf self + a.coming ≤ balanceOf' self + totalPaid a.due := by
  rw [coming_of_waiting hmoved, due_of_waiting hmoved, Awaited.payout]
  rcases htoken : a.token with ⟨sender, n⟩ | ⟨recipient, n⟩
  · rw [htoken] at h
    obtain ⟨-, rfl⟩ := moveBalance_spec h
    have hself : self ≠ sender := fun heq => hforeign n (heq ▸ htoken)
    rw [Function.update_self, Function.update_of_ne hself]
    exact Nat.le_add_right _ _
  · rw [htoken] at h
    obtain ⟨hle, rfl⟩ := moveBalance_spec h
    simp only [TokenCall.pulled, Option.toList_some, totalPaid, List.map_cons, List.map_nil,
      List.sum_cons, List.sum_nil]
    by_cases hself : self = recipient
    · rw [← hself, Function.update_self, Function.update_self]
      omega
    · rw [Function.update_of_ne hself, Function.update_self]
      omega

theorem eq_of_perm_owed {ps : List Payout} (h : ps.Perm (d.owed id)) : ps = d.owed id := by
  unfold Deal.owed at h ⊢
  split at h
  · exact List.perm_nil.mp h
  · exact List.perm_nil.mp h
  · exact List.perm_singleton.mp h
  · exact List.perm_singleton.mp h

theorem Consistent.paid (h : Consistent self w) (hawaited : w.awaited = a :: rest)
    (hmoved : a.moved = false) (hmove : a.token.move self w.balanceOf = some balanceOf) :
    Consistent self (w.paid a rest balanceOf) := by
  have hforeign := h.foreign
  have hsolvent := h.solvent
  rw [hawaited] at hforeign hsolvent
  have hnow : ({ a with moved := true } : Awaited).due = [] := due_of_moved rfl
  have hcoming : ({ a with moved := true } : Awaited).coming = 0 := coming_of_moved rfl
  refine ⟨?_, ?_, fun id => ?_⟩
  · intro b hb
    rcases List.mem_cons.mp hb with rfl | hb
    · exact hforeign a List.mem_cons_self
    · exact hforeign b (List.mem_cons_of_mem _ hb)
  · have hself := move_self (hforeign a List.mem_cons_self) hmoved hmove
    simp only [World.paid, due_cons, coming_cons, totalPaid_append, hnow, hcoming] at hsolvent ⊢
    have hzero : totalPaid [] = 0 := rfl
    omega
  · have hold := h.settled id
    rw [hawaited, due_cons, due_of_waiting hmoved] at hold
    simp only [World.paid, due_cons, hnow, List.nil_append]
    refine eq_of_perm_owed ?_
    rw [← hold]
    refine List.Perm.filter _ ?_
    rw [List.append_assoc]
    exact List.perm_append_comm_assoc _ _ _

theorem Consistent.answered (h : Consistent self w) (hawaited : w.awaited = a :: rest)
    (hmoved : a.moved = true) : Consistent self (w.answered a rest) := by
  have hforeign := h.foreign
  have hsolvent := h.solvent
  have hsettled := h.settled
  rw [hawaited] at hforeign hsolvent hsettled
  rw [due_cons, due_of_moved hmoved, List.nil_append] at hsolvent hsettled
  rw [coming_cons, coming_of_moved hmoved, Nat.zero_add] at hsolvent
  exact ⟨fun b hb => hforeign b (List.mem_cons_of_mem _ hb), hsolvent, hsettled⟩

theorem holds_balanced_step (h : step cfg σ ev = some σ') (hI : σ.nest.Holds (Balanced cfg)) :
    σ'.nest.Holds (Balanced cfg) := by
  have hlength := hI.1.2
  cases step_spec h with
  | mine | rejected => exact hI
  | called hsender hadmits =>
    refine hI.enter ⟨hI.1.1.called hsender hadmits, ?_⟩
    rw [List.count_cons_self, ← hlength]
    rfl
  | moved hawaited hmoved hmove =>
    refine hI.write ⟨hI.1.1.paid hawaited hmoved hmove, ?_⟩
    rw [← hlength, hawaited]
    rfl
  | @returned a rest ks hkinds hawaited hmoved =>
    refine hI.leave ⟨hI.1.1.answered hawaited hmoved, ?_⟩
    rw [hawaited, hkinds, List.count_cons_self, List.length_cons] at hlength
    rw [hkinds, List.tail_cons]
    exact Nat.succ.inj hlength
  | refused | reverted => exact hI.rollback
  | entered =>
    refine hI.enter ⟨hI.1.1, ?_⟩
    rw [hlength, List.count_cons_of_ne (by decide)]
  | left hkinds =>
    have hunder : Balanced cfg σ.nest.kinds.tail σ.nest.world := by
      refine ⟨hI.1.1, ?_⟩
      rw [hlength, hkinds, List.tail_cons, List.count_cons_of_ne (by decide)]
    exact hI.leave hunder
  | others hkept =>
    have hsolvent := hI.1.1.solvent
    refine hI.write ⟨⟨hI.1.1.foreign, ?_, hI.1.1.settled⟩, hlength⟩
    exact hsolvent.trans (Nat.add_le_add_right hkept _)

theorem consistent_deployed : Consistent self { balanceOf := balanceOf } := by
  refine ⟨fun a ha => absurd ha List.not_mem_nil, ?_, fun id => rfl⟩
  have hnone : fundedTotal (fun _ => {}) = 0 := by
    rw [fundedTotal, Finset.filter_eq_empty_iff.mpr fun _ _ => nofun, Finset.sum_empty]
  show fundedTotal (fun _ => {}) + 0 ≤ balanceOf self + 0
  rw [hnone]
  exact Nat.zero_le _

theorem holds_balanced_reach (h : Reach (step cfg) (deployed balanceOf now) σ) :
    σ.nest.Holds (Balanced cfg) :=
  h.invariant (I := fun σ => σ.nest.Holds (Balanced cfg))
    (Nest.holds_outermost ⟨consistent_deployed, rfl⟩)
    fun _ _ _ _ hI _ hstep => holds_balanced_step hstep hI

theorem awaited_of_idle (h : σ.nest.Holds (Balanced cfg)) (hidle : .escrow ∉ σ.nest.kinds) :
    σ.nest.world.awaited = [] := by
  have hlength := h.1.2
  rw [List.count_eq_zero.mpr hidle] at hlength
  exact List.eq_nil_of_length_eq_zero hlength

theorem escrow_solvent (h : Reach (step cfg) (deployed balanceOf now) σ)
    (hidle : .escrow ∉ σ.nest.kinds) :
    fundedTotal σ.nest.world.deals ≤ σ.nest.world.balanceOf cfg.self ∧
      ∀ id, ((σ.nest.world.deals id).state = .funded →
          totalPaid (σ.nest.world.payoutsOf id) = 0) ∧
        ((σ.nest.world.deals id).state = .released → σ.nest.world.payoutsOf id =
          [⟨id, (σ.nest.world.deals id).beneficiary, (σ.nest.world.deals id).amount⟩]) ∧
        ((σ.nest.world.deals id).state = .refunded → σ.nest.world.payoutsOf id =
          [⟨id, (σ.nest.world.deals id).depositor, (σ.nest.world.deals id).amount⟩]) := by
  have hI := holds_balanced_reach h
  have hawaited := awaited_of_idle hI hidle
  obtain ⟨-, hsolvent, hsettled⟩ := hI.1.1
  rw [hawaited] at hsolvent hsettled
  have hdue : totalPaid (due []) = 0 := rfl
  have hcoming : coming [] = 0 := rfl
  rw [hdue, hcoming, Nat.add_zero, Nat.add_zero] at hsolvent
  refine ⟨hsolvent, fun id => ?_⟩
  have hpaid : σ.nest.world.payoutsOf id = (σ.nest.world.deals id).owed id := hsettled id
  rw [hpaid, Deal.owed]
  refine ⟨fun hstate => ?_, fun hstate => ?_, fun hstate => ?_⟩
  · rw [hstate]
    rfl
  · rw [hstate]
  · rw [hstate]

/-- While the token pulls the deposit of deal 2 in, a hook lets the settler release deal 2 out
of the deposit of deal 1. -/
def reentrantRelease : List EvmEvent :=
  [.call 20 (.fund 1 30 5 100), .moves, .returns true,
    .call 21 (.fund 2 31 5 100), .enters, .call 1 (.release 2), .moves, .returns true, .leaves,
    .moves, .returns true]

theorem reentrant_release_solvent :
    ∃ σ, Reach (step ⟨1, 9⟩) (deployed (fun _ => 10) 0) σ ∧
      fundedTotal σ.nest.world.deals ≤ σ.nest.world.balanceOf 9 ∧
      σ.nest.world.payoutsOf 2 = [⟨2, 31, 5⟩] := by
  obtain ⟨σ, hσ, hend⟩ := exists_reach_of_run (step ⟨1, 9⟩) (deployed (fun _ => 10) 0)
    reentrantRelease (fun σ => .escrow ∉ σ.nest.kinds ∧
      σ.nest.world.deals 2 = ⟨21, 31, 5, 100, .released⟩) (by decide +kernel)
  obtain ⟨hidle, hdeal⟩ := of_decide_eq_true hend
  obtain ⟨hsolvent, hdeals⟩ := escrow_solvent hσ hidle
  refine ⟨σ, hσ, hsolvent, ?_⟩
  have hpaid := (hdeals 2).2.1 (congrArg Deal.state hdeal)
  rwa [hdeal] at hpaid

end Rail.Escrow
