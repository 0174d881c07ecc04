import SettlementRail.Model.DvPEscrow

/-! What one step of the machine can do: the guards of each contract function, and the effect
of each event on the nest of calls. -/

namespace Rail.Escrow
open Foundation

variable {cfg : EscrowConfig} {σ σ' : Evm} {ev : EvmEvent} {deals deals' : Deals}
variable {sender : Account} {now : ℕ} {op : EscrowCall} {token : TokenCall} {d d' : Deal}

/-- `op` passes its guards on the deal `d`, leaves `d'` and calls the token. -/
inductive Admits (cfg : EscrowConfig) (d : Deal) (sender : Account) (now : ℕ) :
    EscrowCall → Deal → TokenCall → Prop
  | fund {dealId : DealId} {beneficiary : Account} {amount deadline : ℕ}
      (hnew : d.state = .none) (hamount : amount ≠ 0) (hdeadline : now < deadline) :
      Admits cfg d sender now (.fund dealId beneficiary amount deadline)
        { depositor := sender, beneficiary, amount, deadline, state := .funded }
        (.transferFrom sender amount)
  | release {dealId : DealId} (hsettler : sender = cfg.settler) (hfunded : d.state = .funded)
      (htime : now ≤ d.deadline) :
      Admits cfg d sender now (.release dealId) { d with state := .released }
        (.transfer d.beneficiary d.amount)
  | refund {dealId : DealId} (hfunded : d.state = .funded) (htime : d.deadline < now) :
      Admits cfg d sender now (.refund dealId) { d with state := .refunded }
        (.transfer d.depositor d.amount)
  | cancel {dealId : DealId} (hsettler : sender = cfg.settler) (hfunded : d.state = .funded) :
      Admits cfg d sender now (.cancel dealId) { d with state := .refunded }
        (.transfer d.depositor d.amount)

theorem release_ok_iff {dealId : DealId} :
    (release cfg deals sender now dealId).isOk = true ↔
      sender = cfg.settler ∧ (deals dealId).state = .funded ∧ now ≤ (deals dealId).deadline := by
  simp only [release, onlySettler]
  split_ifs with hsettler hfunded htime
  · exact ⟨nofun, fun h => absurd h.1 hsettler⟩
  · exact ⟨nofun, fun h => absurd h.2.1 hfunded⟩
  · exact ⟨nofun, fun h => absurd htime (not_lt.mpr h.2.2)⟩
  · exact ⟨fun _ => ⟨not_not.mp hsettler, not_not.mp hfunded, not_lt.mp htime⟩, fun _ => rfl⟩

theorem refund_ok_iff {dealId : DealId} :
    (refund deals now dealId).isOk = true ↔
      (deals dealId).state = .funded ∧ (deals dealId).deadline < now := by
  simp only [refund]
  split_ifs with hfunded htime
  · exact ⟨nofun, fun h => absurd h.1 hfunded⟩
  · exact ⟨nofun, fun h => absurd htime (not_le.mpr h.2)⟩
  · exact ⟨fun _ => ⟨not_not.mp hfunded, not_le.mp htime⟩, fun _ => rfl⟩

theorem body_spec (h : op.body cfg deals sender now = .ok (deals', token)) :
    ∃ d', deals' = Function.update deals op.dealId d' ∧
      Admits cfg (deals op.dealId) sender now op d' token := by
  cases op with
  | fund dealId beneficiary amount deadline =>
    simp only [EscrowCall.body, fund] at h
    split_ifs at h with hamount htime hstate
    cases h
    exact ⟨_, rfl, .fund (not_not.mp hstate) hamount (not_le.mp htime)⟩
  | release dealId =>
    simp only [EscrowCall.body, release, onlySettler] at h
    split_ifs at h with hsettler hstate htime
    cases h
    exact ⟨_, rfl, .release (not_not.mp hsettler) (not_not.mp hstate) (not_lt.mp htime)⟩
  | refund dealId =>
    simp only [EscrowCall.body, refund] at h
    split_ifs at h with hstate htime
    cases h
    exact ⟨_, rfl, .refund (not_not.mp hstate) (not_le.mp htime)⟩
  | cancel dealId =>
    simp only [EscrowCall.body, cancel, onlySettler] at h
    split_ifs at h with hsettler hstate
    cases h
    exact ⟨_, rfl, .cancel (not_not.mp hsettler) (not_not.mp hstate)⟩

def World.called (w : World) (sender : Account) (op : EscrowCall) (d' : Deal)
    (token : TokenCall) : World :=
  { w with
    deals := Function.update w.deals op.dealId d'
    awaited := { sender, call := op, token } :: w.awaited }

def World.paid (w : World) (a : Awaited) (rest : List Awaited) (balanceOf : Account → ℕ) :
    World :=
  { w with
    balanceOf, awaited := { a with moved := true } :: rest
    payouts := a.payout.toList ++ w.payouts }

def World.answered (w : World) (a : Awaited) (rest : List Awaited) : World :=
  { w with awaited := rest, logs := w.logs ++ [a.call.log w.deals a.sender] }

inductive Steps (cfg : EscrowConfig) (σ : Evm) : EvmEvent → Evm → Prop
  | mine {now : ℕ} (hidle : σ.nest.frames = []) (htime : σ.now ≤ now) :
      Steps cfg σ (.mine now) { σ with now }
  | rejected {sender : Account} {op : EscrowCall} {e : EscrowError}
      (hbody : op.body cfg σ.nest.world.deals sender σ.now = .error e) :
      Steps cfg σ (.call sender op) σ
  | called {sender : Account} {op : EscrowCall} {d' : Deal} {token : TokenCall}
      (hsender : sender ≠ cfg.self)
      (hadmits : Admits cfg (σ.nest.world.deals op.dealId) sender σ.now op d' token) :
      Steps cfg σ (.call sender op)
        { σ with nest := σ.nest.enter .escrow (σ.nest.world.called sender op d' token) }
  | moved {a : Awaited} {rest : List Awaited} {balanceOf : Account → ℕ}
      (hawaited : σ.nest.world.awaited = a :: rest) (hmoved : a.moved = false)
      (hmove : a.token.move cfg.self σ.nest.world.balanceOf = some balanceOf) :
      Steps cfg σ .moves
        { σ with nest := σ.nest.write (σ.nest.world.paid a rest balanceOf) }
  | returned {a : Awaited} {rest : List Awaited} {ks : List Context}
      (hkinds : σ.nest.kinds = .escrow :: ks)
      (hawaited : σ.nest.world.awaited = a :: rest) (hmoved : a.moved = true) :
      Steps cfg σ (.returns true)
        { σ with nest := (σ.nest.write (σ.nest.world.answered a rest)).leave }
  | refused {ks : List Context} (hkinds : σ.nest.kinds = .escrow :: ks) :
      Steps cfg σ (.returns false) { σ with nest := σ.nest.rollback }
  | reverted (hbusy : σ.nest.frames ≠ []) :
      Steps cfg σ .reverts { σ with nest := σ.nest.rollback }
  | entered : Steps cfg σ .enters { σ with nest := σ.nest.enter .foreign σ.nest.world }
  | left {ks : List Context} (hkinds : σ.nest.kinds = .foreign :: ks) :
      Steps cfg σ .leaves { σ with nest := σ.nest.leave }
  | others {balanceOf : Account → ℕ}
      (hkept : σ.nest.world.balanceOf cfg.self ≤ balanceOf cfg.self) :
      Steps cfg σ (.others balanceOf)
        { σ with nest := σ.nest.write { σ.nest.world with balanceOf } }

theorem step_spec (h : step cfg σ ev = some σ') : Steps cfg σ ev σ' := by
  cases ev with
  | mine now =>
    simp only [step, Bool.and_eq_true, List.isEmpty_iff, decide_eq_true_eq] at h
    split_ifs at h with hmine
    exact Option.some.inj h ▸ .mine hmine.1 hmine.2
  | call sender op =>
    simp only [step] at h
    split_ifs at h with hsender
    split at h
    · rename_i e hbody
      exact Option.some.inj h ▸ .rejected hbody
    · rename_i deals' token hbody
      obtain ⟨d', rfl, hadmits⟩ := body_spec hbody
      exact Option.some.inj h ▸ .called hsender hadmits
  | moves =>
    simp only [step] at h
    split at h
    · cases h
    · rename_i a rest hawaited
      split_ifs at h with hmoved
      obtain ⟨balanceOf, hmove, rfl⟩ := Option.map_eq_some_iff.mp h
      exact .moved hawaited (eq_false_of_ne_true hmoved) hmove
  | returns ok =>
    simp only [step] at h
    split at h
    · rename_i ks a rest hkinds hawaited
      cases ok with
      | false => exact Option.some.inj h ▸ .refused hkinds
      | true =>
        simp only [EscrowCall.afterToken, Bool.not_true, Bool.false_eq_true, if_false] at h
        split_ifs at h with hmoved
        exact Option.some.inj h ▸ .returned hkinds hawaited hmoved
    · cases h
  | reverts =>
    simp only [step, List.isEmpty_iff] at h
    split_ifs at h with hidle
    exact Option.some.inj h ▸ .reverted hidle
  | enters => exact Option.some.inj h ▸ .entered
  | leaves =>
    simp only [step] at h
    split at h
    · rename_i ks hkinds
      exact Option.some.inj h ▸ .left hkinds
    · cases h
  | others balanceOf =>
    simp only [step] at h
    split_ifs at h with hkept
    exact Option.some.inj h ▸ .others hkept

end Rail.Escrow
