import SettlementRail.Escrow.EscrowSteps

/-! The life of a deal over whole histories, and what a whole call, everything nested in it
included, leaves behind. -/

namespace Rail.Escrow
open Foundation

def Evm.deal (σ : Evm) (id : DealId) : Deal := σ.nest.world.deals id

inductive Deal.Advances (d : Deal) : Deal → Prop
  | fund {d' : Deal} (hnew : d.state = .none) (hfunded : d'.state = .funded) : Advances d d'
  | release (hfunded : d.state = .funded) : Advances d { d with state := .released }
  | refund (hfunded : d.state = .funded) : Advances d { d with state := .refunded }

/-- The deal has its last form from the call `op` made at time `t` on. -/
def ClosedBy (cfg : EscrowConfig) (σ₁ : Evm) (es : List EvmEvent) (σ₂ : Evm) (id : DealId)
    (sender : Account) (op : EscrowCall) (t : ℕ) : Prop :=
  ∃ es₁ es₂ ρ ρ', es = es₁ ++ .call sender op :: es₂ ∧
    RunUnder (step cfg) (fun _ _ => True) σ₁ es₁ ρ ∧ ρ.now = t ∧ (ρ.deal id).state = .funded ∧
    step cfg ρ (.call sender op) = some ρ' ∧
    RunUnder (step cfg) (fun τ _ => τ.deal id = σ₂.deal id) ρ' es₂ σ₂

/-- One call from its first step to the event `ev` that ends it, everything nested in it
included. -/
def WholeCall (cfg : EscrowConfig) (σ₁ : Evm) (sender : Account) (op : EscrowCall)
    (es : List EvmEvent) (ev : EvmEvent) (σ₂ : Evm) : Prop :=
  ∃ σ τ, step cfg σ₁ (.call sender op) = some σ ∧
    σ₁.nest.frames.length < σ.nest.frames.length ∧
    RunUnder (step cfg) (fun ρ _ => σ₁.nest.frames.length < ρ.nest.frames.length) σ es τ ∧
    σ₁.nest.frames.length < τ.nest.frames.length ∧ step cfg τ ev = some σ₂ ∧
    σ₂.nest.frames.length ≤ σ₁.nest.frames.length

variable {cfg : EscrowConfig} {σ σ' σ₁ σ₂ τ : Evm} {ev : EvmEvent} {es es' : List EvmEvent}
variable {w : World} {sender : Account} {now : ℕ} {op : EscrowCall} {token : TokenCall}
variable {d d' : Deal} {id k : DealId} {base : List (CallFrame Context World)}
variable {C : Evm → EvmEvent → Prop}

theorem Admits.advances (h : Admits cfg d sender now op d' token) : d.Advances d' := by
  cases h with
  | fund hnew _ _ => exact .fund hnew rfl
  | release _ hfunded _ => exact .release hfunded
  | refund hfunded _ => exact .refund hfunded
  | cancel _ hfunded => exact .refund hfunded

theorem Deal.Advances.state_ne_none (h : d.Advances d') : d'.state ≠ .none := by
  cases h with
  | fund _ hfunded => exact hfunded ▸ nofun
  | release | refund => nofun

theorem fields_of_advances (h : Relation.ReflTransGen Deal.Advances d d')
    (hd : d.state ≠ .none) : d' = { d with state := d'.state } ∧ d'.state ≠ .none := by
  induction h with
  | refl => exact ⟨rfl, hd⟩
  | tail _ hstep ih =>
    obtain ⟨hfields, hstate⟩ := ih
    refine ⟨?_, hstep.state_ne_none⟩
    cases hstep with
    | fund hnew _ => exact absurd hnew hstate
    | release | refund => rw [hfields]

variable {Q : Deals → Prop}

def KeptBy (cfg : EscrowConfig) (σ : Evm) (Q : Deals → Prop) (ev : EvmEvent) : Prop :=
  ∀ sender op d' token, ev = .call sender op →
    Admits cfg (σ.deal op.dealId) sender σ.now op d' token → Q σ.nest.world.deals →
    Q (Function.update σ.nest.world.deals op.dealId d')

theorem holds_step (h : step cfg σ ev = some σ') (hkept : KeptBy cfg σ Q ev)
    (hQ : σ.nest.Holds fun _ w => Q w.deals) : σ'.nest.Holds fun _ w => Q w.deals := by
  have hnow : Q σ.nest.world.deals := hQ.1
  cases step_spec h with
  | mine | rejected => exact hQ
  | called _ hadmits => exact hQ.enter (hkept _ _ _ _ rfl hadmits hnow)
  | moved | others => exact hQ.write hnow
  | returned => exact hQ.leave hnow
  | refused | reverted => exact hQ.rollback
  | entered => exact hQ.enter hnow
  | left => exact hQ.leave (w := σ.nest.world) hnow

theorem step_inside (h : step cfg σ ev = some σ') (hkept : KeptBy cfg σ Q ev)
    (hin : σ.nest.Inside (fun w => Q w.deals) ⟨.escrow, w⟩ base) :
    σ'.nest.Inside (fun w => Q w.deals) ⟨.escrow, w⟩ base ∨
      σ'.nest.frames = base ∧ (ev = .returns true ∧ Q σ'.nest.world.deals ∨
        ev ≠ .returns true ∧ σ'.nest.world = w) := by
  obtain ⟨_, hframes, hnow, _⟩ := id hin
  cases step_spec h with
  | mine | rejected => exact .inl hin
  | called _ hadmits => exact .inl (hin.enter (hkept _ _ _ _ rfl hadmits hnow))
  | moved | others => exact .inl (hin.write hnow)
  | returned =>
    rcases hin.leave hnow with hstill | hend
    · exact .inl hstill
    · refine .inr ⟨?_, .inl ⟨rfl, hnow⟩⟩
      rw [Nest.frames_leave, Nest.frames_write, hend, List.tail_cons]
  | refused | reverted =>
    rcases hin.rollback with hstill | hend
    · exact .inl hstill
    · exact .inr ⟨congrArg Nest.frames hend, .inr ⟨nofun, congrArg Nest.world hend⟩⟩
  | entered => exact .inl (hin.enter hnow)
  | left hkinds =>
    rcases hin.leave (w := σ.nest.world) hnow with hstill | hend
    · exact .inl hstill
    · rw [Nest.kinds, hend] at hkinds
      cases hkinds

theorem advances_reach (h : ReachUnder (step cfg) C σ₁ σ₂) (hidle : σ₁.nest.frames = []) :
    σ₂.nest.Holds fun _ w => Relation.ReflTransGen Deal.Advances (σ₁.deal id) (w.deals id) := by
  refine h.invariant (I := fun σ => σ.nest.Holds fun _ w =>
    Relation.ReflTransGen Deal.Advances (σ₁.deal id) (w.deals id)) ?_ ?_
  · refine ⟨.refl, fun f fs hfs => ?_⟩
    rw [hidle] at hfs
    exact absurd (List.suffix_nil.mp hfs) (List.cons_ne_nil _ _)
  · intro σ ev σ' _ hI _ hstep
    refine holds_step (Q := fun deals =>
      Relation.ReflTransGen Deal.Advances (σ₁.deal id) (deals id)) hstep ?_ hI
    intro sender op d' token _ hadmits hnow
    by_cases hid : id = op.dealId
    · subst hid
      rw [Function.update_self]
      exact hnow.tail hadmits.advances
    · rwa [Function.update_of_ne hid]

/-- Within a transaction a deal only advances, whatever is reverted in it. -/
def Leads (id : DealId) (w w' : World) : Prop :=
  Relation.ReflTransGen Deal.Advances (w.deals id) (w'.deals id)

instance : IsTrans World (Leads id) := ⟨fun _ _ _ h h' => Relation.ReflTransGen.trans h h'⟩

theorem leads_called (h : Admits cfg (w.deals op.dealId) sender now op d' token) :
    Leads id w (w.called sender op d' token) := by
  show Relation.ReflTransGen Deal.Advances (w.deals id) (Function.update w.deals op.dealId d' id)
  by_cases hid : id = op.dealId
  · subst hid
    rw [Function.update_self]
    exact .single h.advances
  · rw [Function.update_of_ne hid]

theorem ordered_step (h : step cfg σ ev = some σ') (hI : σ.nest.Ordered (Leads id)) :
    σ'.nest.Ordered (Leads id) := by
  have hrefl : Leads id σ.nest.world σ.nest.world := .refl
  cases step_spec h with
  | mine | rejected => exact hI
  | called _ hadmits => exact hI.enter (leads_called hadmits)
  | moved | others => exact hI.write .refl
  | returned => exact hI.leave .refl
  | refused | reverted => exact hI.rollback
  | entered => exact hI.enter hrefl
  | left => exact hI.leave hrefl

theorem ordered_reach (h : ReachUnder (step cfg) C σ₁ σ₂) (hidle : σ₁.nest.frames = []) :
    σ₂.nest.Ordered (Leads id) := by
  refine h.invariant (I := fun σ => σ.nest.Ordered (Leads id)) ?_
    fun _ _ _ _ hI _ hstep => ordered_step hstep hI
  rw [Nest.Ordered, hidle]
  exact List.pairwise_singleton _ _

theorem eq_of_closed (h : Relation.ReflTransGen Deal.Advances d d')
    (hd : d.state = .released ∨ d.state = .refunded) : d' = d := by
  induction h with
  | refl => rfl
  | tail _ hstep ih =>
    rw [ih] at hstep
    cases hstep with
    | fund hstate | release hstate | refund hstate =>
      rw [hstate] at hd
      exact absurd hd nofun

theorem closing_step (h : step cfg σ ev = some σ') (hordered : σ.nest.Ordered (Leads id))
    (hbefore : σ.deal id ≠ σ'.deal id)
    (hclosed : (σ'.deal id).state = .released ∨ (σ'.deal id).state = .refunded) :
    ∃ sender op token, ev = .call sender op ∧ op.dealId = id ∧
      Admits cfg (σ.deal id) sender σ.now op (σ'.deal id) token := by
  have hundone : ∀ f base, σ.nest.frames = f :: base → f.saved.deals id ≠ σ'.deal id := by
    intro f base hframes heq
    have hlead : Relation.ReflTransGen Deal.Advances (f.saved.deals id) (σ.deal id) :=
      hordered.saved hframes
    exact hbefore ((eq_of_closed hlead (heq ▸ hclosed)).trans heq)
  cases step_spec h with
  | mine | rejected | moved | returned | entered | left | others => exact absurd rfl hbefore
  | @called sender op d' token _ hadmits =>
    by_cases hid : id = op.dealId
    · subst hid
      refine ⟨sender, op, token, rfl, rfl, ?_⟩
      simp only [Evm.deal, Nest.world_enter, World.called, Function.update_self]
      exact hadmits
    · refine absurd ?_ hbefore
      simp only [Evm.deal, Nest.world_enter, World.called, Function.update_of_ne hid]
  | refused | reverted =>
    rcases hframes : σ.nest.frames with _ | ⟨f, base⟩
    · refine absurd ?_ hbefore
      simp only [Evm.deal, Nest.rollback, hframes]
    · refine absurd ?_ (hundone f base hframes)
      simp only [Evm.deal, Nest.rollback_of_frames hframes]

theorem closed_by_call (h : RunUnder (step cfg) (fun _ _ => True) σ₁ es σ₂)
    (hidle : σ₁.nest.frames = []) (hchanged : σ₁.deal id ≠ σ₂.deal id)
    (hclosed : (σ₂.deal id).state = .released ∨ (σ₂.deal id).state = .refunded) :
    ∃ sender op t d token, op.dealId = id ∧ Admits cfg d sender t op (σ₂.deal id) token ∧
      (d.state = .funded → ClosedBy cfg σ₁ es σ₂ id sender op t) := by
  obtain ⟨es₁, e, es₂, ρ, ρ', rfl, h₁, hbefore, hstep, hafter, h₂⟩ :=
    h.last_entry (P := fun σ => σ.deal id = σ₂.deal id) hchanged rfl
  rw [← hafter] at hbefore hclosed
  obtain ⟨sender, op, token, rfl, hop, hadmits⟩ :=
    closing_step hstep (ordered_reach h₁.reach hidle) hbefore hclosed
  rw [hafter] at hadmits
  refine ⟨sender, op, ρ.now, ρ.deal id, token, hop, hadmits, fun hfunded => ?_⟩
  exact ⟨es₁, es₂, ρ, ρ', rfl, h₁, rfl, hfunded, hstep, h₂.mono fun _ _ h => h.2⟩

theorem released_by (h : RunUnder (step cfg) (fun _ _ => True) σ₁ es σ₂)
    (hidle : σ₁.nest.frames = []) (hreleased : (σ₂.deal id).state = .released) :
    (σ₁.deal id).state = .released ∨
      ∃ t ≤ (σ₂.deal id).deadline, ClosedBy cfg σ₁ es σ₂ id cfg.settler (.release id) t := by
  by_cases hsame : σ₁.deal id = σ₂.deal id
  · exact .inl (hsame ▸ hreleased)
  · obtain ⟨sender, op, t, d, token, hop, hadmits, hby⟩ :=
      closed_by_call h hidle hsame (.inl hreleased)
    generalize hd' : σ₂.deal id = d' at hadmits hreleased
    cases hadmits with
    | fund | refund | cancel => cases hreleased
    | @release dealId hsettler hfunded htime =>
      obtain rfl : dealId = id := hop
      exact .inr ⟨t, htime, hsettler ▸ hby hfunded⟩

theorem refunded_by (h : RunUnder (step cfg) (fun _ _ => True) σ₁ es σ₂)
    (hidle : σ₁.nest.frames = []) (hrefunded : (σ₂.deal id).state = .refunded) :
    (σ₁.deal id).state = .refunded ∨
      (∃ t, ClosedBy cfg σ₁ es σ₂ id cfg.settler (.cancel id) t) ∨
      ∃ sender, ∃ t > (σ₂.deal id).deadline, ClosedBy cfg σ₁ es σ₂ id sender (.refund id) t := by
  by_cases hsame : σ₁.deal id = σ₂.deal id
  · exact .inl (hsame ▸ hrefunded)
  · obtain ⟨sender, op, t, d, token, hop, hadmits, hby⟩ :=
      closed_by_call h hidle hsame (.inr hrefunded)
    generalize hd' : σ₂.deal id = d' at hadmits hrefunded
    cases hadmits with
    | fund | release => cases hrefunded
    | @refund dealId hfunded htime =>
      obtain rfl : dealId = id := hop
      exact .inr (.inr ⟨sender, t, htime, hby hfunded⟩)
    | @cancel dealId hsettler hfunded =>
      obtain rfl : dealId = id := hop
      exact .inr (.inl ⟨t, hsettler ▸ hby hfunded⟩)

theorem inside_run (hin : σ.nest.Inside (fun w => Q w.deals) ⟨.escrow, w⟩ base)
    (h : RunUnder (step cfg) (fun ρ _ => base.length < ρ.nest.frames.length) σ es τ)
    (hkept : ∀ ρ ev, ev ∈ es → KeptBy cfg ρ Q ev) (hτ : base.length < τ.nest.frames.length) :
    τ.nest.Inside (fun w => Q w.deals) ⟨.escrow, w⟩ base := by
  induction h with
  | nil => exact hin
  | @snoc es ρ ρ' ev _ hdeep hstep ih =>
    have hbefore := ih (fun ρ ev hev => hkept ρ ev (List.mem_append_left _ hev)) hdeep
    have hev := hkept ρ ev (List.mem_append_right _ List.mem_cons_self)
    rcases step_inside hstep hev hbefore with hstill | ⟨hframes, -⟩
    · exact hstill
    · rw [hframes] at hτ
      exact absurd hτ (lt_irrefl _)

/-- A call that keeps `Q` of the deals and ends by returning has kept it; if it ends in any other
way it never happened. -/
theorem WholeCall.ends (h : WholeCall cfg σ₁ sender op es ev σ₂)
    (hkept : ∀ ρ e, e ∈ .call sender op :: es ++ [ev] → KeptBy cfg ρ Q e)
    (hQ : Q σ₁.nest.world.deals) :
    ev = .returns true ∧ Q σ₂.nest.world.deals ∨ ev ≠ .returns true ∧ σ₂.nest = σ₁.nest := by
  obtain ⟨σ, τ, hbegin, hbegun, hrun, hτ, hend, hback⟩ := h
  have hin : σ.nest.Inside (fun w => Q w.deals) ⟨.escrow, σ₁.nest.world⟩ σ₁.nest.frames := by
    cases step_spec hbegin with
    | rejected => exact absurd hbegun (lt_irrefl _)
    | called _ hadmits =>
      exact Nest.inside_enter (hkept _ _ List.mem_cons_self _ _ _ _ rfl hadmits hQ)
  have hinner : ∀ ρ e, e ∈ es → KeptBy cfg ρ Q e := fun ρ e he =>
    hkept ρ e (List.mem_append_left _ (List.mem_cons_of_mem _ he))
  have hlast := hkept τ ev (List.mem_append_right _ List.mem_cons_self)
  rcases step_inside hend hlast (inside_run hin hrun hinner hτ) with hstill | ⟨hframes, hhow⟩
  · exact absurd hback (not_le.mpr hstill.lt_length)
  · refine hhow.imp_right fun ⟨hev, hworld⟩ => ⟨hev, ?_⟩
    rcases hn : σ₂.nest with ⟨world, frames⟩
    rw [hn] at hworld hframes
    rw [show world = σ₁.nest.world from hworld, show frames = σ₁.nest.frames from hframes]

theorem WholeCall.undone (h : WholeCall cfg σ₁ sender op es ev σ₂) (hev : ev ≠ .returns true) :
    σ₂.nest = σ₁.nest := by
  have hends := h.ends (Q := fun _ => True) (fun _ _ _ _ _ _ _ _ _ _ => trivial) trivial
  rcases hends with ⟨hreturned, -⟩ | ⟨-, hsame⟩
  · exact absurd hreturned hev
  · exact hsame

theorem WholeCall.other_deals (h : WholeCall cfg σ₁ sender op es ev σ₂) (hk : k ≠ op.dealId)
    (hnested : ∀ s op', .call s op' ∈ es → k ≠ op'.dealId) : σ₂.deal k = σ₁.deal k := by
  by_cases hev : ev = .returns true
  · subst hev
    have hkept : ∀ ρ e, e ∈ .call sender op :: es ++ [.returns true] →
        KeptBy cfg ρ (fun deals => deals k = σ₁.deal k) e := by
      rintro ρ e he s op' d' token rfl - hdeal
      have hother : k ≠ op'.dealId := by
        rcases List.mem_append.mp he with he | he
        · rcases List.mem_cons.mp he with heq | he
          · obtain ⟨-, rfl⟩ := EvmEvent.call.inj heq
            exact hk
          · exact hnested s op' he
        · exact absurd (List.mem_singleton.mp he) nofun
      rwa [Function.update_of_ne hother]
    rcases h.ends hkept rfl with ⟨-, hdeal⟩ | ⟨hne, -⟩
    · exact hdeal
    · exact absurd rfl hne
  · rw [Evm.deal, h.undone hev, Evm.deal]

/-- At any time a funded deal can be released by the settler or refunded by anyone, not both. -/
theorem release_or_refund (deals : Deals) (now : ℕ) (hfunded : (deals id).state = .funded) :
    (release cfg deals cfg.settler now id).isOk = true ↔
      ¬(refund deals now id).isOk = true := by
  rw [release_ok_iff, refund_ok_iff]
  refine ⟨fun h h' => absurd h.2.2 (not_le.mpr h'.2), fun h => ⟨rfl, hfunded, ?_⟩⟩
  exact not_lt.mp fun hlate => h ⟨hfunded, hlate⟩

theorem step_of_rejected {e : EscrowError} (hsender : sender ≠ cfg.self)
    (h : op.body cfg σ.nest.world.deals sender σ.now = .error e) :
    step cfg σ (.call sender op) = some σ := by
  simp only [step, if_neg hsender, h]

theorem deal_lifecycle (h : RunUnder (step cfg) (fun _ _ => True) σ₁ es σ₂)
    (hidle : σ₁.nest.frames = []) (id : DealId) :
    Relation.ReflTransGen Deal.Advances (σ₁.deal id) (σ₂.deal id) ∧
      ((σ₁.deal id).state ≠ .none →
        σ₂.deal id = { σ₁.deal id with state := (σ₂.deal id).state }) ∧
      ((σ₂.deal id).state = .released → (σ₁.deal id).state = .released ∨
        ∃ t ≤ (σ₂.deal id).deadline, ClosedBy cfg σ₁ es σ₂ id cfg.settler (.release id) t) ∧
      ((σ₂.deal id).state = .refunded → (σ₁.deal id).state = .refunded ∨
        (∃ t, ClosedBy cfg σ₁ es σ₂ id cfg.settler (.cancel id) t) ∨
        ∃ sender, ∃ t > (σ₂.deal id).deadline,
          ClosedBy cfg σ₁ es σ₂ id sender (.refund id) t) ∧
      ((σ₂.deal id).state = .funded → ∀ now,
        ((release cfg σ₂.nest.world.deals cfg.settler now id).isOk = true ↔
          ¬(refund σ₂.nest.world.deals now id).isOk = true)) ∧
      (∀ sender op e, sender ≠ cfg.self →
        op.body cfg σ₂.nest.world.deals sender σ₂.now = .error e →
        step cfg σ₂ (.call sender op) = some σ₂) ∧
      ∀ sender op es' ev σ₃, WholeCall cfg σ₂ sender op es' ev σ₃ →
        (ev ≠ .returns true → σ₃.nest = σ₂.nest) ∧
        ∀ k, k ≠ op.dealId → (∀ s op', .call s op' ∈ es' → k ≠ op'.dealId) →
          σ₃.deal k = σ₂.deal k := by
  have hadvances : Relation.ReflTransGen Deal.Advances (σ₁.deal id) (σ₂.deal id) :=
    (advances_reach h.reach hidle).1
  refine ⟨hadvances, fun hfunded => (fields_of_advances hadvances hfunded).1, released_by h hidle,
    refunded_by h hidle, fun hfunded now => release_or_refund _ now hfunded, ?_, ?_⟩
  · exact fun sender op e hsender hbody => step_of_rejected hsender hbody
  · exact fun sender op es' ev σ₃ hcall =>
      ⟨hcall.undone, fun k hk hnested => hcall.other_deals hk hnested⟩

/-- A deal is funded, then a second one, refunded late by a stranger; the first is released in
time. -/
def releaseThenRefund : List EvmEvent :=
  [.call 20 (.fund 1 30 5 100), .moves, .returns true,
    .call 20 (.fund 2 31 5 50), .moves, .returns true, .mine 100,
    .call 1 (.release 1), .moves, .returns true, .call 40 (.refund 2), .moves, .returns true]

theorem released_in_time :
    ∃ σ, Reach (step ⟨1, 9⟩) (deployed (fun _ => 10) 0) σ ∧
      (∃ t ≤ 100, ClosedBy ⟨1, 9⟩ (deployed (fun _ => 10) 0) releaseThenRefund σ 1 1
        (.release 1) t) ∧
      Relation.ReflTransGen Deal.Advances {} (σ.deal 2) := by
  obtain ⟨σ, hσ, hend⟩ := exists_runUnder_of_checkedRun (step ⟨1, 9⟩) (fun _ _ => True)
    (deployed (fun _ => 10) 0) releaseThenRefund (fun σ =>
      σ.deal 1 = ⟨20, 30, 5, 100, .released⟩ ∧ σ.deal 2 = ⟨20, 31, 5, 50, .refunded⟩)
    (by decide +kernel)
  obtain ⟨hfirst, hsecond⟩ := of_decide_eq_true hend
  obtain ⟨-, -, hreleased, -⟩ := deal_lifecycle hσ rfl 1
  refine ⟨σ, hσ.reach, ?_, (deal_lifecycle hσ rfl 2).1⟩
  rw [hfirst] at hreleased
  refine (hreleased rfl).resolve_left fun h => ?_
  cases h

end Rail.Escrow
