import SettlementRail.Foundation.ThreadPool
import SettlementRail.System.Snapshots
import SettlementRail.System.Steps

/-! Which branch of `processReceipt` is taken, and how a listener thread gets to its writes. -/

namespace Rail
open Foundation

variable {lcfg : ListenerConfig} {cfg : Config} {σ σ' : State} {ev : Event}
variable {db : Db} {node : Node} {now head : ℕ}
variable {s t : Settlement} {rest : List Settlement} {r : Receipt} {receipt : Option Receipt}

theorem blockHash_matches {h : Option BlockHash} {b : BlockHash} :
    ¬(h.isSome ∧ h ≠ some b) ↔ h = none ∨ h = some b := by
  cases h <;> simp

theorem decideReceipt_finalize_iff :
    decideReceipt lcfg s head receipt = .finalize r ↔ receipt = some r ∧ r.success = true ∧
      (s.confirmedBlockHash = none ∨ s.confirmedBlockHash = some r.blockHash) ∧
      (lcfg.confirmationsFinal : ℤ) ≤ confirmations head r := by
  rcases receipt with _ | q
  · simp only [decideReceipt, reduceCtorEq, false_and, iff_false]
    split_ifs <;> simp
  · simp only [decideReceipt]
    constructor
    · intro h
      split_ifs at h with hfail hmoved hdeep
      cases h
      exact ⟨rfl, by simpa using hfail, blockHash_matches.mp hmoved, hdeep⟩
    · rintro ⟨hq, hsuccess, hsame, hdeep⟩
      obtain rfl := Option.some.inj hq
      rw [if_neg (by simp [hsuccess]), if_neg (blockHash_matches.mpr hsame), if_pos hdeep]

theorem decideReceipt_confirm (h : decideReceipt lcfg s head receipt = .confirm r) :
    receipt = some r ∧ r.success = true ∧
      (s.confirmedBlockHash = none ∨ s.confirmedBlockHash = some r.blockHash) ∧
      (lcfg.confirmationsConfirmed : ℤ) ≤ confirmations head r ∧ s.status = .submitted := by
  rcases receipt with _ | q <;> simp only [decideReceipt] at h
  · split_ifs at h
  · split_ifs at h with hfail hmoved hdeep hconfirm
    cases h
    exact ⟨rfl, by simpa using hfail, blockHash_matches.mp hmoved, hconfirm⟩

theorem decideReceipt_revert (h : decideReceipt lcfg s head receipt = .revert) :
    ∃ r, receipt = some r ∧ r.success = false := by
  rcases receipt with _ | q <;> simp only [decideReceipt] at h
  · split_ifs at h
  · split_ifs at h with hfail
    exact ⟨q, rfl, by simpa using hfail⟩

def ListenPc.finalizing : ListenPc → Option (Settlement × Receipt)
  | .book s receipt .. | .flip s receipt .. => some (s, receipt)
  | _ => none

def ListenPc.confirming : ListenPc → Option (Settlement × Receipt)
  | .confirm s receipt .. => some (s, receipt)
  | _ => none

def ListenPc.reverting : ListenPc → Option Settlement
  | .revert s .. => some s
  | _ => none

def ListenPc.headRead : ListenPc → Option ℕ
  | .receipt _ head _ | .revert _ head _ | .reorg _ head _ | .confirm _ _ head _
  | .book _ _ head _ | .flip _ _ head _ => some head
  | _ => none

theorem listenNext_cases (l : List Settlement) : listenNext head l = .done ∨
    ∃ s rest, listenNext head l = .receipt s head rest := by
  induction l with
  | nil => exact .inl rfl
  | cons s rest ih =>
    unfold listenNext
    split_ifs
    · exact .inr ⟨s, rest, rfl⟩
    · exact ih

theorem listenNext_spec (l : List Settlement) : (listenNext head l).finalizing = none ∧
    (listenNext head l).confirming = none ∧ (listenNext head l).reverting = none ∧
      ((listenNext head l).headRead = none ∨ (listenNext head l).headRead = some head) := by
  rcases @listenNext_cases head l with h | ⟨s, rest, h⟩ <;> rw [h]
  · exact ⟨rfl, rfl, rfl, .inl rfl⟩
  · exact ⟨rfl, rfl, rfl, .inr rfl⟩

theorem afterWrite_spec {pc : ListenPc} (o : DbOutcome Unit) :
    afterWrite pc o = pc ∨ afterWrite pc o = .done := by
  cases o with
  | ok => exact .inl rfl
  | lost | ambiguous => exact .inr rfl

structure EntersFrom (cfg : ListenerConfig) (node : Node) (pc : ListenPc) (e : ListenEvent)
    (pc' : ListenPc) : Prop where
  finalizing : pc'.finalizing = none ∨ pc'.finalizing = pc.finalizing ∨
    ∃ s head rest r, pc = .receipt s head rest ∧ e = .receipt ∧ pc'.finalizing = some (s, r) ∧
      decideReceipt cfg s head (s.txHash.bind node.getTransactionReceipt) = .finalize r
  confirming : pc'.confirming = none ∨
    ∃ s head rest r, pc = .receipt s head rest ∧ e = .receipt ∧ pc'.confirming = some (s, r) ∧
      decideReceipt cfg s head (s.txHash.bind node.getTransactionReceipt) = .confirm r
  reverting : pc'.reverting = none ∨
    ∃ s head rest, pc = .receipt s head rest ∧ e = .receipt ∧ pc'.reverting = some s ∧
      decideReceipt cfg s head (s.txHash.bind node.getTransactionReceipt) = .revert
  head : pc'.headRead = none ∨ pc'.headRead = pc.headRead ∨
    pc'.headRead = some node.currentBlock

theorem entersFrom_done {pc : ListenPc} {e : ListenEvent} :
    EntersFrom lcfg node pc e .done := ⟨.inl rfl, .inl rfl, .inl rfl, .inl rfl⟩

theorem entersFrom_next {pc : ListenPc} {e : ListenEvent} (l : List Settlement) (o : DbOutcome Unit)
    (hhead : pc.headRead = some head ∨ head = node.currentBlock) :
    EntersFrom lcfg node pc e (afterWrite (listenNext head l) o) := by
  rcases @afterWrite_spec (listenNext head l) o with h | h <;> rw [h]
  · obtain ⟨hfinal, hconfirm, hrevert, hread⟩ := @listenNext_spec head l
    refine ⟨.inl hfinal, .inl hconfirm, .inl hrevert, hread.imp_right fun hread => ?_⟩
    rcases hhead with hhead | rfl
    · exact .inl (hread.trans hhead.symm)
    · exact .inr hread
  · exact entersFrom_done

theorem listenStep_spec {pc : ListenPc} {e : ListenEvent} {out : ListenOut}
    (hout : listenStep lcfg db node now pc e = some out) : EntersFrom lcfg node pc e out.pc := by
  cases pc <;> cases e <;> simp only [listenStep, reduceCtorEq] at hout
  case receipt.receipt s head rest =>
    cases hout
    unfold afterReceipt
    split
    case h_1 => exact @entersFrom_next lcfg node head _ _ rest .ok (.inl rfl)
    case h_2 hr => exact ⟨.inl rfl, .inl rfl, .inr ⟨s, head, rest, rfl, rfl, rfl, hr⟩, .inr (.inl rfl)⟩
    case h_3 => exact ⟨.inl rfl, .inl rfl, .inl rfl, .inr (.inl rfl)⟩
    case h_4 r hr =>
      exact ⟨.inl rfl, .inr ⟨s, head, rest, r, rfl, rfl, rfl, hr⟩, .inl rfl, .inr (.inl rfl)⟩
    case h_5 r hr =>
      exact ⟨.inr (.inr ⟨s, head, rest, r, rfl, rfl, rfl, hr⟩), .inl rfl, .inl rfl, .inr (.inl rfl)⟩
  case pollHead.headRead opened =>
    cases hout
    exact @entersFrom_next lcfg node node.currentBlock _ _ opened .ok (.inr rfl)
  case eventHead.headRead s =>
    cases hout
    exact @entersFrom_next lcfg node node.currentBlock _ _ [s] .ok (.inr rfl)
  case revert.written s k rest o | reorg.written s k rest o | confirm.written s _ k rest o
  | flip.written s _ k rest o =>
    split_ifs at hout
    cases hout
    exact entersFrom_next rest o (.inl rfl)
  case book.written s r k rest o =>
    split_ifs at hout
    cases hout
    rcases @afterWrite_spec (.flip s r k rest) o with h | h <;> rw [h]
    · exact ⟨.inr (.inl rfl), .inl rfl, .inl rfl, .inr (.inl rfl)⟩
    · exact entersFrom_done
  case pollFind.found =>
    split at hout <;> cases hout
    · exact entersFrom_done
    · exact ⟨.inl rfl, .inl rfl, .inl rfl, .inl rfl⟩
  case eventFind.found =>
    split at hout
    · cases hout
      exact entersFrom_done
    · split_ifs at hout <;> cases hout
      · exact ⟨.inl rfl, .inl rfl, .inl rfl, .inl rfl⟩
      · exact entersFrom_done
  all_goals cases hout; exact entersFrom_done

theorem step_listener {i : ℕ} {c' : ListenCall} (h : step cfg σ ev = some σ')
    (hc' : σ'.listeners[i]? = some c') :
    c'.pc = .pollFind ∨ (∃ txHash, c'.pc = .eventFind txHash) ∨ σ.listeners[i]? = some c' ∨
      ∃ e c out, ev = .listen i e ∧ σ.listeners[i]? = some c ∧
        listenStep cfg.listener σ.db σ.node σ.now c.pc e = some out ∧ c'.pc = out.pc := by
  cases stepsTo h with
  | @listen j e c out hcall hout =>
    rcases getElem?_set_cases hc' with ⟨rfl, hmoved⟩ | ⟨-, hold⟩
    · exact .inr (.inr (.inr ⟨e, c, out, rfl, hcall, hout, by rw [hmoved]⟩))
    · exact .inr (.inr (.inl hold))
  | startPoll =>
    rcases getElem?_snoc_cases hc' with ⟨-, rfl⟩ | ⟨-, hold⟩
    · exact .inl rfl
    · exact .inr (.inr (.inl hold))
  | transferEvent txHash =>
    rcases getElem?_snoc_cases hc' with ⟨-, rfl⟩ | ⟨-, hold⟩
    · exact .inr (.inl ⟨txHash, rfl⟩)
    · exact .inr (.inr (.inl hold))
  | crash => cases hc'
  | _ => exact .inr (.inr (.inl hc'))

end Rail
