import SettlementRail.System.Steps

/-! How the node changes in one step, and what is true of every node: the chain uses the
account's nonces in order, and whatever it or the mempool holds was accepted before. -/

namespace Rail
open Foundation

/-- `NodeMoves σ ev node`: in `σ`, the event `ev` may leave the node in state `node`. -/
inductive NodeMoves (σ : State) : Event → Node → Prop
  | keep {ev : Event} : NodeMoves σ ev σ.node
  | job {id : SettlementId} {v : JobVars} {reply : Option TxError}
      (hworker : σ.relayer.worker = some (id, .broadcast v))
      (hacc : σ.node.accepts v.tx = true) :
      NodeMoves σ (.job (.sent (.accepted reply))) (σ.node.accept (.settlement id) v.tx)
  | sweep {s : Settlement} {rest : List Settlement} {fees : Fees} {gasLimit baseUnits : ℕ}
      {reply : Option TxError} (hsweep : σ.relayer.sweep = some (.broadcast s rest fees gasLimit))
      (hunits : toBaseUnits s.amount = some baseUnits)
      (hacc : σ.node.accepts (resendTx s fees gasLimit baseUnits) = true) :
      NodeMoves σ (.sweep (.sent (.accepted reply)))
        (σ.node.accept (.settlement s.id) (resendTx s fees gasLimit baseUnits))
  | dvp {i nonce gasLimit : ℕ} {call : Call} {rest : List Call} {fees : Fees}
      {reply : Option TxError} (hdvp : σ.dvps[i]? = some (.send nonce call rest))
      (hacc : σ.node.accepts { nonce, gasLimit, fees, call } = true) :
      NodeMoves σ (.dvp i (.sent gasLimit fees (.accepted reply)))
        (σ.node.accept (.dvp i) { nonce, gasLimit, fees, call })
  | drop (tx : Tx) : NodeMoves σ (.dropTx tx) (σ.node.dropTx tx)
  | head {drop : ℕ} {blocks : List Block} (hpossible : σ.node.headPossible drop blocks = true) :
      NodeMoves σ (.newHead drop blocks) (σ.node.withHead drop blocks)

variable {cfg : Config} {σ σ' : State} {ev : Event}

@[simp] theorem caught_node (cfg : RelayerConfig) (v : JobVars) (e : TxError) (localNonce : ℕ)
    (inflight : Inflight) : (caught cfg v e localNonce inflight).node = .none := by
  unfold caught caughtAs
  split_ifs <;> rfl

@[simp] theorem resendCaught_node (s : Settlement) (rest : List Settlement) (e : TxError)
    (inflight : Inflight) : (resendCaught s rest e inflight).node = .none := by
  unfold resendCaught resendCaughtAs
  split_ifs <;> rfl

@[simp] theorem sweepStuck_node (cfg : RelayerConfig) (s : Settlement) (rest : List Settlement)
    (info : Option InflightTx) (inflight : Inflight) :
    (sweepStuck cfg s rest info inflight).node = .none := by
  unfold sweepStuck
  split_ifs
  · rfl
  · cases info <;> rfl

theorem nodeMoves_job {id : SettlementId} {pc : JobPc} {e : JobEvent} {out : JobOut}
    (hworker : σ.relayer.worker = some (id, pc))
    (hout : jobStep cfg.relayer σ.db σ.node σ.now σ.relayer.localNonce σ.relayer.inflight id pc e
      = some out) :
    NodeMoves σ (.job e) (out.node.apply σ.node) := by
  cases pc <;> cases e <;> simp only [jobStep, reduceCtorEq] at hout
  case broadcast.sent v outcome =>
    rcases outcome with (_ | e) | e <;> simp only at hout
    · split_ifs at hout with hacc
      cases hout
      exact .job hworker (by simpa using hacc)
    · split_ifs at hout with hacc
      cases hout
      exact .job hworker (by simpa using hacc)
    · cases hout
      rw [caught_node]
      exact .keep
  case writeSubmitted.written v outcome =>
    split_ifs at hout
    cases outcome <;> cases hout <;> simp only [caught_node] <;> exact .keep
  case fail.written v reason outcome =>
    split_ifs at hout
    cases hout
    exact .keep
  case find.found =>
    repeat' split at hout
    all_goals cases hout; exact .keep
  case resync.counted v cls =>
    split_ifs at hout <;> cases hout <;> exact .keep
  all_goals cases hout; exact .keep

theorem nodeMoves_sweep {pc : SweepPc} {e : SweepEvent} {out : SweepOut}
    (hsweep : σ.relayer.sweep = some pc)
    (hout : sweepStep cfg.relayer σ.db σ.node σ.now σ.relayer.inflight pc e = some out) :
    NodeMoves σ (.sweep e) (out.node.apply σ.node) := by
  cases pc <;> cases e <;> simp only [sweepStep, reduceCtorEq] at hout
  case broadcast.sent s rest fees gasLimit outcome =>
    rcases outcome with (_ | e) | e <;> simp only at hout
    · split at hout
      · cases hout
      · split_ifs at hout with hacc
        cases hout
        exact .sweep hsweep ‹_› (by simpa using hacc)
    · split at hout
      · cases hout
      · split_ifs at hout with hacc
        cases hout
        exact .sweep hsweep ‹_› (by simpa using hacc)
    · cases hout
      rw [resendCaught_node]
      exact .keep
  case recordResend.written s rest tx outcome =>
    split_ifs at hout
    cases outcome <;> cases hout <;> first | exact .keep | (rw [resendCaught_node]; exact .keep)
  case fail.written s rest reason retryCount outcome =>
    split_ifs at hout
    cases hout
    exact .keep
  case receipt.receipt s rest =>
    split_ifs at hout <;> cases hout <;> simp only [sweepStuck_node] <;> exact .keep
  case feesFromTx.txLookup =>
    split at hout <;> cases hout <;> exact .keep
  all_goals cases hout; exact .keep

theorem nodeMoves_dvp {i : ℕ} {pc : DvpPc} {e : DvpEvent} {out : DvpOut}
    (hdvp : σ.dvps[i]? = some pc) (hout : dvpStep σ.node i pc e = some out) :
    NodeMoves σ (.dvp i e) (out.node.apply σ.node) := by
  cases pc <;> cases e <;> simp only [dvpStep, reduceCtorEq] at hout
  case send.sent nonce call rest gasLimit fees outcome =>
    rcases outcome with reply | e <;> simp only at hout
    · split at hout
      · cases hout
      · rename_i hacc
        cases hout
        exact .dvp hdvp (by simpa using hacc)
    · cases hout
      exact .keep
  case wait.mined =>
    split at hout <;> cases hout
    exact .keep
  all_goals cases hout; exact .keep

/-- Every step moves the node in one of these ways. -/
theorem step_node (h : step cfg σ ev = some σ') : NodeMoves σ ev σ'.node := by
  cases stepsTo h with
  | job hworker hout => exact nodeMoves_job hworker hout
  | sweep hsweep hout => exact nodeMoves_sweep hsweep hout
  | dvp hdvp hout => exact nodeMoves_dvp hdvp hout
  | dropTx tx => exact .drop tx
  | newHead hpossible => exact .head hpossible
  | _ => exact .keep

def Node.Known (node : Node) (tx : Tx) : Prop := ∃ a ∈ node.accepted, a.tx = tx

structure NodeInv (node : Node) : Prop where
  sequential : Sequential Block.entries Entry.nonce node.base node.chain
  mined_known : ∀ e ∈ node.entries, node.Known e.tx
  pooled_known : ∀ tx ∈ node.mempool, node.Known tx
  pooled_unmined : ∀ tx ∈ node.mempool, node.minedCount ≤ tx.nonce

theorem Node.known_accept {node : Node} {sender : Sender} {tx t : Tx} :
    (node.accept sender tx).Known t ↔ node.Known t ∨ tx = t := by
  simp [Known, accept, or_and_right, exists_or]

theorem NodeInv.accept {node : Node} {sender : Sender} {tx : Tx} (h : NodeInv node)
    (hacc : node.accepts tx = true) : NodeInv (node.accept sender tx) := by
  refine ⟨h.sequential, fun e he => Node.known_accept.mpr (.inl (h.mined_known e he)),
    fun t ht => ?_, fun t ht => ?_⟩ <;>
    simp only [Node.accept, List.mem_append, List.mem_filter, List.mem_singleton] at ht
  · rcases ht with ⟨ht, -⟩ | rfl
    · exact Node.known_accept.mpr (.inl (h.pooled_known t ht))
    · exact Node.known_accept.mpr (.inr rfl)
  · rcases ht with ⟨ht, -⟩ | rfl
    · exact h.pooled_unmined t ht
    · simp only [Node.accepts, Bool.and_eq_true, decide_eq_true_eq] at hacc
      exact hacc.1.1

theorem NodeInv.dropTx {node : Node} {tx : Tx} (h : NodeInv node) : NodeInv (node.dropTx tx) :=
  ⟨h.sequential, h.mined_known, fun t ht => h.pooled_known t (List.mem_of_mem_filter ht),
    fun t ht => h.pooled_unmined t (List.mem_of_mem_filter ht)⟩

theorem Node.mem_entries_withHead {node : Node} {drop : ℕ} {blocks : List Block} {e : Entry}
    (he : e ∈ (node.withHead drop blocks).entries) :
    e ∈ node.entries ∨ e ∈ chainEntries Block.entries blocks := by
  simp only [entries, withHead, newHead, chainEntries_append, List.mem_append] at he
  refine he.imp_left fun he => ?_
  obtain ⟨b, hb, hbe⟩ := mem_chainEntries.mp he
  exact mem_chainEntries.mpr ⟨b, List.mem_of_mem_take hb, hbe⟩

theorem NodeInv.withHead {node : Node} {drop : ℕ} {blocks : List Block} (h : NodeInv node)
    (hpossible : node.headPossible drop blocks = true) : NodeInv (node.withHead drop blocks) := by
  simp only [Node.headPossible, Bool.and_eq_true, decide_eq_true_eq, List.all_eq_true,
    List.contains_iff_mem, List.mem_map] at hpossible
  refine ⟨hpossible.1, fun e he => ?_, fun t ht => ?_, fun t ht => ?_⟩
  · exact (Node.mem_entries_withHead he).elim (h.mined_known e) (hpossible.2 e)
  · simp only [Node.withHead, List.mem_filter, List.mem_append, List.mem_map] at ht
    rcases ht.1 with ht | ⟨e, he, rfl⟩
    · exact h.pooled_known t ht
    · obtain ⟨b, hb, hbe⟩ := mem_chainEntries.mp he
      exact h.mined_known e (mem_chainEntries.mpr ⟨b, List.mem_of_mem_drop hb, hbe⟩)
  · simp only [Node.withHead, List.mem_filter, decide_eq_true_eq] at ht
    exact ht.2

theorem nodeInv_step (h : step cfg σ ev = some σ') (hinv : NodeInv σ.node) : NodeInv σ'.node := by
  have hmoves := step_node h
  generalize σ'.node = node at hmoves
  cases hmoves with
  | keep => exact hinv
  | job _ hacc => exact hinv.accept hacc
  | sweep _ _ hacc => exact hinv.accept hacc
  | dvp _ hacc => exact hinv.accept hacc
  | drop tx => exact hinv.dropTx
  | head hpossible => exact hinv.withHead hpossible

theorem nodeInv_reach {C : State → Event → Prop} {base opening : ℕ}
    (h : RailReach cfg C base opening σ) : NodeInv σ.node := by
  refine h.invariant ?_ fun _ _ _ _ hI _ hs => nodeInv_step hs hI
  exact ⟨rfl, by simp [initial, Node.entries], by simp [initial], by simp [initial]⟩

theorem accepted_mono {a : Accepted} (h : step cfg σ ev = some σ') (ha : a ∈ σ.node.accepted) :
    a ∈ σ'.node.accepted := by
  have hmoves := step_node h
  generalize σ'.node = node at hmoves
  cases hmoves <;> first | exact ha | exact List.mem_append_left _ ha

end Rail
