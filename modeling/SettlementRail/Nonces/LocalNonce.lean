import SettlementRail.System.JobFlow
import SettlementRail.System.NodeMoves

/-! The relayer's next nonce. It follows the accepted broadcasts and the node's pending count,
so every nonce below it is mined or was accepted by a node at some time. -/

namespace Rail
open Foundation

def Node.Used (node : Node) (m : ℕ) : Prop := ∃ a ∈ node.accepted, a.tx.nonce = m

instance (node : Node) (m : ℕ) : Decidable (node.Used m) :=
  inferInstanceAs (Decidable (∃ _ ∈ _, _))

variable {cfg : Config} {σ σ' : State} {ev : Event} {node : Node} {m n : ℕ}

theorem contiguous_pooled {pool : List Tx} {fuel : ℕ} (hn : n ≤ m)
    (hm : m < Node.contiguous pool fuel n) : ∃ tx ∈ pool, tx.nonce = m := by
  induction fuel generalizing n with
  | zero => exact absurd hm (Nat.not_lt.mpr hn)
  | succ fuel ih =>
    rw [Node.contiguous] at hm
    split_ifs at hm with hpool
    · rcases Nat.eq_or_lt_of_le hn with rfl | hlt
      · exact hpool
      · exact ih hlt hm
    · exact absurd hm (Nat.not_lt.mpr hn)

theorem NodeInv.used_of_lt_pendingCount (h : NodeInv node) (hm : node.minedCount ≤ m)
    (hlt : m < node.pendingCount) : node.Used m := by
  obtain ⟨tx, htx, rfl⟩ := contiguous_pooled hm hlt
  obtain ⟨a, ha, rfl⟩ := h.pooled_known tx htx
  exact ⟨a, ha, rfl⟩

theorem NodeInv.used_of_mined (h : NodeInv node) (hbase : node.base ≤ m)
    (hlt : m < node.minedCount) : node.Used m := by
  obtain ⟨e, he, hnonce⟩ := h.sequential.number_mem_iff.mpr ⟨hbase, hlt⟩
  obtain ⟨a, ha, htx⟩ := h.mined_known e he
  exact ⟨a, ha, htx ▸ hnonce⟩

theorem used_mono (h : step cfg σ ev = some σ') (hm : σ.node.Used m) : σ'.node.Used m :=
  have ⟨a, ha, hnonce⟩ := hm
  ⟨a, accepted_mono h ha, hnonce⟩

theorem step_minedCount (h : step cfg σ ev = some σ') :
    σ'.node.minedCount = σ.node.minedCount ∨
      ∃ drop blocks, ev = .newHead drop blocks ∧ σ'.node = σ.node.withHead drop blocks := by
  have hmoves := step_node h
  generalize σ'.node = node at hmoves
  cases hmoves with
  | head => exact .inr ⟨_, _, rfl, rfl⟩
  | _ => exact .inl rfl

inductive LocalNonceMoves (σ : State) : Event → ℕ → Prop
  | keep {ev : Event} : LocalNonceMoves σ ev σ.relayer.localNonce
  | reset : LocalNonceMoves σ .crash 0
  | consume {id : SettlementId} {v : JobVars} (hworker : σ.relayer.worker = some (id, .broadcast v))
      (hnonce : v.nonce = σ.relayer.localNonce) :
      LocalNonceMoves σ (.job (.sent (.accepted none))) (σ.relayer.localNonce + 1)
  | refetch {ev : Event} (hev : ev = .job .counted ∨ ev = .recover .counted) :
      LocalNonceMoves σ ev σ.node.pendingCount

theorem localNonceMoves_job {id : SettlementId} {pc : JobPc} {e : JobEvent} {out : JobOut}
    (hworker : σ.relayer.worker = some (id, pc))
    (hout : jobStep cfg.relayer σ.db σ.node σ.now σ.relayer.localNonce σ.relayer.inflight id pc e
      = some out) : LocalNonceMoves σ (.job e) out.localNonce := by
  rcases jobStep_cases hout with ⟨pc', -, hmoves⟩ | ⟨-, hkeep, -⟩
  · generalize out.localNonce = localNonce at hmoves
    cases hmoves with
    | start | advance => exact .keep
    | sent v =>
      unfold consumeNonce
      split_ifs with hfresh
      · simp only [Bool.and_eq_true, decide_eq_true_eq] at hfresh
        exact .consume hworker hfresh.2
      · exact .keep
    | resync => exact .refetch (.inl rfl)
  · rw [hkeep]
    exact .keep

theorem localNonceMoves_recovery {e : RecoveryEvent} {out : RecoveryOut}
    (hout : recoveryStep σ.db σ.node σ.now σ.relayer.localNonce σ.relayer.inflight
      σ.relayer.recovery e = some out) : LocalNonceMoves σ (.recover e) out.localNonce := by
  unfold recoveryStep at hout
  split at hout
  case h_1 => cases hout; exact .refetch (.inr rfl)
  all_goals
    repeat' split at hout
    all_goals cases hout
    all_goals exact .keep

theorem step_localNonce (h : step cfg σ ev = some σ') :
    LocalNonceMoves σ ev σ'.relayer.localNonce := by
  cases stepsTo h with
  | @create i e call out =>
    simp only [State.afterCreate]
    rcases out.enqueue with _ | k
    · exact .keep
    · rw [Option.elim, Relayer.localNonce_enqueueId]
      exact .keep
  | job hworker hout =>
    have hmoves := localNonceMoves_job hworker hout
    simp only [State.afterJob]
    split_ifs
    · exact hmoves
    · rwa [Relayer.localNonce_runWorker]
  | @recover e out hout =>
    rw [State.afterRecovery, (Relayer.frame_foldl_enqueueId out.requeue).1]
    exact localNonceMoves_recovery hout
  | crash => exact .reset
  | _ => exact .keep

/-- No nonce is skipped: up to the local one each is mined or was used. -/
def State.NoneSkipped (σ : State) : Prop :=
  ∀ m, σ.node.minedCount ≤ m → m < σ.relayer.localNonce → σ.node.Used m

theorem noneSkipped_step (hnode : NodeInv σ.node) (hI : σ.NoneSkipped)
    (h : step cfg σ ev = some σ') : σ'.NoneSkipped := by
  intro m hmined hlt
  have hlocal := step_localNonce h
  rcases step_minedCount h with heq | ⟨drop, blocks, rfl, hhead⟩
  · rw [heq] at hmined
    generalize σ'.relayer.localNonce = localNonce at hlocal hlt
    cases hlocal with
    | keep => exact used_mono h (hI m hmined hlt)
    | reset => exact absurd hlt (Nat.not_lt_zero m)
    | refetch => exact used_mono h (hnode.used_of_lt_pendingCount hmined hlt)
    | @consume id v hworker hnonce =>
      rcases Nat.lt_succ_iff_lt_or_eq.mp hlt with hlt | rfl
      · exact used_mono h (hI m hmined hlt)
      · -- the nonce consumed in this step, with the transaction accepted in it
        have hnew : ⟨.settlement id, v.tx⟩ ∈ σ'.node.accepted := by
          cases stepsTo h with
          | job hw hout =>
            rw [hworker] at hw
            cases hw
            rw [jobStep] at hout
            split_ifs at hout
            cases hout
            exact List.mem_append_right _ (List.mem_singleton.mpr rfl)
        exact ⟨_, hnew, hnonce⟩
  · have hkeep : m < σ.relayer.localNonce := by
      generalize σ'.relayer.localNonce = localNonce at hlocal hlt
      cases hlocal with
      | keep => exact hlt
      | refetch hev => rcases hev with hev | hev <;> cases hev
    by_cases hm : σ.node.minedCount ≤ m
    · exact used_mono h (hI m hm hkeep)
    · -- a nonce that the new head takes back out of the chain
      have hbase : σ.node.base ≤ m := by
        rw [hhead] at hmined
        exact (Nat.le_add_right _ _).trans hmined
      exact used_mono h (hnode.used_of_mined hbase (Nat.lt_of_not_le hm))

theorem noneSkipped_reach {C : State → Event → Prop} {base opening : ℕ}
    (h : RailReach cfg C base opening σ) : σ.NoneSkipped := by
  refine h.invariant ?_ fun _ _ _ hr hI _ hs => noneSkipped_step (nodeInv_reach hr) hI hs
  intro m _ hlt
  exact absurd hlt (Nat.not_lt_zero m)

end Rail
