import SettlementRail.System.SweepFlow

/-! The rows that the sweep, the boot recovery and the listener carry from await to await. They
were read once, so they may be stale; a step only shortens the list or reads it afresh. -/

namespace Rail

variable {db : Db} {node : Node} {now : ℕ} {inflight : Inflight} {t s : Settlement}
variable {l rest : List Settlement}

theorem sweepStep_rows {cfg : RelayerConfig} {pc : SweepPc} {e : SweepEvent} {out : SweepOut}
    (hout : sweepStep cfg db node now inflight pc e = some out)
    (ht : t ∈ SweepPc.rowsOf out.pc) : t ∈ pc.rows ∨ t ∈ db.findByStatuses [.submitted] := by
  rcases (sweepStep_goes hout).sublist with hsub | ⟨-, hsub⟩
  · exact .inl (hsub.subset ht)
  · exact .inr (hsub.subset ht)

theorem sweepNext_ne_recordResend {tx : Tx} : sweepNext l ≠ some (.recordResend s rest tx) := by
  rcases sweepNext_cases l with heq | ⟨t, l', heq⟩ <;> simp [heq]

theorem sweepStep_recordResend {cfg : RelayerConfig} {pc : SweepPc} {e : SweepEvent}
    {out : SweepOut} {tx : Tx} (hout : sweepStep cfg db node now inflight pc e = some out)
    (hpc : out.pc = some (.recordResend s rest tx)) :
    out.node = .accept (.settlement s.id) tx := by
  have hgoes := sweepStep_goes hout
  rw [hpc] at hgoes
  generalize hnext : some (SweepPc.recordResend s rest tx) = pc' at hgoes
  cases hgoes with
  | sent hunits =>
    cases hnext
    simp only [sweepStep, hunits] at hout
    split_ifs at hout
    cases hout
    rfl
  | found | skip | recorded | leave => exact absurd hnext.symm sweepNext_ne_recordResend
  | failed t l reason retryCount o =>
    rcases afterFail_cases l o with heq | heq <;> rw [heq] at hnext
    · cases hnext
    · exact absurd hnext.symm sweepNext_ne_recordResend
  | _ => cases hnext

def RecoveryPc.rows : RecoveryPc → List Settlement
  | .fetchNonce | .find | .done => []
  | .receipt s rest | .fail s rest | .getTransaction s rest => s :: rest

theorem mem_rows_recoveryNext (h : t ∈ (recoveryNext l).1.rows) : t ∈ l := by
  induction l with
  | nil => exact h
  | cons s rest ih =>
    unfold recoveryNext at h
    split_ifs at h
    · exact h
    · exact List.mem_cons_of_mem _ (ih h)

theorem mem_requeue_recoveryNext {id : SettlementId} (h : id ∈ (recoveryNext l).2) :
    ∃ t ∈ l, t.id = id := by
  induction l with
  | nil => cases h
  | cons s rest ih =>
    unfold recoveryNext at h
    split_ifs at h
    · cases h
    · rcases List.mem_cons.mp h with rfl | h
      · exact ⟨s, List.mem_cons_self, rfl⟩
      · obtain ⟨t, ht, hid⟩ := ih h
        exact ⟨t, List.mem_cons_of_mem _ ht, hid⟩

/-- The rows left and the rows re-queued are rows carried before, or read by this step. -/
theorem recoveryStep_rows {localNonce : ℕ} {pc : RecoveryPc} {e : RecoveryEvent}
    {out : RecoveryOut} (hout : recoveryStep db node now localNonce inflight pc e = some out) :
    (∀ t ∈ out.pc.rows, t ∈ pc.rows ∨ t ∈ db.findByStatuses [.submitted]) ∧
      ∀ id ∈ out.requeue, ∃ t, (t ∈ pc.rows ∨ t ∈ db.findByStatuses [.submitted]) ∧ t.id = id := by
  cases pc <;> cases e <;> simp only [recoveryStep, reduceCtorEq] at hout
  case fetchNonce.counted => cases hout; simp [RecoveryPc.rows]
  case find.found =>
    cases hout
    refine ⟨fun t ht => .inr (mem_rows_recoveryNext ht), fun id hid => ?_⟩
    obtain ⟨t, ht, rfl⟩ := mem_requeue_recoveryNext hid
    exact ⟨t, .inr ht, rfl⟩
  case receipt.receipt s rest =>
    split at hout
    · split_ifs at hout <;> cases hout
      · refine ⟨fun t ht => .inl (List.mem_cons_of_mem _ (mem_rows_recoveryNext ht)),
          fun id hid => ?_⟩
        obtain ⟨t, ht, rfl⟩ := mem_requeue_recoveryNext hid
        exact ⟨t, .inl (List.mem_cons_of_mem _ ht), rfl⟩
      · exact ⟨fun t ht => .inl ht, nofun⟩
    · cases hout
      exact ⟨fun t ht => .inl ht, nofun⟩
  case fail.written s rest =>
    split_ifs at hout
    cases hout
    refine ⟨fun t ht => .inl (List.mem_cons_of_mem _ (mem_rows_recoveryNext ht)), fun id hid => ?_⟩
    obtain ⟨t, ht, rfl⟩ := mem_requeue_recoveryNext hid
    exact ⟨t, .inl (List.mem_cons_of_mem _ ht), rfl⟩
  case getTransaction.txLookup s rest =>
    split at hout <;> cases hout
    · refine ⟨fun t ht => .inl (List.mem_cons_of_mem _ (mem_rows_recoveryNext ht)), fun id hid => ?_⟩
      obtain ⟨t, ht, rfl⟩ := mem_requeue_recoveryNext hid
      exact ⟨t, .inl (List.mem_cons_of_mem _ ht), rfl⟩
    · refine ⟨fun t ht => .inl (List.mem_cons_of_mem _ (mem_rows_recoveryNext ht)), fun id hid => ?_⟩
      rcases List.mem_cons.mp hid with rfl | hid
      · exact ⟨s, .inl List.mem_cons_self, rfl⟩
      · obtain ⟨t, ht, rfl⟩ := mem_requeue_recoveryNext hid
        exact ⟨t, .inl (List.mem_cons_of_mem _ ht), rfl⟩

def ListenPc.rows : ListenPc → List Settlement
  | .pollFind | .eventFind _ | .done => []
  | .pollHead opened => opened
  | .eventHead s => [s]
  | .receipt s _ rest | .revert s _ rest | .reorg s _ rest | .confirm s _ _ rest
  | .book s _ _ rest | .flip s _ _ rest => s :: rest

theorem mem_rows_listenNext {head : ℕ} (h : t ∈ (listenNext head l).rows) : t ∈ l := by
  induction l with
  | nil => exact h
  | cons s rest ih =>
    unfold listenNext at h
    split_ifs at h
    · exact h
    · exact List.mem_cons_of_mem _ (ih h)

theorem mem_rows_afterWrite {pc : ListenPc} {o : DbOutcome Unit}
    (h : t ∈ (afterWrite pc o).rows) : t ∈ pc.rows := by
  cases o with
  | ok => exact h
  | lost | ambiguous => cases h

theorem mem_rows_writeNext {head : ℕ} {o : DbOutcome Unit}
    (h : t ∈ (afterWrite (listenNext head rest) o).rows) : t ∈ s :: rest :=
  List.mem_cons_of_mem _ (mem_rows_listenNext (mem_rows_afterWrite h))

theorem listenStep_rows {cfg : ListenerConfig} {pc : ListenPc} {e : ListenEvent} {out : ListenOut}
    (hout : listenStep cfg db node now pc e = some out) (ht : t ∈ out.pc.rows) :
    t ∈ pc.rows ∨ t ∈ db.findByStatuses [.submitted, .confirmed] := by
  cases pc <;> cases e <;> simp only [listenStep, reduceCtorEq] at hout
  case pollFind.found =>
    split at hout <;> cases hout
    · cases ht
    · rename_i hl
      exact .inr (hl ▸ ht)
  case eventFind.found txHash =>
    split at hout
    · cases hout
      cases ht
    · rename_i s hs
      split_ifs at hout with hstatus <;> cases hout
      · rw [ListenPc.rows, List.mem_singleton] at ht
        subst ht
        exact .inr (Db.mem_findByStatuses.mpr ⟨(Db.findByTxHash_some hs).1, by simpa using hstatus⟩)
      · cases ht
  case pollHead.headRead => cases hout; exact .inl (mem_rows_listenNext ht)
  case eventHead.headRead => cases hout; exact .inl (mem_rows_listenNext ht)
  case receipt.receipt s head rest =>
    cases hout
    unfold afterReceipt at ht
    split at ht
    · exact .inl (List.mem_cons_of_mem _ (mem_rows_listenNext ht))
    all_goals exact .inl ht
  case book.written s receipt head rest outcome =>
    split_ifs at hout
    cases hout
    exact .inl (@mem_rows_afterWrite t (.flip s receipt head rest) outcome ht)
  case revert.written =>
    split_ifs at hout
    cases hout
    exact .inl (mem_rows_writeNext ht)
  case reorg.written =>
    split_ifs at hout
    cases hout
    exact .inl (mem_rows_writeNext ht)
  case confirm.written =>
    split_ifs at hout
    cases hout
    exact .inl (mem_rows_writeNext ht)
  case flip.written =>
    split_ifs at hout
    cases hout
    exact .inl (mem_rows_writeNext ht)
  all_goals cases hout; cases ht

theorem listenNext_ne_flip {receipt : Receipt} {head k : ℕ} :
    listenNext k l ≠ .flip s receipt head rest := by
  induction l with
  | nil => exact nofun
  | cons t l ih =>
    unfold listenNext
    split_ifs
    · simp
    · exact ih

theorem afterWrite_next_ne_flip {o : DbOutcome Unit} {receipt : Receipt} {head k : ℕ} :
    afterWrite (listenNext k l) o ≠ .flip s receipt head rest := by
  cases o with
  | ok => exact listenNext_ne_flip
  | lost | ambiguous => exact nofun

theorem listenStep_flip {cfg : ListenerConfig} {pc : ListenPc} {e : ListenEvent} {out : ListenOut}
    {receipt : Receipt} {head : ℕ} (hout : listenStep cfg db node now pc e = some out)
    (hpc : out.pc = .flip s receipt head rest) :
    pc = .book s receipt head rest ∧ e = .written .ok := by
  cases pc <;> cases e <;> simp only [listenStep, reduceCtorEq] at hout
  case book.written outcome =>
    split_ifs at hout
    cases hout
    cases outcome <;> cases hpc
    exact ⟨rfl, rfl⟩
  case receipt.receipt =>
    cases hout
    unfold afterReceipt at hpc
    split at hpc
    · exact absurd hpc listenNext_ne_flip
    all_goals cases hpc
  case pollFind.found => split at hout <;> cases hout <;> cases hpc
  case eventFind.found =>
    split at hout
    · cases hout
      cases hpc
    · split_ifs at hout <;> cases hout <;> cases hpc
  case pollHead.headRead => cases hout; exact absurd hpc listenNext_ne_flip
  case eventHead.headRead => cases hout; exact absurd hpc listenNext_ne_flip
  case revert.written | reorg.written | confirm.written | flip.written =>
    split_ifs at hout
    cases hout
    exact absurd hpc afterWrite_next_ne_flip
  all_goals cases hout; cases hpc

end Rail
