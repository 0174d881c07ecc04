import SettlementRail.Foundation.Deduplication
import SettlementRail.Outbox.AtLeastOnce

/-! Exactly-once processing by a consumer that does what the relay asks of it: drop an event
whose id it has seen. -/

namespace Rail.Outbox
open Foundation

variable {σ σ' ρ : Relay} {ev : RelayEvent} {es es' : List RelayEvent} {m : SettlementEvent}

def Relay.committed (σ : Relay) : List SettlementEvent := σ.rows.rows.map OutboxRow.settlementEvent

def Relay.processed (σ : Relay) : List SettlementEvent := firsts SettlementEvent.id σ.published

theorem publishedFirst_step (h : step σ ev = some σ') : σ.published <+: σ'.published := by
  cases step_spec h with
  | found | marked => simp [published_loop, Relay.setPublishedAt]
  | published | arrived => exact List.prefix_append _ _
  | commit | skipped | started | findThrew | publishThrew | markThrew | crashed | lateMarked =>
    exact List.prefix_rfl

theorem publishedFirst_reach (h : Reach step σ ρ) : σ.published <+: ρ.published :=
  h.invariant (I := fun ρ => σ.published <+: ρ.published) List.prefix_rfl
    fun _ _ _ _ hI _ hs => hI.trans (publishedFirst_step hs)

theorem mem_committed_of_keeps {row : OutboxRow} (h : Keeps row σ) :
    row.settlementEvent ∈ σ.committed := by
  obtain ⟨r, hr, heq, -⟩ := h
  exact List.mem_map.mpr ⟨r, hr, heq⟩

theorem committed_same (hno : ∀ row, ev ≠ .commit row) (h : step σ ev = some σ') :
    σ'.committed = σ.committed := by
  have hmark : ∀ (row : OutboxRow) (now : ℕ),
      (σ.setPublishedAt row now).committed = σ.committed := by
    intro row now
    rw [Relay.committed, Relay.setPublishedAt, Table.modify, List.map_map]
    refine List.map_congr_left fun r _ => ?_
    rw [Function.comp, Table.updateRow]
    split_ifs <;> rfl
  cases step_spec h with
  | commit => exact absurd rfl (hno _)
  | found => rw [Relay.committed, rows_loop, Relay.committed]
  | @marked i now row rest hpc =>
    rw [Relay.committed, rows_loop]
    exact hmark row now
  | lateMarked => exact hmark _ _
  | skipped | started | findThrew | published | publishThrew | markThrew | crashed | arrived => rfl

theorem committed_step (h : step σ ev = some σ') (hm : m ∈ σ.committed) : m ∈ σ'.committed := by
  obtain ⟨r, hr, rfl⟩ := List.mem_map.mp hm
  exact mem_committed_of_keeps (keeps_step h hr)

theorem published_committed (h : RunUnder step (fun _ _ => True) {} es σ) :
    σ.published ⊆ σ.committed := by
  induction h with
  | nil => exact List.nil_subset _
  | @snoc es σ σ' ev hrun _ hstep ih =>
    intro m hm
    -- what is new was sent from a row of the table
    by_cases hold : m ∈ σ.published
    · exact committed_step hstep (ih hold)
    · obtain ⟨i, row, rfl, hsends⟩ := sends_of_new hstep hm hold
      obtain ⟨rest, hpartway⟩ := (shipping_run hrun).partway hsends
      exact committed_step hstep (mem_committed_of_keeps hpartway.keeps)

theorem committed_ids_nodup (σ : Relay) : (σ.committed.map SettlementEvent.id).Nodup := by
  rw [Relay.committed, List.map_map]
  exact σ.rows.keys_nodup

theorem all_published (h : RunUnder step (fun _ _ => True) {} es σ) (hall : σ.unpublished = []) :
    σ.committed ⊆ σ.published := by
  intro m hm
  obtain ⟨r, hr, rfl⟩ := List.mem_map.mp hm
  refine (shipping_run h).marked r hr ?_
  by_contra hunmarked
  have hmem : r ∈ σ.unpublished :=
    List.mem_filter.mpr ⟨hr, by rwa [Option.isNone_iff_eq_none, ← Option.not_isSome_iff_eq_none]⟩
  rw [hall] at hmem
  cases hmem

/-- Whatever fails, crashes or arrives late: the consumer processes no event twice and nothing
that was not committed, never takes back what it did, and has processed every committed event
exactly once whenever no row is left to publish. -/
theorem deduplicated_exactly_once (h : RunUnder step (fun _ _ => True) {} es σ) :
    σ.processed.Subperm σ.committed ∧ (σ.unpublished = [] → σ.processed.Perm σ.committed) ∧
      ∀ es' ρ, RunUnder step (fun _ _ => True) σ es' ρ → σ.processed <+: ρ.processed := by
  have hsub := published_committed h
  refine ⟨firsts_subperm hsub, fun hall => ?_, fun es' ρ hrun => ?_⟩
  · exact firsts_perm (committed_ids_nodup σ) hsub (all_published h hall)
  · exact firsts_prefix (publishedFirst_reach hrun.reach)

/-- Both rows are sent, the older one twice. -/
theorem lost_mark_deduplicated : ∃ σ, RunUnder step (fun _ _ => True) {}
      (markLost ++ [.publish 2 true, .mark 2 9 true]) σ ∧
    σ.published.length = 3 ∧ σ.processed.Perm σ.committed := by
  obtain ⟨σ, hσ, hend⟩ := exists_runUnder_of_checkedRun step (fun _ _ => True) {}
    (markLost ++ [.publish 2 true, .mark 2 9 true])
    (fun σ => σ.published.length = 3 ∧ σ.unpublished = []) (by decide +kernel)
  obtain ⟨hthree, hall⟩ := of_decide_eq_true hend
  exact ⟨σ, hσ, hthree, (deduplicated_exactly_once hσ).2.1 hall⟩

end Rail.Outbox
