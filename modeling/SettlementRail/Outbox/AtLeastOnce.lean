import SettlementRail.Foundation.ThreadPool
import SettlementRail.Model.OutboxRelay

/-! At-least-once delivery in order of age: a row is marked only after it was published, no row
is lost, and a row is published only after every older one that its batch could have had. -/

namespace Rail.Outbox
open Foundation

variable {σ₀ σ σ' ρ ρ' : Relay} {ev : RelayEvent} {es es' : List RelayEvent} {i : ℕ}
variable {row r : OutboxRow} {rest batch order : List OutboxRow} {pc : RelayPc}

def RelayPc.next : List OutboxRow → RelayPc
  | [] => .done
  | row :: rest => .publish row rest

@[simp] theorem ticks_loop : (σ.loop i rest).ticks = σ.ticks.set i (.next rest) := by
  cases rest <;> rfl

@[simp] theorem rows_loop : (σ.loop i rest).rows = σ.rows := by cases rest <;> rfl

@[simp] theorem published_loop : (σ.loop i rest).published = σ.published := by cases rest <;> rfl

@[simp] theorem unanswered_loop : (σ.loop i rest).unanswered = σ.unanswered := by cases rest <;> rfl

@[simp] theorem lateMarks_loop : (σ.loop i rest).lateMarks = σ.lateMarks := by cases rest <;> rfl

inductive Steps (σ : Relay) : RelayEvent → Relay → Prop
  | commit {row : OutboxRow} {rows : Table ℕ OutboxRow OutboxRow.id}
      (hnew : row.publishedAt = none) (hinsert : σ.rows.insert? row = some rows) :
      Steps σ (.commit row) { σ with rows }
  | skipped : Steps σ .tick { σ with ticks := σ.ticks ++ [.done] }
  | started : Steps σ .tick { σ with running := true, ticks := σ.ticks ++ [.find] }
  | found {i : ℕ} {order : List OutboxRow} (hperm : order.Perm σ.unpublished)
      (hsorted : order.Pairwise fun r r' => r.createdAt ≤ r'.createdAt) :
      Steps σ (.find i order) (σ.loop i (order.take batchSize))
  | findThrew {i : ℕ} : Steps σ (.findThrows i) (σ.finish i)
  | published {i : ℕ} {row : OutboxRow} {rest : List OutboxRow}
      (hpc : σ.ticks[i]? = some (.publish row rest)) :
      Steps σ (.publish i true)
        { σ with
          ticks := σ.ticks.set i (.mark row rest)
          published := σ.published ++ [row.settlementEvent] }
  | publishThrew {i : ℕ} {row : OutboxRow} {rest : List OutboxRow}
      (hpc : σ.ticks[i]? = some (.publish row rest)) :
      Steps σ (.publish i false)
        { σ.finish i with unanswered := σ.unanswered ++ [(i, row)] }
  | marked {i now : ℕ} {row : OutboxRow} {rest : List OutboxRow}
      (hpc : σ.ticks[i]? = some (.mark row rest)) :
      Steps σ (.mark i now true) ((σ.setPublishedAt row now).loop i rest)
  | markThrew {i now : ℕ} {row : OutboxRow} {rest : List OutboxRow}
      (hpc : σ.ticks[i]? = some (.mark row rest)) :
      Steps σ (.mark i now false) { σ.finish i with lateMarks := σ.lateMarks ++ [row] }
  | crashed : Steps σ .crash σ.crashed
  | arrived {j i : ℕ} {row : OutboxRow} (hj : σ.unanswered[j]? = some (i, row)) :
      Steps σ (.arrives j) { σ with published := σ.published ++ [row.settlementEvent] }
  | lateMarked {j now : ℕ} {row : OutboxRow} (hj : σ.lateMarks[j]? = some row) :
      Steps σ (.lateMark j now) (σ.setPublishedAt row now)

theorem step_spec (h : step σ ev = some σ') : Steps σ ev σ' := by
  cases ev with
  | commit row =>
    simp only [step, Option.isNone_iff_eq_none] at h
    split_ifs at h with hnew
    obtain ⟨rows, hinsert, rfl⟩ := Option.map_eq_some_iff.mp h
    exact .commit hnew hinsert
  | tick =>
    simp only [step] at h
    split_ifs at h
    · exact Option.some.inj h ▸ .skipped
    · exact Option.some.inj h ▸ .started
  | find i order =>
    simp only [step] at h
    split_ifs at h with hfind
    exact Option.some.inj h ▸ .found hfind.2.1 hfind.2.2
  | findThrows i =>
    simp only [step] at h
    split_ifs at h
    exact Option.some.inj h ▸ .findThrew
  | publish i ok =>
    simp only [step] at h
    split at h
    · rename_i row rest hpc
      cases ok with
      | true => exact Option.some.inj h ▸ .published hpc
      | false => exact Option.some.inj h ▸ .publishThrew hpc
    · cases h
  | mark i now ok =>
    simp only [step] at h
    split at h
    · rename_i row rest hpc
      cases ok with
      | true => exact Option.some.inj h ▸ .marked hpc
      | false => exact Option.some.inj h ▸ .markThrew hpc
    · cases h
  | crash => exact Option.some.inj h ▸ .crashed
  | arrives j =>
    obtain ⟨⟨i, row⟩, hj, rfl⟩ := Option.map_eq_some_iff.mp h
    exact .arrived hj
  | lateMark j now =>
    obtain ⟨row, hj, rfl⟩ := Option.map_eq_some_iff.mp h
    exact .lateMarked hj

/-- The row `r` is in the table, as it was or marked since. -/
def Keeps (r : OutboxRow) (σ : Relay) : Prop :=
  ∃ r' ∈ σ.rows.rows, r'.settlementEvent = r.settlementEvent ∧
    (r.publishedAt.isSome → r'.publishedAt.isSome)

theorem mem_setPublishedAt {now : ℕ} (h : r ∈ (σ.setPublishedAt row now).rows.rows) :
    r ∈ σ.rows.rows ∨ r.id = row.id ∧ ∃ r₀ ∈ σ.rows.rows, r₀.settlementEvent = r.settlementEvent := by
  obtain ⟨r₀, hr₀, rfl⟩ := List.mem_map.mp h
  unfold Table.updateRow
  split_ifs with hid
  · exact .inr ⟨hid, r₀, hr₀, rfl⟩
  · exact .inl hr₀

theorem keeps_setPublishedAt {now : ℕ} (h : r ∈ σ.rows.rows) :
    Keeps r (σ.setPublishedAt row now) := by
  refine ⟨_, List.mem_map_of_mem h, ?_⟩
  unfold Table.updateRow
  split_ifs with hid
  · exact ⟨rfl, fun _ => rfl⟩
  · exact ⟨rfl, id⟩

theorem keeps_step (h : step σ ev = some σ') (hr : r ∈ σ.rows.rows) : Keeps r σ' := by
  have hsame : σ'.rows = σ.rows → Keeps r σ' := fun heq => ⟨r, heq ▸ hr, rfl, id⟩
  cases step_spec h with
  | commit _ hinsert =>
    refine ⟨r, ?_, rfl, id⟩
    rw [(Table.insert?_eq_some hinsert).2]
    exact List.mem_append_left _ hr
  | found => exact hsame rows_loop
  | marked =>
    obtain ⟨r', hr', hkept⟩ := @keeps_setPublishedAt σ _ r _ hr
    refine ⟨r', ?_, hkept⟩
    rwa [rows_loop]
  | lateMarked => exact keeps_setPublishedAt hr
  | skipped | started | findThrew | published | publishThrew | markThrew | crashed | arrived =>
    exact hsame rfl

theorem Keeps.step (h : Keeps r σ) (hstep : Outbox.step σ ev = some σ') : Keeps r σ' := by
  obtain ⟨r₁, hr₁, heq₁, hmark₁⟩ := h
  obtain ⟨r₂, hr₂, heq₂, hmark₂⟩ := keeps_step hstep hr₁
  exact ⟨r₂, hr₂, heq₂.trans heq₁, fun h => hmark₂ (hmark₁ h)⟩

theorem keeps_reach (h : Reach step σ σ') (hr : r ∈ σ.rows.rows) : Keeps r σ' :=
  h.invariant (I := Keeps r) ⟨r, hr, rfl, id⟩ fun _ _ _ _ hI _ hstep => hI.step hstep

theorem event_of_setPublishedAt {now : ℕ} (hrow : Keeps row σ)
    (h : r ∈ (σ.setPublishedAt row now).rows.rows) :
    r ∈ σ.rows.rows ∨ r.settlementEvent = row.settlementEvent := by
  rcases mem_setPublishedAt h with hold | ⟨hid, r₀, hr₀, heq⟩
  · exact .inl hold
  · obtain ⟨r₁, hr₁, heq₁, -⟩ := hrow
    have hid₁ : r₁.id = row.id := congrArg SettlementEvent.id heq₁
    have hid₀ : r₀.id = r.id := congrArg SettlementEvent.id heq
    have hsame : r₀ = r₁ := List.inj_on_of_nodup_map σ.rows.keys_nodup hr₀ hr₁
      (hid₀.trans (hid.trans hid₁.symm))
    exact .inr (heq.symm.trans (hsame ▸ heq₁))

theorem published_step (h : step σ ev = some σ') : σ.published ⊆ σ'.published := by
  cases step_spec h with
  | found | marked =>
    rw [published_loop]
    exact List.Subset.refl _
  | published | arrived => exact List.subset_append_left _ _
  | commit | skipped | started | findThrew | publishThrew | markThrew | crashed | lateMarked =>
    exact List.Subset.refl _

theorem published_reach (h : Reach step σ σ') : σ.published ⊆ σ'.published :=
  h.invariant (I := fun ρ => σ.published ⊆ ρ.published) (List.Subset.refl _)
    fun _ _ _ _ hI _ hstep => List.Subset.trans hI (published_step hstep)

inductive TickFrom (σ : Relay) (i : ℕ) (pc : RelayPc) : RelayEvent → Relay → Prop
  | same {ev : RelayEvent} {σ' : Relay} (h : σ.ticks[i]? = some pc) : TickFrom σ i pc ev σ'
  | idle {ev : RelayEvent} {σ' : Relay} (h : pc = .find ∨ pc = .done) : TickFrom σ i pc ev σ'
  | found {order : List OutboxRow} {σ' : Relay} (hperm : order.Perm σ.unpublished)
      (hsorted : order.Pairwise fun r r' => r.createdAt ≤ r'.createdAt)
      (hpc : pc = .next (order.take batchSize)) : TickFrom σ i pc (.find i order) σ'
  | published {row : OutboxRow} {rest : List OutboxRow} {σ' : Relay}
      (hold : σ.ticks[i]? = some (.publish row rest)) (hpc : pc = .mark row rest)
      (hpublished : row.settlementEvent ∈ σ'.published) : TickFrom σ i pc (.publish i true) σ'
  | marked {row : OutboxRow} {rest : List OutboxRow} {now : ℕ} {σ' : Relay}
      (hold : σ.ticks[i]? = some (.mark row rest)) (hpc : pc = .next rest) :
      TickFrom σ i pc (.mark i now true) σ'

theorem tickFrom_step (h : step σ ev = some σ') (hpc : σ'.ticks[i]? = some pc) :
    TickFrom σ i pc ev σ' := by
  cases step_spec h with
  | commit | arrived | lateMarked => exact .same hpc
  | skipped =>
    rcases getElem?_snoc_cases hpc with ⟨-, heq⟩ | ⟨-, hold⟩
    · exact .idle (.inr heq)
    · exact .same hold
  | started =>
    rcases getElem?_snoc_cases hpc with ⟨-, heq⟩ | ⟨-, hold⟩
    · exact .idle (.inl heq)
    · exact .same hold
  | found hperm hsorted =>
    rw [ticks_loop] at hpc
    rcases getElem?_set_cases hpc with ⟨rfl, heq⟩ | ⟨-, hold⟩
    · exact .found hperm hsorted heq
    · exact .same hold
  | findThrew | publishThrew | markThrew =>
    rcases getElem?_set_cases hpc with ⟨-, heq⟩ | ⟨-, hold⟩
    · exact .idle (.inr heq)
    · exact .same hold
  | published hold =>
    rcases getElem?_set_cases hpc with ⟨rfl, heq⟩ | ⟨-, hsame⟩
    · exact .published hold heq (List.mem_append_right _ List.mem_cons_self)
    · exact .same hsame
  | marked hold =>
    rw [ticks_loop] at hpc
    rcases getElem?_set_cases hpc with ⟨rfl, heq⟩ | ⟨-, hsame⟩
    · exact .marked hold heq
    · exact .same hsame
  | crashed =>
    rw [Relay.crashed, List.getElem?_map] at hpc
    obtain ⟨_, -, rfl⟩ := Option.map_eq_some_iff.mp hpc
    exact .idle (.inr rfl)

def ReadAt (σ₀ : Relay) (es : List RelayEvent) (σ : Relay) (i : ℕ) (ρ : Relay)
    (order : List OutboxRow) : Prop :=
  ∃ es₁ es₂ ρ', es = es₁ ++ .find i order :: es₂ ∧ RunUnder step (fun _ _ => True) σ₀ es₁ ρ ∧
    step ρ (.find i order) = some ρ' ∧ RunUnder step (fun _ _ => True) ρ' es₂ σ

/-- Tick `i` has come to `row` in its batch: everything before it has been published. -/
def Partway (σ₀ : Relay) (es : List RelayEvent) (σ : Relay) (i : ℕ) (row : OutboxRow)
    (rest : List OutboxRow) : Prop :=
  ∃ ρ order sent, ReadAt σ₀ es σ i ρ order ∧ order.take batchSize = sent ++ row :: rest ∧
    ∀ q ∈ sent, q.settlementEvent ∈ σ.published

theorem ReadAt.snoc (h : ReadAt σ₀ es σ i ρ order) (hstep : step σ ev = some σ') :
    ReadAt σ₀ (es ++ [ev]) σ' i ρ order := by
  obtain ⟨es₁, es₂, ρ', rfl, h₁, hread, h₂⟩ := h
  refine ⟨es₁, es₂ ++ [ev], ρ', ?_, h₁, hread, h₂.snoc trivial hstep⟩
  rw [List.append_assoc, List.cons_append]

theorem Partway.snoc (h : Partway σ₀ es σ i row rest) (hstep : step σ ev = some σ') :
    Partway σ₀ (es ++ [ev]) σ' i row rest := by
  obtain ⟨ρ, order, sent, hread, hbatch, hsent⟩ := h
  exact ⟨ρ, order, sent, hread.snoc hstep, hbatch,
    fun q hq => published_step hstep (hsent q hq)⟩

theorem Partway.keeps (h : Partway σ₀ es σ i row rest) : Keeps row σ := by
  obtain ⟨ρ, order, sent, ⟨es₁, es₂, ρ', -, -, hread, h₂⟩, hbatch, -⟩ := h
  have hmem : row ∈ order := by
    refine List.mem_of_mem_take (i := batchSize) ?_
    rw [hbatch]
    exact List.mem_append_right _ List.mem_cons_self
  have hrow : row ∈ ρ.rows.rows := by
    cases step_spec hread with
    | found hperm _ => exact (List.mem_filter.mp (hperm.mem_iff.mp hmem)).1
  exact keeps_reach (ReachUnder.tail .refl trivial hread |>.trans h₂.reach) hrow

structure Shipping (σ₀ : Relay) (es : List RelayEvent) (σ : Relay) : Prop where
  publishing : ∀ i row rest, σ.ticks[i]? = some (.publish row rest) → Partway σ₀ es σ i row rest
  marking : ∀ i row rest, σ.ticks[i]? = some (.mark row rest) →
    Partway σ₀ es σ i row rest ∧ row.settlementEvent ∈ σ.published
  unanswered : ∀ i row, (i, row) ∈ σ.unanswered → ∃ rest, Partway σ₀ es σ i row rest
  lateMarks : ∀ row ∈ σ.lateMarks, Keeps row σ ∧ row.settlementEvent ∈ σ.published
  marked : ∀ r ∈ σ.rows.rows, r.publishedAt.isSome → r.settlementEvent ∈ σ.published

theorem next_eq_publish (h : RelayPc.publish row rest = .next batch) : batch = row :: rest := by
  cases batch with
  | nil => cases h
  | cons q qs => cases h; rfl

theorem next_ne_mark (h : RelayPc.mark row rest = .next batch) : False := by
  cases batch <;> cases h

theorem Shipping.publishing_step (hI : Shipping σ₀ es σ)
    (hrun : RunUnder step (fun _ _ => True) σ₀ es σ) (hstep : step σ ev = some σ')
    (hpc : σ'.ticks[i]? = some (.publish row rest)) :
    Partway σ₀ (es ++ [ev]) σ' i row rest := by
  cases tickFrom_step hstep hpc with
  | same hold => exact (hI.publishing i row rest hold).snoc hstep
  | idle h => exact absurd h nofun
  | @found order _ _ _ hnext =>
    have hread : ReadAt σ₀ (es ++ [.find i order]) σ' i σ order :=
      ⟨es, [], σ', rfl, hrun, hstep, .nil⟩
    exact ⟨σ, order, [], hread, next_eq_publish hnext, fun _ hq => absurd hq List.not_mem_nil⟩
  | published _ hmark _ => cases hmark
  | @marked row₀ rest₀ now _ hold hnext =>
    obtain rfl := next_eq_publish hnext
    obtain ⟨hpartway, hpublished⟩ := hI.marking i row₀ _ hold
    obtain ⟨ρ, order, sent, hread, hbatch, hsent⟩ := hpartway.snoc hstep
    refine ⟨ρ, order, sent ++ [row₀], hread, ?_, ?_⟩
    · rw [hbatch, List.append_assoc, List.cons_append, List.nil_append]
    · intro q hq
      rcases List.mem_append.mp hq with hq | hq
      · exact hsent q hq
      · rw [List.mem_singleton.mp hq]
        exact published_step hstep hpublished

theorem Shipping.marking_step (hI : Shipping σ₀ es σ) (hstep : step σ ev = some σ')
    (hpc : σ'.ticks[i]? = some (.mark row rest)) :
    Partway σ₀ (es ++ [ev]) σ' i row rest ∧ row.settlementEvent ∈ σ'.published := by
  cases tickFrom_step hstep hpc with
  | same hold =>
    obtain ⟨hpartway, hpublished⟩ := hI.marking i row rest hold
    exact ⟨hpartway.snoc hstep, published_step hstep hpublished⟩
  | idle h => exact absurd h nofun
  | found _ _ hnext => exact absurd hnext fun h => next_ne_mark h
  | published hold hmark hpublished =>
    cases hmark
    exact ⟨(hI.publishing i _ _ hold).snoc hstep, hpublished⟩
  | marked _ hnext => exact absurd hnext fun h => next_ne_mark h

theorem Shipping.unanswered_step (hI : Shipping σ₀ es σ) (hstep : step σ ev = some σ')
    (hmem : (i, row) ∈ σ'.unanswered) : ∃ rest, Partway σ₀ (es ++ [ev]) σ' i row rest := by
  have hkept : (i, row) ∈ σ.unanswered → ∃ rest, Partway σ₀ (es ++ [ev]) σ' i row rest :=
    fun h => (hI.unanswered i row h).imp fun _ hpartway => hpartway.snoc hstep
  have hsent : ∀ rest : List OutboxRow, σ.ticks[i]? = some (.publish row rest) →
      ∃ rest, Partway σ₀ (es ++ [ev]) σ' i row rest :=
    fun rest h => ⟨rest, (hI.publishing i row rest h).snoc hstep⟩
  cases step_spec hstep with
  | found | marked =>
    rw [unanswered_loop] at hmem
    exact hkept hmem
  | publishThrew hpc =>
    rcases List.mem_append.mp hmem with hold | hnew
    · exact hkept hold
    · obtain ⟨rfl, rfl⟩ := Prod.mk.inj (List.mem_singleton.mp hnew)
      exact hsent _ hpc
  | crashed =>
    rcases List.mem_append.mp hmem with hold | hnew
    · exact hkept hold
    · obtain ⟨⟨pc, k⟩, hpc, heq⟩ := List.mem_filterMap.mp hnew
      simp only at heq
      split at heq
      · rename_i row' rest
        obtain ⟨rfl, rfl⟩ := Prod.mk.inj (Option.some.inj heq)
        exact hsent rest (List.mem_zipIdx_iff_getElem?.mp hpc)
      · cases heq
  | commit | skipped | started | findThrew | published | markThrew | arrived | lateMarked =>
    exact hkept hmem

theorem Shipping.lateMarks_step (hI : Shipping σ₀ es σ) (hstep : step σ ev = some σ')
    (hmem : row ∈ σ'.lateMarks) : Keeps row σ' ∧ row.settlementEvent ∈ σ'.published := by
  have hkept : Keeps row σ ∧ row.settlementEvent ∈ σ.published →
      Keeps row σ' ∧ row.settlementEvent ∈ σ'.published :=
    fun h => ⟨h.1.step hstep, published_step hstep h.2⟩
  have hsent : ∀ (i : ℕ) (rest : List OutboxRow), σ.ticks[i]? = some (.mark row rest) →
      Keeps row σ' ∧ row.settlementEvent ∈ σ'.published :=
    fun i rest h => hkept ((hI.marking i row rest h).imp_left Partway.keeps)
  cases step_spec hstep with
  | found | marked =>
    rw [lateMarks_loop] at hmem
    exact hkept (hI.lateMarks row hmem)
  | markThrew hpc =>
    rcases List.mem_append.mp hmem with hold | hnew
    · exact hkept (hI.lateMarks row hold)
    · obtain rfl := List.mem_singleton.mp hnew
      exact hsent _ _ hpc
  | crashed =>
    rcases List.mem_append.mp hmem with hold | hnew
    · exact hkept (hI.lateMarks row hold)
    · obtain ⟨pc, hpc, heq⟩ := List.mem_filterMap.mp hnew
      split at heq
      · rename_i row' rest
        obtain rfl := Option.some.inj heq
        obtain ⟨k, hk⟩ := List.mem_iff_getElem?.mp hpc
        exact hsent k rest hk
      · cases heq
  | commit | skipped | started | findThrew | published | publishThrew | arrived | lateMarked =>
    exact hkept (hI.lateMarks row hmem)

theorem Shipping.marked_step (hI : Shipping σ₀ es σ) (hstep : step σ ev = some σ')
    (hmem : r ∈ σ'.rows.rows) (hmark : r.publishedAt.isSome) :
    r.settlementEvent ∈ σ'.published := by
  have hold : r ∈ σ.rows.rows → r.settlementEvent ∈ σ'.published :=
    fun h => published_step hstep (hI.marked r h hmark)
  have hset : ∀ row now, Keeps row σ → row.settlementEvent ∈ σ.published →
      r ∈ (σ.setPublishedAt row now).rows.rows → r.settlementEvent ∈ σ'.published := by
    intro row now hkeeps hpublished hr
    rcases event_of_setPublishedAt hkeeps hr with hr | heq
    · exact hold hr
    · rw [heq]
      exact published_step hstep hpublished
  cases step_spec hstep with
  | commit hnew hinsert =>
    rw [(Table.insert?_eq_some hinsert).2] at hmem
    rcases List.mem_append.mp hmem with hr | hr
    · exact hold hr
    · rw [List.mem_singleton.mp hr, hnew] at hmark
      cases hmark
  | found =>
    rw [rows_loop] at hmem
    exact hold hmem
  | @marked i now row rest hpc =>
    rw [rows_loop] at hmem
    obtain ⟨hpartway, hpublished⟩ := hI.marking i row rest hpc
    exact hset row now hpartway.keeps hpublished hmem
  | @lateMarked j now row hj =>
    obtain ⟨hkeeps, hpublished⟩ := hI.lateMarks row (List.mem_of_getElem? hj)
    exact hset row now hkeeps hpublished hmem
  | skipped | started | findThrew | published | publishThrew | markThrew | crashed | arrived =>
    exact hold hmem

theorem shipping_run (h : RunUnder step (fun _ _ => True) {} es σ) : Shipping {} es σ := by
  induction h with
  | nil => exact ⟨nofun, nofun, nofun, nofun, nofun⟩
  | snoc hrun _ hstep ih =>
    exact {
      publishing := fun _ _ _ hpc => ih.publishing_step hrun hstep hpc
      marking := fun _ _ _ hpc => ih.marking_step hstep hpc
      unanswered := fun _ _ hmem => ih.unanswered_step hstep hmem
      lateMarks := fun _ hmem => ih.lateMarks_step hstep hmem
      marked := fun _ hmem hmark => ih.marked_step hstep hmem hmark }

def Sends (σ : Relay) (i : ℕ) (row : OutboxRow) (ev : RelayEvent) : Prop :=
  (ev = .publish i true ∧ ∃ rest, σ.ticks[i]? = some (.publish row rest)) ∨
    ∃ j, ev = .arrives j ∧ σ.unanswered[j]? = some (i, row)

theorem sends_of_new {m : SettlementEvent} (h : step σ ev = some σ') (hm : m ∈ σ'.published)
    (hnew : m ∉ σ.published) : ∃ i row, row.settlementEvent = m ∧ Sends σ i row ev := by
  cases step_spec h with
  | found | marked =>
    rw [published_loop] at hm
    exact absurd hm hnew
  | @published i row rest hpc =>
    rcases List.mem_append.mp hm with hold | heq
    · exact absurd hold hnew
    · exact ⟨i, row, (List.mem_singleton.mp heq).symm, .inl ⟨rfl, rest, hpc⟩⟩
  | @arrived j i row hj =>
    rcases List.mem_append.mp hm with hold | heq
    · exact absurd hold hnew
    · exact ⟨i, row, (List.mem_singleton.mp heq).symm, .inr ⟨j, rfl, hj⟩⟩
  | commit | skipped | started | findThrew | publishThrew | markThrew | crashed | lateMarked =>
    exact absurd hm hnew

theorem Shipping.partway (hI : Shipping σ₀ es σ) (h : Sends σ i row ev) :
    ∃ rest, Partway σ₀ es σ i row rest := by
  rcases h with ⟨-, rest, hpc⟩ | ⟨j, -, hj⟩
  · exact ⟨rest, hI.publishing i row rest hpc⟩
  · exact hI.unanswered i row (List.mem_of_getElem? hj)

theorem older_sent {sent : List OutboxRow} {q : OutboxRow} (hperm : order.Perm σ.unpublished)
    (hsorted : order.Pairwise fun r r' => r.createdAt ≤ r'.createdAt)
    (hbatch : order.take batchSize = sent ++ row :: rest) (hq : q ∈ σ.rows.rows)
    (hunmarked : q.publishedAt = none) (hold : q.createdAt < row.createdAt) : q ∈ sent := by
  have hmem : q ∈ order := by
    rw [hperm.mem_iff, Relay.unpublished, List.mem_filter]
    exact ⟨hq, Option.isNone_iff_eq_none.mpr hunmarked⟩
  rw [← List.take_append_drop batchSize order, hbatch, List.append_assoc,
    List.cons_append] at hmem hsorted
  obtain ⟨-, hfrom, -⟩ := List.pairwise_append.mp hsorted
  rcases List.mem_append.mp hmem with hsent | hlater
  · exact hsent
  · rcases List.mem_cons.mp hlater with rfl | hlater
    · exact absurd hold (lt_irrefl _)
    · exact absurd ((List.pairwise_cons.mp hfrom).1 q hlater) (not_le.mpr hold)

theorem Partway.older_published (h : Partway {} es σ i row rest) :
    ∃ ρ order, ReadAt {} es σ i ρ order ∧ row ∈ order.take batchSize ∧
      ∀ q ∈ ρ.rows.rows, q.createdAt < row.createdAt → q.settlementEvent ∈ σ.published := by
  obtain ⟨ρ, order, sent, hread, hbatch, hsent⟩ := h
  refine ⟨ρ, order, hread, ?_, fun q hq hold => ?_⟩
  · rw [hbatch]
    exact List.mem_append_right _ List.mem_cons_self
  · obtain ⟨es₁, es₂, ρ', -, h₁, hstep, h₂⟩ := hread
    cases step_spec hstep with
    | found hperm hsorted =>
      rcases hmark : q.publishedAt with _ | t
      · exact hsent q (older_sent hperm hsorted hbatch hq hmark hold)
      · have hthen := (shipping_run h₁).marked q hq (hmark ▸ rfl)
        exact published_reach h₂.reach (published_step hstep hthen)

theorem at_least_once_in_order (h : RunUnder step (fun _ _ => True) {} es σ) :
    (∀ r ∈ σ.rows.rows, r.publishedAt.isSome → r.settlementEvent ∈ σ.published) ∧
      (∀ es' ρ, RunUnder step (fun _ _ => True) σ es' ρ → ∀ r ∈ σ.rows.rows,
        ∃ r' ∈ ρ.rows.rows, r'.settlementEvent = r.settlementEvent ∧
          (r' ∈ ρ.unpublished ∨ r.settlementEvent ∈ ρ.published)) ∧
      ∀ ev σ' m, step σ ev = some σ' → m ∈ σ'.published → m ∉ σ.published →
        ∃ i row ρ order, row.settlementEvent = m ∧ Sends σ i row ev ∧ ReadAt {} es σ i ρ order ∧
          row ∈ order.take batchSize ∧
          ∀ q ∈ ρ.rows.rows, q.createdAt < row.createdAt → q.settlementEvent ∈ σ.published := by
  have hI := shipping_run h
  refine ⟨hI.marked, fun es' ρ hrun r hr => ?_, fun ev σ' m hstep hm hnew => ?_⟩
  · obtain ⟨r', hr', heq, -⟩ := keeps_reach hrun.reach hr
    refine ⟨r', hr', heq, ?_⟩
    rcases hmark : r'.publishedAt with _ | t
    · exact .inl (List.mem_filter.mpr ⟨hr', by rw [hmark]; rfl⟩)
    · have hpublished := (shipping_run (h.trans hrun)).marked r' hr' (hmark ▸ rfl)
      exact .inr (heq ▸ hpublished)
  · obtain ⟨i, row, hrow, hsends⟩ := sends_of_new hstep hm hnew
    obtain ⟨rest, hpartway⟩ := hI.partway hsends
    obtain ⟨ρ, order, hread, hmem, holder⟩ := hpartway.older_published
    exact ⟨i, row, ρ, order, hrow, hsends, hread, hmem, holder⟩

def sampleRow (id createdAt : ℕ) : OutboxRow :=
  { id, createdAt, event := ⟨id, "settlement.final", "a", .final, 5, "bob", none⟩ }

/-- The older row commits last; its first mark is lost, so a second tick sends it again. -/
def markLost : List RelayEvent :=
  [.commit (sampleRow 1 3), .commit (sampleRow 2 1), .tick, .tick,
    .find 0 [sampleRow 2 1, sampleRow 1 3], .publish 0 true, .mark 0 7 false, .tick,
    .find 2 [sampleRow 2 1, sampleRow 1 3], .publish 2 true, .mark 2 9 true]

theorem lost_mark_in_order :
    ∃ (σ ρ : Relay) (order : List OutboxRow), RunUnder step (fun _ _ => True) {} markLost σ ∧
      sampleRow 1 3 ∈ order.take batchSize ∧
      ∀ q ∈ ρ.rows.rows, q.createdAt < 3 → q.settlementEvent ∈ σ.published := by
  obtain ⟨σ, hσ, hend⟩ := exists_runUnder_of_checkedRun step (fun _ _ => True) {} markLost
    (fun σ => (sampleRow 1 3).settlementEvent ∉ σ.published ∧
      (step σ (.publish 2 true)).any fun σ' =>
        (sampleRow 1 3).settlementEvent ∈ σ'.published ∧
          σ.ticks[2]? = some (.publish (sampleRow 1 3) [])) (by decide +kernel)
  obtain ⟨hnew, hnext⟩ := of_decide_eq_true hend
  obtain ⟨σ', hstep, hlast⟩ := (Option.any_eq_true _ _).mp hnext
  obtain ⟨hm, hpc⟩ := of_decide_eq_true hlast
  obtain ⟨i, row, ρ, order, hrow, hsends, -, hmem, holder⟩ :=
    (at_least_once_in_order hσ).2.2 _ σ' _ hstep hm hnew
  rcases hsends with ⟨hev, rest, hpc'⟩ | ⟨j, hev, -⟩
  · obtain ⟨rfl, -⟩ := RelayEvent.publish.inj hev
    rw [hpc] at hpc'
    obtain ⟨rfl, -⟩ := RelayPc.publish.inj (Option.some.inj hpc')
    exact ⟨σ, ρ, order, hσ, hmem, holder⟩
  · cases hev

end Rail.Outbox
