import SettlementRail.Foundation.Quiescence
import SettlementRail.Outbox.Deduplicated

/-! One tick at a time, and no state the relay cannot work its way out of: as long as calls
succeed it publishes and marks whatever is there, batch by batch, and then stops. -/

namespace Rail.Outbox
open Foundation

variable {σ σ' ρ : Relay} {ev : RelayEvent} {es : List RelayEvent} {i : ℕ}
variable {row : OutboxRow} {rest : List OutboxRow} {pc pc' : RelayPc}

def Relay.active (σ : Relay) : List RelayPc := σ.ticks.filter fun pc => pc ≠ .done

def Relay.SingleFlight (σ : Relay) : Prop := σ.active.length = σ.running.toNat

theorem filter_set_single {α : Type} {p : α → Bool} {l : List α} {i : ℕ} {a b : α}
    (ha : l[i]? = some a) (hp : p a = true) (hone : (l.filter p).length ≤ 1) :
    l.filter p = [a] ∧ (l.set i b).filter p = [b].filter p := by
  induction l generalizing i with
  | nil => cases ha
  | cons c l ih =>
    cases i with
    | zero =>
      cases ha
      rw [List.filter_cons_of_pos hp, List.length_cons] at hone
      have hnone : l.filter p = [] := List.length_eq_zero_iff.mp (by omega)
      refine ⟨by rw [List.filter_cons_of_pos hp, hnone], ?_⟩
      rw [List.set_cons_zero, ← List.singleton_append, List.filter_append, hnone, List.append_nil]
    | succ i =>
      rw [List.getElem?_cons_succ] at ha
      have hmem : a ∈ l.filter p := List.mem_filter.mpr ⟨List.mem_of_getElem? ha, hp⟩
      have hpos := List.length_pos_of_mem hmem
      by_cases hc : p c = true
      · rw [List.filter_cons_of_pos hc, List.length_cons] at hone
        omega
      · rw [List.filter_cons_of_neg hc] at hone
        obtain ⟨hl, hset⟩ := ih ha hone
        refine ⟨by rw [List.filter_cons_of_neg hc, hl], ?_⟩
        rw [List.set_cons_succ, List.filter_cons_of_neg hc, hset]

theorem Relay.SingleFlight.tick (hI : σ.SingleFlight) (hpc : σ.ticks[i]? = some pc)
    (hne : pc ≠ .done) : σ.running = true ∧ σ.active = [pc] ∧
      ∀ pc', (σ.ticks.set i pc').filter (fun pc => pc ≠ .done) =
        [pc'].filter fun pc => pc ≠ .done := by
  have hone : σ.active.length ≤ 1 := by
    rw [hI]
    exact Bool.toNat_le σ.running
  have hset := fun pc' => filter_set_single (b := pc') hpc (decide_eq_true hne) hone
  refine ⟨?_, (hset pc).1, fun pc' => (hset pc').2⟩
  have hlen : σ.active.length = 1 := by rw [active, (hset pc).1, List.length_singleton]
  rw [hI] at hlen
  exact Bool.toNat_eq_one.mp hlen

theorem Relay.SingleFlight.finish (hI : σ.SingleFlight) (hpc : σ.ticks[i]? = some pc)
    (hne : pc ≠ .done) : (σ.finish i).active = [] ∧ (σ.finish i).running = false :=
  ⟨(hI.tick hpc hne).2.2 .done, rfl⟩

theorem Relay.SingleFlight.loop (hI : σ.SingleFlight) (hpc : σ.ticks[i]? = some pc)
    (hne : pc ≠ .done) (batch : List OutboxRow) :
    (σ.loop i batch).active = [RelayPc.next batch].filter (fun pc => pc ≠ .done) ∧
      (σ.loop i batch).SingleFlight := by
  have hactive : (σ.loop i batch).active = [RelayPc.next batch].filter (fun pc => pc ≠ .done) := by
    rw [active, ticks_loop]
    exact (hI.tick hpc hne).2.2 _
  refine ⟨hactive, ?_⟩
  rw [SingleFlight, hactive]
  cases batch with
  | nil => rfl
  | cons row rest =>
    rw [Relay.loop, (hI.tick hpc hne).1]
    rfl

theorem Relay.SingleFlight.ended (hI : σ.SingleFlight) (hpc : σ.ticks[i]? = some pc)
    (hne : pc ≠ .done) : (σ.finish i).SingleFlight := by
  obtain ⟨hactive, hidle⟩ := hI.finish hpc hne
  rw [SingleFlight, hactive, hidle]
  rfl

theorem tick_cases (h : step σ .tick = some σ') :
    (σ.running = true ∧ σ' = { σ with ticks := σ.ticks ++ [.done] }) ∨
      (σ.running = false ∧ σ' = { σ with running := true, ticks := σ.ticks ++ [.find] }) := by
  simp only [step] at h
  split_ifs at h with hrunning
  · exact .inl ⟨hrunning, (Option.some.inj h).symm⟩
  · exact .inr ⟨Bool.eq_false_iff.mpr hrunning, (Option.some.inj h).symm⟩

theorem ticks_of_find {order : List OutboxRow} (h : step σ (.find i order) = some σ') :
    σ.ticks[i]? = some .find := by
  simp only [step] at h
  split_ifs at h with hfind
  exact hfind.1

theorem ticks_of_findThrows (h : step σ (.findThrows i) = some σ') : σ.ticks[i]? = some .find := by
  simp only [step] at h
  split_ifs at h with hfind
  exact hfind

theorem singleFlight_step (hI : σ.SingleFlight) (h : step σ ev = some σ') : σ'.SingleFlight := by
  cases step_spec h with
  | commit | arrived | lateMarked => exact hI
  | skipped | started =>
    rcases tick_cases h with ⟨-, hend⟩ | ⟨hidle, hend⟩ <;> rw [hend]
    · show (List.filter _ (σ.ticks ++ [RelayPc.done])).length = _
      rw [List.filter_append, show [RelayPc.done].filter (fun pc => pc ≠ .done) = [] from rfl,
        List.append_nil]
      exact hI
    · show (List.filter _ (σ.ticks ++ [RelayPc.find])).length = _
      have hnone : σ.active.length = 0 := by rw [hI, hidle]; rfl
      rw [List.filter_append, List.length_append]
      exact congrArg (· + 1) hnone
  | found => exact (hI.loop (ticks_of_find h) (fun heq => by cases heq) _).2
  | findThrew => exact hI.ended (ticks_of_findThrows h) fun heq => by cases heq
  | @published i row rest hpc =>
    obtain ⟨hrunning, -, hset⟩ := hI.tick hpc fun heq => by cases heq
    show (List.filter _ (σ.ticks.set i (.mark row rest))).length = _
    rw [hset]
    exact (congrArg Bool.toNat hrunning).symm
  | publishThrew hpc | markThrew hpc => exact hI.ended hpc fun heq => by cases heq
  | @marked i now row rest hpc =>
    have hI' : (σ.setPublishedAt row now).SingleFlight := hI
    exact (hI'.loop hpc (fun heq => by cases heq) rest).2
  | crashed =>
    have hnone : σ.crashed.active = [] := by
      rw [Relay.active, List.filter_eq_nil_iff]
      intro pc hpc
      obtain ⟨-, -, rfl⟩ := List.mem_map.mp hpc
      simp
    rw [Relay.SingleFlight, hnone]
    rfl

theorem singleFlight_reach (h : Reach step {} σ) : σ.SingleFlight :=
  h.invariant rfl fun _ _ _ _ hI _ hs => singleFlight_step hI hs

/-- A step that succeeds, and a tick only when there is something to do. -/
def Quiet (σ : Relay) : RelayEvent → Prop
  | .tick => σ.running = false ∧ σ.unpublished ≠ []
  | .find _ _ => True
  | .publish _ ok | .mark _ _ ok => ok = true
  | _ => False

def Relay.Drained (σ : Relay) : Prop := σ.running = false ∧ σ.unpublished = []

/-- What a batch costs of which every row has been marked meanwhile: it is followed by another
tick without any progress in the table. -/
def wasted (unpublished batch : List OutboxRow) : ℕ :=
  if ∃ r ∈ batch, r ∈ unpublished then 0 else 2 * batchSize + 3

def RelayPc.work (unpublished : List OutboxRow) : RelayPc → ℕ
  | .find => 2 * batchSize + 1
  | .publish row rest => 2 * rest.length + 2 + wasted unpublished (row :: rest)
  | .mark row rest => 2 * rest.length + 1 + wasted unpublished (row :: rest)
  | .done => 0

def Relay.idleWork (σ : Relay) : ℕ := if σ.unpublished = [] then 0 else 2 * batchSize + 2

def Relay.work (σ : Relay) : ℕ :=
  (2 * batchSize + 3) * σ.unpublished.length +
    (σ.active.head?.elim σ.idleWork (RelayPc.work σ.unpublished))

theorem filter_updateRow {p : OutboxRow → Bool} {f : OutboxRow → OutboxRow} {id : ℕ}
    (hf : ∀ r, p (f r) = false) (l : List OutboxRow) :
    (l.map (Table.updateRow OutboxRow.id id f)).filter p =
      (l.filter p).filter fun r => r.id ≠ id := by
  induction l with
  | nil => rfl
  | cons r l ih =>
    rw [List.map_cons]
    by_cases hid : r.id = id
    · rw [Table.updateRow, if_pos hid, List.filter_cons_of_neg (by simp [hf]), ih]
      by_cases hp : p r = true
      · rw [List.filter_cons_of_pos hp, List.filter_cons_of_neg (by simp [hid])]
      · rw [List.filter_cons_of_neg hp]
    · rw [Table.updateRow, if_neg hid]
      by_cases hp : p r = true
      · rw [List.filter_cons_of_pos hp, List.filter_cons_of_pos hp,
          List.filter_cons_of_pos (by simp [hid]), ih]
      · rw [List.filter_cons_of_neg hp, List.filter_cons_of_neg hp, ih]

theorem unpublished_setPublishedAt (σ : Relay) (row : OutboxRow) (now : ℕ) :
    (σ.setPublishedAt row now).unpublished = σ.unpublished.filter fun r => r.id ≠ row.id := by
  exact filter_updateRow (fun _ => rfl) _

theorem mark_cases (σ : Relay) (row : OutboxRow) (now : ℕ) :
    (σ.setPublishedAt row now).unpublished.length < σ.unpublished.length ∨
      row ∉ σ.unpublished ∧ (σ.setPublishedAt row now).unpublished = σ.unpublished := by
  rw [unpublished_setPublishedAt]
  have hsub : (σ.unpublished.filter fun r => r.id ≠ row.id).Sublist σ.unpublished :=
    List.filter_sublist
  rcases Nat.lt_or_ge (σ.unpublished.filter fun r => r.id ≠ row.id).length σ.unpublished.length
    with hlt | hge
  · exact .inl hlt
  · have hsame := hsub.eq_of_length_le hge
    refine .inr ⟨fun hmem => ?_, hsame⟩
    have hne := (List.mem_filter.mp (hsame.symm ▸ hmem)).2
    simp at hne

theorem RelayPc.work_next_le (unpublished rest : List OutboxRow) (hrest : rest ≠ []) :
    (RelayPc.next rest).work unpublished ≤ 2 * rest.length + (2 * batchSize + 3) := by
  cases rest with
  | nil => exact absurd rfl hrest
  | cons row rest =>
    have hwasted : wasted unpublished (row :: rest) ≤ 2 * batchSize + 3 := by
      unfold wasted
      split_ifs <;> omega
    simp only [next, work, List.length_cons]
    omega

theorem Relay.work_loop_le (hI : σ.SingleFlight) (hpc : σ.ticks[i]? = some pc) (hne : pc ≠ .done)
    (rest : List OutboxRow) : (σ.loop i rest).work ≤
      (2 * batchSize + 3) * σ.unpublished.length +
        if rest = [] then σ.idleWork else (RelayPc.next rest).work σ.unpublished := by
  have hunpublished : (σ.loop i rest).unpublished = σ.unpublished := by
    rw [unpublished, rows_loop]
    rfl
  rw [work, hunpublished, (hI.loop hpc hne rest).1, idleWork, hunpublished]
  cases rest with
  | nil => exact Nat.le_refl _
  | cons row rest => exact Nat.le_refl _

theorem lowers_relay : Lowers step Quiet Relay.SingleFlight Relay.work := by
  refine ⟨fun σ ev σ' hI _ hs => singleFlight_step hI hs, fun σ ev σ' hI hq hs => ?_⟩
  cases step_spec hs with
  | skipped | started =>
    obtain ⟨hidle, hsome⟩ := hq
    rcases tick_cases hs with ⟨hbusy, -⟩ | ⟨-, hend⟩
    · rw [hidle] at hbusy
      cases hbusy
    · have hnone : σ.active = [] := List.length_eq_zero_iff.mp (by rw [hI, hidle]; rfl)
      have hactive : ({ σ with running := true, ticks := σ.ticks ++ [.find] } : Relay).active =
          [.find] := by
        show List.filter _ (σ.ticks ++ [RelayPc.find]) = _
        rw [List.filter_append, show List.filter _ σ.ticks = [] from hnone]
        rfl
      rw [hend, Relay.work, Relay.work, hactive, hnone]
      refine Nat.add_lt_add_left ?_ _
      simp only [List.head?_cons, List.head?_nil, Option.elim, Relay.idleWork, if_neg hsome,
        RelayPc.work]
      omega
  | @found i order hperm hsorted =>
    have hpc := ticks_of_find hs
    have hne : RelayPc.find ≠ .done := fun heq => by cases heq
    have hle := Relay.work_loop_le hI hpc hne (order.take batchSize)
    have hbefore : σ.work = (2 * batchSize + 3) * σ.unpublished.length + (2 * batchSize + 1) := by
      rw [Relay.work, (hI.tick hpc hne).2.1]
      rfl
    rw [hbefore]
    refine Nat.lt_of_le_of_lt hle (Nat.add_lt_add_left ?_ _)
    rcases hbatch : order.take batchSize with _ | ⟨row, rest⟩
    · have hnil : order = [] := (List.take_eq_nil_iff.mp hbatch).resolve_left (by decide)
      have hempty : σ.unpublished = [] := (hnil ▸ hperm).nil_eq.symm
      rw [if_pos rfl, Relay.idleWork, if_pos hempty]
      exact Nat.succ_pos _
    · have hlen : rest.length + 1 ≤ batchSize := by
        rw [← List.length_cons, ← hbatch]
        exact List.length_take_le _ _
      have hfresh : ∃ r ∈ row :: rest, r ∈ σ.unpublished :=
        ⟨row, List.mem_cons_self, hperm.mem_iff.mp (List.mem_of_mem_take (i := batchSize)
          (by rw [hbatch]; exact List.mem_cons_self))⟩
      simp only [reduceCtorEq, if_false, RelayPc.next, RelayPc.work, wasted, if_pos hfresh]
      omega
  | @published i row rest hpc =>
    obtain ⟨-, hactive, hset⟩ := hI.tick hpc fun heq => by cases heq
    have hafter : ({ σ with
        ticks := σ.ticks.set i (.mark row rest)
        published := σ.published ++ [row.settlementEvent] } : Relay).active = [.mark row rest] :=
      hset _
    rw [Relay.work, Relay.work, hactive, hafter]
    refine Nat.add_lt_add_left ?_ _
    simp only [List.head?_cons, Option.elim, RelayPc.work]
    exact Nat.add_lt_add_right (by omega) _
  | @marked i now row rest hpc =>
    have hne : RelayPc.mark row rest ≠ .done := fun heq => by cases heq
    have hI' : (σ.setPublishedAt row now).SingleFlight := hI
    have hle := Relay.work_loop_le hI' hpc hne rest
    refine Nat.lt_of_le_of_lt hle ?_
    have hbefore : σ.work = (2 * batchSize + 3) * σ.unpublished.length +
        RelayPc.work σ.unpublished (.mark row rest) := by
      rw [Relay.work, (hI.tick hpc hne).2.1]
      rfl
    have hidle : (σ.setPublishedAt row now).idleWork ≤ 2 * batchSize + 2 := by
      unfold Relay.idleWork
      split_ifs <;> omega
    rw [hbefore]
    rcases mark_cases σ row now with hlt | ⟨hstale, hsame⟩
    · -- the row is gone from the unpublished ones, which pays for whatever follows
      have hrow := Nat.mul_le_mul_left (2 * batchSize + 3) (Nat.succ_le_of_lt hlt)
      have hmark : 2 * rest.length + 1 ≤ RelayPc.work σ.unpublished (.mark row rest) := by
        simp only [RelayPc.work]
        omega
      rw [Nat.mul_succ] at hrow
      split_ifs with hrest
      · omega
      · have hnext := RelayPc.work_next_le (σ.setPublishedAt row now).unpublished rest hrest
        omega
    · -- the mark was wasted, and so is the batch if no later row is still unpublished
      rw [hsame]
      refine Nat.add_lt_add_left ?_ _
      split_ifs with hrest
      · have hwasted : ¬∃ r ∈ row :: rest, r ∈ σ.unpublished := by
          rw [hrest]
          rintro ⟨r, hr, hmem⟩
          rw [List.mem_singleton.mp hr] at hmem
          exact hstale hmem
        simp only [RelayPc.work, wasted, if_neg hwasted]
        omega
      · obtain ⟨q, qs, rfl⟩ := List.exists_cons_of_ne_nil hrest
        have hsame : wasted σ.unpublished (row :: q :: qs) = wasted σ.unpublished (q :: qs) := by
          unfold wasted
          simp only [List.mem_cons, exists_eq_or_imp, hstale, false_or]
        simp only [RelayPc.next, RelayPc.work, hsame, List.length_cons]
        exact Nat.add_lt_add_right (by omega) _
  | findThrew | crashed | commit | arrived | lateMarked => exact hq.elim
  | publishThrew | markThrew => cases hq

theorem sorted_order_exists (rows : List OutboxRow) : ∃ order : List OutboxRow, order.Perm rows ∧
    order.Pairwise fun r r' => r.createdAt ≤ r'.createdAt := by
  refine ⟨rows.mergeSort fun r r' => r.createdAt ≤ r'.createdAt, List.mergeSort_perm _ _, ?_⟩
  refine (List.pairwise_mergeSort (fun a b c hab hbc => ?_) (fun a b => ?_) rows).imp
    fun h => of_decide_eq_true h
  · exact decide_eq_true ((of_decide_eq_true hab).trans (of_decide_eq_true hbc))
  · simpa using le_total a.createdAt b.createdAt

theorem stuck_iff_drained (hI : σ.SingleFlight) : Stuck step Quiet σ ↔ σ.Drained := by
  constructor
  · intro hstuck
    have hidle : σ.running = false := by
      by_contra hrunning
      have hlen : σ.active.length = 1 := by rw [hI, Bool.eq_true_of_not_eq_false hrunning]; rfl
      obtain ⟨pc, hpc⟩ := List.length_eq_one_iff.mp hlen
      have hmem : pc ∈ σ.active := by rw [hpc]; exact List.mem_cons_self
      obtain ⟨hticks, hne⟩ := List.mem_filter.mp hmem
      obtain ⟨i, hi⟩ := List.mem_iff_getElem?.mp hticks
      cases pc with
      | find =>
        obtain ⟨order, hperm, hsorted⟩ := sorted_order_exists σ.unpublished
        have hnone := hstuck (.find i order) trivial
        rw [step, if_pos ⟨hi, hperm, hsorted⟩] at hnone
        cases hnone
      | publish row rest =>
        have hnone := hstuck (.publish i true) rfl
        rw [step, hi] at hnone
        cases hnone
      | mark row rest =>
        have hnone := hstuck (.mark i 0 true) rfl
        rw [step, hi] at hnone
        cases hnone
      | done => exact of_decide_eq_true hne rfl
    refine ⟨hidle, ?_⟩
    by_contra hsome
    have hnone := hstuck .tick ⟨hidle, hsome⟩
    rw [step, hidle] at hnone
    cases hnone
  · rintro ⟨hidle, hempty⟩ ev hq
    have hnone : σ.active = [] := List.length_eq_zero_iff.mp (by rw [hI, hidle]; rfl)
    rcases hs : step σ ev with _ | σ'
    · rfl
    · have hbusy : ∀ {i : ℕ} {pc : RelayPc}, σ.ticks[i]? = some pc → pc ≠ .done → False := by
        intro i pc hpc hne
        have hone := (hI.tick hpc hne).2.1
        rw [hnone] at hone
        cases hone
      cases step_spec hs with
      | skipped | started => exact absurd hempty hq.2
      | found => exact (hbusy (ticks_of_find hs) fun heq => by cases heq).elim
      | published hpc | marked hpc => exact (hbusy hpc fun heq => by cases heq).elim
      | findThrew | crashed | commit | arrived | lateMarked => exact hq.elim
      | publishThrew | markThrew => cases hq

theorem Quiet.ne_commit (hq : Quiet σ ev) (row : OutboxRow) : ev ≠ .commit row := by
  rintro rfl
  exact hq

theorem Relay.Drained.published (h : Reach step {} σ) (hdrained : σ.Drained) :
    σ.committed ⊆ σ.published := by
  obtain ⟨es, hrun⟩ := h.exists_run
  exact all_published hrun hdrained.2

/-- In every state one tick at most is under way. While no call fails there is only so much to
do, and a state with nothing left to do has every committed row published and marked. -/
theorem relay_drains (h : Reach step {} σ) :
    σ.active.length = σ.running.toNat ∧
      (∀ es ρ, RunUnder step Quiet σ es ρ → es.length ≤ σ.work ∧
        (Stuck step Quiet ρ ↔ ρ.Drained) ∧ (ρ.Drained → ρ.committed ⊆ ρ.published)) ∧
      ∃ es ρ, RunUnder step Quiet σ es ρ ∧ ρ.Drained ∧ ρ.committed = σ.committed ∧
        ρ.committed ⊆ ρ.published := by
  have hI := singleFlight_reach h
  have published : ∀ {es ρ}, RunUnder step Quiet σ es ρ → ρ.Drained →
      ρ.committed ⊆ ρ.published := fun hrun hdrained =>
    hdrained.published (h.trans hrun.reach.reach)
  refine ⟨hI, fun es ρ hrun => ?_, ?_⟩
  · obtain ⟨hend, hle⟩ := lowers_relay.length_le hI hrun
    exact ⟨by omega, stuck_iff_drained hend, published hrun⟩
  · obtain ⟨es, ρ, hrun, hstuck⟩ := lowers_relay.exists_stuck hI
    have hend := (lowers_relay.length_le hI hrun).1
    have hdrained := (stuck_iff_drained hend).mp hstuck
    refine ⟨es, ρ, hrun, hdrained, ?_, published hrun hdrained⟩
    exact hrun.reach.invariant (I := fun ρ => ρ.committed = σ.committed) rfl
      fun _ _ _ _ hsame hq hs => (committed_same hq.ne_commit hs).trans hsame

/-- After a lost mark, in the middle of the batch that sends the row again. -/
theorem lost_mark_drains : ∃ σ, Reach step {} σ ∧ σ.running = true ∧
    ∃ es ρ, RunUnder step Quiet σ es ρ ∧ ρ.Drained ∧ ρ.committed = σ.committed ∧
      ρ.committed ⊆ ρ.published := by
  obtain ⟨σ, hr, hrunning⟩ := exists_reach_of_run step {} markLost Relay.running (by decide +kernel)
  exact ⟨σ, hr, hrunning, (relay_drains hr).2.2⟩

end Rail.Outbox
