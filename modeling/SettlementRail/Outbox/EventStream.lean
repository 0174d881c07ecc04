import SettlementRail.Outbox.AuditMirror
import SettlementRail.Outbox.Drain

/-! The rail and its relay in one process over one database: from a status change to the consumer
of the stream. -/

namespace Rail.Outbox
open Foundation

structure Pipeline where
  rail : State
  relay : Relay

/-- The outbox rows of a transaction become visible to the relay when it commits. -/
def Relay.commits (now : ℕ) (relay : Relay) (events : List OutboxEvent) : Option Relay :=
  events.foldlM (fun relay event =>
    step relay (.commit { id := relay.rows.rows.length, event, createdAt := now })) relay

/-- What the process leaves of the relay in this step of the rail. -/
def Relay.through (relay : Relay) (ev : Event) : Relay :=
  if ev = .crash then relay.crashed else relay

namespace Pipeline

def start (cfg : Config) (base opening : ℕ) : Pipeline := ⟨initial cfg base opening, {}⟩

/-- Rows and crashes come from the rail. The relay runs while the process is up; the calls that a
dead process had sent may still arrive. -/
def relayMay (p : Pipeline) : RelayEvent → Bool
  | .commit _ | .crash => false
  | .tick | .find _ _ | .findThrows _ | .publish _ _ | .mark _ _ _ => p.rail.up
  | .arrives _ | .lateMark _ _ => true

def step (cfg : Config) (p : Pipeline) : Event ⊕ RelayEvent → Option Pipeline
  | .inl ev =>
    (Rail.step cfg p.rail ev).bind fun rail =>
      ((p.relay.through ev).commits rail.now
        (rail.db.outboxEvents.drop p.rail.db.outboxEvents.length)).map fun relay => ⟨rail, relay⟩
  | .inr ev =>
    if p.relayMay ev then (Outbox.step p.relay ev).map fun relay => ⟨p.rail, relay⟩ else none

end Pipeline

variable {cfg : Config} {base opening : ℕ} {p q : Pipeline} {σ σ' : Relay} {rail : State}
variable {ev : Event} {rev : RelayEvent} {now : ℕ} {events : List OutboxEvent}

def Relay.Numbered (σ : Relay) : Prop :=
  σ.rows.rows.map OutboxRow.id = List.range σ.rows.rows.length

theorem numbered_of_committed (h : σ'.committed = σ.committed) (hI : σ.Numbered) :
    σ'.Numbered := by
  have hids : ∀ ρ : Relay, ρ.rows.rows.map OutboxRow.id = ρ.committed.map SettlementEvent.id := by
    intro ρ
    rw [Relay.committed, List.map_map]
    rfl
  have hlen : ∀ ρ : Relay, ρ.rows.rows.length = ρ.committed.length := fun ρ =>
    List.length_map (f := OutboxRow.settlementEvent) |>.symm
  rw [Relay.Numbered, hids, hlen, h, ← hids, ← hlen]
  exact hI

theorem commits_spec (hI : σ.Numbered) (now : ℕ) (events : List OutboxEvent) :
    ∃ σ', σ.commits now events = some σ' ∧ Reach step σ σ' ∧ σ'.Numbered ∧
      σ'.committed.map SettlementEvent.event =
        σ.committed.map SettlementEvent.event ++ events := by
  induction events generalizing σ with
  | nil => exact ⟨σ, rfl, .refl, hI, (List.append_nil _).symm⟩
  | cons event events ih =>
    let row : OutboxRow := { id := σ.rows.rows.length, event, createdAt := now }
    -- the next id is the number of rows, which no row has
    have hnew : OutboxRow.id row ∉ σ.rows.rows.map OutboxRow.id := by
      rw [hI, List.mem_range]
      exact lt_irrefl _
    obtain ⟨rows, hinsert⟩ : ∃ rows, σ.rows.insert? row = some rows := ⟨_, dif_neg hnew⟩
    have hrows := (Table.insert?_eq_some hinsert).2
    have hstep : step σ (.commit row) = some { σ with rows } := by
      rw [step, hinsert]
      rfl
    have hI' : Relay.Numbered { σ with rows } := by
      rw [Relay.Numbered]
      simp only [hrows, List.map_append, List.length_append, List.map_singleton,
        List.length_singleton, List.range_succ]
      rw [show σ.rows.rows.map OutboxRow.id = _ from hI]
    obtain ⟨σ', hcommits, hreach, hend, hevents⟩ := ih hI'
    refine ⟨σ', ?_, (ReachUnder.tail .refl trivial hstep).trans hreach, hend, ?_⟩
    · rw [Relay.commits, List.foldlM_cons]
      show (step σ (.commit row)).bind _ = _
      rw [hstep]
      exact hcommits
    · rw [hevents, Relay.committed, Relay.committed]
      simp only [hrows, List.map_append, List.map_singleton, List.append_assoc]
      rfl

structure Mirrors (cfg : Config) (base opening : ℕ) (p : Pipeline) : Prop where
  rail : RailReach cfg (fun _ _ => True) base opening p.rail
  relay : Reach Outbox.step {} p.relay
  numbered : p.relay.Numbered
  events : p.relay.committed.map SettlementEvent.event = p.rail.db.outboxEvents

theorem through_reach (σ : Relay) (ev : Event) : Reach step σ (σ.through ev) := by
  unfold Relay.through
  split_ifs
  · exact .tail .refl trivial (show step σ .crash = some σ.crashed from rfl)
  · exact .refl

theorem committed_through (σ : Relay) (ev : Event) : (σ.through ev).committed = σ.committed := by
  unfold Relay.through
  split_ifs <;> rfl

theorem mirrors_rail (hI : Mirrors cfg base opening p) (h : Rail.step cfg p.rail ev = some rail) :
    ∃ relay, Pipeline.step cfg p (.inl ev) = some ⟨rail, relay⟩ ∧
      Mirrors cfg base opening ⟨rail, relay⟩ := by
  obtain ⟨op, -, hdb⟩ := step_db h
  have hadded : rail.db.outboxEvents.drop p.rail.db.outboxEvents.length =
      op.emitted p.rail.now p.rail.db := by
    rw [hdb, outboxEvents_apply, List.drop_left]
  have hsame := committed_through p.relay ev
  obtain ⟨relay, hcommits, hreach, hnumbered, hevents⟩ :=
    commits_spec (numbered_of_committed hsame hI.numbered) rail.now
      (rail.db.outboxEvents.drop p.rail.db.outboxEvents.length)
  refine ⟨relay, ?_, hI.rail.tail trivial h, ?_, hnumbered, ?_⟩
  · rw [Pipeline.step, h, Option.bind_some, hcommits]
    rfl
  · exact (hI.relay.trans (through_reach p.relay ev)).trans hreach
  · rw [hevents, hsame, hI.events, hadded]
    show _ = rail.db.outboxEvents
    rw [hdb, outboxEvents_apply]

theorem mirrors_relay (hI : Mirrors cfg base opening p) (hno : ∀ row, rev ≠ .commit row)
    (h : step p.relay rev = some σ') : Mirrors cfg base opening ⟨p.rail, σ'⟩ := by
  have hsame := committed_same hno h
  exact ⟨hI.rail, hI.relay.tail trivial h, numbered_of_committed hsame hI.numbered,
    by rw [hsame]; exact hI.events⟩

theorem mirrors_step {e : Event ⊕ RelayEvent} (hI : Mirrors cfg base opening p)
    (h : Pipeline.step cfg p e = some q) : Mirrors cfg base opening q := by
  cases e with
  | inl ev =>
    obtain ⟨rail, hrail, -⟩ := Option.bind_eq_some_iff.mp h
    obtain ⟨relay, hstep, hmirrors⟩ := mirrors_rail hI hrail
    rw [h] at hstep
    exact Option.some.inj hstep ▸ hmirrors
  | inr rev =>
    simp only [Pipeline.step] at h
    split_ifs at h with hmay
    obtain ⟨relay, hrelay, rfl⟩ := Option.map_eq_some_iff.mp h
    refine mirrors_relay hI ?_ hrelay
    rintro row rfl
    cases hmay

theorem mirrors_reach (h : Reach (Pipeline.step cfg) (.start cfg base opening) p) :
    Mirrors cfg base opening p :=
  h.invariant ⟨.refl, .refl, rfl, rfl⟩ fun _ _ _ _ hI _ hs => mirrors_step hI hs

def announcements (db : Db) : List OutboxEvent := db.statusTransitions.filterMap db.announcement

/-- What the consumer has processed, without the ids that the relay gave. -/
def Pipeline.learned (p : Pipeline) : List OutboxEvent :=
  p.relay.processed.map SettlementEvent.event

/-- A dead process is started again, and then no call of the relay fails. -/
def Pipeline.Quiet (p : Pipeline) : Event ⊕ RelayEvent → Prop
  | .inl ev => ev = .boot
  | .inr ev => Outbox.Quiet p.relay ev

def Pipeline.started (p : Pipeline) : Pipeline := { p with rail := { p.rail with up := true } }

theorem started_of_up (hup : p.rail.up = true) : p.started = p := by
  rw [Pipeline.started, ← hup]

theorem boot_step (hdown : p.rail.up = false) :
    Pipeline.step cfg p (.inl .boot) = some p.started := by
  have hnew : p.rail.db.outboxEvents.drop p.rail.db.outboxEvents.length = [] := List.drop_length
  simp only [Pipeline.step, Rail.step, hdown, Bool.false_eq_true, if_false, Option.bind_some, hnew]
  rfl

theorem boots (cfg : Config) (p : Pipeline) :
    ReachUnder (Pipeline.step cfg) Pipeline.Quiet p p.started := by
  by_cases hup : p.rail.up = true
  · rw [started_of_up hup]
    exact .refl
  · exact .tail .refl (e := .inl .boot) rfl (boot_step (Bool.eq_false_iff.mpr hup))

theorem mayRelay (hup : p.rail.up = true) (hq : Outbox.Quiet p.relay rev) :
    p.relayMay rev = true := by
  cases rev with
  | commit | crash | findThrows | arrives | lateMark => exact hq.elim
  | _ => exact hup

theorem quiet_run {es : List RelayEvent} (hup : p.rail.up = true)
    (h : RunUnder step Quiet p.relay es σ') :
    ReachUnder (Pipeline.step cfg) Pipeline.Quiet p ⟨p.rail, σ'⟩ := by
  induction h with
  | nil => exact .refl
  | @snoc es σ σ' ev _ hq hs ih =>
    refine .tail ih (e := .inr ev) hq ?_
    have hmay : Pipeline.relayMay ⟨p.rail, σ⟩ ev = true := mayRelay hup hq
    simp only [Pipeline.step, hmay, if_true, hs]
    rfl

theorem quiet_rail (h : ReachUnder (Pipeline.step cfg) Pipeline.Quiet p q) :
    q.rail = p.rail ∨ q.rail = p.started.rail := by
  induction h with
  | refl => exact .inl rfl
  | @tail q q' e _ hq hs ih =>
    cases e with
    | inl ev =>
      obtain rfl : ev = .boot := hq
      obtain ⟨rail, hrail, hs⟩ := Option.bind_eq_some_iff.mp hs
      obtain ⟨relay, -, rfl⟩ := Option.map_eq_some_iff.mp hs
      simp only [Rail.step] at hrail
      split_ifs at hrail
      cases hrail
      rcases ih with heq | heq <;> rw [heq] <;> exact .inr rfl
    | inr rev =>
      simp only [Pipeline.step] at hs
      split_ifs at hs
      obtain ⟨relay, -, rfl⟩ := Option.map_eq_some_iff.mp hs
      exact ih

theorem drained_of_stuck (hI : Mirrors cfg base opening p)
    (hstuck : Stuck (Pipeline.step cfg) Pipeline.Quiet p) :
    p.rail.up = true ∧ p.relay.Drained := by
  have hup : p.rail.up = true := by
    by_contra hdown
    have hnone := hstuck (.inl .boot) rfl
    rw [boot_step (Bool.eq_false_iff.mpr hdown)] at hnone
    cases hnone
  refine ⟨hup, (stuck_iff_drained (singleFlight_reach hI.relay)).mp fun rev hq => ?_⟩
  have hnone := hstuck (.inr rev) hq
  simp only [Pipeline.step, mayRelay hup hq, if_true, Option.map_eq_none_iff] at hnone
  exact hnone

theorem Mirrors.learned_subperm (hI : Mirrors cfg base opening p) :
    p.learned.Subperm (announcements p.rail.db) := by
  obtain ⟨es, hrun⟩ := hI.relay.exists_run
  obtain ⟨l, hperm, hsub⟩ := (deduplicated_exactly_once hrun).1
  have hmap := hsub.map SettlementEvent.event
  rw [hI.events, (outbox_tells_statuses hI.rail).1] at hmap
  exact ⟨_, hperm.map SettlementEvent.event, hmap⟩

theorem Mirrors.learned_perm (hI : Mirrors cfg base opening p) (hall : p.relay.unpublished = []) :
    p.learned.Perm (announcements p.rail.db) := by
  obtain ⟨es, hrun⟩ := hI.relay.exists_run
  have hmap := ((deduplicated_exactly_once hrun).2.1 hall).map SettlementEvent.event
  rwa [hI.events, (outbox_tells_statuses hI.rail).1] at hmap

/-- Whatever the rail does and whatever fails, the relay never keeps a step of the rail from
happening; a deduplicating consumer has processed each announced status change of the audit trail
once at most; and when no call fails any more a process that is up, or is started again, comes to
an end of its work, at which the consumer has processed all of them exactly once. -/
theorem audit_trail_delivered (h : Reach (Pipeline.step cfg) (.start cfg base opening) p) :
    (∀ ev rail, Rail.step cfg p.rail ev = some rail →
      ∃ relay, Pipeline.step cfg p (.inl ev) = some ⟨rail, relay⟩) ∧
    p.learned.Subperm (announcements p.rail.db) ∧
    (∀ q, ReachUnder (Pipeline.step cfg) Pipeline.Quiet p q →
      Stuck (Pipeline.step cfg) Pipeline.Quiet q → q.learned.Perm (announcements p.rail.db)) ∧
    ∃ q, ReachUnder (Pipeline.step cfg) Pipeline.Quiet p q ∧ q.rail = p.started.rail ∧
      q.learned.Perm (announcements p.rail.db) := by
  have hI := mirrors_reach h
  refine ⟨fun ev rail hs => ?_, hI.learned_subperm, fun q hquiet hstuck => ?_, ?_⟩
  · obtain ⟨relay, hstep, -⟩ := mirrors_rail hI hs
    exact ⟨relay, hstep⟩
  · have hend := mirrors_reach (h.trans hquiet.reach)
    have hperm := hend.learned_perm (drained_of_stuck hend hstuck).2.2
    rcases quiet_rail hquiet with heq | heq <;> rwa [heq] at hperm
  · have hboots := boots cfg p
    have hstart := mirrors_reach (h.trans hboots.reach)
    obtain ⟨es, relay, hrun, hdrained, -⟩ := (relay_drains hstart.relay).2.2
    have hquiet : ReachUnder (Pipeline.step cfg) Pipeline.Quiet p ⟨p.started.rail, relay⟩ :=
      hboots.trans (quiet_run rfl hrun)
    have hend := mirrors_reach (h.trans hquiet.reach)
    exact ⟨_, hquiet, rfl, hend.learned_perm hdrained.2⟩

/-- A payout that became FINAL while the relay had not run yet, in a process that died then. -/
theorem settled_payout_delivered : ∃ p q,
    Reach (Pipeline.step (plainConfig 3)) (.start (plainConfig 3) 7 100) p ∧ p.learned = [] ∧
      p.rail.up = false ∧ ReachUnder (Pipeline.step (plainConfig 3)) Pipeline.Quiet p q ∧
      (q.learned.map OutboxEvent.status).Perm [.submitted, .final] := by
  obtain ⟨p, hp, hend⟩ := exists_reach_of_run (Pipeline.step (plainConfig 3))
    (.start (plainConfig 3) 7 100) ((settleEvents ++ [Event.crash]).map Sum.inl)
    (fun p => p.learned = [] && p.rail.up = false &&
      (announcements p.rail.db).map OutboxEvent.status = [.submitted, .final]) (by decide +kernel)
  simp only [Bool.and_eq_true, decide_eq_true_eq] at hend
  obtain ⟨q, hquiet, -, hperm⟩ := (audit_trail_delivered hp).2.2.2
  exact ⟨p, q, hp, hend.1.1, hend.1.2, hquiet, hend.2 ▸ hperm.map OutboxEvent.status⟩

end Rail.Outbox
