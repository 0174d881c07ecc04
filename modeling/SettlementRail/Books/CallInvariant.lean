import SettlementRail.Books.BalancedLedger
import SettlementRail.Foundation.ThreadPool

/-! The ledger's calls side by side: what each has learnt and holds, why no two hold the same key,
and that every statement and every commit keeps this. -/

namespace Rail.Ledger
open Foundation

variable {db db' : Db} {id k : SettlementId} {e e' : LedgerEntry} {s row : Settlement}
variable {rows : List Settlement} {entries : List LedgerEntry}
variable {operator : Address} {σ σ' : LedgerState} {ev : LedgerEvent} {pc pc' p q : LedgerPc}
variable {i j : ℕ} {ce : CallEvent}

/-- What a call has learnt of the committed rows. -/
def LedgerPc.Knows (operator : Address) (db : Db) : LedgerPc → Prop
  | .entry opening genesis true | .commitOpening opening genesis true =>
    ∃ now, genesis = genesisRow operator genesis.id opening now
  | .entry _ genesis false | .commitOpening _ genesis false =>
    db.findById genesis.id = some genesis ∧ genesis.instructionId = Db.genesisInstructionId
  | .debit id _ => ∀ s, db.findById id = some s → s.instructionId ≠ Db.genesisInstructionId
  | .credit id _ | .commitPair id _ => IsPayout db id
  | _ => True

/-- Nobody has committed a key the call has written. -/
structure LedgerPc.Free (db : Db) (pc : LedgerPc) : Prop where
  entries : ∀ e ∈ pc.entries, db.ledgerEntries.find? (entryKey e) = none
  ids : ∀ s ∈ pc.rows, db.findById s.id = none
  instructionIds : ∀ s ∈ pc.rows, s.instructionId ∉ db.settlements.rows.map Settlement.instructionId

structure Apart (p q : LedgerPc) : Prop where
  entries : ∀ e ∈ p.entries, ∀ e' ∈ q.entries, entryKey e ≠ entryKey e'
  rows : ∀ s ∈ p.rows, ∀ s' ∈ q.rows, s.instructionId ≠ s'.instructionId ∧ s.id ≠ s'.id
  names : ∀ s ∈ p.rows, q.names ≠ some s.id

structure CallsInv (operator : Address) (σ : LedgerState) : Prop where
  balanced : Balanced σ.db
  knows : ∀ (i : ℕ) (pc : LedgerPc), σ.calls[i]? = some pc → pc.Knows operator σ.db
  free : ∀ (i : ℕ) (pc : LedgerPc), σ.calls[i]? = some pc → pc.Free σ.db
  apart : ∀ (i j : ℕ) (p q : LedgerPc), σ.calls[i]? = some p → σ.calls[j]? = some q → i ≠ j →
    Apart p q

structure LedgerPc.Silent (pc : LedgerPc) : Prop where
  entries : pc.entries = []
  rows : pc.rows = []
  names : pc.names = none
  knows : ∀ operator db, pc.Knows operator db

theorem free_of_unwritten (hentries : pc.entries = []) (hrows : pc.rows = []) (db : Db) :
    pc.Free db where
  entries := fun _ he => absurd he (hentries ▸ List.not_mem_nil)
  ids := fun _ hs => absurd hs (hrows ▸ List.not_mem_nil)
  instructionIds := fun _ hs => absurd hs (hrows ▸ List.not_mem_nil)

theorem apart_of_unwritten (hentries : p.entries = []) (hrows : p.rows = [])
    (hnames : ∀ s ∈ q.rows, p.names ≠ some s.id) : Apart p q ∧ Apart q p := by
  have he : ∀ e, e ∉ p.entries := fun e => hentries ▸ List.not_mem_nil
  have hs : ∀ s, s ∉ p.rows := fun s => hrows ▸ List.not_mem_nil
  refine ⟨⟨fun e h => absurd h (he e), fun s h => absurd h (hs s), fun s h => absurd h (hs s)⟩, ?_⟩
  exact ⟨fun _ _ e h => absurd h (he e), fun _ _ s h => absurd h (hs s), hnames⟩

theorem LedgerPc.Silent.free (h : pc.Silent) (db : Db) : pc.Free db :=
  free_of_unwritten h.entries h.rows db

theorem LedgerPc.Silent.apart (h : p.Silent) (q : LedgerPc) : Apart p q ∧ Apart q p := by
  refine apart_of_unwritten h.entries h.rows fun s _ heq => ?_
  rw [h.names] at heq
  cases heq

theorem silent_of_ended (h : pc.ended = true) : pc.Silent := by
  cases pc <;> first | exact ⟨rfl, rfl, rfl, fun _ _ => trivial⟩ | cases h

inductive CallMoves (operator : Address) (σ : LedgerState) (pc : LedgerPc) :
    CallEvent → LedgerPc → Db → Prop
  | silent {ce : CallEvent} {pc' : LedgerPc} (hsilent : pc'.Silent) :
      CallMoves operator σ pc ce pc' σ.db
  | upserted {genesisId : SettlementId} {now : ℕ} {opening : Amount} {genesis : Settlement}
      {created : Bool} (hheld : σ.genesisHeld = false)
      (hknows : (LedgerPc.entry opening genesis created).Knows operator σ.db)
      (hfree : (LedgerPc.entry opening genesis created).Free σ.db)
      (hunused : created = true → σ.unused genesis.id = true) :
      CallMoves operator σ pc (.upserts genesisId now) (.entry opening genesis created) σ.db
  | inserted {pc' : LedgerPc} {e : LedgerEntry} (hentries : pc'.entries = pc.entries ++ [e])
      (hrows : pc'.rows = pc.rows) (hnames : pc'.names = pc.names)
      (hheld : ∀ q ∈ σ.calls, ∀ e' ∈ q.entries, entryKey e' ≠ entryKey e)
      (hfree : σ.db.ledgerEntries.find? (entryKey e) = none)
      (hknows : pc.Knows operator σ.db → pc'.Knows operator σ.db) :
      CallMoves operator σ pc .next pc' σ.db
  | committed {pc' : LedgerPc} {db' : Db} (hcommit : pc.commit σ.db = some db')
      (hpc : (∃ opening genesis created, pc = .commitOpening opening genesis created ∧
          pc' = .snapshotted) ∨
        ∃ id amount, pc = .commitPair id amount ∧ pc' = .returned true) :
      CallMoves operator σ pc .next pc' db'

theorem insertEntry_ok (h : σ.insertEntry pc e = some .ok) :
    (∀ q ∈ σ.calls, ∀ e' ∈ q.entries, entryKey e' ≠ entryKey e) ∧
      σ.db.ledgerEntries.find? (entryKey e) = none ∧
      ((∃ s, σ.db.findById e.settlementId = some s) ∨ ∃ s ∈ pc.rows, s.id = e.settlementId) := by
  unfold LedgerState.insertEntry at h
  split_ifs at h with hheld hkey hrow
  · cases h
  · refine ⟨fun q hq e' he' heq => hheld ?_, ?_, ?_⟩
    · exact List.any_eq_true.mpr ⟨q, hq, List.any_eq_true.mpr ⟨e', he', decide_eq_true heq⟩⟩
    · rwa [Bool.not_eq_true, Option.isSome_eq_false_iff, Option.isNone_iff_eq_none] at hkey
    · rw [Bool.or_eq_true, Option.isSome_iff_exists, List.any_eq_true] at hrow
      refine hrow.imp_right fun hwritten => ?_
      obtain ⟨s, hs, hid⟩ := hwritten
      exact ⟨s, hs, of_decide_eq_true hid⟩
  · cases h

theorem findByInstructionId_some {instructionId : String}
    (h : db.findByInstructionId instructionId = some s) :
    db.findById s.id = some s ∧ s.instructionId = instructionId :=
  ⟨Db.findById_of_mem (List.mem_of_find?_eq_some h), by simpa using List.find?_some h⟩

theorem findByInstructionId_none {instructionId : String}
    (h : db.findByInstructionId instructionId = none) :
    instructionId ∉ db.settlements.rows.map Settlement.instructionId := by
  intro hmem
  obtain ⟨s, hs, heq⟩ := List.mem_map.mp hmem
  exact List.find?_eq_none.mp h s hs (decide_eq_true heq)

theorem upsert_moves {opening : Amount} {genesisId : SettlementId} {now : ℕ}
    (h : callStep operator σ (.upsert opening) (.upserts genesisId now) = some (pc', db')) :
    CallMoves operator σ (.upsert opening) (.upserts genesisId now) pc' db' := by
  rcases hfind : σ.db.findByInstructionId Db.genesisInstructionId with _ | genesis
  · simp only [callStep, hfind] at h
    split_ifs at h with hheld hunused
    cases h
    have hid := (Bool.and_eq_true_iff.mp hunused).1
    refine .upserted (eq_false_of_ne_true hheld) ⟨now, rfl⟩
      ⟨fun e he => absurd he List.not_mem_nil, ?_, ?_⟩ fun _ => hunused
    · rintro s hs
      rw [List.mem_singleton.mp hs]
      exact Option.isNone_iff_eq_none.mp hid
    · rintro s hs
      rw [List.mem_singleton.mp hs]
      exact findByInstructionId_none hfind
  · simp only [callStep, hfind] at h
    split_ifs at h with hheld
    cases h
    exact .upserted (eq_false_of_ne_true hheld) (findByInstructionId_some hfind)
      (free_of_unwritten rfl rfl σ.db) fun h => by cases h

theorem callStep_spec (h : callStep operator σ pc ce = some (pc', db')) :
    CallMoves operator σ pc ce pc' db' := by
  cases pc with
  | lookup =>
    cases ce <;> cases h
    split
    · exact .silent ⟨rfl, rfl, rfl, fun _ _ => trivial⟩
    · exact .silent ⟨rfl, rfl, rfl, fun _ _ => trivial⟩
  | chainBalance =>
    cases ce <;> cases h
    exact .silent ⟨rfl, rfl, rfl, fun _ _ => trivial⟩
  | recheck opening =>
    cases ce <;> cases h
    split
    · exact .silent ⟨rfl, rfl, rfl, fun _ _ => trivial⟩
    · exact .silent ⟨rfl, rfl, rfl, fun _ _ => trivial⟩
  | upsert opening =>
    cases ce with
    | next => cases h
    | chainAnswers => cases h
    | upserts genesisId now => exact upsert_moves h
  | entry opening genesis created =>
    cases ce with
    | next =>
      obtain ⟨r, hr, hout⟩ := Option.map_eq_some_iff.mp h
      cases r with
      | ok =>
        cases hout
        obtain ⟨hheld, hfree, -⟩ := insertEntry_ok hr
        refine .inserted rfl ?_ rfl hheld hfree ?_
        · cases created <;> rfl
        · cases created <;> exact id
      | uniqueViolation | noSettlement =>
        cases hout
        exact .silent ⟨rfl, rfl, rfl, fun _ _ => trivial⟩
    | chainAnswers => cases h
    | upserts => cases h
  | commitOpening opening genesis created =>
    cases ce with
    | next =>
      obtain ⟨db, hdb, hout⟩ := Option.map_eq_some_iff.mp h
      cases hout
      exact .committed hdb (.inl ⟨opening, genesis, created, rfl, rfl⟩)
    | chainAnswers => cases h
    | upserts => cases h
  | debit id amount =>
    cases ce with
    | next =>
      obtain ⟨r, hr, hout⟩ := Option.map_eq_some_iff.mp h
      cases r with
      | ok =>
        cases hout
        obtain ⟨hheld, hfree, hrow⟩ := insertEntry_ok hr
        refine .inserted rfl rfl rfl hheld hfree fun hknows => ?_
        rcases hrow with ⟨s, hs⟩ | ⟨s, hs, -⟩
        · exact ⟨s, hs, hknows s hs⟩
        · exact absurd hs List.not_mem_nil
      | uniqueViolation | noSettlement =>
        cases hout
        exact .silent ⟨rfl, rfl, rfl, fun _ _ => trivial⟩
    | chainAnswers => cases h
    | upserts => cases h
  | credit id amount =>
    cases ce with
    | next =>
      obtain ⟨r, hr, hout⟩ := Option.map_eq_some_iff.mp h
      cases r with
      | ok =>
        cases hout
        obtain ⟨hheld, hfree, -⟩ := insertEntry_ok hr
        exact .inserted rfl rfl rfl hheld hfree fun hknows => hknows
      | uniqueViolation | noSettlement =>
        cases hout
        exact .silent ⟨rfl, rfl, rfl, fun _ _ => trivial⟩
    | chainAnswers => cases h
    | upserts => cases h
  | commitPair id amount =>
    cases ce with
    | next =>
      obtain ⟨db, hdb, hout⟩ := Option.map_eq_some_iff.mp h
      cases hout
      exact .committed hdb (.inr ⟨id, amount, rfl, rfl⟩)
    | chainAnswers => cases h
    | upserts => cases h
  | snapshotted | returned | threw | dead => cases ce <;> cases h

theorem Appends.knows (h : Appends db db' rows entries) (hpc : pc.Knows operator db)
    (hnames : ∀ s ∈ rows, pc.names ≠ some s.id) : pc.Knows operator db' := by
  cases pc with
  | entry opening genesis created | commitOpening opening genesis created =>
    cases created with
    | true => exact hpc
    | false => exact ⟨h.findById_some hpc.1, hpc.2⟩
  | debit id amount =>
    intro s hs
    rcases h.findById_cases hs with hold | ⟨hnew, hid⟩
    · exact hpc s hold
    · exact absurd (congrArg some hid.symm) (hnames s hnew)
  | credit id amount | commitPair id amount => exact h.isPayout hpc
  | lookup | chainBalance | recheck | upsert | snapshotted | returned | threw | dead => trivial

theorem Appends.free (h : Appends db db' rows entries) (hpc : pc.Free db)
    (hentries : ∀ e ∈ entries, ∀ e' ∈ pc.entries, entryKey e ≠ entryKey e')
    (hrows : ∀ s ∈ rows, ∀ s' ∈ pc.rows, s.instructionId ≠ s'.instructionId ∧ s.id ≠ s'.id) :
    pc.Free db' := by
  refine ⟨fun e he => ?_, fun s hs => ?_, fun s hs => ?_⟩
  · have hold := Table.find?_eq_none_iff.mp (hpc.entries e he)
    refine Table.find?_eq_none_iff.mpr fun hmem => ?_
    rw [h.entries, List.map_append] at hmem
    rcases List.mem_append.mp hmem with hmem | hmem
    · exact hold hmem
    · obtain ⟨e', he', heq⟩ := List.mem_map.mp hmem
      exact hentries e' he' e he heq
  · rcases hfind : db'.findById s.id with _ | s'
    · rfl
    · rcases h.findById_cases hfind with hold | ⟨hnew, hid⟩
      · rw [hpc.ids s hs] at hold
        cases hold
      · exact absurd hid (hrows s' hnew s hs).2
  · intro hmem
    rw [h.rows, List.map_append] at hmem
    rcases List.mem_append.mp hmem with hmem | hmem
    · exact hpc.instructionIds s hs hmem
    · obtain ⟨s', hs', heq⟩ := List.mem_map.mp hmem
      exact (hrows s' hs' s hs).1 heq

theorem CallsInv.replace {calls : List LedgerPc} (h : CallsInv operator σ)
    (hcalls : ∀ (j : ℕ) (q : LedgerPc), calls[j]? = some q →
      j = i ∧ q = pc' ∨ j ≠ i ∧ σ.calls[j]? = some q)
    (hknows : pc'.Knows operator σ.db) (hfree : pc'.Free σ.db)
    (hapart : ∀ (j : ℕ) (q : LedgerPc), j ≠ i → σ.calls[j]? = some q →
      Apart pc' q ∧ Apart q pc') : CallsInv operator { σ with calls } := by
  refine ⟨h.balanced, fun j q hq => ?_, fun j q hq => ?_, fun j k p q hp hq hne => ?_⟩
  · rcases hcalls j q hq with ⟨-, rfl⟩ | ⟨-, hold⟩
    · exact hknows
    · exact h.knows j q hold
  · rcases hcalls j q hq with ⟨-, rfl⟩ | ⟨-, hold⟩
    · exact hfree
    · exact h.free j q hold
  · rcases hcalls j p hp with ⟨rfl, rfl⟩ | ⟨hji, hold⟩
    · rcases hcalls k q hq with ⟨rfl, -⟩ | ⟨hki, hold'⟩
      · exact absurd rfl hne
      · exact (hapart k q hki hold').1
    · rcases hcalls k q hq with ⟨rfl, rfl⟩ | ⟨hki, hold'⟩
      · exact (hapart j p hji hold).2
      · exact h.apart j k p q hold hold' hne

theorem CallsInv.set (h : CallsInv operator σ) (hknows : pc'.Knows operator σ.db)
    (hfree : pc'.Free σ.db) (hapart : ∀ (j : ℕ) (q : LedgerPc), j ≠ i → σ.calls[j]? = some q →
      Apart pc' q ∧ Apart q pc') :
    CallsInv operator { σ with calls := σ.calls.set i pc' } := by
  exact h.replace (i := i) (fun j q hq => getElem?_set_cases hq) hknows hfree hapart

theorem CallsInv.push (h : CallsInv operator σ) (hknows : pc'.Knows operator σ.db)
    (hfree : pc'.Free σ.db) (hapart : ∀ (j : ℕ) (q : LedgerPc), σ.calls[j]? = some q →
      Apart pc' q ∧ Apart q pc') :
    CallsInv operator { σ with calls := σ.calls ++ [pc'] } := by
  refine h.replace (i := σ.calls.length) (fun j q hq => ?_) hknows hfree fun j q _ => hapart j q
  exact (getElem?_snoc_cases hq).imp_right fun ⟨hlt, hold⟩ => ⟨hlt.ne, hold⟩

theorem CallsInv.silence (h : CallsInv operator σ) (hsilent : pc'.Silent) :
    CallsInv operator { σ with calls := σ.calls.set i pc' } :=
  h.set (hsilent.knows operator σ.db) (hsilent.free σ.db) fun _ q _ _ => hsilent.apart q

theorem CallsInv.grow (h : CallsInv operator σ) (ha : Appends σ.db db' rows entries)
    (hbalanced : Balanced db')
    (hentries : ∀ q ∈ σ.calls, ∀ e ∈ entries, ∀ e' ∈ q.entries, entryKey e ≠ entryKey e')
    (hrows : ∀ q ∈ σ.calls, ∀ s ∈ rows, ∀ s' ∈ q.rows,
      s.instructionId ≠ s'.instructionId ∧ s.id ≠ s'.id)
    (hnames : ∀ q ∈ σ.calls, ∀ s ∈ rows, q.names ≠ some s.id) :
    CallsInv operator { σ with db := db' } := by
  refine ⟨hbalanced, fun i q hq => ?_, fun i q hq => ?_, h.apart⟩
  · exact ha.knows (h.knows i q hq) (hnames q (List.mem_of_getElem? hq))
  · have hmem := List.mem_of_getElem? hq
    exact ha.free (h.free i q hq) (hentries q hmem) (hrows q hmem)

theorem CallsInv.balanced_commit (h : CallsInv operator σ) (hpc : σ.calls[i]? = some pc)
    (hcommit : pc.commit σ.db = some db')
    (hkind : (∃ opening genesis created, pc = .commitOpening opening genesis created) ∨
      ∃ id amount, pc = .commitPair id amount) : Balanced db' := by
  have ha := appends_commit hcommit
  have hfree := h.free i pc hpc
  have hknows := h.knows i pc hpc
  rcases hkind with ⟨opening, genesis, created, rfl⟩ | ⟨id, amount, rfl⟩
  · have hgenesis : IsGenesis db' genesis.id := by
      cases created with
      | true =>
        obtain ⟨now, hrow⟩ := hknows
        have hmem : genesis ∈ db'.settlements.rows := by
          rw [ha.rows]
          exact List.mem_append_right _ List.mem_cons_self
        exact ⟨genesis, Db.findById_of_mem hmem, by rw [hrow]; rfl⟩
      | false => exact ⟨genesis, ha.findById_some hknows.1, hknows.2⟩
    exact h.balanced.opening ha hgenesis (hfree.entries _ List.mem_cons_self)
  · exact h.balanced.pair ha hknows (hfree.entries _ List.mem_cons_self)

theorem CallsInv.commits (h : CallsInv operator σ) (hpc : σ.calls[i]? = some pc)
    (hcommit : pc.commit σ.db = some db')
    (hkind : (∃ opening genesis created, pc = .commitOpening opening genesis created) ∨
      ∃ id amount, pc = .commitPair id amount) (hsilent : pc'.Silent) :
    CallsInv operator { db := db', calls := σ.calls.set i pc' } := by
  have hothers : ∀ q ∈ σ.calls.set i pc', q.Silent ∨ Apart pc q := by
    intro q hq
    obtain ⟨j, hj⟩ := List.mem_iff_getElem?.mp hq
    rcases getElem?_set_cases hj with ⟨-, rfl⟩ | ⟨hji, hold⟩
    · exact .inl hsilent
    · exact .inr (h.apart i j pc q hpc hold (Ne.symm hji))
  refine (h.silence hsilent).grow (appends_commit hcommit) (h.balanced_commit hpc hcommit hkind)
    (fun q hq e he e' he' => ?_) (fun q hq s hs s' hs' => ?_) fun q hq s hs => ?_
  · rcases hothers q hq with hq | hq
    · exact absurd he' (hq.entries ▸ List.not_mem_nil)
    · exact hq.entries e he e' he'
  · rcases hothers q hq with hq | hq
    · exact absurd hs' (hq.rows ▸ List.not_mem_nil)
    · exact hq.rows s hs s' hs'
  · rcases hothers q hq with hq | hq
    · rw [hq.names]
      exact fun heq => by cases heq
    · exact hq.names s hs

theorem CallsInv.inserts (h : CallsInv operator σ) (hpc : σ.calls[i]? = some pc)
    (hentries : pc'.entries = pc.entries ++ [e]) (hrows : pc'.rows = pc.rows)
    (hnames : pc'.names = pc.names)
    (hheld : ∀ q ∈ σ.calls, ∀ e' ∈ q.entries, entryKey e' ≠ entryKey e)
    (hfree : σ.db.ledgerEntries.find? (entryKey e) = none)
    (hknows : pc.Knows operator σ.db → pc'.Knows operator σ.db) :
    CallsInv operator { σ with calls := σ.calls.set i pc' } := by
  have hold := h.free i pc hpc
  refine h.set (hknows (h.knows i pc hpc)) ⟨fun e' he' => ?_, hrows ▸ hold.ids,
    hrows ▸ hold.instructionIds⟩ fun j q hji hq => ?_
  · rw [hentries] at he'
    rcases List.mem_append.mp he' with he' | he'
    · exact hold.entries e' he'
    · exact List.mem_singleton.mp he' ▸ hfree
  · have hpq := h.apart i j pc q hpc hq (Ne.symm hji)
    have hqp := h.apart j i q pc hq hpc hji
    have hmem := List.mem_of_getElem? hq
    refine ⟨⟨fun e₁ he₁ e₂ he₂ => ?_, hrows ▸ hpq.rows, hrows ▸ hpq.names⟩,
      ⟨fun e₁ he₁ e₂ he₂ => ?_, hrows ▸ hqp.rows, hnames ▸ hqp.names⟩⟩
    · rw [hentries] at he₁
      rcases List.mem_append.mp he₁ with he₁ | he₁
      · exact hpq.entries e₁ he₁ e₂ he₂
      · rw [List.mem_singleton.mp he₁]
        exact (hheld q hmem e₂ he₂).symm
    · rw [hentries] at he₂
      rcases List.mem_append.mp he₂ with he₂ | he₂
      · exact hqp.entries e₁ he₁ e₂ he₂
      · rw [List.mem_singleton.mp he₂]
        exact hheld q hmem e₁ he₁

theorem unused_spec (h : σ.unused id = true) : σ.db.findById id = none ∧
    ∀ q ∈ σ.calls, q.names ≠ some id ∧ ∀ s ∈ q.rows, s.id ≠ id := by
  obtain ⟨hrow, hcalls⟩ := Bool.and_eq_true_iff.mp h
  refine ⟨Option.isNone_iff_eq_none.mp hrow, fun q hq => ?_⟩
  obtain ⟨hnames, hrows⟩ := Bool.and_eq_true_iff.mp (List.all_eq_true.mp hcalls q hq)
  exact ⟨of_decide_eq_true hnames, fun s hs => of_decide_eq_true (List.all_eq_true.mp hrows s hs)⟩

theorem genesisHeld_spec (h : σ.genesisHeld = false) :
    ∀ q ∈ σ.calls, ∀ s ∈ q.rows, s.instructionId ≠ Db.genesisInstructionId := by
  intro q hq s hs heq
  have hany : σ.genesisHeld = true := List.any_eq_true.mpr
    ⟨q, hq, List.any_eq_true.mpr ⟨s, hs, decide_eq_true heq⟩⟩
  rw [h] at hany
  cases hany

theorem CallsInv.upserts {opening : Amount} {genesis : Settlement} {created : Bool}
    (h : CallsInv operator σ) (hheld : σ.genesisHeld = false)
    (hknows : (LedgerPc.entry opening genesis created).Knows operator σ.db)
    (hfree : (LedgerPc.entry opening genesis created).Free σ.db)
    (hunused : created = true → σ.unused genesis.id = true) :
    CallsInv operator { σ with calls := σ.calls.set i (.entry opening genesis created) } := by
  refine h.set hknows hfree fun j q _ hq => ?_
  have hmem := List.mem_of_getElem? hq
  cases created with
  | false =>
    exact apart_of_unwritten rfl rfl fun s _ heq => by cases heq
  | true =>
    obtain ⟨now, hrow⟩ := hknows
    have hinstr : genesis.instructionId = Db.genesisInstructionId := by rw [hrow]; rfl
    obtain ⟨hnames, hids⟩ := (unused_spec (hunused rfl)).2 q hmem
    have hothers := genesisHeld_spec hheld q hmem
    refine ⟨⟨fun e he => absurd he List.not_mem_nil, fun s hs s' hs' => ?_, fun s hs => ?_⟩,
      ⟨fun _ _ _ he => absurd he List.not_mem_nil, fun s hs s' hs' => ?_,
        fun s _ heq => by cases heq⟩⟩
    · rw [List.mem_singleton.mp hs, hinstr]
      exact ⟨(hothers s' hs').symm, (hids s' hs').symm⟩
    · rw [List.mem_singleton.mp hs]
      exact hnames
    · rw [List.mem_singleton.mp hs', hinstr]
      exact ⟨hothers s hs, hids s hs⟩

theorem CallsInv.asks {amount : Amount} (h : CallsInv operator σ)
    (hrow : ∀ s, σ.db.findById id = some s → s.instructionId ≠ Db.genesisInstructionId)
    (hunseen : ∀ q ∈ σ.calls, ∀ s ∈ q.rows, s.id ≠ id) :
    CallsInv operator { σ with calls := σ.calls ++ [.debit id amount] } := by
  refine h.push hrow (free_of_unwritten rfl rfl σ.db) fun j q hq => ?_
  refine apart_of_unwritten rfl rfl fun s hs heq => ?_
  exact hunseen q (List.mem_of_getElem? hq) s hs (Option.some.inj heq).symm

theorem CallsInv.crash (h : CallsInv operator σ) :
    CallsInv operator { σ with calls := σ.calls.map fun pc => if pc.ended then pc else .dead } := by
  have hall : ∀ (i : ℕ) (q : LedgerPc),
      (σ.calls.map fun pc => if pc.ended then pc else .dead)[i]? = some q → q.Silent := by
    intro i q hq
    rw [List.getElem?_map] at hq
    obtain ⟨pc, -, rfl⟩ := Option.map_eq_some_iff.mp hq
    split_ifs with hended
    · exact silent_of_ended hended
    · exact silent_of_ended rfl
  exact ⟨h.balanced, fun i q hq => (hall i q hq).knows operator σ.db,
    fun i q hq => (hall i q hq).free σ.db, fun i j p q hp _ _ => ((hall i p hp).apart q).1⟩

theorem callsInv_step (h : step operator σ ev = some σ') (hI : CallsInv operator σ) :
    CallsInv operator σ' := by
  cases ev with
  | createSettlement row =>
    simp only [step] at h
    split_ifs at h with hfresh
    obtain ⟨db', hdb', rfl⟩ := Option.map_eq_some_iff.mp h
    obtain ⟨hunused, hinstr⟩ := Bool.and_eq_true_iff.mp hfresh
    obtain ⟨-, hcalls⟩ := unused_spec hunused
    have ha := appends_create hdb'
    refine hI.grow ha (hI.balanced.create ha) (fun _ _ e he => absurd he List.not_mem_nil)
      (fun q hq s hs s' hs' => ?_) fun q hq s hs => ?_
    · rw [List.mem_singleton.mp hs]
      refine ⟨fun heq => ?_, ((hcalls q hq).2 s' hs').symm⟩
      rw [Bool.not_eq_true', List.any_eq_false] at hinstr
      exact hinstr q hq (List.any_eq_true.mpr ⟨s', hs', decide_eq_true heq.symm⟩)
    · rw [List.mem_singleton.mp hs]
      exact (hcalls q hq).1
  | ensureOpeningSnapshot =>
    have hsilent : LedgerPc.lookup.Silent := ⟨rfl, rfl, rfl, fun _ _ => trivial⟩
    obtain rfl := Option.some.inj h
    exact hI.push trivial (hsilent.free σ.db) fun _ q _ => hsilent.apart q
  | recordSettlementFinalized id amount =>
    simp only [step] at h
    split_ifs at h with hok
    obtain rfl := Option.some.inj h
    obtain ⟨hrow, hunseen⟩ := Bool.and_eq_true_iff.mp hok
    refine hI.asks (fun s hs => ?_) fun q hq s hs => ?_
    · rw [hs, Option.all_some] at hrow
      exact of_decide_eq_true hrow
    · exact of_decide_eq_true (List.all_eq_true.mp (List.all_eq_true.mp hunseen q hq) s hs)
  | call i ce =>
    obtain ⟨pc, hpc, hcall⟩ := Option.bind_eq_some_iff.mp h
    obtain ⟨⟨pc', db'⟩, hout, rfl⟩ := Option.map_eq_some_iff.mp hcall
    cases callStep_spec hout with
    | silent hsilent => exact hI.silence hsilent
    | upserted hheld hknows hfree hunused => exact hI.upserts hheld hknows hfree hunused
    | inserted hentries hrows hnames hheld hfree hknows =>
      exact hI.inserts hpc hentries hrows hnames hheld hfree hknows
    | committed hcommit hkind =>
      rcases hkind with ⟨opening, genesis, created, rfl, rfl⟩ | ⟨id, amount, rfl, rfl⟩
      · exact hI.commits hpc hcommit (.inl ⟨opening, genesis, created, rfl⟩) (silent_of_ended rfl)
      · exact hI.commits hpc hcommit (.inr ⟨id, amount, rfl⟩) (silent_of_ended rfl)
  | throws i =>
    obtain ⟨pc, hpc, hthrow⟩ := Option.bind_eq_some_iff.mp h
    split_ifs at hthrow
    obtain rfl := Option.some.inj hthrow
    exact hI.silence (silent_of_ended rfl)
  | crash =>
    obtain rfl := Option.some.inj h
    exact hI.crash

theorem callsInv_initial : CallsInv operator {} where
  balanced := fun _ => .inl rfl
  knows := fun i pc h => by cases h
  free := fun i pc h => by cases h
  apart := fun i j p q h => by cases h

theorem callsInv_reach (h : Reach (step operator) {} σ) : CallsInv operator σ :=
  h.invariant callsInv_initial fun _ _ _ _ hI _ hstep => callsInv_step hstep hI

theorem commitPair_refines {amount : Amount} (hpayout : IsPayout db id)
    (h : (LedgerPc.commitPair id amount).commit db = some db') :
    db.recordSettlementFinalized id amount = (db', .booked) := by
  obtain ⟨s, hs, -⟩ := hpayout
  obtain ⟨entries, hentries, rfl⟩ := Option.map_eq_some_iff.mp h
  have hbind : ((db.ledgerEntries.insert? (Db.debitEntry id amount)).bind fun entries =>
      entries.insert? (Db.creditEntry id amount)) = some entries := by
    obtain ⟨t₁, h₁, h₂⟩ := Option.bind_eq_some_iff.mp hentries
    obtain ⟨t₂, h₃, h₄⟩ := Option.bind_eq_some_iff.mp h₂
    obtain rfl := Option.some.inj h₄
    rw [h₁, Option.bind_some, h₃]
  simp only [Db.recordSettlementFinalized, hs, hbind]

theorem CallsInv.no_opening {opening : Amount} {genesis : Settlement} {created : Bool}
    (h : CallsInv operator σ) (hpc : σ.calls[i]? = some (.commitOpening opening genesis created)) :
    (σ.db.ledgerEntries.rows.find? fun e => e.account = .genesis) = none := by
  have hfree := h.free i _ hpc
  refine List.find?_eq_none.mpr fun e he haccount => ?_
  have haccount := of_decide_eq_true haccount
  obtain ⟨s, hs, hinstr⟩ := h.balanced.isGenesis he haccount
  cases created with
  | true =>
    obtain ⟨now, hrow⟩ := h.knows i _ hpc
    refine hfree.instructionIds genesis List.mem_cons_self (List.mem_map.mpr ⟨s, ?_, ?_⟩)
    · exact Db.mem_of_findById hs
    · rw [hinstr, hrow]
      rfl
  | false =>
    obtain ⟨hgenesis, hinstr'⟩ := h.knows i _ hpc
    have heq : s = genesis := List.inj_on_of_nodup_map σ.db.instructionIds_nodup
      (Db.mem_of_findById hs) (Db.mem_of_findById hgenesis) (hinstr.trans hinstr'.symm)
    have hid : e.settlementId = genesis.id := (Db.id_of_findById hs).symm.trans (heq ▸ rfl)
    refine Table.find?_eq_none_iff.mp (hfree.entries _ List.mem_cons_self) ?_
    exact List.mem_map.mpr ⟨e, he, Prod.ext hid haccount⟩

theorem commitOpening_refines {opening : Amount} {genesis : Settlement} {created : Bool}
    (hI : CallsInv operator σ) (hpc : σ.calls[i]? = some (.commitOpening opening genesis created))
    (h : (LedgerPc.commitOpening opening genesis created).commit σ.db = some db') :
    ∃ now, db' = σ.db.recordOpening now genesis.id operator opening := by
  have hnone := hI.no_opening hpc
  have hknows := hI.knows i _ hpc
  have hfree := hI.free i _ hpc
  obtain ⟨db₁, h₁, h₂⟩ := Option.bind_eq_some_iff.mp h
  obtain ⟨entries, hentries, rfl⟩ := Option.map_eq_some_iff.mp h₂
  obtain ⟨t, ht, htentries⟩ := Option.bind_eq_some_iff.mp hentries
  obtain rfl := Option.some.inj htentries
  rw [genesisEntry] at ht
  cases created with
  | true =>
    obtain ⟨now, hrow⟩ := hknows
    obtain ⟨db₂, hcreate, hlast⟩ := Option.bind_eq_some_iff.mp h₁
    obtain rfl := Option.some.inj hlast
    have hinstr : genesis.instructionId = Db.genesisInstructionId := by rw [hrow]; rfl
    have hfind : σ.db.findByInstructionId Db.genesisInstructionId = none := by
      refine List.find?_eq_none.mpr fun s hs heq => ?_
      refine hfree.instructionIds genesis List.mem_cons_self (List.mem_map.mpr ⟨s, hs, ?_⟩)
      exact (of_decide_eq_true heq).trans hinstr.symm
    refine ⟨now, ?_⟩
    rw [hrow, genesisRow] at hcreate
    simp only [Db.recordOpening, hnone, hfind, hcreate, Option.getD_some, ht]
  | false =>
    obtain rfl := Option.some.inj h₁
    have hfind : σ.db.findByInstructionId Db.genesisInstructionId = some genesis := by
      rcases hf : σ.db.findByInstructionId Db.genesisInstructionId with _ | s
      · refine absurd (List.mem_map.mpr ⟨genesis, ?_, hknows.2⟩) (findByInstructionId_none hf)
        exact Db.mem_of_findById hknows.1
      · obtain ⟨hs, hinstr⟩ := findByInstructionId_some hf
        exact congrArg some (List.inj_on_of_nodup_map σ.db.instructionIds_nodup
          (Db.mem_of_findById hs) (Db.mem_of_findById hknows.1) (hinstr.trans hknows.2.symm))
    refine ⟨0, ?_⟩
    simp only [Db.recordOpening, hnone, hfind, ht]

end Rail.Ledger
