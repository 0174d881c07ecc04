import SettlementRail.Model.LedgerCalls
import SettlementRail.System.LedgerSums

/-! What the committed ledger looks like at any moment, what its queries see of that, and what
appending whole groups of entries to it does. -/

namespace Rail.Ledger
open Foundation

variable {db db' : Db} {id k : SettlementId} {e e' : LedgerEntry} {s row : Settlement}
variable {pc : LedgerPc}

def IsGenesis (db : Db) (id : SettlementId) : Prop :=
  ∃ s, db.findById id = some s ∧ s.instructionId = Db.genesisInstructionId

def IsPayout (db : Db) (id : SettlementId) : Prop :=
  ∃ s, db.findById id = some s ∧ s.instructionId ≠ Db.genesisInstructionId

/-- A settlement has no entries or its pair, the genesis row none or the opening entry. -/
def Balanced (db : Db) : Prop :=
  ∀ id, db.entriesOf id = [] ∨ (IsPayout db id ∧ ∃ amount, db.entriesOf id = bookingPair id amount) ∨
    (IsGenesis db id ∧ ∃ opening, db.entriesOf id = [genesisEntry id opening])

theorem not_isPayout_of_isGenesis (h : IsGenesis db id) : ¬IsPayout db id := by
  rintro ⟨s, hs, hne⟩
  obtain ⟨g, hg, heq⟩ := h
  obtain rfl := Option.some.inj (hs.symm.trans hg)
  exact hne heq

theorem mem_entriesOf (he : e ∈ db.ledgerEntries.rows) : e ∈ db.entriesOf e.settlementId :=
  List.mem_filter.mpr ⟨he, decide_eq_true rfl⟩

theorem key_not_mem (h : db.ledgerEntries.find? (entryKey e) = none) (hid : e.settlementId = id) :
    ∀ e' ∈ db.entriesOf id, e'.account ≠ e.account := by
  intro e' he' haccount
  obtain ⟨hmem, hid'⟩ := List.mem_filter.mp he'
  refine Table.find?_eq_none_iff.mp h (List.mem_map.mpr ⟨e', hmem, ?_⟩)
  exact Prod.ext ((of_decide_eq_true hid').trans hid.symm) haccount

theorem Balanced.exists_row (h : Balanced db) (he : e ∈ db.ledgerEntries.rows) :
    ∃ s, db.findById e.settlementId = some s := by
  rcases h e.settlementId with hnil | ⟨⟨s, hs, -⟩, -⟩ | ⟨⟨s, hs, -⟩, -⟩
  · exact absurd (mem_entriesOf he) (hnil ▸ List.not_mem_nil)
  · exact ⟨s, hs⟩
  · exact ⟨s, hs⟩

theorem Balanced.isGenesis (h : Balanced db) (he : e ∈ db.ledgerEntries.rows)
    (haccount : e.account = .genesis) : IsGenesis db e.settlementId := by
  have hmem := mem_entriesOf he
  rcases h e.settlementId with hnil | ⟨-, amount, hpair⟩ | ⟨hg, -⟩
  · exact absurd hmem (hnil ▸ List.not_mem_nil)
  · rw [hpair, bookingPair, List.mem_pair] at hmem
    rcases hmem with heq | heq
    · rw [heq] at haccount
      cases haccount
    · rw [heq] at haccount
      cases haccount
  · exact hg

theorem Balanced.one_opening (h : Balanced db) :
    (db.ledgerEntries.rows.filter fun e => e.account = .genesis).length ≤ 1 := by
  have hsame : ∀ e ∈ db.ledgerEntries.rows, ∀ e' ∈ db.ledgerEntries.rows, e.account = .genesis →
      e'.account = .genesis → e = e' := by
    intro e he e' he' haccount haccount'
    obtain ⟨s, hs, hinstr⟩ := h.isGenesis he haccount
    obtain ⟨s', hs', hinstr'⟩ := h.isGenesis he' haccount'
    have heq : s = s' := List.inj_on_of_nodup_map db.instructionIds_nodup (Db.mem_of_findById hs)
      (Db.mem_of_findById hs') (hinstr.trans hinstr'.symm)
    have hid : e.settlementId = e'.settlementId := by
      rw [← Db.id_of_findById hs, ← Db.id_of_findById hs', heq]
    exact List.inj_on_of_nodup_map db.ledgerEntries.keys_nodup he he'
      (Prod.ext hid (haccount.trans haccount'.symm))
  have hnodup := (List.Nodup.of_map _ db.ledgerEntries.keys_nodup).filter
    fun e => decide (e.account = .genesis)
  rcases hl : db.ledgerEntries.rows.filter fun e => e.account = .genesis with _ | ⟨a, _ | ⟨b, l⟩⟩
  · rw [hl]
    exact Nat.zero_le 1
  · rw [hl]
    exact le_refl 1
  · have ha : a ∈ db.ledgerEntries.rows.filter fun e => e.account = .genesis := by simp [hl]
    have hb : b ∈ db.ledgerEntries.rows.filter fun e => e.account = .genesis := by simp [hl]
    simp only [List.mem_filter, decide_eq_true_eq] at ha hb
    rw [hl, hsame a ha.1 b hb.1 ha.2 hb.2] at hnodup
    exact absurd List.mem_cons_self (List.nodup_cons.mp hnodup).1

def bookedAmount (db : Db) (id : SettlementId) : ℕ :=
  (((db.entriesOf id).find? fun e => e.account = .operator).map LedgerEntry.amount).getD 0

theorem sum_by_settlement (db : Db) (w : LedgerEntry → ℕ) (l : List LedgerEntry)
    (hrow : ∀ e ∈ l, ∃ s, db.findById e.settlementId = some s) :
    (l.map w).sum =
      db.settlements.sumBy fun s => ((l.filter fun e => e.settlementId = s.id).map w).sum := by
  induction l with
  | nil => simp [Table.sumBy]
  | cons e l ih =>
    obtain ⟨s, hs⟩ := hrow e List.mem_cons_self
    have hsplit : ∀ s : Settlement,
        (((e :: l).filter fun e => e.settlementId = s.id).map w).sum =
          (if s.id = e.settlementId then w e else 0) +
            ((l.filter fun e => e.settlementId = s.id).map w).sum := by
      intro s
      by_cases hid : s.id = e.settlementId
      · simp [hid]
      · simp [hid, Ne.symm hid]
    rw [List.map_cons, List.sum_cons, ih fun e' he' => hrow e' (List.mem_cons_of_mem _ he'),
      funext hsplit, ← Table.sumBy_add, Table.sumBy_key hs fun _ => w e]

theorem Balanced.operatorSum (h : Balanced db) :
    db.operatorSum .credit = 0 ∧
      db.operatorSum .debit = db.settlements.sumBy fun s => bookedAmount db s.id := by
  have hsum := fun dir : LedgerDirection => sum_by_settlement db
    (fun e => if e.account = .operator ∧ e.direction = dir then e.amount else 0)
    db.ledgerEntries.rows fun _ he => h.exists_row he
  have hper : ∀ (dir : LedgerDirection) (id : SettlementId),
      ((db.entriesOf id).map fun e =>
        if e.account = .operator ∧ e.direction = dir then e.amount else 0).sum =
        if dir = .debit then bookedAmount db id else 0 := by
    intro dir id
    rcases h id with heq | ⟨-, amount, heq⟩ | ⟨-, opening, heq⟩
    · cases dir <;> simp [bookedAmount, heq]
    · cases dir <;> simp [bookedAmount, heq, bookingPair, Db.debitEntry, Db.creditEntry]
    · cases dir <;> simp [bookedAmount, heq, genesisEntry]
  refine ⟨?_, ?_⟩
  · refine (hsum .credit).trans ?_
    rw [show (fun s : Settlement => ((db.ledgerEntries.rows.filter fun e =>
      e.settlementId = s.id).map _).sum) = fun s => 0 from funext fun s => hper .credit s.id]
    simp [Table.sumBy]
  · refine (hsum .debit).trans (congrArg _ (funext fun s => hper .debit s.id))

structure Appends (db db' : Db) (rows : List Settlement) (entries : List LedgerEntry) : Prop where
  rows : db'.settlements.rows = db.settlements.rows ++ rows
  entries : db'.ledgerEntries.rows = db.ledgerEntries.rows ++ entries

theorem appends_create (h : db.create row = some db') : Appends db db' [row] [] :=
  ⟨(Table.insert?_eq_some (Db.settlements_create h)).2,
    by rw [(Db.create_frame h).1, List.append_nil]⟩

theorem appends_rows {rows : List Settlement} (h : rows.foldlM Db.create db = some db') :
    Appends db db' rows [] := by
  induction rows generalizing db with
  | nil =>
    obtain rfl := Option.some.inj h
    exact ⟨(List.append_nil _).symm, (List.append_nil _).symm⟩
  | cons row rows ih =>
    obtain ⟨db₁, h₁, h₂⟩ := Option.bind_eq_some_iff.mp h
    have hfirst := appends_create h₁
    have hrest := ih h₂
    refine ⟨?_, ?_⟩
    · rw [hrest.rows, hfirst.rows, List.append_assoc, List.singleton_append]
    · rw [hrest.entries, hfirst.entries, List.append_nil]

theorem rows_insertAll {α κ : Type} [DecidableEq κ] {key : α → κ} {l : List α}
    {t t' : Table κ α key} (h : l.foldlM Table.insert? t = some t') : t'.rows = t.rows ++ l := by
  induction l generalizing t with
  | nil => exact Option.some.inj h ▸ (List.append_nil _).symm
  | cons a l ih =>
    obtain ⟨t₁, h₁, h₂⟩ := Option.bind_eq_some_iff.mp h
    rw [ih h₂, (Table.insert?_eq_some h₁).2, List.append_assoc, List.singleton_append]

theorem appends_commit (h : pc.commit db = some db') : Appends db db' pc.rows pc.entries := by
  obtain ⟨db₁, h₁, h₂⟩ := Option.bind_eq_some_iff.mp h
  obtain ⟨entries, hentries, rfl⟩ := Option.map_eq_some_iff.mp h₂
  have hrows := appends_rows h₁
  refine ⟨hrows.rows, ?_⟩
  have hsame := hrows.entries
  rw [List.append_nil] at hsame
  rw [← hsame]
  exact rows_insertAll hentries

variable {rows : List Settlement} {entries : List LedgerEntry}

theorem Appends.findById_some (h : Appends db db' rows entries) (hs : db.findById k = some s) :
    db'.findById k = some s := by
  have hmem : s ∈ db'.settlements.rows := by
    rw [h.rows]
    exact List.mem_append_left _ (Db.mem_of_findById hs)
  rw [← Db.id_of_findById hs]
  exact Db.findById_of_mem hmem

theorem Appends.findById_cases (h : Appends db db' rows entries)
    (hs : db'.findById k = some s) : db.findById k = some s ∨ s ∈ rows ∧ s.id = k := by
  have hmem := Db.mem_of_findById hs
  have hid := Db.id_of_findById hs
  rw [h.rows] at hmem
  rcases List.mem_append.mp hmem with hold | hnew
  · exact .inl (hid ▸ Db.findById_of_mem hold)
  · exact .inr ⟨hnew, hid⟩

theorem Appends.isPayout (h : Appends db db' rows entries) (hid : IsPayout db id) :
    IsPayout db' id :=
  hid.imp fun _ hs => ⟨h.findById_some hs.1, hs.2⟩

theorem Appends.isGenesis (h : Appends db db' rows entries) (hid : IsGenesis db id) :
    IsGenesis db' id :=
  hid.imp fun _ hs => ⟨h.findById_some hs.1, hs.2⟩

theorem Appends.entriesOf (h : Appends db db' rows entries) (id : SettlementId) :
    db'.entriesOf id = db.entriesOf id ++ entries.filter fun e => e.settlementId = id :=
  Db.entriesOf_append h.entries id

theorem Balanced.create (h : Balanced db) (ha : Appends db db' rows []) : Balanced db' := by
  intro id
  rw [ha.entriesOf, List.filter_nil, List.append_nil]
  rcases h id with hnil | ⟨hid, hpair⟩ | ⟨hid, hopening⟩
  · exact .inl hnil
  · exact .inr (.inl ⟨ha.isPayout hid, hpair⟩)
  · exact .inr (.inr ⟨ha.isGenesis hid, hopening⟩)

theorem Balanced.append (h : Balanced db) (ha : Appends db db' rows entries)
    (hids : ∀ e ∈ entries, e.settlementId = id) (hnil : db.entriesOf id = [])
    (hnew : (IsPayout db' id ∧ ∃ amount, entries = bookingPair id amount) ∨
      (IsGenesis db' id ∧ ∃ opening, entries = [genesisEntry id opening])) : Balanced db' := by
  intro k
  rw [ha.entriesOf]
  by_cases hk : k = id
  · subst hk
    have hall : entries.filter (fun e => e.settlementId = k) = entries :=
      List.filter_eq_self.mpr fun e he => decide_eq_true (hids e he)
    rw [hnil, hall, List.nil_append]
    exact .inr hnew
  · have hnone : entries.filter (fun e => e.settlementId = k) = [] :=
      List.filter_eq_nil_iff.mpr fun e he heq =>
        hk ((of_decide_eq_true heq).symm.trans (hids e he))
    rw [hnone, List.append_nil]
    rcases h k with hnil | ⟨hid, hpair⟩ | ⟨hid, hopening⟩
    · exact .inl hnil
    · exact .inr (.inl ⟨ha.isPayout hid, hpair⟩)
    · exact .inr (.inr ⟨ha.isGenesis hid, hopening⟩)

theorem Balanced.pair (h : Balanced db) {amount : Amount}
    (ha : Appends db db' rows (bookingPair id amount)) (hpayout : IsPayout db id)
    (hfree : db.ledgerEntries.find? (entryKey (Db.debitEntry id amount)) = none) :
    Balanced db' := by
  have hnil : db.entriesOf id = [] := by
    rcases h id with hnil | ⟨-, amount', hpair⟩ | ⟨hgenesis, -⟩
    · exact hnil
    · have hmem : Db.debitEntry id amount' ∈ db.entriesOf id := hpair ▸ List.mem_cons_self
      exact absurd rfl (key_not_mem hfree rfl _ hmem : _ ≠ LedgerAccount.operator)
    · exact absurd hpayout (not_isPayout_of_isGenesis hgenesis)
  refine h.append ha ?_ hnil (.inl ⟨ha.isPayout hpayout, amount, rfl⟩)
  intro e he
  rcases List.mem_pair.mp he with rfl | rfl <;> rfl

theorem Balanced.opening (h : Balanced db) {opening : Amount}
    (ha : Appends db db' rows [genesisEntry id opening]) (hgenesis : IsGenesis db' id)
    (hfree : db.ledgerEntries.find? (entryKey (genesisEntry id opening)) = none) :
    Balanced db' := by
  have hnil : db.entriesOf id = [] := by
    rcases h id with hnil | ⟨hpayout, -⟩ | ⟨-, opening', heq⟩
    · exact hnil
    · exact absurd (ha.isPayout hpayout) (not_isPayout_of_isGenesis hgenesis)
    · have hmem : genesisEntry id opening' ∈ db.entriesOf id := heq ▸ List.mem_cons_self
      exact absurd rfl (key_not_mem hfree rfl _ hmem : _ ≠ LedgerAccount.genesis)
  refine h.append ha ?_ hnil (.inr ⟨hgenesis, opening, rfl⟩)
  intro e he
  rw [List.mem_singleton.mp he]
  rfl

end Rail.Ledger
