import Mathlib.Data.List.Range
import Mathlib.Data.List.Nodup

/-! The canonical chain as one account sees it: blocks in order, the account's transactions
in each of them, numbered without gap or repetition. A new head replaces a suffix. -/

namespace Foundation

universe u v
variable {β : Type u} {τ : Type v} (entries : β → List τ)

def chainEntries (chain : List β) : List τ := chain.flatMap entries

def locate (p : τ → Bool) : List β → Option (ℕ × β × τ)
  | [] => none
  | b :: bs =>
    match (entries b).find? p with
    | some e => some (0, b, e)
    | none => (locate p bs).map fun r => (r.1 + 1, r.2.1, r.2.2)

/-- The last `drop` blocks leave the chain and `new` takes their place. -/
def newHead (drop : ℕ) (new chain : List β) : List β :=
  chain.take (chain.length - drop) ++ new

/-- The account's numbers are used in order, each exactly once, from `base` on. -/
def Sequential (number : τ → ℕ) (base : ℕ) (chain : List β) : Prop :=
  (chainEntries entries chain).map number =
    List.range' base (chainEntries entries chain).length

instance (number : τ → ℕ) (base : ℕ) (chain : List β) :
    Decidable (Sequential entries number base chain) :=
  inferInstanceAs (Decidable (_ = _))

variable {entries} {number : τ → ℕ} {base : ℕ} {chain : List β} {p : τ → Bool}

@[simp] theorem chainEntries_nil : chainEntries entries ([] : List β) = [] := rfl

@[simp] theorem chainEntries_append (as bs : List β) :
    chainEntries entries (as ++ bs) = chainEntries entries as ++ chainEntries entries bs := by
  simp [chainEntries]

theorem mem_chainEntries {e : τ} :
    e ∈ chainEntries entries chain ↔ ∃ b ∈ chain, e ∈ entries b := by
  simp [chainEntries]

theorem Sequential.nodup (h : Sequential entries number base chain) :
    ((chainEntries entries chain).map number).Nodup := h ▸ List.nodup_range'

theorem Sequential.eq_of_number_eq (h : Sequential entries number base chain) {e e' : τ}
    (he : e ∈ chainEntries entries chain) (he' : e' ∈ chainEntries entries chain)
    (hn : number e = number e') : e = e' :=
  List.inj_on_of_nodup_map h.nodup he he' hn

theorem Sequential.number_mem_iff (h : Sequential entries number base chain) {n : ℕ} :
    (∃ e ∈ chainEntries entries chain, number e = n) ↔
      base ≤ n ∧ n < base + (chainEntries entries chain).length := by
  rw [← List.mem_map, h, List.mem_range'_1]

theorem Sequential.number_lt (h : Sequential entries number base chain) {e : τ}
    (he : e ∈ chainEntries entries chain) :
    number e < base + (chainEntries entries chain).length :=
  (h.number_mem_iff.mp ⟨e, he, rfl⟩).2

/-- A located entry stands in the block with the index found. -/
theorem locate_spec {r : ℕ × β × τ} (h : locate entries p chain = some r) :
    chain[r.1]? = some r.2.1 ∧ r.2.2 ∈ entries r.2.1 ∧ p r.2.2 = true := by
  induction chain generalizing r with
  | nil => cases h
  | cons b bs ih =>
    simp only [locate] at h
    rcases hfind : (entries b).find? p with _ | e <;> simp only [hfind] at h
    · obtain ⟨q, hq, rfl⟩ := Option.map_eq_some_iff.mp h
      obtain ⟨hblock, hmem, hp⟩ := ih hq
      exact ⟨by rwa [List.getElem?_cons_succ], hmem, hp⟩
    · cases h
      exact ⟨rfl, List.mem_of_find?_eq_some hfind, List.find?_some hfind⟩

theorem exists_locate {e : τ} (he : e ∈ chainEntries entries chain) (hp : p e = true) :
    ∃ r, locate entries p chain = some r := by
  induction chain with
  | nil => simp at he
  | cons b bs ih =>
    simp only [locate]
    rcases hfind : (entries b).find? p with _ | a
    · have hnot : e ∉ entries b := fun hmem => List.find?_eq_none.mp hfind e hmem hp
      have hrest : e ∈ chainEntries entries bs :=
        (List.mem_append.mp (by simpa [chainEntries] using he)).resolve_left hnot
      obtain ⟨r, hr⟩ := ih hrest
      exact ⟨_, by rw [hr]; rfl⟩
    · exact ⟨_, rfl⟩

/-- The part of the chain at least `depth` deep; the head itself is one deep. -/
def settled (depth : ℕ) (chain : List β) : List β := chain.take (chain.length + 1 - depth)

theorem settled_isPrefix (depth : ℕ) (chain : List β) : settled depth chain <+: chain :=
  List.take_prefix _ _

theorem length_settled {depth : ℕ} (hpos : 0 < depth) :
    settled depth chain = [] ∨ (settled depth chain).length + depth ≤ chain.length + 1 := by
  rcases Nat.lt_or_ge (chain.length + 1) depth with hlt | hge
  · left
    rw [settled, Nat.sub_eq_zero_of_le (Nat.le_of_lt hlt), List.take_zero]
  · right
    rw [settled, List.length_take]
    omega

theorem prefix_newHead {drop : ℕ} {part new : List β} (hpart : part <+: chain)
    (hlen : part.length + drop ≤ chain.length) : part <+: newHead drop new chain :=
  (List.prefix_take_iff.mpr ⟨hpart, by omega⟩).trans (List.prefix_append _ _)

theorem mem_chainEntries_of_partial {part : List β} (hpart : part <+: chain) {e : τ}
    (he : e ∈ chainEntries entries part) : e ∈ chainEntries entries chain := by
  obtain ⟨rest, rfl⟩ := hpart
  rw [chainEntries_append]
  exact List.mem_append_left _ he

theorem length_filter_le_one {l : List τ} {f : τ → ℕ} (hnd : (l.map f).Nodup) {n : ℕ}
    (h : ∀ e ∈ l, p e = true → f e = n) : (l.filter p).length ≤ 1 := by
  have hsub : ((l.filter p).map f).Nodup := hnd.sublist (List.filter_sublist.map f)
  have hconst : ∀ e ∈ l.filter p, f e = n := fun e he =>
    h e (List.mem_filter.mp he).1 (List.mem_filter.mp he).2
  rcases hl : l.filter p with _ | ⟨a, _ | ⟨b, rest⟩⟩
  · simp
  · simp
  · rw [hl] at hsub hconst
    have hab : f a = f b := by
      rw [hconst a (by simp), hconst b (by simp)]
    simp [hab] at hsub

end Foundation
