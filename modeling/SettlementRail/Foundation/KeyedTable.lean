import Mathlib.Algebra.Order.BigOperators.Group.List
import Mathlib.Algebra.Order.Ring.Nat
import Mathlib.Data.List.Nodup

/-! Tables with a unique key, the shape of a relation with a unique index: inserting a key
that is taken fails, and an update never touches the key column. -/

namespace Foundation

universe u v
variable {κ : Type u} {α : Type v} [DecidableEq κ] {key : α → κ}

/-- Rows in insertion order, no two of them with the same key. -/
structure Table (κ : Type u) (α : Type v) (key : α → κ) where
  rows : List α
  keys_nodup : (rows.map key).Nodup

namespace Table

def empty : Table κ α key := ⟨[], List.nodup_nil⟩

def find? (t : Table κ α key) (k : κ) : Option α := t.rows.find? fun a => key a = k

def insert? (t : Table κ α key) (a : α) : Option (Table κ α key) :=
  if h : key a ∈ t.rows.map key then none
  else some ⟨t.rows ++ [a], by
    rw [List.map_append, List.nodup_append]
    refine ⟨t.keys_nodup, by simp, ?_⟩
    rintro x hx y hy rfl
    simp only [List.map_cons, List.map_nil, List.mem_singleton] at hy
    exact h (hy ▸ hx)⟩

def updateRow (key : α → κ) (k : κ) (f : α → α) (a : α) : α := if key a = k then f a else a

theorem key_updateRow {f : α → α} (hf : ∀ a, key (f a) = key a) (k : κ) (a : α) :
    key (updateRow key k f a) = key a := by
  unfold updateRow
  split_ifs
  · exact hf a
  · rfl

def modify (t : Table κ α key) (k : κ) (f : α → α) (hf : ∀ a, key (f a) = key a) :
    Table κ α key :=
  ⟨t.rows.map (updateRow key k f), by
    rw [List.map_map, show key ∘ updateRow key k f = key from
      funext (key_updateRow hf k)]
    exact t.keys_nodup⟩

variable {t t' : Table κ α key} {a b : α} {k k' : κ} {f : α → α}

theorem key_of_find? (h : t.find? k = some a) : key a = k := by
  simpa using List.find?_some h

theorem mem_of_find? (h : t.find? k = some a) : a ∈ t.rows := List.mem_of_find?_eq_some h

theorem find?_of_mem (h : a ∈ t.rows) : t.find? (key a) = some a := by
  rcases hf : t.find? (key a) with _ | b
  · have hne := List.find?_eq_none.mp hf a h
    simp at hne
  · exact congrArg some (List.inj_on_of_nodup_map t.keys_nodup (mem_of_find? hf) h
      (key_of_find? hf))

theorem mem_iff_find? : a ∈ t.rows ↔ t.find? (key a) = some a :=
  ⟨find?_of_mem, mem_of_find?⟩

theorem find?_eq_none_iff : t.find? k = none ↔ k ∉ t.rows.map key := by
  simp [find?, List.find?_eq_none]

@[simp] theorem find?_empty : (empty : Table κ α key).find? k = none := rfl

theorem insert?_eq_none_iff : t.insert? a = none ↔ (t.find? (key a)).isSome := by
  rw [← Option.ne_none_iff_isSome, ne_eq, find?_eq_none_iff, not_not]
  unfold insert?
  split_ifs with h <;> simp [h]

theorem insert?_eq_some (h : t.insert? a = some t') :
    t.find? (key a) = none ∧ t'.rows = t.rows ++ [a] := by
  unfold insert? at h
  split_ifs at h with hk
  rw [find?_eq_none_iff]
  exact ⟨hk, by rw [← Option.some.inj h]⟩

theorem find?_insert? (h : t.insert? a = some t') (k : κ) :
    t'.find? k = if k = key a then some a else t.find? k := by
  obtain ⟨hnone, hrows⟩ := insert?_eq_some h
  simp only [find?] at hnone ⊢
  rw [hrows, List.find?_append]
  split_ifs with hk
  · subst hk
    rw [hnone]
    simp
  · have : key a ≠ k := fun e => hk e.symm
    simp [this]

theorem find?_modify {hf : ∀ a, key (f a) = key a} (k' : κ) :
    (t.modify k f hf).find? k' = if k' = k then (t.find? k').map f else t.find? k' := by
  simp only [find?, modify, List.find?_map]
  have hcomp : ((fun a => decide (key a = k')) ∘ updateRow key k f)
      = fun a => decide (key a = k') := by
    funext a
    simp only [Function.comp, key_updateRow hf]
  rw [hcomp]
  rcases hfind : List.find? (fun a => decide (key a = k')) t.rows with _ | a
  · simp
  · have hka : key a = k' := by simpa using List.find?_some hfind
    by_cases hk : k' = k
    · simp [updateRow, hka, hk]
    · simp [updateRow, hka, hk]

def sumBy (t : Table κ α key) (w : α → ℕ) : ℕ := (t.rows.map w).sum

omit [DecidableEq κ] in
theorem sumBy_le {w w' : α → ℕ} (h : ∀ a ∈ t.rows, w a ≤ w' a) : t.sumBy w ≤ t.sumBy w' :=
  List.sum_le_sum h

theorem sumBy_key (h : t.find? k = some a) (w : α → ℕ) :
    t.sumBy (fun b => if key b = k then w b else 0) = w a := by
  have hkey := key_of_find? h
  obtain ⟨before, after, hrows⟩ := List.append_of_mem (mem_of_find? h)
  have hnodup := t.keys_nodup
  rw [hrows, List.map_append, List.map_cons, List.nodup_append, List.nodup_cons] at hnodup
  obtain ⟨-, ⟨hafter, -⟩, hbefore⟩ := hnodup
  have hzero₁ : (before.map fun b => if key b = k then w b else 0).sum = 0 := by
    refine List.sum_eq_zero fun n hn => ?_
    obtain ⟨b, hb, rfl⟩ := List.mem_map.mp hn
    refine if_neg fun hbk => ?_
    exact hbefore _ (List.mem_map_of_mem hb) _ List.mem_cons_self (hbk.trans hkey.symm)
  have hzero₂ : (after.map fun b => if key b = k then w b else 0).sum = 0 := by
    refine List.sum_eq_zero fun n hn => ?_
    obtain ⟨b, hb, rfl⟩ := List.mem_map.mp hn
    refine if_neg fun hbk => hafter ?_
    rw [hkey, ← hbk]
    exact List.mem_map_of_mem hb
  rw [sumBy, hrows, List.map_append, List.sum_append, List.map_cons, List.sum_cons, hzero₁, hzero₂,
    if_pos hkey, Nat.zero_add, Nat.add_zero]

omit [DecidableEq κ] in
theorem sumBy_add (w w' : α → ℕ) : t.sumBy w + t.sumBy w' = t.sumBy fun a => w a + w' a := by
  simp [sumBy, List.sum_map_add]

end Table

omit [DecidableEq κ] in
theorem sum_eq_of_same_keys {β : Type v} {l : List α} {m : List β} {f : α → κ} {g : β → κ}
    {v : α → ℕ} {w : β → ℕ} (amount : κ → ℕ) (hl : (l.map f).Nodup) (hm : (m.map g).Nodup)
    (hkeys : ∀ k, k ∈ l.map f ↔ k ∈ m.map g) (hv : ∀ a ∈ l, v a = amount (f a))
    (hw : ∀ b ∈ m, w b = amount (g b)) : (l.map v).sum = (m.map w).sum := by
  have hperm : (l.map f).Perm (m.map g) := (List.perm_ext_iff_of_nodup hl hm).mpr hkeys
  calc (l.map v).sum = ((l.map f).map amount).sum := by
        rw [List.map_map]
        exact congrArg List.sum (List.map_congr_left hv)
    _ = ((m.map g).map amount).sum := (hperm.map amount).sum_nat
    _ = (m.map w).sum := by
        rw [List.map_map]
        exact congrArg List.sum (List.map_congr_left fun b hb => (hw b hb).symm)

end Foundation
