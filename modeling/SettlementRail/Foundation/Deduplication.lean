import Mathlib.Data.List.Induction
import Mathlib.Data.List.Nodup
import Mathlib.Data.List.Perm.Subperm

/-! A consumer that drops every item whose key it has seen. Where keys determine items it takes
each item once, however often the stream repeats it. -/

namespace Foundation

universe u v
variable {κ : Type u} {α : Type v} [DecidableEq κ] {key : α → κ} {a b : α} {l l' items : List α}

def takeNew (key : α → κ) (taken : List α) (a : α) : List α :=
  if key a ∈ taken.map key then taken else taken ++ [a]

def firsts (key : α → κ) (stream : List α) : List α := stream.foldl (takeNew key) []

theorem firsts_snoc : firsts key (l ++ [a]) = takeNew key (firsts key l) a := by
  rw [firsts, List.foldl_append]
  rfl

theorem prefix_takeNew {taken : List α} : taken <+: takeNew key taken a := by
  unfold takeNew
  split_ifs
  · exact List.prefix_rfl
  · exact List.prefix_append taken [a]

/-- What the consumer took it keeps, whatever else comes. -/
theorem firsts_prefix (h : l <+: l') : firsts key l <+: firsts key l' := by
  obtain ⟨rest, rfl⟩ := h
  induction rest using List.reverseRecOn with
  | nil => simp
  | append_singleton rest a ih =>
    rw [← List.append_assoc, firsts_snoc]
    exact ih.trans prefix_takeNew

theorem mem_keys_firsts {k : κ} : k ∈ (firsts key l).map key ↔ k ∈ l.map key := by
  induction l using List.reverseRecOn with
  | nil => rfl
  | append_singleton l a ih =>
    rw [firsts_snoc, takeNew, List.map_append, List.mem_append, ← ih]
    split_ifs with hseen
    · refine ⟨Or.inl, fun h => h.elim id fun hk => ?_⟩
      rw [List.mem_singleton.mp hk]
      exact hseen
    · rw [List.map_append, List.mem_append]

theorem subset_of_firsts (h : a ∈ firsts key l) : a ∈ l := by
  induction l using List.reverseRecOn with
  | nil => exact h
  | append_singleton l b ih =>
    rw [firsts_snoc, takeNew] at h
    split_ifs at h
    · exact List.mem_append_left _ (ih h)
    · rcases List.mem_append.mp h with hold | hnew
      · exact List.mem_append_left _ (ih hold)
      · exact List.mem_append_right _ hnew

theorem keys_firsts_nodup : ((firsts key l).map key).Nodup := by
  induction l using List.reverseRecOn with
  | nil => exact List.nodup_nil
  | append_singleton l a ih =>
    rw [firsts_snoc, takeNew]
    split_ifs with hseen
    · exact ih
    · rw [List.map_append, List.map_singleton, List.nodup_append]
      refine ⟨ih, List.nodup_singleton _, fun k hk k' hk' heq => hseen ?_⟩
      rwa [← List.mem_singleton.mp hk', ← heq]

/-- A stream over a stock of items with different keys: nothing is taken twice. -/
theorem firsts_subperm (hsub : l ⊆ items) : (firsts key l).Subperm items :=
  List.Nodup.subperm (List.Nodup.of_map key keys_firsts_nodup)
    fun _ ha => hsub (subset_of_firsts ha)

/-- If the stream has the whole stock, everything is taken, each item once. -/
theorem firsts_perm (hkeys : (items.map key).Nodup) (hsub : l ⊆ items) (hall : items ⊆ l) :
    (firsts key l).Perm items := by
  refine (List.perm_ext_iff_of_nodup (List.Nodup.of_map key keys_firsts_nodup)
    (List.Nodup.of_map key hkeys)).mpr fun a => ⟨fun ha => hsub (subset_of_firsts ha), fun ha => ?_⟩
  have hkey : key a ∈ (firsts key l).map key :=
    mem_keys_firsts.mpr (List.mem_map_of_mem (hall ha))
  obtain ⟨b, hb, heq⟩ := List.mem_map.mp hkey
  have hsame : b = a := List.inj_on_of_nodup_map hkeys (hsub (subset_of_firsts hb)) ha heq
  rwa [← hsame]

end Foundation
