import Mathlib.Algebra.Order.BigOperators.Group.List
import Mathlib.Algebra.Order.Ring.Nat

/-! Threads in a list, each at the index it was started with. A move replaces the entry of one
thread, a new thread stands at the end. -/

namespace Foundation

universe u
variable {α : Type u} {l : List α} {i k : ℕ} {a b : α}

theorem getElem?_set_cases (h : (l.set k a)[i]? = some b) :
    i = k ∧ b = a ∨ i ≠ k ∧ l[i]? = some b := by
  rw [List.getElem?_set] at h
  split_ifs at h with hk hlt
  · exact .inl ⟨hk.symm, (Option.some.inj h).symm⟩
  · exact .inr ⟨fun heq => hk heq.symm, h⟩

theorem getElem?_snoc_cases (h : (l ++ [a])[i]? = some b) :
    i = l.length ∧ b = a ∨ i < l.length ∧ l[i]? = some b := by
  rcases Nat.lt_trichotomy i l.length with hlt | rfl | hgt
  · exact .inr ⟨hlt, (List.getElem?_append_left hlt).symm.trans h⟩
  · rw [List.getElem?_concat_length] at h
    exact .inl ⟨rfl, (Option.some.inj h).symm⟩
  · have hlen := (List.getElem?_eq_some_iff.mp h).1
    rw [List.length_append, List.length_singleton] at hlen
    omega

theorem countP_set_add {p : α → Bool} (h : l[i]? = some a) :
    (l.set i b).countP p + (if p a then 1 else 0) = l.countP p + (if p b then 1 else 0) := by
  obtain ⟨hi, rfl⟩ := List.getElem?_eq_some_iff.mp h
  rw [List.countP_set hi]
  have hpos : p l[i] = true → 1 ≤ l.countP p := fun hp =>
    List.countP_pos_iff.mpr ⟨_, List.getElem_mem hi, hp⟩
  split_ifs with h₁ h₂ <;> simp_all

theorem sum_set (f : α → ℕ) (ha : l[i]? = some a) :
    ((l.set i b).map f).sum + f a = (l.map f).sum + f b := by
  induction l generalizing i with
  | nil => cases ha
  | cons c l ih =>
    cases i with
    | zero =>
      cases ha
      simp only [List.set_cons_zero, List.map_cons, List.sum_cons]
      omega
    | succ i =>
      have hrest : ((l.set i b).map f).sum + f a = (l.map f).sum + f b := ih ha
      simp only [List.set_cons_succ, List.map_cons, List.sum_cons]
      omega

end Foundation
