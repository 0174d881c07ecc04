import Mathlib.Logic.Relation

/-! A log of moves `(from, to)` read as a walk: every entry starts where the one before it
ended, and every entry is an edge. -/

namespace Foundation

universe u
variable {α : Type u} {edge : α → α → Prop} {a b c : α} {l : List (α × α)}

def Follows (edge : α → α → Prop) : α → List (α × α) → α → Prop
  | a, [], b => a = b
  | a, m :: l, b => m.1 = a ∧ edge m.1 m.2 ∧ Follows edge m.2 l b

theorem Follows.snoc (h : Follows edge a l b) (hbc : edge b c) :
    Follows edge a (l ++ [(b, c)]) c := by
  induction l generalizing a with
  | nil =>
    obtain rfl : a = b := h
    exact ⟨rfl, hbc, rfl⟩
  | cons m l ih => exact ⟨h.1, h.2.1, ih h.2.2⟩

theorem Follows.last_eq (h : Follows edge a l b) : (l.map Prod.snd).getLastD a = b := by
  induction l generalizing a with
  | nil => exact h
  | cons m l ih =>
    rw [List.map_cons, List.getLastD_cons]
    exact ih h.2.2

end Foundation
