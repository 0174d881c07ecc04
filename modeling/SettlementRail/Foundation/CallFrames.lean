import Mathlib.Data.List.Infix
import Mathlib.Order.Defs.Unbundled
import SettlementRail.Foundation.Runs

/-! Nested calls over one world. A call keeps the world it found and puts it back if it
reverts, so what holds of the running world and of every kept one survives reverts too. -/

namespace Foundation

universe u v
variable {κ : Type u} {ω : Type v}

structure CallFrame (κ : Type u) (ω : Type v) where
  kind : κ
  saved : ω

/-- The running world and the calls in progress, the innermost first. -/
structure Nest (κ : Type u) (ω : Type v) where
  world : ω
  frames : List (CallFrame κ ω) := []

namespace Nest

def kinds (n : Nest κ ω) : List κ := n.frames.map CallFrame.kind

def enter (n : Nest κ ω) (k : κ) (w : ω) : Nest κ ω := ⟨w, ⟨k, n.world⟩ :: n.frames⟩

def write (n : Nest κ ω) (w : ω) : Nest κ ω := { n with world := w }

def leave (n : Nest κ ω) : Nest κ ω := { n with frames := n.frames.tail }

def rollback (n : Nest κ ω) : Nest κ ω :=
  match n.frames with
  | [] => n
  | f :: fs => ⟨f.saved, fs⟩

variable {n : Nest κ ω} {k : κ} {w : ω} {f : CallFrame κ ω} {above base : List (CallFrame κ ω)}
variable {P : List κ → ω → Prop}

@[simp] theorem world_enter : (n.enter k w).world = w := rfl
@[simp] theorem world_write : (n.write w).world = w := rfl
@[simp] theorem world_leave : n.leave.world = n.world := rfl
@[simp] theorem frames_enter : (n.enter k w).frames = ⟨k, n.world⟩ :: n.frames := rfl
@[simp] theorem frames_write : (n.write w).frames = n.frames := rfl
@[simp] theorem frames_leave : n.leave.frames = n.frames.tail := rfl

theorem rollback_of_frames (h : n.frames = f :: base) : n.rollback = ⟨f.saved, base⟩ := by
  rw [rollback, h]

@[simp] theorem frames_rollback : n.rollback.frames = n.frames.tail := by
  unfold rollback
  split <;> simp_all

/-- `P` of the running world under the calls in progress, and of each kept world under the
calls that were in progress when it was kept. -/
def Holds (P : List κ → ω → Prop) (n : Nest κ ω) : Prop :=
  P n.kinds n.world ∧ ∀ f fs, f :: fs <:+ n.frames → P (fs.map CallFrame.kind) f.saved

theorem holds_outermost (h : P [] w) : (⟨w, []⟩ : Nest κ ω).Holds P :=
  ⟨h, fun _ _ hfs => absurd (List.suffix_nil.mp hfs) (List.cons_ne_nil _ _)⟩

theorem Holds.write (h : n.Holds P) (hw : P n.kinds w) : (n.write w).Holds P := ⟨hw, h.2⟩

theorem Holds.enter (h : n.Holds P) (hw : P (k :: n.kinds) w) : (n.enter k w).Holds P := by
  refine ⟨hw, fun f fs hfs => ?_⟩
  rcases List.suffix_cons_iff.mp hfs with heq | hsuffix
  · obtain ⟨rfl, rfl⟩ := List.cons.inj heq
    exact h.1
  · exact h.2 f fs hsuffix

/-- A call may write before it returns. -/
theorem Holds.leave (h : n.Holds P) (hw : P n.kinds.tail w) : (n.write w).leave.Holds P := by
  refine ⟨?_, fun f fs hfs => h.2 f fs (hfs.trans (List.tail_suffix _))⟩
  rwa [kinds, frames_leave, List.map_tail]

theorem Holds.rollback (h : n.Holds P) : n.rollback.Holds P := by
  rcases hframes : n.frames with _ | ⟨f, base⟩
  · rwa [Nest.rollback, hframes]
  · rw [rollback_of_frames hframes]
    refine ⟨h.2 f base (hframes ▸ List.suffix_rfl), fun g gs hgs => h.2 g gs ?_⟩
    rw [hframes]
    exact hgs.trans (List.suffix_cons f base)

/-- The call `f` is in progress on top of `base`, and `p` holds of the running world and of
every world kept since `f` began. -/
def Inside (p : ω → Prop) (n : Nest κ ω) (f : CallFrame κ ω) (base : List (CallFrame κ ω)) :
    Prop :=
  ∃ above, n.frames = above ++ f :: base ∧ p n.world ∧ ∀ g ∈ above, p g.saved

variable {p : ω → Prop}

theorem inside_enter (hw : p w) : (n.enter k w).Inside p ⟨k, n.world⟩ n.frames :=
  ⟨[], rfl, hw, fun _ hg => absurd hg List.not_mem_nil⟩

theorem Inside.lt_length (h : n.Inside p f base) : base.length < n.frames.length := by
  obtain ⟨above, ha, -⟩ := h
  rw [ha, List.length_append, List.length_cons]
  omega

theorem Inside.write (h : n.Inside p f base) (hw : p w) : (n.write w).Inside p f base := by
  obtain ⟨above, ha, -, hkept⟩ := h
  exact ⟨above, ha, hw, hkept⟩

theorem Inside.enter (h : n.Inside p f base) (hw : p w) : (n.enter k w).Inside p f base := by
  obtain ⟨above, ha, hworld, hkept⟩ := h
  refine ⟨⟨k, n.world⟩ :: above, by rw [frames_enter, ha, List.cons_append], hw, ?_⟩
  exact List.forall_mem_cons.mpr ⟨hworld, hkept⟩

theorem Inside.leave (h : n.Inside p f base) (hw : p w) :
    (n.write w).leave.Inside p f base ∨ n.frames = f :: base := by
  obtain ⟨above, ha, -, hkept⟩ := h
  rcases above with _ | ⟨g, above⟩
  · exact .inr ha
  · refine .inl ⟨above, ?_, hw, fun g hg => hkept g (List.mem_cons_of_mem _ hg)⟩
    rw [frames_leave, frames_write, ha, List.cons_append, List.tail_cons]

/-- A revert inside a call leaves it in progress, or it is the end of that call and undoes it. -/
theorem Inside.rollback (h : n.Inside p f base) :
    n.rollback.Inside p f base ∨ n.rollback = ⟨f.saved, base⟩ := by
  obtain ⟨above, ha, -, hkept⟩ := h
  rcases above with _ | ⟨g, above⟩
  · exact .inr (rollback_of_frames ha)
  · rw [rollback_of_frames ha]
    exact .inl ⟨above, rfl, hkept g List.mem_cons_self,
      fun g hg => hkept g (List.mem_cons_of_mem _ hg)⟩

/-- Every kept world led to the running one by `R`, and older ones to younger ones. -/
def Ordered (R : ω → ω → Prop) (n : Nest κ ω) : Prop :=
  (n.world :: n.frames.map CallFrame.saved).Pairwise fun younger older => R older younger

variable {R : ω → ω → Prop}

theorem Ordered.rollback (h : n.Ordered R) : n.rollback.Ordered R := by
  rcases hframes : n.frames with _ | ⟨f, base⟩
  · rwa [Nest.rollback, hframes]
  · rw [Ordered, hframes, List.map_cons] at h
    rw [rollback_of_frames hframes]
    exact (List.pairwise_cons.mp h).2

theorem Ordered.saved (h : n.Ordered R) (hf : n.frames = f :: base) : R f.saved n.world := by
  rw [Ordered, hf, List.map_cons] at h
  exact (List.pairwise_cons.mp h).1 _ List.mem_cons_self

variable [IsTrans ω R]

theorem Ordered.write (h : n.Ordered R) (hw : R n.world w) : (n.write w).Ordered R := by
  obtain ⟨holder, hrest⟩ := List.pairwise_cons.mp h
  exact List.pairwise_cons.mpr ⟨fun v hv => trans_of R (holder v hv) hw, hrest⟩

theorem Ordered.enter (h : n.Ordered R) (hw : R n.world w) : (n.enter k w).Ordered R := by
  have hwritten := List.pairwise_cons.mp (h.write hw)
  refine List.pairwise_cons.mpr ⟨?_, h⟩
  exact List.forall_mem_cons.mpr ⟨hw, hwritten.1⟩

theorem Ordered.leave (h : n.Ordered R) (hw : R n.world w) : (n.write w).leave.Ordered R := by
  have hsub : ((n.write w).leave.frames.map CallFrame.saved).Sublist
      (n.frames.map CallFrame.saved) := (List.tail_sublist _).map _
  exact List.Pairwise.sublist (hsub.cons_cons w) (h.write hw)

end Nest
end Foundation
