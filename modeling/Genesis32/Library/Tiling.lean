import Mathlib.Data.List.Basic

/-!
# Tilings

`Tiles addr width lo l hi` says that the cells of `l`, each with an address and a width, lie one
behind the other in this order and fill `[lo, hi)`. Cells of a tiling do not overlap, and a cell can
be cut in two.
-/

/-- The cells of the list fill `[lo, hi)` without a gap. -/
def Tiles {α : Type*} (addr width : α → Nat) : Nat → List α → Nat → Prop
  | lo, [], hi => lo = hi
  | lo, a :: l, hi => addr a = lo ∧ Tiles addr width (lo + width a) l hi

namespace Tiles

variable {α : Type*} {addr width : α → Nat} {lo hi : Nat} {xs ys : List α} {a : α}

theorem append_iff : ∀ {xs : List α} {lo : Nat}, Tiles addr width lo (xs ++ ys) hi ↔
    ∃ mid, Tiles addr width lo xs mid ∧ Tiles addr width mid ys hi
  | [], lo => ⟨fun h => ⟨lo, rfl, h⟩, fun ⟨_, hlo, h⟩ => hlo ▸ h⟩
  | a :: xs, lo => by
      rw [List.cons_append, Tiles, append_iff]
      constructor
      · intro hall
        obtain ⟨ha, mid, hxs, hys⟩ := hall
        exact ⟨mid, ⟨ha, hxs⟩, hys⟩
      · intro hall
        obtain ⟨mid, ⟨ha, hxs⟩, hys⟩ := hall
        exact ⟨ha, mid, hxs, hys⟩

theorem le : ∀ {xs : List α} {lo : Nat}, Tiles addr width lo xs hi → lo ≤ hi
  | [], _, h => Nat.le_of_eq h
  | _ :: _, _, ⟨_, h⟩ => Nat.le_trans (Nat.le_add_right _ _) h.le

/-- A cell lies in the range that is tiled. -/
theorem bounds (h : Tiles addr width lo xs hi) (ha : a ∈ xs) :
    lo ≤ addr a ∧ addr a + width a ≤ hi := by
  obtain ⟨before, after, rfl⟩ := List.append_of_mem ha
  obtain ⟨mid, hbefore, haddr, hafter⟩ := append_iff.mp h
  have hlo := hbefore.le
  have hhi := hafter.le
  omega

/-- A cell lies behind those before it and in front of those after it. -/
theorem apart (h : Tiles addr width lo (xs ++ a :: ys) hi) :
    (∀ b ∈ xs, addr b + width b ≤ addr a) ∧ ∀ b ∈ ys, addr a + width a ≤ addr b := by
  obtain ⟨mid, hxs, rfl, hys⟩ := append_iff.mp h
  exact ⟨fun b hb => (hxs.bounds hb).2, fun b hb => (hys.bounds hb).1⟩

/-- Cells with a width have different addresses. -/
theorem addr_inj (hpos : ∀ b ∈ xs, 0 < width b) (h : Tiles addr width lo xs hi) {a b : α}
    (ha : a ∈ xs) (hb : b ∈ xs) (heq : addr a = addr b) : a = b := by
  obtain ⟨before, after, rfl⟩ := List.append_of_mem ha
  obtain ⟨hbefore, hafter⟩ := h.apart
  have hwidth := hpos a ha
  rcases List.mem_append.mp hb with hmem | hmem
  · have hwidth' := hpos b hb
    have hle := hbefore b hmem
    omega
  · rcases List.mem_cons.mp hmem with rfl | hmem
    · rfl
    · have hle := hafter b hmem
      omega

/-- A cell can be replaced by cells that fill its place. -/
theorem replace {cells : List α} (h : Tiles addr width lo (xs ++ a :: ys) hi)
    (hcells : Tiles addr width (addr a) cells (addr a + width a)) :
    Tiles addr width lo (xs ++ (cells ++ ys)) hi := by
  obtain ⟨mid, hxs, rfl, hys⟩ := append_iff.mp h
  exact append_iff.mpr ⟨_, hxs, append_iff.mpr ⟨_, hcells, hys⟩⟩

end Tiles
