import Mathlib.Data.ENat.Lattice
import Mathlib.Data.Nat.Find

/-!
# Chains of a partial successor

A partial successor function and a first element give a chain, which ends where the function is
undefined and otherwise goes on for ever, also round in a cycle. Its length is a natural number or
infinite. A chain whose elements each hold a block of `size` bytes is a sequence of bytes.
-/

namespace Chain

variable {α : Type*} {next next' : α → Option α} {start : Option α}

/-- The `k`-th element of a chain. -/
def nth (next : α → Option α) (start : Option α) : Nat → Option α
  | 0 => start
  | k + 1 => (nth next start k).bind next

/-- The chain has `m` elements. -/
def HasLength (next : α → Option α) (start : Option α) (m : ℕ∞) : Prop :=
  ∀ k : Nat, (nth next start k).isSome ↔ (k : ℕ∞) < m

theorem nth_add (next : α → Option α) (start : Option α) (k h : Nat) :
    nth next start (k + h) = nth next (nth next start k) h := by
  induction h with
  | zero => rfl
  | succ h ih => rw [← Nat.add_assoc, nth, nth, ih]

theorem nth_none (next : α → Option α) (k : Nat) : nth next none k = none := by
  induction k with
  | zero => rfl
  | succ k ih => rw [nth, ih, Option.bind_none]

theorem nth_succ_of_some {a : α} {k : Nat} (h : nth next start k = some a) :
    nth next start (k + 1) = next a := by
  rw [nth, h, Option.bind_some]

/-- Past its end a chain has no elements. -/
theorem nth_none_of_le {k j : Nat} (h : nth next start k = none) (hkj : k ≤ j) :
    nth next start j = none := by
  obtain ⟨i, rfl⟩ := Nat.exists_eq_add_of_le hkj
  rw [nth_add, h, nth_none]

/-- Before one of its elements a chain has elements. -/
theorem nth_isSome_of_le {k j : Nat} (h : (nth next start k).isSome) (hjk : j ≤ k) :
    (nth next start j).isSome := by
  rw [Option.isSome_iff_ne_none] at h ⊢
  exact fun hnone => h (nth_none_of_le hnone hjk)

/-- Chains of two functions that agree on the elements of one of them are the same. -/
theorem nth_congr {n : Nat} (h : ∀ k < n, ∀ a, nth next start k = some a → next' a = next a) :
    ∀ k ≤ n, nth next' start k = nth next start k := by
  intro k
  induction k with
  | zero => exact fun _ => rfl
  | succ k ih =>
      intro hk
      rw [nth, nth, ih (by omega)]
      cases ha : nth next start k with
      | none => rfl
      | some a =>
          rw [Option.bind_some, Option.bind_some]
          exact h k (by omega) a ha

/-- A chain that has an element before `m` and none at `m` has `m` elements. -/
theorem has_length_of_none {m : Nat} (h : ∀ k < m, (nth next start k).isSome)
    (hnone : nth next start m = none) : HasLength next start m := by
  intro k
  rw [Nat.cast_lt]
  refine ⟨fun hsome => ?_, h k⟩
  by_contra hle
  rw [nth_none_of_le hnone (Nat.le_of_not_lt hle)] at hsome
  cases hsome

theorem HasLength.nth_isSome {m k : Nat} (h : HasLength next start m) (hk : k < m) :
    (nth next start k).isSome :=
  (h k).mpr (by exact_mod_cast hk)

theorem HasLength.nth_none {m k : Nat} (h : HasLength next start m) (hk : m ≤ k) :
    nth next start k = none := by
  rw [← Option.not_isSome_iff_eq_none, h k, not_lt]
  exact_mod_cast hk

/-- A chain that ends visits no element twice. -/
theorem HasLength.nth_inj {m i j : Nat} {a : α} (h : HasLength next start m)
    (hi : nth next start i = some a) (hj : nth next start j = some a) : i = j := by
  -- from a second visit on the chain would repeat itself and never end
  have hlt : ∀ {i j : Nat}, nth next start i = some a → nth next start j = some a → ¬ i < j := by
    intro i j hi hj hij
    have him : i < m := by exact_mod_cast (h i).mp (Option.isSome_of_eq_some hi)
    have hlast := h.nth_isSome (show m - 1 < m by omega)
    have hend := h.nth_none (show m ≤ j + (m - 1 - i) by omega)
    rw [nth_add, hj] at hend
    rw [show m - 1 = i + (m - 1 - i) by omega, nth_add, hi, hend] at hlast
    cases hlast
  have hij := hlt hi hj
  have hji := hlt hj hi
  omega

/-! ## Bytes along a chain -/

/-- How many of the `n` bytes from position `p` a chain of blocks of `size` bytes has. -/
structure Slice (next : α → Option α) (start : Option α) (size p n r : Nat) : Prop where
  le : r ≤ n
  inside : ∀ i < r, (nth next start ((p + i) / size)).isSome
  stops : r = n ∨ nth next start ((p + r) / size) = none

/-- No bytes, at the end of the chain. -/
theorem Slice.nil {size p : Nat} (n : Nat) (h : nth next start (p / size) = none) :
    Slice next start size p n 0 where
  le := Nat.zero_le n
  inside := fun _ hi => absurd hi (Nat.not_lt_zero _)
  stops := Or.inr h

/-- Bytes of one block, and the bytes behind them. -/
theorem Slice.cons {size p n t r : Nat} (ht : t ≤ n)
    (hblock : ∀ i < t, (nth next start ((p + i) / size)).isSome)
    (h : Slice next start size (p + t) (n - t) r) : Slice next start size p n (t + r) where
  le := by
    have := h.le
    omega
  inside := by
    intro i hi
    rcases Nat.lt_or_ge i t with hlt | hge
    · exact hblock i hlt
    · have hrest := h.inside (i - t) (by omega)
      rwa [show p + t + (i - t) = p + i by omega] at hrest
  stops := by
    refine h.stops.imp (fun hr => by omega) fun hnone => ?_
    rwa [← Nat.add_assoc]

/-- The bytes from a position are as many as there are from there to the end of the chain. -/
theorem Slice.count {size p n r : Nat} {m : ℕ∞} (h : Slice next start size p n r)
    (hlen : HasLength next start m) (hsize : 0 < size) :
    (r : ℕ∞) = min (n : ℕ∞) (m * size - p) := by
  cases m with
  | top =>
      rw [ENat.top_mul (by exact_mod_cast hsize.ne'), ENat.top_sub_natCast, min_eq_left le_top]
      rcases h.stops with rfl | hnone
      · rfl
      · have hsome := (hlen ((p + r) / size)).mpr (ENat.natCast_lt_top _)
        rw [hnone] at hsome
        cases hsome
  | coe m =>
      have hlt : ∀ i < r, p + i < m * size := fun i hi => by
        have hsome := (hlen _).mp (h.inside i hi)
        exact (Nat.div_lt_iff_lt_mul hsize).mp (by exact_mod_cast hsome)
      have hle : r ≤ m * size - p := by
        rcases Nat.eq_zero_or_pos r with rfl | hpos
        · exact Nat.zero_le _
        · have hlast := hlt (r - 1) (by omega)
          omega
      have hmin : r = min n (m * size - p) := by
        rcases h.stops with rfl | hnone
        · exact (Nat.min_eq_left hle).symm
        · have hge : m ≤ (p + r) / size := by
            by_contra hnot
            have hsome := hlen.nth_isSome (Nat.lt_of_not_le hnot)
            rw [hnone] at hsome
            cases hsome
          have hmul := (Nat.le_div_iff_mul_le hsize).mp hge
          have hrn := h.le
          omega
      rw [hmin]
      rfl

/-- `n` bytes from a position are there exactly when the chain reaches behind the last of them. -/
theorem le_bytes_iff {m : ℕ∞} {size p n : Nat} (hn : 1 ≤ n) :
    (n : ℕ∞) ≤ m * size - p ↔ ((p + n : Nat) : ℕ∞) ≤ m * size := by
  rw [Nat.cast_add]
  constructor
  · intro h
    have hpos : (0 : ℕ∞) < m * size - p := lt_of_lt_of_le (by exact_mod_cast hn) h
    have hle := (tsub_pos_iff_lt.mp hpos).le
    calc ((p : ℕ∞) + n) ≤ p + (m * size - p) := by gcongr
      _ = m * size := add_tsub_cancel_of_le hle
  · intro h
    exact ENat.le_sub_of_add_le_left (ENat.natCast_ne_top p) h

/-- A chain that reaches behind a byte has its block. -/
theorem HasLength.block_isSome {m : ℕ∞} {size p : Nat} (h : HasLength next start m)
    (hsize : 0 < size) (hp : ((p + 1 : Nat) : ℕ∞) ≤ m * size) :
    (nth next start (p / size)).isSome := by
  rw [h]
  cases m with
  | top => exact ENat.natCast_lt_top _
  | coe m =>
      have hlt : p + 1 ≤ m * size := by exact_mod_cast hp
      exact_mod_cast (Nat.div_lt_iff_lt_mul hsize).mpr hlt

end Chain
