import Genesis32.Tools.Fat12Image

/-!
# The FAT12 layout

A FAT12 table has 12 bits for a cluster, two values in three bytes. `packFat12` writes a list of
values in this layout, and `next_cluster_packed` shows that `next_cluster` of `tools/fat.c` reads
each of them back.
-/

namespace Genesis32

open Word

/-- Two values in three bytes: a little-endian number of 24 bits with the first in its low half. -/
def packPair (a b : BitVec 12) : List UInt8 :=
  let word := a.toNat + 4096 * b.toNat
  [UInt8.ofNat word, UInt8.ofNat (word / 256), UInt8.ofNat (word / 65536)]

/-- A list of values in the FAT12 layout. Behind a list of odd length the last three bytes have room
for a `spare` value. -/
def packFat12 (spare : BitVec 12) : List (BitVec 12) → List UInt8
  | [] => []
  | [a] => packPair a spare
  | a :: b :: values => packPair a b ++ packFat12 spare values

/-- The bytes at the start of a table. -/
def StartsWith (fat : ByteMem) (bytes : List UInt8) : Prop :=
  ∀ j (hj : j < bytes.length), fat j = bytes[j]

/-- The table with these bytes, and zeros behind them. -/
def fatTable (bytes : List UInt8) : ByteMem := fun j => bytes.getD j 0x00

variable {fat : ByteMem} {a b spare : BitVec 12} {xs ys : List UInt8} {values : List (BitVec 12)}

theorem starts_with_fat_table (bytes : List UInt8) : StartsWith (fatTable bytes) bytes := by
  intro j hj
  rw [fatTable, List.getD_eq_getElem?_getD, List.getElem?_eq_getElem hj, Option.getD_some]

theorem StartsWith.append (h : StartsWith fat (xs ++ ys)) :
    StartsWith fat xs ∧ StartsWith (fat.view xs.length) ys := by
  constructor
  · intro j hj
    have hbyte := h j (by rw [List.length_append]; omega)
    rwa [List.getElem_append_left hj] at hbyte
  · intro j hj
    have hbyte := h (xs.length + j) (by rw [List.length_append]; omega)
    rw [List.getElem_append_right (Nat.le_add_right _ _)] at hbyte
    rw [ByteMem.view_apply]
    simpa only [Nat.add_sub_cancel_left] using hbyte

/-! ## One pair -/

/-- The entry of an even index is a byte and the low half of the next one. -/
theorem next_cluster_zero (fat : ByteMem) :
    nextCluster fat 0 = (fat 0).toNat + (fat 1).toNat % 16 * 256 := by
  have hbyte := (fat 0).toNat_lt
  have hmask : (fat 1).toNat &&& 0x0f = (fat 1).toNat % 16 :=
    Nat.and_two_pow_sub_one_eq_mod _ 4
  have hhigh : ((fat 1).toNat % 16) <<< 8 % 2 ^ 8 = 0 := by
    rw [Nat.shiftLeft_eq]
    omega
  change (fat 0).toNat ||| ((fat 1).toNat &&& 0x0f) <<< 8 = _
  rw [hmask, Nat.or_comm, lor_low hhigh hbyte, Nat.shiftLeft_eq]
  omega

/-- The entry of an odd index is the high half of a byte and the next one. -/
theorem next_cluster_one (fat : ByteMem) :
    nextCluster fat 1 = (fat 1).toNat / 16 + 16 * (fat 2).toNat := by
  have hbyte := (fat 1).toNat_lt
  have hmask : (fat 1).toNat &&& 0xf0 = (fat 1).toNat - (fat 1).toNat % 2 ^ 4 :=
    land_high (w := 8) (n := 4) (by decide) hbyte
  have hlow : ((fat 1).toNat &&& 0xf0) >>> 4 = (fat 1).toNat / 16 := by
    rw [hmask, Nat.shiftRight_eq_div_pow]
    omega
  have hhigh : (fat 2).toNat <<< 4 % 2 ^ 4 = 0 := by
    rw [Nat.shiftLeft_eq]
    omega
  change (fat 2).toNat <<< 4 ||| ((fat 1).toNat &&& 0xf0) >>> 4 = _
  rw [hlow, lor_low hhigh (by omega), Nat.shiftLeft_eq]
  omega

/-- The two values of the first three bytes, without a bit of one in the other. -/
theorem next_cluster_pair (h : StartsWith fat (packPair a b)) :
    nextCluster fat 0 = a.toNat ∧ nextCluster fat 1 = b.toNat := by
  have ha := a.isLt
  have hb := b.isLt
  have h0 : (fat 0).toNat = (a.toNat + 4096 * b.toNat) % 256 :=
    congrArg UInt8.toNat (h 0 (Nat.succ_pos 2))
  have h1 : (fat 1).toNat = (a.toNat + 4096 * b.toNat) / 256 % 256 :=
    congrArg UInt8.toNat (h 1 (Nat.succ_lt_succ (Nat.succ_pos 1)))
  have h2 : (fat 2).toNat = (a.toNat + 4096 * b.toNat) / 65536 % 256 :=
    congrArg UInt8.toNat (h 2 (Nat.lt_succ_self 2))
  rw [next_cluster_zero, next_cluster_one, h0, h1, h2]
  constructor <;> omega

/-! ## The whole table -/

/-- The entries of pair `k` are read from the three bytes of this pair. -/
theorem next_cluster_view (fat : ByteMem) {k : Nat} (hk : 3 * k + 1 < 65536) :
    nextCluster fat (2 * k) = nextCluster (fat.view (3 * k)) 0 ∧
      nextCluster fat (2 * k + 1) = nextCluster (fat.view (3 * k)) 1 := by
  have heven : 2 * k * 3 / 2 % 65536 = 3 * k := by omega
  have hodd : (2 * k + 1) * 3 / 2 % 65536 = 3 * k + 1 := by omega
  constructor
  · simp only [nextCluster, heven, ByteMem.view_apply, show 2 * k % 2 = 0 by omega]
    rfl
  · simp only [nextCluster, hodd, ByteMem.view_apply, show (2 * k + 1) % 2 = 1 by omega]

/-- The bytes of pair `k` of a packed list. -/
theorem starts_with_pair : ∀ k (values : List (BitVec 12)) (fat : ByteMem),
    StartsWith fat (packFat12 spare values) → ∀ hk : 2 * k < values.length,
      StartsWith (fat.view (3 * k)) (packPair values[2 * k] (values.getD (2 * k + 1) spare)) := by
  intro k
  induction k with
  | zero =>
      intro values fat h hk
      have hview : fat.view (3 * 0) = fat := by
        funext j
        rw [ByteMem.view_apply, Nat.mul_zero, Nat.zero_add]
      rw [hview]
      match values with
      | [_] => exact h
      | _ :: _ :: _ => exact h.append.1
  | succ k ih =>
      intro values fat h hk
      match values with
      | [_] =>
          rw [List.length_singleton] at hk
          omega
      | a :: b :: values =>
          have hlength : 2 * k < values.length := by
            simp only [List.length_cons] at hk
            omega
          have hview : fat.view (3 * (k + 1)) = (fat.view (packPair a b).length).view (3 * k) := by
            funext j
            simp only [ByteMem.view_apply, packPair, List.length_cons, List.length_nil]
            congr 1
            omega
          have hrest := ih values _ h.append.2 hlength
          rw [hview]
          exact hrest

/-- Each value of a packed list is the entry of its index. -/
theorem next_cluster_packed (spare : BitVec 12) (values : List (BitVec 12)) (fat : ByteMem)
    (h : StartsWith fat (packFat12 spare values)) {i : Nat} (hi : i < values.length)
    (hbound : i < 4096) : nextCluster fat i = values[i].toNat := by
  obtain ⟨k, rfl | rfl⟩ := Nat.even_or_odd' i
  · have hpair := starts_with_pair k values fat h hi
    have hentry := (next_cluster_view fat (k := k) (by omega)).1
    rw [hentry]
    exact (next_cluster_pair hpair).1
  · have hpair := starts_with_pair k values fat h (by omega)
    have hentry := (next_cluster_view fat (k := k) (by omega)).2
    rw [hentry, (next_cluster_pair hpair).2, List.getD_eq_getElem?_getD,
      List.getElem?_eq_getElem hi, Option.getD_some]

/-- Three values, with the last one in a pair of its own. -/
theorem next_cluster_packed_three :
    nextCluster (fatTable (packFat12 0 [0x003, 0x004, 0xfff])) 2 = 0xfff :=
  next_cluster_packed 0 [0x003, 0x004, 0xfff] _ (starts_with_fat_table _) (i := 2) (by decide)
    (by decide)

end Genesis32
