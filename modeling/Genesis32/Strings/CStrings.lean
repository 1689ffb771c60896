import Mathlib.Data.Int.Order.Lemmas
import Genesis32.FileSyst.DirEntry

/-!
# String functions

`strncpy` and `strcmp` of `string/string.c`, and how the second agrees with `strncmp`.

The stores of `strncpy` are a list, in the order in which they are made, with the two loops and the
counter that they share. The test of the first loop decrements the counter before it finds that
there is no room left, so a string that is longer than the field leaves `2^32-1` bytes to pad:
`strncpy_bounded_iff`. The two comparisons convert a character differently, `strcmp` as the signed
`char` of the target: `comparisons_agree_iff`.
-/

namespace Genesis32

open Word

/-- The string at `i` has `len` characters. -/
def HasLength (src : ByteMem) (i len : Nat) : Prop :=
  (∀ j < len, src (i + j) ≠ 0x00) ∧ src (i + len) = 0x00

theorem HasLength.tail {src : ByteMem} {i len : Nat} (h : HasLength src i (len + 1)) :
    HasLength src (i + 1) len := by
  refine ⟨fun j hj => ?_, ?_⟩
  · rw [Nat.add_right_comm]
    exact h.1 (j + 1) (by omega)
  · rw [Nat.add_right_comm]
    exact h.2

/-! ## Copying -/

/-- A store of a byte. -/
abbrev ByteStore := Nat × UInt8

/-- The `for` of `strncpy`, with `n` as it is: the stores, and `dest` and `n` behind the loop. -/
def strncpyChars (src : ByteMem) : Nat → Nat → Nat → List ByteStore × Nat × Nat
  | 0, i, dest =>
      -- `n--` is evaluated only in front of a character, and then it wraps
      if src i = 0x00 then ([], dest, 0) else ([], dest, sub32 0 1)
  | n + 1, i, dest =>
      if src i = 0x00 then ([], dest, n + 1)
      else
        match strncpyChars src n (i + 1) (add32 dest 1) with
        | (stores, dest', n') => ((dest, src i) :: stores, dest', n')

/-- The `while` of `strncpy`. -/
def strncpyZeros : Nat → Nat → List ByteStore
  | 0, _ => []
  | n + 1, dest => (dest, 0x00) :: strncpyZeros n (add32 dest 1)

/-- The stores of `strncpy(dest, &src[i], n)`. -/
def strncpyStores (dest : Nat) (src : ByteMem) (i n : Nat) : List ByteStore :=
  match strncpyChars src n i dest with
  | (stores, dest', n') => stores ++ strncpyZeros n' dest'

/-- What `strncpy` is meant to store: the first characters, then zeros, `n` bytes in all. -/
def boundedCopy (dest : Nat) (src : ByteMem) (i len n : Nat) : List ByteStore :=
  (List.range n).map fun j => (add32 dest j, if j < len then src (i + j) else 0x00)

variable {src : ByteMem} {i len dest n : Nat}

theorem strncpy_stores_end (h : src i = 0x00) :
    strncpyStores dest src i n = strncpyZeros n dest := by
  unfold strncpyStores
  cases n <;> rw [strncpyChars, if_pos h] <;> rfl

theorem strncpy_stores_char (h : src i ≠ 0x00) :
    strncpyStores dest src i (n + 1) =
      (dest, src i) :: strncpyStores (add32 dest 1) src (i + 1) n := by
  unfold strncpyStores
  rw [strncpyChars, if_neg h]
  rfl

/-- The counter has wrapped where a character is left and no room for it. -/
theorem strncpy_stores_full (h : src i ≠ 0x00) :
    strncpyStores dest src i 0 = strncpyZeros (sub32 0 1) dest := by
  unfold strncpyStores
  rw [strncpyChars, if_neg h]
  rfl

theorem strncpy_zeros_eq : ∀ n dest, dest < 4294967296 →
    strncpyZeros n dest = (List.range n).map fun j => (add32 dest j, 0x00) := by
  intro n
  induction n with
  | zero => exact fun _ _ => rfl
  | succ n ih =>
      intro dest hdest
      have hnext : add32 dest 1 < 4294967296 := Nat.mod_lt _ (by omega)
      rw [strncpyZeros, ih _ hnext, List.range_succ_eq_map, List.map_cons, List.map_map,
        add32_of_lt (show dest + 0 < 4294967296 by omega), Nat.add_zero]
      refine congrArg _ (List.map_congr_left fun j _ => ?_)
      rw [Function.comp_apply, add32_add32, Nat.add_comm 1 j]

/-- A string that fits is copied, and the padding fills the rest of the field. -/
theorem strncpy_stores_fits : ∀ n len i dest, dest < 4294967296 → HasLength src i len → len ≤ n →
    strncpyStores dest src i n = boundedCopy dest src i len n := by
  intro n
  induction n with
  | zero =>
      intro len i dest _ hlen hle
      obtain rfl := Nat.le_zero.mp hle
      exact strncpy_stores_end hlen.2
  | succ n ih =>
      intro len i dest hdest hlen hle
      cases len with
      | zero => exact (strncpy_stores_end hlen.2).trans (strncpy_zeros_eq _ _ hdest)
      | succ len =>
          have hchar : src i ≠ 0x00 := hlen.1 0 (by omega)
          have hnext : add32 dest 1 < 4294967296 := Nat.mod_lt _ (by omega)
          rw [strncpy_stores_char hchar, ih len (i + 1) (add32 dest 1) hnext hlen.tail (by omega)]
          unfold boundedCopy
          rw [List.range_succ_eq_map, List.map_cons, List.map_map,
            add32_of_lt (show dest + 0 < 4294967296 by omega), Nat.add_zero,
            if_pos (Nat.succ_pos len), Nat.add_zero]
          refine congrArg _ (List.map_congr_left fun j _ => ?_)
          simp only [Function.comp_apply, Nat.succ_lt_succ_iff]
          rw [add32_add32, Nat.add_comm 1 j, Nat.add_right_comm i 1 j]
          rfl

theorem sub32_zero_one : sub32 0 1 = 4294967295 := rfl

theorem strncpy_zeros_length : ∀ n dest, (strncpyZeros n dest).length = n := by
  intro n
  induction n with
  | zero => exact fun _ => rfl
  | succ n ih => exact fun dest => congrArg (· + 1) (ih (add32 dest 1))

/-- A longer string is cut, and then the padding goes on for `2^32-1` bytes. -/
theorem strncpy_stores_long : ∀ n i dest, (∀ j ≤ n, src (i + j) ≠ 0x00) →
    (strncpyStores dest src i n).length = n + 4294967295 := by
  intro n
  induction n with
  | zero =>
      intro i dest hlong
      have hchar : src i ≠ 0x00 := hlong 0 le_rfl
      rw [strncpy_stores_full hchar, strncpy_zeros_length, sub32_zero_one, Nat.zero_add]
  | succ n ih =>
      intro i dest hlong
      have hchar : src i ≠ 0x00 := hlong 0 (by omega)
      have hrest := ih (i + 1) (add32 dest 1) fun j hj => by
        rw [Nat.add_right_comm]
        exact hlong (j + 1) (by omega)
      rewrite [strncpy_stores_char hchar, List.length_cons, hrest]
      exact Nat.add_right_comm n 4294967295 1

/-- For every string and every `n`, `strncpy` stores exactly the `n` bytes of its field, the first
characters of the string and then zeros, exactly when the string is not longer than `n`. -/
theorem strncpy_bounded_iff (hlen : HasLength src i len) (hdest : dest < 4294967296) (n : Nat) :
    strncpyStores dest src i n = boundedCopy dest src i len n ↔ len ≤ n := by
  refine ⟨fun heq => ?_, strncpy_stores_fits n len i dest hdest hlen⟩
  by_contra hlong
  have hcount := congrArg List.length heq
  rw [strncpy_stores_long n i dest fun j hj => hlen.1 j (by omega), boundedCopy, List.length_map,
    List.length_range] at hcount
  omega

/-- Two characters in a field of three bytes. -/
theorem strncpy_bounded_iff_short :
    strncpyStores 0x9000 (stringConst [0x41, 0x42]) 0 3 =
      boundedCopy 0x9000 (stringConst [0x41, 0x42]) 0 2 3 :=
  (strncpy_bounded_iff (show HasLength (stringConst [0x41, 0x42]) 0 2 from
    ⟨by decide, by decide⟩) (by decide) 3).mpr (by decide)

/-- Two characters in a field of one byte. -/
theorem strncpy_runs_past_field :
    strncpyStores 0x9000 (stringConst [0x41, 0x42]) 0 1 ≠
      boundedCopy 0x9000 (stringConst [0x41, 0x42]) 0 2 1 := by
  intro heq
  have hcount := congrArg List.length heq
  have hlong : ∀ j ≤ 1, stringConst [0x41, 0x42] (0 + j) ≠ 0x00 := by decide
  rw [strncpy_stores_long 1 0 0x9000 hlong] at hcount
  exact absurd hcount (by decide)

/-- The memory after a list of stores. -/
def storeAll (m : ByteMem) (stores : List ByteStore) : ByteMem :=
  stores.foldl (fun m w => Function.update m w.1 w.2) m

theorem store_all_range (m : ByteMem) (a : Nat) (f : Nat → UInt8) : ∀ n,
    (∀ j < n, storeAll m ((List.range n).map fun j => (a + j, f j)) (a + j) = f j) ∧
    ∀ x, x < a ∨ a + n ≤ x → storeAll m ((List.range n).map fun j => (a + j, f j)) x = m x := by
  intro n
  induction n with
  | zero => exact ⟨fun j hj => absurd hj (Nat.not_lt_zero j), fun _ _ => rfl⟩
  | succ n ih =>
      have hlast : storeAll m ((List.range (n + 1)).map fun j => (a + j, f j)) =
          Function.update (storeAll m ((List.range n).map fun j => (a + j, f j))) (a + n)
            (f n) := by
        unfold storeAll
        rw [List.range_succ, List.map_append, List.foldl_append]
        rfl
      rw [hlast]
      refine ⟨fun j hj => ?_, fun x hx => ?_⟩
      · rcases Nat.lt_succ_iff_lt_or_eq.mp hj with hlt | rfl
        · rw [Function.update_of_ne (by omega), ih.1 j hlt]
        · exact Function.update_self ..
      · rw [Function.update_of_ne (by omega), ih.2 x (by omega)]

/-- The stores of `strncpy` are what it does to memory: where it has a result they lead to it, and
where it has none they go on for `2^32-1` bytes behind the field. -/
theorem strncpy_eq_stores (hlen : HasLength src i len) (hdest : dest + n ≤ 4294967296)
    (hlt : dest < 4294967296) (m : ByteMem) :
    (len ≤ n → strncpy m dest src n i = some (storeAll m (strncpyStores dest src i n))) ∧
    (n < len → strncpy m dest src n i = none ∧
      (strncpyStores dest src i n).length = n + 4294967295) := by
  constructor
  · intro hle
    obtain ⟨dest', hcopy, htext, hpad, hout⟩ := strncpy_fits src n len i dest m hle hlen.1 hlen.2
    have haddr : boundedCopy dest src i len n = (List.range n).map fun j =>
        (dest + j, if j < len then src (i + j) else 0x00) :=
      List.map_congr_left fun j hj => by
        rw [add32_of_lt (by have := List.mem_range.mp hj; omega)]
    obtain ⟨hin, hkept⟩ :=
      store_all_range m dest (fun j => if j < len then src (i + j) else 0x00) n
    rw [hcopy, strncpy_stores_fits n len i dest hlt hlen hle, haddr]
    refine congrArg some (funext fun x => ?_)
    by_cases hx : dest ≤ x ∧ x < dest + n
    · obtain ⟨j, rfl⟩ := Nat.exists_eq_add_of_le hx.1
      rw [hin j (by omega)]
      split_ifs with hj
      · exact htext j hj
      · exact hpad j (by omega) (by omega)
    · rw [hout x (by omega), hkept x (by omega)]
  · intro hlong
    exact ⟨strncpy_runs_away src n i dest m fun j hj => hlen.1 j (by omega),
      strncpy_stores_long n i dest fun j hj => hlen.1 j (by omega)⟩

/-! ## Comparing -/

/-- `strcmp`, with `k` characters before it is known not to end. `char` is signed. -/
def strcmp (m₁ : ByteMem) (s₁ : Nat) (m₂ : ByteMem) (s₂ : Nat) : Nat → Option Int
  | 0 => none
  | k + 1 =>
      if m₁ s₁ ≠ 0x00 ∨ m₂ s₂ ≠ 0x00 then
        if m₁ s₁ ≠ m₂ s₂ then some ((m₁ s₁).toInt8.toInt - (m₂ s₂).toInt8.toInt)
        else strcmp m₁ (s₁ + 1) m₂ (s₂ + 1) k
      else some 0

/-- Where two strings first differ, their characters, the NUL among them, lie in the same half of
the bytes. -/
def SameHalf (m₁ : ByteMem) (s₁ len₁ : Nat) (m₂ : ByteMem) (s₂ len₂ : Nat) : Prop :=
  ∀ j, j ≤ len₁ → j ≤ len₂ → (∀ i < j, m₁ (s₁ + i) = m₂ (s₂ + i)) →
    m₁ (s₁ + j) ≠ m₂ (s₂ + j) → (m₁ (s₁ + j) < 0x80 ↔ m₂ (s₂ + j) < 0x80)

theorem to_int8_eq (a : UInt8) :
    a.toInt8.toInt = if a.toNat < 128 then (a.toNat : Int) else (a.toNat : Int) - 256 := by
  have h : a.toInt8.toInt = a.toBitVec.toInt := rfl
  rw [h, BitVec.toInt_eq_toNat_cond]
  have hnat : a.toBitVec.toNat = a.toNat := rfl
  rw [hnat]
  split_ifs <;> omega

/-- The two differences have the same sign exactly when the characters lie in the same half. -/
theorem char_order_iff {a b : UInt8} (hne : a ≠ b) :
    (a.toInt8.toInt - b.toInt8.toInt).sign = ((a.toNat : Int) - b.toNat).sign ↔
      (a < 0x80 ↔ b < 0x80) := by
  have hnat : a.toNat ≠ b.toNat := fun h => hne (UInt8.toNat_inj.mp h)
  have ha : a < 0x80 ↔ a.toNat < 128 := UInt8.lt_iff_toNat_lt
  have hb : b < 0x80 ↔ b.toNat < 128 := UInt8.lt_iff_toNat_lt
  have ha' := a.toNat_lt
  have hb' := b.toNat_lt
  rw [ha, hb, to_int8_eq, to_int8_eq]
  rcases Nat.lt_or_gt_of_ne hnat with hlt | hgt
  · rw [Int.sign_eq_neg_one_of_neg (show (a.toNat : Int) - b.toNat < 0 by omega),
      Int.sign_eq_neg_one_iff_neg]
    split_ifs <;> omega
  · rw [Int.sign_eq_one_of_pos (show 0 < (a.toNat : Int) - b.toNat by omega),
      Int.sign_eq_one_iff_pos]
    split_ifs <;> omega

/-- Characters that are equal move the place where the strings first differ by one. -/
theorem same_half_tail {m₁ m₂ : ByteMem} {s₁ s₂ len₁ len₂ : Nat} (heq : m₁ s₁ = m₂ s₂) :
    SameHalf m₁ s₁ (len₁ + 1) m₂ s₂ (len₂ + 1) ↔
      SameHalf m₁ (s₁ + 1) len₁ m₂ (s₂ + 1) len₂ := by
  constructor
  · intro h j hj₁ hj₂ hall hne
    have hj := h (j + 1) (by omega) (by omega)
    rw [show s₁ + (j + 1) = s₁ + 1 + j by omega, show s₂ + (j + 1) = s₂ + 1 + j by omega] at hj
    refine hj (fun i hi => ?_) hne
    cases i with
    | zero => exact heq
    | succ i =>
        rw [show s₁ + (i + 1) = s₁ + 1 + i by omega, show s₂ + (i + 1) = s₂ + 1 + i by omega]
        exact hall i (by omega)
  · intro h j hj₁ hj₂ hall hne
    cases j with
    | zero => exact absurd heq hne
    | succ j =>
        rw [show s₁ + (j + 1) = s₁ + 1 + j by omega, show s₂ + (j + 1) = s₂ + 1 + j by omega] at *
        refine h j (by omega) (by omega) (fun i hi => ?_) hne
        have hi' := hall (i + 1) (by omega)
        rwa [show s₁ + (i + 1) = s₁ + 1 + i by omega,
          show s₂ + (i + 1) = s₂ + 1 + i by omega] at hi'

/-- Where the first characters differ, they decide both comparisons. -/
theorem same_half_head {m₁ m₂ : ByteMem} {s₁ s₂ len₁ len₂ : Nat} (hne : m₁ s₁ ≠ m₂ s₂) :
    SameHalf m₁ s₁ len₁ m₂ s₂ len₂ ↔ (m₁ s₁ < 0x80 ↔ m₂ s₂ < 0x80) := by
  constructor
  · exact fun h => h 0 (Nat.zero_le _) (Nat.zero_le _) (fun i hi => absurd hi (by omega)) hne
  · intro h j _ _ hall _
    cases j with
    | zero => exact h
    | succ j => exact absurd (hall 0 (Nat.succ_pos j)) hne

theorem HasLength.pos {m : ByteMem} {s l : Nat} (h : HasLength m s l) (hchar : m s ≠ 0x00) :
    ∃ l', l = l' + 1 := by
  cases l with
  | zero => exact absurd h.2 hchar
  | succ l' => exact ⟨l', rfl⟩

/-- For all strings and every `n` greater than both lengths, `strcmp` comes to an end, and its
result has the sign of that of `strncmp` exactly when the first characters that differ, if there
are any, lie in the same half of the bytes. -/
theorem comparisons_agree_iff {m₁ m₂ : ByteMem} : ∀ {len₁ len₂ s₁ s₂ n : Nat},
    HasLength m₁ s₁ len₁ → HasLength m₂ s₂ len₂ → len₁ < n → len₂ < n →
    ∃ r, (∀ k, len₁ < k → strcmp m₁ s₁ m₂ s₂ k = some r) ∧
      (r.sign = (strncmp m₁ s₁ m₂ s₂ n).sign ↔ SameHalf m₁ s₁ len₁ m₂ s₂ len₂) := by
  intro len₁ len₂ s₁ s₂ n
  induction n generalizing len₁ len₂ s₁ s₂ with
  | zero => exact fun _ _ hlt => absurd hlt (Nat.not_lt_zero _)
  | succ n ih =>
      intro hlen₁ hlen₂ hlt₁ hlt₂
      by_cases hne : m₁ s₁ ≠ m₂ s₂
      · -- a difference: one of the two characters is no NUL
        have hgo : m₁ s₁ ≠ 0x00 ∨ m₂ s₂ ≠ 0x00 := by
          by_contra hboth
          obtain ⟨h₁, h₂⟩ := not_or.mp hboth
          exact hne ((not_ne_iff.mp h₁).trans (not_ne_iff.mp h₂).symm)
        refine ⟨(m₁ s₁).toInt8.toInt - (m₂ s₂).toInt8.toInt, fun k hk => ?_, ?_⟩
        · obtain ⟨k, rfl⟩ := Nat.exists_eq_succ_of_ne_zero (Nat.ne_zero_of_lt hk)
          rw [strcmp, if_pos hgo, if_pos hne]
        · rw [strncmp, if_pos hne, char_order_iff hne, same_half_head hne]
      · have heq : m₁ s₁ = m₂ s₂ := not_ne_iff.mp hne
        by_cases hend : m₁ s₁ = 0x00
        · -- both strings end here
          have hstop : ¬ (m₁ s₁ ≠ 0x00 ∨ m₂ s₂ ≠ 0x00) :=
            not_or.mpr ⟨not_ne_iff.mpr hend, not_ne_iff.mpr (heq ▸ hend)⟩
          have hzero : len₁ = 0 := by
            by_contra hpos
            exact hlen₁.1 0 (Nat.pos_of_ne_zero hpos) hend
          refine ⟨0, fun k hk => ?_, ?_⟩
          · obtain ⟨k, rfl⟩ := Nat.exists_eq_succ_of_ne_zero (Nat.ne_zero_of_lt hk)
            rw [strcmp, if_neg hstop]
          · rw [strncmp, if_neg hne, if_pos hend]
            refine iff_of_true rfl fun j hj₁ _ _ hdiff => ?_
            obtain rfl : j = 0 := by omega
            exact absurd heq hdiff
        · -- equal characters: the rest of the strings decides
          have hgo : m₁ s₁ ≠ 0x00 ∨ m₂ s₂ ≠ 0x00 := Or.inl hend
          obtain ⟨len₁, rfl⟩ := hlen₁.pos hend
          obtain ⟨len₂, rfl⟩ := hlen₂.pos (heq ▸ hend)
          obtain ⟨r, hr, hsign⟩ := ih hlen₁.tail hlen₂.tail (by omega) (by omega)
          refine ⟨r, fun k hk => ?_, ?_⟩
          · obtain ⟨k, rfl⟩ := Nat.exists_eq_succ_of_ne_zero (Nat.ne_zero_of_lt hk)
            rw [strcmp, if_pos hgo, if_neg hne]
            exact hr k (by omega)
          · rw [strncmp, if_neg hne, if_neg hend, same_half_tail heq]
            exact hsign

/-- A string and one that it is a prefix of. -/
theorem comparisons_agree_iff_prefix :
    ∃ r, (∀ k, 1 < k → strcmp (stringConst [0x41]) 0 (stringConst [0x41, 0x42]) 0 k = some r) ∧
      (r.sign = (strncmp (stringConst [0x41]) 0 (stringConst [0x41, 0x42]) 0 3).sign ↔
        SameHalf (stringConst [0x41]) 0 1 (stringConst [0x41, 0x42]) 0 2) :=
  comparisons_agree_iff ⟨by decide, by decide⟩ ⟨by decide, by decide⟩ (by decide) (by decide)

/-- The character `0x80` is negative for `strcmp` and the greater one for `strncmp`. -/
theorem comparisons_disagree_above_ascii :
    ∃ r, strcmp (stringConst [0x80]) 0 (stringConst [0x41]) 0 2 = some r ∧
      r.sign ≠ (strncmp (stringConst [0x80]) 0 (stringConst [0x41]) 0 2).sign :=
  ⟨-193, by decide, by decide⟩

end Genesis32
