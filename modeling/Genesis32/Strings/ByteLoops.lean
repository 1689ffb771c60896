import Mathlib.Data.List.Lex
import Genesis32.Library.ByteMem
import Genesis32.Library.Word

/-!
# Loops over bytes

`memcpy` and `memcmp` of `essentials/essentials.c`, and `strcpy`, `strlen` and `strnlen` of
`string/string.c`. Their cursors go up a byte at a time and wrap with the address space.

A copy that goes up reads a byte again that it has written once its target is inside its source: it
then repeats the bytes in front of its target (`Copied`). So `memcpy` moves what it is given exactly
where no byte of its target is a later byte of its source, and `strcpy`, whose end is a byte that it
copies, does not return there.
-/

namespace Genesis32

open Word

/-! ## The model -/

/-- The `for` of `memcpy`, with `n` bytes left. -/
def memcpyLoop : Nat → Nat → Nat → ByteMem → ByteMem
  | 0, _, _, m => m
  | n + 1, p1, p2, m => memcpyLoop n (add32 p1 1) (add32 p2 1) (Function.update m p1 (m p2))

/-- `memcpy`. -/
def memcpy (m : ByteMem) (dest src n : Nat) : ByteMem := memcpyLoop n dest src m

/-- The `for` of `strcpy` and the store behind it, with `fuel` rounds before it is known not to
end. -/
def strcpyLoop : Nat → Nat → Nat → ByteMem → Option ByteMem
  | 0, _, _, _ => none
  | fuel + 1, dest, src, m =>
      if m src = 0x00 then some (Function.update m dest 0x00)
      else strcpyLoop fuel (add32 dest 1) (add32 src 1) (Function.update m dest (m src))

/-- `strcpy`. -/
def strcpy (fuel : Nat) (m : ByteMem) (dest src : Nat) : Option ByteMem :=
  strcpyLoop fuel dest src m

/-- The `for` of `memcmp`, with `n` bytes left. -/
def memcmpLoop (m : ByteMem) : Nat → Nat → Nat → Int
  | 0, _, _ => 0
  | n + 1, p1, p2 =>
      if m p1 ≠ m p2 then ((m p1).toNat : Int) - (m p2).toNat
      else memcmpLoop m n (add32 p1 1) (add32 p2 1)

/-- `memcmp`. -/
def memcmp (m : ByteMem) (s1 s2 n : Nat) : Int := memcmpLoop m n s1 s2

/-- The `for` of `strlen`. -/
def strlenLoop (m : ByteMem) : Nat → Nat → Nat → Option Nat
  | 0, _, _ => none
  | fuel + 1, str, n =>
      if m str = 0x00 then some n else strlenLoop m fuel (add32 str 1) (add32 n 1)

/-- `strlen`. -/
def strlen (fuel : Nat) (m : ByteMem) (str : Nat) : Option Int :=
  (strlenLoop m fuel str 0).map toInt32

/-- The `for` of `strnlen`, with `i` bytes left. -/
def strnlenLoop (m : ByteMem) (n : Int) : Nat → Nat → Int
  | 0, _ => n
  | i + 1, str =>
      if m str = 0x00 then toInt32 (sub32 (n % 4294967296).toNat (i + 1))
      else strnlenLoop m n i (add32 str 1)

/-- `strnlen`. The counter is unsigned, so a negative bound is a large one. -/
def strnlen (m : ByteMem) (str : Nat) (n : Int) : Int :=
  strnlenLoop m n (n % 4294967296).toNat str

/-! ## Copying upwards -/

/-- `m'` is `m` after `k` bytes have been copied, one after the other, from `src` to `dest`. A
target that is `sub32 dest src` bytes ahead holds as many bytes of the source, again and again. -/
structure Copied (m : ByteMem) (dest src k : Nat) (m' : ByteMem) : Prop where
  bytes : ∀ i < k, m' (add32 dest i) = m (add32 src (i % sub32 dest src))
  frame : ∀ x, (∀ i < k, x ≠ add32 dest i) → m' x = m x

variable {m m' : ByteMem} {dest src k n len : Nat}

theorem add32_zero (hsrc : src < 4294967296) : add32 src 0 = src := add32_of_lt hsrc

theorem copied_zero (m : ByteMem) (dest src : Nat) : Copied m dest src 0 m where
  bytes := fun i hi => absurd hi (Nat.not_lt_zero i)
  frame := fun _ _ => rfl

namespace Copied

/-- The next byte that is read: of the source, or of what has been written. -/
theorem read (h : Copied m dest src k m') (hdest : dest < 4294967296) (hsrc : src < 4294967296)
    (hk : k < 4294967296) : m' (add32 src k) = m (add32 src (k % sub32 dest src)) := by
  by_cases hover : 0 < sub32 dest src ∧ sub32 dest src ≤ k
  · have haddr : add32 src k = add32 dest (k - sub32 dest src) := by
      unfold add32 sub32 at *
      omega
    rw [haddr, h.bytes _ (by omega), ← Nat.mod_eq_sub_mod hover.2]
  · have hmod : k % sub32 dest src = k := by
      rcases Nat.eq_zero_or_pos (sub32 dest src) with hzero | hpos
      · rw [hzero, Nat.mod_zero]
      · exact Nat.mod_eq_of_lt (by omega)
    rw [hmod]
    refine h.frame _ fun i hi => ?_
    unfold add32 sub32 at *
    omega

/-- One more byte. -/
theorem step (h : Copied m dest src k m') (hdest : dest < 4294967296) (hsrc : src < 4294967296)
    (hk : k < 4294967296) :
    Copied m dest src (k + 1) (Function.update m' (add32 dest k) (m' (add32 src k))) where
  bytes := fun i hi => by
    rcases Nat.lt_succ_iff_lt_or_eq.mp hi with hlt | rfl
    · have hne : add32 dest i ≠ add32 dest k := by
        unfold add32
        omega
      rw [Function.update_of_ne hne]
      exact h.bytes i hlt
    · rw [Function.update_self]
      exact h.read hdest hsrc hk
  frame := fun x hx => by
    rw [Function.update_of_ne (hx k (Nat.lt_succ_self k))]
    exact h.frame x fun i hi => hx i (Nat.lt_succ_of_lt hi)

/-- Where the target is not ahead inside the source, the bytes are those of the source. -/
theorem moved (h : Copied m dest src k m') (hapart : sub32 dest src = 0 ∨ k ≤ sub32 dest src) :
    ∀ i < k, m' (add32 dest i) = m (add32 src i) := by
  intro i hi
  rw [h.bytes i hi]
  rcases hapart with hzero | hle
  · rw [hzero, Nat.mod_zero]
  · rw [Nat.mod_eq_of_lt (Nat.lt_of_lt_of_le hi hle)]

end Copied

theorem memcpy_loop_copied (hdest : dest < 4294967296) (hsrc : src < 4294967296) :
    ∀ r k m', k + r ≤ 4294967296 → Copied m dest src k m' →
      Copied m dest src (k + r) (memcpyLoop r (add32 dest k) (add32 src k) m') := by
  intro r
  induction r with
  | zero => exact fun k m' _ h => h
  | succ r ih =>
      intro k m' hle h
      have hrest := ih (k + 1) _ (by omega) (h.step hdest hsrc (by omega))
      rw [memcpyLoop, add32_add32, add32_add32]
      rwa [Nat.add_assoc, Nat.add_comm 1 r] at hrest

/-- What `memcpy` leaves, wherever its two ranges are. -/
theorem memcpy_copied (m : ByteMem) (hdest : dest < 4294967296) (hsrc : src < 4294967296)
    (hn : n ≤ 4294967296) : Copied m dest src n (memcpy m dest src n) := by
  have h := memcpy_loop_copied hdest hsrc n 0 m (by omega) (copied_zero m dest src)
  rwa [add32_zero hdest, add32_zero hsrc, Nat.zero_add] at h

/-- `memcpy` moves what it is given, whatever that is, exactly where its target is its source or
does not begin inside it. -/
theorem memcpy_moves_iff (hdest : dest < 4294967296) (hsrc : src < 4294967296)
    (hn : n < 4294967296) :
    (∀ m : ByteMem, (∀ i < n, memcpy m dest src n (add32 dest i) = m (add32 src i)) ∧
      ∀ x, (∀ i < n, x ≠ add32 dest i) → memcpy m dest src n x = m x) ↔
      sub32 dest src = 0 ∨ n ≤ sub32 dest src := by
  constructor
  · intro hmoves
    by_contra hover
    have hcopied := memcpy_copied (n := n) (fun x => if x = src then 0x01 else 0x00) hdest hsrc
      (by omega)
    -- the first byte of the source is repeated where the target begins to be read
    have hbyte := hcopied.bytes (sub32 dest src) (by omega)
    have hmoved := (hmoves fun x => if x = src then 0x01 else 0x00).1 (sub32 dest src) (by omega)
    have hne : add32 src (sub32 dest src) ≠ src := by
      unfold add32 sub32 at *
      omega
    rw [hmoved, Nat.mod_self, if_neg hne, add32_zero hsrc, if_pos rfl] at hbyte
    exact absurd hbyte (by decide)
  · intro hapart m
    have hcopied := memcpy_copied (n := n) m hdest hsrc (by omega)
    exact ⟨hcopied.moved hapart, hcopied.frame⟩

/-- A sector that is copied to a page behind it. -/
theorem memcpy_moves_sector :
    (∀ m : ByteMem,
      (∀ i < 512, memcpy m 0x2000 0x1000 512 (add32 0x2000 i) = m (add32 0x1000 i)) ∧
      ∀ x, (∀ i < 512, x ≠ add32 0x2000 i) → memcpy m 0x2000 0x1000 512 x = m x) ↔
      sub32 0x2000 0x1000 = 0 ∨ 512 ≤ sub32 0x2000 0x1000 :=
  memcpy_moves_iff (by decide) (by decide) (by decide)

/-- In a range of addresses that does not wrap, such a `memcpy` is the copy of a range. -/
theorem memcpy_eq_copy (m : ByteMem) (hdest : dest + n ≤ 4294967296) (hsrc : src + n ≤ 4294967296)
    (hapart : dest ≤ src ∨ src + n ≤ dest) : memcpy m dest src n = m.copy dest m src n := by
  rcases Nat.eq_zero_or_pos n with rfl | hpos
  · rw [ByteMem.copy_zero]
    rfl
  have hcopied := memcpy_copied (n := n) m (show dest < 4294967296 by omega)
    (show src < 4294967296 by omega) (by omega)
  have hmoved := hcopied.moved (by
    unfold sub32
    omega)
  funext x
  by_cases hin : dest ≤ x ∧ x < dest + n
  · have hbyte := hmoved (x - dest) (by omega)
    rw [add32_of_lt (by omega), add32_of_lt (by omega), Nat.add_sub_cancel' hin.1] at hbyte
    rw [hbyte, ByteMem.copy_inside hin.1 hin.2]
  · rw [ByteMem.copy_outside (by omega)]
    refine hcopied.frame x fun i hi => ?_
    rw [add32_of_lt (by omega)]
    omega

/-! ## Copying a string -/

/-- There is a string of `len` characters at `src`. -/
def StringAt (m : ByteMem) (src len : Nat) : Prop :=
  (∀ j < len, m (add32 src j) ≠ 0x00) ∧ m (add32 src len) = 0x00

/-- The memory has no room for a longer string. -/
theorem StringAt.lt (h : StringAt m src len) : len < 4294967296 := by
  by_contra hle
  obtain ⟨j, rfl⟩ := Nat.exists_eq_add_of_le' (Nat.le_of_not_lt hle)
  have haddr : add32 src (j + 4294967296) = add32 src j := by
    rw [add32, ← Nat.add_assoc, Nat.add_mod_right]
    rfl
  exact h.1 j (Nat.lt_add_of_pos_right (by decide)) (haddr ▸ h.2)

/-- `strcpy` returns behind the string where the target is not among its characters. -/
theorem strcpy_loop_returns (hdest : dest < 4294967296) (hsrc : src < 4294967296)
    (hstr : StringAt m src len) (hapart : sub32 dest src = 0 ∨ len < sub32 dest src) :
    ∀ r k m', k + r = len → Copied m dest src k m' →
      ∃ m'', Copied m dest src (len + 1) m'' ∧ ∀ fuel,
        strcpyLoop fuel (add32 dest k) (add32 src k) m' = if r < fuel then some m'' else none := by
  have hlen := hstr.lt
  have hread : ∀ {k m'}, k ≤ len → Copied m dest src k m' → m' (add32 src k) = m (add32 src k) := by
    intro k m' hk h
    rw [h.read hdest hsrc (by omega)]
    rcases hapart with hzero | hlt
    · rw [hzero, Nat.mod_zero]
    · rw [Nat.mod_eq_of_lt (by omega)]
  intro r
  induction r with
  | zero =>
      intro k m' hk h
      obtain rfl : k = len := hk
      have hend : m' (add32 src k) = 0x00 := (hread le_rfl h).trans hstr.2
      have hstep := h.step hdest hsrc hlen
      rw [hend] at hstep
      refine ⟨_, hstep, fun fuel => ?_⟩
      cases fuel with
      | zero => rfl
      | succ fuel => rw [strcpyLoop, if_pos hend, if_pos (Nat.succ_pos fuel)]
  | succ r ih =>
      intro k m' hk h
      have hchar : m' (add32 src k) ≠ 0x00 := by
        rw [hread (by omega) h]
        exact hstr.1 k (by omega)
      obtain ⟨m'', hcopied, hloop⟩ := ih (k + 1) _ (by omega) (h.step hdest hsrc (by omega))
      refine ⟨m'', hcopied, fun fuel => ?_⟩
      cases fuel with
      | zero => rfl
      | succ fuel =>
          rw [strcpyLoop, if_neg hchar, add32_add32, add32_add32, hloop]
          simp only [Nat.succ_lt_succ_iff]

/-- Behind a target among the characters, the end of the string is overwritten before it is read:
the next bytes, up to the target, are characters in every round. -/
theorem strcpy_loop_endless (hpos : 0 < sub32 dest src) :
    ∀ fuel k m', (∀ j < sub32 dest src, m' (add32 src (k + j)) ≠ 0x00) →
      strcpyLoop fuel (add32 dest k) (add32 src k) m' = none := by
  intro fuel
  induction fuel with
  | zero => exact fun _ _ _ => rfl
  | succ fuel ih =>
      intro k m' hahead
      have hchar : m' (add32 src k) ≠ 0x00 := hahead 0 hpos
      rw [strcpyLoop, if_neg hchar, add32_add32, add32_add32]
      refine ih (k + 1) _ fun j hj => ?_
      by_cases hlast : add32 src (k + 1 + j) = add32 dest k
      · rw [hlast, Function.update_self]
        exact hchar
      · rw [Function.update_of_ne hlast, show k + 1 + j = k + (j + 1) by omega]
        refine hahead (j + 1) ?_
        unfold add32 sub32 at *
        omega

/-- Where `strcpy` returns, it has copied the string with its end. -/
theorem strcpy_copied (hdest : dest < 4294967296) (hsrc : src < 4294967296)
    (hstr : StringAt m src len) {fuel : Nat} (hret : strcpy fuel m dest src = some m') :
    (sub32 dest src = 0 ∨ len < sub32 dest src) ∧ Copied m dest src (len + 1) m' := by
  by_cases hapart : sub32 dest src = 0 ∨ len < sub32 dest src
  · obtain ⟨m'', hcopied, hloop⟩ := strcpy_loop_returns hdest hsrc hstr hapart len 0 m
      (Nat.zero_add len) (copied_zero m dest src)
    rw [add32_zero hdest, add32_zero hsrc] at hloop
    rw [strcpy, hloop] at hret
    split_ifs at hret
    cases hret
    exact ⟨hapart, hcopied⟩
  · have hahead : ∀ j < sub32 dest src, m (add32 src (0 + j)) ≠ 0x00 := fun j hj => by
      rw [Nat.zero_add]
      exact hstr.1 j (by omega)
    have hnone := strcpy_loop_endless (by omega) fuel 0 m hahead
    rw [add32_zero hdest, add32_zero hsrc, ← strcpy, hret] at hnone
    cases hnone

/-- `strcpy` returns exactly where its target is the string or begins behind its end or in front of
it, and then it has copied the string with its end and nothing else. -/
theorem strcpy_returns_iff (hdest : dest < 4294967296) (hsrc : src < 4294967296)
    (hstr : StringAt m src len) :
    ((∃ fuel m', strcpy fuel m dest src = some m') ↔
      sub32 dest src = 0 ∨ len < sub32 dest src) ∧
    ∀ fuel m', strcpy fuel m dest src = some m' →
      (∀ j ≤ len, m' (add32 dest j) = m (add32 src j)) ∧
      ∀ x, (∀ j ≤ len, x ≠ add32 dest j) → m' x = m x := by
  refine ⟨⟨?_, fun hapart => ?_⟩, fun fuel m' hret => ?_⟩
  · rintro ⟨fuel, m', hret⟩
    exact (strcpy_copied hdest hsrc hstr hret).1
  · obtain ⟨m'', _, hloop⟩ := strcpy_loop_returns hdest hsrc hstr hapart len 0 m
      (Nat.zero_add len) (copied_zero m dest src)
    rw [add32_zero hdest, add32_zero hsrc] at hloop
    exact ⟨len + 1, m'', (hloop _).trans (if_pos (Nat.lt_succ_self len))⟩
  · obtain ⟨hapart, hcopied⟩ := strcpy_copied hdest hsrc hstr hret
    exact ⟨fun j hj => hcopied.moved (by omega) j (Nat.lt_succ_of_le hj),
      fun x hx => hcopied.frame x fun i hi => hx i (Nat.le_of_lt_succ hi)⟩

/-- Two characters that are copied over the second of them. -/
theorem strcpy_returns_two :
    let m : ByteMem := fun x => if x = 0x1002 then 0x00 else 0x61
    ((∃ fuel m', strcpy fuel m 0x1001 0x1000 = some m') ↔
      sub32 0x1001 0x1000 = 0 ∨ 2 < sub32 0x1001 0x1000) ∧
    ∀ fuel m', strcpy fuel m 0x1001 0x1000 = some m' →
      (∀ j ≤ 2, m' (add32 0x1001 j) = m (add32 0x1000 j)) ∧
      ∀ x, (∀ j ≤ 2, x ≠ add32 0x1001 j) → m' x = m x := by
  refine strcpy_returns_iff (by decide) (by decide) ⟨fun j hj => ?_, rfl⟩
  interval_cases j <;> decide

/-! ## Lengths -/

theorem strlen_loop_eq (hstr : StringAt m src len) :
    ∀ r k, k + r = len → ∀ fuel,
      strlenLoop m fuel (add32 src k) k = if r < fuel then some len else none := by
  have hlen := hstr.lt
  intro r
  induction r with
  | zero =>
      intro k hk fuel
      obtain rfl : k = len := hk
      cases fuel with
      | zero => rfl
      | succ fuel => rw [strlenLoop, if_pos hstr.2, if_pos (Nat.succ_pos fuel)]
  | succ r ih =>
      intro k hk fuel
      cases fuel with
      | zero => rfl
      | succ fuel =>
          rw [strlenLoop, if_neg (hstr.1 k (by omega)), add32_add32,
            add32_of_lt (show k + 1 < 4294967296 by omega), ih (k + 1) (by omega)]
          simp only [Nat.succ_lt_succ_iff]

/-- `strlen` counts in an unsigned word and returns it as an `int`. -/
theorem strlen_eq (hsrc : src < 4294967296) (hstr : StringAt m src len) (fuel : Nat) :
    strlen fuel m src = if len < fuel then some (toInt32 len) else none := by
  have hloop := strlen_loop_eq hstr len 0 (Nat.zero_add len) fuel
  rw [add32_zero hsrc] at hloop
  rw [strlen, hloop]
  split_ifs <;> rfl

theorem strnlen_loop_eq (hstr : StringAt m src len) (bound : Int) :
    ∀ i k, k + i = (bound % 4294967296).toNat → k ≤ len →
      strnlenLoop m bound i (add32 src k) =
        if len < (bound % 4294967296).toNat then toInt32 len else bound := by
  intro i
  induction i with
  | zero => exact fun k hk hle => (if_neg (by omega)).symm
  | succ i ih =>
      intro k hk hle
      rw [strnlenLoop]
      rcases Nat.eq_or_lt_of_le hle with rfl | hlt
      · rw [if_pos hstr.2, if_pos (by omega), sub32_of_le (by omega) (by omega)]
        congr 1
        omega
      · rw [if_neg (hstr.1 k hlt), add32_add32, ih (k + 1) (by omega) hlt]

/-- `strnlen` is the smaller of the length and the bound, where a negative bound counts as the
unsigned word. -/
theorem strnlen_eq (hsrc : src < 4294967296) (hstr : StringAt m src len) (bound : Int) :
    strnlen m src bound =
      if len < (bound % 4294967296).toNat then toInt32 len else bound := by
  have hloop := strnlen_loop_eq hstr bound _ 0 (Nat.zero_add _) (Nat.zero_le len)
  rwa [add32_zero hsrc] at hloop

/-! ## Comparing -/

/-- The `n` bytes from `p` on. -/
def bytesFrom (m : ByteMem) : Nat → Nat → List UInt8
  | 0, _ => []
  | n + 1, p => m p :: bytesFrom m n (add32 p 1)

/-- `memcmp` compares two ranges in the lexicographic order of their unsigned bytes. -/
theorem memcmp_orders (m : ByteMem) : ∀ n s1 s2,
    (memcmp m s1 s2 n = 0 ↔ bytesFrom m n s1 = bytesFrom m n s2) ∧
    (memcmp m s1 s2 n < 0 ↔ bytesFrom m n s1 < bytesFrom m n s2) := by
  unfold memcmp
  intro n
  induction n with
  | zero =>
      intro s1 s2
      exact ⟨iff_of_true rfl rfl, iff_of_false (lt_irrefl 0) (List.not_lt_nil [])⟩
  | succ n ih =>
      intro s1 s2
      obtain ⟨heq, hlt⟩ := ih (add32 s1 1) (add32 s2 1)
      rw [memcmpLoop, bytesFrom, bytesFrom, List.cons_lt_cons_iff, List.cons.injEq]
      by_cases hbyte : m s1 = m s2
      · rw [if_neg (not_not.mpr hbyte), heq, hlt]
        simp [hbyte]
      · have hne : (m s1).toNat ≠ (m s2).toNat := fun h => hbyte (UInt8.toNat_inj.mp h)
        rw [if_pos hbyte]
        refine ⟨iff_of_false (by omega) fun h => hbyte h.1, ?_⟩
        rw [UInt8.lt_iff_toNat_lt]
        constructor
        · exact fun h => Or.inl (by omega)
        · rintro (h | ⟨h, _⟩)
          · omega
          · exact absurd h hbyte

theorem bytes_from_eq_iff {m₁ m₂ : ByteMem} : ∀ {n p q : Nat}, p < 4294967296 → q < 4294967296 →
    (bytesFrom m₁ n p = bytesFrom m₂ n q ↔ ∀ j < n, m₁ (add32 p j) = m₂ (add32 q j)) := by
  intro n
  induction n with
  | zero => exact fun _ _ => iff_of_true rfl fun j hj => absurd hj (Nat.not_lt_zero j)
  | succ n ih =>
      intro p q hp hq
      rw [bytesFrom, bytesFrom, List.cons.injEq,
        ih (p := add32 p 1) (q := add32 q 1) (Nat.mod_lt _ (by decide)) (Nat.mod_lt _ (by decide)),
        Nat.forall_lt_succ_left, add32_zero hp, add32_zero hq]
      simp only [add32_add32, Nat.add_comm 1]

/-- What `strcpy` leaves is as long as the string was. `memcmp` finds the two equal exactly where
the copy does not reach into the string from in front: there the string has lost its first
characters. -/
theorem strcpy_compares_equal (hdest : dest < 4294967296) (hsrc : src < 4294967296)
    (hstr : StringAt m src len) {fuel : Nat} (hret : strcpy fuel m dest src = some m') :
    (∀ fuel', strlen fuel' m' dest = strlen fuel' m src) ∧
    (∀ bound, strnlen m' dest bound = strnlen m src bound) ∧
    (memcmp m' dest src (len + 1) = 0 ↔ sub32 dest src = 0 ∨ len < sub32 src dest) := by
  have hlen := hstr.lt
  obtain ⟨hapart, hcopied⟩ := strcpy_copied hdest hsrc hstr hret
  have hmoved := hcopied.moved (by omega)
  have hcopy : StringAt m' dest len :=
    ⟨fun j hj => by rw [hmoved j (by omega)]; exact hstr.1 j hj,
      (hmoved len (Nat.lt_succ_self len)).trans hstr.2⟩
  refine ⟨fun fuel' => ?_, fun bound => ?_, ?_⟩
  · rw [strlen_eq hdest hcopy, strlen_eq hsrc hstr]
  · rw [strnlen_eq hdest hcopy, strnlen_eq hsrc hstr]
  · rw [(memcmp_orders m' (len + 1) dest src).1, bytes_from_eq_iff hdest hsrc]
    constructor
    · intro hsame
      by_contra hover
      have hahead : 0 < sub32 src dest := by
        unfold sub32 at *
        omega
      -- the end of the copy is where a character of the string was
      have hmoved' := hmoved (len - sub32 src dest) (by omega)
      have hend := (hsame (len - sub32 src dest) (by omega)).symm
      rw [show add32 src (len - sub32 src dest) = add32 dest len by
        unfold add32 sub32 at *
        omega] at hend
      exact hstr.1 (len - sub32 src dest) (by omega)
        (hmoved'.symm.trans (hend.symm.trans hcopy.2))
    · intro hkept j hj
      rw [hmoved j hj]
      rcases hkept with hzero | hbehind
      · rw [← hmoved j hj]
        congr 1
        unfold add32 sub32 at *
        omega
      · refine (hcopied.frame _ fun i hi => ?_).symm
        unfold add32 sub32 at *
        omega

/-- A string of two characters that is copied to the address in front of it. -/
theorem strcpy_compares_equal_shifted :
    let m : ByteMem := fun x => if x = 0x1002 then 0x00 else if x = 0x1001 then 0x62 else 0x61
    ∃ m', strcpy 3 m 0xfff 0x1000 = some m' ∧
      (∀ fuel', strlen fuel' m' 0xfff = strlen fuel' m 0x1000) ∧
      (∀ bound, strnlen m' 0xfff bound = strnlen m 0x1000 bound) ∧
      (memcmp m' 0xfff 0x1000 (2 + 1) = 0 ↔
        sub32 0xfff 0x1000 = 0 ∨ 2 < sub32 0x1000 0xfff) := by
  refine ⟨_, rfl, strcpy_compares_equal (by decide) (by decide) ⟨fun j hj => ?_, rfl⟩
    (show strcpy 3 _ _ _ = _ from rfl)⟩
  interval_cases j <;> decide

end Genesis32
