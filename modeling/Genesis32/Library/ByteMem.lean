import Mathlib.Logic.Function.Basic
import Mathlib.Tactic.IntervalCases

/-!
# Byte memories

A byte memory is a total map from addresses to bytes. It stands for the memory of a machine, for a
disk image, and for a single buffer, whose addresses are then the offsets inside it. Words are
little-endian. A single byte is stored with `Function.update`; this module adds the range fill, the
range copy and the 16-bit and 32-bit words, each with what it changes and what it leaves alone.
-/

/-- A byte memory: one byte at every address. -/
abbrev ByteMem := Nat → UInt8

namespace ByteMem

/-! ## Ranges -/

/-- Set the `n` bytes from `a` to `v`. -/
def fill (m : ByteMem) (a n : Nat) (v : UInt8) : ByteMem :=
  fun x => if a ≤ x ∧ x < a + n then v else m x

/-- Copy the `n` bytes of `src` from `b` to the `n` bytes of `m` from `a`. -/
def copy (m : ByteMem) (a : Nat) (src : ByteMem) (b n : Nat) : ByteMem :=
  fun x => if a ≤ x ∧ x < a + n then src (b + (x - a)) else m x

theorem fill_inside {m : ByteMem} {a n x : Nat} {v : UInt8} (hl : a ≤ x) (hh : x < a + n) :
    fill m a n v x = v := by
  simp [fill, hl, hh]

theorem fill_outside {m : ByteMem} {a n x : Nat} {v : UInt8} (h : x < a ∨ a + n ≤ x) :
    fill m a n v x = m x := by
  have hno : ¬ (a ≤ x ∧ x < a + n) := by omega
  simp only [fill, hno, if_false]

theorem fill_succ (m : ByteMem) (a n : Nat) (v : UInt8) :
    Function.update (fill m a n v) (a + n) v = fill m a (n + 1) v := by
  funext x
  simp only [Function.update_apply, fill]
  by_cases hx : x = a + n
  · simp [hx]
  · have hiff : (a ≤ x ∧ x < a + (n + 1)) ↔ (a ≤ x ∧ x < a + n) := by omega
    simp only [hx, hiff, if_false]

/-- A fill of no bytes changes nothing. -/
theorem fill_zero (m : ByteMem) (a : Nat) (v : UInt8) : fill m a 0 v = m :=
  funext fun x => fill_outside (by omega)

/-- Two fills one behind the other are one fill. -/
theorem fill_append (m : ByteMem) (a n k : Nat) (v : UInt8) :
    fill (fill m a n v) (a + n) k v = fill m a (n + k) v := by
  funext x
  by_cases hsecond : a + n ≤ x ∧ x < a + n + k
  · rw [fill_inside hsecond.1 hsecond.2, fill_inside (by omega) (by omega)]
  · rw [fill_outside (by omega)]
    by_cases hfirst : a ≤ x ∧ x < a + n
    · rw [fill_inside hfirst.1 hfirst.2, fill_inside (by omega) (by omega)]
    · rw [fill_outside (by omega), fill_outside (by omega)]

theorem copy_inside {m src : ByteMem} {a b n x : Nat} (hl : a ≤ x) (hh : x < a + n) :
    copy m a src b n x = src (b + (x - a)) := by
  simp [copy, hl, hh]

theorem copy_outside {m src : ByteMem} {a b n x : Nat} (h : x < a ∨ a + n ≤ x) :
    copy m a src b n x = m x := by
  have hno : ¬ (a ≤ x ∧ x < a + n) := by omega
  simp only [copy, hno, if_false]

/-- A copy of no bytes changes nothing. -/
@[simp] theorem copy_zero (m src : ByteMem) (a b : Nat) : copy m a src b 0 = m :=
  funext fun x => copy_outside (by omega)

/-- Two copies one behind the other are one copy. -/
theorem copy_append (m src : ByteMem) (a b n k : Nat) :
    copy (copy m a src b n) (a + n) src (b + n) k = copy m a src b (n + k) := by
  funext x
  by_cases hfirst : a ≤ x ∧ x < a + n
  · rw [copy_outside (by omega), copy_inside hfirst.1 hfirst.2, copy_inside (by omega) (by omega)]
  · by_cases hsecond : a + n ≤ x ∧ x < a + n + k
    · rw [copy_inside hsecond.1 hsecond.2, copy_inside (by omega) (by omega)]
      congr 1
      omega
    · rw [copy_outside (by omega), copy_outside (by omega), copy_outside (by omega)]

/-- Copying a range by way of a buffer. -/
theorem copy_copy (m buf src : ByteMem) (a b c n : Nat) :
    copy m a (copy buf c src b n) c n = copy m a src b n := by
  funext x
  by_cases hin : a ≤ x ∧ x < a + n
  · rw [copy_inside hin.1 hin.2, copy_inside (by omega) (by omega), copy_inside hin.1 hin.2,
      Nat.add_sub_cancel_left]
  · rw [copy_outside (by omega), copy_outside (by omega)]

/-- The memory seen from `base`. -/
def view (m : ByteMem) (base : Nat) : ByteMem := fun i => m (base + i)

@[simp] theorem view_apply (m : ByteMem) (base i : Nat) : m.view base i = m (base + i) := rfl

/-! ## Words -/

/-- The 16-bit word at `a`. -/
def word16 (m : ByteMem) (a : Nat) : Nat := (m a).toNat + 256 * (m (a + 1)).toNat

/-- Store the low 16 bits of `v` at `a`. -/
def setWord16 (m : ByteMem) (a v : Nat) : ByteMem :=
  Function.update (Function.update m a (UInt8.ofNat v)) (a + 1) (UInt8.ofNat (v / 256))

/-- The 32-bit word at `a`. -/
def word32 (m : ByteMem) (a : Nat) : Nat := word16 m a + 65536 * word16 m (a + 2)

/-- Store the low 32 bits of `v` at `a`. -/
def setWord32 (m : ByteMem) (a v : Nat) : ByteMem :=
  setWord16 (setWord16 m a v) (a + 2) (v / 65536)

theorem word16_lt (m : ByteMem) (a : Nat) : word16 m a < 65536 := by
  have h0 := (m a).toNat_lt
  have h1 := (m (a + 1)).toNat_lt
  simp only [word16]
  omega

theorem word32_lt (m : ByteMem) (a : Nat) : word32 m a < 4294967296 := by
  have h0 := word16_lt m a
  have h1 := word16_lt m (a + 2)
  simp only [word32]
  omega

/-- A 16-bit word depends on its two bytes only. -/
theorem word16_congr {m m' : ByteMem} {a a' : Nat} (h0 : m' a' = m a)
    (h1 : m' (a' + 1) = m (a + 1)) : word16 m' a' = word16 m a := by
  simp only [word16, h0, h1]

/-- A word inside a range that has been copied. -/
theorem word16_copy {m src : ByteMem} {a b n x : Nat} (h : x + 2 ≤ n) :
    word16 (copy m a src b n) (a + x) = word16 src (b + x) := by
  refine word16_congr ?_ ?_
  · rw [copy_inside (by omega) (by omega), show a + x - a = x by omega]
  · rw [copy_inside (by omega) (by omega), show b + (a + x + 1 - a) = b + x + 1 by omega]

/-- A 16-bit word determines its two bytes. -/
theorem word16_inj {m m' : ByteMem} {a a' : Nat} (h : word16 m' a' = word16 m a) :
    m' a' = m a ∧ m' (a' + 1) = m (a + 1) := by
  have h0 := (m a).toNat_lt
  have h0' := (m' a').toNat_lt
  simp only [word16] at h
  exact ⟨UInt8.toNat_inj.mp (by omega), UInt8.toNat_inj.mp (by omega)⟩

theorem setWord16_outside {m : ByteMem} {a v x : Nat} (h : x < a ∨ a + 2 ≤ x) :
    setWord16 m a v x = m x := by
  simp only [setWord16, Function.update_apply]
  rw [if_neg (by omega), if_neg (by omega)]

theorem word16_setWord16_same (m : ByteMem) (a v : Nat) :
    word16 (setWord16 m a v) a = v % 65536 := by
  have hne : a ≠ a + 1 := by omega
  simp only [word16, setWord16, Function.update_apply, hne, if_true, if_false,
    UInt8.toNat_ofNat']
  omega

theorem word16_setWord16_other {m : ByteMem} {a v b : Nat} (h : b + 2 ≤ a ∨ a + 2 ≤ b) :
    word16 (setWord16 m a v) b = word16 m b :=
  word16_congr (setWord16_outside (by omega)) (setWord16_outside (by omega))

/-- A store of a 16-bit word sees the low 16 bits only. -/
theorem setWord16_congr {m : ByteMem} {a v w : Nat} (h : v % 65536 = w % 65536) :
    setWord16 m a v = setWord16 m a w := by
  have hlow : UInt8.ofNat v = UInt8.ofNat w := by
    refine UInt8.toNat_inj.mp ?_
    simp only [UInt8.toNat_ofNat']
    omega
  have hhigh : UInt8.ofNat (v / 256) = UInt8.ofNat (w / 256) := by
    refine UInt8.toNat_inj.mp ?_
    simp only [UInt8.toNat_ofNat']
    omega
  rw [setWord16, setWord16, hlow, hhigh]

/-- A word stored in a copy of a range is a word stored in the source. -/
theorem setWord16_copy (m src : ByteMem) {a b n x : Nat} (v : Nat) (h : x + 2 ≤ n) :
    setWord16 (copy m a src b n) (a + x) v = copy m a (setWord16 src (b + x) v) b n := by
  funext y
  by_cases hin : a ≤ y ∧ y < a + n
  · rw [copy_inside hin.1 hin.2]
    have h0 : y = a + x ↔ b + (y - a) = b + x := by omega
    have h1 : y = a + x + 1 ↔ b + (y - a) = b + x + 1 := by omega
    simp only [setWord16, Function.update_apply, copy_inside hin.1 hin.2, h0, h1]
  · rw [copy_outside (by omega), setWord16_outside (by omega), copy_outside (by omega)]

/-- Copying a range out and back brings a memory to the one it was copied from, if they differ in
that range only. -/
theorem copy_back {m m' : ByteMem} (buf : ByteMem) {a n : Nat}
    (h : ∀ y, y < a ∨ a + n ≤ y → m' y = m y) : copy m a (copy buf 0 m' a n) 0 n = m' := by
  funext y
  by_cases hin : a ≤ y ∧ y < a + n
  · rw [copy_inside hin.1 hin.2, copy_inside (by omega) (by omega)]
    congr 1
    omega
  · rw [copy_outside (by omega), h y (by omega)]

/-- Storing the word that is there changes nothing. -/
theorem setWord16_self (m : ByteMem) (a : Nat) : setWord16 m a (word16 m a) = m := by
  have h0 := (m a).toNat_lt
  have hlow : UInt8.ofNat (word16 m a) = m a := by
    refine UInt8.toNat_inj.mp ?_
    simp only [word16, UInt8.toNat_ofNat']
    omega
  have hhigh : UInt8.ofNat (word16 m a / 256) = m (a + 1) := by
    have h1 := (m (a + 1)).toNat_lt
    refine UInt8.toNat_inj.mp ?_
    simp only [word16, UInt8.toNat_ofNat']
    omega
  rw [setWord16, hlow, hhigh, Function.update_eq_self, Function.update_eq_self]

/-- A store overwrites its two bytes, whatever was in them. -/
theorem setWord16_covers {m m' : ByteMem} {a : Nat} (v : Nat)
    (h : ∀ x, x < a ∨ a + 2 ≤ x → m' x = m x) : setWord16 m' a v = setWord16 m a v := by
  funext x
  by_cases hin : a ≤ x ∧ x < a + 2
  · simp only [setWord16, Function.update_apply]
    split_ifs <;> first | rfl | omega
  · rw [setWord16_outside (by omega), setWord16_outside (by omega), h x (by omega)]

/-- Storing a word that was read elsewhere copies its two bytes. -/
theorem setWord16_word16 (m src : ByteMem) (a b : Nat) :
    setWord16 m a (word16 src b) = copy m a src b 2 := by
  have hword : word16 (copy m a src b 2) a = word16 src b := word16_copy (x := 0) (by omega)
  have hself := setWord16_self (copy m a src b 2) a
  rwa [hword, setWord16_covers _ fun x hx => copy_outside hx] at hself

/-- A 32-bit word depends on its four bytes only. -/
theorem word32_congr {m m' : ByteMem} {a : Nat} (h : ∀ x, a ≤ x → x < a + 4 → m' x = m x) :
    word32 m' a = word32 m a := by
  simp only [word32, word16]
  rw [h a (by omega) (by omega), h (a + 1) (by omega) (by omega),
    h (a + 2) (by omega) (by omega), h (a + 2 + 1) (by omega) (by omega)]

theorem setWord32_outside {m : ByteMem} {a v x : Nat} (h : x < a ∨ a + 4 ≤ x) :
    setWord32 m a v x = m x := by
  rw [setWord32, setWord16_outside (by omega), setWord16_outside (by omega)]

theorem word32_setWord32_same (m : ByteMem) (a v : Nat) :
    word32 (setWord32 m a v) a = v % 4294967296 := by
  rw [word32, setWord32, word16_setWord16_same, word16_setWord16_other (by omega),
    word16_setWord16_same]
  omega

theorem word32_setWord32_other {m : ByteMem} {a v b : Nat} (h : b + 4 ≤ a ∨ a + 4 ≤ b) :
    word32 (setWord32 m a v) b = word32 m b :=
  word32_congr fun _ _ _ => setWord32_outside (by omega)

theorem setWord32_self (m : ByteMem) (a : Nat) : setWord32 m a (word32 m a) = m := by
  have h0 := word16_lt m a
  have hlow : setWord16 m a (word32 m a) = m := by
    rw [setWord16_congr (w := word16 m a), setWord16_self]
    simp only [word32]
    omega
  have hhigh : word32 m a / 65536 = word16 m (a + 2) := by
    simp only [word32]
    omega
  rw [setWord32, hlow, hhigh, setWord16_self]

/-- A store overwrites its four bytes, whatever was in them. -/
theorem setWord32_covers {m m' : ByteMem} {a : Nat} (v : Nat)
    (h : ∀ x, x < a ∨ a + 4 ≤ x → m' x = m x) : setWord32 m' a v = setWord32 m a v := by
  funext x
  by_cases hin : a ≤ x ∧ x < a + 4
  · simp only [setWord32, setWord16, Function.update_apply]
    split_ifs <;> first | rfl | omega
  · rw [setWord32_outside (by omega), setWord32_outside (by omega), h x (by omega)]

/-- Storing a word that was read elsewhere copies its four bytes. -/
theorem setWord32_word32 (m src : ByteMem) (a b : Nat) :
    setWord32 m a (word32 src b) = copy m a src b 4 := by
  have hlow : word16 (copy m a src b 4) a = word16 src b := word16_copy (x := 0) (by omega)
  have hhigh : word16 (copy m a src b 4) (a + 2) = word16 src (b + 2) :=
    word16_copy (x := 2) (by omega)
  have hword : word32 (copy m a src b 4) a = word32 src b := by
    rw [word32, word32, hlow, hhigh]
  have hself := setWord32_self (copy m a src b 4) a
  rwa [hword, setWord32_covers _ fun x hx => copy_outside hx] at hself

/-- A word is zero when its bytes are. -/
theorem word32_eq_zero_iff {m : ByteMem} {a : Nat} :
    word32 m a = 0 ↔ ∀ j < 4, m (a + j) = 0 := by
  have hzero : ∀ x : UInt8, x.toNat = 0 ↔ x = 0 := fun x => by
    rw [← UInt8.toNat_inj]
    rfl
  have hbytes : word32 m a = 0 ↔ (m a).toNat = 0 ∧ (m (a + 1)).toNat = 0 ∧
      (m (a + 2)).toNat = 0 ∧ (m (a + 3)).toNat = 0 := by
    simp only [word32, word16, show a + 2 + 1 = a + 3 from rfl]
    omega
  rw [hbytes, hzero, hzero, hzero, hzero]
  constructor
  · intro hall j hj
    obtain ⟨h0, h1, h2, h3⟩ := hall
    interval_cases j
    · exact h0
    · exact h1
    · exact h2
    · exact h3
  · exact fun h => ⟨h 0 (by omega), h 1 (by omega), h 2 (by omega), h 3 (by omega)⟩

end ByteMem
