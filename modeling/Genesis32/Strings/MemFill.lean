import Genesis32.Heap.PageHeap

/-!
# Filling memory

`memset_fast` and `gen_memset` of `essentials/essentials.c`: a loop that stores whole words and a
byte loop over what is left. `mem_fill_agrees` says that both leave the memory that the byte loop of
`memset` leaves, at every address and for every length.
-/

namespace Genesis32

/-- The `for` of `memset_fast` over the words, with `r` words left. -/
def fillWords (s val : Nat) : Nat → Nat → ByteMem → ByteMem
  | 0, _, m => m
  | r + 1, i, m => fillWords s val r (i + 1) (m.setWord32 (s + 4 * i) val)

/-- `memset_fast`. The local `val` is a memory of its own and `stale` is what is in it before. -/
def memsetFast (stale m : ByteMem) (s c n : Nat) : ByteMem :=
  let n1 := n / 4
  let val := (memset stale 0 c 4).word32 0
  memset (fillWords s val n1 0 m) (s + 4 * n1) c (n % 4)

/-- `gen_memset`. -/
def genMemset (stale m : ByteMem) (s c n : Nat) : ByteMem :=
  if s % 4 = 0 then memsetFast stale m s c n else memset m s c n

/-- The local holds the byte four times, and storing it fills four bytes. -/
theorem store_val_eq_fill (stale m : ByteMem) (a c : Nat) :
    m.setWord32 a ((memset stale 0 c 4).word32 0) = m.fill a 4 (UInt8.ofNat c) := by
  rw [memset_eq_fill, ByteMem.setWord32_word32]
  funext x
  by_cases hin : a ≤ x ∧ x < a + 4
  · rw [ByteMem.copy_inside hin.1 hin.2, ByteMem.fill_inside (by omega) (by omega),
      ByteMem.fill_inside hin.1 hin.2]
  · rw [ByteMem.copy_outside (by omega), ByteMem.fill_outside (by omega)]

/-- The word loop fills what it goes over. -/
theorem fill_words_eq (stale : ByteMem) (s c : Nat) :
    ∀ r i (m : ByteMem), fillWords s ((memset stale 0 c 4).word32 0) r i m =
      m.fill (s + 4 * i) (4 * r) (UInt8.ofNat c) := by
  intro r
  induction r with
  | zero =>
      intro i m
      exact (ByteMem.fill_zero ..).symm
  | succ r ih =>
      intro i m
      rw [fillWords, store_val_eq_fill, ih, show s + 4 * (i + 1) = s + 4 * i + 4 by omega,
        ByteMem.fill_append, show 4 + 4 * r = 4 * (r + 1) by omega]

/-- `memset_fast` and `gen_memset` leave memory as `memset` does: the `n` bytes from the destination
hold the low byte of the value, and every other byte is as before. -/
theorem mem_fill_agrees (stale m : ByteMem) (s c n : Nat) :
    memsetFast stale m s c n = memset m s c n ∧ genMemset stale m s c n = memset m s c n ∧
      (∀ x, s ≤ x → x < s + n → memset m s c n x = UInt8.ofNat c) ∧
      ∀ x, x < s ∨ s + n ≤ x → memset m s c n x = m x := by
  have hfast : memsetFast stale m s c n = memset m s c n := by
    unfold memsetFast
    simp only
    rw [fill_words_eq, memset_eq_fill, memset_eq_fill, Nat.mul_zero, Nat.add_zero,
      ByteMem.fill_append, Nat.div_add_mod]
  refine ⟨hfast, ?_, fun x hl hh => ?_, fun x hx => ?_⟩
  · unfold genMemset
    split_ifs
    · exact hfast
    · rfl
  · rw [memset_eq_fill]
    exact ByteMem.fill_inside hl hh
  · rw [memset_eq_fill]
    exact ByteMem.fill_outside hx

end Genesis32
