import Mathlib.Tactic.Ring
import Genesis32.Library.ByteMem
import Genesis32.Library.MarkTable
import Genesis32.Library.Word

/-!
# The kernel page heap

The functions of `heap/heap.c` and `heap/kheap.c`, and the fills of `essentials/essentials.c` they
use. The heap hands out runs of 4096-byte pages (`KHEAP_BLOCK_SIZE`, `KHEAP_BLOCK_SHIFT = 12`) from
`[start_addr, end_addr)` and keeps one byte a page in a table that lies in memory like everything
else. Addresses and sizes are natural numbers below `2 ^ 32`; arithmetic that can wrap is written
with `add32`, `sub32` and `mul32`, and the null pointer is `0`.

A loop that moves an index towards a bound takes the number of rounds left as its first argument;
callers pass the distance to the bound.
-/

namespace Genesis32

open Word

/-- `GEN32_INVARG`. -/
abbrev gen32Invarg : Int := 2

/-- The entries of a heap table: `HEAP_TABLE_BLOCK_NULL`, `_SINGLE`, `_START`, `_MID`, `_END`. The
in-page tables of `heap32.h` use the same values. -/
def blockMarks : Marks UInt8 := ⟨0x00, 0x41, 0xc1, 0x81, 0x01, by decide⟩

/-- `struct heap_table`: the address of the first entry and the number of entries. -/
structure HeapTable where
  entries : Nat
  total : Nat
  deriving DecidableEq, Repr

/-- `struct heap`. -/
structure Heap where
  table : HeapTable
  startAddr : Nat
  endAddr : Nat
  deriving DecidableEq, Repr

/-- `memset`: the byte loop over `n` bytes from `s`. -/
def memset (m : ByteMem) (s c : Nat) : Nat → ByteMem
  | 0 => m
  | n + 1 => Function.update (memset m s c n) (s + n) (UInt8.ofNat c)

/-- `heap_validate_alignment`. -/
def heapValidateAlignment (ptr : Nat) : Bool :=
  (toInt32 ptr).tmod 4096 = 0

/-- `heap_entry_count`: the number of pages between the two addresses, as a signed pointer
difference converted to `size_t`, is the number of table entries. -/
def heapEntryCount (startAddr endAddr : Nat) (heapT : HeapTable) : Bool :=
  (toInt32 (sub32 endAddr startAddr)).tdiv 4096 % 4294967296 = heapT.total

/-- `heap_create`: the heap and the memory with a cleared table, or the error code. -/
def heapCreate (m : ByteMem) (ptr endPtr : Nat) (heapT : HeapTable) :
    Except Int (Heap × ByteMem) :=
  if !heapValidateAlignment endPtr || !heapValidateAlignment ptr then .error (-gen32Invarg)
  else if !heapEntryCount ptr endPtr heapT then .error (-gen32Invarg)
  else .ok (⟨heapT, ptr, endPtr⟩, memset m heapT.entries 0x00 heapT.total)

/-- The inner `while` of `heap_get_start_block`: the count and the table pointer it ends with. -/
def countBlocks (m : ByteMem) (max blockCount : Nat) : Nat → Nat → Nat → Nat × Nat
  | 0, count, i => (count, i)
  | fuel + 1, count, i =>
      if count < blockCount ∧ i < max ∧ m i = 0x00 then
        countBlocks m max blockCount fuel (count + 1) (i + 1)
      else (count, i)

/-- The outer `for` of `heap_get_start_block`. After a run that is too short the loop's own
increment skips the entry that ended it. -/
def scanBlocks (m : ByteMem) (max blockCount : Nat) : Nat → Nat → Nat
  | 0, _ => 0
  | fuel + 1, i =>
      if i < max then
        if m i = 0x00 then
          let (count, j) := countBlocks m max blockCount (max - i) 1 (i + 1)
          if count = blockCount then i else scanBlocks m max blockCount fuel (j + 1)
        else scanBlocks m max blockCount fuel (i + 1)
      else 0

/-- `heap_get_start_block`: the address of the first table entry of the run, or `NULL`. -/
def heapGetStartBlock (H : Heap) (m : ByteMem) (blockCount : Nat) : Nat :=
  scanBlocks m (H.table.entries + H.table.total) blockCount H.table.total H.table.entries

/-- The loop of `heap_malloc` that writes `HEAP_TABLE_BLOCK_MID` from `temp` up to `last`. -/
def markMid (m : ByteMem) (last : Nat) : Nat → Nat → ByteMem
  | 0, _ => m
  | fuel + 1, temp =>
      if temp ≤ last then markMid (Function.update m temp 0x81) last fuel (temp + 1) else m

/-- The part of `heap_malloc` that marks the blocks from `address` as taken. -/
def markBlocks (m : ByteMem) (address blockCount : Nat) : ByteMem :=
  if blockCount = 1 then Function.update m address 0x41
  else
    let m := Function.update m address 0xc1
    let m := markMid m (address + blockCount - 2) blockCount (address + 1)
    Function.update m (address + blockCount - 1) 0x01

/-- `heap_malloc`: the address handed out, or `0`, and the memory. -/
def heapMalloc (H : Heap) (m : ByteMem) (size : Nat) : Nat × ByteMem :=
  let blockCount := sub32 (add32 size 4096) 1 / 4096
  let address := heapGetStartBlock H m blockCount
  if address = 0 then (0, m)
  else
    let base := address - H.table.entries
    (add32 H.startAddr (mul32 base 4096), markBlocks m address blockCount)

/-- The loop of `heap_free` that clears a run up to its end marker. -/
def clearBlocks (m : ByteMem) (max : Nat) : Nat → Nat → Nat × ByteMem
  | 0, ptr => (ptr, m)
  | fuel + 1, ptr =>
      if m ptr ≠ 0x01 ∧ ptr < max then
        clearBlocks (Function.update m ptr 0x00) max fuel (ptr + 1)
      else (ptr, m)

/-- The part of `heap_free` after the address of the table entry is known. -/
def heapFreeEntry (H : Heap) (m : ByteMem) (ptr : Nat) : ByteMem :=
  if m ptr = 0x41 then Function.update m ptr 0x00
  else if m ptr = 0xc1 then
    let max := H.table.entries + H.table.total
    let (ptr, m) := clearBlocks m max (max - ptr) ptr
    if ptr < max then Function.update m ptr 0x00 else m
  else m

/-- `heap_free`. -/
def heapFree (H : Heap) (m : ByteMem) (absAddr : Nat) : ByteMem :=
  heapFreeEntry H m (add32 H.table.entries (sub32 absAddr H.startAddr / 4096))

/-- `kheap_init`, with the addresses of `osconfig.h`. -/
def kheapInit (m : ByteMem) : Except Int (Heap × ByteMem) :=
  heapCreate m 0x1000000 (0x1000000 + 0x6400000) ⟨0x7e00, 0x6400000 / 4096⟩

/-- `kmalloc`. -/
def kmalloc (H : Heap) (m : ByteMem) (size : Nat) : Nat × ByteMem :=
  heapMalloc H m size

/-- `kzalloc`: it clears `size` bytes, not the whole pages. -/
def kzalloc (H : Heap) (m : ByteMem) (size : Nat) : Nat × ByteMem :=
  let (ptr, m) := kmalloc H m size
  if ptr ≠ 0 then (ptr, memset m ptr 0x00 size) else (ptr, m)

/-- `kfree`. -/
def kfree (H : Heap) (m : ByteMem) (ptr : Nat) : ByteMem :=
  heapFree H m ptr

/-! ## The loops in closed form -/

theorem memset_eq_fill (m : ByteMem) (s c n : Nat) :
    memset m s c n = m.fill s n (UInt8.ofNat c) := by
  induction n with
  | zero => exact funext fun x => (ByteMem.fill_outside (by omega)).symm
  | succ n ih => rw [memset, ih, ByteMem.fill_succ]

/-- `countBlocks` moves both counters over free entries below `max`, and it stops early only at a
taken entry. -/
theorem count_blocks_spec (m : ByteMem) (max blockCount : Nat) :
    ∀ fuel count i, max ≤ i + fuel → count ≤ blockCount →
      ∃ d, countBlocks m max blockCount fuel count i = (count + d, i + d) ∧
        count + d ≤ blockCount ∧ (∀ j, j < d → i + j < max ∧ m (i + j) = 0x00) ∧
        (count + d < blockCount → i + d < max → m (i + d) ≠ 0x00) := by
  intro fuel
  induction fuel with
  | zero =>
      intro count i hfuel hcount
      exact ⟨0, rfl, hcount, by omega, by omega⟩
  | succ fuel ih =>
      intro count i hfuel hcount
      rw [countBlocks]
      split_ifs with h
      · obtain ⟨hlt, hmax, hzero⟩ := h
        obtain ⟨d, heq, hle, hfree, hstop⟩ := ih (count + 1) (i + 1) (by omega) (by omega)
        refine ⟨d + 1, ?_, by omega, ?_, ?_⟩
        · rw [heq]
          congr 1 <;> omega
        · intro j hj
          rcases j with _ | j
          · exact ⟨hmax, hzero⟩
          · have := hfree j (by omega)
            rwa [show i + 1 + j = i + (j + 1) by omega] at this
        · intro h1 h2
          have := hstop (by omega) (by omega)
          rwa [show i + 1 + d = i + (d + 1) by omega] at this
      · refine ⟨0, rfl, hcount, by omega, fun h1 h2 hz => ?_⟩
        exact h ⟨h1, h2, hz⟩

/-- The scan is a search for `b` free entries. -/
theorem scan_blocks_search (m : ByteMem) (entries total b : Nat) (hb : 0 < b) :
    blockMarks.Search (fun i => m (entries + i)) total b
      (fun fuel k => scanBlocks m (entries + total) b fuel (entries + k)) (fun k => entries + k)
      0 where
  stop := by
    intro fuel k hk
    cases fuel with
    | zero => rfl
    | succ fuel => rw [scanBlocks, if_neg (by omega)]
  taken := by
    intro fuel k hk htaken
    have hne : m (entries + k) ≠ 0x00 := htaken
    rw [scanBlocks, if_pos (by omega), if_neg hne, Nat.add_assoc entries k 1]
  count := by
    intro fuel k hk hfree
    have hfirst : m (entries + k) = 0x00 := hfree
    obtain ⟨d, heq, hle, hzero, hstop⟩ :=
      count_blocks_spec m (entries + total) b (entries + total - (entries + k)) 1 (entries + k + 1)
        (by omega) hb
    have hbody : scanBlocks m (entries + total) b (fuel + 1) (entries + k) =
        if 1 + d = b then entries + k
        else scanBlocks m (entries + total) b fuel (entries + (k + d + 2)) := by
      rw [scanBlocks, if_pos (by omega), if_pos hfirst, heq]
      simp only [show entries + k + 1 + d + 1 = entries + (k + d + 2) by omega]
    have hshift : ∀ j, entries + k + 1 + j = entries + (k + 1 + j) := fun j => by omega
    refine ⟨d, fun j hj => ?_, ?_⟩
    · obtain ⟨hlt, hnext⟩ := hzero j hj
      rw [hshift] at hlt hnext
      exact ⟨by omega, hnext⟩
    · rw [hbody]
      by_cases hcount : 1 + d = b
      · exact Or.inl ⟨hcount, if_pos hcount⟩
      · refine Or.inr ⟨by omega, fun hlt => ?_, if_neg hcount⟩
        have hend := hstop (by omega) (by omega)
        rwa [hshift] at hend

/-- The scan returns the first fit among the entries from `entries + k`, if no run starts
earlier. -/
theorem scan_blocks_spec (m : ByteMem) (entries total b : Nat) (hb : 0 < b) :
    ∀ fuel k, total ≤ k + fuel →
      (∀ k', k' < k → ¬ blockMarks.FreeRun (fun i => m (entries + i)) total k' b) →
      (scanBlocks m (entries + total) b fuel (entries + k) = 0 ∧
        ∀ k', ¬ blockMarks.FreeRun (fun i => m (entries + i)) total k' b) ∨
      ∃ k', scanBlocks m (entries + total) b fuel (entries + k) = entries + k' ∧
        blockMarks.FirstFit (fun i => m (entries + i)) total b k' :=
  (scan_blocks_search m entries total b hb).first_fit hb

theorem mark_mid_apply (last : Nat) :
    ∀ fuel (m : ByteMem) temp x, last < temp + fuel →
      markMid m last fuel temp x = if temp ≤ x ∧ x ≤ last then 0x81 else m x := by
  intro fuel
  induction fuel with
  | zero =>
      intro m temp x hfuel
      rw [markMid, if_neg (by omega)]
  | succ fuel ih =>
      intro m temp x hfuel
      rw [markMid]
      split_ifs with h h1 h1
      · rw [ih _ _ _ (by omega), Function.update_apply]
        split_ifs <;> first | rfl | omega
      · rw [ih _ _ _ (by omega), Function.update_apply]
        split_ifs <;> first | rfl | omega
      · omega
      · rfl

/-- Marking the blocks from `address` writes the marks of one run and nothing else. -/
theorem mark_blocks_eq (m : ByteMem) {address b : Nat} (hb : 0 < b) :
    markBlocks m address b = blockMarks.put m address b := by
  funext x
  unfold markBlocks Marks.put Marks.mark blockMarks
  by_cases hone : b = 1
  · subst hone
    simp only [if_true, Function.update_apply]
    split_ifs <;> first | rfl | omega
  · simp only [hone, if_false, Function.update_apply]
    rw [mark_mid_apply _ _ _ _ _ (by omega), Function.update_apply]
    split_ifs <;> first | rfl | omega

/-- Clearing entries is freeing them in the table. -/
theorem fill_free_eq (m : ByteMem) (a n : Nat) : m.fill a n 0x00 = blockMarks.erase m a n :=
  rfl

/-- Clearing stops at the first end marker below `max`. -/
theorem clear_blocks_eq (max : Nat) :
    ∀ r (m : ByteMem) fuel ptr, r < fuel → ptr + r < max → m (ptr + r) = 0x01 →
      (∀ j, j < r → m (ptr + j) ≠ 0x01) →
      clearBlocks m max fuel ptr = (ptr + r, m.fill ptr r 0x00) := by
  intro r
  induction r with
  | zero =>
      intro m fuel ptr hfuel hmax hend _
      obtain ⟨fuel, rfl⟩ : ∃ f, fuel = f + 1 := ⟨fuel - 1, by omega⟩
      rw [clearBlocks, if_neg (by simpa using fun h => absurd hend h)]
      exact Prod.ext rfl (funext fun x => (ByteMem.fill_outside (by omega)).symm)
  | succ r ih =>
      intro m fuel ptr hfuel hmax hend hbody
      obtain ⟨fuel, rfl⟩ : ∃ f, fuel = f + 1 := ⟨fuel - 1, by omega⟩
      rw [clearBlocks, if_pos ⟨hbody 0 (by omega), by omega⟩,
        ih _ fuel (ptr + 1) (by omega) (by omega)]
      · refine Prod.ext (by simp only; omega) (funext fun x => ?_)
        simp only [ByteMem.fill, Function.update_apply]
        split_ifs <;> first | rfl | omega
      · rw [Function.update_apply, if_neg (by omega), show ptr + 1 + r = ptr + (r + 1) by omega]
        exact hend
      · intro j hj
        rw [Function.update_apply, if_neg (by omega), show ptr + 1 + j = ptr + (j + 1) by omega]
        exact hbody (j + 1) (by omega)

end Genesis32
