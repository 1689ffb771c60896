import Genesis32.Heap.PageHeapSafety

/-!
# Laws of the page heap

What a caller of `heap_malloc` and `heap_free` can rely on, over every content of the table.
`heap_malloc` is a complete first-fit search, `heap_free` of what it returned undoes it, and frees
of different allocations commute. `heap_free` of an address that is no allocation is another matter:
the address is divided by the page size and used as an index without a test, and
`heap_free_noop_iff` says for which addresses nothing happens all the same.
-/

namespace Genesis32

open Word

/-! ## Allocation is first fit -/

/-- The block count that `heap_malloc` computes, with the 32-bit sum that can wrap. -/
def blockCountOf (size : Nat) : Nat := (size + 4095) % 4294967296 / 4096

/-- A heap whose pages and table have 32-bit addresses, of which neither is null. -/
structure Heap.InAddressSpace (H : Heap) : Prop where
  start : 0 < H.startAddr
  pages : H.startAddr + 4096 * H.table.total ≤ 4294967296
  entries : 0 < H.table.entries
  table : H.table.entries + H.table.total < 4294967296

/-- `heap_malloc` returns `NULL` exactly when the block count is 0 or no run of entries is free for
it, and then it changes nothing. Otherwise it returns the page of the lowest entry at which a free
run starts. -/
theorem heap_malloc_first_fit {H : Heap} (hH : H.InAddressSpace) (m : ByteMem) (size : Nat) :
    ((heapMalloc H m size).1 = 0 ↔ blockCountOf size = 0 ∨
      ∀ k, ¬ blockMarks.FreeRun (m.view H.table.entries) H.table.total k (blockCountOf size)) ∧
    ((heapMalloc H m size).1 = 0 → (heapMalloc H m size).2 = m) ∧
    ((heapMalloc H m size).1 ≠ 0 → ∃ k,
      blockMarks.FirstFit (m.view H.table.entries) H.table.total (blockCountOf size) k ∧
      (heapMalloc H m size).1 = H.startAddr + 4096 * k) := by
  have hcount : add32 size 4095 / 4096 = blockCountOf size := rfl
  have hstart := hH.start
  rcases heap_malloc_run hH.pages m size with ⟨k, hpos, hfit, heq⟩ | ⟨heq, hnone⟩
  · rw [hcount] at hpos hfit
    rw [heq]
    refine ⟨⟨fun h => absurd h (by simp only; omega), ?_⟩, fun h => absurd h (by simp only; omega),
      fun _ => ⟨k, hfit, rfl⟩⟩
    rintro (hzero | hno)
    · omega
    · exact absurd hfit.run (hno k)
  · rw [hcount] at hnone
    rw [heq]
    refine ⟨⟨fun _ => ?_, fun _ => rfl⟩, fun _ => rfl, fun h => absurd rfl h⟩
    rcases Nat.eq_zero_or_pos (blockCountOf size) with hzero | hpos
    · exact Or.inl hzero
    · exact Or.inr (hnone hH.entries hpos)

theorem small_heap_in_address_space : smallHeap.InAddressSpace :=
  ⟨by decide, by decide, by decide, by decide⟩

/-- Two pages of the small heap, whose first entry is taken: the run starts at the second entry. -/
theorem heap_malloc_first_fit_small_heap : ∃ k,
    blockMarks.FirstFit (ByteMem.view (fun x => if x = 0x7e00 then 0x41 else 0x00) 0x7e00) 8 2 k ∧
    (heapMalloc smallHeap (fun x => if x = 0x7e00 then 0x41 else 0x00) 5000).1 =
      0x1000000 + 4096 * k :=
  (heap_malloc_first_fit small_heap_in_address_space
    (fun x => if x = 0x7e00 then 0x41 else 0x00) 5000).2.2 (by decide +kernel)

/-! ## Freeing an allocation -/

variable {P : PageHeap} {m : ByteMem}

/-- Freeing the first page of an owned allocation clears its entries. -/
theorem PageHeap.Owns.heap_free {a : Allocation} (h : P.Owns m a) :
    ∃ k, a.ptr = P.page k ∧ blockMarks.Block (P.tableOf m) k (pagesFor a.size) ∧
      heapFree P.toHeap m a.ptr = blockMarks.erase m (P.table.entries + k) (pagesFor a.size) := by
  obtain ⟨k, hptr, hblock, hbound⟩ := h
  refine ⟨k, hptr, hblock, ?_⟩
  rw [hptr]
  exact PageHeap.heap_free_block hblock hbound (Nat.le_refl _) (by omega)

/-- `heap_free` of what `heap_malloc` returned gives the memory back as it was, and two allocations
can be freed in either order. -/
theorem heap_free_undoes :
    (∀ size < 4294967296, (heapMalloc P.toHeap m size).1 ≠ 0 →
      heapFree P.toHeap (heapMalloc P.toHeap m size).2 (heapMalloc P.toHeap m size).1 = m) ∧
    ∀ a b, P.Owns m a → P.Owns m b → a.ptr ≠ b.ptr →
      heapFree P.toHeap (heapFree P.toHeap m a.ptr) b.ptr =
        heapFree P.toHeap (heapFree P.toHeap m b.ptr) a.ptr := by
  constructor
  · intro size hsize hne
    rcases PageHeap.heap_malloc_cases (P := P) m hsize with ⟨k, hpos, _, hfit, heq⟩ | ⟨heq, _⟩
    · -- the entries of the run were free, so clearing them is all there is to undo
      have hnew : P.Owns (blockMarks.put m (P.table.entries + k) (pagesFor size))
          ⟨P.page k, size⟩ := PageHeap.owns_marked hfit.run hpos rfl
      obtain ⟨k', hptr, _, hfree⟩ := hnew.heap_free
      obtain rfl := PageHeap.page_inj hptr
      rw [heq, hfree]
      exact Marks.erase_put (n := P.table.entries + P.table.total)
        ⟨by have := hfit.run.bound; omega, fun j hj => by
          rw [Nat.add_assoc]
          exact hfit.run.free j hj⟩
    · rw [heq] at hne
      exact absurd rfl hne
  · intro a b ha hb hne
    obtain ⟨k, hk, hblock, hfree⟩ := ha.heap_free
    obtain ⟨k', hk', hblock', hfree'⟩ := hb.heap_free
    have hdistinct : b.ptr ≠ P.page k := fun h => hne (hk.trans h.symm)
    have hdistinct' : a.ptr ≠ P.page k' := fun h => hne (h.trans hk'.symm)
    -- each allocation is still owned after the other one is freed
    obtain ⟨l, hl, _, hthen⟩ := (hb.clear hblock hdistinct).heap_free
    obtain ⟨l', hl', _, hthen'⟩ := (ha.clear hblock' hdistinct').heap_free
    obtain rfl : k' = l := PageHeap.page_inj (hk'.symm.trans hl)
    obtain rfl : k = l' := PageHeap.page_inj (hk.symm.trans hl')
    rw [hfree, hfree', hthen, hthen']
    exact Marks.erase_comm m _ _ _ _

/-- The small heap with one page allocated, and with two more. -/
def onePage : ByteMem := (heapMalloc smallHeap (fun _ => 0x00) 100).2

def threePages : ByteMem := (heapMalloc smallHeap onePage 5000).2

/-- Two pages of the small heap are allocated behind another one and freed again, or both
allocations are freed in either order. -/
theorem heap_free_undoes_small_heap :
    heapFree smallHeap threePages 0x1001000 = onePage ∧
    heapFree smallHeap (heapFree smallHeap threePages 0x1000000) 0x1001000 =
      heapFree smallHeap (heapFree smallHeap threePages 0x1001000) 0x1000000 := by
  have hptr : (heapMalloc smallHeap onePage 5000).1 = 0x1001000 := by decide +kernel
  have hfirst : smallPageHeap.Owns threePages ⟨0x1000000, 100⟩ :=
    ⟨0, rfl, ⟨by decide, by decide +kernel⟩, by decide⟩
  have hsecond : smallPageHeap.Owns threePages ⟨0x1001000, 5000⟩ :=
    ⟨1, rfl, ⟨by decide, by decide +kernel⟩, by decide⟩
  constructor
  · have hundo : (heapMalloc smallHeap onePage 5000).1 ≠ 0 →
        heapFree smallHeap (heapMalloc smallHeap onePage 5000).2
          (heapMalloc smallHeap onePage 5000).1 = onePage :=
      (heap_free_undoes (P := smallPageHeap)).1 5000 (by decide)
    rw [hptr] at hundo
    exact hundo (by decide)
  · exact (heap_free_undoes (P := smallPageHeap)).2 ⟨0x1000000, 100⟩ ⟨0x1001000, 5000⟩ hfirst
      hsecond (by simp)

/-! ## Freeing an address that is no allocation -/

/-- The address of the table entry that `heap_free` looks at. -/
def freeEntryAddr (H : Heap) (absAddr : Nat) : Nat :=
  add32 H.table.entries (sub32 absAddr H.startAddr / 4096)

/-- The clearing loop leaves a zero byte zero. -/
theorem clear_blocks_zero (max : Nat) :
    ∀ fuel (m : ByteMem) ptr x, m x = 0x00 → (clearBlocks m max fuel ptr).2 x = 0x00 := by
  intro fuel
  induction fuel with
  | zero => exact fun m ptr x hx => hx
  | succ fuel ih =>
      intro m ptr x hx
      rw [clearBlocks]
      split_ifs
      · refine ih _ _ _ ?_
        rw [Function.update_apply]
        split_ifs
        · rfl
        · exact hx
      · exact hx

/-- `heap_free` of a table entry changes nothing exactly when the entry is no mark of a first page,
or is such a mark of a longer run behind the end of the table. -/
theorem heap_free_entry_noop_iff (H : Heap) (m : ByteMem) (ptr : Nat) :
    heapFreeEntry H m ptr = m ↔
      m ptr ≠ 0x41 ∧ (m ptr = 0xc1 → H.table.entries + H.table.total ≤ ptr) := by
  rw [heapFreeEntry]
  by_cases hsingle : m ptr = 0x41
  · rw [if_pos hsingle]
    refine ⟨fun h => ?_, fun h => absurd hsingle h.1⟩
    have hbyte := congrFun h ptr
    rw [Function.update_self, hsingle] at hbyte
    exact absurd hbyte (by decide)
  · rw [if_neg hsingle]
    by_cases hfirst : m ptr = 0xc1
    · rw [if_pos hfirst]
      simp only
      rcases Nat.lt_or_ge ptr (H.table.entries + H.table.total) with hlt | hge
      · -- below the end of the table the loop clears the entry itself in its first round
        obtain ⟨fuel, hfuel⟩ : ∃ fuel, H.table.entries + H.table.total - ptr = fuel + 1 :=
          ⟨H.table.entries + H.table.total - ptr - 1, by omega⟩
        have hcleared : (clearBlocks m (H.table.entries + H.table.total)
            (H.table.entries + H.table.total - ptr) ptr).2 ptr = 0x00 := by
          rw [hfuel, clearBlocks, if_pos ⟨by rw [hfirst]; decide, hlt⟩]
          exact clear_blocks_zero _ _ _ _ _ (Function.update_self ..)
        refine ⟨fun h => ?_, fun h => absurd (h.2 hfirst) (by omega)⟩
        have hbyte := congrFun h ptr
        rw [hfirst] at hbyte
        split_ifs at hbyte
        · rw [Function.update_apply] at hbyte
          split_ifs at hbyte
          · exact absurd hbyte (by decide)
          · rw [hcleared] at hbyte
            exact absurd hbyte (by decide)
        · rw [hcleared] at hbyte
          exact absurd hbyte (by decide)
      · rw [Nat.sub_eq_zero_of_le hge, clearBlocks, if_neg (by omega)]
        exact ⟨fun _ => ⟨hsingle, fun _ => hge⟩, fun _ => rfl⟩
    · rw [if_neg hfirst]
      exact ⟨fun _ => ⟨hsingle, fun h => absurd h hfirst⟩, fun _ => rfl⟩

/-- The entry of an address in page `k` is entry `k` of the table. -/
theorem free_entry_addr_page {k addr : Nat} (hk : k < P.table.total) (hl : P.page k ≤ addr)
    (hh : addr < P.page k + 4096) : freeEntryAddr P.toHeap addr = P.table.entries + k := by
  have hend := P.endEq
  have hlast := P.endLt
  have htable := P.tableLt
  simp only [PageHeap.page] at hl hh
  have hindex : sub32 addr P.startAddr / 4096 = k := by
    rw [sub32_of_le (by omega) (by omega)]
    omega
  rw [freeEntryAddr, hindex, add32_of_lt (by omega)]

/-- In a well-formed table an entry is the mark of a first page exactly when a run starts there. -/
theorem starts_run_iff (hcovered : blockMarks.Covered (P.tableOf m) P.table.total) {k : Nat}
    (hk : k < P.table.total) :
    (P.tableOf m k = 0x41 ∨ P.tableOf m k = 0xc1) ↔ ∃ b, blockMarks.Block (P.tableOf m) k b := by
  have hend := P.endEq
  constructor
  · intro hhead
    have hin : P.InPages (P.page k) :=
      ⟨by simp only [PageHeap.page]; omega, by simp only [PageHeap.page]; omega⟩
    obtain ⟨l, hl, hle, hlt, hcase⟩ := PageHeap.heap_free_cases hcovered hin
    obtain rfl : l = k := by
      simp only [PageHeap.page] at hle hlt
      omega
    rcases hcase with ⟨b, hblock, _⟩ | ⟨_, heq⟩
    · exact ⟨b, hblock⟩
    · have hentry := free_entry_addr_page hk (Nat.le_refl (P.page l)) (by omega)
      rw [heapFree, show add32 P.table.entries _ = _ from hentry,
        heap_free_entry_noop_iff] at heq
      rcases hhead with hs | hf
      · exact absurd hs heq.1
      · exact absurd (heq.2 hf) (by omega)
  · intro h
    obtain ⟨b, hblock⟩ := h
    exact hblock.head

/-- Freeing an address at which no allocation starts changes nothing exactly when the address lies
inside the first page of no allocation and, if it is an address outside the heap, the byte that is
taken for its entry is no mark of a first page (a mark of a longer run behind the table does no
harm). -/
theorem heap_free_noop_iff (hcovered : blockMarks.Covered (P.tableOf m) P.table.total) {addr : Nat}
    (hnot : ∀ k b, k < P.table.total → blockMarks.Block (P.tableOf m) k b → addr ≠ P.page k) :
    heapFree P.toHeap m addr = m ↔
      (∀ k b, k < P.table.total → blockMarks.Block (P.tableOf m) k b →
        ¬ (P.page k < addr ∧ addr < P.page k + 4096)) ∧
      (¬ P.InPages addr → m (freeEntryAddr P.toHeap addr) ≠ 0x41 ∧
        (m (freeEntryAddr P.toHeap addr) = 0xc1 →
          P.table.entries + P.table.total ≤ freeEntryAddr P.toHeap addr)) := by
  have hend := P.endEq
  have hentry : heapFree P.toHeap m addr = m ↔ m (freeEntryAddr P.toHeap addr) ≠ 0x41 ∧
      (m (freeEntryAddr P.toHeap addr) = 0xc1 →
        P.table.entries + P.table.total ≤ freeEntryAddr P.toHeap addr) :=
    heap_free_entry_noop_iff P.toHeap m (freeEntryAddr P.toHeap addr)
  rw [hentry]
  by_cases hin : P.InPages addr
  · -- the entry is one of the table, so it must not be the mark of a first page
    obtain ⟨k, hk, hl, hh⟩ : ∃ k, k < P.table.total ∧ P.page k ≤ addr ∧
        addr < P.page k + 4096 := by
      obtain ⟨hlo, hhi⟩ := hin
      refine ⟨(addr - P.startAddr) / 4096, by omega, ?_, ?_⟩
      · simp only [PageHeap.page]
        omega
      · simp only [PageHeap.page]
        omega
    rw [free_entry_addr_page hk hl hh]
    have hmark : (P.tableOf m k = 0x41 ∨ P.tableOf m k = 0xc1) ↔ _ := starts_run_iff hcovered hk
    simp only [PageHeap.tableOf, ByteMem.view_apply] at hmark
    constructor
    · intro hother
      refine ⟨fun k' b hk' hblock hinside => ?_, fun hout => absurd hin hout⟩
      obtain rfl : k' = k := by
        simp only [PageHeap.page] at hinside hl hh
        omega
      rcases hmark.mpr ⟨b, hblock⟩ with hs | hf
      · exact hother.1 hs
      · exact absurd (hother.2 hf) (by omega)
    · intro hnone
      have hno : ¬ ∃ b, blockMarks.Block (m.view P.table.entries) k b := by
        intro hall
        obtain ⟨b, hblock⟩ := hall
        have hne := hnot k b hk hblock
        exact hnone.1 k b hk hblock ⟨by omega, hh⟩
      exact ⟨fun hs => hno (hmark.mp (Or.inl hs)), fun hf => absurd (hmark.mp (Or.inr hf)) hno⟩
  · -- outside the heap only the byte that is taken for the entry matters
    refine ⟨fun hother => ⟨fun k b hk _ hinside => hin ?_, fun _ => hother⟩, fun h => h.2 hin⟩
    simp only [PageHeap.page] at hinside
    exact ⟨by omega, by omega⟩

/-- The memory of the small heap with one page allocated, and with a mark outside the table. -/
def firstPageTaken : ByteMem := Function.update (fun _ => 0x00) 0x7e00 0x41

def strayMark : ByteMem := Function.update (fun _ => 0x00) 0x106e00 0x41

/-- In a cleared table no allocation starts. -/
theorem no_block_of_free {t : Nat → UInt8} {n : Nat} (h : ∀ i < n, t i = 0x00) {k b : Nat}
    (hk : k < n) : ¬ blockMarks.Block t k b :=
  fun hblock => hblock.ne_free (Nat.le_refl k) (by have := hblock.pos; omega) (h k hk)

theorem stray_mark_table : ∀ i < 8, smallPageHeap.tableOf strayMark i = 0x00 := by
  decide +kernel

/-- An address inside an allocated page frees the page, and `NULL` clears a byte far behind the
table. -/
theorem interior_address_freed :
    blockMarks.Covered (smallPageHeap.tableOf firstPageTaken) 8 ∧
    (∀ k, 0x1000001 ≠ smallPageHeap.page k) ∧
    heapFree smallHeap firstPageTaken 0x1000001 ≠ firstPageTaken ∧
    blockMarks.Covered (smallPageHeap.tableOf strayMark) 8 ∧
    (∀ k, 0 ≠ smallPageHeap.page k) ∧ heapFree smallHeap strayMark 0 ≠ strayMark := by
  refine ⟨fun i hi hne => ?_, fun k hk => ?_, fun h => ?_, Marks.covered_free stray_mark_table,
    fun k => (Nat.ne_of_gt (PageHeap.page_pos k)).symm, fun h => ?_⟩
  · have hfirst : ∀ i < 8, smallPageHeap.tableOf firstPageTaken i ≠ 0x00 → i = 0 := by
      decide +kernel
    obtain rfl := hfirst i hi hne
    refine ⟨0, 1, ⟨by omega, fun j hj => ?_⟩, by omega, by omega, by omega⟩
    obtain rfl : j = 0 := by omega
    rfl
  · have haligned := PageHeap.page_aligned (P := smallPageHeap) k
    omega
  · have hbyte := congrFun h 0x7e00
    revert hbyte
    decide +kernel
  · have hbyte := congrFun h 0x106e00
    revert hbyte
    decide +kernel

/-- `NULL` on the small heap with a cleared memory. -/
theorem heap_free_noop_iff_null :
    heapFree smallHeap (fun _ => 0x00) 0 = (fun _ => 0x00) ↔
      (∀ k b, k < 8 → blockMarks.Block (smallPageHeap.tableOf fun _ => 0x00) k b →
        ¬ (smallPageHeap.page k < 0 ∧ 0 < smallPageHeap.page k + 4096)) ∧
      (¬ smallPageHeap.InPages 0 → (0x00 : UInt8) ≠ 0x41 ∧ ((0x00 : UInt8) = 0xc1 →
        0x7e00 + 8 ≤ freeEntryAddr smallHeap 0)) :=
  heap_free_noop_iff (P := smallPageHeap) (Marks.covered_free fun _ _ => rfl)
    fun _ _ hk hblock => absurd hblock (no_block_of_free (fun _ _ => rfl) hk)

end Genesis32
