import Genesis32.Heap.PageHeap

/-!
# What the page heap functions do

`PageHeap` is a heap that `heap_create` can have set up: its addresses are page-aligned, its table
has one entry a page and lies outside the pages. Over such a heap each function gets one
specification: `heap_malloc_cases`, `kzalloc_cases` and `heap_free_cases` say all that a call can do
to the memory. The table is read as a table of marked runs.
-/

namespace Genesis32

open Word

/-- A heap with what `heap_create` checks, a non-null start, and a table outside the pages. -/
structure PageHeap extends Heap where
  startPos : 0 < startAddr
  startAligned : startAddr % 4096 = 0
  endEq : endAddr = startAddr + 4096 * table.total
  endLt : endAddr < 4294967296
  tableLt : table.entries + table.total ≤ 4294967296
  tableOutside : table.entries + table.total ≤ startAddr ∨ endAddr ≤ table.entries

/-- The number of pages that hold `size` bytes. -/
def pagesFor (size : Nat) : Nat := (size + 4095) / 4096

theorem pages_for_one : pagesFor 1 = 1 := rfl

theorem pages_for_sector : pagesFor 512 = 1 := rfl

/-- The signed alignment test is alignment to a page. -/
theorem heap_validate_alignment_iff {ptr : Nat} :
    heapValidateAlignment ptr = true ↔ ptr % 4096 = 0 := by
  have hdvd : (4096 : Int) ∣ toInt32 ptr ↔ ptr % 4096 = 0 := by
    unfold toInt32
    split_ifs <;> omega
  simp only [heapValidateAlignment, decide_eq_true_eq, ← hdvd]
  exact Int.dvd_iff_tmod_eq_zero.symm

/-- For a positive signed distance, `heap_entry_count` accepts one entry a page. -/
theorem heap_entry_count_iff {startAddr endAddr : Nat} {heapT : HeapTable}
    (hlt : startAddr < endAddr) (hend : endAddr < 4294967296)
    (hsigned : endAddr - startAddr < 2147483648) :
    heapEntryCount startAddr endAddr heapT = true ↔
      (endAddr - startAddr) / 4096 = heapT.total := by
  have hdiff : sub32 endAddr startAddr = endAddr - startAddr := sub32_of_le hlt.le hend
  have hdiv : (((endAddr - startAddr : Nat) : Int).tdiv 4096) =
      (((endAddr - startAddr) / 4096 : Nat) : Int) := by
    rw [Int.tdiv_eq_ediv_of_nonneg (by omega)]
    omega
  simp only [heapEntryCount, decide_eq_true_eq, hdiff, toInt32, if_pos hsigned, hdiv]
  omega

/-- A block count of 0, which also a wrapped size has, finds nothing. -/
theorem scan_blocks_zero (m : ByteMem) (max : Nat) :
    ∀ fuel i, scanBlocks m max 0 fuel i = 0 := by
  intro fuel
  induction fuel with
  | zero => intro i; rfl
  | succ fuel ih =>
      intro i
      have hcount : ∀ n j, countBlocks m max 0 n 1 j = (1, j) := by
        intro n j
        cases n <;> simp [countBlocks]
      simp only [scanBlocks, hcount, Nat.one_ne_zero, if_false, ih, ite_self]

/-- On any heap whose pages have 32-bit addresses, `heap_malloc` either marks the first fit for its
block count and returns the page of the first entry, or changes nothing and returns `NULL`. -/
theorem heap_malloc_run {H : Heap} (hpages : H.startAddr + 4096 * H.table.total ≤ 4294967296)
    (m : ByteMem) (size : Nat) :
    (∃ k, 0 < add32 size 4095 / 4096 ∧
      blockMarks.FirstFit (m.view H.table.entries) H.table.total (add32 size 4095 / 4096) k ∧
      heapMalloc H m size =
        (H.startAddr + 4096 * k,
          blockMarks.put m (H.table.entries + k) (add32 size 4095 / 4096))) ∨
    (heapMalloc H m size = (0, m) ∧
      (0 < H.table.entries → 0 < add32 size 4095 / 4096 →
        ∀ k, ¬ blockMarks.FreeRun (m.view H.table.entries) H.table.total k
          (add32 size 4095 / 4096))) := by
  have hcount : sub32 (add32 size 4096) 1 = add32 size 4095 := by
    unfold sub32 add32
    omega
  simp only [heapMalloc, heapGetStartBlock, hcount]
  generalize add32 size 4095 / 4096 = b
  rcases Nat.eq_zero_or_pos b with rfl | hb
  · rw [scan_blocks_zero]
    exact Or.inr ⟨by simp, by omega⟩
  · have hscan := scan_blocks_spec m H.table.entries H.table.total b hb H.table.total 0 (by omega)
      (by omega)
    simp only [Nat.add_zero] at hscan
    rcases hscan with ⟨hnull, hnone⟩ | ⟨k, hfound, hfit⟩
    · rw [hnull]
      exact Or.inr ⟨by simp, fun _ _ => hnone⟩
    · rw [hfound]
      -- a table at address 0 makes entry 0 look like no entry
      by_cases hz : H.table.entries + k = 0
      · rw [if_pos hz]
        exact Or.inr ⟨rfl, fun he => by omega⟩
      · have hk := hfit.run.bound
        refine Or.inl ⟨k, hb, hfit, ?_⟩
        rw [if_neg hz, Nat.add_sub_cancel_left, mul32_of_lt (by omega), add32_of_lt (by omega),
          Nat.mul_comm k 4096, mark_blocks_eq _ hb]

namespace PageHeap

/-- What `heap_create` accepts with a non-null start, a positive signed length and a table outside
the pages is a `PageHeap`, and its table is cleared. -/
theorem of_heap_create {m m' : ByteMem} {ptr endPtr : Nat} {heapT : HeapTable} {H : Heap}
    (hcreate : heapCreate m ptr endPtr heapT = .ok (H, m'))
    (hstart : 0 < ptr) (hlt : ptr < endPtr) (hend : endPtr < 4294967296)
    (hsigned : endPtr - ptr < 2147483648)
    (htable : heapT.entries + heapT.total ≤ 4294967296)
    (houtside : heapT.entries + heapT.total ≤ ptr ∨ endPtr ≤ heapT.entries) :
    ∃ P : PageHeap, P.toHeap = H ∧ H = ⟨heapT, ptr, endPtr⟩ ∧
      m' = m.fill heapT.entries heapT.total 0x00 := by
  unfold heapCreate at hcreate
  split_ifs at hcreate with halign hcount
  have hends : endPtr % 4096 = 0 ∧ ptr % 4096 = 0 := by
    simpa [heap_validate_alignment_iff] using halign
  have htotal : (endPtr - ptr) / 4096 = heapT.total := by
    rw [← heap_entry_count_iff hlt hend hsigned]
    simpa using hcount
  simp only [Except.ok.injEq, Prod.mk.injEq, memset_eq_fill] at hcreate
  obtain ⟨rfl, rfl⟩ := hcreate
  exact ⟨⟨⟨heapT, ptr, endPtr⟩, hstart, hends.2, by dsimp only; omega, hend, htable, houtside⟩,
    rfl, rfl, rfl⟩

variable (P : PageHeap)

/-- The table, read from memory. -/
def tableOf (m : ByteMem) : ByteMem := m.view P.table.entries

/-- The address of page `k`. -/
def page (k : Nat) : Nat := P.startAddr + 4096 * k

/-- An address of the heap pages. -/
def InPages (x : Nat) : Prop := P.startAddr ≤ x ∧ x < P.endAddr

/-- An address of the table. -/
def InTable (x : Nat) : Prop :=
  P.table.entries ≤ x ∧ x < P.table.entries + P.table.total

variable {P}

theorem not_in_table_of_in_pages {x : Nat} (h : P.InPages x) : ¬ P.InTable x := by
  have := P.tableOutside
  simp only [InPages, InTable] at *
  omega

theorem page_pos (k : Nat) : 0 < P.page k := by
  have := P.startPos
  simp only [page]
  omega

theorem page_aligned (k : Nat) : P.page k % 4096 = 0 := by
  have := P.startAligned
  simp only [page]
  omega

/-- A run of pages below the last lies inside the heap. -/
theorem page_bound {k b : Nat} (h : k + b ≤ P.table.total) :
    P.page k + 4096 * b ≤ P.endAddr := by
  have := P.endEq
  simp only [page]
  omega

/-- The table depends on its own bytes only. -/
theorem table_of_congr {m m' : ByteMem} (h : ∀ x, P.InTable x → m' x = m x) {i : Nat}
    (hi : i < P.table.total) : P.tableOf m' i = P.tableOf m i :=
  h _ ⟨by omega, by omega⟩

theorem table_of_put (m : ByteMem) (k b : Nat) :
    P.tableOf (blockMarks.put m (P.table.entries + k) b) = blockMarks.put (P.tableOf m) k b :=
  Marks.put_shift m P.table.entries k b

theorem table_of_erase (m : ByteMem) (k b : Nat) :
    P.tableOf (blockMarks.erase m (P.table.entries + k) b) = blockMarks.erase (P.tableOf m) k b :=
  Marks.erase_shift m P.table.entries k b

/-! ## Allocation -/

/-- `heap_malloc` either marks the first fit for the pages the size takes and returns its first
page, or changes nothing and returns `NULL`. The second happens, for a positive block count, only
when no free run is long enough. -/
theorem heap_malloc_cases (m : ByteMem) {size : Nat} (hsize : size < 4294967296) :
    (∃ k, 0 < pagesFor size ∧ size + 4095 < 4294967296 ∧
      blockMarks.FirstFit (P.tableOf m) P.table.total (pagesFor size) k ∧
      heapMalloc P.toHeap m size =
        (P.page k, blockMarks.put m (P.table.entries + k) (pagesFor size))) ∨
    (heapMalloc P.toHeap m size = (0, m) ∧
      (0 < P.table.entries → 0 < add32 size 4095 / 4096 →
        ∀ k, ¬ blockMarks.FreeRun (P.tableOf m) P.table.total k (add32 size 4095 / 4096))) := by
  have hpages : P.startAddr + 4096 * P.table.total ≤ 4294967296 := by
    have := P.endEq
    have := P.endLt
    omega
  rcases heap_malloc_run hpages m size with ⟨k, hb, hfit, heq⟩ | hnull
  · -- a sum that wraps leaves less than a page, so a positive count has not wrapped
    have hlt : size + 4095 < 4294967296 := by
      unfold add32 at hb
      omega
    have hcount : add32 size 4095 / 4096 = pagesFor size := by
      rw [pagesFor, add32_of_lt hlt]
    rw [hcount] at hb hfit heq
    exact Or.inl ⟨k, hb, hlt, hfit, heq⟩
  · exact Or.inr hnull

/-- `kzalloc` is `heap_malloc` followed by the clearing of `size` bytes of what it returned. -/
theorem kzalloc_cases (m : ByteMem) {size : Nat} (hsize : size < 4294967296) :
    (∃ k, 0 < pagesFor size ∧ size + 4095 < 4294967296 ∧
      blockMarks.FirstFit (P.tableOf m) P.table.total (pagesFor size) k ∧
      kzalloc P.toHeap m size =
        (P.page k,
          ByteMem.fill (blockMarks.put m (P.table.entries + k) (pagesFor size)) (P.page k) size
            0x00)) ∨
    kzalloc P.toHeap m size = (0, m) := by
  rcases heap_malloc_cases (P := P) m hsize with ⟨k, hpos, hlt, hfit, heq⟩ | ⟨heq, _⟩
  · refine Or.inl ⟨k, hpos, hlt, hfit, ?_⟩
    have hne : P.page k ≠ 0 := Nat.ne_of_gt (page_pos k)
    simp only [kzalloc, kmalloc, heq, memset_eq_fill, ne_eq, hne, not_false_eq_true, if_true]
    rfl
  · exact Or.inr (by simp [kzalloc, kmalloc, heq])

theorem count_blocks_congr {m m' : ByteMem} {max blockCount : Nat} :
    ∀ fuel count i, (∀ x, i ≤ x → x < max → m' x = m x) →
      countBlocks m' max blockCount fuel count i = countBlocks m max blockCount fuel count i := by
  intro fuel
  induction fuel with
  | zero => intros; rfl
  | succ fuel ih =>
      intro count i hag
      rw [countBlocks, countBlocks, ih (count + 1) (i + 1) fun x hx => hag x (by omega)]
      by_cases hi : i < max
      · rw [hag i (Nat.le_refl i) hi]
      · rw [if_neg (by omega), if_neg (by omega)]

theorem count_blocks_le {m : ByteMem} {max blockCount : Nat} :
    ∀ fuel count i, i ≤ (countBlocks m max blockCount fuel count i).2 := by
  intro fuel
  induction fuel with
  | zero => intro count i; exact Nat.le_refl i
  | succ fuel ih =>
      intro count i
      rw [countBlocks]
      split_ifs
      · have := ih (count + 1) (i + 1)
        omega
      · exact Nat.le_refl i

/-- The search reads the table only. -/
theorem scan_blocks_congr {m m' : ByteMem} {max blockCount : Nat} :
    ∀ fuel i, (∀ x, i ≤ x → x < max → m' x = m x) →
      scanBlocks m' max blockCount fuel i = scanBlocks m max blockCount fuel i := by
  intro fuel
  induction fuel with
  | zero => intros; rfl
  | succ fuel ih =>
      intro i hag
      rw [scanBlocks, scanBlocks, ih (i + 1) fun x hx => hag x (by omega)]
      by_cases hi : i < max
      · have hle : i + 1 ≤ (countBlocks m max blockCount (max - i) 1 (i + 1)).2 :=
          count_blocks_le _ _ _
        rw [hag i (Nat.le_refl i) hi, count_blocks_congr (m := m) (max - i) 1 (i + 1)
          fun x hx => hag x (by omega)]
        simp only
        rw [ih _ fun x hx => hag x (by omega)]
      · rw [if_neg hi, if_neg hi]

/-- A call that returned `NULL` returns it again, as long as the table stays the same. -/
theorem kzalloc_null_congr {m m' : ByteMem} {size : Nat} (hsize : size < 4294967296)
    (htable : ∀ x, P.InTable x → m' x = m x) (hnull : (kzalloc P.toHeap m size).1 = 0) :
    kzalloc P.toHeap m' size = (0, m') := by
  have hscan : ∀ b, heapGetStartBlock P.toHeap m' b = heapGetStartBlock P.toHeap m b :=
    fun b => scan_blocks_congr _ _ fun x hl hh => htable x ⟨hl, hh⟩
  have hptr : ∀ m : ByteMem, (kzalloc P.toHeap m size).1 = (heapMalloc P.toHeap m size).1 := by
    intro m
    unfold kzalloc kmalloc
    dsimp only
    split_ifs with hne
    · rfl
    · rfl
  have hmalloc : (heapMalloc P.toHeap m' size).1 = (heapMalloc P.toHeap m size).1 := by
    simp only [heapMalloc, hscan]
    split_ifs <;> rfl
  rcases kzalloc_cases (P := P) m' hsize with ⟨k, _, _, _, heq⟩ | heq
  · have hpage : P.page k = 0 := by
      rw [← hnull, hptr, ← hmalloc, ← hptr, heq]
    exact absurd hpage (Nat.ne_of_gt (page_pos k))
  · exact heq

/-- A heap that has no page for a request of one page has no free page at all. -/
theorem kzalloc_null_taken {m : ByteMem} {size : Nat} (hsize : 1 ≤ size ∧ size ≤ 4096)
    (hentries : 0 < P.table.entries) (hnull : (kzalloc P.toHeap m size).1 = 0) {k : Nat}
    (hk : k < P.table.total) : P.tableOf m k ≠ blockMarks.free := by
  intro hfree
  have hcount : add32 size 4095 / 4096 = 1 := by
    rw [add32_of_lt (by omega)]
    omega
  rcases heap_malloc_cases (P := P) m (show size < 4294967296 by omega) with
    ⟨l, _, _, _, heq⟩ | ⟨_, hnone⟩
  · have hne : P.page l ≠ 0 := Nat.ne_of_gt (page_pos l)
    simp only [kzalloc, kmalloc, heq, ne_eq, hne, not_false_eq_true, if_true] at hnull
  · rw [hcount] at hnone
    refine hnone hentries (by omega) k ⟨by omega, fun j hj => ?_⟩
    rw [show k + j = k by omega]
    exact hfree

/-! ## Freeing -/

/-- Freeing any address in the first page of a run clears that run's marks. -/
theorem heap_free_block {m : ByteMem} {k b addr : Nat}
    (hblock : blockMarks.Block (P.tableOf m) k b) (hbound : k + b ≤ P.table.total)
    (hl : P.page k ≤ addr) (hh : addr < P.page k + 4096) :
    heapFree P.toHeap m addr = blockMarks.erase m (P.table.entries + k) b := by
  have hpos := hblock.pos
  have hend := P.endEq
  have hlast := P.endLt
  have htable := P.tableLt
  simp only [page] at hl hh
  have hindex : sub32 addr P.startAddr / 4096 = k := by
    rw [sub32_of_le (by omega) (by omega)]
    omega
  have hptr : add32 P.table.entries k = P.table.entries + k := add32_of_lt (by omega)
  have hsingle : m (P.table.entries + k) = 0x41 ↔ b = 1 := hblock.single_iff
  rw [heapFree, hindex, hptr, heapFreeEntry]
  by_cases hone : b = 1
  · subst hone
    rw [if_pos (hsingle.mpr rfl)]
    funext x
    simp only [Function.update_apply, Marks.erase]
    split_ifs <;> first | rfl | omega
  · have hfirst : m (P.table.entries + k) = 0xc1 := by
      rcases hblock.head with hs | hf
      · exact absurd (hblock.single_iff.mp hs) hone
      · exact hf
    have hlast' : m (P.table.entries + k + (b - 1)) = 0x01 := by
      rw [Nat.add_assoc]
      exact (hblock.last_iff hone (j := b - 1) (by omega)).mpr (by omega)
    have hbody : ∀ j, j < b - 1 → m (P.table.entries + k + j) ≠ 0x01 := by
      intro j hj hend'
      rw [Nat.add_assoc] at hend'
      have := (hblock.last_iff hone (j := j) (by omega)).mp hend'
      omega
    -- the loop clears up to the end mark, which is then cleared by itself
    have hclear := clear_blocks_eq (P.table.entries + P.table.total) (b - 1) m
      (P.table.entries + P.table.total - (P.table.entries + k)) (P.table.entries + k)
      (by omega) (by omega) hlast' hbody
    rw [if_neg (mt hsingle.mp hone), if_pos hfirst]
    simp only [hclear]
    rw [if_pos (by omega), ByteMem.fill_succ, show b - 1 + 1 = b by omega, fill_free_eq]

/-- Freeing an address in a page whose entry starts no run changes nothing. -/
theorem heap_free_other {m : ByteMem} {k addr : Nat} (hk : k < P.table.total)
    (hsingle : P.tableOf m k ≠ 0x41) (hfirst : P.tableOf m k ≠ 0xc1)
    (hl : P.page k ≤ addr) (hh : addr < P.page k + 4096) :
    heapFree P.toHeap m addr = m := by
  have hend := P.endEq
  have hlast := P.endLt
  have htable := P.tableLt
  simp only [page] at hl hh
  have hindex : sub32 addr P.startAddr / 4096 = k := by
    rw [sub32_of_le (by omega) (by omega)]
    omega
  have hptr : add32 P.table.entries k = P.table.entries + k := add32_of_lt (by omega)
  simp only [tableOf, ByteMem.view_apply] at hsingle hfirst
  rw [heapFree, hindex, hptr, heapFreeEntry, if_neg hsingle, if_neg hfirst]

/-- Over a covered table, freeing an address of the heap clears the run that starts in its page, or
changes nothing when no run starts there. -/
theorem heap_free_cases {m : ByteMem} {addr : Nat}
    (hcovered : blockMarks.Covered (P.tableOf m) P.table.total) (haddr : P.InPages addr) :
    ∃ k, k < P.table.total ∧ P.page k ≤ addr ∧ addr < P.page k + 4096 ∧
      ((∃ b, blockMarks.Block (P.tableOf m) k b ∧ k + b ≤ P.table.total ∧
        heapFree P.toHeap m addr = blockMarks.erase m (P.table.entries + k) b) ∨
      ((∀ b, ¬ blockMarks.Block (P.tableOf m) k b) ∧ heapFree P.toHeap m addr = m)) := by
  have hend := P.endEq
  obtain ⟨hlo, hhi⟩ := haddr
  have hk : (addr - P.startAddr) / 4096 < P.table.total := by omega
  have hl : P.page ((addr - P.startAddr) / 4096) ≤ addr := by
    simp only [page]
    omega
  have hh : addr < P.page ((addr - P.startAddr) / 4096) + 4096 := by
    simp only [page]
    omega
  refine ⟨(addr - P.startAddr) / 4096, hk, hl, hh, ?_⟩
  generalize (addr - P.startAddr) / 4096 = k at hk hl hh
  by_cases hhead : P.tableOf m k = 0x41 ∨ P.tableOf m k = 0xc1
  · have hne : P.tableOf m k ≠ blockMarks.free := by
      rcases hhead with hs | hf
      · rw [hs]; decide
      · rw [hf]; decide
    obtain ⟨k', b, hblock, hle, hlt, hbound⟩ := hcovered k hk hne
    -- a mark of a first page is not one inside a run
    have hstart : k' = k := by
      by_contra hne'
      have hin := hblock.marks (k - k') (by omega)
      rw [Nat.add_sub_cancel' hle] at hin
      have hmid := blockMarks.mark_succ_ne (b := b) (j := k - k') (by omega) (by omega)
      rcases hhead with hs | hf
      · exact hmid.1 (hin.symm.trans hs)
      · exact hmid.2 (hin.symm.trans hf)
    subst hstart
    exact Or.inl ⟨b, hblock, hbound, heap_free_block hblock hbound hl hh⟩
  · refine Or.inr ⟨fun b hblock => hhead hblock.head, ?_⟩
    exact heap_free_other hk (fun h => hhead (Or.inl h)) (fun h => hhead (Or.inr h)) hl hh

end PageHeap

end Genesis32
