import Genesis32.Heap.HeapCream

/-!
# Safety of the two-level heap over whole runs

Clients take pages from the kernel heap and blocks from `heap_cream`, give them back, and write to
what they hold. `TwoLevelInv` joins the two allocators: the kernel table marks the page of the
array, the attached pages and the pages of the clients as separate runs, and every live block is a
run in the table of one attached page. Entries of an in-page table that belong to no live block are
left unconstrained, because a recycled page enters with whatever its last owner wrote there.
-/

namespace Genesis32

/-- The memory, the blocks handed out by `heap_cream_malloc` and not yet freed, and the pages that
clients hold from the kernel heap. -/
structure CreamState where
  mem : ByteMem
  blocks : List Allocation
  pages : List Allocation

/-- A call on either heap, or a client's store of one byte. -/
inductive CreamOp where
  | malloc (size : Nat)
  | free (ptr : Nat)
  | page (op : HeapOp)
  | write (addr : Nat) (value : UInt8)
  deriving DecidableEq

namespace Allocation

/-- The bytes of the 32-byte blocks of an allocation. -/
def BlockCovers (b : Allocation) (x : Nat) : Prop :=
  b.ptr ≤ x ∧ x < b.ptr + 32 * blocksFor b.size

end Allocation

namespace CreamOp

/-- Sizes and pointers are any 32-bit value. A client frees only pages it holds, and it writes only
inside the blocks and pages it holds. -/
def Admissible (s : CreamState) : CreamOp → Prop
  | .malloc size => size < 4294967296
  | .free ptr => ptr < 4294967296
  | .page (.malloc size) => size < 4294967296
  | .page (.zalloc size) => size < 4294967296
  | .page (.free addr) => ∃ a ∈ s.pages, a.ptr = addr
  | .write addr _ => (∃ b ∈ s.blocks, b.BlockCovers addr) ∨ ∃ a ∈ s.pages, a.Covers addr

/-- The state after a call. A block is live until `heap_cream_free` reports that it freed it. -/
def next (H : Heap) (mary : Nat) (s : CreamState) : CreamOp → CreamState
  | .malloc size =>
      match heapCreamMalloc H s.mem mary size with
      | (ptr, m) => ⟨m, if ptr = 0 then s.blocks else ⟨ptr, size⟩ :: s.blocks, s.pages⟩
  | .free ptr =>
      match heapCreamFree H s.mem mary ptr with
      | (freed, m) => ⟨m, if freed then s.blocks.filter (·.ptr ≠ ptr) else s.blocks, s.pages⟩
  | .page op =>
      match op.next H ⟨s.mem, s.pages⟩ with
      | ⟨m, pages⟩ => ⟨m, s.blocks, pages⟩
  | .write addr value => ⟨Function.update s.mem addr value, s.blocks, s.pages⟩

end CreamOp

/-- One step of a run. -/
def CreamStep (H : Heap) (mary : Nat) (s : CreamState) (op : CreamOp) (s' : CreamState) : Prop :=
  op.Admissible s ∧ s' = op.next H mary s

variable {P : PageHeap} {mary : Nat}

/-- The block is the run from entry `k` in the table of the page in slot `i`. -/
structure Placed (m : ByteMem) (mary : Nat) (b : Allocation) (i k : Nat) : Prop where
  index : i < 124
  attached : mothermary m mary i ≠ 0
  ptr : b.ptr = mothermary m mary i + (128 + k * 32)
  block : blockMarks.Block (m.view (mothermary m mary i)) k (blocksFor b.size)
  bound : k + blocksFor b.size ≤ 124

/-- A placed block depends on its slot and on the entries of its page. -/
theorem Placed.congr {m m' : ByteMem} {b : Allocation} {i k : Nat} (h : Placed m mary b i k)
    (hslot : mothermary m' mary i = mothermary m mary i)
    (hentry : ∀ j, j < blocksFor b.size →
      m' (mothermary m mary i + (k + j)) = m (mothermary m mary i + (k + j))) :
    Placed m' mary b i k := by
  refine ⟨h.index, hslot ▸ h.attached, hslot ▸ h.ptr, ?_, h.bound⟩
  rw [hslot]
  exact h.block.congr hentry

/-- The invariant of a run of the two-level heap. -/
structure TwoLevelInv (P : PageHeap) (mary : Nat) (s : CreamState) : Prop where
  heap : HeapInv P ⟨s.mem, ⟨mary, 1⟩ :: s.pages⟩
  attached : Attached P s.mem mary
  unshared : ∀ i, i < 124 → mothermary s.mem mary i ≠ 0 →
    ∀ a ∈ s.pages, a.ptr ≠ mothermary s.mem mary i
  placed : ∀ b ∈ s.blocks, ∃ i k, Placed s.mem mary b i k
  distinct : s.blocks.Pairwise fun b b' => b.ptr ≠ b'.ptr

/-! ## Frames -/

/-- The array and the attached pages do not notice a change elsewhere that keeps the kernel table's
marks for them. -/
theorem Attached.congr {m m' : ByteMem} (h : Attached P m mary)
    (harray : P.Owns m' ⟨mary, 1⟩)
    (howned : ∀ i, i < 124 → mothermary m mary i ≠ 0 → P.Owns m' ⟨mothermary m mary i, 1⟩)
    (hslots : ∀ i, i < 124 → mothermary m' mary i = mothermary m mary i)
    (hguards : ∀ i, i < 124 → mothermary m mary i ≠ 0 → ∀ j, 124 ≤ j → j < 128 →
      m' (mothermary m mary i + j) = m (mothermary m mary i + j)) : Attached P m' mary := by
  refine ⟨harray, fun i hi hne => ?_, fun i hi => ?_, fun i j hi hj hne heq => ?_,
    fun i hi hne j hl hh => ?_⟩
  · rw [hslots i hi] at hne ⊢
    exact howned i hi hne
  · rw [hslots i hi]
    exact h.ne_array i hi
  · rw [hslots i hi] at hne
    rw [hslots i hi, hslots j hj] at heq
    exact h.distinct i j hi hj hne heq
  · rw [hslots i hi] at hne ⊢
    rw [hguards i hi hne j hl hh]
    exact h.guard i hi hne j hl hh

namespace TwoLevelInv

variable {s : CreamState} {i k : Nat}

/-- Nothing that a client holds as a page shares a byte with an attached page. -/
theorem apart_page (h : TwoLevelInv P mary s) (hi : i < 124)
    (hne : mothermary s.mem mary i ≠ 0) {a : Allocation} (ha : a ∈ s.pages) :
    Allocation.Apart ⟨mothermary s.mem mary i, 1⟩ a :=
  (h.attached.owned i hi hne).apart (h.heap.owned a (List.mem_cons_of_mem _ ha))
    fun heq => h.unshared i hi hne a ha heq.symm

/-- The bytes of a placed block lie in its page, after the table. -/
theorem block_covers {m : ByteMem} {b : Allocation} (h : Placed m mary b i k) {x : Nat}
    (hx : b.BlockCovers x) :
    mothermary m mary i + 128 ≤ x ∧ (⟨mothermary m mary i, 1⟩ : Allocation).Covers x := by
  have hptr := h.ptr
  have hbound := h.bound
  simp only [Allocation.BlockCovers, Allocation.Covers, pagesFor] at *
  omega

/-- A change inside the table of one attached page keeps both heaps, if every block of the new list
is placed after it. -/
theorem edit_table (h : TwoLevelInv P mary s) (hi : i < 124)
    (hne : mothermary s.mem mary i ≠ 0) {m' : ByteMem} {blocks : List Allocation}
    (hout : ∀ x, (x < mothermary s.mem mary i ∨ mothermary s.mem mary i + 124 ≤ x) →
      m' x = s.mem x)
    (hblocks : ∀ b ∈ blocks, (∃ k, Placed m' mary b i k) ∨ b ∈ s.blocks ∧
      ∀ k, ¬ Placed s.mem mary b i k)
    (hdistinct : blocks.Pairwise fun b b' => b.ptr ≠ b'.ptr) :
    TwoLevelInv P mary ⟨m', blocks, s.pages⟩ := by
  have hpage : ∀ x, ¬ (⟨mothermary s.mem mary i, 1⟩ : Allocation).Covers x → m' x = s.mem x := by
    intro x hx
    simp only [Allocation.Covers, pagesFor] at hx
    exact hout x (by omega)
  have htable : ∀ x, P.InTable x → m' x = s.mem x := fun x hx => hpage x fun hcov =>
    PageHeap.not_in_table_of_in_pages ((h.attached.owned i hi hne).in_pages hcov) hx
  have hslots : ∀ j, j < 124 → mothermary m' mary j = mothermary s.mem mary j :=
    fun j hj => h.attached.mothermary_of_page hi hne hpage hj
  -- the other attached pages are not touched at all
  have hother : ∀ j, j < 124 → j ≠ i → mothermary s.mem mary j ≠ 0 → ∀ x,
      (⟨mothermary s.mem mary j, 1⟩ : Allocation).Covers x → m' x = s.mem x :=
    fun j hj hji hnej x hx => hpage x fun hcov => h.attached.apart_slot hj hi hji hnej hne x hx hcov
  refine ⟨h.heap.congr htable, ?_, ?_, fun b hb => ?_, hdistinct⟩
  · refine h.attached.congr (h.attached.array.congr htable)
      (fun j hj hnej => (h.attached.owned j hj hnej).congr htable) hslots
      fun j hj hnej x hl hh => ?_
    by_cases hji : j = i
    · subst hji
      exact hout _ (by omega)
    · exact hother j hj hji hnej _ (by simp only [Allocation.Covers, pagesFor]; omega)
  · intro j hj hnej a ha
    rw [hslots j hj] at hnej ⊢
    exact h.unshared j hj hnej a ha
  · rcases hblocks b hb with ⟨k, hplaced⟩ | ⟨hold, hnot⟩
    · exact ⟨i, k, hplaced⟩
    · obtain ⟨j, k, hplaced⟩ := h.placed b hold
      have hji : j ≠ i := by
        rintro rfl
        exact hnot k hplaced
      have hbound := hplaced.bound
      refine ⟨j, k, hplaced.congr (hslots j hplaced.index) fun l hl => ?_⟩
      exact hother j hplaced.index hji hplaced.attached _
        (by simp only [Allocation.Covers, pagesFor]; omega)

/-- A change that keeps the kernel table's marks for the array and the attached pages, and the bytes
of their tables, keeps every placed block. -/
theorem transfer (h : TwoLevelInv P mary s) {m' : ByteMem} {pages : List Allocation}
    (hheap : HeapInv P ⟨m', ⟨mary, 1⟩ :: pages⟩)
    (howned : ∀ i, i < 124 → mothermary s.mem mary i ≠ 0 → P.Owns m' ⟨mothermary s.mem mary i, 1⟩)
    (harray : ∀ x, (⟨mary, 1⟩ : Allocation).Covers x → m' x = s.mem x)
    (htables : ∀ i, i < 124 → mothermary s.mem mary i ≠ 0 → ∀ j, j < 128 →
      m' (mothermary s.mem mary i + j) = s.mem (mothermary s.mem mary i + j))
    (hunshared : ∀ i, i < 124 → mothermary s.mem mary i ≠ 0 →
      ∀ a ∈ pages, a.ptr ≠ mothermary s.mem mary i) :
    TwoLevelInv P mary ⟨m', s.blocks, pages⟩ := by
  have hslots : ∀ j, j < 124 → mothermary m' mary j = mothermary s.mem mary j :=
    fun j hj => mothermary_congr hj harray
  refine ⟨hheap, h.attached.congr (hheap.owned _ (List.mem_cons_self ..)) howned hslots
    fun i hi hne j _ hj => htables i hi hne j hj, fun i hi hne a ha => ?_, fun b hb => ?_,
    h.distinct⟩
  · rw [hslots i hi] at hne ⊢
    exact hunshared i hi hne a ha
  · obtain ⟨i, k, hplaced⟩ := h.placed b hb
    have hbound := hplaced.bound
    exact ⟨i, k, hplaced.congr (hslots i hplaced.index) fun j hj =>
      htables i hplaced.index hplaced.attached _ (by omega)⟩

/-! ## Steps -/

/-- A client's store inside its own block or page keeps the invariant. -/
theorem write (h : TwoLevelInv P mary s) {addr : Nat} {value : UInt8}
    (hop : (CreamOp.write addr value).Admissible s) :
    TwoLevelInv P mary ⟨Function.update s.mem addr value, s.blocks, s.pages⟩ := by
  -- the address lies in a page of the heap, but neither in the array nor in a table
  have haddr : P.InPages addr ∧ ¬ (⟨mary, 1⟩ : Allocation).Covers addr ∧
      ∀ i, i < 124 → mothermary s.mem mary i ≠ 0 → ∀ j, j < 128 →
        mothermary s.mem mary i + j ≠ addr := by
    rcases hop with ⟨b, hb, hcov⟩ | ⟨a, ha, hcov⟩
    · obtain ⟨i, k, hplaced⟩ := h.placed b hb
      obtain ⟨habove, hin⟩ := block_covers hplaced hcov
      refine ⟨(h.attached.owned i hplaced.index hplaced.attached).in_pages hin,
        h.attached.apart_array hplaced.index hplaced.attached addr hin,
        fun j hj hnej l hl heq => ?_⟩
      by_cases hji : j = i
      · subst hji
        omega
      · refine h.attached.apart_slot hj hplaced.index hji hnej hplaced.attached addr ?_ hin
        simp only [Allocation.Covers, pagesFor]
        omega
    · have howned := h.heap.owned a (List.mem_cons_of_mem _ ha)
      refine ⟨howned.in_pages hcov, fun hmary => ?_, fun j hj hnej l hl heq => ?_⟩
      · have hne : a.ptr ≠ mary := fun heq =>
          (List.pairwise_cons.mp h.heap.distinct).1 a ha heq.symm
        exact howned.apart h.attached.array hne addr hcov hmary
      · refine h.apart_page hj hnej ha addr ?_ hcov
        simp only [Allocation.Covers, pagesFor]
        omega
  obtain ⟨hpages, hmary, htables⟩ := haddr
  have hsame : ∀ x, x ≠ addr → Function.update s.mem addr value x = s.mem x :=
    fun x hx => Function.update_of_ne hx ..
  have htable : ∀ x, P.InTable x → Function.update s.mem addr value x = s.mem x :=
    fun x hx => hsame x fun heq => PageHeap.not_in_table_of_in_pages hpages (heq ▸ hx)
  exact h.transfer (h.heap.congr htable)
    (fun i hi hne => (h.attached.owned i hi hne).congr htable)
    (fun x hx => hsame x fun heq => hmary (heq ▸ hx))
    (fun i hi hne j hj => hsame _ (htables i hi hne j hj)) h.unshared

/-- A call on the kernel heap keeps the invariant. -/
theorem page (h : TwoLevelInv P mary s) {op : HeapOp} (hop : (CreamOp.page op).Admissible s) :
    TwoLevelInv P mary ((CreamOp.page op).next P.toHeap mary s) := by
  have halloc : ∀ size, op.size? = some size → op.Admissible P.toHeap →
      (∀ r, op.track s.pages r = if r = 0 then s.pages else ⟨r, size⟩ :: s.pages) →
      TwoLevelInv P mary ((CreamOp.page op).next P.toHeap mary s) := by
    intro size hsize hadm htrack
    rcases h.heap.alloc hsize hadm with heq | ⟨k, m', heq, hpos, _, hinv, hkeep, hframe⟩
    · rw [CreamOp.next, HeapOp.next, heq, htrack, if_pos rfl]
      exact ⟨h.heap, h.attached, h.unshared, h.placed, h.distinct⟩
    · rw [CreamOp.next, HeapOp.next, heq, htrack, if_neg (Nat.ne_of_gt (PageHeap.page_pos k))]
      have hsame : ∀ a, P.Owns s.mem a → ∀ x, a.Covers x → m' x = s.mem x := fun a ha x hx =>
        hframe x (fun hin => PageHeap.not_in_table_of_in_pages (ha.in_pages hx) hin)
          ((hkeep a ha).2 x hx)
      refine h.transfer (hinv.perm (List.Perm.swap ..))
        (fun i hi hne => (hkeep _ (h.attached.owned i hi hne)).1) (hsame _ h.attached.array)
        (fun i hi hne j hj => hsame _ (h.attached.owned i hi hne) _ ?_) fun i hi hne a ha => ?_
      · simp only [Allocation.Covers, pagesFor]
        omega
      · rcases List.mem_cons.mp ha with rfl | ha
        · intro heq
          have hapart := (hkeep _ (h.attached.owned i hi hne)).2 (mothermary s.mem mary i)
          simp only [Allocation.Covers, pagesFor] at hapart hpos heq
          omega
        · exact h.unshared i hi hne a ha
  cases op with
  | malloc size => exact halloc size rfl hop fun _ => rfl
  | zalloc size => exact halloc size rfl hop fun _ => rfl
  | free addr =>
      obtain ⟨a, ha, rfl⟩ := hop
      have hlive := h.heap.owned a (List.mem_cons_of_mem _ ha)
      have hin : P.InPages a.ptr := by
        obtain ⟨k, hptr, hblock, hbound⟩ := hlive
        have hend := P.endEq
        have hpos := hblock.pos
        simp only [PageHeap.InPages, hptr, PageHeap.page]
        omega
      -- every other owned page starts elsewhere, so the free keeps it
      have haligned : ∀ c, P.Owns s.mem c → c.ptr ≠ a.ptr →
          ¬ (c.ptr ≤ a.ptr ∧ a.ptr < c.ptr + 4096) := by
        rintro c ⟨k, hptr, _⟩ hne
        obtain ⟨k', hptr', _⟩ := hlive
        simp only [hptr, hptr', PageHeap.page] at hne ⊢
        omega
      obtain ⟨hinv, hkeep, hframe⟩ := h.heap.free hin
      have hmary : mary ≠ a.ptr := (List.pairwise_cons.mp h.heap.distinct).1 a ha
      have hfilter : (HeapOp.free a.ptr).track (⟨mary, 1⟩ :: s.pages) 0 =
          ⟨mary, 1⟩ :: (HeapOp.free a.ptr).track s.pages 0 := by
        rw [HeapOp.track, HeapOp.track, List.filter_cons_of_pos]
        exact decide_eq_true (haligned _ h.attached.array hmary)
      rw [hfilter] at hinv
      have hsame : ∀ c, P.Owns s.mem c → ∀ x, c.Covers x →
          heapFree P.toHeap s.mem a.ptr x = s.mem x := fun c hc x hx =>
        hframe x fun hin => PageHeap.not_in_table_of_in_pages (hc.in_pages hx) hin
      refine h.transfer hinv (fun i hi hne => hkeep _ (h.attached.owned i hi hne)
          (haligned _ (h.attached.owned i hi hne) (h.unshared i hi hne a ha).symm))
        (hsame _ h.attached.array)
        (fun i hi hne j hj => hsame _ (h.attached.owned i hi hne) _ ?_)
        fun i hi hne c hc => h.unshared i hi hne c (List.mem_filter.mp hc).1
      simp only [Allocation.Covers, pagesFor]
      omega

/-- A block address determines its slot and its entry. -/
theorem placed_unique (h : TwoLevelInv P mary s) {b : Allocation} {j l : Nat}
    (hplaced : Placed s.mem mary b j l) (hi : i < 124) (hne : mothermary s.mem mary i ≠ 0)
    (hk : k < 124) (hptr : b.ptr = mothermary s.mem mary i + (128 + k * 32)) : j = i ∧ l = k := by
  have hji : j = i := by
    by_contra hji
    have hpos := hplaced.block.pos
    have hbound := hplaced.bound
    have hptr' := hplaced.ptr
    refine h.attached.apart_slot hplaced.index hi hji hplaced.attached hne b.ptr ?_ ?_
    · simp only [Allocation.Covers, pagesFor]
      omega
    · simp only [Allocation.Covers, pagesFor]
      omega
  subst hji
  have hptr' := hplaced.ptr
  exact ⟨rfl, by omega⟩

/-- Marking a free run in the table of an attached page adds a block. -/
theorem place (h : TwoLevelInv P mary s) (hi : i < 124) (hne : mothermary s.mem mary i ≠ 0)
    {size : Nat} (hpos : 0 < blocksFor size)
    (hrun : blockMarks.FreeRun (s.mem.view (mothermary s.mem mary i)) 124 k (blocksFor size)) :
    TwoLevelInv P mary
      ⟨blockMarks.put s.mem (mothermary s.mem mary i + k) (blocksFor size),
        ⟨mothermary s.mem mary i + (128 + k * 32), size⟩ :: s.blocks, s.pages⟩ := by
  have hbound := hrun.bound
  have hout : ∀ x, (x < mothermary s.mem mary i ∨ mothermary s.mem mary i + 124 ≤ x) →
      blockMarks.put s.mem (mothermary s.mem mary i + k) (blocksFor size) x = s.mem x :=
    fun x hx => Marks.put_outside (by omega)
  have hslot : mothermary (blockMarks.put s.mem (mothermary s.mem mary i + k) (blocksFor size))
      mary i = mothermary s.mem mary i := by
    refine h.attached.mothermary_of_page hi hne (fun x hx => hout x ?_) hi
    simp only [Allocation.Covers, pagesFor] at hx
    omega
  have hview : ByteMem.view
      (blockMarks.put s.mem (mothermary s.mem mary i + k) (blocksFor size))
      (mothermary s.mem mary i) =
        blockMarks.put (s.mem.view (mothermary s.mem mary i)) k (blocksFor size) :=
    Marks.put_shift s.mem (mothermary s.mem mary i) k (blocksFor size)
  refine h.edit_table hi hne hout (fun b hb => ?_) (List.pairwise_cons.mpr ⟨?_, h.distinct⟩)
  · rcases List.mem_cons.mp hb with rfl | hb
    · refine Or.inl ⟨k, hi, by rw [hslot]; exact hne, by rw [hslot], ?_, hbound⟩
      rw [hslot, hview]
      exact Marks.put_block _ hpos
    · by_cases hin : ∃ l, Placed s.mem mary b i l
      · obtain ⟨l, hl⟩ := hin
        refine Or.inl ⟨l, hi, by rw [hslot]; exact hne, by rw [hslot]; exact hl.ptr, ?_, hl.bound⟩
        rw [hslot, hview]
        exact hl.block.put hrun hpos
      · push Not at hin
        exact Or.inr ⟨hb, hin⟩
  · -- an older block with this address would lie on entries that are free
    intro b hb heq
    obtain ⟨j, l, hplaced⟩ := h.placed b hb
    obtain ⟨rfl, rfl⟩ := h.placed_unique hplaced hi hne (by omega) heq.symm
    have hdisjoint := hplaced.block.disjoint_freeRun hrun hpos
    have := hplaced.block.pos
    omega

/-- Clearing a stretch of table entries removes at most the block that starts there. -/
theorem clear (h : TwoLevelInv P mary s) (hi : i < 124) (hne : mothermary s.mem mary i ≠ 0)
    {r : Nat} (hr : k + r ≤ 124)
    (hstretch : blockMarks.Stretch (s.mem.view (mothermary s.mem mary i)) k r)
    {blocks : List Allocation} (hblocks : ∀ b ∈ blocks, b ∈ s.blocks ∧
      b.ptr ≠ mothermary s.mem mary i + (128 + k * 32))
    (hdistinct : blocks.Pairwise fun b b' => b.ptr ≠ b'.ptr) :
    TwoLevelInv P mary
      ⟨blockMarks.erase s.mem (mothermary s.mem mary i + k) r, blocks, s.pages⟩ := by
  have hout : ∀ x, (x < mothermary s.mem mary i ∨ mothermary s.mem mary i + 124 ≤ x) →
      blockMarks.erase s.mem (mothermary s.mem mary i + k) r x = s.mem x :=
    fun x hx => Marks.erase_outside (by omega)
  have hslot : mothermary (blockMarks.erase s.mem (mothermary s.mem mary i + k) r) mary i =
      mothermary s.mem mary i :=
    h.attached.mothermary_of_page hi hne (fun x hx => erase_outside_page hr hx) hi
  have hview : ByteMem.view (blockMarks.erase s.mem (mothermary s.mem mary i + k) r)
      (mothermary s.mem mary i) =
        blockMarks.erase (s.mem.view (mothermary s.mem mary i)) k r :=
    Marks.erase_shift s.mem (mothermary s.mem mary i) k r
  refine h.edit_table hi hne hout (fun b hb => ?_) hdistinct
  obtain ⟨hold, hptr⟩ := hblocks b hb
  by_cases hin : ∃ l, Placed s.mem mary b i l
  · obtain ⟨l, hl⟩ := hin
    have hlk : l ≠ k := by
      rintro rfl
      exact hptr hl.ptr
    refine Or.inl ⟨l, hi, by rw [hslot]; exact hne, by rw [hslot]; exact hl.ptr, ?_, hl.bound⟩
    rw [hslot, hview]
    exact hl.block.erase_stretch hstretch hlk
  · push Not at hin
    exact Or.inr ⟨hold, hin⟩

/-- A change of one slot, to `0` or to a page that nobody else holds, keeps the invariant, if no
live block is placed in the page that the slot held. -/
theorem reslot (h : TwoLevelInv P mary s) {m' : ByteMem}
    (hheap : HeapInv P ⟨m', ⟨mary, 1⟩ :: s.pages⟩)
    (hother : ∀ j, j < 124 → j ≠ i → mothermary m' mary j = mothermary s.mem mary j)
    (hbytes : ∀ j, j < 124 → j ≠ i → mothermary s.mem mary j ≠ 0 → ∀ l, l < 128 →
      m' (mothermary s.mem mary j + l) = s.mem (mothermary s.mem mary j + l))
    (howned : ∀ j, j < 124 → j ≠ i → mothermary s.mem mary j ≠ 0 →
      P.Owns m' ⟨mothermary s.mem mary j, 1⟩)
    (hunplaced : ∀ b ∈ s.blocks, ∀ k, ¬ Placed s.mem mary b i k)
    (harray : mothermary m' mary i ≠ mary)
    (hnew : mothermary m' mary i ≠ 0 → P.Owns m' ⟨mothermary m' mary i, 1⟩ ∧
      (∀ l, 124 ≤ l → l < 128 → m' (mothermary m' mary i + l) = 0xab) ∧
      ∀ a, P.Owns s.mem a → a.ptr ≠ mothermary m' mary i) :
    TwoLevelInv P mary ⟨m', s.blocks, s.pages⟩ := by
  refine ⟨hheap, ⟨hheap.owned _ (List.mem_cons_self ..), fun j hj hne => ?_, fun j hj => ?_,
    fun j l hj hl hne heq => ?_, fun j hj hne l hl hh => ?_⟩, fun j hj hne a ha => ?_,
    fun b hb => ?_, h.distinct⟩
  · by_cases hji : j = i
    · subst hji
      exact (hnew hne).1
    · rw [hother j hj hji] at hne ⊢
      exact howned j hj hji hne
  · by_cases hji : j = i
    · subst hji
      exact harray
    · rw [hother j hj hji]
      exact h.attached.ne_array j hj
  · -- two slots hold the same page: the new page is nobody's, so both are old slots or one slot
    by_cases hji : j = i
    · by_cases hli : l = i
      · exact hji.trans hli.symm
      · subst hji
        have hnel : mothermary s.mem mary l ≠ 0 := by
          rw [← hother l hl hli, ← heq]
          exact hne
        rw [hother l hl hli] at heq
        exact absurd heq.symm ((hnew hne).2.2 _ (h.attached.owned l hl hnel))
    · by_cases hli : l = i
      · subst hli
        have hnej : mothermary s.mem mary j ≠ 0 := hother j hj hji ▸ hne
        have hdistinct := (hnew (heq ▸ hne)).2.2 _ (h.attached.owned j hj hnej)
        rw [← hother j hj hji] at hdistinct
        exact absurd heq hdistinct
      · rw [hother j hj hji] at hne heq
        rw [hother l hl hli] at heq
        exact h.attached.distinct j l hj hl hne heq
  · by_cases hji : j = i
    · subst hji
      exact (hnew hne).2.1 l hl hh
    · rw [hother j hj hji] at hne ⊢
      exact (hbytes j hj hji hne l hh).trans (h.attached.guard j hj hne l hl hh)
  · by_cases hji : j = i
    · subst hji
      exact (hnew hne).2.2 a (h.heap.owned a (List.mem_cons_of_mem _ ha))
    · rw [hother j hj hji] at hne ⊢
      exact h.unshared j hj hne a ha
  · -- a block lies in a page of another slot, whose table and array entry are kept
    obtain ⟨j, l, hplaced⟩ := h.placed b hb
    have hji : j ≠ i := by
      rintro rfl
      exact hunplaced b hb l hplaced
    have hbound := hplaced.bound
    exact ⟨j, l, hplaced.congr (hother j hplaced.index hji) fun n hn =>
      hbytes j hplaced.index hji hplaced.attached _ (by omega)⟩

/-- Attaching a free page sets its slot and no other. -/
theorem with_page_slots (h : TwoLevelInv P mary s)
    (hrun : blockMarks.FreeRun (P.tableOf s.mem) P.table.total k 1) {j : Nat} (hj : j < 124) :
    mothermary (withPage P s.mem mary i k) mary j =
      if i = j then P.page k else mothermary s.mem mary j := by
  have hrun' : blockMarks.FreeRun (P.tableOf s.mem) P.table.total k (pagesFor 1) := by
    rw [pages_for_one]
    exact hrun
  have hpage : P.page k < 4294967296 := by
    have := PageHeap.page_bound (P := P) hrun.bound
    have := P.endLt
    omega
  -- the page of the array is apart from the new page and from the kernel table
  have hout : ∀ x, (⟨mary, 1⟩ : Allocation).Covers x → x < P.page k ∨ P.page k + 4096 ≤ x := by
    intro x hx
    have hapart : (⟨mary, 1⟩ : Allocation).Apart ⟨P.page k, 1⟩ :=
      h.attached.array.apart_free hrun' (by rw [pages_for_one]; omega) rfl
    have hx' := hapart x hx
    simp only [Allocation.Covers, pages_for_one] at hx'
    omega
  have hput : ∀ x, (⟨mary, 1⟩ : Allocation).Covers x →
      blockMarks.put s.mem (P.table.entries + k) 1 x = s.mem x := by
    intro x hx
    have hbound := hrun.bound
    have htable := PageHeap.not_in_table_of_in_pages (h.attached.array.in_pages hx)
    simp only [PageHeap.InTable] at htable
    exact Marks.put_outside (by omega)
  have hguard : mothermary (withPage P s.mem mary i k) mary j = mothermary
      (setMothermary (ByteMem.fill (blockMarks.put s.mem (P.table.entries + k) 1) (P.page k) 1
        0x00) mary i (P.page k)) mary j := by
    refine mothermary_congr hj fun x hx => ?_
    have hx' := hout x hx
    rw [withPage, table_guard_set_eq, ByteMem.fill_outside (by omega)]
  rw [hguard]
  split_ifs with hij
  · subst hij
    exact mothermary_set_same _ hpage
  · rw [mothermary_set_other _ hij]
    refine mothermary_congr hj fun x hx => ?_
    have hx' := hout x hx
    rw [ByteMem.fill_outside (by omega), hput x hx]

/-- Attaching a free page in an empty slot keeps the invariant. -/
theorem attach (h : TwoLevelInv P mary s) (hi : i < 124) (hempty : mothermary s.mem mary i = 0)
    (hrun : blockMarks.FreeRun (P.tableOf s.mem) P.table.total k 1) :
    mothermary (withPage P s.mem mary i k) mary i = P.page k ∧
      TwoLevelInv P mary ⟨withPage P s.mem mary i k, s.blocks, s.pages⟩ := by
  have hrun' : blockMarks.FreeRun (P.tableOf s.mem) P.table.total k (pagesFor 1) := by
    rw [pages_for_one]
    exact hrun
  have hnew : P.Owns (blockMarks.put s.mem (P.table.entries + k) 1) ⟨P.page k, 1⟩ := by
    have := PageHeap.owns_marked (a := ⟨P.page k, 1⟩) hrun' (by rw [pages_for_one]; omega) rfl
    rwa [pages_for_one] at this
  have hapart : ∀ a, P.Owns s.mem a → a.Apart ⟨P.page k, 1⟩ :=
    fun a ha => ha.apart_free hrun' (by rw [pages_for_one]; omega) rfl
  have hstart : ∀ a, P.Owns s.mem a → a.ptr ≠ P.page k :=
    fun a ha => ha.ptr_ne_free hrun (by omega)
  -- what the four stores leave alone
  have hframe : ∀ x, ¬ (⟨P.page k, 1⟩ : Allocation).Covers x →
      ¬ (⟨mary, 1⟩ : Allocation).Covers x →
      withPage P s.mem mary i k x = blockMarks.put s.mem (P.table.entries + k) 1 x := by
    intro x hx hmary
    simp only [Allocation.Covers, pages_for_one] at hx
    rw [withPage, table_guard_set_eq, ByteMem.fill_outside (by omega),
      set_mothermary_outside hi hmary, ByteMem.fill_outside (by omega)]
  have htable : ∀ x, P.InTable x →
      withPage P s.mem mary i k x = blockMarks.put s.mem (P.table.entries + k) 1 x := fun x hx =>
    hframe x (fun hcov => PageHeap.not_in_table_of_in_pages (hnew.in_pages hcov) hx)
      fun hcov => PageHeap.not_in_table_of_in_pages (h.attached.array.in_pages hcov) hx
  have hput : ∀ x, ¬ P.InTable x →
      blockMarks.put s.mem (P.table.entries + k) 1 x = s.mem x := by
    intro x hx
    have hbound := hrun.bound
    simp only [PageHeap.InTable] at hx
    exact Marks.put_outside (by omega)
  have hset : ∀ j, j < 124 → mothermary (withPage P s.mem mary i k) mary j =
      if i = j then P.page k else mothermary s.mem mary j := fun j hj => h.with_page_slots hrun hj
  have hslot : mothermary (withPage P s.mem mary i k) mary i = P.page k := by
    rw [hset i hi, if_pos rfl]
  have hheap : HeapInv P ⟨withPage P s.mem mary i k, ⟨mary, 1⟩ :: s.pages⟩ := by
    refine HeapInv.congr (m := blockMarks.put s.mem (P.table.entries + k) 1) ⟨?_, ?_, ?_⟩ htable
    · rw [PageHeap.table_of_put]
      exact h.heap.covered.put hrun (by omega)
    · exact fun a ha => (h.heap.owned a ha).mark hrun (by omega)
    · exact h.heap.distinct
  refine ⟨hslot, h.reslot (i := i) hheap (fun j hj hji => by rw [hset j hj, if_neg hji.symm])
    (fun j hj _ hne l hl => ?_)
    (fun j hj _ hne => ((h.attached.owned j hj hne).mark hrun (by omega)).congr htable)
    (fun b _ l hplaced => hplaced.attached hempty) ?_ fun _ => ⟨?_, fun l hl hh => ?_, ?_⟩⟩
  · have howned := h.attached.owned j hj hne
    have hcov : (⟨mothermary s.mem mary j, 1⟩ : Allocation).Covers (mothermary s.mem mary j + l) :=
      by simp only [Allocation.Covers, pages_for_one]; omega
    rw [hframe _ (hapart _ howned _ hcov) (h.attached.apart_array hj hne _ hcov)]
    exact hput _ (PageHeap.not_in_table_of_in_pages (howned.in_pages hcov))
  · rw [hslot]
    exact (hstart _ h.attached.array).symm
  · rw [hslot]
    exact hnew.congr htable
  · rw [hslot, withPage, table_guard_set_eq]
    exact ByteMem.fill_inside (by omega) (by omega)
  · rw [hslot]
    exact hstart

/-- Giving back a page whose table is free keeps the invariant. -/
theorem kill (h : TwoLevelInv P mary s) (hi : i < 124) (hne : mothermary s.mem mary i ≠ 0)
    (hfree : ∀ j, j < 124 → s.mem (mothermary s.mem mary i + j) = 0x00) :
    TwoLevelInv P mary ⟨heapCreamKill P.toHeap s.mem mary i, s.blocks, s.pages⟩ := by
  obtain ⟨k, hpage, hblock, hbound, heq⟩ := heap_cream_kill_eq (h.attached.owned i hi hne)
  rw [heq]
  -- the page is cleared in the kernel table, and only its slot is written besides
  have hframe : ∀ x, ¬ (⟨mary, 1⟩ : Allocation).Covers x →
      setMothermary (blockMarks.erase s.mem (P.table.entries + k) 1) mary i 0 x =
        blockMarks.erase s.mem (P.table.entries + k) 1 x :=
    fun x hx => set_mothermary_outside hi hx
  have htable : ∀ x, P.InTable x →
      setMothermary (blockMarks.erase s.mem (P.table.entries + k) 1) mary i 0 x =
        blockMarks.erase s.mem (P.table.entries + k) 1 x := fun x hx =>
    hframe x fun hcov => PageHeap.not_in_table_of_in_pages (h.attached.array.in_pages hcov) hx
  have herase : ∀ x, ¬ P.InTable x →
      blockMarks.erase s.mem (P.table.entries + k) 1 x = s.mem x := by
    intro x hx
    simp only [PageHeap.InTable] at hx
    exact Marks.erase_outside (by omega)
  have hslot : mothermary (setMothermary (blockMarks.erase s.mem (P.table.entries + k) 1) mary i 0)
      mary i = 0 := mothermary_set_same _ (by omega)
  have hheap : HeapInv P
      ⟨setMothermary (blockMarks.erase s.mem (P.table.entries + k) 1) mary i 0,
        ⟨mary, 1⟩ :: s.pages⟩ := by
    refine HeapInv.congr (m := blockMarks.erase s.mem (P.table.entries + k) 1) ⟨?_, ?_, ?_⟩ htable
    · rw [PageHeap.table_of_erase]
      exact h.heap.covered.erase hblock
    · intro a ha
      refine (h.heap.owned a ha).clear hblock ?_
      rw [← hpage]
      rcases List.mem_cons.mp ha with rfl | ha
      · exact (h.attached.ne_array i hi).symm
      · exact h.unshared i hi hne a ha
    · exact h.heap.distinct
  refine h.reslot (i := i) hheap (fun j hj hji => ?_) (fun j hj _ hnej l hl => ?_)
    (fun j hj hji hnej => ?_) (fun b _ l hplaced => ?_) ?_ fun hnew => absurd hslot hnew
  · rw [mothermary_set_other _ hji.symm]
    exact mothermary_congr hj fun x hx =>
      herase x (PageHeap.not_in_table_of_in_pages (h.attached.array.in_pages hx))
  · have hcov : (⟨mothermary s.mem mary j, 1⟩ : Allocation).Covers (mothermary s.mem mary j + l) :=
      by simp only [Allocation.Covers, pagesFor]; omega
    rw [hframe _ (h.attached.apart_array hj hnej _ hcov), herase _
      (PageHeap.not_in_table_of_in_pages ((h.attached.owned j hj hnej).in_pages hcov))]
  · refine ((h.attached.owned j hj hnej).clear hblock fun heq => ?_).congr htable
    exact hji (h.attached.distinct j i hj hi hnej (heq.trans hpage.symm))
  · have hpos := hplaced.block.pos
    have hlast := hplaced.bound
    exact hplaced.block.ne_free (Nat.le_refl l) (by omega) (hfree l (by omega))
  · obtain ⟨l, hptr, _⟩ := h.attached.array
    have hpos := PageHeap.page_pos (P := P) l
    simp only at hptr
    omega

/-- `heap_cream_malloc` keeps the invariant. -/
theorem malloc (h : TwoLevelInv P mary s) (size : Nat) :
    TwoLevelInv P mary ((CreamOp.malloc size).next P.toHeap mary s) := by
  rcases heap_cream_malloc_cases s.mem size h.attached.array with
    ⟨heq, _⟩ | ⟨_, i, k, hplace, hpos, heq⟩ | ⟨i, k, hattach, hfit, _, heq⟩
  · rw [CreamOp.next, heq]
    exact h
  · have hne : mothermary s.mem mary i + (128 + k * 32) ≠ 0 := by omega
    rw [CreamOp.next, heq]
    simp only [hne, if_false]
    exact h.place hplace.index (hplace.attached i (by omega)) hpos hplace.fit.run
  · have hi := hattach.index
    have hsize := hattach.limit
    obtain ⟨hslot, hinv⟩ := h.attach hi hattach.empty hfit.run
    rw [CreamOp.next, heq]
    rcases malloc32_cases (withPage P s.mem mary i k) (P.page k) size with
      ⟨l, hpos, hfit', hnew⟩ | ⟨hnull, _⟩
    · have hne : P.page k + (128 + l * 32) ≠ 0 := by omega
      have hblocks : Word.add32 size 31 / 32 = blocksFor size := by
        rw [Word.add32_of_lt (by omega), blocksFor]
      rw [hblocks] at hpos hfit' hnew
      rw [← hslot] at hfit' hnew hne
      rw [← hslot, hnew]
      simp only [hne, if_false]
      refine hinv.place hi ?_ hpos hfit'.run
      rw [hslot]
      exact Nat.ne_of_gt (PageHeap.page_pos k)
    · rw [hnull]
      exact hinv

/-- `heap_cream_free` keeps the invariant. -/
theorem free (h : TwoLevelInv P mary s) (ptr : Nat) :
    TwoLevelInv P mary ((CreamOp.free ptr).next P.toHeap mary s) := by
  rcases heap_cream_free_cases h.attached ptr with
    ⟨heq, _⟩ | ⟨i, k, r, hi, hno, hr, hptr, hstretch, ⟨heq, hnone⟩ | ⟨heq, _⟩⟩
  · rw [CreamOp.next, heq]
    exact h
  · have hne := hno i (by omega)
    have hpos := hstretch.pos
    rw [CreamOp.next, heq]
    refine h.clear hi hne hr hstretch (fun b hb => ⟨hb, fun hptr' => ?_⟩) h.distinct
    obtain ⟨j, l, hplaced⟩ := h.placed b hb
    obtain ⟨rfl, rfl⟩ := h.placed_unique hplaced hi hne (by omega) hptr'
    exact hnone _ hplaced.bound hplaced.block
  · have hne := hno i (by omega)
    have hclear : TwoLevelInv P mary
        ⟨blockMarks.erase s.mem (mothermary s.mem mary i + k) r, s.blocks.filter (·.ptr ≠ ptr),
          s.pages⟩ := h.clear hi hne hr hstretch
      (fun b hb => ⟨(List.mem_filter.mp hb).1, hptr ▸ of_decide_eq_true (List.mem_filter.mp hb).2⟩)
      (h.distinct.filter _)
    have hslot := h.attached.mothermary_of_page hi hne (fun x hx => erase_outside_page hr hx) hi
    rw [CreamOp.next, heq]
    simp only [if_true]
    rcases single_chk_kill_cases P.toHeap
      (blockMarks.erase s.mem (mothermary s.mem mary i + k) r) mary i with
      ⟨hfree, hkill⟩ | ⟨_, hkeep⟩
    · rw [hkill]
      exact hclear.kill hi (by rw [hslot]; exact hne) hfree
    · rw [hkeep]
      exact hclear

/-- Every step keeps the invariant. -/
theorem step (h : TwoLevelInv P mary s) {op : CreamOp} {s' : CreamState}
    (hstep : CreamStep P.toHeap mary s op s') : TwoLevelInv P mary s' := by
  obtain ⟨hop, rfl⟩ := hstep
  cases op with
  | malloc size => exact h.malloc size
  | free ptr => exact h.free ptr
  | page op => exact h.page hop
  | write addr value => exact h.write hop

end TwoLevelInv

/-- What every state of a run of the two-level heap guarantees. -/
structure SafeCreamHeap (mary : Nat) (s : CreamState) : Prop where
  /-- Live blocks are 32-byte aligned. -/
  aligned : ∀ b ∈ s.blocks, b.ptr % 32 = 0
  /-- A live block is at least as long as requested, and it lies in one attached page. -/
  long : ∀ b ∈ s.blocks, b.size ≤ 32 * blocksFor b.size ∧ ∃ i, i < 124 ∧
    mothermary s.mem mary i ≠ 0 ∧ mothermary s.mem mary i + 128 ≤ b.ptr ∧
    b.ptr + 32 * blocksFor b.size ≤ mothermary s.mem mary i + 4096
  /-- Live blocks share no byte with each other. -/
  apart : s.blocks.Pairwise fun b b' => ∀ x, b.BlockCovers x → ¬ b'.BlockCovers x
  /-- Live blocks share no byte with a page that a client holds. -/
  pages : ∀ b ∈ s.blocks, ∀ a ∈ s.pages, ∀ x, b.BlockCovers x → ¬ a.Covers x
  /-- Live blocks share no byte with the page of the array. -/
  array : ∀ b ∈ s.blocks, ∀ x, b.BlockCovers x → ¬ (mary ≤ x ∧ x < mary + 4096)
  /-- Live blocks share no byte with the table of an attached page. -/
  tables : ∀ b ∈ s.blocks, ∀ i, i < 124 → mothermary s.mem mary i ≠ 0 → ∀ x, b.BlockCovers x →
    ¬ (mothermary s.mem mary i ≤ x ∧ x < mothermary s.mem mary i + 128)

/-- The invariant implies safety. -/
theorem TwoLevelInv.safe {s : CreamState} (h : TwoLevelInv P mary s) : SafeCreamHeap mary s := by
  refine ⟨fun b hb => ?_, fun b hb => ⟨by simp only [blocksFor]; omega, ?_⟩, ?_,
    fun b hb a ha x hx => ?_, fun b hb x hx hmary => ?_, fun b hb i hi hne x hx htable => ?_⟩
  · obtain ⟨i, k, hplaced⟩ := h.placed b hb
    have haligned := h.attached.aligned hplaced.index
    have hptr := hplaced.ptr
    omega
  · obtain ⟨i, k, hplaced⟩ := h.placed b hb
    have hptr := hplaced.ptr
    have hbound := hplaced.bound
    exact ⟨i, hplaced.index, hplaced.attached, by omega, by omega⟩
  · refine h.distinct.imp_of_mem fun {b b'} hb hb' hne x hx hx' => ?_
    obtain ⟨i, k, hplaced⟩ := h.placed b hb
    obtain ⟨i', k', hplaced'⟩ := h.placed b' hb'
    -- two blocks in one page are apart in its table, and two pages are apart
    by_cases hii : i = i'
    · subst hii
      have hptr := hplaced.ptr
      have hptr' := hplaced'.ptr
      have hdisjoint := hplaced.block.disjoint hplaced'.block (by omega)
      simp only [Allocation.BlockCovers] at hx hx'
      omega
    · exact h.attached.apart_slot hplaced.index hplaced'.index hii hplaced.attached
        hplaced'.attached x (block_covers hplaced hx).2 (block_covers hplaced' hx').2
  · obtain ⟨i, k, hplaced⟩ := h.placed b hb
    exact h.apart_page hplaced.index hplaced.attached ha x (block_covers hplaced hx).2
  · obtain ⟨i, k, hplaced⟩ := h.placed b hb
    refine h.attached.apart_array hplaced.index hplaced.attached x (block_covers hplaced hx).2 ?_
    simp only [Allocation.Covers, pagesFor]
    omega
  · obtain ⟨j, k, hplaced⟩ := h.placed b hb
    obtain ⟨habove, hin⟩ := block_covers hplaced hx
    by_cases hji : j = i
    · subst hji
      omega
    · refine h.attached.apart_slot hplaced.index hi hji hplaced.attached hne x hin ?_
      simp only [Allocation.Covers, pagesFor]
      omega

/-- The page that `help_me_mary_mother_of_god` takes starts a run of the two-level heap, if all
slots of the array are empty. -/
theorem two_level_init {s : HeapState} (h : HeapInv P s) {m : ByteMem}
    (hmary : helpMeMaryMotherOfGod P.toHeap s.mem = (mary, m)) (hnull : mary ≠ 0)
    (hempty : ∀ i, i < 124 → mothermary m mary i = 0) : TwoLevelInv P mary ⟨m, [], s.live⟩ := by
  rcases h.alloc (show (HeapOp.zalloc 1).size? = some 1 from rfl)
    (show 1 < 4294967296 by omega) with
    heq | ⟨k, m', heq, _, _, hinv, _⟩
  · rw [HeapOp.call, ← helpMeMaryMotherOfGod, hmary] at heq
    exact absurd (congrArg Prod.fst heq) hnull
  · rw [HeapOp.call, ← helpMeMaryMotherOfGod, hmary] at heq
    obtain ⟨rfl, rfl⟩ := Prod.mk.inj heq
    refine ⟨hinv, ⟨hinv.owned _ (List.mem_cons_self ..), fun i hi hne => ?_, fun i hi => ?_,
      fun i j hi _ hne => ?_, fun i hi hne => ?_⟩, fun i hi hne => ?_, by simp, by simp⟩
    · exact absurd (hempty i hi) hne
    · rw [hempty i hi]
      exact hnull.symm
    · exact absurd (hempty i hi) hne
    · exact absurd (hempty i hi) hne
    · exact absurd (hempty i hi) hne

/-- Once the array has been allocated on a heap in use and its slots are empty, the two-level heap
has its invariant. -/
theorem two_level_start {m₀ m m₁ : ByteMem} {ptr endPtr : Nat} {heapT : HeapTable} {H : Heap}
    (hcreate : heapCreate m₀ ptr endPtr heapT = .ok (H, m))
    (hstart : 0 < ptr) (hlt : ptr < endPtr) (hend : endPtr < 4294967296)
    (hsigned : endPtr - ptr < 2147483648)
    (htable : heapT.entries + heapT.total ≤ 4294967296)
    (houtside : heapT.entries + heapT.total ≤ ptr ∨ endPtr ≤ heapT.entries)
    {before : List (Transition HeapState HeapOp)} {s₀ : HeapState}
    (hbefore : Run (HeapStep H) ⟨m, []⟩ before s₀)
    (hmary : helpMeMaryMotherOfGod H s₀.mem = (mary, m₁)) (hnull : mary ≠ 0)
    (hempty : ∀ i, i < 124 → mothermary m₁ mary i = 0) :
    ∃ P : PageHeap, P.toHeap = H ∧ H.table = heapT ∧ TwoLevelInv P mary ⟨m₁, [], s₀.live⟩ := by
  obtain ⟨P, rfl, hH, rfl⟩ :=
    PageHeap.of_heap_create hcreate hstart hlt hend hsigned htable houtside
  have hcleared : HeapInv P ⟨m₀.fill heapT.entries heapT.total 0x00, []⟩ := by
    have := HeapInv.cleared P m₀
    rwa [show P.table = heapT from congrArg Heap.table hH] at this
  exact ⟨P, rfl, congrArg Heap.table hH,
    two_level_init (hbefore.invariant (fun _ _ _ h hstep => h.step hstep) hcleared) hmary hnull
      hempty⟩

/-- Every run of the two-level heap, from any state of the kernel heap in which the array is
allocated and all its slots are empty, is safe. -/
theorem two_level_heap_safety {m₀ m m₁ : ByteMem} {ptr endPtr : Nat} {heapT : HeapTable} {H : Heap}
    (hcreate : heapCreate m₀ ptr endPtr heapT = .ok (H, m))
    (hstart : 0 < ptr) (hlt : ptr < endPtr) (hend : endPtr < 4294967296)
    (hsigned : endPtr - ptr < 2147483648)
    (htable : heapT.entries + heapT.total ≤ 4294967296)
    (houtside : heapT.entries + heapT.total ≤ ptr ∨ endPtr ≤ heapT.entries)
    {before : List (Transition HeapState HeapOp)} {s₀ : HeapState}
    (hbefore : Run (HeapStep H) ⟨m, []⟩ before s₀)
    (hmary : helpMeMaryMotherOfGod H s₀.mem = (mary, m₁)) (hnull : mary ≠ 0)
    (hempty : ∀ i, i < 124 → mothermary m₁ mary i = 0)
    {trace : List (Transition CreamState CreamOp)} {s : CreamState}
    (hrun : Run (CreamStep H mary) ⟨m₁, [], s₀.live⟩ trace s) : SafeCreamHeap mary s := by
  obtain ⟨P, rfl, _, hinit⟩ := two_level_start hcreate hstart hlt hend hsigned htable houtside
    hbefore hmary hnull hempty
  exact (hrun.invariant (fun _ _ _ h hstep => h.step hstep) hinit).safe

/-- The array and the memory after `help_me_mary_mother_of_god` on the small heap. -/
def smallMary : Nat × ByteMem :=
  helpMeMaryMotherOfGod smallHeap (memset (fun _ => 0) 0x7e00 0x00 8)

theorem small_mary_eq (m : ByteMem) (h : m = memset (fun _ => 0) 0x7e00 0x00 8) :
    helpMeMaryMotherOfGod smallHeap m = (smallMary.1, smallMary.2) := by
  rw [h, smallMary]

/-- The small heap after a first block of 100 bytes. -/
theorem two_level_heap_safety_small_heap :
    SafeCreamHeap smallMary.1
      ((CreamOp.malloc 100).next smallHeap smallMary.1 ⟨smallMary.2, [], []⟩) := by
  have hrun : Run (CreamStep smallHeap smallMary.1) ⟨smallMary.2, [], []⟩
      [⟨⟨smallMary.2, [], []⟩, .malloc 100,
        (CreamOp.malloc 100).next smallHeap smallMary.1 ⟨smallMary.2, [], []⟩⟩]
      ((CreamOp.malloc 100).next smallHeap smallMary.1 ⟨smallMary.2, [], []⟩) :=
    .snoc .nil ⟨show 100 < 4294967296 by decide, rfl⟩
  exact two_level_heap_safety (small_heap_create fun _ => 0) (by decide) (by decide) (by decide)
    (by decide) (by decide) (by decide) .nil (small_mary_eq _ rfl) (by decide +kernel)
    (by decide +kernel) hrun

end Genesis32
