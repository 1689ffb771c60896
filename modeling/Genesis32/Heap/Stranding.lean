import Genesis32.Heap.FreshPages

/-!
# Stranded blocks

`heap_cream_kill` empties the slot of a page that holds no block any more, wherever the slot lies in
the array, and `heap_cream_malloc` and `heap_cream_free` stop at the first empty slot. A page behind
such a slot is out of their reach until a new page fills the slot. `never_stranded_iff` says that
the frees of a run succeed, and that the kernel table then returns to what it was, exactly when no
block is freed while its page is out of reach.
-/

namespace Genesis32

/-- A call on the two-level heap, or a change of the memory between two calls. -/
inductive BlockCall where
  | malloc (size : Nat)
  | free (ptr : Nat)
  | others (mem : ByteMem)

/-- A page that `kzalloc` hands out reads as zero. -/
def PageReadsZero (H : Heap) (m : ByteMem) : Prop :=
  (kzalloc H m 1).1 ≠ 0 → ∀ j < 4096, (kzalloc H m 1).2 ((kzalloc H m 1).1 + j) = 0x00

/-- The kernel table, the array and the tables and guards of the attached pages stay as they are.
The blocks, the pages that clients hold and the free pages may change. -/
structure KeepsTables (H : Heap) (mary : Nat) (m m' : ByteMem) : Prop where
  kernel : ∀ x, H.table.entries ≤ x → x < H.table.entries + H.table.total → m' x = m x
  array : ∀ x, mary ≤ x → x < mary + 4096 → m' x = m x
  pages : ∀ i < 124, mothermary m mary i ≠ 0 → ∀ j < 128,
    m' (mothermary m mary i + j) = m (mothermary m mary i + j)

namespace BlockCall

/-- Sizes are those that `heap_cream_malloc` serves, and a client frees a pointer that it got and
has not freed yet. -/
def Admissible (H : Heap) (mary : Nat) (s : CreamState) : BlockCall → Prop
  | .malloc size => 1 ≤ size ∧ size ≤ 3968 ∧ PageReadsZero H s.mem
  | .free ptr => ∃ b ∈ s.blocks, b.ptr = ptr
  | .others mem => KeepsTables H mary s.mem mem

/-- The state after a call. A pointer counts as freed whatever `heap_cream_free` returned. -/
def next (H : Heap) (mary : Nat) (s : CreamState) : BlockCall → CreamState
  | .malloc size =>
      match heapCreamMalloc H s.mem mary size with
      | (ptr, m) => ⟨m, if ptr = 0 then s.blocks else ⟨ptr, size⟩ :: s.blocks, s.pages⟩
  | .free ptr =>
      ⟨(heapCreamFree H s.mem mary ptr).2, s.blocks.filter (·.ptr ≠ ptr), s.pages⟩
  | .others mem => ⟨mem, s.blocks, s.pages⟩

end BlockCall

/-- One step of a run. -/
def BlockStep (H : Heap) (mary : Nat) (s : CreamState) (call : BlockCall) (s' : CreamState) :
    Prop :=
  call.Admissible H mary s ∧ s' = call.next H mary s

/-- If the call is a free, `heap_cream_free` returns true. -/
def FreeReturnsTrue (H : Heap) (mary : Nat) (s : CreamState) (call : BlockCall) : Prop :=
  ∀ ptr, call = .free ptr → (heapCreamFree H s.mem mary ptr).1 = true

/-- If the call is a free, no slot below that of the page of the pointer is empty. -/
def InReach (mary : Nat) (s : CreamState) (call : BlockCall) : Prop :=
  ∀ ptr, call = .free ptr → ∀ i < 124, mothermary s.mem mary i ≠ 0 →
    inPage (mothermary s.mem mary i) ptr = true → NoEmptySlotBelow s.mem mary i

variable {P : PageHeap} {mary : Nat} {s s' : CreamState} {start : ByteMem} {i k : Nat}

/-! ## The invariant -/

/-- A live block lies in the page in slot `i`. -/
def Filled (mary : Nat) (s : CreamState) (i : Nat) : Prop :=
  ∃ b ∈ s.blocks, ∃ k, Placed s.mem mary b i k

/-- Every taken entry of an attached page belongs to a live block, and the kernel table is the one
of `start` apart from the attached pages, which were free there. -/
structure Tidy (P : PageHeap) (mary : Nat) (start : ByteMem) (s : CreamState) : Prop where
  heap : TwoLevelInv P mary s
  covered : ∀ i < 124, mothermary s.mem mary i ≠ 0 → ∀ j < 124,
    s.mem (mothermary s.mem mary i + j) ≠ 0x00 →
      ∃ b ∈ s.blocks, ∃ k, Placed s.mem mary b i k ∧ k ≤ j ∧ j < k + blocksFor b.size
  wasFree : ∀ i < 124, ∀ k, mothermary s.mem mary i = P.page k →
    P.tableOf start k = blockMarks.free
  kernel : ∀ k < P.table.total, (∀ i < 124, mothermary s.mem mary i ≠ P.page k) →
    P.tableOf s.mem k = P.tableOf start k

/-- The invariant of a run in which no free fails: besides, no attached page is without a live
block. -/
structure NothingStranded (P : PageHeap) (mary : Nat) (start : ByteMem) (s : CreamState) :
    Prop where
  tidy : Tidy P mary start s
  filled : ∀ i < 124, mothermary s.mem mary i ≠ 0 → Filled mary s i

/-- A live block with an address in an attached page is placed there. -/
theorem TwoLevelInv.placed_at (h : TwoLevelInv P mary s) {b : Allocation} (hb : b ∈ s.blocks)
    (hi : i < 124) (hne : mothermary s.mem mary i ≠ 0) (hk : k < 124)
    (hptr : b.ptr = mothermary s.mem mary i + (128 + k * 32)) : Placed s.mem mary b i k := by
  obtain ⟨j, l, hplaced⟩ := h.placed b hb
  obtain ⟨rfl, rfl⟩ := h.placed_unique hplaced hi hne hk hptr
  exact hplaced

/-- A block that stays live stays placed, if its slot stays. -/
theorem Placed.stays {b : Allocation} (hplaced : Placed s.mem mary b i k)
    (h : TwoLevelInv P mary s') (hb : b ∈ s'.blocks)
    (hslot : mothermary s'.mem mary i = mothermary s.mem mary i) :
    Placed s'.mem mary b i k := by
  have hpos := hplaced.block.pos
  have hbound := hplaced.bound
  refine h.placed_at hb hplaced.index ?_ (by omega) ?_
  · rw [hslot]
    exact hplaced.attached
  · rw [hslot]
    exact hplaced.ptr

/-- A page keeps its live blocks, if its slot stays and they stay live. -/
theorem Filled.stays (hfilled : Filled mary s i) (h : TwoLevelInv P mary s')
    (hblocks : ∀ b ∈ s.blocks, b ∈ s'.blocks)
    (hslot : mothermary s'.mem mary i = mothermary s.mem mary i) : Filled mary s' i := by
  obtain ⟨b, hb, k, hplaced⟩ := hfilled
  exact ⟨b, hblocks b hb, k, hplaced.stays h (hblocks b hb) hslot⟩

/-- With no live block left the kernel table is the one of the start. -/
theorem NothingStranded.restored (h : NothingStranded P mary start s) (hnone : s.blocks = [])
    (hk : k < P.table.total) : P.tableOf s.mem k = P.tableOf start k := by
  refine h.tidy.kernel k hk fun i hi heq => ?_
  have hne : mothermary s.mem mary i ≠ 0 := by
    rw [heq]
    exact Nat.ne_of_gt (PageHeap.page_pos k)
  obtain ⟨b, hb, _⟩ := h.filled i hi hne
  rw [hnone] at hb
  exact absurd hb (List.not_mem_nil)

/-! ## Allocation -/

/-- The state after a block of `size` bytes was allocated from entry `k` of the page in slot `i`. -/
def withBlock (mary : Nat) (s : CreamState) (i k size : Nat) : CreamState :=
  ⟨blockMarks.put s.mem (mothermary s.mem mary i + k) (blocksFor size),
    ⟨mothermary s.mem mary i + (128 + k * 32), size⟩ :: s.blocks, s.pages⟩

/-- A new block in an attached page keeps the invariant and fills its page. -/
theorem Tidy.place (h : Tidy P mary start s) (hi : i < 124) (hne : mothermary s.mem mary i ≠ 0)
    {size : Nat} (hpos : 0 < blocksFor size)
    (hrun : blockMarks.FreeRun (s.mem.view (mothermary s.mem mary i)) 124 k (blocksFor size)) :
    Tidy P mary start (withBlock mary s i k size) ∧ Filled mary (withBlock mary s i k size) i ∧
      ∀ j < 124, mothermary (withBlock mary s i k size).mem mary j = mothermary s.mem mary j := by
  have hinv : TwoLevelInv P mary (withBlock mary s i k size) := h.heap.place hi hne hpos hrun
  have hbound := hrun.bound
  have hout : ∀ x, ¬ (⟨mothermary s.mem mary i, 1⟩ : Allocation).Covers x →
      (withBlock mary s i k size).mem x = s.mem x := by
    intro x hx
    simp only [Allocation.Covers, pagesFor] at hx
    exact Marks.put_outside (by omega)
  have hslot : ∀ j < 124, mothermary (withBlock mary s i k size).mem mary j =
      mothermary s.mem mary j :=
    fun j hj => h.heap.attached.mothermary_of_page hi hne hout hj
  -- the new block itself covers its entries and fills the page
  have hnew : Placed (withBlock mary s i k size).mem mary
      ⟨mothermary s.mem mary i + (128 + k * 32), size⟩ i k := by
    refine hinv.placed_at (List.mem_cons_self ..) hi ?_ (by omega) ?_
    · rw [hslot i hi]
      exact hne
    · rw [hslot i hi]
  refine ⟨⟨hinv, fun l hl hnel j hj htaken => ?_, fun l hl n heq => ?_, fun l hl hall => ?_⟩,
    ⟨_, List.mem_cons_self .., k, hnew⟩, hslot⟩
  · rw [hslot l hl] at hnel htaken
    by_cases hin : l = i ∧ k ≤ j ∧ j < k + blocksFor size
    · obtain ⟨rfl, hlow, hhigh⟩ := hin
      exact ⟨_, List.mem_cons_self .., k, hnew, hlow, hhigh⟩
    · -- the entry is not one of the new block, so it was taken before
      have hsame : (withBlock mary s i k size).mem (mothermary s.mem mary l + j) =
          s.mem (mothermary s.mem mary l + j) := by
        by_cases hli : l = i
        · subst hli
          exact Marks.put_outside (by omega)
        · refine hout _ fun hcov => h.heap.attached.apart_slot hl hi hli hnel hne _ ?_ hcov
          simp only [Allocation.Covers, pagesFor]
          omega
      rw [hsame] at htaken
      obtain ⟨b, hb, n, hplaced, hle, hlt⟩ := h.covered l hl hnel j hj htaken
      have hb' : b ∈ (withBlock mary s i k size).blocks := List.mem_cons_of_mem _ hb
      exact ⟨b, hb', n, hplaced.stays hinv hb' (hslot l hl), hle, hlt⟩
  · rw [hslot l hl] at heq
    exact h.wasFree l hl n heq
  · have hsame : P.tableOf (withBlock mary s i k size).mem l = P.tableOf s.mem l := by
      refine PageHeap.table_of_congr (fun x hx => hout x fun hcov => ?_) hl
      exact PageHeap.not_in_table_of_in_pages
        ((h.heap.attached.owned i hi hne).in_pages hcov) hx
    rw [hsame]
    refine h.kernel l hl fun j hj => ?_
    rw [← hslot j hj]
    exact hall j hj

/-- Outside the array and the new page, attaching a page only marks it in the kernel table. -/
theorem with_page_frame (hi : i < 124) {m : ByteMem} {x : Nat}
    (hpage : ¬ (⟨P.page k, 1⟩ : Allocation).Covers x)
    (harray : ¬ (⟨mary, 1⟩ : Allocation).Covers x) :
    withPage P m mary i k x = blockMarks.put m (P.table.entries + k) 1 x := by
  simp only [Allocation.Covers, pagesFor] at hpage
  rw [withPage, table_guard_set_eq, ByteMem.fill_outside (by omega),
    set_mothermary_outside hi harray, ByteMem.fill_outside (by omega)]

/-- A page that reads as zero is attached with an empty table. -/
theorem with_page_clear (h : TwoLevelInv P mary s) (hi : i < 124)
    (hrun : blockMarks.FreeRun (P.tableOf s.mem) P.table.total k 1)
    (hgrant : kzalloc P.toHeap s.mem 1 =
      (P.page k, ByteMem.fill (blockMarks.put s.mem (P.table.entries + k) 1) (P.page k) 1 0x00))
    (hzero : PageReadsZero P.toHeap s.mem) {j : Nat} (hj : j < 124) :
    withPage P s.mem mary i k (P.page k + j) = 0x00 := by
  rw [with_page_table h hi hrun hj]
  split_ifs with hfirst
  · rfl
  · rw [PageReadsZero, hgrant] at hzero
    have hread := hzero (Nat.ne_of_gt (PageHeap.page_pos k)) j (by omega)
    have hbound := PageHeap.page_bound hrun.bound
    have htable : ¬ P.InTable (P.page k + j) := PageHeap.not_in_table_of_in_pages
      ⟨by simp only [PageHeap.page]; omega, by omega⟩
    have hlast := hrun.bound
    simp only [PageHeap.InTable] at htable
    simp only at hread
    rwa [ByteMem.fill_outside (by omega), Marks.put_outside (by omega)] at hread

/-- Attaching a page that reads as zero keeps the invariant; the page holds no block yet. -/
theorem Tidy.attach (h : Tidy P mary start s) (hi : i < 124) (hempty : mothermary s.mem mary i = 0)
    (hrun : blockMarks.FreeRun (P.tableOf s.mem) P.table.total k 1)
    (hclear : ∀ j < 124, withPage P s.mem mary i k (P.page k + j) = 0x00) :
    Tidy P mary start ⟨withPage P s.mem mary i k, s.blocks, s.pages⟩ := by
  obtain ⟨hslot, hinv⟩ := h.heap.attach hi hempty hrun
  have hset : ∀ j, j < 124 → mothermary (withPage P s.mem mary i k) mary j =
      if i = j then P.page k else mothermary s.mem mary j :=
    fun j hj => h.heap.with_page_slots hrun hj
  have hrun' : blockMarks.FreeRun (P.tableOf s.mem) P.table.total k (pagesFor 1) := by
    rw [pages_for_one]
    exact hrun
  have hfree : P.tableOf s.mem k = blockMarks.free := hrun.free 0 (by omega)
  -- the new page was not attached before, and the rest of the kernel table keeps its entries
  have hfresh : ∀ j < 124, mothermary s.mem mary j ≠ P.page k := by
    intro j hj heq
    have hne : mothermary s.mem mary j ≠ 0 := by
      rw [heq]
      exact Nat.ne_of_gt (PageHeap.page_pos k)
    exact (h.heap.attached.owned j hj hne).ptr_ne_free hrun (by omega) heq
  have hentry : ∀ l < P.table.total, l ≠ k →
      P.tableOf (withPage P s.mem mary i k) l = P.tableOf s.mem l := by
    intro l hl hlk
    have hin : P.InTable (P.table.entries + l) := ⟨by omega, by omega⟩
    have hbound := PageHeap.page_bound hrun.bound
    have hframe : withPage P s.mem mary i k (P.table.entries + l) =
        blockMarks.put s.mem (P.table.entries + k) 1 (P.table.entries + l) := by
      refine with_page_frame hi (fun hcov => ?_) fun hcov => ?_
      · refine PageHeap.not_in_table_of_in_pages ?_ hin
        simp only [Allocation.Covers, pages_for_one, PageHeap.page] at hcov hbound
        exact ⟨by omega, by omega⟩
      · exact PageHeap.not_in_table_of_in_pages (h.heap.attached.array.in_pages hcov) hin
    exact hframe.trans (Marks.put_outside (by omega))
  refine ⟨hinv, fun l hl hnel j hj htaken => ?_, fun l hl n heq => ?_, fun l hl hall => ?_⟩
  · by_cases hil : i = l
    · subst hil
      simp only [hslot, hclear j hj, ne_eq, not_true] at htaken
    · simp only [hset l hl, if_neg hil] at hnel htaken
      have howned := h.heap.attached.owned l hl hnel
      have hcov : (⟨mothermary s.mem mary l, 1⟩ : Allocation).Covers
          (mothermary s.mem mary l + j) := by
        simp only [Allocation.Covers, pages_for_one]
        omega
      have htable := PageHeap.not_in_table_of_in_pages (howned.in_pages hcov)
      have hbound := hrun.bound
      simp only [PageHeap.InTable] at htable
      rw [with_page_frame hi (howned.apart_free hrun' (by rw [pages_for_one]; omega) rfl _ hcov)
        (h.heap.attached.apart_array hl hnel _ hcov), Marks.put_outside (by omega)] at htaken
      obtain ⟨b, hb, n, hplaced, hle, hlt⟩ := h.covered l hl hnel j hj htaken
      exact ⟨b, hb, n, hplaced.stays hinv hb (by simp only [hset l hl, if_neg hil]), hle, hlt⟩
  · simp only [hset l hl] at heq
    split_ifs at heq with hil
    · rw [← PageHeap.page_inj heq, ← hfree]
      exact (h.kernel k (by have := hrun.bound; omega) hfresh).symm
    · exact h.wasFree l hl n heq
  · have hlk : l ≠ k := by
      rintro rfl
      exact hall i hi hslot
    rw [hentry l hl hlk]
    refine h.kernel l hl fun j hj heq => ?_
    by_cases hij : i = j
    · subst hij
      rw [hempty] at heq
      exact absurd heq.symm (Nat.ne_of_gt (PageHeap.page_pos l))
    · have := hall j hj
      simp only [hset j hj, if_neg hij] at this
      exact this heq

/-- A new block in a page leaves the invariant, if every other page held one. -/
theorem Tidy.fill (h : Tidy P mary start s) (hi : i < 124) (hne : mothermary s.mem mary i ≠ 0)
    {size : Nat} (hpos : 0 < blocksFor size)
    (hrun : blockMarks.FreeRun (s.mem.view (mothermary s.mem mary i)) 124 k (blocksFor size))
    (hfilled : ∀ j < 124, j ≠ i → mothermary s.mem mary j ≠ 0 → Filled mary s j) :
    NothingStranded P mary start (withBlock mary s i k size) := by
  obtain ⟨htidy, hnew, hslot⟩ := h.place hi hne hpos hrun
  refine ⟨htidy, fun j hj hnej => ?_⟩
  by_cases hji : j = i
  · subst hji
    exact hnew
  · rw [hslot j hj] at hnej
    exact (hfilled j hj hji hnej).stays htidy.heap (fun b hb => List.mem_cons_of_mem _ hb)
      (hslot j hj)

/-- `heap_cream_malloc` keeps the invariant, if a page that it attaches reads as zero. -/
theorem NothingStranded.malloc (h : NothingStranded P mary start s) {size : Nat} (hpos : 1 ≤ size)
    (hsize : size ≤ 3968) (hzero : PageReadsZero P.toHeap s.mem) :
    NothingStranded P mary start ((BlockCall.malloc size).next P.toHeap mary s) := by
  have hblocks : Word.add32 size 31 / 32 = blocksFor size := by
    rw [Word.add32_of_lt (by omega), blocksFor]
  rcases heap_cream_malloc_cases s.mem size h.tidy.heap.attached.array with
    ⟨heq, _⟩ | ⟨_, i, k, hplace, hcount, heq⟩ | ⟨i, k, hattach, hfit, hgrant, heq⟩
  · rw [BlockCall.next, heq]
    exact h
  · have hnull : mothermary s.mem mary i + (128 + k * 32) ≠ 0 := by omega
    rw [BlockCall.next, heq]
    simp only [hnull, if_false]
    exact h.tidy.fill hplace.index (hplace.attached i (by omega)) hcount hplace.fit.run
      fun j hj _ hnej => h.filled j hj hnej
  · have hi := hattach.index
    have hclear : ∀ j < 124, withPage P s.mem mary i k (P.page k + j) = 0x00 :=
      fun j hj => with_page_clear h.tidy.heap hi hfit.run hgrant hzero hj
    have htidy := h.tidy.attach hi hattach.empty hfit.run hclear
    obtain ⟨hslot, _⟩ := h.tidy.heap.attach hi hattach.empty hfit.run
    rw [BlockCall.next, heq]
    -- the new page is attached before the block is taken from it
    rcases malloc32_cases (withPage P s.mem mary i k) (P.page k) size with
      ⟨l, hcount, hfit', hnew⟩ | ⟨_, hnone⟩
    · have hnull : P.page k + (128 + l * 32) ≠ 0 := by omega
      rw [hblocks] at hcount hfit' hnew
      rw [← hslot] at hfit' hnew hnull
      rw [← hslot, hnew]
      simp only [hnull, if_false]
      refine htidy.fill hi ?_ hcount hfit'.run fun j hj hji hnej => ?_
      · rw [hslot]
        exact Nat.ne_of_gt (PageHeap.page_pos k)
      · have hset := h.tidy.heap.with_page_slots (i := i) hfit.run hj
        rw [if_neg hji.symm] at hset
        rw [hset] at hnej
        exact (h.filled j hj hnej).stays htidy.heap (fun b hb => hb) hset
    · -- an empty table has room for every size up to 3968
      rw [hblocks] at hnone
      have hcount : 0 < blocksFor size ∧ blocksFor size ≤ 124 := by
        simp only [blocksFor]
        omega
      refine absurd ⟨by omega, fun j hj => ?_⟩ (hnone hcount.1 0)
      rw [ByteMem.view_apply, Nat.zero_add]
      exact hclear j (by omega)

/-! ## Freeing -/

/-- The state after the block of `r` entries from entry `k` of the page in slot `i` was freed. -/
def withoutBlock (mary : Nat) (s : CreamState) (i k r : Nat) : CreamState :=
  ⟨blockMarks.erase s.mem (mothermary s.mem mary i + k) r,
    s.blocks.filter (·.ptr ≠ mothermary s.mem mary i + (128 + k * 32)), s.pages⟩

/-- Clearing the entries of a block keeps the invariant, and the blocks of the other pages. -/
theorem Tidy.clear (h : Tidy P mary start s) (hi : i < 124) (hne : mothermary s.mem mary i ≠ 0)
    {r : Nat} (hr : k + r ≤ 124)
    (hblock : blockMarks.Block (s.mem.view (mothermary s.mem mary i)) k r) :
    Tidy P mary start (withoutBlock mary s i k r) ∧
      (∀ j < 124, mothermary (withoutBlock mary s i k r).mem mary j = mothermary s.mem mary j) ∧
      ∀ j < 124, j ≠ i → Filled mary s j → Filled mary (withoutBlock mary s i k r) j := by
  have hpos := hblock.pos
  have hinv : TwoLevelInv P mary (withoutBlock mary s i k r) :=
    h.heap.clear hi hne hr hblock.stretch
      (fun b hb => ⟨(List.mem_filter.mp hb).1, of_decide_eq_true (List.mem_filter.mp hb).2⟩)
      (h.heap.distinct.filter _)
  have hout : ∀ x, ¬ (⟨mothermary s.mem mary i, 1⟩ : Allocation).Covers x →
      (withoutBlock mary s i k r).mem x = s.mem x := fun x hx => erase_outside_page hr hx
  have hslot : ∀ j < 124, mothermary (withoutBlock mary s i k r).mem mary j =
      mothermary s.mem mary j :=
    fun j hj => h.heap.attached.mothermary_of_page hi hne hout hj
  -- every block but the one at entry `k` of the page stays live
  have hkeep : ∀ {b : Allocation} {l n : Nat}, b ∈ s.blocks → Placed s.mem mary b l n →
      ¬ (l = i ∧ n = k) → b ∈ (withoutBlock mary s i k r).blocks := by
    intro b l n hb hplaced hother
    refine List.mem_filter.mpr ⟨hb, decide_eq_true fun hptr => hother ?_⟩
    exact h.heap.placed_unique hplaced hi hne (by omega) hptr
  refine ⟨⟨hinv, fun l hl hnel j hj htaken => ?_, fun l hl n heq => ?_, fun l hl hall => ?_⟩,
    hslot, fun j hj hji hfilled => ?_⟩
  · rw [hslot l hl] at hnel htaken
    have hsame : (withoutBlock mary s i k r).mem (mothermary s.mem mary l + j) =
        s.mem (mothermary s.mem mary l + j) ∧ ¬ (l = i ∧ k ≤ j ∧ j < k + r) := by
      by_cases hli : l = i
      · subst hli
        have hin : ¬ (k ≤ j ∧ j < k + r) := fun hin =>
          htaken (Marks.erase_inside (by omega) (by omega))
        exact ⟨Marks.erase_outside (by omega), fun hboth => hin hboth.2⟩
      · refine ⟨hout _ fun hcov => ?_, fun hboth => hli hboth.1⟩
        refine h.heap.attached.apart_slot hl hi hli hnel hne _ ?_ hcov
        simp only [Allocation.Covers, pagesFor]
        omega
    rw [hsame.1] at htaken
    obtain ⟨b, hb, n, hplaced, hle, hlt⟩ := h.covered l hl hnel j hj htaken
    have hother : ¬ (l = i ∧ n = k) := by
      intro hgiven
      obtain ⟨rfl, rfl⟩ := hgiven
      have hlength := hplaced.block.length_unique hblock
      exact hsame.2 ⟨rfl, hle, by omega⟩
    have hb' := hkeep hb hplaced hother
    exact ⟨b, hb', n, hplaced.stays hinv hb' (hslot l hl), hle, hlt⟩
  · rw [hslot l hl] at heq
    exact h.wasFree l hl n heq
  · have hsame : P.tableOf (withoutBlock mary s i k r).mem l = P.tableOf s.mem l := by
      refine PageHeap.table_of_congr (fun x hx => hout x fun hcov => ?_) hl
      exact PageHeap.not_in_table_of_in_pages
        ((h.heap.attached.owned i hi hne).in_pages hcov) hx
    rw [hsame]
    refine h.kernel l hl fun j hj => ?_
    rw [← hslot j hj]
    exact hall j hj
  · obtain ⟨b, hb, n, hplaced⟩ := hfilled
    have hb' := hkeep hb hplaced fun hboth => hji hboth.1
    exact ⟨b, hb', n, hplaced.stays hinv hb' (hslot j hj)⟩

/-- Giving back a page with a free table keeps the invariant and empties its slot only. -/
theorem Tidy.kill (h : Tidy P mary start s) (hi : i < 124) (hne : mothermary s.mem mary i ≠ 0)
    (hfree : ∀ j, j < 124 → s.mem (mothermary s.mem mary i + j) = 0x00) :
    Tidy P mary start ⟨heapCreamKill P.toHeap s.mem mary i, s.blocks, s.pages⟩ ∧
      mothermary (heapCreamKill P.toHeap s.mem mary i) mary i = 0 ∧
      ∀ j < 124, j ≠ i →
        mothermary (heapCreamKill P.toHeap s.mem mary i) mary j = mothermary s.mem mary j := by
  have hinv := h.heap.kill hi hne hfree
  obtain ⟨k, hpage, hblock, hbound, heq⟩ := heap_cream_kill_eq (h.heap.attached.owned i hi hne)
  rw [heq] at hinv ⊢
  have herase : ∀ x, ¬ P.InTable x →
      blockMarks.erase s.mem (P.table.entries + k) 1 x = s.mem x := by
    intro x hx
    simp only [PageHeap.InTable] at hx
    exact Marks.erase_outside (by omega)
  have hslot : mothermary (setMothermary (blockMarks.erase s.mem (P.table.entries + k) 1) mary i 0)
      mary i = 0 := mothermary_set_same _ (by omega)
  have hother : ∀ j < 124, j ≠ i →
      mothermary (setMothermary (blockMarks.erase s.mem (P.table.entries + k) 1) mary i 0) mary j =
        mothermary s.mem mary j := by
    intro j hj hji
    rw [mothermary_set_other _ hji.symm]
    exact mothermary_congr hj fun x hx =>
      herase x (PageHeap.not_in_table_of_in_pages (h.heap.attached.array.in_pages hx))
  refine ⟨⟨hinv, fun l hl hnel j hj htaken => ?_, fun l hl n heq' => ?_, fun l hl hall => ?_⟩,
    hslot, hother⟩
  · by_cases hli : l = i
    · subst hli
      exact absurd hslot hnel
    · simp only [hother l hl hli] at hnel htaken
      have hcov : (⟨mothermary s.mem mary l, 1⟩ : Allocation).Covers
          (mothermary s.mem mary l + j) := by
        simp only [Allocation.Covers, pagesFor]
        omega
      rw [set_mothermary_outside hi (h.heap.attached.apart_array hl hnel _ hcov),
        herase _ (PageHeap.not_in_table_of_in_pages
          ((h.heap.attached.owned l hl hnel).in_pages hcov))] at htaken
      obtain ⟨b, hb, n, hplaced, hle, hlt⟩ := h.covered l hl hnel j hj htaken
      exact ⟨b, hb, n, hplaced.stays hinv hb (hother l hl hli), hle, hlt⟩
  · by_cases hli : l = i
    · subst hli
      simp only [hslot] at heq'
      exact absurd heq'.symm (Nat.ne_of_gt (PageHeap.page_pos n))
    · simp only [hother l hl hli] at heq'
      exact h.wasFree l hl n heq'
  · have hentry : P.tableOf
        (setMothermary (blockMarks.erase s.mem (P.table.entries + k) 1) mary i 0) l =
          blockMarks.erase (P.tableOf s.mem) k 1 l := by
      rw [← PageHeap.table_of_erase]
      refine PageHeap.table_of_congr (fun x hx => set_mothermary_outside hi fun hcov => ?_) hl
      exact PageHeap.not_in_table_of_in_pages (h.heap.attached.array.in_pages hcov) hx
    rw [hentry]
    -- page `k` is free again as it was when the array was set up
    by_cases hlk : l = k
    · subst hlk
      rw [Marks.erase_inside (by omega) (by omega), h.wasFree i hi l hpage]
    · rw [Marks.erase_outside (by omega)]
      refine h.kernel l hl fun j hj heq' => ?_
      by_cases hji : j = i
      · subst hji
        exact hlk (PageHeap.page_inj (heq'.symm.trans hpage))
      · exact hall j hj ((hother j hj hji).trans heq')

/-- `heap_cream_free` frees a live block exactly when no slot below that of its page is empty. -/
theorem heap_cream_free_placed (h : TwoLevelInv P mary s) {b : Allocation}
    (hplaced : Placed s.mem mary b i k) :
    (NoEmptySlotBelow s.mem mary i → heapCreamFree P.toHeap s.mem mary b.ptr =
      (true, heapCreamSingleChkKill P.toHeap
        (blockMarks.erase s.mem (mothermary s.mem mary i + k) (blocksFor b.size)) mary i)) ∧
    ((heapCreamFree P.toHeap s.mem mary b.ptr).1 = true → NoEmptySlotBelow s.mem mary i) := by
  have hi := hplaced.index
  have hpos := hplaced.block.pos
  have hbound := hplaced.bound
  have hreach : NoEmptySlotBelow s.mem mary i → NoEmptySlotBelow s.mem mary (i + 1) := by
    intro hno j hj
    rcases Nat.lt_succ_iff_lt_or_eq.mp hj with hlt | rfl
    · exact hno j hlt
    · exact hplaced.attached
  rcases heap_cream_free_cases h.attached b.ptr with
    ⟨heq, hnone⟩ | ⟨j, l, r, hj, hno, hr, hptr, hstretch, hcase⟩
  · rw [heq]
    refine ⟨fun hbelow => ?_, fun hfreed => by simp at hfreed⟩
    exact absurd hplaced.block (hnone i k _ hi (hreach hbelow) (by omega) hplaced.ptr)
  · have hrpos := hstretch.pos
    obtain ⟨rfl, rfl⟩ := h.placed_unique hplaced hj (hno j (by omega)) (by omega) hptr
    refine ⟨fun _ => ?_, fun _ n hn => hno n (by omega)⟩
    rcases hcase with ⟨_, hnone⟩ | ⟨heq, hlength⟩
    · exact absurd hplaced.block (hnone _ hbound)
    · rw [heq, hlength _ hbound hplaced.block]

/-- A free succeeds exactly when the page of the pointer is in reach. -/
theorem free_returns_true_iff (h : TwoLevelInv P mary s) {call : BlockCall}
    (hcall : call.Admissible P.toHeap mary s) :
    FreeReturnsTrue P.toHeap mary s call ↔ InReach mary s call := by
  refine forall_congr' fun ptr => forall_congr' fun heq => ?_
  subst heq
  obtain ⟨b, hb, rfl⟩ := hcall
  obtain ⟨i, k, hplaced⟩ := h.placed b hb
  obtain ⟨hfreed, hreach⟩ := heap_cream_free_placed h hplaced
  have hptr := hplaced.ptr
  have hbound := hplaced.bound
  have hpos := hplaced.block.pos
  have hin : inPage (mothermary s.mem mary i) b.ptr = true := in_page_iff.mpr (by omega)
  constructor
  · intro htrue j hj hnej hinj
    have hbase := in_page_unique (h.attached.aligned hj) (h.attached.aligned hplaced.index) hinj hin
    rw [h.attached.distinct j i hj hplaced.index hnej hbase]
    exact hreach htrue
  · intro hall
    rw [hfreed (hall i hplaced.index hplaced.attached hin)]

/-- A free that succeeds keeps the invariant: it clears the block, and it gives the page back if the
block was the last one in it. -/
theorem NothingStranded.free (h : NothingStranded P mary start s) {b : Allocation}
    (hplaced : Placed s.mem mary b i k) (hbelow : NoEmptySlotBelow s.mem mary i) :
    NothingStranded P mary start ((BlockCall.free b.ptr).next P.toHeap mary s) := by
  have hi := hplaced.index
  have hne := hplaced.attached
  obtain ⟨htidy, hslot, hothers⟩ := h.tidy.clear hi hne hplaced.bound hplaced.block
  have hstate : withoutBlock mary s i k (blocksFor b.size) =
      ⟨blockMarks.erase s.mem (mothermary s.mem mary i + k) (blocksFor b.size),
        s.blocks.filter (·.ptr ≠ b.ptr), s.pages⟩ := by
    rw [withoutBlock, hplaced.ptr]
  rw [BlockCall.next, (heap_cream_free_placed h.tidy.heap hplaced).1 hbelow]
  rw [hstate] at htidy hslot hothers
  simp only at hslot ⊢
  rcases single_chk_kill_cases P.toHeap
    (blockMarks.erase s.mem (mothermary s.mem mary i + k) (blocksFor b.size)) mary i with
    ⟨hfree, hkill⟩ | ⟨⟨j, hj, htaken⟩, hkeep⟩
  · -- the block was the last one: its page goes, and the other pages are still filled
    rw [hkill]
    obtain ⟨hkilled, hempty, hsame⟩ := htidy.kill hi (by simp only [hslot i hi]; exact hne) hfree
    refine ⟨hkilled, fun j hj hnej => ?_⟩
    have hji : j ≠ i := by
      rintro rfl
      exact hnej hempty
    simp only [hsame j hj hji, hslot j hj] at hnej
    exact (hothers j hj hji (h.filled j hj hnej)).stays hkilled.heap (fun b hb => hb)
      (hsame j hj hji)
  · rw [hkeep]
    refine ⟨htidy, fun l hl hnel => ?_⟩
    by_cases hli : l = i
    · -- a taken entry is left, and it belongs to a live block
      subst hli
      obtain ⟨b', hb', n, hplaced', _⟩ := htidy.covered l hl hnel j hj htaken
      exact ⟨b', hb', n, hplaced'⟩
    · simp only [hslot l hl] at hnel
      exact hothers l hl hli (h.filled l hl hnel)

/-- A change that keeps the tables moves no slot. -/
theorem KeepsTables.slot {H : Heap} {m m' : ByteMem} (h : KeepsTables H mary m m') {j : Nat}
    (hj : j < 124) : mothermary m' mary j = mothermary m mary j := by
  refine mothermary_congr hj fun x hx => ?_
  simp only [Allocation.Covers, pagesFor] at hx
  exact h.array x hx.1 (by omega)

/-- It keeps the invariant of the two-level heap. -/
theorem TwoLevelInv.others (h : TwoLevelInv P mary s) {mem : ByteMem}
    (hkeeps : KeepsTables P.toHeap mary s.mem mem) :
    TwoLevelInv P mary ⟨mem, s.blocks, s.pages⟩ := by
  have htable : ∀ x, P.InTable x → mem x = s.mem x := fun x hx => hkeeps.kernel x hx.1 hx.2
  refine h.transfer (h.heap.congr htable)
    (fun i hi hne => (h.attached.owned i hi hne).congr htable) (fun x hx => ?_) hkeeps.pages
    h.unshared
  simp only [Allocation.Covers, pagesFor] at hx
  exact hkeeps.array x hx.1 (by omega)

/-- A change that keeps the tables keeps the invariant of a run. -/
theorem NothingStranded.others (h : NothingStranded P mary start s) {mem : ByteMem}
    (hkeeps : KeepsTables P.toHeap mary s.mem mem) :
    NothingStranded P mary start ⟨mem, s.blocks, s.pages⟩ := by
  have htable : ∀ x, P.InTable x → mem x = s.mem x := fun x hx => hkeeps.kernel x hx.1 hx.2
  have hinv := h.tidy.heap.others hkeeps
  have hslot := fun {j} (hj : j < 124) => hkeeps.slot hj
  refine ⟨⟨hinv, fun l hl hnel j hj htaken => ?_, fun l hl n heq => ?_, fun l hl hall => ?_⟩,
    fun j hj hnej => ?_⟩
  · simp only [hslot hl] at hnel htaken
    rw [hkeeps.pages l hl hnel j (by omega)] at htaken
    obtain ⟨b, hb, n, hplaced, hle, hlt⟩ := h.tidy.covered l hl hnel j hj htaken
    exact ⟨b, hb, n, hplaced.stays hinv hb (hslot hl), hle, hlt⟩
  · simp only [hslot hl] at heq
    exact h.tidy.wasFree l hl n heq
  · rw [PageHeap.table_of_congr htable hl]
    refine h.tidy.kernel l hl fun j hj => ?_
    rw [← hslot hj]
    exact hall j hj
  · simp only [hslot hj] at hnej
    exact (h.filled j hj hnej).stays hinv (fun b hb => hb) (hslot hj)

/-! ## Runs -/

/-- A step keeps the invariant of the two-level heap, whether a free succeeds or not. -/
theorem TwoLevelInv.block_step (h : TwoLevelInv P mary s) {call : BlockCall}
    (hstep : BlockStep P.toHeap mary s call s') : TwoLevelInv P mary s' := by
  obtain ⟨hcall, rfl⟩ := hstep
  cases call with
  | malloc size => exact h.malloc size
  | others mem => exact h.others hcall
  | free ptr =>
      have hfree := h.free ptr
      rw [CreamOp.next] at hfree
      by_cases hfreed : (heapCreamFree P.toHeap s.mem mary ptr).1 = true
      · simp only [hfreed, if_true] at hfree
        exact hfree
      · -- the pointer is forgotten although its block is still marked
        simp only [hfreed] at hfree
        exact ⟨hfree.heap, hfree.attached, hfree.unshared,
          fun b hb => hfree.placed b (List.mem_filter.mp hb).1, hfree.distinct.filter _⟩

/-- Every step that frees only what is in reach keeps the invariant. -/
theorem NothingStranded.step (h : NothingStranded P mary start s) {call : BlockCall}
    (hstep : BlockStep P.toHeap mary s call s') (hreach : InReach mary s call) :
    NothingStranded P mary start s' := by
  obtain ⟨hcall, rfl⟩ := hstep
  cases call with
  | malloc size => exact h.malloc hcall.1 hcall.2.1 hcall.2.2
  | others mem => exact h.others hcall
  | free ptr =>
      obtain ⟨b, hb, rfl⟩ := hcall
      obtain ⟨i, k, hplaced⟩ := h.tidy.heap.placed b hb
      have hptr := hplaced.ptr
      have hbound := hplaced.bound
      have hpos := hplaced.block.pos
      exact h.free hplaced (hreach _ rfl i hplaced.index hplaced.attached
        (in_page_iff.mpr (by omega)))

/-- The state in which the array was just allocated has the invariant. -/
theorem nothing_stranded_init {m : ByteMem} {pages : List Allocation}
    (h : TwoLevelInv P mary ⟨m, [], pages⟩) (hempty : ∀ i, i < 124 → mothermary m mary i = 0) :
    NothingStranded P mary m ⟨m, [], pages⟩ := by
  refine ⟨⟨h, fun i hi hne => absurd (hempty i hi) hne, fun i hi k heq => ?_, fun _ _ _ => rfl⟩,
    fun i hi hne => absurd (hempty i hi) hne⟩
  simp only [hempty i hi] at heq
  exact absurd heq.symm (Nat.ne_of_gt (PageHeap.page_pos k))

/-- In a run of the two-level heap over pages that read as zero, every free succeeds and, with all
pointers freed, the kernel table is what it was at the start, exactly when no block is freed while a
slot below that of its page is empty. -/
theorem never_stranded_iff {m₀ m m₁ : ByteMem} {ptr endPtr : Nat} {heapT : HeapTable} {H : Heap}
    (hcreate : heapCreate m₀ ptr endPtr heapT = .ok (H, m))
    (hstart : 0 < ptr) (hlt : ptr < endPtr) (hend : endPtr < 4294967296)
    (hsigned : endPtr - ptr < 2147483648)
    (htable : heapT.entries + heapT.total ≤ 4294967296)
    (houtside : heapT.entries + heapT.total ≤ ptr ∨ endPtr ≤ heapT.entries)
    {before : List (Transition HeapState HeapOp)} {s₀ : HeapState}
    (hbefore : Run (HeapStep H) ⟨m, []⟩ before s₀)
    (hmary : helpMeMaryMotherOfGod H s₀.mem = (mary, m₁)) (hnull : mary ≠ 0)
    (hempty : ∀ i, i < 124 → mothermary m₁ mary i = 0)
    {trace : List (Transition CreamState BlockCall)} {s : CreamState}
    (hrun : Run (BlockStep H mary) ⟨m₁, [], s₀.live⟩ trace s) :
    ((∀ t ∈ trace, FreeReturnsTrue H mary t.before t.event) ∧
      (s.blocks = [] → ∀ k < H.table.total,
        s.mem (H.table.entries + k) = m₁ (H.table.entries + k))) ↔
      ∀ t ∈ trace, InReach mary t.before t.event := by
  obtain ⟨P, rfl, _, hheap⟩ := two_level_start hcreate hstart hlt hend hsigned htable houtside
    hbefore hmary hnull hempty
  have hinit : NothingStranded P mary m₁ ⟨m₁, [], s₀.live⟩ := nothing_stranded_init hheap hempty
  constructor
  · intro hall t ht
    obtain ⟨htrue, _⟩ := hall
    obtain ⟨hinv, hstep, hfreed⟩ := (hrun.guarded htrue).of_mem
      (fun _ _ _ h hstep => h.step hstep.1
        ((free_returns_true_iff h.tidy.heap hstep.1.1).mp hstep.2)) hinit t ht
    exact (free_returns_true_iff hinv.tidy.heap hstep.1).mp hfreed
  · intro hreach
    have hguarded := hrun.guarded hreach
    refine ⟨fun t ht => ?_, fun hnone k hk => ?_⟩
    · obtain ⟨hinv, hstep, hcond⟩ := hguarded.of_mem
        (fun _ _ _ h hstep => h.step hstep.1 hstep.2) hinit t ht
      exact (free_returns_true_iff hinv.tidy.heap hstep.1).mpr hcond
    · exact (hguarded.invariant (fun _ _ _ h hstep => h.step hstep.1 hstep.2) hinit).restored
        hnone hk

/-- A page that is clear before `kzalloc` hands it out reads as zero. -/
theorem page_reads_zero_of_clear {m : ByteMem} {page : Nat}
    (hpage : (kzalloc P.toHeap m 1).1 = page) (hclear : ∀ j < 4096, m (page + j) = 0x00) :
    PageReadsZero P.toHeap m := by
  intro hne j hj
  rcases PageHeap.kzalloc_cases (P := P) m (show 1 < 4294967296 by omega) with
    ⟨k, _, _, hfit, heq⟩ | heq
  · rw [heq] at hpage ⊢
    simp only at hpage ⊢
    subst hpage
    have hlast := hfit.run.bound
    rw [pages_for_one] at hlast ⊢
    have hbound := PageHeap.page_bound hlast
    have htable : ¬ P.InTable (P.page k + j) := PageHeap.not_in_table_of_in_pages
      ⟨by simp only [PageHeap.page]; omega, by omega⟩
    simp only [PageHeap.InTable] at htable
    by_cases hfirst : j = 0
    · exact ByteMem.fill_inside (by omega) (by omega)
    · rw [ByteMem.fill_outside (by omega), Marks.put_outside (by omega)]
      exact hclear j hj
  · rw [heq] at hne
    exact absurd rfl hne

/-- The page that `kzalloc` hands out next can be cleared, and reads as zero then. -/
theorem TwoLevelInv.clear_next_page (h : TwoLevelInv P mary s) {page : Nat}
    (hnext : (kzalloc P.toHeap s.mem 1).1 = page) (hne : page ≠ 0) :
    KeepsTables P.toHeap mary s.mem (s.mem.fill page 4096 0x00) ∧
      PageReadsZero P.toHeap (s.mem.fill page 4096 0x00) := by
  have hsmall : 1 < 4294967296 := by omega
  rcases PageHeap.kzalloc_cases (P := P) s.mem hsmall with ⟨k, hpages, _, hfit, heq⟩ | heq
  swap
  · rw [heq] at hnext
    exact absurd hnext.symm hne
  rw [heq] at hnext
  obtain rfl : P.page k = page := hnext
  have hcov : ∀ x, ¬ (⟨P.page k, 1⟩ : Allocation).Covers x →
      s.mem.fill (P.page k) 4096 0x00 x = s.mem x := by
    intro x hx
    simp only [Allocation.Covers, pages_for_one] at hx
    exact ByteMem.fill_outside (by omega)
  have hout : ∀ a, P.Owns s.mem a → ∀ x, a.Covers x → s.mem.fill (P.page k) 4096 0x00 x = s.mem x :=
    fun a ha x hx => hcov x (ha.apart_free hfit.run hpages rfl x hx)
  have htable : ∀ x, P.InTable x → s.mem.fill (P.page k) 4096 0x00 x = s.mem x := by
    have hnew := PageHeap.owns_marked (a := ⟨P.page k, 1⟩) hfit.run hpages rfl
    exact fun x hx => hcov x fun hx' => PageHeap.not_in_table_of_in_pages (hnew.in_pages hx') hx
  -- the table is the same, so the first free page is
  have hagain : (kzalloc P.toHeap (s.mem.fill (P.page k) 4096 0x00) 1).1 = P.page k := by
    rcases PageHeap.kzalloc_cases (P := P) (s.mem.fill (P.page k) 4096 0x00) hsmall with
      ⟨l, _, _, hfit', heq'⟩ | heq'
    · have hsame := hfit.congr fun i hi => PageHeap.table_of_congr htable hi
      rw [heq', hfit'.unique hsame]
    · have hnull := PageHeap.kzalloc_null_congr hsmall (fun x hx => (htable x hx).symm)
        (congrArg Prod.fst heq')
      rw [heq] at hnull
      exact absurd (congrArg Prod.fst hnull) hne
  refine ⟨⟨fun x hl hh => htable x ⟨hl, hh⟩, fun x hl hh => ?_, fun i hi hnei j hj => ?_⟩,
    page_reads_zero_of_clear hagain fun j hj => ByteMem.fill_inside (by omega) (by omega)⟩
  · refine hout _ h.attached.array x ?_
    simp only [Allocation.Covers, pages_for_one]
    omega
  · refine hout _ (h.attached.owned i hi hnei) _ ?_
    simp only [Allocation.Covers, pages_for_one]
    omega

/-- The state of the small heap after calls on it. -/
def afterCalls (calls : List BlockCall) : CreamState :=
  calls.foldl (fun s call => call.next smallHeap smallMary.1 s) ⟨smallMary.2, [], []⟩

theorem after_calls_append (calls : List BlockCall) (call : BlockCall) :
    afterCalls (calls ++ [call]) = call.next smallHeap smallMary.1 (afterCalls calls) := by
  simp [afterCalls]

/-- The calls are steps of a run of the small heap. -/
def CallsRun (calls : List BlockCall) : Prop :=
  ∃ trace, Run (BlockStep smallHeap smallMary.1) ⟨smallMary.2, [], []⟩ trace (afterCalls calls)

theorem CallsRun.snoc {calls : List BlockCall} (hcalls : CallsRun calls) {call : BlockCall}
    (hcall : call.Admissible smallHeap smallMary.1 (afterCalls calls)) :
    CallsRun (calls ++ [call]) := by
  obtain ⟨trace, hrun⟩ := hcalls
  exact ⟨_, hrun.snoc ⟨hcall, after_calls_append calls call⟩⟩

/-- The calls, and the clearing of a page. -/
def thenClear (calls : List BlockCall) (page : Nat) : List BlockCall :=
  calls ++ [.others ((afterCalls calls).mem.fill page 4096 0x00)]

/-- The calls, the clearing of a page, and an allocation. -/
def thenMalloc (calls : List BlockCall) (page size : Nat) : List BlockCall :=
  (calls ++ [.others ((afterCalls calls).mem.fill page 4096 0x00)]) ++ [.malloc size]

theorem small_slots_empty : ∀ i < 124, mothermary smallMary.2 smallMary.1 i = 0 := by
  decide +kernel

theorem small_mary_ne : smallMary.1 ≠ 0 := by
  decide +kernel

/-- The page that `kzalloc` hands out next can be cleared in a run. -/
theorem CallsRun.clear {calls : List BlockCall} (hcalls : CallsRun calls) {page : Nat}
    (hnext : (kzalloc smallHeap (afterCalls calls).mem 1).1 = page) (hne : page ≠ 0) :
    CallsRun (thenClear calls page) ∧
      PageReadsZero smallHeap (afterCalls (thenClear calls page)).mem := by
  obtain ⟨P, hP, _, hinit⟩ := two_level_start (small_heap_create fun _ => 0) (by decide) (by decide)
    (by decide) (by decide) (by decide) (by decide) .nil (small_mary_eq _ rfl) small_mary_ne
    small_slots_empty
  obtain ⟨trace, hrun⟩ := id hcalls
  rw [← hP] at hrun hnext
  obtain ⟨hkeeps, hzero⟩ :=
    (hrun.invariant (fun _ _ _ h hstep => h.block_step hstep) hinit).clear_next_page hnext hne
  rw [hP] at hkeeps hzero
  refine ⟨hcalls.snoc hkeeps, ?_⟩
  rw [thenClear, after_calls_append]
  exact hzero

/-- If the page is the one that `kzalloc` hands out next, these are steps of a run. -/
theorem CallsRun.malloc {calls : List BlockCall} (hcalls : CallsRun calls) {page size : Nat}
    (hsize : 1 ≤ size ∧ size ≤ 3968)
    (hnext : (kzalloc smallHeap (afterCalls calls).mem 1).1 = page) (hne : page ≠ 0) :
    CallsRun (thenMalloc calls page size) := by
  obtain ⟨hclear, hzero⟩ := hcalls.clear hnext hne
  exact hclear.snoc ⟨hsize.1, hsize.2, hzero⟩

/-- Two blocks of a page each, allocated one after the other. -/
def twoPages : List BlockCall := thenMalloc (thenMalloc [] 0x1001000 3968) 0x1002000 3968

/-- Two blocks of a page each are freed in the order in which they were allocated. The first free
empties slot 0, and the second fails, because it does not find its page any more. -/
theorem second_page_stranded :
    (∀ i < 124, mothermary smallMary.2 smallMary.1 i = 0) ∧
    (∃ trace, Run (BlockStep smallHeap smallMary.1) ⟨smallMary.2, [], []⟩ trace
      (afterCalls (twoPages ++ [.free 0x1001080]))) ∧
    (BlockCall.free 0x1002080).Admissible smallHeap smallMary.1
      (afterCalls (twoPages ++ [.free 0x1001080])) ∧
    ¬ FreeReturnsTrue smallHeap smallMary.1 (afterCalls (twoPages ++ [.free 0x1001080]))
      (.free 0x1002080) := by
  have hnone : CallsRun [] := ⟨[], .nil⟩
  have hone : CallsRun (thenMalloc [] 0x1001000 3968) :=
    hnone.malloc (by omega) (by decide +kernel) (by decide)
  have htwo : CallsRun twoPages := hone.malloc (by omega) (by decide +kernel) (by decide)
  have hfree : CallsRun (twoPages ++ [.free 0x1001080]) :=
    htwo.snoc ⟨⟨0x1001080, 3968⟩, by decide +kernel, rfl⟩
  refine ⟨small_slots_empty, hfree, ⟨⟨0x1002080, 3968⟩, by decide +kernel, rfl⟩, fun hfreed => ?_⟩
  have hfalse : (heapCreamFree smallHeap (afterCalls (twoPages ++ [.free 0x1001080])).mem
      smallMary.1 0x1002080).1 = false := by
    decide +kernel
  rw [hfreed _ rfl] at hfalse
  exact absurd hfalse (by decide)

/-- A block of 100 bytes on the small heap, allocated and freed. -/
def oneBlock : List BlockCall := thenMalloc [] 0x1001000 100 ++ [.free 0x1001080]

theorem never_stranded_iff_small_heap :
    ∃ trace, Run (BlockStep smallHeap smallMary.1) ⟨smallMary.2, [], []⟩ trace
        (afterCalls oneBlock) ∧
      (((∀ t ∈ trace, FreeReturnsTrue smallHeap smallMary.1 t.before t.event) ∧
        ((afterCalls oneBlock).blocks = [] → ∀ k < 8,
          (afterCalls oneBlock).mem (0x7e00 + k) = smallMary.2 (0x7e00 + k))) ↔
        ∀ t ∈ trace, InReach smallMary.1 t.before t.event) := by
  have hnone : CallsRun [] := ⟨[], .nil⟩
  have hone : CallsRun (thenMalloc [] 0x1001000 100) :=
    hnone.malloc (by omega) (by decide +kernel) (by decide)
  obtain ⟨trace, hrun⟩ : CallsRun oneBlock :=
    hone.snoc ⟨⟨0x1001080, 100⟩, by decide +kernel, rfl⟩
  exact ⟨trace, hrun, never_stranded_iff (small_heap_create fun _ => 0) (by decide) (by decide)
    (by decide) (by decide) (by decide) (by decide) .nil (small_mary_eq _ rfl) small_mary_ne
    small_slots_empty hrun⟩

end Genesis32
