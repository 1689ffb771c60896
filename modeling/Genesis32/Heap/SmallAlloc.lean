import Genesis32.Heap.Stranding

/-!
# Small allocations

When `heap_cream_malloc` takes a page and when it gives up. The walk over the array stops at the
first empty slot, so only the pages below that slot are searched: `alloc_complete_iff` says when
this is as good as a search of all attached pages. A call that has attached a page and finds no room
in it returns `NULL` and keeps the page: `alloc_failure_iff` says when a failed call changes
nothing.
-/

namespace Genesis32

open Word

/-- The page in slot `i` has `b` consecutive free blocks. -/
def HasRoom (m : ByteMem) (mary b i : Nat) : Prop :=
  mothermary m mary i ≠ 0 ∧ ∃ k, blockMarks.FreeRun (m.view (mothermary m mary i)) 124 k b

/-- No attached page has `b` consecutive free blocks. -/
def NoRoom (m : ByteMem) (mary b : Nat) : Prop := ∀ i < 124, ¬ HasRoom m mary b i

/-- If some attached page has room, then one with no empty slot below it has. -/
def RoomInReach (m : ByteMem) (mary b : Nat) : Prop :=
  ∀ i < 124, HasRoom m mary b i → ∃ j < 124, NoEmptySlotBelow m mary j ∧ HasRoom m mary b j

/-- Every entry of the kernel table is taken. -/
def NoFreePage (H : Heap) (m : ByteMem) : Prop :=
  ∀ k < H.table.total, m (H.table.entries + k) ≠ 0x00

/-- The call returns `NULL` only if no attached page has room and no other page can be attached, and
it takes a new page only if no attached page has room. -/
structure CompleteCall (H : Heap) (mary : Nat) (t : Transition CreamState CreamOp) (size : Nat) :
    Prop where
  null : (heapCreamMalloc H t.before.mem mary size).1 = 0 →
    NoRoom t.before.mem mary (blocksFor size) ∧
      (NoEmptySlotBelow t.before.mem mary 124 ∨ NoFreePage H t.before.mem)
  fresh : ∀ i, NewPage mary t i → NoRoom t.before.mem mary (blocksFor size)

variable {P : PageHeap} {mary size : Nat} {s : CreamState} {m : ByteMem} {i k : Nat}

/-! ## The walk -/

/-- `malloc_32` fails for a size that fits in a page exactly when the page has no room. -/
theorem malloc32_null_iff {page : Nat} (hpos : 1 ≤ size) (hsize : size ≤ 3968) :
    (malloc32 m page size).1 = 0 ↔
      ∀ k, ¬ blockMarks.FreeRun (m.view page) 124 k (blocksFor size) := by
  have hblocks : add32 size 31 / 32 = blocksFor size := by
    rw [add32_of_lt (by omega), blocksFor]
  have hb : 0 < blocksFor size := by
    simp only [blocksFor]
    omega
  rcases malloc32_cases m page size with ⟨k, _, hfit, heq⟩ | ⟨heq, hnone⟩
  · rw [hblocks] at hfit
    rw [heq]
    exact ⟨fun h => absurd h (by simp only; omega), fun h => absurd hfit.run (h k)⟩
  · rw [hblocks] at hnone
    rw [heq]
    exact ⟨fun _ => hnone hb, fun _ => rfl⟩

/-- A page that a `Placement` uses has room, and no slot below it is empty. -/
theorem Placement.room_in_reach (h : Placement m mary size i k) :
    NoEmptySlotBelow m mary i ∧ HasRoom m mary (blocksFor size) i :=
  ⟨fun j hj => h.attached j (by omega), h.attached i (by omega), k, h.fit.run⟩

/-- Where the pages below an empty slot are full, no page in reach has room. -/
theorem room_in_reach_iff (hpos : 1 ≤ size) (hsize : size ≤ 3968)
    (hfull : ∀ j < i, (malloc32 m (mothermary m mary j) size).1 = 0)
    (hstop : i = 124 ∨ mothermary m mary i = 0) :
    RoomInReach m mary (blocksFor size) ↔ NoRoom m mary (blocksFor size) := by
  constructor
  · intro hreach j hj hroom
    obtain ⟨l, hl, hbelow, hne, n, hrun⟩ := hreach j hj hroom
    rcases Nat.lt_trichotomy l i with hlt | rfl | hgt
    · exact (malloc32_null_iff hpos hsize).mp (hfull l hlt) n hrun
    · exact hne (hstop.resolve_left (by omega))
    · exact hbelow i hgt (hstop.resolve_left (by omega))
  · exact fun hnone j hj hroom => absurd hroom (hnone j hj)

/-- A call that returns `NULL` without attaching a page has met full pages only, up to the end of
the array or to an empty slot for which there is no page. -/
theorem heap_cream_malloc_gives_up (hpos : 1 ≤ size) (hsize : size ≤ 3968)
    (hnull : (heapCreamMalloc P.toHeap m mary size).1 = 0)
    (hnone : ∀ i page, ¬ Attaches P.toHeap m mary size i page) :
    ∃ i ≤ 124, NoEmptySlotBelow m mary i ∧
      (∀ j < i, (malloc32 m (mothermary m mary j) size).1 = 0) ∧
      (i = 124 ∨ mothermary m mary i = 0 ∧ (kzalloc P.toHeap m 1).1 = 0) := by
  rcases try_pages_cases m mary hsize 124 0 (by omega) (by omega) (by intro j hj; omega) with
    ⟨j, n, _, _, heq⟩ | ⟨j, hj, hbelow, hstop, hfull, heq⟩
  · have hne : mothermary m mary j + (128 + n * 32) ≠ 0 := by omega
    rw [heapCreamMalloc, if_neg (by omega), heq] at hnull
    simp only [hne, ne_eq, not_false_eq_true, if_true] at hnull
  · refine ⟨j, hj, hbelow, fun l hl => hfull l (by omega) hl, ?_⟩
    rcases hstop with hend | hempty
    · exact Or.inl hend
    · rcases Nat.eq_or_lt_of_le hj with hend | hlt
      · exact Or.inl hend
      · refine Or.inr ⟨hempty, ?_⟩
        by_contra hgrant
        exact hnone j _ ⟨hsize, hlt, hbelow, fun l hl => hfull l (by omega) hl, hempty, rfl, hgrant⟩

/-! ## Complete allocation -/

/-- A call over pages that read as zero is complete exactly when room, if there is any, is in
reach. -/
theorem complete_call_iff (h : TwoLevelInv P mary s) (hentries : 0 < P.table.entries)
    (hpos : 1 ≤ size) (hsize : size ≤ 3968) (hzero : PageReadsZero P.toHeap s.mem) :
    CompleteCall P.toHeap mary ⟨s, .malloc size, (CreamOp.malloc size).next P.toHeap mary s⟩ size ↔
      RoomInReach s.mem mary (blocksFor size) := by
  rcases heap_cream_malloc_cases s.mem size h.attached.array with
    ⟨heq, hnone⟩ | ⟨_, i, k, hplace, hb, heq⟩ | ⟨i, k, hattach, hfit, hk, heq⟩
  · -- the call gives up: nothing changes
    obtain ⟨i, _, hbelow, hfull, hstop⟩ :=
      heap_cream_malloc_gives_up hpos hsize (by rw [heq]) hnone
    rw [room_in_reach_iff hpos hsize hfull (hstop.imp_right And.left)]
    constructor
    · exact fun hcall => (hcall.null (by simp only [heq])).1
    · intro hno
      refine ⟨fun _ => ⟨hno, ?_⟩, fun _ _ => hno⟩
      rcases hstop with rfl | ⟨_, hgrant⟩
      · exact Or.inl hbelow
      · exact Or.inr fun k hk => PageHeap.kzalloc_null_taken (by omega) hentries hgrant hk
  · -- the call allocates in a page that it reaches
    obtain ⟨hbelow, hroom⟩ := hplace.room_in_reach
    refine ⟨fun _ _ _ _ => ⟨i, hplace.index, hbelow, hroom⟩, fun _ => ⟨fun hnull => ?_, ?_⟩⟩
    · simp only [heq] at hnull
      omega
    · intro j hnew
      obtain ⟨l, hattach, _⟩ := (new_page_iff h size).mp hnew
      exact absurd hattach (hplace.not_attaches hb)
  · -- the call attaches a page, and that page has room
    obtain ⟨hnew, _⟩ := new_page_of_attaches h hattach
    have hclear := fun {j} => @with_page_clear P mary s i k h hattach.index hfit.run hk hzero j
    have hgranted := (malloc32_of_clear (PageHeap.page_pos k) (fun j hj => hclear hj) hpos hsize).1
    rw [room_in_reach_iff hpos hsize hattach.full (Or.inr hattach.empty)]
    constructor
    · exact fun hcall => hcall.fresh i hnew
    · intro hno
      refine ⟨fun hnull => absurd hnull ?_, fun _ _ => hno⟩
      simp only [heq]
      exact hgranted

/-- Every call of a run for 1 to 3968 bytes, over pages that read as zero, is complete exactly when
some page with room, if there is one, has no empty slot below it. -/
theorem alloc_complete_iff {m₀ m m₁ : ByteMem} {ptr endPtr : Nat} {heapT : HeapTable} {H : Heap}
    (hcreate : heapCreate m₀ ptr endPtr heapT = .ok (H, m))
    (hstart : 0 < ptr) (hlt : ptr < endPtr) (hend : endPtr < 4294967296)
    (hsigned : endPtr - ptr < 2147483648)
    (hentries : 0 < heapT.entries) (htable : heapT.entries + heapT.total ≤ 4294967296)
    (houtside : heapT.entries + heapT.total ≤ ptr ∨ endPtr ≤ heapT.entries)
    {before : List (Transition HeapState HeapOp)} {s₀ : HeapState}
    (hbefore : Run (HeapStep H) ⟨m, []⟩ before s₀)
    (hmary : helpMeMaryMotherOfGod H s₀.mem = (mary, m₁)) (hnull : mary ≠ 0)
    (hempty : ∀ i, i < 124 → mothermary m₁ mary i = 0)
    {trace : List (Transition CreamState CreamOp)} {s : CreamState}
    (hrun : Run (CreamStep H mary) ⟨m₁, [], s₀.live⟩ trace s)
    {t : Transition CreamState CreamOp} (ht : t ∈ trace) (hevent : t.event = .malloc size)
    (hpos : 1 ≤ size) (hsize : size ≤ 3968) (hzero : PageReadsZero H t.before.mem) :
    CompleteCall H mary t size ↔ RoomInReach t.before.mem mary (blocksFor size) := by
  obtain ⟨P, rfl, rfl, hinit⟩ := two_level_start hcreate hstart hlt hend hsigned htable houtside
    hbefore hmary hnull hempty
  obtain ⟨hinv, _, hafter⟩ := hrun.of_mem (fun _ _ _ h hstep => h.step hstep) hinit t ht
  obtain ⟨before, event, after⟩ := t
  obtain rfl : event = .malloc size := hevent
  simp only at hinv hafter hzero ⊢
  rw [hafter]
  exact complete_call_iff hinv hentries hpos hsize hzero

/-- A page full of one block, a page with a block of 100 bytes, and the first block freed: slot 0 is
empty, and the page in slot 1 has room. -/
def roomBehindHole : List BlockCall :=
  thenMalloc (thenMalloc [] 0x1001000 3968) 0x1002000 100 ++ [.free 0x1001080]

/-- The next block of 100 bytes takes a page of its own. -/
theorem room_behind_hole_missed : ∃ trace s,
    Run (BlockStep smallHeap smallMary.1) ⟨smallMary.2, [], []⟩ trace s ∧
    PageReadsZero smallHeap s.mem ∧
    ¬ CompleteCall smallHeap smallMary.1
      ⟨s, .malloc 100, (CreamOp.malloc 100).next smallHeap smallMary.1 s⟩ 100 := by
  have hnone : CallsRun [] := ⟨[], .nil⟩
  have hone : CallsRun (thenMalloc [] 0x1001000 3968) :=
    hnone.malloc (by omega) (by decide +kernel) (by decide)
  have htwo : CallsRun (thenMalloc (thenMalloc [] 0x1001000 3968) 0x1002000 100) :=
    hone.malloc (by omega) (by decide +kernel) (by decide)
  have hfree : CallsRun roomBehindHole := htwo.snoc ⟨⟨0x1001080, 3968⟩, by decide +kernel, rfl⟩
  obtain ⟨⟨trace, hrun⟩, hzero⟩ := hfree.clear (show _ = 0x1001000 by decide +kernel) (by decide)
  refine ⟨trace, _, hrun, hzero, fun hcall => ?_⟩
  obtain ⟨hempty, hfilled, hslot, hroom⟩ :
      mothermary (afterCalls (thenClear roomBehindHole 0x1001000)).mem smallMary.1 0 = 0 ∧
      mothermary ((CreamOp.malloc 100).next smallHeap smallMary.1
        (afterCalls (thenClear roomBehindHole 0x1001000))).mem smallMary.1 0 ≠ 0 ∧
      mothermary (afterCalls (thenClear roomBehindHole 0x1001000)).mem smallMary.1 1 ≠ 0 ∧
      ∀ j < 4, (afterCalls (thenClear roomBehindHole 0x1001000)).mem
        (mothermary (afterCalls (thenClear roomBehindHole 0x1001000)).mem smallMary.1 1 +
          (4 + j)) = 0x00 := by
    decide +kernel
  exact hcall.fresh 0 ⟨by decide, hempty, hfilled⟩ 1 (by decide) ⟨hslot, 4, by decide, hroom⟩

/-- Behind the kernel table the small heap starts with zeros. -/
theorem small_mary_zero {x : Nat} (hx : 0x7e08 ≤ x) : smallMary.2 x = 0x00 := by
  have hclear : ∀ x, memset (fun _ => 0x00) 0x7e00 0x00 8 x = 0x00 := by
    intro x
    rw [memset_eq_fill]
    simp [ByteMem.fill]
  unfold smallMary helpMeMaryMotherOfGod
  rcases PageHeap.kzalloc_cases (P := smallPageHeap) (memset (fun _ => 0x00) 0x7e00 0x00 8)
    (show 1 < 4294967296 by decide) with ⟨k, _, _, hfit, heq⟩ | heq
  · have hbound : k + pagesFor 1 ≤ 8 := hfit.run.bound
    rw [show kzalloc smallHeap _ 1 = _ from heq]
    simp only [ByteMem.fill]
    split_ifs
    · rfl
    · rw [Marks.put_outside (Or.inr ?_)]
      · exact hclear x
      · show 0x7e00 + k + pagesFor 1 ≤ x
        omega
  · rw [show kzalloc smallHeap _ 1 = _ from heq]
    exact hclear x

/-- The first block of 100 bytes on the small heap. -/
theorem alloc_complete_iff_small_heap :
    CompleteCall smallHeap smallMary.1 ⟨⟨smallMary.2, [], []⟩, .malloc 100,
        (CreamOp.malloc 100).next smallHeap smallMary.1 ⟨smallMary.2, [], []⟩⟩ 100 ↔
      RoomInReach smallMary.2 smallMary.1 (blocksFor 100) := by
  have hrun : Run (CreamStep smallHeap smallMary.1) ⟨smallMary.2, [], []⟩
      [⟨⟨smallMary.2, [], []⟩, .malloc 100,
        (CreamOp.malloc 100).next smallHeap smallMary.1 ⟨smallMary.2, [], []⟩⟩]
      ((CreamOp.malloc 100).next smallHeap smallMary.1 ⟨smallMary.2, [], []⟩) :=
    .snoc .nil ⟨show 100 < 4294967296 by decide, rfl⟩
  have hzero : PageReadsZero smallHeap smallMary.2 :=
    page_reads_zero_of_clear (P := smallPageHeap) (show _ = 0x1001000 by decide +kernel)
      fun j _ => small_mary_zero (by omega)
  exact alloc_complete_iff (small_heap_create fun _ => 0) (by decide) (by decide) (by decide)
    (by decide) (by decide) (by decide) (by decide) .nil (small_mary_eq _ rfl) small_mary_ne
    small_slots_empty hrun (List.mem_singleton.mpr rfl) rfl (by decide) (by decide) hzero

/-! ## Failed allocation -/

/-- If the call returns `NULL`, the array, the tables of the attached pages and the kernel table are
as they were. -/
def FailureKeepsTables (H : Heap) (mary : Nat) (t : Transition CreamState CreamOp) : Prop :=
  ∀ size, t.event = .malloc size → (heapCreamMalloc H t.before.mem mary size).1 = 0 →
    KeepsTables H mary t.before.mem t.after.mem

/-- The table of a page when it is attached: `kzalloc(1)` clears its first byte. -/
def attachedTable (m : ByteMem) (page : Nat) : ByteMem :=
  fun j => if j = 0 then 0x00 else m (page + j)

/-- A page that the call has to attach has room for the size. -/
def NewPageHasRoom (H : Heap) (mary : Nat) (t : Transition CreamState CreamOp) : Prop :=
  ∀ size i page, t.event = .malloc size → Attaches H t.before.mem mary size i page →
    1 ≤ size ∧ ∃ k, blockMarks.FreeRun (attachedTable t.before.mem page) 124 k (blocksFor size)

/-- A call that returns `NULL` keeps the tables exactly when a page that it has to attach has
room. -/
theorem failure_keeps_iff (h : TwoLevelInv P mary s) (size : Nat) :
    FailureKeepsTables P.toHeap mary
        ⟨s, .malloc size, (CreamOp.malloc size).next P.toHeap mary s⟩ ↔
      NewPageHasRoom P.toHeap mary
        ⟨s, .malloc size, (CreamOp.malloc size).next P.toHeap mary s⟩ := by
  have hmem : ((CreamOp.malloc size).next P.toHeap mary s).mem =
      (heapCreamMalloc P.toHeap s.mem mary size).2 := rfl
  have hsame : ∀ size', (CreamOp.malloc size = .malloc size') → size' = size :=
    fun size' heq => (CreamOp.malloc.inj heq).symm
  rcases heap_cream_malloc_cases s.mem size h.attached.array with
    ⟨heq, hnone⟩ | ⟨_, i, k, hplace, hb, heq⟩ | ⟨i, k, hattach, hfit, hk, heq⟩
  · refine ⟨fun _ size' i page hevent hattach => ?_, fun _ size' hevent _ => ?_⟩
    · obtain rfl := hsame _ hevent
      exact absurd hattach (hnone i page)
    · rw [hmem, heq]
      exact ⟨fun _ _ _ => rfl, fun _ _ _ => rfl, fun _ _ _ _ _ => rfl⟩
  · refine ⟨fun _ size' j page hevent hattach => ?_, fun _ size' hevent hnull => ?_⟩
    · obtain rfl := hsame _ hevent
      exact absurd hattach (hplace.not_attaches hb)
    · obtain rfl := hsame _ hevent
      simp only [heq] at hnull
      omega
  · -- the table in which `malloc_32` searches is the one that the condition speaks about
    have htable : ∀ j < 124, attachedTable s.mem (P.page k) j =
        (withPage P s.mem mary i k).view (P.page k) j := by
      intro j hj
      rw [ByteMem.view_apply, with_page_table h hattach.index hfit.run hj, attachedTable]
    have hblocks : add32 size 31 / 32 = blocksFor size := by
      have := hattach.limit
      rw [add32_of_lt (by omega), blocksFor]
    rcases malloc32_cases (withPage P s.mem mary i k) (P.page k) size with
      ⟨n, hb, hfit', heq'⟩ | ⟨heq', hnone⟩
    · rw [hblocks] at hb hfit'
      refine ⟨fun _ size' j page hevent hattach' => ?_, fun _ size' hevent hnull => ?_⟩
      · obtain rfl := hsame _ hevent
        obtain ⟨_, rfl⟩ := hattach.unique hattach'
        refine ⟨?_, n, hfit'.run.congr htable⟩
        simp only [blocksFor] at hb
        omega
      · obtain rfl := hsame _ hevent
        simp only [heq, heq'] at hnull
        omega
    · rw [hblocks] at hnone
      constructor
      · -- the page stays in its slot
        intro hkeeps
        have htables := hkeeps size rfl (by simp only [heq, heq'])
        obtain ⟨hnew, _⟩ := new_page_of_attaches h hattach
        exact absurd ((htables.slot hnew.index).trans hnew.before) hnew.after
      · intro hroom
        obtain ⟨hpos, n, hrun⟩ := hroom size i _ rfl hattach
        refine absurd (hrun.congr fun j hj => (htable j hj).symm) (hnone ?_ n)
        simp only [blocksFor]
        omega

/-- Only calls of `heap_cream_malloc` are spoken about. -/
theorem other_call_iff {H : Heap} {t : Transition CreamState CreamOp}
    (h : ∀ size, t.event ≠ .malloc size) :
    FailureKeepsTables H mary t ↔ NewPageHasRoom H mary t :=
  ⟨fun _ size _ _ hevent => absurd hevent (h size), fun _ size hevent => absurd hevent (h size)⟩

/-- In every run a call that returns `NULL` leaves the array, the tables of the attached pages and
the kernel table as they were, exactly when a page that it has to attach has room for it. -/
theorem alloc_failure_iff {m₀ m m₁ : ByteMem} {ptr endPtr : Nat} {heapT : HeapTable} {H : Heap}
    (hcreate : heapCreate m₀ ptr endPtr heapT = .ok (H, m))
    (hstart : 0 < ptr) (hlt : ptr < endPtr) (hend : endPtr < 4294967296)
    (hsigned : endPtr - ptr < 2147483648)
    (htable : heapT.entries + heapT.total ≤ 4294967296)
    (houtside : heapT.entries + heapT.total ≤ ptr ∨ endPtr ≤ heapT.entries)
    {before : List (Transition HeapState HeapOp)} {s₀ : HeapState}
    (hbefore : Run (HeapStep H) ⟨m, []⟩ before s₀)
    (hmary : helpMeMaryMotherOfGod H s₀.mem = (mary, m₁)) (hnull : mary ≠ 0)
    (hempty : ∀ i, i < 124 → mothermary m₁ mary i = 0)
    {trace : List (Transition CreamState CreamOp)} {s : CreamState}
    (hrun : Run (CreamStep H mary) ⟨m₁, [], s₀.live⟩ trace s)
    {t : Transition CreamState CreamOp} (ht : t ∈ trace) :
    FailureKeepsTables H mary t ↔ NewPageHasRoom H mary t := by
  obtain ⟨P, rfl, _, hinit⟩ := two_level_start hcreate hstart hlt hend hsigned htable houtside
    hbefore hmary hnull hempty
  obtain ⟨hinv, _, hafter⟩ := hrun.of_mem (fun _ _ _ h hstep => h.step hstep) hinit t ht
  obtain ⟨before, event, after⟩ := t
  simp only at hinv hafter
  subst hafter
  cases event with
  | malloc size => exact failure_keeps_iff hinv size
  | free ptr => exact other_call_iff fun _ h => by cases h
  | page op => exact other_call_iff fun _ h => by cases h
  | write addr value => exact other_call_iff fun _ h => by cases h

/-- A call for no bytes on the small heap returns `NULL` and keeps a page. -/
theorem empty_request_keeps_page : ∃ s,
    Run (CreamStep smallHeap smallMary.1) ⟨smallMary.2, [], []⟩
      [⟨⟨smallMary.2, [], []⟩, .malloc 0, s⟩] s ∧
    (heapCreamMalloc smallHeap smallMary.2 smallMary.1 0).1 = 0 ∧
    ¬ KeepsTables smallHeap smallMary.1 smallMary.2 s.mem := by
  refine ⟨(CreamOp.malloc 0).next smallHeap smallMary.1 ⟨smallMary.2, [], []⟩,
    .snoc .nil ⟨show 0 < 4294967296 by decide, rfl⟩, by decide +kernel, fun hkeeps => ?_⟩
  have hslot : mothermary ((CreamOp.malloc 0).next smallHeap smallMary.1
      ⟨smallMary.2, [], []⟩).mem smallMary.1 0 = 0x1001000 := by
    decide +kernel
  rw [hkeeps.slot (by decide), small_slots_empty 0 (by decide)] at hslot
  exact absurd hslot (by decide)

/-- A block that fills a page, a size that no page has room for, and a request for no bytes. -/
def failingCalls : List CreamOp := [.malloc 3968, .malloc 5000, .malloc 0]

/-- The calls of `failingCalls` on the small heap: the last two of them return `NULL`, and the last
one attaches a page. -/
theorem alloc_failure_iff_full_page :
    let start : CreamState := ⟨smallMary.2, [], []⟩
    (∀ t ∈ transitions (CreamOp.next smallHeap smallMary.1) start failingCalls,
      (FailureKeepsTables smallHeap smallMary.1 t ↔ NewPageHasRoom smallHeap smallMary.1 t)) ∧
    (transitions (CreamOp.next smallHeap smallMary.1) start failingCalls).map
      (fun t => (t.after.blocks, mothermary t.after.mem smallMary.1 1)) =
        [([⟨0x1001080, 3968⟩], 0), ([⟨0x1001080, 3968⟩], 0),
          ([⟨0x1001080, 3968⟩], 0x1002000)] := by
  intro start
  have hadmissible : ∀ op ∈ failingCalls, ∀ s : CreamState, op.Admissible s := by
    simp [failingCalls, CreamOp.Admissible]
  have hrun : Run (CreamStep smallHeap smallMary.1) start
      (transitions (CreamOp.next smallHeap smallMary.1) start failingCalls)
      (failingCalls.foldl (CreamOp.next smallHeap smallMary.1) start) :=
    .of_transitions fun x hx => by
      obtain ⟨hevent, hafter⟩ := mem_transitions x hx
      exact ⟨hadmissible _ hevent x.before, hafter⟩
  refine ⟨fun t ht => ?_, by decide +kernel⟩
  exact alloc_failure_iff (small_heap_create fun _ => 0) (by decide) (by decide) (by decide)
    (by decide) (by decide) (by decide) .nil (small_mary_eq _ rfl) small_mary_ne
    small_slots_empty hrun ht

end Genesis32
