import Genesis32.Heap.TwoLevel

/-!
# What a fresh page holds

`help_me_mary_mother_of_god` and `heap_cream_malloc` ask `kzalloc` for a page with the size 1, and
`kzalloc` clears as many bytes as it was asked for. The rest of the array, and the rest of the table
of a page that `heap_cream_malloc` attaches, are what was in memory before. `fresh_pages_iff` says
what memory has to hold for the array and the tables to start empty.
-/

namespace Genesis32

/-- The memory of `heap_cream_malloc` when a page has been attached in slot `i`, before `malloc_32`
allocates in it. -/
def attachedMem (H : Heap) (m : ByteMem) (mary i : Nat) : ByteMem :=
  match kzalloc H m 1 with
  | (page, m) => tableGuardSet (setMothermary m mary i page) page

/-- The call attaches a page in slot `i`. -/
structure NewPage (mary : Nat) (t : Transition CreamState CreamOp) (i : Nat) : Prop where
  index : i < 124
  before : mothermary t.before.mem mary i = 0
  after : mothermary t.after.mem mary i ≠ 0

/-- A page that the call attaches starts with all its blocks free, and the call returns a block in
it. -/
def StartsFree (H : Heap) (mary : Nat) (t : Transition CreamState CreamOp) : Prop :=
  ∀ size i, t.event = .malloc size → NewPage mary t i →
    (∀ j < 124, attachedMem H t.before.mem mary i (mothermary t.after.mem mary i + j) = 0x00) ∧
    (1 ≤ size → (heapCreamMalloc H t.before.mem mary size).1 ≠ 0 ∧
      inPage (mothermary t.after.mem mary i) (heapCreamMalloc H t.before.mem mary size).1 = true)

/-- If the call has to attach a page, the entries behind the first in the table of that page are
zero before the call. -/
def WasClear (H : Heap) (mary : Nat) (t : Transition CreamState CreamOp) : Prop :=
  ∀ size i page, t.event = .malloc size → Attaches H t.before.mem mary size i page →
    ∀ j, 1 ≤ j → j < 124 → t.before.mem (page + j) = 0x00

variable {P : PageHeap} {mary : Nat} {s : CreamState} {i k : Nat}

/-! ## Attached pages -/

/-- Outside the page that it allocates in, `malloc_32` changes nothing. -/
theorem malloc32_outside (m : ByteMem) (page size : Nat) {x : Nat}
    (hx : ¬ (⟨page, 1⟩ : Allocation).Covers x) : (malloc32 m page size).2 x = m x := by
  simp only [Allocation.Covers, pages_for_one] at hx
  rcases malloc32_cases m page size with ⟨l, hpos, hfit, heq⟩ | ⟨heq, _⟩
  · have hbound := hfit.run.bound
    rw [heq]
    exact Marks.put_outside (by omega)
  · rw [heq]

/-- A byte of the table of a page when it is attached. -/
theorem with_page_table (h : TwoLevelInv P mary s) (hi : i < 124)
    (hrun : blockMarks.FreeRun (P.tableOf s.mem) P.table.total k 1) {j : Nat} (hj : j < 124) :
    withPage P s.mem mary i k (P.page k + j) =
      if j = 0 then 0x00 else s.mem (P.page k + j) := by
  have hrun' : blockMarks.FreeRun (P.tableOf s.mem) P.table.total k (pagesFor 1) := by
    rw [pages_for_one]
    exact hrun
  have hcov : (⟨P.page k, 1⟩ : Allocation).Covers (P.page k + j) := by
    simp only [Allocation.Covers, pages_for_one]
    omega
  have hmary : ¬ (⟨mary, 1⟩ : Allocation).Covers (P.page k + j) := by
    have hapart : (⟨mary, 1⟩ : Allocation).Apart ⟨P.page k, 1⟩ :=
      h.attached.array.apart_free hrun' (by rw [pages_for_one]; omega) rfl
    exact fun hx => hapart _ hx hcov
  have hnew : P.Owns (blockMarks.put s.mem (P.table.entries + k) 1) ⟨P.page k, 1⟩ := by
    have := PageHeap.owns_marked (a := ⟨P.page k, 1⟩) hrun' (by rw [pages_for_one]; omega) rfl
    rwa [pages_for_one] at this
  have htable := PageHeap.not_in_table_of_in_pages (hnew.in_pages hcov)
  have hbound := hrun.bound
  simp only [PageHeap.InTable] at htable
  rw [withPage, table_guard_set_eq, ByteMem.fill_outside (by omega),
    set_mothermary_outside hi hmary]
  split_ifs with hzero
  · exact ByteMem.fill_inside (by omega) (by omega)
  · rw [ByteMem.fill_outside (by omega), Marks.put_outside (by omega)]

/-- A block in a page that is attached already leaves the array as it was. -/
theorem place_slots (h : TwoLevelInv P mary s) {size l : Nat}
    (hplace : Placement s.mem mary size l k) {j : Nat} (hj : j < 124) :
    mothermary (blockMarks.put s.mem (mothermary s.mem mary l + k) (blocksFor size)) mary j =
      mothermary s.mem mary j := by
  refine h.attached.mothermary_of_page hplace.index (hplace.attached l (by omega))
    (fun x hx => ?_) hj
  have hbound := hplace.fit.run.bound
  simp only [Allocation.Covers, pagesFor] at hx
  exact Marks.put_outside (by omega)

/-- A call that attaches a page sets its slot and no other. -/
theorem attach_slots (h : TwoLevelInv P mary s) {size l : Nat}
    (hattach : Attaches P.toHeap s.mem mary size l (P.page k))
    (hrun : blockMarks.FreeRun (P.tableOf s.mem) P.table.total k 1) {j : Nat} (hj : j < 124) :
    mothermary (malloc32 (withPage P s.mem mary l k) (P.page k) size).2 mary j =
      if l = j then P.page k else mothermary s.mem mary j := by
  obtain ⟨hslot, hinv⟩ := h.attach hattach.index hattach.empty hrun
  have hpage : mothermary (withPage P s.mem mary l k) mary l ≠ 0 := by
    rw [hslot]
    exact hattach.granted
  rw [← h.with_page_slots hrun hj]
  refine hinv.attached.mothermary_of_page hattach.index hpage (fun x hx => ?_) hj
  rw [hslot] at hx
  exact malloc32_outside _ _ _ hx

/-- The first empty slot is the only one for which a page can be attached. -/
theorem Attaches.unique {H : Heap} {m : ByteMem} {size page i' page' : Nat}
    (h : Attaches H m mary size i page) (h' : Attaches H m mary size i' page') :
    i = i' ∧ page = page' := by
  refine ⟨?_, h.fresh.symm.trans h'.fresh⟩
  rcases Nat.lt_trichotomy i i' with hlt | heq | hgt
  · exact absurd h.empty (h'.below i hlt)
  · exact heq
  · exact absurd h'.empty (h.below i' hgt)

/-- An attached page with room keeps the call from attaching another. -/
theorem Placement.not_attaches {H : Heap} {m : ByteMem} {size l page : Nat}
    (hplace : Placement m mary size l k) (hpos : 0 < blocksFor size) :
    ¬ Attaches H m mary size i page := by
  intro hattach
  have hli : l < i := by
    by_contra hle
    exact hplace.attached i (by omega) hattach.empty
  have hsize := hattach.limit
  have hblocks : Word.add32 size 31 / 32 = blocksFor size := by
    rw [Word.add32_of_lt (by omega), blocksFor]
  have hnull := hattach.full l hli
  rcases malloc32_cases m (mothermary m mary l) size with ⟨n, _, _, heq⟩ | ⟨_, hnone⟩
  · rw [heq] at hnull
    simp only at hnull
    omega
  · rw [hblocks] at hnone
    exact hnone hpos k hplace.fit.run

/-- The slots that a call fills are those for which the state before has a page to attach, and the
call allocates in that page. -/
theorem new_page_iff (h : TwoLevelInv P mary s) (size : Nat) :
    NewPage mary ⟨s, .malloc size, (CreamOp.malloc size).next P.toHeap mary s⟩ i ↔
      ∃ k, Attaches P.toHeap s.mem mary size i (P.page k) ∧
        blockMarks.FreeRun (P.tableOf s.mem) P.table.total k 1 ∧
        mothermary ((CreamOp.malloc size).next P.toHeap mary s).mem mary i = P.page k ∧
        attachedMem P.toHeap s.mem mary i = withPage P s.mem mary i k ∧
        heapCreamMalloc P.toHeap s.mem mary size =
          malloc32 (withPage P s.mem mary i k) (P.page k) size := by
  have hmem : ((CreamOp.malloc size).next P.toHeap mary s).mem =
      (heapCreamMalloc P.toHeap s.mem mary size).2 := rfl
  constructor
  · intro hall
    obtain ⟨hi, hbefore, hafter⟩ := hall
    simp only [hmem] at hafter ⊢
    rcases heap_cream_malloc_cases s.mem size h.attached.array with
      ⟨heq, _⟩ | ⟨_, j, k, hplace, _, heq⟩ | ⟨j, k, hattach, hfit, hk, heq⟩
    · rw [heq] at hafter
      exact absurd hbefore hafter
    · rw [heq, place_slots h hplace hi] at hafter
      exact absurd hbefore hafter
    · have hset := attach_slots h hattach hfit.run hi
      have hji : j = i := by
        by_contra hji
        rw [heq, hset, if_neg hji] at hafter
        exact hafter hbefore
      subst hji
      refine ⟨k, hattach, hfit.run, by rw [heq, hset, if_pos rfl], ?_, heq⟩
      rw [attachedMem, hk]
      rfl
  · intro hall
    obtain ⟨k, hattach, _, hafter, _, _⟩ := hall
    refine ⟨hattach.index, hattach.empty, ?_⟩
    simp only [hafter]
    exact hattach.granted

/-- A state before with a page to attach leads to a call that attaches it. -/
theorem new_page_of_attaches (h : TwoLevelInv P mary s) {size page : Nat}
    (hattach : Attaches P.toHeap s.mem mary size i page) :
    NewPage mary ⟨s, .malloc size, (CreamOp.malloc size).next P.toHeap mary s⟩ i ∧
      mothermary ((CreamOp.malloc size).next P.toHeap mary s).mem mary i = page := by
  have hmem : ((CreamOp.malloc size).next P.toHeap mary s).mem =
      (heapCreamMalloc P.toHeap s.mem mary size).2 := rfl
  rcases heap_cream_malloc_cases s.mem size h.attached.array with
    ⟨_, hnone⟩ | ⟨_, j, k, hplace, hpos, _⟩ | ⟨j, k, hattach', hfit, _, heq⟩
  · exact absurd hattach (hnone i page)
  · exact absurd hattach (hplace.not_attaches hpos)
  · obtain ⟨rfl, rfl⟩ := hattach'.unique hattach
    have hset := attach_slots h hattach' hfit.run hattach'.index
    rw [if_pos rfl] at hset
    refine ⟨⟨hattach.index, hattach.empty, ?_⟩, ?_⟩
    · simp only [hmem, heq, hset]
      exact hattach.granted
    · rw [hmem, heq, hset]

/-! ## Clear tables -/

/-- A page whose table is zero has room for every size up to 3968. -/
theorem malloc32_of_clear {m : ByteMem} {page size : Nat} (hpage : 0 < page)
    (hclear : ∀ j < 124, m (page + j) = 0x00) (hpos : 1 ≤ size) (hsize : size ≤ 3968) :
    (malloc32 m page size).1 ≠ 0 ∧ inPage page (malloc32 m page size).1 = true := by
  have hblocks : Word.add32 size 31 / 32 = blocksFor size := by
    rw [Word.add32_of_lt (by omega), blocksFor]
  have hle : 0 < blocksFor size ∧ blocksFor size ≤ 124 := by
    simp only [blocksFor]
    omega
  rcases malloc32_cases m page size with ⟨k, _, hfit, heq⟩ | ⟨_, hnone⟩
  · have hbound := hfit.run.bound
    rw [hblocks] at hbound
    rw [heq]
    refine ⟨by simp only; omega, ?_⟩
    simp only [inPage, decide_eq_true_eq]
    omega
  · rw [hblocks] at hnone
    refine absurd ⟨by omega, fun j hj => ?_⟩ (hnone hle.1 0)
    rw [ByteMem.view_apply, Nat.zero_add]
    exact hclear j (by omega)

/-- A page starts with all its blocks free exactly when its table, behind the first byte, was
clear. -/
theorem starts_free_iff (h : TwoLevelInv P mary s) {op : CreamOp} {s' : CreamState}
    (hstep : CreamStep P.toHeap mary s op s') :
    StartsFree P.toHeap mary ⟨s, op, s'⟩ ↔ WasClear P.toHeap mary ⟨s, op, s'⟩ := by
  obtain ⟨_, rfl⟩ := hstep
  constructor
  · rintro hfree size i page rfl hattach j hl hh
    obtain ⟨hnew, hpage⟩ := new_page_of_attaches h hattach
    obtain ⟨k, _, hrun, hafter, hmem, _⟩ := (new_page_iff h size).mp hnew
    have hentry := (hfree size i rfl hnew).1 j hh
    rw [hafter] at hpage
    subst hpage
    simp only [hmem, hafter] at hentry
    rwa [with_page_table h hnew.index hrun hh, if_neg (by omega)] at hentry
  · rintro hclear size i rfl hnew
    obtain ⟨k, hattach, hrun, hafter, hmem, heq⟩ := (new_page_iff h size).mp hnew
    have htable : ∀ j < 124, withPage P s.mem mary i k (P.page k + j) = 0x00 := by
      intro j hj
      rw [with_page_table h hnew.index hrun hj]
      split_ifs with hzero
      · rfl
      · exact hclear size i _ rfl hattach j (by omega) hj
    simp only [hmem, hafter, heq]
    exact ⟨htable, fun hpos => malloc32_of_clear (PageHeap.page_pos k) htable hpos hattach.limit⟩

/-! ## The array -/

/-- All slots are empty after `help_me_mary_mother_of_god` exactly when the bytes of the array,
behind the first, were zero before. -/
theorem slots_empty_iff {m₀ m : ByteMem}
    (hmary : helpMeMaryMotherOfGod P.toHeap m₀ = (mary, m)) (hnull : mary ≠ 0) :
    (∀ i < 124, mothermary m mary i = 0) ↔ ∀ j, 1 ≤ j → j < 496 → m₀ (mary + j) = 0x00 := by
  rcases PageHeap.kzalloc_cases (P := P) m₀ (show 1 < 4294967296 by omega) with
    ⟨k, _, _, hfit, heq⟩ | heq
  swap
  · rw [helpMeMaryMotherOfGod, heq] at hmary
    exact absurd (congrArg Prod.fst hmary).symm hnull
  rw [helpMeMaryMotherOfGod, heq] at hmary
  obtain ⟨rfl, rfl⟩ := Prod.mk.inj hmary
  have hbyte : ∀ j < 496, (ByteMem.fill (blockMarks.put m₀ (P.table.entries + k) (pagesFor 1))
      (P.page k) 1 0x00) (P.page k + j) = if j = 0 then 0x00 else m₀ (P.page k + j) := by
    intro j hj
    have hpages : P.InPages (P.page k + j) := by
      have := PageHeap.page_bound (P := P) hfit.run.bound
      have := P.endEq
      simp only [PageHeap.InPages, PageHeap.page, pagesFor] at *
      omega
    have htable := PageHeap.not_in_table_of_in_pages hpages
    have hbound := hfit.run.bound
    simp only [PageHeap.InTable] at htable
    split_ifs with hzero
    · exact ByteMem.fill_inside (by omega) (by omega)
    · rw [ByteMem.fill_outside (by omega), Marks.put_outside (by omega)]
  constructor
  · intro hslots j hl hh
    have hslot := ByteMem.word32_eq_zero_iff.mp (hslots (j / 4) (by omega)) (j % 4) (by omega)
    rw [Nat.add_assoc, Nat.div_add_mod, hbyte j hh, if_neg (by omega)] at hslot
    exact hslot
  · intro hclear i hi
    refine ByteMem.word32_eq_zero_iff.mpr fun l hl => ?_
    rw [Nat.add_assoc, hbyte _ (by omega)]
    split_ifs with hzero
    · rfl
    · exact hclear _ (by omega) (by omega)

/-- Whatever RAM held and however the heaps were used, the array starts empty, and every page that
`heap_cream_malloc` attaches starts with all its blocks free and yields a block, exactly when the
bytes that `kzalloc` does not clear were zero already. -/
theorem fresh_pages_iff {m₀ m m₁ : ByteMem} {ptr endPtr : Nat} {heapT : HeapTable} {H : Heap}
    (hcreate : heapCreate m₀ ptr endPtr heapT = .ok (H, m))
    (hstart : 0 < ptr) (hlt : ptr < endPtr) (hend : endPtr < 4294967296)
    (hsigned : endPtr - ptr < 2147483648)
    (htable : heapT.entries + heapT.total ≤ 4294967296)
    (houtside : heapT.entries + heapT.total ≤ ptr ∨ endPtr ≤ heapT.entries)
    {before : List (Transition HeapState HeapOp)} {s₀ : HeapState}
    (hbefore : Run (HeapStep H) ⟨m, []⟩ before s₀)
    (hmary : helpMeMaryMotherOfGod H s₀.mem = (mary, m₁)) (hnull : mary ≠ 0)
    {trace : List (Transition CreamState CreamOp)} {s : CreamState}
    (hrun : Run (CreamStep H mary) ⟨m₁, [], s₀.live⟩ trace s) :
    ((∀ i < 124, mothermary m₁ mary i = 0) ∧ ∀ t ∈ trace, StartsFree H mary t) ↔
      (∀ j, 1 ≤ j → j < 496 → s₀.mem (mary + j) = 0x00) ∧ ∀ t ∈ trace, WasClear H mary t := by
  obtain ⟨P, rfl, hH, rfl⟩ :=
    PageHeap.of_heap_create hcreate hstart hlt hend hsigned htable houtside
  have hcleared : HeapInv P ⟨m₀.fill heapT.entries heapT.total 0x00, []⟩ := by
    have := HeapInv.cleared P m₀
    rwa [show P.table = heapT from congrArg Heap.table hH] at this
  have hheap : HeapInv P s₀ := hbefore.invariant (fun _ _ _ h hstep => h.step hstep) hcleared
  rw [slots_empty_iff hmary hnull]
  refine and_congr_right fun hclear => forall₂_congr fun t ht => ?_
  -- once the array is empty, every step starts in a state with the invariant
  have hinit : TwoLevelInv P mary ⟨m₁, [], s₀.live⟩ :=
    two_level_init hheap hmary hnull ((slots_empty_iff hmary hnull).mpr hclear)
  obtain ⟨hinv, hstep⟩ := hrun.of_mem (fun _ _ _ h hstep => h.step hstep) hinit t ht
  exact starts_free_iff hinv hstep

/-- A block of 100 bytes on the small heap, over RAM that is zero. -/
theorem fresh_pages_iff_small_heap :
    ((∀ i < 124, mothermary smallMary.2 smallMary.1 i = 0) ∧
      StartsFree smallHeap smallMary.1 ⟨⟨smallMary.2, [], []⟩, .malloc 100,
        (CreamOp.malloc 100).next smallHeap smallMary.1 ⟨smallMary.2, [], []⟩⟩) ↔
      (∀ j, 1 ≤ j → j < 496 → memset (fun _ => 0) 0x7e00 0x00 8 (smallMary.1 + j) = 0x00) ∧
        WasClear smallHeap smallMary.1 ⟨⟨smallMary.2, [], []⟩, .malloc 100,
          (CreamOp.malloc 100).next smallHeap smallMary.1 ⟨smallMary.2, [], []⟩⟩ := by
  have hrun : Run (CreamStep smallHeap smallMary.1) ⟨smallMary.2, [], []⟩
      [⟨⟨smallMary.2, [], []⟩, .malloc 100,
        (CreamOp.malloc 100).next smallHeap smallMary.1 ⟨smallMary.2, [], []⟩⟩]
      ((CreamOp.malloc 100).next smallHeap smallMary.1 ⟨smallMary.2, [], []⟩) :=
    .snoc .nil ⟨show 100 < 4294967296 by decide, rfl⟩
  have := fresh_pages_iff (small_heap_create fun _ => 0) (by decide) (by decide) (by decide)
    (by decide) (by decide) (by decide) .nil (small_mary_eq _ rfl) (by decide +kernel) hrun
  simpa only [List.mem_singleton, forall_eq] using this

/-- RAM that is zero except for the table of the second page. -/
def dirtyPageRam : ByteMem := ByteMem.fill (fun _ => 0x00) 0x1001000 124 0xff

/-- The array and the memory after `help_me_mary_mother_of_god` on the small heap, over that RAM. -/
def dirtyMary : Nat × ByteMem :=
  helpMeMaryMotherOfGod smallHeap (memset dirtyPageRam 0x7e00 0x00 8)

/-- Over RAM full of `0xff` the first slot is not empty. Over RAM with a dirty second page all slots
are, and `heap_cream_malloc` attaches that page, finds no free block in it and returns `NULL`. -/
theorem dirty_ram_not_fresh :
    (helpMeMaryMotherOfGod smallHeap (memset (fun _ => 0xff) 0x7e00 0x00 8)).1 = 0x1000000 ∧
    mothermary (helpMeMaryMotherOfGod smallHeap (memset (fun _ => 0xff) 0x7e00 0x00 8)).2
      0x1000000 0 ≠ 0 ∧
    dirtyMary.1 = 0x1000000 ∧ mothermary dirtyMary.2 0x1000000 0 = 0 ∧
    mothermary ((CreamOp.malloc 3968).next smallHeap 0x1000000 ⟨dirtyMary.2, [], []⟩).mem
      0x1000000 0 = 0x1001000 ∧
    (heapCreamMalloc smallHeap dirtyMary.2 0x1000000 3968).1 = 0 ∧
    ¬ StartsFree smallHeap 0x1000000 ⟨⟨dirtyMary.2, [], []⟩, .malloc 3968,
      (CreamOp.malloc 3968).next smallHeap 0x1000000 ⟨dirtyMary.2, [], []⟩⟩ := by
  have hempty : mothermary dirtyMary.2 0x1000000 0 = 0 := by decide +kernel
  have hslot : mothermary
      ((CreamOp.malloc 3968).next smallHeap 0x1000000 ⟨dirtyMary.2, [], []⟩).mem 0x1000000 0 =
        0x1001000 := by decide +kernel
  have hnull : (heapCreamMalloc smallHeap dirtyMary.2 0x1000000 3968).1 = 0 := by decide +kernel
  refine ⟨by decide +kernel, by decide +kernel, by decide +kernel, hempty, hslot, hnull,
    fun hfree => ?_⟩
  have hnew : NewPage 0x1000000 ⟨⟨dirtyMary.2, [], []⟩, .malloc 3968,
      (CreamOp.malloc 3968).next smallHeap 0x1000000 ⟨dirtyMary.2, [], []⟩⟩ 0 :=
    ⟨by decide, hempty, by rw [hslot]; decide⟩
  exact ((hfree 3968 0 rfl hnew).2 (by decide)).1 hnull

end Genesis32
