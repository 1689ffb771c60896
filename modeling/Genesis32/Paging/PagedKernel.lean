import Genesis32.Interrupts.Idt
import Genesis32.Paging.FlatMap

/-!
# The kernel behind its page tables

`kernel_main` sets the heap up, takes the directory and its tables from it, loads the directory and
switches paging on. From then on every access goes through tables that lie in the heap, among the
pages that the kernel allocates, frees and writes. `paged_kernel_runs` follows any order of heap
calls, stores and calls of `set_page_table_enrty` that leaves the heap alone (`Admissible`): the
tables stay what these calls alone have made of them, the memory of the heap stays where it was, and
no allocation reaches the tables. Every access walks the tables as they are: that the processor may
keep a translation, which `set_page_table_enrty` does not flush, is left out.
-/

namespace Genesis32

open Word

/-- The control registers that paging uses. -/
structure PagingRegs where
  cr0 : Nat
  cr3 : Nat
  deriving DecidableEq, Repr

/-- `set_dir_table`, with `load_dir_table`. -/
def setDirTable (regs : PagingRegs) (addr : Nat) : PagingRegs := { regs with cr3 := addr }

/-- `enable_paging`, with `enable_paging_asm`. -/
def enablePaging (regs : PagingRegs) : PagingRegs := { regs with cr0 := regs.cr0 ||| 0x80000000 }

/-- The physical address of an access, or none for a page fault. -/
def translate (regs : PagingRegs) (mem : ByteMem) (va : Nat) : Option Nat :=
  if regs.cr0.testBit 31 = true then walk mem regs.cr3 va else some va

/-- The kernel: its memory, the registers, and what it has allocated and not freed. -/
structure PagedState where
  mem : ByteMem
  regs : PagingRegs
  live : List Allocation

/-- The part of `kernel_main` that changes memory up to `enable_paging`, with the screen `c` when it
calls `idt_init`. -/
def startPaging (mem : ByteMem) (regs : PagingRegs) (c : Console) (idtTable idtrDescriptor : Nat)
    (address : Handler → Nat) : Except Int (Heap × PagedState) :=
  match kheapInit mem with
  | .error code => .error code
  | .ok (H, mem) =>
      match create32DirTable H (idtInit idtTable idtrDescriptor address c mem).mem
        (pagingPresent ||| readAndWrite) with
      | (dir, mem) => .ok (H, ⟨mem, enablePaging (setDirTable regs dir), []⟩)

/-! ## Steps -/

/-- What the kernel does behind the tables: a call of the heap, a store, or a call of
`set_page_table_enrty` for the directory. -/
inductive PagedOp where
  | heap (op : HeapOp)
  | store (va : Nat) (v : UInt8)
  | setPage (call : PageCall)

namespace PagedOp

/-- A byte that the heap itself uses: of its table or of its pages. -/
def HeapByte (H : Heap) (x : Nat) : Prop :=
  (H.table.entries ≤ x ∧ x < H.table.entries + H.table.total) ∨ (H.startAddr ≤ x ∧ x < H.endAddr)

/-- The kernel frees what it has allocated, stores into what it has allocated or outside the heap,
and remaps no page of the heap. The functions check none of this. -/
def Admissible (H : Heap) (s : PagedState) : PagedOp → Prop
  | .heap (.free addr) => ∃ a ∈ s.live, a.ptr ≤ addr ∧ addr < a.ptr + 4096
  | .heap op => op.Admissible H
  | .store va _ =>
      va < 4294967296 ∧
        ∃ pa, translate s.regs s.mem va = some pa ∧ (HeapByte H pa → ∃ a ∈ s.live, a.Covers pa)
  | .setPage call => call.Valid ∧ ∀ x, HeapByte H x → x / 4096 ≠ call.virtAddr / 4096

/-- The state behind a step. -/
def next (H : Heap) (s : PagedState) : PagedOp → PagedState
  | .heap op =>
      { s with
        mem := (op.call H s.mem).2
        live := op.track s.live (op.call H s.mem).1 }
  | .store va v =>
      match translate s.regs s.mem va with
      | none => s
      | some pa => { s with mem := Function.update s.mem pa v }
  | .setPage call => { s with mem := (setPageTableEnrty s.mem s.regs.cr3 call).2 }

/-- What a step makes of the flat map. -/
def setMap (f : Nat → Nat) : PagedOp → Nat → Nat
  | .setPage call => (FlatMap.set f call).2
  | _ => f

end PagedOp

/-- No step changes the registers. -/
theorem PagedOp.next_regs (H : Heap) (s : PagedState) (op : PagedOp) :
    (op.next H s).regs = s.regs := by
  cases op with
  | heap op => rfl
  | store va v =>
      rw [PagedOp.next]
      cases translate s.regs s.mem va <;> rfl
  | setPage call => rfl

/-- One step of a run. -/
def PagedStep (H : Heap) (s : PagedState) (op : PagedOp) (s' : PagedState) : Prop :=
  op.Admissible H s ∧ s' = op.next H s

/-- The flat map after the steps of a run. -/
def mapAfter (f : Nat → Nat) (trace : List (Transition PagedState PagedOp)) : Nat → Nat :=
  trace.foldl (fun f x => x.event.setMap f) f

/-- The map of the directory as `create_32_dir_table` builds it. -/
def identityMap (flags : Nat) : Nat → Nat := fun page => flaggedEntry (4096 * page) flags

/-- What the flat map says about an address. -/
def mapped (f : Nat → Nat) (va : Nat) : Option Nat :=
  if Present (f (va / 4096)) then some (entryAddr (f (va / 4096)) + va % 4096) else none

/-! ## The invariant -/

/-- The heap, the directory in `cr3` with the tables `t`, which hold the flat map, and the
allocations of the kernel, none of which is one of them. -/
structure PagingInv (P : PageHeap) (t : Nat → Nat) (f : Nat → Nat) (s : PagedState) : Prop where
  heap : HeapInv P ⟨s.mem, s.live⟩
  maps : MapsTo P s.regs.cr3 t s.mem f
  present : ∀ i, i < 1024 → Present (dirEntry s.mem s.regs.cr3 i)
  neDir : ∀ a ∈ s.live, a.ptr ≠ s.regs.cr3
  neTable : ∀ a ∈ s.live, ∀ i, i < 1024 → a.ptr ≠ t i
  paging : s.regs.cr0.testBit 31 = true
  identity : ∀ x, PagedOp.HeapByte P.toHeap x → mapped f x = some x

/-- A page of the directory or of a table. -/
def PagingPage (dir : Nat) (t : Nat → Nat) (a : Allocation) : Prop :=
  a = ⟨dir, 4096⟩ ∨ ∃ i, i < 1024 ∧ a = ⟨t i, 4096⟩

namespace MapsTo

variable {P : PageHeap} {dir : Nat} {t : Nat → Nat} {m m' : ByteMem} {f : Nat → Nat}

/-- The pages of the directory and of the tables are owned. -/
theorem paging_owned (h : MapsTo P dir t m f) {a : Allocation} (ha : PagingPage dir t a) :
    P.Owns m a := by
  rcases ha with rfl | ⟨i, hi, rfl⟩
  · exact h.dirOwned
  · exact h.owned i hi

/-- The directory is what its bytes are. -/
theorem dir_entry_same
    (hpages : ∀ a, PagingPage dir t a → P.Owns m' a ∧ ∀ x, a.Covers x → m' x = m x)
    {i : Nat} (hi : i < 1024) : dirEntry m' dir i = dirEntry m dir i :=
  ByteMem.word32_congr fun x hl hh =>
    (hpages _ (Or.inl rfl)).2 x (covers_table.mpr (by omega))

/-- The simulation depends on the pages of the directory and of the tables only. -/
theorem congr (h : MapsTo P dir t m f)
    (hpages : ∀ a, PagingPage dir t a → P.Owns m' a ∧ ∀ x, a.Covers x → m' x = m x) :
    MapsTo P dir t m' f where
  dirOwned := (hpages _ (Or.inl rfl)).1
  owned := fun i hi => (hpages _ (Or.inr ⟨i, hi, rfl⟩)).1
  neDir := h.neDir
  distinct := h.distinct
  table := fun i hi => by
    rw [dir_entry_same hpages hi]
    exact h.table i hi
  entries := fun page hpage => by
    have hindex : page / 1024 < 1024 := by omega
    rw [← h.entries page hpage, h.page_entry_eq hpage, pageEntry, dir_entry_same hpages hindex,
      h.table _ hindex]
    refine ByteMem.word32_congr fun x hl hh => ?_
    exact (hpages _ (Or.inr ⟨_, hindex, rfl⟩)).2 x (covers_table.mpr (by omega))

/-- A call of `set_page_table_enrty` changes bytes of the tables only. -/
theorem set_outside (h : MapsTo P dir t m f) {c : PageCall} (hc : c.Valid) {x : Nat}
    (hx : ∀ i, i < 1024 → ¬ (⟨t i, 4096⟩ : Allocation).Covers x) :
    (setPageTableEnrty m dir c).2 x = m x := by
  obtain ⟨haddr, _, _⟩ := hc
  rw [setPageTableEnrty, getIndexFromVirt, land_offset]
  by_cases halign : c.virtAddr % 4096 = 0
  · rw [if_neg (not_not.mpr halign)]
    have hindex : c.virtAddr / (1024 * 4096) < 1024 := by omega
    have htable : m.word32 (dir + 4 * (c.virtAddr / (1024 * 4096))) &&& 0xfffff000 =
        t (c.virtAddr / (1024 * 4096)) := h.table _ hindex
    have hout := hx _ hindex
    rw [covers_table] at hout
    simp only [htable]
    exact ByteMem.setWord32_outside (by omega)
  · rw [if_pos halign]

/-- The walk is the one of the flat map. -/
theorem walk_mapped (h : MapsTo P dir t m f)
    (hpresent : ∀ i, i < 1024 → Present (dirEntry m dir i)) {va : Nat} (hva : va < 4294967296) :
    walk m dir va = mapped f va := by
  have hentry := h.entries (va / 4096) (by omega)
  have hdir := hpresent (va / 4096 / 1024) (by omega)
  simp only [walk, mapped, hentry, hdir, true_and]

end MapsTo

/-! ## One step -/

namespace PagingInv

variable {P : PageHeap} {t : Nat → Nat} {f : Nat → Nat} {s : PagedState}

/-- An allocation of the kernel shares no byte with the directory or a table. -/
theorem live_apart (h : PagingInv P t f s) {a b : Allocation} (ha : a ∈ s.live)
    (hb : PagingPage s.regs.cr3 t b) : a.Apart b := by
  refine (h.heap.owned a ha).apart (h.maps.paging_owned hb) ?_
  rcases hb with rfl | ⟨i, hi, rfl⟩
  · exact h.neDir a ha
  · exact h.neTable a ha i hi

/-- Where the walk is on, an address is translated by the flat map. -/
theorem translate_mapped (h : PagingInv P t f s) {va : Nat} (hva : va < 4294967296) :
    translate s.regs s.mem va = mapped f va := by
  rw [translate, if_pos h.paging]
  exact h.maps.walk_mapped h.present hva

/-- The invariant with another memory and other allocations: the pages of the directory and the
tables are kept, and what is allocated is at other addresses. -/
theorem keep (h : PagingInv P t f s) {m' : ByteMem} {live' : List Allocation}
    (hheap : HeapInv P ⟨m', live'⟩)
    (hpages : ∀ a, PagingPage s.regs.cr3 t a → P.Owns m' a ∧ ∀ x, a.Covers x → m' x = s.mem x)
    (hlive : ∀ b, PagingPage s.regs.cr3 t b → ∀ a ∈ live', a.ptr ≠ b.ptr) :
    PagingInv P t f { s with mem := m', live := live' } where
  heap := hheap
  maps := h.maps.congr hpages
  present := fun i hi => by
    rw [MapsTo.dir_entry_same hpages hi]
    exact h.present i hi
  neDir := fun a ha => hlive _ (Or.inl rfl) a ha
  neTable := fun a ha i hi => hlive _ (Or.inr ⟨i, hi, rfl⟩) a ha
  paging := h.paging
  identity := h.identity

theorem live_ne (h : PagingInv P t f s) {b : Allocation} (hb : PagingPage s.regs.cr3 t b) :
    ∀ a ∈ s.live, a.ptr ≠ b.ptr := by
  intro a ha
  rcases hb with rfl | ⟨i, hi, rfl⟩
  · exact h.neDir a ha
  · exact h.neTable a ha i hi

/-- A call of the heap keeps the invariant. -/
theorem heap_call (h : PagingInv P t f s) {op : HeapOp}
    (hop : PagedOp.Admissible P.toHeap s (.heap op)) :
    PagingInv P t f (PagedOp.next P.toHeap s (.heap op)) := by
  -- an address that the kernel may free is one of its own allocations, not a page of the tables
  have hadmissible : op.Admissible P.toHeap ∧ ∀ addr, op = .free addr →
      ∀ b, PagingPage s.regs.cr3 t b → ¬ (b.ptr ≤ addr ∧ addr < b.ptr + 4096) := by
    cases op with
    | malloc size => exact ⟨hop, fun _ heq => nomatch heq⟩
    | zalloc size => exact ⟨hop, fun _ heq => nomatch heq⟩
    | free addr =>
        obtain ⟨a, ha, hlo, hhi⟩ := hop
        have howned := h.heap.owned a ha
        have hcovers := howned.covers_first hlo hhi
        refine ⟨howned.in_pages hcovers, fun addr' heq b hb hin => ?_⟩
        cases heq
        refine h.live_apart ha hb addr hcovers ?_
        rcases hb with rfl | ⟨i, hi, rfl⟩
        · exact covers_table.mpr hin
        · exact covers_table.mpr hin
  obtain ⟨hadm, hfree⟩ := hadmissible
  refine h.keep (h.heap.step ⟨hadm, rfl⟩) (fun a ha => ?_) fun b hb => ?_
  · exact h.heap.call_keeps hadm (h.maps.paging_owned ha) fun addr heq => hfree addr heq a ha
  · exact h.heap.track_fresh hadm (h.maps.paging_owned hb) (h.live_ne hb)

/-- A store keeps the invariant. -/
theorem store (h : PagingInv P t f s) {va : Nat} {v : UInt8}
    (hop : PagedOp.Admissible P.toHeap s (.store va v)) :
    PagingInv P t f (PagedOp.next P.toHeap s (.store va v)) := by
  obtain ⟨_, pa, hpa, hin⟩ := hop
  have hother : ∀ b, P.Owns s.mem b → (∀ a ∈ s.live, a.Apart b) → ∀ x, b.Covers x →
      Function.update s.mem pa v x = s.mem x := by
    intro b hb hapart x hx
    refine Function.update_of_ne ?_ ..
    rintro rfl
    obtain ⟨a, ha, hcovers⟩ := hin (Or.inr (hb.in_pages hx))
    exact hapart a ha x hcovers hx
  have htable : ∀ x, P.InTable x → Function.update s.mem pa v x = s.mem x := by
    intro x hx
    refine Function.update_of_ne ?_ ..
    rintro rfl
    obtain ⟨a, ha, hcovers⟩ := hin (Or.inl hx)
    exact PageHeap.not_in_table_of_in_pages ((h.heap.owned a ha).in_pages hcovers) hx
  simp only [PagedOp.next, hpa]
  refine h.keep (h.heap.congr htable) (fun b hb => ?_) fun b hb => h.live_ne hb
  have howned := h.maps.paging_owned hb
  exact ⟨howned.congr htable, hother b howned fun a ha => h.live_apart ha hb⟩

/-- A call of `set_page_table_enrty` keeps the invariant, with the assignment in the flat map. -/
theorem set_page (h : PagingInv P t f s) {c : PageCall}
    (hop : PagedOp.Admissible P.toHeap s (.setPage c)) :
    PagingInv P t (FlatMap.set f c).2 (PagedOp.next P.toHeap s (.setPage c)) := by
  obtain ⟨hvalid, hapart⟩ := hop
  have houtside : ∀ x, (∀ i, i < 1024 → ¬ (⟨t i, 4096⟩ : Allocation).Covers x) →
      (setPageTableEnrty s.mem s.regs.cr3 c).2 x = s.mem x := fun x =>
    h.maps.set_outside hvalid
  have htable : ∀ x, P.InTable x → (setPageTableEnrty s.mem s.regs.cr3 c).2 x = s.mem x :=
    fun x hx => houtside x fun i hi hcov =>
      PageHeap.not_in_table_of_in_pages ((h.maps.owned i hi).in_pages hcov) hx
  have hdir : ∀ i, i < 1024 → dirEntry (setPageTableEnrty s.mem s.regs.cr3 c).2 s.regs.cr3 i =
      dirEntry s.mem s.regs.cr3 i := fun i hi =>
    ByteMem.word32_congr fun x hl hh => houtside x fun j hj hcov =>
      h.maps.dirOwned.apart (h.maps.owned j hj) (h.maps.neDir j hj).symm x
        (covers_table.mpr (by omega)) hcov
  refine ⟨h.heap.congr htable, (h.maps.step hvalid).2, fun i hi => ?_, h.neDir, h.neTable,
    h.paging, fun x hx => ?_⟩
  · rw [PagedOp.next, hdir i hi]
    exact h.present i hi
  · -- the page of a heap byte is not the one that is set
    have hpage : (FlatMap.set f c).2 (x / 4096) = f (x / 4096) := by
      rw [FlatMap.set]
      split_ifs
      · exact Function.update_of_ne (hapart x hx) ..
      · rfl
    have hsame := h.identity x hx
    rwa [mapped, ← hpage] at hsame

/-- Every step keeps the invariant. -/
theorem step (h : PagingInv P t f s) {op : PagedOp} {s' : PagedState}
    (hstep : PagedStep P.toHeap s op s') : PagingInv P t (op.setMap f) s' := by
  obtain ⟨hop, rfl⟩ := hstep
  cases op with
  | heap op => exact h.heap_call hop
  | store va v => exact h.store hop
  | setPage c => exact h.set_page hop

/-- Every run keeps it, with the flat map that its calls have left. -/
theorem run (h : PagingInv P t f s) {trace : List (Transition PagedState PagedOp)}
    {s' : PagedState} (hrun : Run (PagedStep P.toHeap) s trace s') :
    PagingInv P t (mapAfter f trace) s' ∧ s'.regs = s.regs := by
  induction hrun with
  | nil => exact ⟨h, rfl⟩
  | snoc _ hlast ih =>
      obtain ⟨hinv, hregs⟩ := ih
      rw [mapAfter, List.foldl_append]
      refine ⟨hinv.step hlast, ?_⟩
      obtain ⟨_, rfl⟩ := hlast
      rw [← hregs]
      exact PagedOp.next_regs ..

end PagingInv

/-! ## From the start of the kernel -/

/-- While the heap has a page, `create_32_dir_table` has a directory. -/
theorem create_32_dir_table_ne_zero {P : PageHeap} {m : ByteMem} (flags : Nat)
    (hcovered : blockMarks.Covered (P.tableOf m) P.table.total) (hentries : 0 < P.table.entries)
    {k : Nat} (hk : k < P.table.total) (hfree : P.tableOf m k = blockMarks.free) :
    (create32DirTable P.toHeap m flags).1 ≠ 0 := by
  have hheap : HeapInv P ⟨m, []⟩ := ⟨hcovered, by simp, by simp⟩
  rcases hheap.alloc (show (HeapOp.zalloc 4096).size? = some 4096 from rfl)
    (show 4096 < 4294967296 by omega) with heq | ⟨k', m₁, heq, _⟩
  · have hnull : (kzalloc P.toHeap m 4096).1 = 0 := congrArg Prod.fst heq
    exact absurd hfree (PageHeap.kzalloc_null_taken (by omega) hentries hnull hk)
  · have hpos := PageHeap.page_pos (P := P) k'
    have halign := PageHeap.page_aligned (P := P) k'
    rw [create32DirTable, show kzalloc P.toHeap m 4096 = (P.page k', m₁) from heq]
    simp only [if_neg (Nat.ne_of_gt hpos), land_offset_aligned halign, ne_eq, not_true, if_false]
    exact Nat.ne_of_gt hpos

/-- Under the map of a new directory an address is its own. -/
theorem mapped_identity (flags : Nat) {va : Nat} (hva : va < 4294967296) :
    mapped (identityMap flags) va = some va := by
  rw [mapped, identityMap, if_pos (flagged_entry_present ..),
    entry_addr_flagged (by omega) (by omega), Option.some.injEq]
  omega

/-- With a heap of at least 1025 free pages, the new directory has all its tables, and the kernel
starts behind it with the identity map. -/
theorem paging_inv_start {P : PageHeap} {m : ByteMem} {flags : Nat} {regs : PagingRegs}
    (hentries : 0 < P.table.entries) (hfree : ∀ k, k < P.table.total → P.tableOf m k = 0x00)
    (hroom : 1025 ≤ P.table.total) :
    ∃ t, PagingInv P t (identityMap flags)
      ⟨(create32DirTable P.toHeap m flags).2,
        enablePaging (setDirTable regs (create32DirTable P.toHeap m flags).1), []⟩ := by
  have hcovered : blockMarks.Covered (P.tableOf m) P.table.total := Marks.covered_free hfree
  have hne := create_32_dir_table_ne_zero flags hcovered hentries (k := 0) (by omega)
    (hfree 0 (by omega))
  have hcreate : create32DirTable P.toHeap m flags =
      ((create32DirTable P.toHeap m flags).1, (create32DirTable P.toHeap m flags).2) :=
    (Prod.eta _).symm
  obtain ⟨t, c, h, _⟩ := DirTables.of_create hcovered hcreate hne
  have hall : freePages P m = Finset.range P.table.total :=
    Finset.filter_true_of_mem fun k hk => hfree k (Finset.mem_range.mp hk)
  have hpresent := create_32_dir_table_full hcovered hentries
    (by rw [hall, Finset.card_range]; exact hroom) hcreate hne
  obtain rfl : c = 1024 := by
    have hlast := h.present_lt (i := 1023) (by omega) (hpresent 1023 (by omega))
    have hcount := h.count
    omega
  have hend := P.endLt
  have htable := P.tableLt
  refine ⟨t, h.heap, ?_, hpresent, by simp, by simp, ?_, fun x hx => mapped_identity _ ?_⟩
  · exact ⟨h.dirOwned, h.owned, h.neDir, h.distinct, fun i hi => h.entry_addr hi,
      fun page hpage => h.page_entry (by omega)⟩
  · rw [enablePaging, Nat.testBit_or, show Nat.testBit 0x80000000 31 = true by decide, Bool.or_true]
  · rcases hx with hx | hx <;> omega

/-- A page that no call of a run sets has the entry that it had. -/
theorem map_after_unset : ∀ (trace : List (Transition PagedState PagedOp)) (f : Nat → Nat)
    (page : Nat), (∀ x ∈ trace, ∀ c, x.event = .setPage c → c.virtAddr / 4096 ≠ page) →
    mapAfter f trace page = f page := by
  intro trace
  induction trace with
  | nil => exact fun _ _ _ => rfl
  | cons x trace ih =>
      intro f page hunset
      have hrest := ih (x.event.setMap f) page fun y hy =>
        hunset y (List.mem_cons_of_mem x hy)
      have hfirst := hunset x List.mem_cons_self
      rw [mapAfter, List.foldl_cons, ← mapAfter, hrest]
      cases hevent : x.event with
      | heap op => rfl
      | store va v => rfl
      | setPage c =>
          rw [PagedOp.setMap, FlatMap.set]
          split_ifs
          · exact Function.update_of_ne (hfirst c hevent).symm ..
          · rfl

/-- What a run behind the page tables guarantees, with the flat map `f` that its calls of
`set_page_table_enrty` have left. -/
structure PagedRun (H : Heap) (f : Nat → Nat) (trace : List (Transition PagedState PagedOp))
    (s : PagedState) : Prop where
  /-- An address is translated as the flat map says. -/
  translated : ∀ va, va < 4294967296 → translate s.regs s.mem va = mapped f va
  /-- An address whose page was never set is its own. -/
  untouched : ∀ va, va < 4294967296 →
    (∀ x ∈ trace, ∀ c, x.event = .setPage c → c.virtAddr / 4096 ≠ va / 4096) →
    translate s.regs s.mem va = some va
  /-- The heap finds its table and its pages where they are. -/
  heapBytes : ∀ x, PagedOp.HeapByte H x → translate s.regs s.mem x = some x
  /-- The allocations share no byte with each other, with the directory or with a table. -/
  apart : s.live.Pairwise Allocation.Apart
  dirApart : ∀ a ∈ s.live, a.Apart ⟨s.regs.cr3, 4096⟩
  tablesApart : ∀ a ∈ s.live, ∀ i, i < 1024 →
    a.Apart ⟨entryAddr (dirEntry s.mem s.regs.cr3 i), 4096⟩

/-- The part of `kernel_main` after a heap that is set up on every memory. -/
theorem start_paging_eq (mem : ByteMem) (regs : PagingRegs) (c : Console)
    (idtTable idtrDescriptor : Nat) (address : Handler → Nat) {dir : Nat} {mem' : ByteMem}
    (hcreate : create32DirTable kernelHeap
      (idtInit idtTable idtrDescriptor address c (memset mem 0x7e00 0x00 25600)).mem
      (pagingPresent ||| readAndWrite) = (dir, mem')) :
    startPaging mem regs c idtTable idtrDescriptor address =
      .ok (kernelHeap, ⟨mem', enablePaging (setDirTable regs dir), []⟩) := by
  simp only [startPaging, kheap_init_ok, hcreate]

/-- `kernel_main` reaches paging on every memory, with an identity map of all addresses. -/
theorem start_paging_inv (mem : ByteMem) (regs : PagingRegs) (c : Console)
    {idtTable idtrDescriptor : Nat} {address : Handler → Nat}
    (haddress : ∀ h, address h < 4294967296)
    (hidt : idtTable + 8 * totalInterrupts ≤ 0x7e00 ∨ 0x7e00 + 25600 ≤ idtTable)
    (hidtr : idtrDescriptor + 6 ≤ 0x7e00 ∨ 0x7e00 + 25600 ≤ idtrDescriptor) :
    ∃ t dir mem', create32DirTable kernelHeap
        (idtInit idtTable idtrDescriptor address c (memset mem 0x7e00 0x00 25600)).mem
        (pagingPresent ||| readAndWrite) = (dir, mem') ∧
      PagingInv kernelPageHeap t (identityMap (pagingPresent ||| readAndWrite))
        ⟨mem', enablePaging (setDirTable regs dir), []⟩ := by
  have hfree : ∀ k, k < kernelPageHeap.table.total →
      kernelPageHeap.tableOf
        (idtInit idtTable idtrDescriptor address c (memset mem 0x7e00 0x00 25600)).mem k =
        0x00 := by
    intro k hk
    have hk : k < 25600 := hk
    have hentries : kernelPageHeap.table.entries = 0x7e00 := rfl
    rw [PageHeap.tableOf, ByteMem.view_apply, hentries,
      idt_init_outside haddress c _ (by omega) (by omega), memset_eq_fill]
    exact ByteMem.fill_inside (by omega) (by omega)
  obtain ⟨t, hstart⟩ : ∃ t, PagingInv kernelPageHeap t
      (identityMap (pagingPresent ||| readAndWrite)) ⟨_, enablePaging (setDirTable regs _), []⟩ :=
    paging_inv_start (by decide) hfree (by decide)
  exact ⟨t, _, _, (Prod.eta _).symm, hstart⟩

/-- From the start of paging on, in any order of heap calls, stores and remapped pages, the page
tables change through `set_page_table_enrty` only, and no allocation is one of them. -/
theorem paged_kernel_runs (mem : ByteMem) (regs : PagingRegs) (c : Console)
    (idtTable idtrDescriptor : Nat) {address : Handler → Nat}
    (haddress : ∀ h, address h < 4294967296)
    (hidt : idtTable + 8 * totalInterrupts ≤ 0x7e00 ∨ 0x7e00 + 25600 ≤ idtTable)
    (hidtr : idtrDescriptor + 6 ≤ 0x7e00 ∨ 0x7e00 + 25600 ≤ idtrDescriptor) :
    ∃ s₀, startPaging mem regs c idtTable idtrDescriptor address = .ok (kernelHeap, s₀) ∧
      ∀ trace s, Run (PagedStep kernelHeap) s₀ trace s →
        PagedRun kernelHeap (mapAfter (identityMap (pagingPresent ||| readAndWrite)) trace) trace
          s := by
  obtain ⟨t, dir, mem', hcreate, hstart⟩ := start_paging_inv mem regs c haddress hidt hidtr
  refine ⟨_, start_paging_eq mem regs c idtTable idtrDescriptor address hcreate,
    fun trace s hrun => ?_⟩
  obtain ⟨h, _⟩ := hstart.run hrun
  have hlt : ∀ x, PagedOp.HeapByte kernelHeap x → x < 4294967296 := by
    intro x hx
    rcases hx with ⟨_, hx⟩ | ⟨_, hx⟩
    · exact Nat.lt_of_lt_of_le hx (by decide)
    · exact Nat.lt_of_lt_of_le hx (by decide)
  refine ⟨fun va hva => h.translate_mapped hva, fun va hva hunset => ?_,
    fun x hx => (h.translate_mapped (hlt x hx)).trans (h.identity x hx), h.heap.apart,
    fun a ha => h.live_apart ha (Or.inl rfl), fun a ha i hi => ?_⟩
  · rw [h.translate_mapped hva, mapped, map_after_unset trace _ _ hunset]
    exact mapped_identity _ hva
  · rw [h.maps.table i hi]
    exact h.live_apart ha (Or.inr ⟨i, hi, rfl⟩)

/-- The kernel with its interrupt table behind the first megabyte. -/
theorem paged_kernel_runs_at :
    ∃ s₀, startPaging (fun _ => 0xff) ⟨1, 0⟩ ⟨fun _ => 0x0020, 0, 3, []⟩ 0x110000 0x111000
        (fun _ => 0x100200) = .ok (kernelHeap, s₀) ∧
      ∀ trace s, Run (PagedStep kernelHeap) s₀ trace s →
        PagedRun kernelHeap (mapAfter (identityMap (pagingPresent ||| readAndWrite)) trace) trace
          s :=
  paged_kernel_runs _ _ _ _ _ (fun _ => by decide) (Or.inr (by decide)) (Or.inr (by decide))

end Genesis32
