import Genesis32.Heap.PageHeapSpec
import Genesis32.Library.Transition

/-!
# Safety of the page heap over whole runs

An `Allocation` is what a caller of the heap holds: an address and the size it asked for. It is
owned when the table marks its pages as one run. Owned allocations with different addresses are
disjoint, and each operation keeps the ownership of every allocation it does not free; the two-level
heap reuses these facts. A run of the heap starts from a cleared table, and `page_heap_safety` says
what holds in every state and at every step of such a run.
-/

namespace Genesis32

/-- An allocation held by a caller: its address and the requested size. -/
structure Allocation where
  ptr : Nat
  size : Nat
  deriving DecidableEq, Repr

namespace Allocation

/-- The bytes of the pages of an allocation. -/
def Covers (a : Allocation) (x : Nat) : Prop :=
  a.ptr ≤ x ∧ x < a.ptr + 4096 * pagesFor a.size

/-- Two allocations share no byte. -/
def Apart (a b : Allocation) : Prop := ∀ x, a.Covers x → ¬ b.Covers x

end Allocation

namespace PageHeap

variable {P : PageHeap} {m m' : ByteMem} {a : Allocation} {k b : Nat}

/-- The table marks the pages of the allocation as one run. -/
def Owns (P : PageHeap) (m : ByteMem) (a : Allocation) : Prop :=
  ∃ k, a.ptr = P.page k ∧ blockMarks.Block (P.tableOf m) k (pagesFor a.size) ∧
    k + pagesFor a.size ≤ P.table.total

theorem page_inj {k k' : Nat} (h : P.page k = P.page k') : k = k' := by
  simp only [page] at h
  omega

theorem Owns.in_pages (h : P.Owns m a) {x : Nat} (hx : a.Covers x) : P.InPages x := by
  obtain ⟨k, hptr, _, hbound⟩ := h
  have hend := page_bound (P := P) hbound
  simp only [Allocation.Covers, hptr] at hx
  simp only [page, InPages] at *
  omega

/-- Owned allocations at different addresses share no byte. -/
theorem Owns.apart {a' : Allocation} (h : P.Owns m a) (h' : P.Owns m a')
    (hne : a.ptr ≠ a'.ptr) : a.Apart a' := by
  obtain ⟨k, hptr, hblock, _⟩ := h
  obtain ⟨k', hptr', hblock', _⟩ := h'
  have hk : k ≠ k' := by
    rintro rfl
    exact hne (hptr.trans hptr'.symm)
  have hdisjoint := hblock.disjoint hblock' hk
  intro x hx hx'
  simp only [Allocation.Covers, hptr, hptr', page] at hx hx'
  omega

/-- Ownership is read from the table only. -/
theorem Owns.congr (h : P.Owns m a) (htable : ∀ x, P.InTable x → m' x = m x) : P.Owns m' a := by
  obtain ⟨k, hptr, hblock, hbound⟩ := h
  refine ⟨k, hptr, hblock.congr fun j hj => ?_, hbound⟩
  exact table_of_congr htable (by omega)

theorem Owns.mark (h : P.Owns m a)
    (hrun : blockMarks.FreeRun (P.tableOf m) P.table.total k b) (hb : 0 < b) :
    P.Owns (blockMarks.put m (P.table.entries + k) b) a := by
  obtain ⟨k', hptr, hblock, hbound⟩ := h
  refine ⟨k', hptr, ?_, hbound⟩
  rw [table_of_put]
  exact hblock.put hrun hb

theorem Owns.clear (h : P.Owns m a) (hblock : blockMarks.Block (P.tableOf m) k b)
    (hne : a.ptr ≠ P.page k) : P.Owns (blockMarks.erase m (P.table.entries + k) b) a := by
  obtain ⟨k', hptr, hblock', hbound⟩ := h
  refine ⟨k', hptr, ?_, hbound⟩
  rw [table_of_erase]
  exact hblock'.erase hblock fun hk => hne (hk ▸ hptr)

/-- The run a call marks is owned afterwards. -/
theorem owns_marked (hrun : blockMarks.FreeRun (P.tableOf m) P.table.total k (pagesFor a.size))
    (hb : 0 < pagesFor a.size) (hptr : a.ptr = P.page k) :
    P.Owns (blockMarks.put m (P.table.entries + k) (pagesFor a.size)) a := by
  refine ⟨k, hptr, ?_, hrun.bound⟩
  rw [table_of_put]
  exact Marks.put_block _ hb

/-- A free run shares no byte with an owned allocation. -/
theorem Owns.apart_free {a' : Allocation} (h : P.Owns m a)
    (hrun : blockMarks.FreeRun (P.tableOf m) P.table.total k (pagesFor a'.size))
    (hb : 0 < pagesFor a'.size) (hptr : a'.ptr = P.page k) : a.Apart a' := by
  obtain ⟨k', hptr', hblock, _⟩ := h
  have hdisjoint := hblock.disjoint_freeRun hrun hb
  intro x hx hx'
  simp only [Allocation.Covers, hptr, hptr', page] at hx hx'
  omega

theorem Owns.ptr_ne_free (h : P.Owns m a)
    (hrun : blockMarks.FreeRun (P.tableOf m) P.table.total k b) (hb : 0 < b) :
    a.ptr ≠ P.page k := by
  obtain ⟨k', hptr, hblock, _⟩ := h
  have hdisjoint := hblock.disjoint_freeRun hrun hb
  have hpos := hblock.pos
  intro heq
  have hk := page_inj (hptr.symm.trans heq)
  omega

/-- The first page of an owned allocation is the only page whose free can end it. -/
theorem Owns.first_page (h : P.Owns m a) {addr : Nat} (hl : P.page k ≤ addr)
    (hh : addr < P.page k + 4096) :
    (a.ptr ≤ addr ∧ addr < a.ptr + 4096) ↔ a.ptr = P.page k := by
  obtain ⟨k', hptr, _, _⟩ := h
  rw [hptr]
  simp only [page] at *
  omega

/-- The first page of an owned allocation is covered by it. -/
theorem Owns.covers_first (h : P.Owns m a) {x : Nat} (hlo : a.ptr ≤ x) (hhi : x < a.ptr + 4096) :
    a.Covers x := by
  obtain ⟨_, _, hblock, _⟩ := h
  have hpos := hblock.pos
  exact ⟨hlo, by omega⟩

end PageHeap

/-! ## Runs -/

/-- The memory together with the allocations whose first page has not been freed. -/
structure HeapState where
  mem : ByteMem
  live : List Allocation

/-- A call on the page heap. -/
inductive HeapOp where
  | malloc (size : Nat)
  | zalloc (size : Nat)
  | free (addr : Nat)
  deriving DecidableEq, Repr

namespace HeapOp

/-- Sizes are any 32-bit value and freed addresses are any address of the heap. -/
def Admissible (H : Heap) : HeapOp → Prop
  | .malloc size => size < 4294967296
  | .zalloc size => size < 4294967296
  | .free addr => H.startAddr ≤ addr ∧ addr < H.endAddr

/-- The result of the call, `0` for a free, and the memory it leaves. -/
def call (H : Heap) (m : ByteMem) : HeapOp → Nat × ByteMem
  | .malloc size => heapMalloc H m size
  | .zalloc size => kzalloc H m size
  | .free addr => (0, heapFree H m addr)

/-- The size that an allocating call asks for. -/
def size? : HeapOp → Option Nat
  | .malloc size => some size
  | .zalloc size => some size
  | .free _ => none

/-- The live allocations after a call that returned `result`. -/
def track (live : List Allocation) (result : Nat) : HeapOp → List Allocation
  | .malloc size => if result = 0 then live else ⟨result, size⟩ :: live
  | .zalloc size => if result = 0 then live else ⟨result, size⟩ :: live
  | .free addr => live.filter fun a => ¬ (a.ptr ≤ addr ∧ addr < a.ptr + 4096)

/-- The state after a call. -/
def next (H : Heap) (s : HeapState) (op : HeapOp) : HeapState :=
  ⟨(op.call H s.mem).2, op.track s.live (op.call H s.mem).1⟩

end HeapOp

/-- One call of a run. -/
def HeapStep (H : Heap) (s : HeapState) (op : HeapOp) (s' : HeapState) : Prop :=
  op.Admissible H ∧ s' = op.next H s

/-- The invariant of a run: the table consists of whole runs, and the live allocations are owned and
have different addresses. -/
structure HeapInv (P : PageHeap) (s : HeapState) : Prop where
  covered : blockMarks.Covered (P.tableOf s.mem) P.table.total
  owned : ∀ a ∈ s.live, P.Owns s.mem a
  distinct : s.live.Pairwise fun a a' => a.ptr ≠ a'.ptr

namespace HeapInv

open PageHeap

variable {P : PageHeap} {s : HeapState}

/-- A table cleared by `heap_create` satisfies the invariant. -/
theorem cleared (P : PageHeap) (m : ByteMem) :
    HeapInv P ⟨m.fill P.table.entries P.table.total 0x00, []⟩ := by
  refine ⟨Marks.covered_free fun i hi => ?_, by simp, by simp⟩
  exact ByteMem.fill_inside (by omega) (by omega)

/-- The heap invariant does not notice a change outside the table. -/
theorem congr {m m' : ByteMem} {live : List Allocation} (h : HeapInv P ⟨m, live⟩)
    (htable : ∀ x, P.InTable x → m' x = m x) : HeapInv P ⟨m', live⟩ := by
  refine ⟨fun i hi hne => ?_, fun a ha => (h.owned a ha).congr htable, h.distinct⟩
  rw [table_of_congr htable hi] at hne
  obtain ⟨k, b, hblock, hl, hh, hbound⟩ := h.covered i hi hne
  exact ⟨k, b, hblock.congr fun j hj => table_of_congr htable (by omega), hl, hh, hbound⟩

/-- The heap invariant does not depend on the order of the live allocations. -/
theorem perm {m : ByteMem} {live live' : List Allocation} (h : HeapInv P ⟨m, live⟩)
    (hperm : live.Perm live') : HeapInv P ⟨m, live'⟩ :=
  ⟨h.covered, fun a ha => h.owned a (hperm.mem_iff.mpr ha),
    hperm.pairwise h.distinct fun hne => hne.symm⟩

/-- What an allocating call does: it returns `NULL` and changes nothing, or it adds one owned
allocation and writes only table bytes and bytes of its pages. -/
theorem alloc (h : HeapInv P s) {op : HeapOp} {size : Nat} (hsize : op.size? = some size)
    (hop : op.Admissible P.toHeap) :
    op.call P.toHeap s.mem = (0, s.mem) ∨
    ∃ k m', op.call P.toHeap s.mem = (P.page k, m') ∧
      0 < pagesFor size ∧ k + pagesFor size ≤ P.table.total ∧
      HeapInv P ⟨m', ⟨P.page k, size⟩ :: s.live⟩ ∧
      (∀ a, P.Owns s.mem a → P.Owns m' a ∧ a.Apart ⟨P.page k, size⟩) ∧
      ∀ x, ¬ P.InTable x → ¬ (⟨P.page k, size⟩ : Allocation).Covers x → m' x = s.mem x := by
  -- both calls mark a free run and may write its pages; the rest follows from the marks
  have hmark : ∀ k, blockMarks.FreeRun (P.tableOf s.mem) P.table.total k (pagesFor size) →
      0 < pagesFor size → ∀ m', (∀ x, ¬ (⟨P.page k, size⟩ : Allocation).Covers x →
        m' x = blockMarks.put s.mem (P.table.entries + k) (pagesFor size) x) →
      HeapInv P ⟨m', ⟨P.page k, size⟩ :: s.live⟩ ∧
      (∀ a, P.Owns s.mem a → P.Owns m' a ∧ a.Apart ⟨P.page k, size⟩) ∧
      ∀ x, ¬ P.InTable x → ¬ (⟨P.page k, size⟩ : Allocation).Covers x → m' x = s.mem x := by
    intro k hrun hpos m' hag
    have hnew : P.Owns (blockMarks.put s.mem (P.table.entries + k) (pagesFor size))
        ⟨P.page k, size⟩ :=
      owns_marked hrun hpos rfl
    have htable : ∀ x, P.InTable x →
        m' x = blockMarks.put s.mem (P.table.entries + k) (pagesFor size) x :=
      fun x hx => hag x fun hcov => not_in_table_of_in_pages (hnew.in_pages hcov) hx
    have hkeep : ∀ a, P.Owns s.mem a → P.Owns m' a :=
      fun a ha => (ha.mark hrun hpos).congr htable
    refine ⟨⟨?_, ?_, ?_⟩, fun a ha => ⟨hkeep a ha, ha.apart_free hrun hpos rfl⟩, ?_⟩
    · have hcovered := h.covered.put hrun hpos
      rw [← table_of_put] at hcovered
      intro i hi hne
      rw [table_of_congr htable hi] at hne
      obtain ⟨k', b', hblock, hl, hh, hbound⟩ := hcovered i hi hne
      exact ⟨k', b', hblock.congr fun j hj => table_of_congr htable (by omega), hl, hh, hbound⟩
    · intro a ha
      rcases List.mem_cons.mp ha with rfl | ha
      · exact hnew.congr htable
      · exact hkeep a (h.owned a ha)
    · refine List.pairwise_cons.mpr ⟨fun a ha heq => ?_, h.distinct⟩
      exact (h.owned a ha).ptr_ne_free hrun hpos heq.symm
    · intro x hx hcov
      have hbound := hrun.bound
      rw [hag x hcov]
      simp only [InTable] at hx
      exact Marks.put_outside (by omega)
  cases op with
  | malloc sz =>
      obtain rfl : sz = size := by simpa [HeapOp.size?] using hsize
      rcases heap_malloc_cases (P := P) s.mem hop with ⟨k, hpos, _, hfit, heq⟩ | ⟨heq, _⟩
      · exact Or.inr ⟨k, _, heq, hpos, hfit.run.bound, hmark k hfit.run hpos _ fun _ _ => rfl⟩
      · exact Or.inl heq
  | zalloc sz =>
      obtain rfl : sz = size := by simpa [HeapOp.size?] using hsize
      rcases kzalloc_cases (P := P) s.mem hop with ⟨k, hpos, _, hfit, heq⟩ | heq
      · refine Or.inr ⟨k, _, heq, hpos, hfit.run.bound, hmark k hfit.run hpos _ fun x hx => ?_⟩
        -- `kzalloc` also clears the bytes it gives
        refine ByteMem.fill_outside ?_
        simp only [Allocation.Covers, pagesFor] at hx
        omega
      · exact Or.inl heq
  | free addr => simp [HeapOp.size?] at hsize

/-- What a free does: it ends the live allocation whose first page is hit, if there is one, keeps
every other owned allocation, and writes only table bytes. -/
theorem free (h : HeapInv P s) {addr : Nat} (hop : P.InPages addr) :
    HeapInv P ⟨heapFree P.toHeap s.mem addr,
      (HeapOp.free addr).track s.live 0⟩ ∧
    (∀ a, P.Owns s.mem a → ¬ (a.ptr ≤ addr ∧ addr < a.ptr + 4096) →
      P.Owns (heapFree P.toHeap s.mem addr) a) ∧
    ∀ x, ¬ P.InTable x → heapFree P.toHeap s.mem addr x = s.mem x := by
  obtain ⟨k, hk, hl, hh, hcase⟩ := heap_free_cases h.covered hop
  have hsub : ∀ a ∈ (HeapOp.free addr).track s.live 0,
      a ∈ s.live ∧ ¬ (a.ptr ≤ addr ∧ addr < a.ptr + 4096) := by
    intro a ha
    have hmem := List.mem_filter.mp ha
    exact ⟨hmem.1, of_decide_eq_true hmem.2⟩
  rcases hcase with ⟨b, hblock, hbound, heq⟩ | ⟨_, heq⟩
  · rw [heq]
    have hkeep : ∀ a, P.Owns s.mem a → ¬ (a.ptr ≤ addr ∧ addr < a.ptr + 4096) →
        P.Owns (blockMarks.erase s.mem (P.table.entries + k) b) a :=
      fun a ha hne => ha.clear hblock fun heq => hne ((ha.first_page hl hh).mpr heq)
    refine ⟨⟨?_, ?_, h.distinct.filter _⟩, hkeep, ?_⟩
    · rw [table_of_erase]
      exact h.covered.erase hblock
    · intro a ha
      exact hkeep a (h.owned a (hsub a ha).1) (hsub a ha).2
    · intro x hx
      simp only [InTable] at hx
      exact Marks.erase_outside (by omega)
  · rw [heq]
    exact ⟨⟨h.covered, fun a ha => h.owned a (hsub a ha).1, h.distinct.filter _⟩,
      fun _ ha _ => ha, fun _ _ => rfl⟩

/-- Every call keeps the invariant. -/
theorem step (h : HeapInv P s) {op : HeapOp} {s' : HeapState}
    (hstep : HeapStep P.toHeap s op s') : HeapInv P s' := by
  obtain ⟨hop, rfl⟩ := hstep
  have halloc : ∀ size, op.size? = some size →
      (∀ r, op.track s.live r = if r = 0 then s.live else ⟨r, size⟩ :: s.live) →
      HeapInv P (op.next P.toHeap s) := by
    intro size hsize htrack
    rcases h.alloc hsize hop with heq | ⟨k, m', heq, _, _, hinv, _⟩
    · rw [HeapOp.next, heq, htrack, if_pos rfl]
      exact ⟨h.covered, h.owned, h.distinct⟩
    · rw [HeapOp.next, heq, htrack, if_neg (Nat.ne_of_gt (page_pos k))]
      exact hinv
  cases op with
  | malloc size => exact halloc size rfl fun _ => rfl
  | zalloc size => exact halloc size rfl fun _ => rfl
  | free addr => exact (h.free hop).1

/-- No call writes a byte of an allocation that was live before it. -/
theorem frame (h : HeapInv P s) {op : HeapOp} {s' : HeapState}
    (hstep : HeapStep P.toHeap s op s') {a : Allocation} (ha : a ∈ s.live) {x : Nat}
    (hx : a.Covers x) : s'.mem x = s.mem x := by
  have howned := h.owned a ha
  have hout : ¬ P.InTable x := not_in_table_of_in_pages (howned.in_pages hx)
  obtain ⟨hop, rfl⟩ := hstep
  have halloc : ∀ size, op.size? = some size → (op.call P.toHeap s.mem).2 x = s.mem x := by
    intro size hsize
    rcases h.alloc hsize hop with heq | ⟨k, m', heq, _, _, _, hkeep, hframe⟩
    · rw [heq]
    · rw [heq]
      exact hframe x hout ((hkeep a howned).2 x hx)
  cases op with
  | malloc size => exact halloc size rfl
  | zalloc size => exact halloc size rfl
  | free addr => exact (h.free hop).2.2 x hout

/-- What an allocating call returns is a page of the heap with enough pages after it. -/
theorem result (h : HeapInv P s) {op : HeapOp} {size : Nat} (hsize : op.size? = some size)
    (hop : op.Admissible P.toHeap) (hne : (op.call P.toHeap s.mem).1 ≠ 0) :
    (op.call P.toHeap s.mem).1 % 4096 = 0 ∧ P.startAddr ≤ (op.call P.toHeap s.mem).1 ∧
      (op.call P.toHeap s.mem).1 + 4096 * pagesFor size ≤ P.endAddr := by
  rcases h.alloc hsize hop with heq | ⟨k, m', heq, _, hbound, _⟩
  · exact absurd (congrArg Prod.fst heq) hne
  · rw [heq]
    refine ⟨page_aligned k, ?_, page_bound hbound⟩
    simp only [page]
    omega

/-- A heap call keeps every owned allocation but the one it frees, and its bytes. -/
theorem call_keeps (h : HeapInv P s) {op : HeapOp}
    (hop : op.Admissible P.toHeap) {a : Allocation} (ha : P.Owns s.mem a)
    (hfree : ∀ addr, op = .free addr → ¬ (a.ptr ≤ addr ∧ addr < a.ptr + 4096)) :
    P.Owns (op.call P.toHeap s.mem).2 a ∧
      ∀ x, a.Covers x → (op.call P.toHeap s.mem).2 x = s.mem x := by
  have hout : ∀ x, a.Covers x → ¬ P.InTable x := fun x hx =>
    PageHeap.not_in_table_of_in_pages (ha.in_pages hx)
  have halloc : ∀ size, op.size? = some size → P.Owns (op.call P.toHeap s.mem).2 a ∧
      ∀ x, a.Covers x → (op.call P.toHeap s.mem).2 x = s.mem x := by
    intro size hsize
    rcases h.alloc hsize hop with heq | ⟨k, m', heq, _, _, _, hkeep, hframe⟩
    · rw [heq]
      exact ⟨ha, fun _ _ => rfl⟩
    · rw [heq]
      obtain ⟨howned, hapart⟩ := hkeep a ha
      exact ⟨howned, fun x hx => hframe x (hout x hx) (hapart x hx)⟩
  cases op with
  | malloc size => exact halloc size rfl
  | zalloc size => exact halloc size rfl
  | free addr =>
      obtain ⟨_, hkeep, hframe⟩ := h.free hop
      exact ⟨hkeep a ha (hfree addr rfl), fun x hx => hframe x (hout x hx)⟩

/-- An allocation that a call adds is at an address that no owned allocation has. -/
theorem track_fresh (h : HeapInv P s) {op : HeapOp}
    (hop : op.Admissible P.toHeap) {b : Allocation} (hb : P.Owns s.mem b)
    (hlive : ∀ a ∈ s.live, a.ptr ≠ b.ptr) :
    ∀ a ∈ op.track s.live (op.call P.toHeap s.mem).1, a.ptr ≠ b.ptr := by
  have halloc : ∀ size, op.size? = some size →
      (∀ r, op.track s.live r = if r = 0 then s.live else ⟨r, size⟩ :: s.live) →
      ∀ a ∈ op.track s.live (op.call P.toHeap s.mem).1, a.ptr ≠ b.ptr := by
    intro size hsize htrack a ha
    rcases h.alloc hsize hop with heq | ⟨k, m', heq, hpos, _, _, hkeep, _⟩
    · rw [heq, htrack, if_pos rfl] at ha
      exact hlive a ha
    · rw [heq, htrack, if_neg (Nat.ne_of_gt (PageHeap.page_pos k))] at ha
      rcases List.mem_cons.mp ha with rfl | hold
      · -- both would begin with the same byte
        intro hsame
        have hsame : P.page k = b.ptr := hsame
        refine (hkeep b hb).2 b.ptr (hb.covers_first (Nat.le_refl _) (by omega)) ⟨?_, ?_⟩
        · exact Nat.le_of_eq hsame
        · simp only
          omega
      · exact hlive a hold
  cases op with
  | malloc size => exact halloc size rfl fun _ => rfl
  | zalloc size => exact halloc size rfl fun _ => rfl
  | free addr => exact fun a ha => hlive a (List.mem_filter.mp ha).1

/-- The live allocations share no byte. -/
theorem apart (h : HeapInv P s) : s.live.Pairwise Allocation.Apart :=
  h.distinct.imp_of_mem fun ha ha' hne => (h.owned _ ha).apart (h.owned _ ha') hne

end HeapInv

/-- What a run of the page heap that took the transitions `trace` and reached `s` guarantees. -/
structure SafeHeapRun (H : Heap) (trace : List (Transition HeapState HeapOp)) (s : HeapState) :
    Prop where
  /-- The table is a concatenation of the segments `0x00`, `0x41` and `0xc1 0x81* 0x01`. -/
  segments : blockMarks.Segments
    ((List.range H.table.total).map fun i => s.mem (H.table.entries + i))
  /-- The live allocations share no byte. -/
  apart : s.live.Pairwise Allocation.Apart
  /-- Every address handed out is page-aligned, and its pages lie inside the heap. -/
  result : ∀ x ∈ trace, ∀ size, x.event.size? = some size →
    (x.event.call H x.before.mem).1 ≠ 0 →
    (x.event.call H x.before.mem).1 % 4096 = 0 ∧
    H.startAddr ≤ (x.event.call H x.before.mem).1 ∧
    (x.event.call H x.before.mem).1 + 4096 * pagesFor size ≤ H.endAddr
  /-- No call writes a byte of an allocation that was live before it. -/
  frame : ∀ x ∈ trace, ∀ a ∈ x.before.live, ∀ y, a.Covers y → x.after.mem y = x.before.mem y

/-- Every run of the page heap from a successful `heap_create` is safe. -/
theorem page_heap_safety {m₀ m : ByteMem} {ptr endPtr : Nat} {heapT : HeapTable} {H : Heap}
    (hcreate : heapCreate m₀ ptr endPtr heapT = .ok (H, m))
    (hstart : 0 < ptr) (hlt : ptr < endPtr) (hend : endPtr < 4294967296)
    (hsigned : endPtr - ptr < 2147483648)
    (htable : heapT.entries + heapT.total ≤ 4294967296)
    (houtside : heapT.entries + heapT.total ≤ ptr ∨ endPtr ≤ heapT.entries)
    {trace : List (Transition HeapState HeapOp)} {s : HeapState}
    (hrun : Run (HeapStep H) ⟨m, []⟩ trace s) : SafeHeapRun H trace s := by
  obtain ⟨P, rfl, hH, rfl⟩ :=
    PageHeap.of_heap_create hcreate hstart hlt hend hsigned htable houtside
  have hinit : HeapInv P ⟨m₀.fill heapT.entries heapT.total 0x00, []⟩ := by
    have := HeapInv.cleared P m₀
    rwa [show P.table = heapT from congrArg Heap.table hH] at this
  have hpreserve : ∀ s op s', HeapInv P s → HeapStep P.toHeap s op s' → HeapInv P s' :=
    fun _ _ _ h hstep => h.step hstep
  have hfinal := hrun.invariant hpreserve hinit
  have hsteps := hrun.of_mem hpreserve hinit
  exact {
    segments := Marks.covered_segments hfinal.covered
    apart := hfinal.apart
    result := fun x hx size hsize hne => (hsteps x hx).1.result hsize (hsteps x hx).2.1 hne
    frame := fun x hx a ha y hy => (hsteps x hx).1.frame (hsteps x hx).2 ha hy }

/-- The heap that `kheap_init` sets up. -/
def kernelHeap : Heap := ⟨⟨0x7e00, 25600⟩, 0x1000000, 0x7400000⟩

/-- `kheap_init` succeeds on every memory. -/
theorem kheap_init_ok (m : ByteMem) :
    kheapInit m = .ok (kernelHeap, memset m 0x7e00 0x00 25600) := by
  have halign : heapValidateAlignment 0x7400000 = true ∧ heapValidateAlignment 0x1000000 = true :=
    ⟨by decide, by decide⟩
  have hcount : heapEntryCount 0x1000000 0x7400000 ⟨0x7e00, 25600⟩ = true := by decide
  simp [kheapInit, heapCreate, halign, hcount, kernelHeap]

/-- The kernel's own heap after it hands out two pages from a cleared memory. -/
theorem page_heap_safety_kernel_heap :
    SafeHeapRun kernelHeap
      [⟨⟨memset (fun _ => 0) 0x7e00 0x00 25600, []⟩, .malloc 5000,
        (HeapOp.malloc 5000).next kernelHeap ⟨memset (fun _ => 0) 0x7e00 0x00 25600, []⟩⟩]
      ((HeapOp.malloc 5000).next kernelHeap ⟨memset (fun _ => 0) 0x7e00 0x00 25600, []⟩) :=
  page_heap_safety (kheap_init_ok fun _ => 0) (by decide) (by decide) (by decide) (by decide)
    (by decide) (by decide)
    (.snoc .nil ⟨show 5000 < 4294967296 by decide, rfl⟩)

/-- A kernel heap of eight pages. -/
def smallHeap : Heap := ⟨⟨0x7e00, 8⟩, 0x1000000, 0x1008000⟩

theorem small_heap_create (m : ByteMem) :
    heapCreate m 0x1000000 0x1008000 ⟨0x7e00, 8⟩ = .ok (smallHeap, memset m 0x7e00 0x00 8) := by
  have halign : heapValidateAlignment 0x1008000 = true ∧ heapValidateAlignment 0x1000000 = true :=
    ⟨by decide, by decide⟩
  have hcount : heapEntryCount 0x1000000 0x1008000 ⟨0x7e00, 8⟩ = true := by decide
  simp [heapCreate, halign, hcount, smallHeap]

/-- The small heap with the facts that `heap_create` checks. -/
def smallPageHeap : PageHeap :=
  ⟨smallHeap, by decide, by decide, by decide, by decide, by decide, by decide⟩

end Genesis32
