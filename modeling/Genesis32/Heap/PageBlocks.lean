import Genesis32.Heap.Heap32
import Genesis32.Library.Transition

/-!
# Blocks of one page over whole runs

What `malloc_32` and `heap32_free` of `heap/heap32.c` do to one page, over every order of calls. The
page starts with a clear table and the guard of `table_guard_set`, and the callers store where they
like behind the table. The blocks that are live are the runs that the table marks (`PageInv`), so a
call can be specified by what the callers know: `page_blocks_law`.
-/

namespace Genesis32

open Word

/-! ## Calls and runs -/

/-- A block that a caller holds: its address and its 32-byte units. -/
structure PageBlock where
  addr : Nat
  units : Nat
  deriving DecidableEq, Repr

/-- The memory, and the blocks of the page that the callers hold. -/
structure PageState where
  mem : ByteMem
  live : List PageBlock

/-- A call, or a store of a caller. -/
inductive PageOp where
  | malloc (size : Nat)
  | free (addr : Nat)
  | store (x : Nat) (v : UInt8)

/-- The units that `malloc_32` looks for. The sum wraps for the last 31 sizes. -/
def noBlocks (size : Nat) : Nat := add32 size 31 / 32

namespace PageOp

/-- A size has 32 bits, an address that is freed lies in the page, and a caller does not store into
the table. -/
def Admissible (page : Nat) : PageOp → Prop
  | malloc size => size < 4294967296
  | free addr => page ≤ addr ∧ addr < page + 4096
  | store x _ => x < page ∨ page + 128 ≤ x

/-- The state after a call or a store. -/
def next (page : Nat) (s : PageState) : PageOp → PageState
  | malloc size =>
      let r := malloc32 s.mem page size
      ⟨r.2, if r.1 = 0 then s.live else ⟨r.1, noBlocks size⟩ :: s.live⟩
  | free addr => ⟨(heap32Free s.mem page addr).2, s.live.filter fun a => a.addr ≠ addr⟩
  | store x v => ⟨Function.update s.mem x v, s.live⟩

end PageOp

/-- One call or store. -/
def PageStep (page : Nat) (s : PageState) (op : PageOp) (s' : PageState) : Prop :=
  op.Admissible page ∧ s' = op.next page s

/-! ## The law -/

/-- The table is a concatenation of the segments `0x00`, `0x41` and `0xc1 0x81* 0x01`, with the
guard behind it. -/
structure TableWhole (m : ByteMem) (page : Nat) : Prop where
  segments : blockMarks.Segments ((List.range 124).map (m.view page))
  guard : ∀ i, 124 ≤ i → i < 128 → m (page + i) = 0xab

/-- `malloc_32` returns `NULL` and changes nothing exactly when it looks for no unit or for more
than there are in a row; otherwise it marks the lowest free units and returns their address. -/
def MallocLaw (page : Nat) (s : PageState) (size : Nat) (r : Nat × ByteMem) : Prop :=
  (r.1 = 0 ↔
    noBlocks size = 0 ∨ ∀ k, ¬ blockMarks.FreeRun (s.mem.view page) 124 k (noBlocks size)) ∧
  (r.1 = 0 → r.2 = s.mem) ∧
  (r.1 ≠ 0 → ∃ k, blockMarks.FirstFit (s.mem.view page) 124 (noBlocks size) k ∧
    r.1 = page + (128 + k * 32) ∧ r.2 = blockMarks.put s.mem (page + k) (noBlocks size))

/-- `heap32_free` succeeds exactly for the address of a live block, and clears the entries of this
block; otherwise it changes nothing. -/
def FreeLaw (page : Nat) (s : PageState) (addr : Nat) (r : Bool × ByteMem) : Prop :=
  (r.1 = true ↔ ∃ a ∈ s.live, a.addr = addr) ∧
  (∀ a ∈ s.live, a.addr = addr →
    ∃ k, addr = page + (128 + k * 32) ∧ r.2 = blockMarks.erase s.mem (page + k) a.units) ∧
  ((∀ a ∈ s.live, a.addr ≠ addr) → r.2 = s.mem)

/-- What a call or a store does: the table is whole behind it, and a call obeys its law. -/
def PageLaw (page : Nat) (x : Transition PageState PageOp) : Prop :=
  TableWhole x.after.mem page ∧
    match x.event with
    | .malloc size => MallocLaw page x.before size (malloc32 x.before.mem page size)
    | .free addr => FreeLaw page x.before addr (heap32Free x.before.mem page addr)
    | .store _ _ => True

/-! ## The invariant -/

/-- The table marks runs only, the live blocks are these runs, and the guard is in place. -/
structure PageInv (page : Nat) (s : PageState) : Prop where
  covered : blockMarks.Covered (s.mem.view page) 124
  live : ∀ a, a ∈ s.live ↔ ∃ k, a.addr = page + (128 + k * 32) ∧
    blockMarks.Block (s.mem.view page) k a.units ∧ k + a.units ≤ 124
  guard : ∀ i, 124 ≤ i → i < 128 → s.mem (page + i) = 0xab

namespace PageInv

variable {page : Nat} {s s' : PageState}

theorem whole (h : PageInv page s) : TableWhole s.mem page :=
  ⟨Marks.covered_segments h.covered, h.guard⟩

/-- A clear table with its guard. -/
theorem prepared {m : ByteMem} (hzero : ∀ i < 124, m (page + i) = 0x00) :
    PageInv page ⟨tableGuardSet m page, []⟩ := by
  have hfree : ∀ i < 124, (tableGuardSet m page).view page i = 0x00 := by
    intro i hi
    have hsame : tableGuardSet m page (page + i) = m (page + i) := by
      simp only [tableGuardSet]
      rw [Function.update_of_ne (by omega), Function.update_of_ne (by omega),
        Function.update_of_ne (by omega), Function.update_of_ne (by omega)]
    exact hsame.trans (hzero i hi)
  refine ⟨Marks.covered_free hfree, fun a => ⟨fun ha => absurd ha List.not_mem_nil, ?_⟩, ?_⟩
  · intro ha
    obtain ⟨k, _, hblock, hbound⟩ := ha
    have hpos := hblock.pos
    exact absurd (hfree k (by omega)) (hblock.ne_free (Nat.le_refl k) (by omega))
  · intro i hl hh
    obtain rfl | rfl | rfl | rfl : i = 124 ∨ i = 125 ∨ i = 126 ∨ i = 127 := by omega
    all_goals simp [tableGuardSet]

/-- The invariant depends on the table. -/
theorem congr (h : PageInv page s) {m : ByteMem}
    (hsame : ∀ i < 128, m (page + i) = s.mem (page + i)) : PageInv page ⟨m, s.live⟩ where
  covered := h.covered.congr fun i hi => hsame i (by omega)
  live a := by
    refine (h.live a).trans (exists_congr fun k => and_congr_right fun _ => ?_)
    constructor
    · intro ha
      exact ⟨ha.1.congr fun j hj => hsame (k + j) (by omega), ha.2⟩
    · intro ha
      exact ⟨ha.1.congr fun j hj => (hsame (k + j) (by omega)).symm, ha.2⟩
  guard i hl hh := (hsame i hh).trans (h.guard i hl hh)

/-! ## `malloc_32` -/

/-- Marking a free run adds its block. -/
theorem put (h : PageInv page s) {k b : Nat} (hb : 0 < b)
    (hrun : blockMarks.FreeRun (s.mem.view page) 124 k b) :
    PageInv page ⟨blockMarks.put s.mem (page + k) b, ⟨page + (128 + k * 32), b⟩ :: s.live⟩ := by
  have hview : ByteMem.view (blockMarks.put s.mem (page + k) b) page =
      blockMarks.put (s.mem.view page) k b := Marks.put_shift s.mem page k b
  have hbound := hrun.bound
  refine ⟨?_, fun a => ?_, fun i hl hh => ?_⟩
  · rw [hview]
    exact h.covered.put hrun hb
  · rw [hview, List.mem_cons, h.live]
    constructor
    · intro ha
      rcases ha with rfl | ⟨k', haddr, hblock, hlt⟩
      · exact ⟨k, rfl, (Marks.block_put_iff hrun hb).mpr (Or.inl ⟨rfl, rfl⟩), hbound⟩
      · exact ⟨k', haddr, (Marks.block_put_iff hrun hb).mpr (Or.inr hblock), hlt⟩
    · intro ha
      obtain ⟨k', haddr, hblock, hlt⟩ := ha
      rcases (Marks.block_put_iff hrun hb).mp hblock with ⟨hk, hunits⟩ | hold
      · subst hk
        exact Or.inl (by rw [← haddr, ← hunits])
      · exact Or.inr ⟨k', haddr, hold, hlt⟩
  · exact (Marks.put_outside (by omega)).trans (h.guard i hl hh)

/-- A call of `malloc_32` obeys the law and keeps the invariant. -/
theorem malloc (h : PageInv page s) (size : Nat) :
    MallocLaw page s size (malloc32 s.mem page size) ∧
      PageInv page (PageOp.next page s (.malloc size)) := by
  rw [PageOp.next]
  rcases malloc32_cases s.mem page size with ⟨k, hpos, hfit, heq⟩ | ⟨heq, hnone⟩
  · rw [heq]
    simp only
    have hne : page + (128 + k * 32) ≠ 0 := by omega
    refine ⟨⟨iff_of_false hne ?_, fun hnull => absurd hnull hne, fun _ => ⟨k, hfit, rfl, rfl⟩⟩, ?_⟩
    · intro hno
      rcases hno with hzero | hfull
      · exact absurd hpos (Nat.not_lt.mpr (Nat.le_of_eq hzero))
      · exact hfull k hfit.run
    · rw [if_neg hne]
      exact h.put hpos hfit.run
  · rw [heq]
    simp only [if_true]
    refine ⟨⟨iff_of_true rfl ?_, fun _ => rfl, fun hne => absurd rfl hne⟩, h⟩
    rcases Nat.eq_zero_or_pos (noBlocks size) with hzero | hpos
    · exact Or.inl hzero
    · exact Or.inr (hnone hpos)

/-! ## `heap32_free` -/

/-- Freeing the run of a block takes it from the live blocks. -/
theorem erase (h : PageInv page s) {k b : Nat} (hblock : blockMarks.Block (s.mem.view page) k b)
    (hbound : k + b ≤ 124) :
    PageInv page ⟨blockMarks.erase s.mem (page + k) b,
      s.live.filter fun a => a.addr ≠ page + (128 + k * 32)⟩ := by
  have hview : ByteMem.view (blockMarks.erase s.mem (page + k) b) page =
      blockMarks.erase (s.mem.view page) k b := Marks.erase_shift s.mem page k b
  refine ⟨?_, fun a => ?_, fun i hl hh => ?_⟩
  · rw [hview]
    exact h.covered.erase hblock
  · rw [hview, List.mem_filter, h.live, decide_eq_true_eq]
    constructor
    · intro ha
      obtain ⟨⟨k', haddr, hold, hlt⟩, hne⟩ := ha
      refine ⟨k', haddr, hblock.erase_iff.mpr ⟨fun hk => hne ?_, hold⟩, hlt⟩
      rw [haddr, hk]
    · intro ha
      obtain ⟨k', haddr, hnew, hlt⟩ := ha
      obtain ⟨hk, hold⟩ := hblock.erase_iff.mp hnew
      exact ⟨⟨k', haddr, hold, hlt⟩, by omega⟩
  · exact (Marks.erase_outside (by omega)).trans (h.guard i hl hh)

/-- In a table of runs, an entry that a run could start with is the start of one. -/
theorem block_of_head (h : PageInv page s) {k : Nat} (hk : k < 124)
    (hhead : s.mem.view page k = blockMarks.single ∨ s.mem.view page k = blockMarks.first) :
    ∃ b, blockMarks.Block (s.mem.view page) k b ∧ k + b ≤ 124 := by
  have hne : s.mem.view page k ≠ blockMarks.free := by
    rcases hhead with heq | heq <;> rw [heq] <;> decide
  obtain ⟨k', b, hblock, hl, hh, hbound⟩ := h.covered k hk hne
  rcases Nat.eq_or_lt_of_le hl with rfl | hlt
  · exact ⟨b, hblock, hbound⟩
  · -- an entry inside a run carries another mark
    have hmark := hblock.marks (k - k') (by omega)
    rw [Nat.add_sub_cancel' hl] at hmark
    obtain ⟨hsingle, hfirst⟩ := blockMarks.mark_succ_ne (b := b) (j := k - k') (by omega) (by omega)
    rw [← hmark] at hsingle hfirst
    rcases hhead with heq | heq
    · exact absurd heq hsingle
    · exact absurd heq hfirst

/-- What `heap32_free` does to an address in the page: it frees the block that starts there, or
nothing where none does. -/
theorem free_cases (h : PageInv page s) (hpage : page + 4096 ≤ 4294967296) {addr : Nat}
    (hl : page ≤ addr) (hh : addr < page + 4096) :
    (∃ k b, addr = page + (128 + k * 32) ∧ blockMarks.Block (s.mem.view page) k b ∧ k + b ≤ 124 ∧
      heap32Free s.mem page addr = (true, blockMarks.erase s.mem (page + k) b)) ∨
    (heap32Free s.mem page addr = (false, s.mem) ∧ ∀ a ∈ s.live, a.addr ≠ addr) := by
  rcases heap32_free_eq s.mem hl hh hpage with ⟨heq, hno⟩ | ⟨k, hk, haddr, heq⟩
  · refine Or.inr ⟨heq, fun a ha hsame => ?_⟩
    obtain ⟨k, hka, _⟩ := (h.live a).mp ha
    exact hno k (hsame.symm.trans hka)
  · rcases heap32_free_entry_cases hk (h.guard 124 (by omega) (by omega)) with
      ⟨hentry, hnone⟩ | ⟨r, _, hstretch, hmem, hfree⟩
    · refine Or.inr ⟨heq.trans hentry, fun a ha hsame => ?_⟩
      obtain ⟨k', hka, hblock, _⟩ := (h.live a).mp ha
      obtain rfl : k' = k := by omega
      exact hnone _ hblock
    · obtain ⟨b, hblock, hbound⟩ := h.block_of_head hk hstretch.head
      obtain ⟨rfl, htrue⟩ := hfree b hblock hbound
      exact Or.inl ⟨k, r, haddr, hblock, hbound, heq.trans (Prod.ext htrue hmem)⟩

/-- A call of `heap32_free` obeys the law and keeps the invariant. -/
theorem free (h : PageInv page s) (hpage : page + 4096 ≤ 4294967296) {addr : Nat}
    (hl : page ≤ addr) (hh : addr < page + 4096) :
    FreeLaw page s addr (heap32Free s.mem page addr) ∧
      PageInv page (PageOp.next page s (.free addr)) := by
  rw [PageOp.next]
  rcases h.free_cases hpage hl hh with ⟨k, b, haddr, hblock, hbound, heq⟩ | ⟨heq, hno⟩
  · have hlive : (⟨addr, b⟩ : PageBlock) ∈ s.live := (h.live _).mpr ⟨k, haddr, hblock, hbound⟩
    rw [heq]
    refine ⟨⟨iff_of_true rfl ⟨_, hlive, rfl⟩, fun a ha hsame => ⟨k, haddr, ?_⟩, fun hno => ?_⟩, ?_⟩
    · -- one block starts at an address
      obtain ⟨k', hka, hblock', _⟩ := (h.live a).mp ha
      obtain rfl : k' = k := by omega
      rw [hblock.length_unique hblock']
    · exact absurd rfl (hno _ hlive)
    · rw [haddr]
      exact h.erase hblock hbound
  · have hkept : s.live.filter (fun a => a.addr ≠ addr) = s.live :=
      List.filter_eq_self.mpr fun a ha => decide_eq_true (hno a ha)
    rw [heq, hkept]
    refine ⟨⟨iff_of_false Bool.false_ne_true ?_, fun a ha hsame => absurd hsame (hno a ha),
      fun _ => rfl⟩, h⟩
    intro hlive
    obtain ⟨a, ha, hsame⟩ := hlive
    exact hno a ha hsame

/-! ## Runs -/

/-- One step. -/
theorem step (h : PageInv page s) (hpage : page + 4096 ≤ 4294967296) {op : PageOp}
    (hstep : PageStep page s op s') : PageInv page s' ∧ PageLaw page ⟨s, op, s'⟩ := by
  obtain ⟨hop, rfl⟩ := hstep
  cases op with
  | malloc size =>
      obtain ⟨hlaw, hinv⟩ := h.malloc size
      exact ⟨hinv, hinv.whole, hlaw⟩
  | free addr =>
      obtain ⟨hlaw, hinv⟩ := h.free hpage hop.1 hop.2
      exact ⟨hinv, hinv.whole, hlaw⟩
  | store x v =>
      have hinv : PageInv page (PageOp.next page s (.store x v)) := h.congr fun i hi => by
        rcases hop with hbefore | hbehind
        · exact Function.update_of_ne (by omega) ..
        · exact Function.update_of_ne (by omega) ..
      exact ⟨hinv, hinv.whole, trivial⟩

end PageInv

/-- Every run of `malloc_32` and `heap32_free` on a page that was prepared with a clear table and
`table_guard_set` keeps the table whole, in every state, and obeys the law of each call. -/
theorem page_blocks_law {m : ByteMem} {page : Nat} (hpage : page + 4096 ≤ 4294967296)
    (hzero : ∀ i < 124, m (page + i) = 0x00) {trace : List (Transition PageState PageOp)}
    {s : PageState} (hrun : Run (PageStep page) ⟨tableGuardSet m page, []⟩ trace s) :
    TableWhole (tableGuardSet m page) page ∧ ∀ x ∈ trace, PageLaw page x := by
  have hinit := PageInv.prepared hzero
  have hsteps := hrun.of_mem (fun _ _ _ h hstep => (h.step hpage hstep).1) hinit
  exact ⟨hinit.whole, fun x hx => ((hsteps x hx).1.step hpage (hsteps x hx).2).2⟩

/-- Three blocks, a store into the second one, which is then freed twice, a size that finds no room,
and one that does in front of the third block. -/
def pageOps : List PageOp :=
  [.malloc 4, .malloc 100, .malloc 33, .store 0x14010a0 0x55, .free 0x14010a0, .free 0x14010a0,
    .malloc 4096, .malloc 64]

/-- The calls of `pageOps` in a page of the kernel heap. -/
theorem page_blocks_law_reused_block :
    let start : PageState := ⟨tableGuardSet (fun _ => 0x00) 0x1401000, []⟩
    (TableWhole start.mem 0x1401000 ∧
      ∀ x ∈ transitions (PageOp.next 0x1401000) start pageOps, PageLaw 0x1401000 x) ∧
    (pageOps.foldl (PageOp.next 0x1401000) start).live =
      [⟨0x14010a0, 2⟩, ⟨0x1401120, 2⟩, ⟨0x1401080, 1⟩] := by
  intro start
  have hadmissible : ∀ op ∈ pageOps, op.Admissible 0x1401000 := by
    simp [pageOps, PageOp.Admissible]
  refine ⟨page_blocks_law (by decide) (fun _ _ => rfl) (.of_transitions fun x hx => ?_),
    by decide +kernel⟩
  obtain ⟨hevent, hafter⟩ := mem_transitions x hx
  exact ⟨hadmissible _ hevent, hafter⟩

end Genesis32
