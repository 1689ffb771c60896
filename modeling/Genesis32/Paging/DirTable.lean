import Mathlib.Data.Finset.Card
import Mathlib.Data.Finset.Image
import Genesis32.Heap.PageHeapSafety

/-!
# The page directory

`create_32_dir_table` of `paging/paging.c`, and the two-level walk of the processor (4 KiB pages,
page-size extension off) as its specification. A directory is one page of 1024 entries; each entry
holds the address of a page table, another page of 1024 entries, in its high 20 bits.

The loop gives a page table to every directory entry until the heap has no page left. Identity rests
on two facts: the physical offset advances with the tables, and a heap that returned `NULL` keeps
returning it, so the entries without a table are the last ones. `DirTables` is the loop invariant
and `create_32_dir_table_identity` the result.
-/

namespace Genesis32

open Word

/-- `PAGING_PRESENT`. -/
abbrev pagingPresent : Nat := 1

/-- `READ_AND_WRITE`. -/
abbrev readAndWrite : Nat := 2

/-- An entry of either level: an address, the caller's flags, and the two bits that are always
set. -/
def flaggedEntry (addr flags : Nat) : Nat :=
  addr ||| (flags &&& 0xfff) ||| readAndWrite ||| pagingPresent

/-- The inner `for` of `create_32_dir_table`: it fills the page table at `page` from entry `j` and
returns the memory and the offset it ends with. -/
def fillTable (m : ByteMem) (page flags : Nat) : Nat → Nat → Nat → ByteMem × Nat
  | 0, _, offset => (m, offset)
  | n + 1, j, offset =>
      fillTable (m.setWord32 (page + 4 * j) (flaggedEntry offset flags)) page flags n (j + 1)
        (add32 offset 0x1000)

/-- The body of the outer `for` of `create_32_dir_table`, for directory entry `i`. -/
def fillDirEntry (H : Heap) (m : ByteMem) (dir flags i offset : Nat) : ByteMem × Nat :=
  match kzalloc H m 4096 with
  | (indexVal, m) =>
      if indexVal = 0 then (m.setWord32 (dir + 4 * i) 0, offset)
      else if indexVal &&& 0xfff ≠ 0 then (m.setWord32 (dir + 4 * i) 0, offset)
      else
        fillTable (m.setWord32 (dir + 4 * i) (flaggedEntry (indexVal &&& 0xfffff000) flags))
          indexVal flags 1024 0 offset

/-- The outer `for` of `create_32_dir_table` from entry `i`. -/
def fillDirTable (H : Heap) (m : ByteMem) (dir flags : Nat) : Nat → Nat → Nat → ByteMem
  | 0, _, _ => m
  | n + 1, i, offset =>
      let entry := fillDirEntry H m dir flags i offset
      fillDirTable H entry.1 dir flags n (i + 1) entry.2

/-- `create_32_dir_table`: the address of the directory, or `0`, and the memory. -/
def create32DirTable (H : Heap) (m : ByteMem) (flags : Nat) : Nat × ByteMem :=
  match kzalloc H m 4096 with
  | (rtnVal, m) =>
      if rtnVal = 0 then (0, m)
      else if rtnVal &&& 0xfff ≠ 0 then (0, m)
      else (rtnVal, fillDirTable H m rtnVal flags 1024 0 0)

/-! ## The walk of the processor -/

/-- The present bit of an entry. -/
def Present (entry : Nat) : Prop := entry.testBit 0 = true

/-- The read/write bit of an entry. -/
def Writable (entry : Nat) : Prop := entry.testBit 1 = true

instance (entry : Nat) : Decidable (Present entry) := inferInstanceAs (Decidable (_ = true))

/-- The address in an entry. -/
def entryAddr (entry : Nat) : Nat := entry &&& 0xfffff000

/-- Entry `i` of the directory. -/
def dirEntry (m : ByteMem) (dir i : Nat) : Nat := m.word32 (dir + 4 * i)

/-- The page-table entry that the walk finds for a virtual page. -/
def pageEntry (m : ByteMem) (dir page : Nat) : Nat :=
  m.word32 (entryAddr (dirEntry m dir (page / 1024)) + 4 * (page % 1024))

/-- The two-level walk of a virtual address. -/
def walk (m : ByteMem) (dir va : Nat) : Option Nat :=
  if Present (dirEntry m dir (va / 4096 / 1024)) ∧ Present (pageEntry m dir (va / 4096)) then
    some (entryAddr (pageEntry m dir (va / 4096)) + va % 4096)
  else none

/-! ## Entries -/

/-- The bits that every entry carries besides its address. -/
def entryFlags (flags : Nat) : Nat := (flags &&& 0xfff) ||| readAndWrite ||| pagingPresent

theorem entry_flags_lt (flags : Nat) : entryFlags flags < 4096 := by
  have hand : flags &&& 0xfff < 2 ^ 12 := Nat.and_lt_two_pow _ (by decide)
  exact Nat.or_lt_two_pow (Nat.or_lt_two_pow hand (by decide)) (by decide)

/-- On a page-aligned address the flags are added. -/
theorem flagged_entry_eq {addr flags : Nat} (haddr : addr % 4096 = 0) :
    flaggedEntry addr flags = addr + entryFlags flags := by
  have hlow := lor_low (n := 12) haddr (entry_flags_lt flags)
  rwa [entryFlags, ← Nat.or_assoc, ← Nat.or_assoc] at hlow

theorem flagged_entry_present (addr flags : Nat) : Present (flaggedEntry addr flags) := by
  simp [Present, flaggedEntry]

theorem flagged_entry_writable (addr flags : Nat) : Writable (flaggedEntry addr flags) := by
  have hbit : Nat.testBit 2 1 = true := by decide
  simp [Writable, flaggedEntry, Nat.testBit_or, hbit]

/-- Masking an entry gives its address back. -/
theorem entry_addr_flagged {addr flags : Nat} (haddr : addr % 4096 = 0)
    (hlt : addr < 4294967296) : entryAddr (flaggedEntry addr flags) = addr := by
  have hflags := entry_flags_lt flags
  have hround := land_high (w := 32) (n := 12) (x := addr + entryFlags flags) (by decide)
    (by omega)
  rw [flagged_entry_eq haddr, entryAddr, show (0xfffff000 : Nat) = 2 ^ 32 - 2 ^ 12 by decide,
    hround]
  omega

/-- Masking leaves a page-aligned address alone. -/
theorem entry_addr_aligned {addr : Nat} (haddr : addr % 4096 = 0) (hlt : addr < 4294967296) :
    entryAddr addr = addr := by
  have hround := land_high (w := 32) (n := 12) (x := addr) (by decide) (by omega)
  rw [entryAddr, show (0xfffff000 : Nat) = 2 ^ 32 - 2 ^ 12 by decide, hround]
  omega

theorem land_offset_aligned {addr : Nat} (haddr : addr % 4096 = 0) : addr &&& 0xfff = 0 := by
  rw [show (0xfff : Nat) = 2 ^ 12 - 1 by decide, Nat.and_two_pow_sub_one_eq_mod]
  exact haddr

theorem not_present_zero : ¬ Present 0 := by decide

/-! ## Filling a page table -/

/-- The offset advances by a page for each entry, and wraps with its word. -/
theorem fill_table_offset {page flags : Nat} :
    ∀ n (m : ByteMem) j offset, offset < 4294967296 →
      (fillTable m page flags n j offset).2 = (offset + 4096 * n) % 4294967296 := by
  intro n
  induction n with
  | zero =>
      intro m j offset hlt
      exact (Nat.mod_eq_of_lt hlt).symm
  | succ n ih =>
      intro m j offset _
      have hnext : add32 offset 0x1000 < 4294967296 := Nat.mod_lt _ (by omega)
      rw [fillTable, ih _ _ _ hnext, add32]
      omega

theorem flagged_entry_lt {addr flags : Nat} (halign : addr % 4096 = 0)
    (hlt : addr < 4294967296) : flaggedEntry addr flags < 4294967296 := by
  have hflags := entry_flags_lt flags
  rw [flagged_entry_eq halign]
  omega

/-- Filling writes the entries of consecutive pages and nothing else. -/
theorem fill_table_spec {page flags : Nat} :
    ∀ n (m : ByteMem) j offset, offset % 4096 = 0 → offset < 4294967296 →
      (∀ x, x < page + 4 * j ∨ page + 4 * (j + n) ≤ x →
        (fillTable m page flags n j offset).1 x = m x) ∧
      ∀ l, l < n → (fillTable m page flags n j offset).1.word32 (page + 4 * (j + l)) =
        flaggedEntry ((offset + 4096 * l) % 4294967296) flags := by
  intro n
  induction n with
  | zero => intro m j offset _ _; exact ⟨fun x _ => rfl, fun l hl => by omega⟩
  | succ n ih =>
      intro m j offset halign hlt
      have hnext : add32 offset 0x1000 % 4096 = 0 := by
        unfold add32
        omega
      have hnextLt : add32 offset 0x1000 < 4294967296 := Nat.mod_lt _ (by omega)
      obtain ⟨hout, hentries⟩ := ih (m.setWord32 (page + 4 * j) (flaggedEntry offset flags))
        (j + 1) (add32 offset 0x1000) hnext hnextLt
      rw [fillTable]
      refine ⟨fun x hx => ?_, fun l hl => ?_⟩
      · rw [hout x (by omega), ByteMem.setWord32_outside (by omega)]
      · rcases l with _ | l
        · -- the later rounds leave the first entry alone
          have hsame := ByteMem.word32_congr (a := page + 4 * j) fun x _ _ => hout x (by omega)
          rw [show page + 4 * (j + 0) = page + 4 * j by omega, hsame,
            ByteMem.word32_setWord32_same, Nat.mod_eq_of_lt (flagged_entry_lt halign hlt),
            show (offset + 4096 * 0) % 4294967296 = offset by omega]
        · have hrest := hentries l (by omega)
          rw [show j + 1 + l = j + (l + 1) by omega] at hrest
          have hoffset : (add32 offset 0x1000 + 4096 * l) % 4294967296 =
              (offset + 4096 * (l + 1)) % 4294967296 := by
            unfold add32
            omega
          rw [hrest, hoffset]

/-! ## Filling the directory -/

/-- After the first `i` directory entries `c` of them have the tables `t 0`, .., `t (c - 1)`, and
the others are absent because the heap has run out of pages. -/
structure DirTables (P : PageHeap) (m : ByteMem) (dir flags : Nat) (t : Nat → Nat) (c i : Nat) :
    Prop where
  heap : HeapInv P ⟨m, []⟩
  dirOwned : P.Owns m ⟨dir, 4096⟩
  owned : ∀ j, j < c → P.Owns m ⟨t j, 4096⟩
  neDir : ∀ j, j < c → t j ≠ dir
  distinct : ∀ j k, j < c → k < c → t j = t k → j = k
  present : ∀ j, j < c → dirEntry m dir j = flaggedEntry (t j) flags
  absent : ∀ j, c ≤ j → j < i → dirEntry m dir j = 0
  entries : ∀ j, j < c → ∀ l, l < 1024 →
    m.word32 (t j + 4 * l) = flaggedEntry (4096 * (1024 * j + l)) flags
  count : c ≤ i
  full : c < i → (kzalloc P.toHeap m 4096).1 = 0

theorem pages_for_table : pagesFor 4096 = 1 := by decide

theorem covers_table {a x : Nat} :
    (⟨a, 4096⟩ : Allocation).Covers x ↔ a ≤ x ∧ x < a + 4096 := by
  simp only [Allocation.Covers, pages_for_table]

/-- A store to a directory entry moves no other entry. -/
theorem dir_entry_set_other {m : ByteMem} {dir i j v : Nat} (hne : j ≠ i) :
    dirEntry (m.setWord32 (dir + 4 * i) v) dir j = dirEntry m dir j :=
  ByteMem.word32_setWord32_other (by omega)

theorem dir_entry_set_same {m : ByteMem} {dir i v : Nat} (hv : v < 4294967296) :
    dirEntry (m.setWord32 (dir + 4 * i) v) dir i = v := by
  rw [dirEntry, ByteMem.word32_setWord32_same, Nat.mod_eq_of_lt hv]

namespace DirTables

variable {P : PageHeap} {m m' : ByteMem} {dir flags : Nat} {t : Nat → Nat} {c i : Nat}

/-- A table is a page of the heap, so its address is aligned and below `2 ^ 32`. -/
theorem table_addr {a : Nat} (h : P.Owns m ⟨a, 4096⟩) :
    0 < a ∧ a % 4096 = 0 ∧ a + 4096 < 4294967296 := by
  obtain ⟨k, hptr, hblock, hbound⟩ := h
  have hend := P.endLt
  have hpage := PageHeap.page_bound hbound
  have hpos := PageHeap.page_pos (P := P) k
  have haligned := PageHeap.page_aligned (P := P) k
  rw [pages_for_table] at hpage
  simp only at hptr
  omega

/-- The invariant depends on the kernel table, on the pages of the tables, and on the entries. -/
theorem congr (h : DirTables P m dir flags t c i) (hheap : HeapInv P ⟨m', []⟩)
    (howned : ∀ a, P.Owns m a → P.Owns m' a)
    (hpages : ∀ j, j < c → ∀ x, (⟨t j, 4096⟩ : Allocation).Covers x → m' x = m x)
    (hdir : ∀ j, j < i → dirEntry m' dir j = dirEntry m dir j)
    (hfull : c < i → (kzalloc P.toHeap m' 4096).1 = 0) : DirTables P m' dir flags t c i := by
  refine ⟨hheap, howned _ h.dirOwned, fun j hj => howned _ (h.owned j hj), h.neDir, h.distinct,
    fun j hj => ?_, fun j hl hh => ?_, fun j hj l hl => ?_, h.count, hfull⟩
  · rw [hdir j (Nat.lt_of_lt_of_le hj h.count)]
    exact h.present j hj
  · rw [hdir j hh]
    exact h.absent j hl hh
  · rw [← h.entries j hj l hl]
    exact ByteMem.word32_congr fun x _ _ => hpages j hj x (covers_table.mpr (by omega))

/-- Where the heap has no page left the entry becomes absent. -/
theorem skip (h : DirTables P m dir flags t c i) (hi : i < 1024)
    (hnull : (kzalloc P.toHeap m 4096).1 = 0) :
    DirTables P (m.setWord32 (dir + 4 * i) 0) dir flags t c (i + 1) := by
  have hout : ∀ x, ¬ (⟨dir, 4096⟩ : Allocation).Covers x →
      m.setWord32 (dir + 4 * i) 0 x = m x := by
    intro x hx
    rw [covers_table] at hx
    exact ByteMem.setWord32_outside (by omega)
  have htable : ∀ x, P.InTable x → m.setWord32 (dir + 4 * i) 0 x = m x := fun x hx =>
    hout x fun hcov => PageHeap.not_in_table_of_in_pages (h.dirOwned.in_pages hcov) hx
  have hnull' : kzalloc P.toHeap (m.setWord32 (dir + 4 * i) 0) 4096 =
      (0, m.setWord32 (dir + 4 * i) 0) :=
    PageHeap.kzalloc_null_congr (by omega) htable hnull
  have hkeep : DirTables P (m.setWord32 (dir + 4 * i) 0) dir flags t c i := by
    refine h.congr (h.heap.congr htable) (fun a ha => ha.congr htable) (fun j hj x hx => ?_)
      (fun j hj => dir_entry_set_other (by omega)) fun _ => by rw [hnull']
    exact hout x ((h.owned j hj).apart h.dirOwned (h.neDir j hj) x hx)
  refine { hkeep with
    absent := fun j hl hh => ?_
    count := by have := h.count; omega
    full := fun _ => by rw [hnull'] }
  rcases Nat.lt_succ_iff_lt_or_eq.mp hh with hlt | rfl
  · exact hkeep.absent j hl hlt
  · exact dir_entry_set_same (by omega)

/-- Filling a table stores only in the directory and in the table. -/
theorem fill_frame {m₁ : ByteMem} {page entry offset x : Nat} (hi : i < 1024)
    (halign : offset % 4096 = 0) (hlt : offset < 4294967296)
    (hdir : ¬ (⟨dir, 4096⟩ : Allocation).Covers x)
    (hpage : ¬ (⟨page, 4096⟩ : Allocation).Covers x) :
    (fillTable (m₁.setWord32 (dir + 4 * i) entry) page flags 1024 0 offset).1 x = m₁ x := by
  rw [covers_table] at hdir hpage
  rw [(fill_table_spec 1024 _ 0 offset halign hlt).1 x (by omega),
    ByteMem.setWord32_outside (by omega)]

theorem fill_frame_table {m₁ : ByteMem} {page entry offset x : Nat} (hi : i < 1024)
    (halign : offset % 4096 = 0) (hlt : offset < 4294967296) (hdir : P.Owns m ⟨dir, 4096⟩)
    (hpage : P.Owns m₁ ⟨page, 4096⟩) (hx : P.InTable x) :
    (fillTable (m₁.setWord32 (dir + 4 * i) entry) page flags 1024 0 offset).1 x = m₁ x :=
  fill_frame hi halign hlt
    (fun hcov => PageHeap.not_in_table_of_in_pages (hdir.in_pages hcov) hx)
    fun hcov => PageHeap.not_in_table_of_in_pages (hpage.in_pages hcov) hx

/-- Where the heap still has a page the entry gets a filled table. -/
theorem fill (h : DirTables P m dir flags t i i) (hi : i < 1024) {page : Nat} {m₁ : ByteMem}
    (hpage : P.Owns m₁ ⟨page, 4096⟩) (hheap : HeapInv P ⟨m₁, []⟩)
    (hkeep : ∀ a, P.Owns m a → P.Owns m₁ a ∧ a.Apart ⟨page, 4096⟩)
    (hframe : ∀ x, ¬ P.InTable x → ¬ (⟨page, 4096⟩ : Allocation).Covers x → m₁ x = m x) :
    DirTables P (fillTable (m₁.setWord32 (dir + 4 * i) (flaggedEntry page flags)) page flags 1024 0
      (4194304 * i)).1 dir flags (Function.update t i page) (i + 1) (i + 1) := by
  obtain ⟨_, halign, hlt⟩ := table_addr hpage
  obtain ⟨hout, hentries⟩ := @fill_table_spec page flags 1024
    (m₁.setWord32 (dir + 4 * i) (flaggedEntry page flags)) 0 (4194304 * i) (by omega) (by omega)
  have hsame : ∀ x, ¬ (⟨dir, 4096⟩ : Allocation).Covers x →
      ¬ (⟨page, 4096⟩ : Allocation).Covers x →
      (fillTable (m₁.setWord32 (dir + 4 * i) (flaggedEntry page flags)) page flags 1024 0
        (4194304 * i)).1 x = m₁ x :=
    fun x hdir hnew => fill_frame hi (by omega) (by omega) hdir hnew
  have htable : ∀ x, P.InTable x →
      (fillTable (m₁.setWord32 (dir + 4 * i) (flaggedEntry page flags)) page flags 1024 0
        (4194304 * i)).1 x = m₁ x :=
    fun x hx => fill_frame_table hi (by omega) (by omega) h.dirOwned hpage hx
  generalize (fillTable (m₁.setWord32 (dir + 4 * i) (flaggedEntry page flags)) page flags 1024
    0 (4194304 * i)).1 = m' at hout hentries hsame htable ⊢
  -- the directory and the older tables are apart from the new page
  have hdirSame : ∀ x, (⟨dir, 4096⟩ : Allocation).Covers x →
      m' x = m₁.setWord32 (dir + 4 * i) (flaggedEntry page flags) x := by
    intro x hx
    have hnew := (hkeep _ h.dirOwned).2 x hx
    rw [covers_table] at hnew
    exact hout x (by omega)
  have hframeOld : ∀ a, P.Owns m a → ∀ x, a.Covers x → m₁ x = m x := fun a ha x hx =>
    hframe x (PageHeap.not_in_table_of_in_pages (ha.in_pages hx)) ((hkeep a ha).2 x hx)
  have hdir : ∀ j, j < 1024 → dirEntry m' dir j =
      dirEntry (m₁.setWord32 (dir + 4 * i) (flaggedEntry page flags)) dir j := fun j hj =>
    ByteMem.word32_congr fun x hl hh => hdirSame x (covers_table.mpr (by omega))
  have hdirOld : ∀ j, j < i → dirEntry m' dir j = dirEntry m dir j := by
    intro j hj
    rw [hdir j (by omega), dir_entry_set_other (by omega)]
    exact ByteMem.word32_congr fun x hl hh =>
      hframeOld _ h.dirOwned x (covers_table.mpr (by omega))
  have hold : DirTables P m' dir flags t i i := by
    refine h.congr (hheap.congr htable) (fun a ha => (hkeep a ha).1.congr htable)
      (fun j hj x hx => ?_) hdirOld fun hlt => absurd hlt (Nat.lt_irrefl i)
    rw [hsame x ((h.owned j hj).apart h.dirOwned (h.neDir j hj) x hx)
      ((hkeep _ (h.owned j hj)).2 x hx)]
    exact hframeOld _ (h.owned j hj) x hx
  -- a page that was taken before is not the one the heap gives now
  have hneOld : ∀ a, P.Owns m ⟨a, 4096⟩ → a ≠ page := fun a ha heq => by
    have happart := (hkeep _ ha).2 a (covers_table.mpr (by omega))
    rw [covers_table] at happart
    omega
  have hupdate : ∀ j, j < i → Function.update t i page j = t j :=
    fun j hj => Function.update_of_ne (by omega) ..
  have hupdateSame : Function.update t i page i = page := Function.update_self ..
  refine ⟨hold.heap, hold.dirOwned, fun j hj => ?_, fun j hj => ?_, fun j k hj hk heq => ?_,
    fun j hj => ?_, fun j hl hh => by omega, fun j hj l hl => ?_, Nat.le_refl _,
    fun hlt => absurd hlt (Nat.lt_irrefl _)⟩
  · rcases Nat.lt_succ_iff_lt_or_eq.mp hj with hlt | rfl
    · rw [hupdate j hlt]
      exact hold.owned j hlt
    · rw [hupdateSame]
      exact hpage.congr htable
  · rcases Nat.lt_succ_iff_lt_or_eq.mp hj with hlt | rfl
    · rw [hupdate j hlt]
      exact hold.neDir j hlt
    · rw [hupdateSame]
      exact (hneOld dir h.dirOwned).symm
  · rcases Nat.lt_succ_iff_lt_or_eq.mp hj with hjlt | rfl <;>
      rcases Nat.lt_succ_iff_lt_or_eq.mp hk with hklt | rfl
    · rw [hupdate j hjlt, hupdate k hklt] at heq
      exact hold.distinct j k hjlt hklt heq
    · rw [hupdate j hjlt, hupdateSame] at heq
      exact absurd heq (hneOld _ (h.owned j hjlt))
    · rw [hupdate k hklt, hupdateSame] at heq
      exact absurd heq.symm (hneOld _ (h.owned k hklt))
    · rfl
  · rcases Nat.lt_succ_iff_lt_or_eq.mp hj with hlt | rfl
    · rw [hupdate j hlt]
      exact hold.present j hlt
    · rw [hupdateSame, hdir j (by omega)]
      exact dir_entry_set_same (flagged_entry_lt halign (by omega))
  · rcases Nat.lt_succ_iff_lt_or_eq.mp hj with hlt | rfl
    · rw [hupdate j hlt]
      exact hold.entries j hlt l hl
    · rw [hupdateSame]
      have hentry := hentries l hl
      rw [Nat.zero_add] at hentry
      rw [hentry, show (4194304 * j + 4096 * l) % 4294967296 = 4096 * (1024 * j + l) by omega]

/-- An allocation of one page changes one entry of the kernel table. -/
theorem taken_other {m₁ : ByteMem} {k l : Nat} (heq : kzalloc P.toHeap m 4096 = (P.page k, m₁))
    (hl : l < P.table.total) (hlk : l ≠ k) : P.tableOf m₁ l = P.tableOf m l := by
  rcases PageHeap.kzalloc_cases (P := P) m (show 4096 < 4294967296 by omega) with
    ⟨k', _, _, hfit, heq'⟩ | heq'
  · rw [heq] at heq'
    obtain ⟨hpage, rfl⟩ := Prod.mk.inj heq'
    obtain rfl : k = k' := PageHeap.page_inj hpage
    have hbound := hfit.run.bound
    have hin : P.InTable (P.table.entries + l) := ⟨by omega, by omega⟩
    have hpages := PageHeap.page_bound hbound
    have hout : ¬ (P.page k ≤ P.table.entries + l ∧ P.table.entries + l < P.page k + 4096) := by
      intro h
      obtain ⟨hlo, hhi⟩ := h
      refine PageHeap.not_in_table_of_in_pages (P := P) ⟨?_, ?_⟩ hin
      · simp only [PageHeap.page] at hlo
        omega
      · rw [pages_for_table] at hpages
        omega
    rw [PageHeap.tableOf, ByteMem.view_apply, ByteMem.fill_outside (by omega),
      pages_for_table, Marks.put_outside (by omega), PageHeap.tableOf, ByteMem.view_apply]
  · rw [heq] at heq'
    exact absurd (congrArg Prod.fst heq') (Nat.ne_of_gt (PageHeap.page_pos k))

/-- The pages taken between two memories are pages of the tables `t 0`, .., `t (c - 1)`. -/
def TakenBy (P : PageHeap) (m m' : ByteMem) (t : Nat → Nat) (c : Nat) : Prop :=
  ∀ k, k < P.table.total → P.tableOf m' k ≠ blockMarks.free →
    P.tableOf m k ≠ blockMarks.free ∨ ∃ j, j < c ∧ P.page k = t j

/-- What is allocated in `m` still is in `m'`, and it is apart from the tables `t c`, ..,
`t (c' - 1)`. -/
def FreshTables (P : PageHeap) (m m' : ByteMem) (t : Nat → Nat) (c c' : Nat) : Prop :=
  ∀ a, P.Owns m a → P.Owns m' a ∧ ∀ j, c ≤ j → j < c' → a.Apart ⟨t j, 4096⟩

/-- Each round of the loop keeps the invariant, and it takes a page only for a new table. -/
theorem step (h : DirTables P m dir flags t c i) (hi : i < 1024) :
    ∃ t' c', DirTables P (fillDirEntry P.toHeap m dir flags i (4194304 * c % 4294967296)).1 dir
        flags t' c' (i + 1) ∧
      (fillDirEntry P.toHeap m dir flags i (4194304 * c % 4294967296)).2 =
        4194304 * c' % 4294967296 ∧ c ≤ c' ∧ (∀ j, j < c → t' j = t j) ∧
      TakenBy P m (fillDirEntry P.toHeap m dir flags i (4194304 * c % 4294967296)).1 t' c' ∧
      FreshTables P m (fillDirEntry P.toHeap m dir flags i (4194304 * c % 4294967296)).1 t' c
        c' := by
  have hcount := h.count
  by_cases hnull : (kzalloc P.toHeap m 4096).1 = 0
  · -- the heap has no page left: the entry stays clear and the offset is not advanced
    have heq : kzalloc P.toHeap m 4096 = (0, m) :=
      PageHeap.kzalloc_null_congr (by omega) (fun _ _ => rfl) hnull
    rw [fillDirEntry, heq]
    have htable : ∀ x, P.InTable x → m.setWord32 (dir + 4 * i) 0 x = m x := by
      intro x hx
      have hout : ¬ (⟨dir, 4096⟩ : Allocation).Covers x := fun hcov =>
        PageHeap.not_in_table_of_in_pages (h.dirOwned.in_pages hcov) hx
      rw [covers_table] at hout
      exact ByteMem.setWord32_outside (by omega)
    refine ⟨t, c, h.skip hi hnull, rfl, Nat.le_refl c, fun _ _ => rfl, fun k hk htaken => ?_,
      fun a ha => ⟨ha.congr htable, fun j hl hh => by omega⟩⟩
    refine Or.inl fun hfree => htaken ?_
    rw [← hfree]
    exact PageHeap.table_of_congr htable hk
  · -- no round before has failed, so the count of the tables is the count of the rounds
    have hci : c = i := by
      by_contra hne
      exact hnull (h.full (by omega))
    subst hci
    rcases h.heap.alloc (show (HeapOp.zalloc 4096).size? = some 4096 from rfl)
      (show 4096 < 4294967296 by omega) with heq | ⟨k, m₁, heq, _, _, hinv, hkeep, hframe⟩
    · exact absurd (congrArg Prod.fst heq) hnull
    · have hpage : P.Owns m₁ ⟨P.page k, 4096⟩ := hinv.owned _ (List.mem_cons_self ..)
      obtain ⟨hpos, halign, hlt⟩ := table_addr hpage
      have hmask := entry_addr_aligned halign (by omega)
      have hoffset : 4194304 * c % 4294967296 = 4194304 * c := Nat.mod_eq_of_lt (by omega)
      have hbody : fillDirEntry P.toHeap m dir flags c (4194304 * c % 4294967296) =
          fillTable (m₁.setWord32 (dir + 4 * c) (flaggedEntry (P.page k) flags)) (P.page k) flags
            1024 0 (4194304 * c) := by
        rw [fillDirEntry, show kzalloc P.toHeap m 4096 = (P.page k, m₁) from heq]
        simp only [if_neg (Nat.ne_of_gt hpos), land_offset_aligned halign, ne_eq, not_true,
          if_false, hoffset]
        rw [show P.page k &&& 0xfffff000 = P.page k from hmask]
      rw [hbody, fill_table_offset _ _ _ _ (by omega)]
      refine ⟨_, c + 1, h.fill hi hpage ⟨hinv.covered, by simp, by simp⟩ hkeep hframe, by omega,
        by omega, fun j hj => Function.update_of_ne (by omega) .., fun l hl htaken => ?_,
        fun a ha => ⟨(hkeep a ha).1.congr fun x hx =>
          fill_frame_table hi (by omega) (by omega) h.dirOwned hpage hx, fun j hl hh => ?_⟩⟩
      · rw [PageHeap.table_of_congr (fun x hx =>
          fill_frame_table hi (by omega) (by omega) h.dirOwned hpage hx) hl] at htaken
        -- the one page taken in this round is the table of this entry
        by_cases hlk : l = k
        · exact Or.inr ⟨c, by omega, by rw [hlk, Function.update_self]⟩
        · refine Or.inl fun hfree => htaken ?_
          rw [← hfree]
          exact taken_other heq hl hlk
      · obtain rfl : j = c := by omega
        rw [Function.update_self]
        exact (hkeep a ha).2

/-- The whole loop keeps the invariant. -/
theorem fill_dir_table :
    ∀ n (m : ByteMem) t c i, i + n = 1024 → DirTables P m dir flags t c i →
      ∃ t' c', DirTables P (fillDirTable P.toHeap m dir flags n i (4194304 * c % 4294967296)) dir
        flags t' c' 1024 ∧ c ≤ c' ∧ (∀ j, j < c → t' j = t j) ∧
        TakenBy P m (fillDirTable P.toHeap m dir flags n i (4194304 * c % 4294967296)) t' c' ∧
        FreshTables P m (fillDirTable P.toHeap m dir flags n i (4194304 * c % 4294967296)) t' c
          c' := by
  intro n
  induction n with
  | zero =>
      intro m t c i hi h
      obtain rfl : i = 1024 := by omega
      exact ⟨t, c, h, Nat.le_refl c, fun _ _ => rfl, fun k _ htaken => Or.inl htaken,
        fun a ha => ⟨ha, fun j hl hh => by omega⟩⟩
  | succ n ih =>
      intro m t c i hi h
      obtain ⟨t', c', hstep, hoffset, hle, hsame, htaken, hfresh⟩ := h.step (by omega)
      rw [fillDirTable]
      simp only [hoffset]
      obtain ⟨t'', c'', hloop, hle', hsame', htaken', hfresh'⟩ :=
        ih _ t' c' (i + 1) (by omega) hstep
      refine ⟨t'', c'', hloop, by omega, fun j hj => ?_, fun k hk hk' => ?_, fun a ha => ?_⟩
      · rw [hsame' j (by omega), hsame j hj]
      · rcases htaken' k hk hk' with hold | hnew
        · rcases htaken k hk hold with holder | ⟨j, hj, hpage⟩
          · exact Or.inl holder
          · exact Or.inr ⟨j, by omega, by rw [hpage, hsame' j hj]⟩
        · exact Or.inr hnew
      · obtain ⟨hkept, hapart⟩ := hfresh a ha
        obtain ⟨hkept', hapart'⟩ := hfresh' a hkept
        refine ⟨hkept', fun j hl hh => ?_⟩
        rcases Nat.lt_or_ge j c' with hlt | hge
        · rw [hsame' j hlt]
          exact hapart j hl hlt
        · exact hapart' j hge hh

/-- What `create_32_dir_table` builds over a heap whose table consists of whole runs. -/
theorem of_create {m m' : ByteMem} (hcovered : blockMarks.Covered (P.tableOf m) P.table.total)
    (hcreate : create32DirTable P.toHeap m flags = (dir, m')) (hne : dir ≠ 0) :
    ∃ t c, DirTables P m' dir flags t c 1024 ∧
      (∀ k, k < P.table.total → P.tableOf m' k ≠ blockMarks.free →
        P.tableOf m k ≠ blockMarks.free ∨ P.page k = dir ∨ ∃ j, j < c ∧ P.page k = t j) ∧
      FreshTables P m m' t 0 c := by
  have hheap : HeapInv P ⟨m, []⟩ := ⟨hcovered, by simp, by simp⟩
  rcases hheap.alloc (show (HeapOp.zalloc 4096).size? = some 4096 from rfl)
    (show 4096 < 4294967296 by omega) with heq | ⟨k, m₁, heq, _, _, hinv, hkeep, _⟩
  · rw [create32DirTable, show kzalloc P.toHeap m 4096 = (0, m) from heq] at hcreate
    simp only [if_true, Prod.mk.injEq] at hcreate
    exact absurd hcreate.1.symm hne
  · have hpage : P.Owns m₁ ⟨P.page k, 4096⟩ := hinv.owned _ (List.mem_cons_self ..)
    obtain ⟨hpos, halign, hlt⟩ := table_addr hpage
    rw [create32DirTable, show kzalloc P.toHeap m 4096 = (P.page k, m₁) from heq] at hcreate
    simp only [if_neg (Nat.ne_of_gt hpos), land_offset_aligned halign, ne_eq, not_true, if_false,
      Prod.mk.injEq] at hcreate
    obtain ⟨rfl, rfl⟩ := hcreate
    have hstart : DirTables P m₁ (P.page k) flags (fun _ => 0) 0 0 := by
      refine ⟨⟨hinv.covered, by simp, by simp⟩, hpage, ?_, ?_, ?_, ?_, ?_, ?_, Nat.le_refl 0,
        ?_⟩ <;>
        omega
    obtain ⟨t, c, hloop, _, _, htaken, hfresh⟩ := fill_dir_table 1024 m₁ (fun _ => 0) 0 0 rfl hstart
    refine ⟨t, c, hloop, fun l hl hl' => ?_, fun a ha => hfresh a (hkeep a ha).1⟩
    rcases htaken l hl hl' with hold | hnew
    · by_cases hlk : l = k
      · exact Or.inr (Or.inl (by rw [hlk]))
      · rw [taken_other heq hl hlk] at hold
        exact Or.inl hold
    · exact Or.inr (Or.inr hnew)

/-- A present directory entry has a table. -/
theorem present_lt (h : DirTables P m dir flags t c 1024) (hi : i < 1024)
    (hpresent : Present (dirEntry m dir i)) : i < c := by
  by_contra hge
  rw [h.absent i (by omega) hi] at hpresent
  exact not_present_zero hpresent

theorem entry_addr (h : DirTables P m dir flags t c 1024) (hi : i < c) :
    entryAddr (dirEntry m dir i) = t i := by
  obtain ⟨_, halign, hlt⟩ := table_addr (h.owned i hi)
  rw [h.present i hi, entry_addr_flagged halign (by omega)]

theorem page_entry (h : DirTables P m dir flags t c 1024) {page : Nat} (hpage : page / 1024 < c) :
    pageEntry m dir page = flaggedEntry (4096 * page) flags := by
  rw [pageEntry, h.entry_addr hpage, h.entries _ hpage _ (by omega),
    show 1024 * (page / 1024) + page % 1024 = page by omega]

end DirTables

/-- A directory under which every mapped address is its own physical address. -/
structure IdentityPaging (m : ByteMem) (dir : Nat) : Prop where
  /-- An address with a present directory entry walks to itself. -/
  walk : ∀ va, va < 4294967296 → Present (dirEntry m dir (va / 4096 / 1024)) →
    walk m dir va = some va
  /-- Both entries of such a walk carry the present and the read/write bit. -/
  bits : ∀ va, va < 4294967296 → Present (dirEntry m dir (va / 4096 / 1024)) →
    Writable (dirEntry m dir (va / 4096 / 1024)) ∧ Present (pageEntry m dir (va / 4096)) ∧
      Writable (pageEntry m dir (va / 4096))
  /-- No page table shares a byte with the directory. -/
  dirApart : ∀ i, i < 1024 → Present (dirEntry m dir i) →
    Allocation.Apart ⟨entryAddr (dirEntry m dir i), 4096⟩ ⟨dir, 4096⟩
  /-- Page tables of different entries share no byte. -/
  tablesApart : ∀ i j, i < 1024 → j < 1024 → i ≠ j → Present (dirEntry m dir i) →
    Present (dirEntry m dir j) → Allocation.Apart ⟨entryAddr (dirEntry m dir i), 4096⟩
      ⟨entryAddr (dirEntry m dir j), 4096⟩
  /-- The entries that are not present form a suffix of the directory. -/
  suffix : ∀ i j, i ≤ j → j < 1024 → ¬ Present (dirEntry m dir i) → ¬ Present (dirEntry m dir j)

/-- A directory that `create_32_dir_table` returns maps every address it maps to itself, whatever
the flags and however many pages the heap has left. -/
theorem create_32_dir_table_identity {P : PageHeap} {m m' : ByteMem} {dir : Nat} (flags : Nat)
    (hcovered : blockMarks.Covered (P.tableOf m) P.table.total)
    (hcreate : create32DirTable P.toHeap m flags = (dir, m')) (hne : dir ≠ 0) :
    IdentityPaging m' dir := by
  obtain ⟨t, c, h, _⟩ := DirTables.of_create hcovered hcreate hne
  refine ⟨fun va hva hpresent => ?_, fun va hva hpresent => ?_, fun i hi hpresent => ?_,
    fun i j hi hj hij hpresent hpresent' => ?_, fun i j hij hj habsent hpresent => ?_⟩
  · have hlt := h.present_lt (by omega) hpresent
    rw [Genesis32.walk, h.page_entry hlt, if_pos ⟨hpresent, flagged_entry_present ..⟩,
      entry_addr_flagged (by omega) (by omega), Option.some.injEq]
    omega
  · have hlt := h.present_lt (by omega) hpresent
    rw [h.page_entry hlt, h.present _ hlt]
    exact ⟨flagged_entry_writable .., flagged_entry_present .., flagged_entry_writable ..⟩
  · have hlt := h.present_lt hi hpresent
    rw [h.entry_addr hlt]
    exact (h.owned i hlt).apart h.dirOwned (h.neDir i hlt)
  · have hilt := h.present_lt hi hpresent
    have hjlt := h.present_lt hj hpresent'
    rw [h.entry_addr hilt, h.entry_addr hjlt]
    exact (h.owned i hilt).apart (h.owned j hjlt) fun heq => hij (h.distinct i j hilt hjlt heq)
  · have hlt := h.present_lt hj hpresent
    rw [h.present i (by omega)] at habsent
    exact habsent (flagged_entry_present ..)

/-- The identity mapping of a small heap: a directory and seven tables. -/
theorem create_32_dir_table_identity_small_heap :
    IdentityPaging (create32DirTable smallPageHeap.toHeap (fun _ => 0) 0).2
      (create32DirTable smallPageHeap.toHeap (fun _ => 0) 0).1 :=
  create_32_dir_table_identity 0 (Marks.covered_free fun _ _ => rfl) (Prod.eta _).symm
    (by decide +kernel)

/-- The free pages of a kernel heap. -/
def freePages (P : PageHeap) (m : ByteMem) : Finset Nat :=
  (Finset.range P.table.total).filter fun k => P.tableOf m k = blockMarks.free

/-- With room for the directory and 1024 tables, every entry of the directory is present. -/
theorem create_32_dir_table_full {P : PageHeap} {m m' : ByteMem} {dir flags : Nat}
    (hcovered : blockMarks.Covered (P.tableOf m) P.table.total) (hentries : 0 < P.table.entries)
    (hroom : 1025 ≤ (freePages P m).card)
    (hcreate : create32DirTable P.toHeap m flags = (dir, m')) (hne : dir ≠ 0) :
    ∀ i, i < 1024 → Present (dirEntry m' dir i) := by
  intro i hi
  obtain ⟨t, c, h, htaken, _⟩ := DirTables.of_create hcovered hcreate hne
  by_contra habsent
  have hc : c ≤ i := by
    by_contra hlt
    rw [h.present i (by omega)] at habsent
    exact habsent (flagged_entry_present ..)
  -- the heap ran out, so its free pages all went to the directory and the `c` tables
  have hsubset : (freePages P m).image P.page ⊆ insert dir ((Finset.range c).image t) := by
    intro a ha
    obtain ⟨k, hk, rfl⟩ := Finset.mem_image.mp ha
    obtain ⟨hlt, hfree⟩ := Finset.mem_filter.mp hk
    rw [Finset.mem_range] at hlt
    have hfull := PageHeap.kzalloc_null_taken (by omega) hentries (h.full (by omega)) hlt
    rcases htaken k hlt hfull with hold | hdir | ⟨j, hj, hpage⟩
    · exact absurd hfree hold
    · exact Finset.mem_insert.mpr (Or.inl hdir)
    · refine Finset.mem_insert_of_mem ?_
      exact Finset.mem_image.mpr ⟨j, Finset.mem_range.mpr hj, hpage.symm⟩
  have hcard : (freePages P m).card ≤ c + 1 := calc
    (freePages P m).card = ((freePages P m).image P.page).card :=
      (Finset.card_image_of_injective _ fun k l => PageHeap.page_inj).symm
    _ ≤ (insert dir ((Finset.range c).image t)).card := Finset.card_le_card hsubset
    _ ≤ ((Finset.range c).image t).card + 1 := Finset.card_insert_le ..
    _ ≤ c + 1 := by
      have := Finset.card_image_le (s := Finset.range c) (f := t)
      rw [Finset.card_range] at this
      omega
  omega

end Genesis32
