import Genesis32.Paging.FlatMap

/-!
# Directory entries without a page table

Where the kernel heap runs out, `create_32_dir_table` leaves the rest of the directory entries 0.
`set_page_table_enrty` takes the address of the page table from the entry without a look at its
present bit, so for a page of such an entry it stores into the first page of physical memory:
`set_entry_in_tables_iff`.
-/

namespace Genesis32

open Word

/-- The store that a call of `set_page_table_enrty` makes, or the error code. -/
def pageTableStore (m : ByteMem) (dirTable : Nat) (c : PageCall) : Except Int (Nat × Nat) :=
  match getIndexFromVirt c.virtAddr with
  | .error _ => .error (-gen32Invarg)
  | .ok (dirIndex, pageIndex) =>
      .ok ((m.word32 (dirTable + 4 * dirIndex) &&& 0xfffff000) + 4 * pageIndex,
        c.setVal ||| c.flags)

variable {P : PageHeap} {m m' : ByteMem} {dir flags : Nat} {t : Nat → Nat} {n : Nat}

/-- A call makes that store and no other, or returns the error code with the memory as it was. -/
theorem set_page_table_enrty_eq (m : ByteMem) (dirTable : Nat) (c : PageCall) :
    setPageTableEnrty m dirTable c =
      match pageTableStore m dirTable c with
      | .error code => (code, m)
      | .ok (addr, value) => (0, m.setWord32 addr value) := by
  unfold setPageTableEnrty pageTableStore
  cases getIndexFromVirt c.virtAddr <;> rfl

/-- The page at `a` is a page table that `create_32_dir_table` allocated for the directory: it is
not in what was allocated before, and an entry of the directory holds it. -/
structure AllocatedTable (P : PageHeap) (m m' : ByteMem) (dir a : Nat) : Prop where
  owned : P.Owns m' ⟨a, 4096⟩
  fresh : ∀ b, P.Owns m b → b.Apart ⟨a, 4096⟩
  neDir : a ≠ dir
  entry : ∃ i, i < 1024 ∧ Present (dirEntry m' dir i) ∧ entryAddr (dirEntry m' dir i) = a

/-- The call reports an error, or its store is a word of a page table that `create_32_dir_table`
allocated, from the memory `m`, for the directory. -/
def WritesInTables (P : PageHeap) (m m' : ByteMem) (dir : Nat) (c : PageCall) : Prop :=
  match pageTableStore m' dir c with
  | .error _ => True
  | .ok (addr, _) => ∃ a l, AllocatedTable P m m' dir a ∧ l < 1024 ∧ addr = a + 4 * l

theorem page_table_store_misaligned {c : PageCall} (h : c.virtAddr % 4096 ≠ 0) :
    pageTableStore m dir c = .error (-gen32Invarg) := by
  rw [pageTableStore, getIndexFromVirt, land_offset, if_pos h]

theorem page_table_store_aligned {c : PageCall} (h : c.virtAddr % 4096 = 0) :
    pageTableStore m dir c =
      .ok (entryAddr (dirEntry m dir (c.virtAddr / 4194304)) + 4 * (c.virtAddr % 4194304 / 4096),
        c.setVal ||| c.flags) := by
  rw [pageTableStore, getIndexFromVirt, land_offset, if_neg (not_not.mpr h)]
  rfl

namespace DirTables

/-- The tables of the directory are pages that `create_32_dir_table` allocated. -/
theorem allocated_table (h : DirTables P m' dir flags t n 1024) (hfresh : FreshTables P m m' t 0 n)
    {i : Nat} (hi : i < n) : AllocatedTable P m m' dir (t i) where
  owned := h.owned i hi
  fresh := fun b hb => (hfresh b hb).2 i (Nat.zero_le i) hi
  neDir := h.neDir i hi
  entry := by
    have hlt : i < 1024 := Nat.lt_of_lt_of_le hi h.count
    refine ⟨i, hlt, ?_, h.entry_addr hi⟩
    rw [h.present i hi]
    exact flagged_entry_present _ _

/-- The directory and its tables are different pages of the heap. -/
theorem count_lt_total (h : DirTables P m' dir flags t n 1024) : n < P.table.total := by
  have hpage : ∀ a, P.Owns m' ⟨a, 4096⟩ → a ∈ (Finset.range P.table.total).image P.page := by
    rintro a ⟨k, hk, _, hbound⟩
    rw [pages_for_table] at hbound
    exact Finset.mem_image.mpr ⟨k, Finset.mem_range.mpr (by omega), hk.symm⟩
  have hsubset : insert dir ((Finset.range n).image t) ⊆
      (Finset.range P.table.total).image P.page := by
    intro a ha
    rcases Finset.mem_insert.mp ha with rfl | ha
    · exact hpage _ h.dirOwned
    · obtain ⟨j, hj, rfl⟩ := Finset.mem_image.mp ha
      exact hpage _ (h.owned j (Finset.mem_range.mp hj))
  have hdir : dir ∉ (Finset.range n).image t := by
    intro hmem
    obtain ⟨j, hj, heq⟩ := Finset.mem_image.mp hmem
    exact h.neDir j (Finset.mem_range.mp hj) heq
  have hinj : Set.InjOn t (Finset.range n) := fun j hj k hk heq =>
    h.distinct j k (Finset.mem_range.mp hj) (Finset.mem_range.mp hk) heq
  have hcard := Finset.card_le_card hsubset
  rw [Finset.card_insert_of_notMem hdir, Finset.card_image_of_injOn hinj,
    Finset.card_range] at hcard
  have htotal : ((Finset.range P.table.total).image P.page).card ≤ P.table.total := by
    have := Finset.card_image_le (s := Finset.range P.table.total) (f := P.page)
    rwa [Finset.card_range] at this
  omega

end DirTables

/-- Through an entry without a page table the store goes to the first page of memory. -/
theorem store_below_tables {c : PageCall} (halign : c.virtAddr % 4096 = 0)
    (habsent : dirEntry m' dir (c.virtAddr / 4194304) = 0) : ¬ WritesInTables P m m' dir c := by
  rw [WritesInTables, page_table_store_aligned halign, habsent]
  intro h
  obtain ⟨a, l, htable, _, haddr⟩ := h
  obtain ⟨hpos, hpage, _⟩ := DirTables.table_addr htable.owned
  have hzero : entryAddr 0 = 0 := rfl
  rw [hzero] at haddr
  omega

/-- For every directory that `create_32_dir_table` returns, from every state of the kernel heap, and
every call, `set_page_table_enrty` reports an error or stores into a page table of the directory
exactly when the address is misaligned or its directory entry is present. -/
theorem set_entry_in_tables_iff (flags : Nat)
    (hcovered : blockMarks.Covered (P.tableOf m) P.table.total)
    (hcreate : create32DirTable P.toHeap m flags = (dir, m')) (hne : dir ≠ 0) (c : PageCall)
    (haddr : c.virtAddr < 4294967296) :
    WritesInTables P m m' dir c ↔
      c.virtAddr % 4096 ≠ 0 ∨ Present (dirEntry m' dir (c.virtAddr / 4194304)) := by
  obtain ⟨t, n, h, _, hfresh⟩ := DirTables.of_create hcovered hcreate hne
  have hindex : c.virtAddr / 4194304 < 1024 := by omega
  by_cases halign : c.virtAddr % 4096 = 0
  · rcases Nat.lt_or_ge (c.virtAddr / 4194304) n with hlt | hge
    · -- an entry with a page table
      have hpresent : Present (dirEntry m' dir (c.virtAddr / 4194304)) := by
        rw [h.present _ hlt]
        exact flagged_entry_present _ _
      refine iff_of_true ?_ (Or.inr hpresent)
      rw [WritesInTables, page_table_store_aligned halign, h.entry_addr hlt]
      exact ⟨_, _, h.allocated_table hfresh hlt, by omega, rfl⟩
    · -- an entry for which the heap had no page
      have habsent := h.absent _ hge hindex
      refine iff_of_false (store_below_tables halign habsent) ?_
      rintro (hmis | hpresent)
      · exact hmis halign
      · rw [habsent] at hpresent
        exact not_present_zero hpresent
  · refine iff_of_true ?_ (Or.inl halign)
    rw [WritesInTables, page_table_store_misaligned halign]
    trivial

/-- A page of the first table of a small heap. -/
theorem set_entry_in_tables_iff_small_heap :
    WritesInTables smallPageHeap (fun _ => 0)
        (create32DirTable smallPageHeap.toHeap (fun _ => 0) 0).2
        (create32DirTable smallPageHeap.toHeap (fun _ => 0) 0).1 ⟨0x1000, 0x5000, 3⟩ ↔
      0x1000 % 4096 ≠ 0 ∨
        Present (dirEntry (create32DirTable smallPageHeap.toHeap (fun _ => 0) 0).2
          (create32DirTable smallPageHeap.toHeap (fun _ => 0) 0).1 (0x1000 / 4194304)) :=
  set_entry_in_tables_iff 0 (Marks.covered_free fun _ _ => rfl) (Prod.eta _).symm
    (by decide +kernel) ⟨0x1000, 0x5000, 3⟩ (by decide)

/-- The last directory entry of a heap of eight pages has no table: the entry of its first page is
stored at address 0. -/
theorem set_entry_stores_at_null :
    ¬ WritesInTables smallPageHeap (fun _ => 0)
      (create32DirTable smallPageHeap.toHeap (fun _ => 0) 0).2
      (create32DirTable smallPageHeap.toHeap (fun _ => 0) 0).1 ⟨0xffc00000, 0x5000, 3⟩ := by
  have hcreate : create32DirTable smallPageHeap.toHeap (fun _ => 0) 0 =
      ((create32DirTable smallPageHeap.toHeap (fun _ => 0) 0).1,
        (create32DirTable smallPageHeap.toHeap (fun _ => 0) 0).2) := (Prod.eta _).symm
  obtain ⟨t, n, h, _⟩ :=
    DirTables.of_create (Marks.covered_free fun _ _ => rfl) hcreate (by decide +kernel)
  have hcount : n < 8 := h.count_lt_total
  exact store_below_tables (by decide) (h.absent 1023 (by omega) (by omega))

end Genesis32
