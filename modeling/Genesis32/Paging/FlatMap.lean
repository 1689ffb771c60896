import Genesis32.Paging.DirTable

/-!
# The page tables as a flat map

`get_index_from_virt` and `set_page_table_enrty` of `paging/paging.c`. Seen through the walk of the
processor, a directory with all its tables is a map from page numbers to entries, and a call of
`set_page_table_enrty` is one assignment in that map. `MapsTo` is the simulation relation; every
call keeps it (`MapsTo.step`), so every sequence of calls does (`page_table_refines_flat_map`).
-/

namespace Genesis32

open Word

/-- `get_index_from_virt`: the directory index and the page index, or the error code. -/
def getIndexFromVirt (virtualAddress : Nat) : Except Int (Nat × Nat) :=
  if virtualAddress &&& 0xfff ≠ 0 then .error (-gen32Invarg)
  else .ok (virtualAddress / (1024 * 4096), virtualAddress % (1024 * 4096) / 4096)

/-- The arguments of a call of `set_page_table_enrty`. -/
structure PageCall where
  virtAddr : Nat
  setVal : Nat
  flags : Nat
  deriving DecidableEq, Repr

/-- The three arguments are 32-bit values. -/
def PageCall.Valid (c : PageCall) : Prop :=
  c.virtAddr < 4294967296 ∧ c.setVal < 4294967296 ∧ c.flags < 4294967296

/-- `set_page_table_enrty`: the return value and the memory. -/
def setPageTableEnrty (m : ByteMem) (dirTable : Nat) (c : PageCall) : Int × ByteMem :=
  match getIndexFromVirt c.virtAddr with
  | .error _ => (-gen32Invarg, m)
  | .ok (dirIndex, pageIndex) =>
      (0, m.setWord32 ((m.word32 (dirTable + 4 * dirIndex) &&& 0xfffff000) + 4 * pageIndex)
        (c.setVal ||| c.flags))

/-- A sequence of calls: the return values and the memory. -/
def setPageTableEnrties (dirTable : Nat) : ByteMem → List PageCall → List Int × ByteMem
  | m, [] => ([], m)
  | m, c :: calls =>
      let (code, m) := setPageTableEnrty m dirTable c
      let (codes, m) := setPageTableEnrties dirTable m calls
      (code :: codes, m)

/-! ## The flat map -/

/-- An assignment in the flat map: a page-aligned address stores the entry of its page, and any
other address is an error that changes nothing. -/
def FlatMap.set (f : Nat → Nat) (c : PageCall) : Int × (Nat → Nat) :=
  if c.virtAddr % 4096 = 0 then
    (0, Function.update f (c.virtAddr / 4096) (c.setVal ||| c.flags))
  else (-gen32Invarg, f)

/-- A sequence of assignments. -/
def FlatMap.setAll : (Nat → Nat) → List PageCall → List Int × (Nat → Nat)
  | f, [] => ([], f)
  | f, c :: calls =>
      let (code, f) := FlatMap.set f c
      let (codes, f) := FlatMap.setAll f calls
      (code :: codes, f)

/-! ## The simulation -/

theorem land_offset (addr : Nat) : addr &&& 0xfff = addr % 4096 := by
  rw [show (0xfff : Nat) = 2 ^ 12 - 1 by decide, Nat.and_two_pow_sub_one_eq_mod]

/-- The directory has the 1024 tables `t`, each in a page of its own, and the walk finds the entries
of `f`. -/
structure MapsTo (P : PageHeap) (dir : Nat) (t : Nat → Nat) (m : ByteMem) (f : Nat → Nat) :
    Prop where
  dirOwned : P.Owns m ⟨dir, 4096⟩
  owned : ∀ i, i < 1024 → P.Owns m ⟨t i, 4096⟩
  neDir : ∀ i, i < 1024 → t i ≠ dir
  distinct : ∀ i j, i < 1024 → j < 1024 → t i = t j → i = j
  table : ∀ i, i < 1024 → entryAddr (dirEntry m dir i) = t i
  entries : ∀ page, page < 1048576 → pageEntry m dir page = f page

namespace MapsTo

variable {P : PageHeap} {dir : Nat} {t : Nat → Nat} {m : ByteMem} {f : Nat → Nat}

/-- A page has one place in the tables. -/
theorem page_entry_eq (h : MapsTo P dir t m f) {page : Nat} (hpage : page < 1048576) :
    pageEntry m dir page = m.word32 (t (page / 1024) + 4 * (page % 1024)) := by
  rw [pageEntry, h.table _ (by omega)]

/-- A store to the place of one page is an assignment in the map. -/
theorem assign (h : MapsTo P dir t m f) {page v : Nat} (hpage : page < 1048576)
    (hv : v < 4294967296) :
    MapsTo P dir t (m.setWord32 (t (page / 1024) + 4 * (page % 1024)) v)
      (Function.update f page v) := by
  have hindex : page / 1024 < 1024 := by omega
  have htable := h.owned _ hindex
  -- the store stays in one table
  have hout : ∀ x, ¬ (⟨t (page / 1024), 4096⟩ : Allocation).Covers x →
      m.setWord32 (t (page / 1024) + 4 * (page % 1024)) v x = m x := by
    intro x hx
    rw [covers_table] at hx
    exact ByteMem.setWord32_outside (by omega)
  have hkernel : ∀ x, P.InTable x →
      m.setWord32 (t (page / 1024) + 4 * (page % 1024)) v x = m x := fun x hx =>
    hout x fun hcov => PageHeap.not_in_table_of_in_pages (htable.in_pages hcov) hx
  have hdir : ∀ i, i < 1024 →
      dirEntry (m.setWord32 (t (page / 1024) + 4 * (page % 1024)) v) dir i = dirEntry m dir i :=
    fun i hi => ByteMem.word32_congr fun x hl hh => hout x
      (h.dirOwned.apart htable (h.neDir _ hindex).symm x (covers_table.mpr (by omega)))
  refine ⟨h.dirOwned.congr hkernel, fun i hi => (h.owned i hi).congr hkernel, h.neDir, h.distinct,
    fun i hi => by rw [hdir i hi]; exact h.table i hi, fun other hother => ?_⟩
  rw [pageEntry, hdir _ (by omega), h.table _ (by omega)]
  by_cases hsame : other = page
  · rw [hsame, Function.update_self, ByteMem.word32_setWord32_same, Nat.mod_eq_of_lt hv]
  · rw [Function.update_of_ne hsame, ← h.entries other hother, h.page_entry_eq hother]
    by_cases hindexes : other / 1024 = page / 1024
    · rw [hindexes]
      exact ByteMem.word32_setWord32_other (by omega)
    · refine ByteMem.word32_congr fun x hl hh => hout x ?_
      have hother : other / 1024 < 1024 := by omega
      have hne : t (other / 1024) ≠ t (page / 1024) :=
        fun heq => hindexes (h.distinct _ _ hother hindex heq)
      exact (h.owned _ hother).apart htable hne x (covers_table.mpr (by omega))

/-- A call of `set_page_table_enrty` is an assignment in the flat map. -/
theorem step (h : MapsTo P dir t m f) {c : PageCall} (hc : c.Valid) :
    (setPageTableEnrty m dir c).1 = (FlatMap.set f c).1 ∧
      MapsTo P dir t (setPageTableEnrty m dir c).2 (FlatMap.set f c).2 := by
  obtain ⟨haddr, hval, hflags⟩ := hc
  rw [setPageTableEnrty, getIndexFromVirt, land_offset, FlatMap.set]
  by_cases halign : c.virtAddr % 4096 = 0
  · rw [if_neg (not_not.mpr halign), if_pos halign]
    have hvalue : c.setVal ||| c.flags < 4294967296 :=
      Nat.or_lt_two_pow (n := 32) hval hflags
    have hdirIndex : c.virtAddr / (1024 * 4096) = c.virtAddr / 4096 / 1024 := by omega
    have hpageIndex : c.virtAddr % (1024 * 4096) / 4096 = c.virtAddr / 4096 % 1024 := by omega
    refine ⟨rfl, ?_⟩
    have htable : m.word32 (dir + 4 * (c.virtAddr / 4096 / 1024)) &&& 0xfffff000 =
        t (c.virtAddr / 4096 / 1024) := h.table _ (by omega)
    simp only [hdirIndex, hpageIndex, htable]
    exact h.assign (by omega) hvalue
  · rw [if_pos halign, if_neg halign]
    exact ⟨rfl, h⟩

/-- A sequence of calls is the sequence of assignments. -/
theorem run : ∀ (calls : List PageCall) (m : ByteMem) (f : Nat → Nat), MapsTo P dir t m f →
    (∀ c ∈ calls, c.Valid) →
    (setPageTableEnrties dir m calls).1 = (FlatMap.setAll f calls).1 ∧
      MapsTo P dir t (setPageTableEnrties dir m calls).2 (FlatMap.setAll f calls).2 := by
  intro calls
  induction calls with
  | nil => exact fun m f h _ => ⟨rfl, h⟩
  | cons c calls ih =>
      intro m f h hvalid
      obtain ⟨hcode, hstep⟩ := h.step (hvalid c (List.mem_cons_self ..))
      obtain ⟨hcodes, hrun⟩ := ih _ _ hstep fun c' hc' => hvalid c' (List.mem_cons_of_mem _ hc')
      exact ⟨List.cons_eq_cons.mpr ⟨hcode, hcodes⟩, hrun⟩

/-- A directory with all its tables represents what the walk finds in it. -/
theorem of_dir_tables {flags c : Nat} (h : DirTables P m dir flags t c 1024) (hc : c = 1024) :
    MapsTo P dir t m (pageEntry m dir) := by
  subst hc
  exact ⟨h.dirOwned, h.owned, h.neDir, h.distinct, fun i hi => h.entry_addr hi, fun _ _ => rfl⟩

end MapsTo

/-- Every sequence of calls of `set_page_table_enrty` on a full directory returns what the flat map
returns, and leaves for every virtual page the entry that the flat map holds for it. No call changes
a directory entry, so all of them stay present. -/
theorem page_table_refines_flat_map {P : PageHeap} {m m' : ByteMem} {dir : Nat} (flags : Nat)
    (hcovered : blockMarks.Covered (P.tableOf m) P.table.total)
    (hcreate : create32DirTable P.toHeap m flags = (dir, m')) (hne : dir ≠ 0)
    (hfull : ∀ i, i < 1024 → Present (dirEntry m' dir i))
    (calls : List PageCall) (hvalid : ∀ c ∈ calls, c.Valid) :
    (setPageTableEnrties dir m' calls).1 = (FlatMap.setAll (pageEntry m' dir) calls).1 ∧
      ∀ page, page < 1048576 → pageEntry (setPageTableEnrties dir m' calls).2 dir page =
        (FlatMap.setAll (pageEntry m' dir) calls).2 page := by
  obtain ⟨t, c, h, _⟩ := DirTables.of_create hcovered hcreate hne
  have hc : c = 1024 := by
    have hlast := h.present_lt (i := 1023) (by omega) (hfull 1023 (by omega))
    have hcount := h.count
    omega
  obtain ⟨hcodes, hmap⟩ := MapsTo.run calls m' _ (MapsTo.of_dir_tables h hc) hvalid
  exact ⟨hcodes, hmap.entries⟩

/-- The kernel's own heap with the facts that `heap_create` checks. -/
def kernelPageHeap : PageHeap :=
  ⟨kernelHeap, by decide, by decide, by decide, by decide, by decide, by decide⟩

/-- The directory of the kernel's own heap has all its tables. -/
theorem kernel_dir_full {dir : Nat} {m : ByteMem}
    (hcreate : create32DirTable kernelPageHeap.toHeap (fun _ => 0) 0 = (dir, m)) (hne : dir ≠ 0) :
    ∀ i, i < 1024 → Present (dirEntry m dir i) := by
  have hall : freePages kernelPageHeap (fun _ => 0) = Finset.range 25600 :=
    Finset.filter_true_of_mem fun _ _ => rfl
  refine create_32_dir_table_full (Marks.covered_free fun _ _ => rfl) (by decide) ?_ hcreate hne
  rw [hall, Finset.card_range]
  omega

/-- A page is mapped, a misaligned call fails, and the page is mapped again. -/
def remapCalls : List PageCall :=
  [⟨0x1000, 0x5000, 3⟩, ⟨0x1001, 0x6000, 3⟩, ⟨0x1000, 0x7000, 1⟩]

/-- These calls on the directory of the kernel's own heap leave the last mapping of the page, and
every other page as it was. -/
theorem page_table_refines_flat_map_remapped :
    let paged := create32DirTable kernelPageHeap.toHeap (fun _ => 0) 0
    let after := setPageTableEnrties paged.1 paged.2 remapCalls
    after.1 = [0, -gen32Invarg, 0] ∧ pageEntry after.2 paged.1 1 = 0x7001 ∧
      ∀ page < 1048576, page ≠ 1 →
        pageEntry after.2 paged.1 page = pageEntry paged.2 paged.1 page := by
  intro paged after
  have hne : paged.1 ≠ 0 := by decide +kernel
  obtain ⟨hcodes, hentries⟩ := page_table_refines_flat_map 0 (Marks.covered_free fun _ _ => rfl)
    (Prod.eta paged).symm hne (kernel_dir_full (Prod.eta paged).symm hne) remapCalls fun c hc => by
      rcases List.mem_cons.mp hc with rfl | hc
      · exact ⟨by decide, by decide, by decide⟩
      · rcases List.mem_pair.mp hc with rfl | rfl
        · exact ⟨by decide, by decide, by decide⟩
        · exact ⟨by decide, by decide, by decide⟩
  have hmap : ∀ f : Nat → Nat, FlatMap.setAll f remapCalls =
      ([0, -gen32Invarg, 0], Function.update (Function.update f 1 0x5003) 1 0x7001) := fun _ => rfl
  rw [hmap] at hcodes hentries
  refine ⟨hcodes, hentries 1 (by decide), fun page hpage hother => ?_⟩
  refine (hentries page hpage).trans ?_
  simp only [Function.update_of_ne hother]

end Genesis32
