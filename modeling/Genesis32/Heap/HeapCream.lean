import Genesis32.Heap.Heap32
import Genesis32.Heap.PageHeapSafety

/-!
# The two-level heap

The functions of `heap/heap_cream.c`. The array `mothermary` has 124 slots (`MAX_4KB_HEAP`) that
hold the addresses of the attached pages, and `0` in an empty slot; it lies in a page of its own
that `help_me_mary_mother_of_god` takes from the kernel heap. Both `heap_cream_malloc` and
`heap_cream_free` walk the slots from the first one and stop at the first empty slot.

The specifications say what a call does slot by slot: `heap_cream_malloc_cases`,
`heap_cream_free_cases`. They hold over any contents of the in-page tables, because an attached page
keeps what its last owner left there.
-/

namespace Genesis32

open Word

/-- `mothermary[i]`. -/
def mothermary (m : ByteMem) (mary i : Nat) : Nat := m.word32 (mary + 4 * i)

/-- `mothermary[i] = value`. -/
def setMothermary (m : ByteMem) (mary i value : Nat) : ByteMem := m.setWord32 (mary + 4 * i) value

/-- `help_me_mary_mother_of_god`: the address of the array, and the memory. -/
def helpMeMaryMotherOfGod (H : Heap) (m : ByteMem) : Nat × ByteMem := kzalloc H m 1

/-- The `for` of `heap_cream_malloc`: the index it ends with, the block it found or `0`, and the
memory. -/
def tryPages (m : ByteMem) (mary size : Nat) : Nat → Nat → Nat × Nat × ByteMem
  | 0, i => (i, 0, m)
  | fuel + 1, i =>
      if i < 124 ∧ mothermary m mary i ≠ 0 then
        match malloc32 m (mothermary m mary i) size with
        | (rtnVal, m) =>
            if rtnVal ≠ 0 then (i, rtnVal, m) else tryPages m mary size fuel (i + 1)
      else (i, 0, m)

/-- The end of `heap_cream_malloc`: attach a page in slot `i` and allocate in it. -/
def attachPage (H : Heap) (m : ByteMem) (mary i size : Nat) : Nat × ByteMem :=
  match kzalloc H m 1 with
  | (page, m) =>
      let m := setMothermary m mary i page
      if mothermary m mary i = 0 then (0, m)
      else
        let m := tableGuardSet m (mothermary m mary i)
        malloc32 m (mothermary m mary i) size

/-- `heap_cream_malloc`: the address of the block, or `0`, and the memory. -/
def heapCreamMalloc (H : Heap) (m : ByteMem) (mary size : Nat) : Nat × ByteMem :=
  if size > 3968 then (0, m)
  else
    match tryPages m mary size 124 0 with
    | (i, rtnVal, m) =>
        if rtnVal ≠ 0 then (rtnVal, m)
        else if i = 124 then (0, m)
        else attachPage H m mary i size

/-- `heap_cream_kill`. -/
def heapCreamKill (H : Heap) (m : ByteMem) (mary index : Nat) : ByteMem :=
  setMothermary (kfree H m (mothermary m mary index)) mary index 0

/-- The `for` of `heap_cream_single_chk_kill`: the index of the first taken entry, or 124. -/
def firstTaken (m : ByteMem) (table : Nat) : Nat → Nat → Nat
  | 0, j => j
  | fuel + 1, j =>
      if j < 124 then
        if m (table + j) ≠ 0x00 then j else firstTaken m table fuel (j + 1)
      else j

/-- `heap_cream_single_chk_kill`. -/
def heapCreamSingleChkKill (H : Heap) (m : ByteMem) (mary index : Nat) : ByteMem :=
  if firstTaken m (mothermary m mary index) 124 0 = 124 then heapCreamKill H m mary index else m

/-- The test of `heap_cream_free` for a pointer into the page at `base`. -/
def inPage (base p : Nat) : Bool := base ≤ p ∧ p - base < 4096

/-- What the `for` of `heap_cream_free` does with the result of `heap32_free`: it returns after a
success, and goes on with the next slot otherwise. -/
def afterFree (H : Heap) (mary i : Nat) (freed : Bool × ByteMem)
    (next : ByteMem → Bool × ByteMem) : Bool × ByteMem :=
  if freed.1 then (true, heapCreamSingleChkKill H freed.2 mary i) else next freed.2

/-- The `for` of `heap_cream_free`. -/
def freeInPages (H : Heap) (m : ByteMem) (mary ptr : Nat) : Nat → Nat → Bool × ByteMem
  | 0, _ => (false, m)
  | fuel + 1, i =>
      if i < 124 ∧ mothermary m mary i ≠ 0 then
        if inPage (mothermary m mary i) ptr then
          afterFree H mary i (heap32Free m (mothermary m mary i) ptr) fun m =>
            freeInPages H m mary ptr fuel (i + 1)
        else freeInPages H m mary ptr fuel (i + 1)
      else (false, m)

/-- `heap_cream_free`. -/
def heapCreamFree (H : Heap) (m : ByteMem) (mary ptr : Nat) : Bool × ByteMem :=
  if ptr = 0 then (false, m) else freeInPages H m mary ptr 124 0

/-! ## The slots -/

/-- A slot depends on its four bytes only. -/
theorem mothermary_congr {m m' : ByteMem} {mary i : Nat} (hi : i < 124)
    (h : ∀ x, (⟨mary, 1⟩ : Allocation).Covers x → m' x = m x) :
    mothermary m' mary i = mothermary m mary i := by
  refine ByteMem.word32_congr fun x hl hh => h x ?_
  simp only [Allocation.Covers, pagesFor]
  omega

theorem mothermary_set_same (m : ByteMem) {mary i value : Nat} (hvalue : value < 4294967296) :
    mothermary (setMothermary m mary i value) mary i = value := by
  rw [mothermary, setMothermary, ByteMem.word32_setWord32_same, Nat.mod_eq_of_lt hvalue]

theorem mothermary_set_other (m : ByteMem) {mary i j value : Nat} (hne : i ≠ j) :
    mothermary (setMothermary m mary i value) mary j = mothermary m mary j :=
  ByteMem.word32_setWord32_other (by omega)

/-- A store to a slot stays in the page of the array. -/
theorem set_mothermary_outside {m : ByteMem} {mary i value x : Nat} (hi : i < 124)
    (hx : ¬ (⟨mary, 1⟩ : Allocation).Covers x) : setMothermary m mary i value x = m x := by
  simp only [Allocation.Covers, pagesFor] at hx
  exact ByteMem.setWord32_outside (by omega)

theorem table_guard_set_eq (m : ByteMem) (page : Nat) :
    tableGuardSet m page = m.fill (page + 124) 4 0xab := by
  funext x
  simp only [tableGuardSet, Function.update_apply, ByteMem.fill]
  split_ifs <;> first | rfl | omega

/-- The first `i` slots are attached. -/
def NoEmptySlotBelow (m : ByteMem) (mary i : Nat) : Prop := ∀ j, j < i → mothermary m mary j ≠ 0

/-! ## Allocation -/

/-- Slot `i` is the first in whose page `malloc_32` finds blocks, and it takes those from `k`. -/
structure Placement (m : ByteMem) (mary size i k : Nat) : Prop where
  attached : NoEmptySlotBelow m mary (i + 1)
  index : i < 124
  fit : blockMarks.FirstFit (m.view (mothermary m mary i)) 124 (blocksFor size) k

/-- The walk over the attached pages finds the first page with room, or reaches an empty slot or the
end of the array. -/
theorem try_pages_cases (m : ByteMem) (mary : Nat) {size : Nat} (hsize : size ≤ 3968) :
    ∀ fuel i, 124 ≤ i + fuel → i ≤ 124 → NoEmptySlotBelow m mary i →
      (∃ j k, Placement m mary size j k ∧ 0 < blocksFor size ∧
        tryPages m mary size fuel i =
          (j, mothermary m mary j + (128 + k * 32),
            blockMarks.put m (mothermary m mary j + k) (blocksFor size))) ∨
      ∃ j, j ≤ 124 ∧ NoEmptySlotBelow m mary j ∧ (j = 124 ∨ mothermary m mary j = 0) ∧
        (∀ l, i ≤ l → l < j → (malloc32 m (mothermary m mary l) size).1 = 0) ∧
        tryPages m mary size fuel i = (j, 0, m) := by
  have hblocks : add32 size 31 / 32 = blocksFor size := by
    rw [add32_of_lt (by omega), blocksFor]
  intro fuel
  induction fuel with
  | zero =>
      intro i hfuel hi hno
      exact Or.inr ⟨i, hi, hno, Or.inl (by omega), fun l hl hh => by omega, rfl⟩
  | succ fuel ih =>
      intro i hfuel hi hno
      by_cases hgo : i < 124 ∧ mothermary m mary i ≠ 0
      · -- the slot holds a page: it has room, or the walk goes on behind it
        have hno' : NoEmptySlotBelow m mary (i + 1) := by
          intro j hj
          rcases Nat.lt_succ_iff_lt_or_eq.mp hj with hlt | rfl
          · exact hno j hlt
          · exact hgo.2
        rw [tryPages, if_pos hgo]
        rcases malloc32_cases m (mothermary m mary i) size with ⟨k, hpos, hfit, heq⟩ | ⟨heq, _⟩
        · rw [hblocks] at hpos hfit heq
          rw [heq]
          have hne : mothermary m mary i + (128 + k * 32) ≠ 0 := by omega
          simp only [hne, ne_eq, not_false_eq_true, if_true]
          exact Or.inl ⟨i, k, ⟨hno', hgo.1, hfit⟩, hpos, rfl⟩
        · rw [heq]
          simp only [ne_eq, not_true, if_false]
          rcases ih (i + 1) (by omega) (by omega) hno' with
            hfound | ⟨j, hj, hbelow, hstop, hfull, hj'⟩
          · exact Or.inl hfound
          · refine Or.inr ⟨j, hj, hbelow, hstop, fun l hl hh => ?_, hj'⟩
            rcases Nat.eq_or_lt_of_le hl with rfl | hlt
            · rw [heq]
            · exact hfull l hlt hh
      · rw [tryPages, if_neg hgo]
        -- the walk stops at the end of the array or at an empty slot
        refine Or.inr ⟨i, hi, hno, ?_, fun l hl hh => by omega, rfl⟩
        by_cases hlt : i < 124
        · exact Or.inr (by simpa [hlt] using hgo)
        · exact Or.inl (by omega)

variable {P : PageHeap} {mary : Nat}

/-- The memory after slot `i` got page `k`: the page is marked in the kernel table, its first byte
is cleared, the slot holds its address and its guard is set. -/
def withPage (P : PageHeap) (m : ByteMem) (mary i k : Nat) : ByteMem :=
  tableGuardSet
    (setMothermary (ByteMem.fill (blockMarks.put m (P.table.entries + k) 1) (P.page k) 1 0x00)
      mary i (P.page k)) (P.page k)

/-- In memory `m`, slot `i` is the first empty one, no page below it has room for `size` bytes, and
`kzalloc` hands out `page` for it. Pages behind the slot may have room: the loop never gets there.
-/
structure Attaches (H : Heap) (m : ByteMem) (mary size i page : Nat) : Prop where
  limit : size ≤ 3968
  index : i < 124
  below : NoEmptySlotBelow m mary i
  full : ∀ j < i, (malloc32 m (mothermary m mary j) size).1 = 0
  empty : mothermary m mary i = 0
  fresh : (kzalloc H m 1).1 = page
  granted : page ≠ 0

/-- `heap_cream_malloc` changes nothing and returns `NULL`, allocates in an attached page, or
attaches the first free page in the first empty slot and allocates there. -/
theorem heap_cream_malloc_cases (m : ByteMem) (size : Nat) (hmary : P.Owns m ⟨mary, 1⟩) :
    (heapCreamMalloc P.toHeap m mary size = (0, m) ∧
      ∀ i page, ¬ Attaches P.toHeap m mary size i page) ∨
    (size ≤ 3968 ∧ ∃ i k, Placement m mary size i k ∧ 0 < blocksFor size ∧
      heapCreamMalloc P.toHeap m mary size =
        (mothermary m mary i + (128 + k * 32),
          blockMarks.put m (mothermary m mary i + k) (blocksFor size))) ∨
    (∃ i k, Attaches P.toHeap m mary size i (P.page k) ∧
      blockMarks.FirstFit (P.tableOf m) P.table.total 1 k ∧
      kzalloc P.toHeap m 1 = (P.page k,
        ByteMem.fill (blockMarks.put m (P.table.entries + k) 1) (P.page k) 1 0x00) ∧
      heapCreamMalloc P.toHeap m mary size = malloc32 (withPage P m mary i k) (P.page k) size) := by
  by_cases hsize : size > 3968
  · exact Or.inl ⟨if_pos hsize, fun i page hatt => by have := hatt.limit; omega⟩
  · have hle : size ≤ 3968 := by omega
    rw [heapCreamMalloc, if_neg hsize]
    rcases try_pages_cases m mary hle 124 0 (by omega) (by omega) (by intro j hj; omega)
      with ⟨i, k, hplace, hpos, heq⟩ | ⟨i, hi, hno, hstop, hfull, heq⟩
    · have hne : mothermary m mary i + (128 + k * 32) ≠ 0 := by omega
      refine Or.inr (Or.inl ⟨hle, i, k, hplace, hpos, ?_⟩)
      rw [heq]
      simp only [hne, ne_eq, not_false_eq_true, if_true]
    · rw [heq]
      simp only [ne_eq, not_true, if_false]
      by_cases hend : i = 124
      · rw [if_pos hend]
        refine Or.inl ⟨rfl, fun j page hatt => ?_⟩
        have hj := hatt.index
        exact hno j (by omega) hatt.empty
      · have hempty : mothermary m mary i = 0 := hstop.resolve_left hend
        rw [if_neg hend, attachPage]
        rcases PageHeap.kzalloc_cases (P := P) m (show 1 < 4294967296 by omega)
          with ⟨k, hpages, _, hfit, hk⟩ | hk
        · have hpage : P.page k < 4294967296 := by
            have := PageHeap.page_bound (P := P) hfit.run.bound
            have := P.endLt
            omega
          -- the guard bytes lie in the new page, so the slot reads back what was stored
          have hback : ∀ m' : ByteMem, mothermary
              (tableGuardSet (setMothermary m' mary i (P.page k)) (P.page k)) mary i =
                P.page k := by
            intro m'
            have hset : mothermary (setMothermary m' mary i (P.page k)) mary i = P.page k :=
              mothermary_set_same _ hpage
            refine Eq.trans ?_ hset
            refine mothermary_congr (by omega) fun x hx => ?_
            rw [table_guard_set_eq]
            refine ByteMem.fill_outside ?_
            have hapart : ¬ (⟨P.page k, 1⟩ : Allocation).Covers x :=
              hmary.apart_free hfit.run hpages rfl x hx
            simp only [Allocation.Covers, pagesFor] at hapart
            omega
          have hne : P.page k ≠ 0 := Nat.ne_of_gt (PageHeap.page_pos k)
          rw [pages_for_one] at hfit hk
          refine Or.inr (Or.inr ⟨i, k, ⟨hle, by omega, hno, fun j hj => hfull j (by omega) hj,
            hempty, by rw [hk], hne⟩, hfit, hk, ?_⟩)
          rw [hk, withPage]
          simp only [mothermary_set_same _ hpage, hback, if_neg hne]
        · -- storing the `NULL` into an empty slot changes nothing
          have hsame : setMothermary m mary i 0 = m := by
            have := ByteMem.setWord32_self m (mary + 4 * i)
            rwa [show ByteMem.word32 m (mary + 4 * i) = 0 from hempty] at this
          refine Or.inl ⟨?_, fun j page hatt => hatt.granted ?_⟩
          · rw [hk]
            simp only [hsame, hempty, if_true]
          · rw [← hatt.fresh, hk]

/-! ## Freeing -/

/-- The scan of `heap_cream_single_chk_kill` reaches the end only over a free table. -/
theorem first_taken_eq_iff (m : ByteMem) (table : Nat) :
    ∀ fuel j, j + fuel = 124 →
      (firstTaken m table fuel j = 124 ↔ ∀ i, j ≤ i → i < 124 → m (table + i) = 0x00) := by
  intro fuel
  induction fuel with
  | zero =>
      intro j hj
      exact ⟨fun _ i hl hh => by omega, fun _ => hj⟩
  | succ fuel ih =>
      intro j hj
      rw [firstTaken, if_pos (by omega)]
      by_cases htaken : m (table + j) = 0x00
      · rw [if_neg (not_not.mpr htaken), ih (j + 1) (by omega)]
        constructor
        · intro h i hl hh
          rcases Nat.lt_or_eq_of_le hl with hlt | rfl
          · exact h i hlt hh
          · exact htaken
        · exact fun h i hl hh => h i (by omega) hh
      · rw [if_pos htaken]
        exact ⟨fun h => by omega, fun h => absurd (h j (Nat.le_refl _) (by omega)) htaken⟩

/-- After a successful free the page goes back when its table is free. -/
theorem single_chk_kill_cases (H : Heap) (m : ByteMem) (mary i : Nat) :
    ((∀ j, j < 124 → m (mothermary m mary i + j) = 0x00) ∧
      heapCreamSingleChkKill H m mary i = heapCreamKill H m mary i) ∨
    ((∃ j, j < 124 ∧ m (mothermary m mary i + j) ≠ 0x00) ∧
      heapCreamSingleChkKill H m mary i = m) := by
  have hiff := first_taken_eq_iff m (mothermary m mary i) 124 0 (by omega)
  rw [heapCreamSingleChkKill]
  split_ifs with hkill
  · exact Or.inl ⟨fun j hj => hiff.mp hkill j (by omega) hj, rfl⟩
  · refine Or.inr ⟨?_, rfl⟩
    by_contra hnone
    push Not at hnone
    exact hkill (hiff.mpr fun j _ hj => hnone j hj)

/-- A walk that meets no page with the address changes nothing. -/
theorem free_in_pages_none (H : Heap) {m : ByteMem} {mary ptr : Nat} :
    ∀ fuel i,
      (∀ j, i ≤ j → j < 124 → NoEmptySlotBelow m mary (j + 1) →
        inPage (mothermary m mary j) ptr = false) →
      NoEmptySlotBelow m mary i →
      freeInPages H m mary ptr fuel i = (false, m) := by
  intro fuel
  induction fuel with
  | zero => intros; rfl
  | succ fuel ih =>
      intro i hnone hno
      rw [freeInPages]
      by_cases hgo : i < 124 ∧ mothermary m mary i ≠ 0
      · have hno' : NoEmptySlotBelow m mary (i + 1) := by
          intro j hj
          rcases Nat.lt_succ_iff_lt_or_eq.mp hj with hlt | rfl
          · exact hno j hlt
          · exact hgo.2
        rw [if_pos hgo, hnone i (Nat.le_refl _) hgo.1 hno']
        simp only [Bool.false_eq_true, if_false]
        exact ih (i + 1) (fun j hj => hnone j (by omega)) hno'
      · rw [if_neg hgo]

/-- A walk reaches the first page that contains the address. -/
theorem free_in_pages_some (H : Heap) {m : ByteMem} {mary ptr i : Nat} (hi : i < 124)
    (hno : NoEmptySlotBelow m mary (i + 1)) (hin : inPage (mothermary m mary i) ptr = true)
    (hfirst : ∀ j, j < i → inPage (mothermary m mary j) ptr = false) :
    ∀ fuel j, j ≤ i → i < j + fuel →
      freeInPages H m mary ptr fuel j =
        afterFree H mary i (heap32Free m (mothermary m mary i) ptr) fun m =>
          freeInPages H m mary ptr (j + fuel - (i + 1)) (i + 1) := by
  intro fuel
  induction fuel with
  | zero => intro j hj hfuel; omega
  | succ fuel ih =>
      intro j hj hfuel
      have hgo : j < 124 ∧ mothermary m mary j ≠ 0 := ⟨by omega, hno j (by omega)⟩
      rw [freeInPages, if_pos hgo]
      rcases Nat.lt_or_eq_of_le hj with hlt | rfl
      · rw [hfirst j hlt]
        simp only [Bool.false_eq_true, if_false]
        rw [ih (j + 1) (by omega) (by omega),
          show j + 1 + fuel = j + (fuel + 1) by omega]
      · rw [if_pos hin, show j + (fuel + 1) - (j + 1) = fuel by omega]

theorem in_page_iff {base ptr : Nat} :
    inPage base ptr = true ↔ base ≤ ptr ∧ ptr - base < 4096 := by
  simp [inPage]

/-- A pointer lies in one page only. -/
theorem in_page_unique {base base' ptr : Nat} (hbase : base % 4096 = 0) (hbase' : base' % 4096 = 0)
    (h : inPage base ptr = true) (h' : inPage base' ptr = true) : base = base' := by
  rw [in_page_iff] at h h'
  omega

/-- The array and the attached pages: the kernel table marks each as a page of its own, no page is
attached twice, and each attached page has its guard. -/
structure Attached (P : PageHeap) (m : ByteMem) (mary : Nat) : Prop where
  array : P.Owns m ⟨mary, 1⟩
  owned : ∀ i, i < 124 → mothermary m mary i ≠ 0 → P.Owns m ⟨mothermary m mary i, 1⟩
  ne_array : ∀ i, i < 124 → mothermary m mary i ≠ mary
  distinct : ∀ i j, i < 124 → j < 124 → mothermary m mary i ≠ 0 →
    mothermary m mary i = mothermary m mary j → i = j
  guard : ∀ i, i < 124 → mothermary m mary i ≠ 0 → ∀ j, 124 ≤ j → j < 128 →
    m (mothermary m mary i + j) = 0xab

namespace Attached

variable {m : ByteMem} {i : Nat}

theorem aligned (h : Attached P m mary) (hi : i < 124) : mothermary m mary i % 4096 = 0 := by
  by_cases hz : mothermary m mary i = 0
  · rw [hz]
  · obtain ⟨k, hptr, _⟩ := h.owned i hi hz
    rw [show mothermary m mary i = P.page k from hptr]
    exact PageHeap.page_aligned k

theorem bound (h : Attached P m mary) (hi : i < 124) (hne : mothermary m mary i ≠ 0) :
    mothermary m mary i + 4096 < 4294967296 := by
  have hin := (h.owned i hi hne).in_pages (x := mothermary m mary i + 4095)
    (by simp only [Allocation.Covers, pagesFor]; omega)
  have hend := P.endLt
  have haligned := h.aligned hi
  simp only [PageHeap.InPages] at hin
  omega

/-- An attached page shares no byte with the page of the array. -/
theorem apart_array (h : Attached P m mary) (hi : i < 124) (hne : mothermary m mary i ≠ 0) :
    Allocation.Apart ⟨mothermary m mary i, 1⟩ ⟨mary, 1⟩ :=
  (h.owned i hi hne).apart h.array (h.ne_array i hi)

/-- Two attached pages share no byte. -/
theorem apart_slot (h : Attached P m mary) {j : Nat} (hi : i < 124) (hj : j < 124) (hij : i ≠ j)
    (hnei : mothermary m mary i ≠ 0) (hnej : mothermary m mary j ≠ 0) :
    Allocation.Apart ⟨mothermary m mary i, 1⟩ ⟨mothermary m mary j, 1⟩ :=
  (h.owned i hi hnei).apart (h.owned j hj hnej) fun heq => hij (h.distinct i j hi hj hnei heq)

/-- A change inside an attached page moves no slot. -/
theorem mothermary_of_page (h : Attached P m mary) (hi : i < 124) (hne : mothermary m mary i ≠ 0)
    {m' : ByteMem} (hout : ∀ x, ¬ (⟨mothermary m mary i, 1⟩ : Allocation).Covers x → m' x = m x)
    {j : Nat} (hj : j < 124) : mothermary m' mary j = mothermary m mary j :=
  mothermary_congr hj fun x hx => hout x fun hcov => h.apart_array hi hne x hcov hx

end Attached

/-- The entries of a stretch of table entries lie in their page. -/
theorem erase_outside_page {m : ByteMem} {page k r : Nat} (hr : k + r ≤ 124) {x : Nat}
    (hx : ¬ (⟨page, 1⟩ : Allocation).Covers x) : blockMarks.erase m (page + k) r x = m x := by
  simp only [Allocation.Covers, pagesFor] at hx
  exact Marks.erase_outside (by omega)

/-- `heap_cream_free` changes nothing and reports a failure, or it clears a stretch of the table of
one attached page, and on success gives the page back if its table is then free. The address of a
marked block in a page that the walk reaches is always freed. -/
theorem heap_cream_free_cases {m : ByteMem} (h : Attached P m mary) (ptr : Nat) :
    (heapCreamFree P.toHeap m mary ptr = (false, m) ∧
      ∀ i k b, i < 124 → NoEmptySlotBelow m mary (i + 1) → k < 124 →
        ptr = mothermary m mary i + (128 + k * 32) →
        ¬ blockMarks.Block (m.view (mothermary m mary i)) k b) ∨
    ∃ i k r, i < 124 ∧ NoEmptySlotBelow m mary (i + 1) ∧ k + r ≤ 124 ∧
      ptr = mothermary m mary i + (128 + k * 32) ∧
      blockMarks.Stretch (m.view (mothermary m mary i)) k r ∧
      ((heapCreamFree P.toHeap m mary ptr =
          (false, blockMarks.erase m (mothermary m mary i + k) r) ∧
        ∀ b, k + b ≤ 124 → ¬ blockMarks.Block (m.view (mothermary m mary i)) k b) ∨
      (heapCreamFree P.toHeap m mary ptr =
          (true, heapCreamSingleChkKill P.toHeap
            (blockMarks.erase m (mothermary m mary i + k) r) mary i) ∧
        ∀ b, k + b ≤ 124 → blockMarks.Block (m.view (mothermary m mary i)) k b → r = b)) := by
  rw [heapCreamFree]
  by_cases hnull : ptr = 0
  · rw [if_pos hnull]
    exact Or.inl ⟨rfl, fun i k b _ _ _ hptr => by omega⟩
  rw [if_neg hnull]
  -- a block address of page `i` lies in page `i`
  have hinside : ∀ i k, k < 124 → ptr = mothermary m mary i + (128 + k * 32) →
      inPage (mothermary m mary i) ptr = true :=
    fun i k hk hptr => in_page_iff.mpr (by omega)
  by_cases hpage : ∃ i, i < 124 ∧ NoEmptySlotBelow m mary (i + 1) ∧
      inPage (mothermary m mary i) ptr = true
  · obtain ⟨i, hi, hno, hin⟩ := hpage
    have hne : mothermary m mary i ≠ 0 := hno i (by omega)
    have hunique : ∀ j, j < 124 → mothermary m mary j ≠ 0 →
        inPage (mothermary m mary j) ptr = true → j = i := fun j hj hnej hinj =>
      h.distinct j i hj hi hnej (in_page_unique (h.aligned hj) (h.aligned hi) hinj hin)
    have hother : ∀ j, j < 124 → mothermary m mary j ≠ 0 → j ≠ i →
        inPage (mothermary m mary j) ptr = false := fun j hj hnej hji => by
      by_contra hin'
      exact hji (hunique j hj hnej (by simpa using hin'))
    rw [free_in_pages_some P.toHeap hi hno hin
      (fun j hj => hother j (by omega) (hno j (by omega)) (by omega)) 124 0 (by omega) (by omega)]
    -- the rest of the walk meets no page with the pointer
    have hrest : ∀ m' : ByteMem, (∀ j, j < 124 → mothermary m' mary j = mothermary m mary j) →
        freeInPages P.toHeap m' mary ptr (0 + 124 - (i + 1)) (i + 1) = (false, m') := by
      intro m' hsame
      refine free_in_pages_none P.toHeap _ _ (fun j hl hj hnoj => ?_) fun j hj => ?_
      · have hnej := hnoj j (by omega)
        rw [hsame j hj] at hnej ⊢
        exact hother j hj hnej (by omega)
      · rw [hsame j (by omega)]
        exact hno j hj
    have hbound := h.bound hi hne
    rw [in_page_iff] at hin
    rcases heap32_free_eq m hin.1 (by omega) (by omega)
      with ⟨heq, hblock⟩ | ⟨k, hk, hptr, heq⟩
    · rw [heq, afterFree, hrest m fun _ _ => rfl]
      refine Or.inl ⟨by simp, fun j k b hj hnoj hk hptr => ?_⟩
      have hji := hunique j hj (hnoj j (by omega)) (hinside j k hk hptr)
      subst hji
      exact absurd hptr (hblock k)
    · rw [heq]
      rcases heap32_free_entry_cases hk
        (h.guard i hi hne 124 (by omega) (by omega)) with
        ⟨hentry, hblock⟩ | ⟨r, hr, hstretch, hmem, hwhole⟩
      · rw [hentry, afterFree, hrest m fun _ _ => rfl]
        refine Or.inl ⟨by simp, fun j k' b hj hnoj hk' hptr' => ?_⟩
        have hji := hunique j hj (hnoj j (by omega)) (hinside j k' hk' hptr')
        subst hji
        rw [show k' = k by omega]
        exact hblock b
      · refine Or.inr ⟨i, k, r, hi, hno, hr, hptr, hstretch, ?_⟩
        rw [afterFree, hmem]
        by_cases hok : (heap32FreeEntry m (mothermary m mary i) (mothermary m mary i + k)).1 = true
        · rw [if_pos hok]
          exact Or.inr ⟨rfl, fun b hb hblock => (hwhole b hblock hb).1⟩
        · rw [if_neg hok, hrest _ fun j hj =>
            h.mothermary_of_page hi hne (fun x hx => erase_outside_page hr hx) hj]
          exact Or.inl ⟨rfl, fun b hb hblock => hok (hwhole b hblock hb).2⟩
  · push Not at hpage
    rw [free_in_pages_none P.toHeap 124 0
      (fun j _ hj hnoj => by simpa using hpage j hj hnoj) (fun j hj => by omega)]
    exact Or.inl ⟨rfl, fun i k b hi hno hk hptr =>
      absurd (hinside i k hk hptr) (hpage i hi hno)⟩

/-- `heap_cream_kill` frees the page in the kernel table and empties its slot. -/
theorem heap_cream_kill_eq {m : ByteMem} {i : Nat}
    (howned : P.Owns m ⟨mothermary m mary i, 1⟩) :
    ∃ k, mothermary m mary i = P.page k ∧ blockMarks.Block (P.tableOf m) k 1 ∧
      k + 1 ≤ P.table.total ∧
      heapCreamKill P.toHeap m mary i =
        setMothermary (blockMarks.erase m (P.table.entries + k) 1) mary i 0 := by
  obtain ⟨k, hptr, hblock, hbound⟩ := howned
  simp only [pages_for_one] at hblock hbound
  have hfree : kfree P.toHeap m (mothermary m mary i) =
      blockMarks.erase m (P.table.entries + k) 1 := by
    rw [show mothermary m mary i = P.page k from hptr]
    exact PageHeap.heap_free_block hblock hbound (Nat.le_refl _) (by omega)
  exact ⟨k, hptr, hblock, hbound, by rw [heapCreamKill, hfree]⟩

end Genesis32
