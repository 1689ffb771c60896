import Genesis32.Heap.PageHeap

/-!
# Blocks inside a page

The functions of `heap/heap32.c`. A page is divided into 32-byte blocks: its first 128 bytes
(`DATA_OFFSET_BYTES`) are a table with one byte for each of the 124 blocks that follow, and the last
four table bytes hold the guard value `0xab`. The table uses the marks of the page heap.

`malloc_32` is specified by `malloc32_cases`: it marks the first fit or changes nothing. The pages
that `heap_cream` attaches keep what their last owner left in the table, so `heap32_free` is
specified over an arbitrary table with its guard (`heap32_free_eq`, `heap32_free_entry_cases`): it
clears a stretch of entries that starts with a first mark, or nothing.
-/

namespace Genesis32

open Word

/-- `table_guard_set`. -/
def tableGuardSet (m : ByteMem) (page : Nat) : ByteMem :=
  let m := Function.update m (page + 124) 0xab
  let m := Function.update m (page + 125) 0xab
  let m := Function.update m (page + 126) 0xab
  Function.update m (page + 127) 0xab

/-- The inner `for` of `get_index`: the index and the target it ends with. -/
def takeBlocks (m : ByteMem) (page : Nat) : Nat → Nat → Int → Nat × Int
  | 0, i, target => (i, target)
  | fuel + 1, i, target =>
      if target ≠ 0 ∧ i < 124 then
        if m (page + i) ≠ 0x00 then (i, target)
        else takeBlocks m page fuel (i + 1) (target - 1)
      else (i, target)

/-- The outer `for` of `get_index`. -/
def searchIndex (m : ByteMem) (page noBlocks : Nat) : Nat → Nat → Int
  | 0, _ => -1
  | fuel + 1, i =>
      if i < 124 then
        if m (page + i) = 0x00 then
          let (j, target) := takeBlocks m page (124 - i) (i + 1) (toInt32 noBlocks - 1)
          if target = 0 then i else searchIndex m page noBlocks fuel (j + 1)
        else searchIndex m page noBlocks fuel (i + 1)
      else -1

/-- `get_index`: the first index of the run, or `-1`. -/
def getIndex (m : ByteMem) (page noBlocks : Nat) : Int :=
  searchIndex m page noBlocks 124 0

/-- The loop of `set_table_val` over the middle blocks: the index it ends with, or `none` when it
meets a taken block. -/
def setMid (m : ByteMem) (indexAddr noBlocks : Nat) : Nat → Nat → Option Nat × ByteMem
  | 0, i => (some i, m)
  | fuel + 1, i =>
      if i < noBlocks - 1 then
        if m (indexAddr + i) ≠ 0x00 then (none, m)
        else setMid (Function.update m (indexAddr + i) 0x81) indexAddr noBlocks fuel (i + 1)
      else (some i, m)

/-- `set_table_val`. Its error code is positive. -/
def setTableVal (m : ByteMem) (page index noBlocks : Nat) : Int × ByteMem :=
  if noBlocks = 1 then
    if m (page + index) ≠ 0x00 then (gen32Invarg, m)
    else (0, Function.update m (page + index) 0x41)
  else if m (page + index) ≠ 0x00 then (gen32Invarg, m)
  else
    match setMid (Function.update m (page + index) 0xc1) (page + index) noBlocks noBlocks 1 with
    | (none, m) => (gen32Invarg, m)
    | (some i, m) =>
        if m (page + index + i) ≠ 0x00 then (gen32Invarg, m)
        else (0, Function.update m (page + index + i) 0x01)

/-- `malloc_32`: the address of the block, or `0`, and the memory. -/
def malloc32 (m : ByteMem) (page size : Nat) : Nat × ByteMem :=
  let noBlocks := add32 size 31 / 32
  let index := getIndex m page noBlocks
  if index < 0 then (0, m)
  else
    match setTableVal m page index.toNat noBlocks with
    | (code, m) => if code < 0 then (0, m) else (page + (128 + index.toNat * 32), m)

/-- The loop of `heap32_free` over the middle blocks: the address it ends with, or `none` when it
meets a byte that is no middle mark. -/
def clearMid (m : ByteMem) (page : Nat) : Nat → Nat → Option Nat × ByteMem
  | 0, a => (some a, m)
  | fuel + 1, a =>
      if m a ≠ 0x01 ∧ a - page < 128 then
        if m a ≠ 0x81 then (none, m)
        else clearMid (Function.update m a 0x00) page fuel (a + 1)
      else (some a, m)

/-- The part of `heap32_free` after the address of the table entry is known. -/
def heap32FreeEntry (m : ByteMem) (page indexAddr : Nat) : Bool × ByteMem :=
  if m indexAddr = 0xab then (false, m)
  else if m indexAddr = 0x00 then (false, m)
  else if m indexAddr = 0x01 ∨ m indexAddr = 0x81 then (false, m)
  else if m indexAddr = 0x41 then (true, Function.update m indexAddr 0x00)
  else if m indexAddr ≠ 0xc1 then (false, m)
  else
    match clearMid (Function.update m indexAddr 0x00) page 128 (indexAddr + 1) with
    | (none, m) => (false, m)
    | (some a, m) => (true, Function.update m a 0x00)

/-- The part of `heap32_free` after the distance from the first block is known to be positive. -/
def heap32FreeIndex (m : ByteMem) (page index : Nat) : Bool × ByteMem :=
  if index % 32 ≠ 0 then (false, m) else heap32FreeEntry m page (page + index / 32)

/-- `heap32_free`. -/
def heap32Free (m : ByteMem) (page blockAddr : Nat) : Bool × ByteMem :=
  if toInt32 (sub32 blockAddr page) < 128 then (false, m)
  else heap32FreeIndex m page (toInt32 (sub32 blockAddr page) - 128).toNat

/-! ## The search -/

/-- The number of blocks that hold `size` bytes. -/
def blocksFor (size : Nat) : Nat := (size + 31) / 32

/-- `takeBlocks` moves over free entries below 124, and it stops early only at a taken entry. -/
theorem take_blocks_spec (m : ByteMem) (page : Nat) :
    ∀ fuel i (target : Int), 124 ≤ i + fuel → 0 ≤ target →
      ∃ d : Nat, takeBlocks m page fuel i target = (i + d, target - d) ∧ (d : Int) ≤ target ∧
        (∀ j, j < d → i + j < 124 ∧ m (page + (i + j)) = 0x00) ∧
        ((d : Int) < target → i + d < 124 → m (page + (i + d)) ≠ 0x00) := by
  intro fuel
  induction fuel with
  | zero =>
      intro i target hfuel htarget
      exact ⟨0, by simp [takeBlocks], by simpa, by omega, by omega⟩
  | succ fuel ih =>
      intro i target hfuel htarget
      by_cases hgo : target ≠ 0 ∧ i < 124
      · by_cases hfree : m (page + i) = 0x00
        · obtain ⟨d, heq, hle, hzero, hstop⟩ := ih (i + 1) (target - 1) (by omega) (by omega)
          refine ⟨d + 1, ?_, by push_cast; omega, ?_, ?_⟩
          · rw [takeBlocks, if_pos hgo, if_neg (not_not.mpr hfree), heq]
            refine Prod.ext ?_ ?_
            · simp only
              omega
            · simp only
              push_cast
              omega
          · intro j hj
            rcases j with _ | j
            · exact ⟨hgo.2, hfree⟩
            · have := hzero j (by omega)
              rwa [show i + 1 + j = i + (j + 1) by omega] at this
          · intro h1 h2
            have := hstop (by push_cast at h1; omega) (by omega)
            rwa [show i + 1 + d = i + (d + 1) by omega] at this
        · refine ⟨0, ?_, by simpa, by omega, fun _ _ => hfree⟩
          rw [takeBlocks, if_pos hgo, if_pos hfree]
          simp
      · refine ⟨0, ?_, by simpa, by omega, fun h1 h2 => ?_⟩
        · rw [takeBlocks, if_neg hgo]
          simp
        · exact absurd ⟨by omega, by omega⟩ hgo

/-- With no blocks asked for, the countdown starts below zero and never ends at it. -/
theorem take_blocks_neg (m : ByteMem) (page : Nat) :
    ∀ fuel i (target : Int), target < 0 → (takeBlocks m page fuel i target).2 < 0 := by
  intro fuel
  induction fuel with
  | zero => intro i target htarget; exact htarget
  | succ fuel ih =>
      intro i target htarget
      rw [takeBlocks]
      split_ifs
      · exact htarget
      · exact ih _ _ (by omega)
      · exact htarget

theorem search_index_zero (m : ByteMem) (page : Nat) :
    ∀ fuel i, searchIndex m page 0 fuel i = -1 := by
  intro fuel
  induction fuel with
  | zero => intro i; rfl
  | succ fuel ih =>
      intro i
      rw [searchIndex]
      split_ifs
      · have hneg := take_blocks_neg m page (124 - i) (i + 1) (toInt32 0 - 1) (by decide)
        simp only [if_neg hneg.ne, ih]
      · exact ih _
      · rfl

/-- The loop of `get_index` is a search for `b` free entries. -/
theorem search_index_search (m : ByteMem) (page : Nat) {b : Nat} (hb : 0 < b)
    (hlt : b < 2147483648) :
    blockMarks.Search (m.view page) 124 b (fun fuel k => searchIndex m page b fuel k)
      (fun k => (k : Int)) (-1) where
  stop := by
    intro fuel k hk
    cases fuel with
    | zero => rfl
    | succ fuel => rw [searchIndex, if_neg (by omega)]
  taken := by
    intro fuel k hk htaken
    have hne : m (page + k) ≠ 0x00 := htaken
    rw [searchIndex, if_pos hk, if_neg hne]
  count := by
    intro fuel k hk hfree
    have hfirst : m (page + k) = 0x00 := hfree
    obtain ⟨d, heq, hle, hzero, hstop⟩ :=
      take_blocks_spec m page (124 - k) (k + 1) (toInt32 b - 1) (by omega)
        (by rw [to_int32_of_lt hlt]; omega)
    rw [to_int32_of_lt hlt] at heq hle hstop
    have hbody : searchIndex m page b (fuel + 1) k =
        if (b : Int) - 1 - d = 0 then (k : Int) else searchIndex m page b fuel (k + d + 2) := by
      rw [searchIndex, if_pos hk, if_pos hfirst, to_int32_of_lt hlt, heq]
      simp only [show k + 1 + d + 1 = k + d + 2 by omega]
    refine ⟨d, hzero, ?_⟩
    rw [hbody]
    by_cases hcount : (b : Int) - 1 - d = 0
    · exact Or.inl ⟨by omega, if_pos hcount⟩
    · exact Or.inr ⟨by omega, hstop (by omega), if_neg hcount⟩

/-- It returns the first fit among the entries from `k`, if no run starts earlier. -/
theorem search_index_spec (m : ByteMem) (page : Nat) {b : Nat} (hb : 0 < b)
    (hlt : b < 2147483648) :
    ∀ fuel k, 124 ≤ k + fuel →
      (∀ k', k' < k → ¬ blockMarks.FreeRun (m.view page) 124 k' b) →
      (searchIndex m page b fuel k = -1 ∧ ∀ k', ¬ blockMarks.FreeRun (m.view page) 124 k' b) ∨
      ∃ k' : Nat, searchIndex m page b fuel k = k' ∧
        blockMarks.FirstFit (m.view page) 124 b k' :=
  (search_index_search m page hb hlt).first_fit hb

/-! ## Allocation -/

/-- Over free entries the middle loop writes every middle mark. -/
theorem set_mid_eq (indexAddr noBlocks : Nat) :
    ∀ fuel (m : ByteMem) i, noBlocks ≤ i + 1 + fuel → i + 1 ≤ noBlocks →
      (∀ j, i ≤ j → j < noBlocks - 1 → m (indexAddr + j) = 0x00) →
      setMid m indexAddr noBlocks fuel i =
        (some (noBlocks - 1), m.fill (indexAddr + i) (noBlocks - 1 - i) 0x81) := by
  intro fuel
  induction fuel with
  | zero =>
      intro m i hfuel hi _
      rw [setMid, show noBlocks - 1 - i = 0 by omega, show i = noBlocks - 1 by omega]
      exact Prod.ext rfl (funext fun x => (ByteMem.fill_outside (by omega)).symm)
  | succ fuel ih =>
      intro m i hfuel hi hfree
      rw [setMid]
      by_cases hlt : i < noBlocks - 1
      · rw [if_pos hlt, if_neg (not_not.mpr (hfree i (Nat.le_refl _) hlt)),
          ih _ (i + 1) (by omega) (by omega)]
        · refine Prod.ext rfl (funext fun x => ?_)
          simp only [ByteMem.fill, Function.update_apply]
          split_ifs <;> first | rfl | omega
        · intro j hj hj'
          rw [Function.update_apply, if_neg (by omega)]
          exact hfree j (by omega) hj'
      · rw [if_neg hlt, show noBlocks - 1 - i = 0 by omega, show i = noBlocks - 1 by omega]
        exact Prod.ext rfl (funext fun x => (ByteMem.fill_outside (by omega)).symm)

/-- Over a free run `set_table_val` writes the marks of one run. -/
theorem set_table_val_eq {m : ByteMem} {page k b : Nat} (hb : 0 < b)
    (hfree : ∀ j, j < b → m (page + (k + j)) = 0x00) :
    setTableVal m page k b = (0, blockMarks.put m (page + k) b) := by
  have hfirst : m (page + k) = 0x00 := hfree 0 hb
  by_cases hone : b = 1
  · subst hone
    rw [setTableVal, if_pos rfl, if_neg (not_not.mpr hfirst)]
    refine Prod.ext rfl (funext fun x => ?_)
    simp only [Function.update_apply, Marks.put, Marks.mark, if_true, blockMarks]
    split_ifs <;> first | rfl | omega
  · have hmid : setMid (Function.update m (page + k) 0xc1) (page + k) b b 1 =
        (some (b - 1), ByteMem.fill (Function.update m (page + k) 0xc1) (page + k + 1)
          (b - 1 - 1) 0x81) := by
      refine set_mid_eq _ _ _ _ _ (by omega) (by omega) fun j hj hj' => ?_
      rw [Function.update_apply, if_neg (by omega), Nat.add_assoc]
      exact hfree j (by omega)
    have hlast : ByteMem.fill (Function.update m (page + k) 0xc1) (page + k + 1) (b - 1 - 1) 0x81
        (page + k + (b - 1)) = 0x00 := by
      rw [ByteMem.fill_outside (by omega), Function.update_apply, if_neg (by omega), Nat.add_assoc]
      exact hfree (b - 1) (by omega)
    rw [setTableVal, if_neg hone, if_neg (not_not.mpr hfirst), hmid]
    simp only [hlast, ne_eq, not_true, if_false]
    refine Prod.ext rfl (funext fun x => ?_)
    simp only [Function.update_apply, ByteMem.fill, Marks.put, Marks.mark, hone, if_false,
      blockMarks]
    split_ifs <;> first | rfl | omega

/-- `malloc_32` either marks the first fit for the blocks the size takes and returns its first
block, or changes nothing and returns `NULL`. The second happens, for a positive block count, only
when no free run is long enough. -/
theorem malloc32_cases (m : ByteMem) (page size : Nat) :
    (∃ k, 0 < add32 size 31 / 32 ∧
      blockMarks.FirstFit (m.view page) 124 (add32 size 31 / 32) k ∧
      malloc32 m page size =
        (page + (128 + k * 32), blockMarks.put m (page + k) (add32 size 31 / 32))) ∨
    (malloc32 m page size = (0, m) ∧
      (0 < add32 size 31 / 32 →
        ∀ k, ¬ blockMarks.FreeRun (m.view page) 124 k (add32 size 31 / 32))) := by
  have hlt : add32 size 31 / 32 < 2147483648 := by
    unfold add32
    omega
  generalize hb : add32 size 31 / 32 = b at hlt
  rcases Nat.eq_zero_or_pos b with hz | hpos
  · subst hz
    refine Or.inr ⟨?_, by omega⟩
    simp only [malloc32, hb, getIndex, search_index_zero]
    rfl
  · rcases search_index_spec m page hpos hlt 124 0 (by omega) (by omega) with
      ⟨hnull, hnone⟩ | ⟨k, hfound, hfit⟩
    · refine Or.inr ⟨?_, fun _ => hnone⟩
      simp only [malloc32, hb, getIndex, hnull]
      rfl
    · refine Or.inl ⟨k, hpos, hfit, ?_⟩
      have hset : setTableVal m page k b = (0, blockMarks.put m (page + k) b) :=
        set_table_val_eq hpos hfit.run.free
      have hnonneg : ¬ (k : Int) < 0 := by omega
      simp only [malloc32, hb, getIndex, hfound, Int.toNat_natCast, hset, if_neg hnonneg,
        lt_self_iff_false, if_false]

/-! ## Freeing -/

/-- The middle loop of `heap32_free` clears middle marks from index `i`. It stops at an end mark, or
gives up at any other byte; the guard ends it in any case. -/
theorem clear_mid_spec (page : Nat) :
    ∀ fuel (m : ByteMem) i, i ≤ 124 → 124 < i + fuel → m (page + 124) = 0xab →
      ∃ d, i + d ≤ 124 ∧ (∀ j, j < d → m (page + (i + j)) = 0x81) ∧
        ((m (page + (i + d)) = 0x01 ∧ i + d < 124 ∧
          clearMid m page fuel (page + i) = (some (page + (i + d)), m.fill (page + i) d 0x00)) ∨
        (m (page + (i + d)) ≠ 0x01 ∧ m (page + (i + d)) ≠ 0x81 ∧
          clearMid m page fuel (page + i) = (none, m.fill (page + i) d 0x00))) := by
  intro fuel
  induction fuel with
  | zero => intro m i hi hfuel; omega
  | succ fuel ih =>
      intro m i hi hfuel hguard
      have hfill : m.fill (page + i) 0 0x00 = m :=
        funext fun x => ByteMem.fill_outside (by omega)
      by_cases hend : m (page + i) = 0x01
      · refine ⟨0, by omega, by omega, Or.inl ⟨hend, ?_, ?_⟩⟩
        · -- the guard at 124 is neither an end mark nor a middle mark
          rcases Nat.lt_or_eq_of_le hi with hlt | heq
          · exact hlt
          · rw [heq, hguard] at hend
            exact absurd hend (by decide)
        · rw [clearMid, if_neg (fun h => h.1 hend), hfill, Nat.add_zero]
      · have hin : page + i - page < 128 := by omega
        by_cases hmid : m (page + i) = 0x81
        · have hlt : i < 124 := by
            rcases Nat.lt_or_eq_of_le hi with hlt | heq
            · exact hlt
            · rw [heq, hguard] at hmid
              exact absurd hmid (by decide)
          -- the entries behind this one are as they were, and the induction is on them
          have hsame : ∀ j, i < j →
              (Function.update m (page + i) 0x00 : ByteMem) (page + j) = m (page + j) :=
            fun j hj => by rw [Function.update_apply, if_neg (by omega)]
          have hstep : clearMid m page (fuel + 1) (page + i) =
              clearMid (Function.update m (page + i) 0x00) page fuel (page + (i + 1)) := by
            rw [clearMid, if_pos ⟨hend, hin⟩, if_neg (not_not.mpr hmid), Nat.add_assoc]
          have hfills : ∀ d, ByteMem.fill (Function.update m (page + i) 0x00) (page + (i + 1)) d
              0x00 = m.fill (page + i) (d + 1) 0x00 := by
            intro d
            funext x
            simp only [ByteMem.fill, Function.update_apply]
            split_ifs <;> first | rfl | omega
          obtain ⟨d, hd, hbody, hcase⟩ := ih (Function.update m (page + i) 0x00) (i + 1) (by omega)
            (by omega) (by rw [hsame 124 (by omega)]; exact hguard)
          rw [hfills, ← hstep, hsame (i + 1 + d) (by omega),
            show i + 1 + d = i + (d + 1) by omega] at hcase
          refine ⟨d + 1, by omega, fun j hj => ?_, hcase⟩
          rcases j with _ | j
          · exact hmid
          · have := hbody j (by omega)
            rwa [hsame _ (by omega), show i + 1 + j = i + (j + 1) by omega] at this
        · -- any other byte, such as the guard or a free entry, ends the loop without an end mark
          refine ⟨0, by omega, by omega, Or.inr ⟨hend, hmid, ?_⟩⟩
          rw [clearMid, if_pos ⟨hend, hin⟩, if_pos hmid, hfill]

/-- Clearing the head of a run, its `d` middle blocks and its end is freeing `d + 2` entries. -/
theorem clear_run_eq (m : ByteMem) (a d : Nat) :
    (Function.update (ByteMem.fill (Function.update m a 0x00) (a + 1) d 0x00) (a + 1 + d) 0x00) =
      blockMarks.erase m a (d + 2) := by
  funext x
  simp only [Function.update_apply, ByteMem.fill, Marks.erase, blockMarks]
  split_ifs <;> first | rfl | omega

/-- Clearing the head of a run and `d` middle blocks is freeing `d + 1` entries. -/
theorem clear_partial_eq (m : ByteMem) (a d : Nat) :
    ByteMem.fill (Function.update m a 0x00) (a + 1) d 0x00 = blockMarks.erase m a (d + 1) := by
  funext x
  simp only [Function.update_apply, ByteMem.fill, Marks.erase, blockMarks]
  split_ifs <;> first | rfl | omega

/-- Over any table with its guard, the entry part of `heap32_free` clears a stretch that starts at
the entry, or nothing. It clears a whole run and reports success when a run starts there. -/
theorem heap32_free_entry_cases {m : ByteMem} {page k : Nat} (hk : k < 124)
    (hguard : m (page + 124) = 0xab) :
    (heap32FreeEntry m page (page + k) = (false, m) ∧
      ∀ b, ¬ blockMarks.Block (m.view page) k b) ∨
    ∃ r, k + r ≤ 124 ∧ blockMarks.Stretch (m.view page) k r ∧
      (heap32FreeEntry m page (page + k)).2 = blockMarks.erase m (page + k) r ∧
      ∀ b, blockMarks.Block (m.view page) k b → k + b ≤ 124 →
        r = b ∧ (heap32FreeEntry m page (page + k)).1 = true := by
  by_cases hsingle : m (page + k) = 0x41
  · have heq : heap32FreeEntry m page (page + k) =
        (true, Function.update m (page + k) 0x00) := by
      simp [heap32FreeEntry, hsingle]
    refine Or.inr ⟨1, by omega, ⟨by omega, Or.inl hsingle, by omega⟩, ?_, fun b hb _ => ?_⟩
    · rw [heq]
      funext x
      simp only [Function.update_apply, Marks.erase, blockMarks]
      split_ifs <;> first | rfl | omega
    · rw [heq]
      exact ⟨(hb.single_iff.mp hsingle).symm, rfl⟩
  · by_cases hfirst : m (page + k) = 0xc1
    · have hentry : heap32FreeEntry m page (page + k) =
          match clearMid (Function.update m (page + k) 0x00) page 128 (page + (k + 1)) with
          | (none, m) => (false, m)
          | (some a, m) => (true, Function.update m a 0x00) := by
        rw [heap32FreeEntry, if_neg (by rw [hfirst]; decide), if_neg (by rw [hfirst]; decide),
          if_neg (by rw [hfirst]; decide), if_neg hsingle, if_neg (not_not.mpr hfirst),
          Nat.add_assoc]
      have hsame : ∀ j, k < j →
          (Function.update m (page + k) 0x00 : ByteMem) (page + j) = m (page + j) :=
        fun j hj => by rw [Function.update_apply, if_neg (by omega)]
      obtain ⟨d, hd, hbody, hcase⟩ := clear_mid_spec page 128 (Function.update m (page + k) 0x00)
        (k + 1) (by omega) (by omega) (by rw [hsame 124 hk]; exact hguard)
      have hmid : ∀ j, j < d → m (page + (k + 1 + j)) = 0x81 := fun j hj => by
        rw [← hsame _ (by omega)]
        exact hbody j hj
      rw [hsame (k + 1 + d) (by omega)] at hcase
      -- a run that starts here has `d` middle blocks, because the scan stopped after `d`
      have hlength : ∀ b, blockMarks.Block (m.view page) k b → k + b ≤ 124 →
          m (page + (k + 1 + d)) = 0x01 ∧ b = d + 2 ∨
          m (page + (k + 1 + d)) = 0x81 := by
        intro b hb hbound
        have hone : b ≠ 1 := fun he => hsingle (hb.single_iff.mpr he)
        have hpos := hb.pos
        rcases Nat.lt_trichotomy (d + 2) b with hlt | heq | hgt
        · refine Or.inr ?_
          have hentry := hb.marks (1 + d) (by omega)
          simp only [ByteMem.view_apply, Marks.mark, hone, if_false] at hentry
          rw [if_neg (by omega), if_neg (by omega)] at hentry
          rw [Nat.add_assoc k 1 d]
          exact hentry
        · refine Or.inl ⟨?_, heq.symm⟩
          have hentry := (hb.last_iff hone (j := 1 + d) (by omega)).mpr (by omega)
          rw [Nat.add_assoc k 1 d]
          exact hentry
        · have hentry : m (page + (k + (b - 1))) = 0x01 :=
            (hb.last_iff hone (j := b - 1) (by omega)).mpr (by omega)
          have hother := hmid (b - 2) (by omega)
          rw [show k + 1 + (b - 2) = k + (b - 1) by omega, hentry] at hother
          exact absurd hother (by decide)
      rcases hcase with ⟨hend, hlt, heq⟩ | ⟨hend, hnmid, heq⟩
      · rw [heq] at hentry
        simp only at hentry
        refine Or.inr ⟨d + 2, by omega, ⟨by omega, Or.inr hfirst, fun j h0 hj => ?_⟩, ?_, ?_⟩
        · by_cases hlast : j = d + 1
          · subst hlast
            rw [show k + (d + 1) = k + 1 + d by omega]
            exact Or.inr hend
          · have := hmid (j - 1) (by omega)
            rw [show k + 1 + (j - 1) = k + j by omega] at this
            exact Or.inl this
        · rw [hentry, ← clear_run_eq, show page + (k + 1 + d) = page + k + 1 + d by omega,
            Nat.add_assoc page k 1]
        · intro b hb hbound
          rw [hentry]
          rcases hlength b hb hbound with ⟨_, hbd⟩ | hmark
          · exact ⟨hbd.symm, rfl⟩
          · rw [hend] at hmark
            exact absurd hmark (by decide)
      · rw [heq] at hentry
        simp only at hentry
        refine Or.inr ⟨d + 1, by omega, ⟨by omega, Or.inr hfirst, fun j h0 hj => ?_⟩, ?_, ?_⟩
        · have := hmid (j - 1) (by omega)
          rw [show k + 1 + (j - 1) = k + j by omega] at this
          exact Or.inl this
        · rw [hentry, ← clear_partial_eq, Nat.add_assoc page k 1]
        · intro b hb hbound
          rcases hlength b hb hbound with ⟨hmark, _⟩ | hmark
          · exact absurd hmark hend
          · exact absurd hmark hnmid
    · refine Or.inl ⟨?_, fun b hb => ?_⟩
      · simp only [heap32FreeEntry, if_neg hsingle, ne_eq, hfirst, not_false_eq_true,
          if_true, ite_self]
      · rcases hb.head with hs | hf
        · exact hsingle hs
        · exact hfirst hf

/-- For an address inside the page, `heap32_free` rejects what is not the start of a block and
otherwise frees at the block's entry. -/
theorem heap32_free_eq (m : ByteMem) {page addr : Nat} (hl : page ≤ addr)
    (hh : addr < page + 4096) (hpage : page + 4096 ≤ 4294967296) :
    heap32Free m page addr = (false, m) ∧ (∀ k, addr ≠ page + (128 + k * 32)) ∨
    ∃ k, k < 124 ∧ addr = page + (128 + k * 32) ∧
      heap32Free m page addr = heap32FreeEntry m page (page + k) := by
  have hdiff : toInt32 (sub32 addr page) = (addr - page : Nat) := by
    rw [sub32_of_le hl (by omega), to_int32_of_lt (by omega)]
  by_cases htable : addr - page < 128
  · refine Or.inl ⟨?_, fun k => by omega⟩
    rw [heap32Free, hdiff, if_pos (by omega)]
  · have hindex : ((addr - page : Nat) - 128 : Int).toNat = addr - page - 128 := by omega
    rw [heap32Free, hdiff, if_neg (by omega), hindex, heap32FreeIndex]
    by_cases halign : (addr - page - 128) % 32 = 0
    · rw [if_neg (not_not.mpr halign)]
      exact Or.inr ⟨(addr - page - 128) / 32, by omega, by omega, rfl⟩
    · rw [if_pos halign]
      exact Or.inl ⟨rfl, fun k => by omega⟩

end Genesis32
