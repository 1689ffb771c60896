import Genesis32.FileSyst.MountLists

/-!
# Searching the cache table

`search_cache_table` and `is_present_in_cache_table` of `file_syst/fat16.c`: the second keeps the
last entry with a hash, the first returns at an entry with it. The loop of the first never moves on
from the start of the table, so it ends only where the table is empty or its first entry has the
hash: `cache_searches_agree_iff`.
-/

namespace Genesis32

namespace VfsState

/-- The loop of `search_cache_table` at `temp`, with `k` rounds before it is known not to end. -/
def searchLoop (s : VfsState) (hashVal : UInt64) : Nat → Ptr → Option Ptr
  | 0, _ => none
  | k + 1, temp =>
      if temp = 0 then some 0
      else do
        let e ← s.deref cacheKind.toObjectKind temp
        -- `temp` is not moved to the next entry
        if e.pathHash = hashVal then some temp else searchLoop s hashVal k temp

/-- `search_cache_table`. -/
def searchCacheTable (s : VfsState) (hashVal : UInt64) (k : Nat) : Option Ptr :=
  s.searchLoop hashVal k s.cacheTableStart

/-- `is_present_in_cache_table`. Mode 2 takes the hash of the path. -/
def isPresentInCacheTable (H : PathHash) (mode : Int) (hash : UInt64) (path : List UInt8)
    (s : VfsState) : Option Ptr :=
  if mode = 2 then s.lastWithHash (H.generateHash path) s.rounds s.cacheTableStart 0
  else if mode = 1 then s.lastWithHash hash s.rounds s.cacheTableStart 0
  else some 0

end VfsState

variable {s : VfsState} {cs : List Ptr}

/-- No two entries of the list have one hash. -/
def HashesDistinct (s : VfsState) (cs : List Ptr) : Prop :=
  ∀ hash, ∀ c ∈ cs, ∀ c' ∈ cs, HasHash s hash c → HasHash s hash c' → c = c'

/-- `search_cache_table` ends, it finds an entry with the hash exactly where there is one, and it
finds what `is_present_in_cache_table` finds where no two entries have one hash. -/
def SearchAgrees (H : PathHash) (s : VfsState) (cs : List Ptr) (hashVal : UInt64)
    (path : List UInt8) : Prop :=
  ∃ ct, (∃ k, s.searchCacheTable hashVal k = some ct) ∧
    (ct ∈ cs ∧ HasHash s hashVal ct ∨ ct = 0 ∧ ∀ c ∈ cs, ¬ HasHash s hashVal c) ∧
    (HashesDistinct s cs → s.isPresentInCacheTable H 1 hashVal path = some ct)

/-- At an entry with another hash the loop goes on for ever. -/
theorem search_loop_stays {hashVal : UInt64} {temp : Ptr} {e : CacheTableEntry}
    (he : s.object temp = some (.cacheEntry e)) (hhash : e.pathHash ≠ hashVal) :
    ∀ k, s.searchLoop hashVal k temp = none := by
  intro k
  induction k with
  | zero => rfl
  | succ k ih =>
      rw [VfsState.searchLoop, if_neg (VfsState.ne_zero_of_object he), VfsState.deref_iff.mpr he]
      exact (if_neg hhash).trans ih

theorem search_loop_found {hashVal : UInt64} {temp : Ptr} {e : CacheTableEntry}
    (he : s.object temp = some (.cacheEntry e)) (hhash : e.pathHash = hashVal) :
    s.searchLoop hashVal 1 temp = some temp := by
  rw [VfsState.searchLoop, if_neg (VfsState.ne_zero_of_object he), VfsState.deref_iff.mpr he]
  exact if_pos hhash

/-- For every cache list and every hash, the two searches agree exactly when the list is empty or
its first entry has the hash: elsewhere `search_cache_table` does not come back. -/
theorem cache_searches_agree_iff (h : DoublyLinked 0 (s.links cacheKind) cs)
    (hstart : s.cacheTableStart = cs.headD 0) (H : PathHash) (hashVal : UInt64)
    (path : List UInt8) :
    SearchAgrees H s cs hashVal path ↔ cs = [] ∨ HasHash s hashVal (cs.headD 0) := by
  cases cs with
  | nil =>
      refine iff_of_true ⟨0, ⟨1, ?_⟩, ?_, fun _ => ?_⟩ (Or.inl rfl)
      · rw [VfsState.searchCacheTable, hstart]
        rfl
      · exact Or.inr ⟨rfl, fun c hc => absurd hc List.not_mem_nil⟩
      · obtain ⟨ct, hct, hor⟩ :=
          last_with_hash_suffix h hashVal [] [] s.rounds 0 rfl (length_lt_rounds h)
        rcases hor with ⟨rfl, _⟩ | hlast
        · rw [← hstart] at hct
          exact hct
        · exact absurd hlast.mem List.not_mem_nil
  | cons p cs =>
      obtain ⟨e, he⟩ := exists_object h (p := p) List.mem_cons_self
      rw [List.headD_cons] at hstart
      simp only [List.headD_cons, reduceCtorEq, false_or]
      rw [has_hash_iff he]
      constructor
      · intro hall
        obtain ⟨ct, ⟨k, hk⟩, _⟩ := hall
        by_contra hhash
        rw [VfsState.searchCacheTable, hstart, search_loop_stays he hhash] at hk
        cases hk
      · intro hhash
        have hp : HasHash s hashVal p := (has_hash_iff he).mpr hhash
        refine ⟨p, ⟨1, ?_⟩, Or.inl ⟨List.mem_cons_self, hp⟩, fun hdistinct => ?_⟩
        · rw [VfsState.searchCacheTable, hstart]
          exact search_loop_found he hhash
        · -- the last entry with the hash is the only one
          obtain ⟨ct, hct, hor⟩ :=
            last_with_hash_suffix h hashVal (p :: cs) [] s.rounds 0 rfl (length_lt_rounds h)
          rcases hor with ⟨_, hnone⟩ | hlast
          · exact absurd hp (hnone p List.mem_cons_self)
          · obtain ⟨us, vs, _, hhash', _⟩ := id hlast
            have heq : ct = p :=
              hdistinct hashVal ct hlast.mem p List.mem_cons_self hhash' hp
            rw [List.headD_cons, heq, ← hstart] at hct
            rw [← hstart]
            exact hct

/-- A cache table of one entry, with the hash 7. -/
def oneEntry : VfsState where
  heap := AList.singleton 16 (.cacheEntry ⟨7, .file, 32, 1, 0, 0, 0⟩)
  given := [16]
  freed := []
  mountTableStart := 0
  mountTableLast := 0
  cacheTableStart := 16
  cacheTableLast := 16
  cacheTableCount := 1
  vfsInodeIdCount := 0

theorem one_entry_object :
    oneEntry.object 16 = some (.cacheEntry ⟨7, .file, 32, 1, 0, 0, 0⟩) := rfl

/-- A cache table of two entries, with the hashes 7 and 9. -/
def twoEntries : VfsState :=
  { oneEntry with
    heap := (AList.singleton 16 (.cacheEntry ⟨7, .file, 32, 1, 0, 64, 0⟩)).insert 64
      (.cacheEntry ⟨9, .dir, 80, 1, 0, 0, 16⟩)
    given := [16, 64]
    cacheTableLast := 64
    cacheTableCount := 2 }

theorem two_entries_object :
    twoEntries.object 16 = some (.cacheEntry ⟨7, .file, 32, 1, 0, 64, 0⟩) := rfl

theorem two_entries_list : DoublyLinked 0 (twoEntries.links cacheKind) [16, 64] where
  linked := by
    intro xs b ys heq
    rcases xs with _ | ⟨x, _ | ⟨y, xs⟩⟩
    · obtain ⟨rfl, rfl⟩ := List.cons.inj heq
      rfl
    · obtain ⟨rfl, htail⟩ := List.cons.inj heq
      obtain ⟨rfl, rfl⟩ := List.cons.inj htail
      rfl
    · have hlength := congrArg List.length heq
      simp at hlength
  nodup := by decide
  ne_null := by decide

/-- The hash of the first of the two entries. -/
theorem cache_searches_agree_iff_first_entry :
    SearchAgrees ⟨fun _ => 0, fun _ _ _ => 0⟩ twoEntries [16, 64] 7 [] :=
  (cache_searches_agree_iff two_entries_list rfl _ 7 []).mpr (Or.inr ⟨_, two_entries_object, rfl⟩)

/-- A search for a hash that no entry has does not come back. -/
theorem search_of_absent_hash_loops :
    ¬ SearchAgrees ⟨fun _ => 0, fun _ _ _ => 0⟩ oneEntry [16] 8 [] := by
  intro h
  obtain ⟨ct, ⟨k, hk⟩, _⟩ := h
  have hnone : oneEntry.searchCacheTable 8 k = none :=
    search_loop_stays one_entry_object (by decide) k
  rw [hnone] at hk
  cases hk

end Genesis32
