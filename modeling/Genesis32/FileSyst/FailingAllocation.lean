import Genesis32.FileSyst.FatEntries

/-!
# Allocating on a device whose commands may fail

`get_free_cluster` behind an end mark, on a device of which nothing is assumed but its size. If the
buffer of the search holds no zero before the first sector of the FAT is read, or the read of that
sector succeeds, the cluster is the first free one of the sectors that are read, and `0xffff` if
there is none. The write that should take the entry may fail: it is an end mark in either case. So
a write adds no cluster to a chain, whatever fails.
-/

namespace Genesis32

open Word

/-- A mounted volume of 512-byte sectors on a disk of `sectCount` sectors. -/
structure Fat16Mount.MountedOn (m : Fat16Mount) (sectCount hi : Nat) : Prop
    extends m.Placed sectCount hi where
  accepted : m.bpb.Accepted m.startSect
  sectors : m.bpb.sectorsPerFat ≤ 256

variable {env : BlockEnv} {m : Fat16Mount} {f : Fat16File} {s : BlockState} {hi c : Nat}
  {disk disk' : ByteMem}

theorem Fat16Mount.MountedOn.mounted {sectCount : Nat} (hm : m.MountedOn sectCount hi) :
    m.Mounted (BlockEnv.working sectCount) hi where
  toVolume := hm.volume
  accepted := hm.accepted
  sectors := hm.sectors

/-- Every entry of the first FAT is what it was, or was zero and is an end mark. -/
def EntriesMarked (m : Fat16Mount) (disk disk' : ByteMem) : Prop :=
  ∀ c < 256 * m.bpb.sectorsPerFat, fatEntry disk' m.fatSect c = fatEntry disk m.fatSect c ∨
    fatEntry disk m.fatSect c = 0 ∧ fatEntry disk' m.fatSect c = 0xffff

theorem EntriesMarked.refl (m : Fat16Mount) (disk : ByteMem) : EntriesMarked m disk disk :=
  fun _ _ => Or.inl rfl

theorem EntriesMarked.trans {disk'' : ByteMem} (h : EntriesMarked m disk disk')
    (h' : EntriesMarked m disk' disk'') : EntriesMarked m disk disk'' := by
  intro c hc
  rcases h c hc with heq | ⟨hzero, hmark⟩
  · rw [← heq]
    exact h' c hc
  · rcases h' c hc with heq | ⟨hzero', _⟩
    · exact Or.inr ⟨hzero, heq.trans hmark⟩
    · rw [hmark] at hzero'
      exact absurd hzero' (by decide)

theorem entries_marked_of_bytes (h : ∀ x < 512 * m.bpb.sectorsPerFat,
    disk' (512 * m.fatSect + x) = disk (512 * m.fatSect + x)) : EntriesMarked m disk disk' :=
  fun _ hc => Or.inl (fat_entry_congr hc h)

/-- No chain gets longer: zero ends a chain as an end mark does. -/
theorem EntriesMarked.cluster_eq (h : EntriesMarked m disk disk') (hok : m.ChainOk hi disk f)
    (k : Nat) : m.cluster disk' f k = m.cluster disk f k := by
  refine Chain.nth_congr (fun j _ c hc => ?_) k le_rfl
  unfold Fat16Mount.nextCluster
  rcases h c (hok j c hc).inFat with heq | ⟨hzero, hmark⟩
  · rw [heq]
  · rw [hzero, hmark, if_pos (by decide), if_pos (by decide)]

theorem EntriesMarked.reserved (h : EntriesMarked m disk disk') (hspf : 1 ≤ m.bpb.sectorsPerFat)
    (hreserved : ReservedTaken m disk) : ReservedTaken m disk' where
  zero := by
    rcases h 0 (by omega) with heq | ⟨hzero, _⟩
    · exact heq ▸ hreserved.zero
    · exact absurd hzero hreserved.zero
  one := by
    rcases h 1 (by omega) with heq | ⟨hzero, _⟩
    · exact heq ▸ hreserved.one
    · exact absurd hzero hreserved.one

/-! ## Behind an end mark -/

/-- The free entry `c` of the first FAT has been taken, or the write to it has failed, and nothing
else has changed but bytes of the other FATs. -/
structure TakenFirst (m : Fat16Mount) (c : Nat) (disk disk' : ByteMem) : Prop where
  inFat : c < 256 * m.bpb.sectorsPerFat
  free : fatEntry disk m.fatSect c = 0
  set : fatEntry disk' m.fatSect c = 0 ∨ fatEntry disk' m.fatSect c = 0xffff
  rest : ∀ x, x < 512 * (m.fatSect + m.bpb.sectorsPerFat) ∨
      512 * (m.fatSect + m.bpb.fatCount * m.bpb.sectorsPerFat) ≤ x →
    x < fatEntryAddr m.fatSect c ∨ fatEntryAddr m.fatSect c + 2 ≤ x → disk' x = disk x

theorem TakenFirst.marked (h : TakenFirst m c disk disk') : EntriesMarked m disk disk' := by
  intro k hk
  by_cases hkc : k = c
  · rw [hkc]
    rcases h.set with hzero | hmark
    · exact Or.inl (hzero.trans h.free.symm)
    · exact Or.inr ⟨h.free, hmark⟩
  · have hrest := h.rest
    unfold fatEntryAddr at hrest
    exact Or.inl (ByteMem.word16_congr
      (hrest _ (Or.inl (by unfold fatEntryAddr; omega)) (by unfold fatEntryAddr; omega))
      (hrest _ (Or.inl (by unfold fatEntryAddr; omega)) (by unfold fatEntryAddr; omega)))

theorem FoundIn.unique {b : Fat16Bpb} {startFat first i i' : Nat}
    (h : FoundIn env b startFat disk first i) (h' : FoundIn env b startFat disk first i') :
    i = i' := by
  obtain ⟨j, hj, hfree⟩ := h.free
  obtain ⟨j', hj', hfree'⟩ := h'.free
  rcases lt_trichotomy i i' with hlt | heq | hlt
  · exact absurd hfree (h'.before i hlt h.read j hj)
  · exact heq
  · exact absurd hfree' (h.before i' hlt h'.read j' hj')

/-- The search of `get_free_cluster` starts with a buffer in which it finds nothing on its own. -/
theorem scan_fat_start (hm : m.MountedOn env.sectCount hi) {buf : ByteMem}
    (hstart : NoZero buf ∨ env.Moves s.commands) :
    (∃ (i j : Nat) (buf' : ByteMem), FoundIn env m.bpb m.fatSect s.disk s.commands i ∧ j < 256 ∧
      fatEntry s.disk m.fatSect (256 * i + j) = 0 ∧
      scanFat env m.bpb m.fatSect m.bpb.sectorsPerFat 0 buf { s with mallocs := s.mallocs + 1 } =
        (some (i, j), (buf'.copy 0 s.disk (512 * (m.fatSect + i)) 512).setWord16 (2 * j) 0xffff,
          { s with mallocs := s.mallocs + 1, commands := s.commands + i + 1 })) ∨
    (∀ i, ¬ FoundIn env m.bpb m.fatSect s.disk s.commands i) ∧ ∃ buf' : ByteMem,
      scanFat env m.bpb m.fatSect m.bpb.sectorsPerFat 0 buf { s with mallocs := s.mallocs + 1 } =
        (none, buf', { s with
          mallocs := s.mallocs + 1, commands := s.commands + m.bpb.sectorsPerFat }) := by
  have hle := fat_sect_le_data_sect hm.fats
  have hdata := hm.dataStart
  have hdisk := hm.onDisk
  exact scan_fat_found hm.size hm.bytes (by omega) s.commands m.bpb.sectorsPerFat 0 buf
    { s with mallocs := s.mallocs + 1 } (Nat.zero_add _) rfl
    (fun i hi => absurd hi (Nat.not_lt_zero i)) hstart

/-- A sector of the FAT with one entry taken, written back or not. -/
theorem take_entry_written {fat i j : Nat} {buf : ByteMem} (hj : j < 256) :
    s.disk.copy (512 * (fat + i))
        ((buf.copy 0 s.disk (512 * (fat + i)) 512).setWord16 (2 * j) 0xffff) 0 512 =
      s.disk.setWord16 (fatEntryAddr fat (256 * i + j)) 0xffff := by
  have hset := ByteMem.setWord16_copy buf s.disk 0xffff
    (show 2 * j + 2 ≤ 512 by omega) (a := 0) (b := 512 * (fat + i))
  rw [Nat.zero_add, show 512 * (fat + i) + 2 * j = fatEntryAddr fat (256 * i + j) by
    unfold fatEntryAddr; omega] at hset
  rw [hset]
  exact ByteMem.copy_back buf fun y hy =>
    ByteMem.setWord16_outside (by unfold fatEntryAddr; omega)

theorem link_behind_mark {b : Fat16Bpb} {startFat cur i j : Nat} (hcur : EndMark cur)
    (buf : ByteMem) (s : BlockState) :
    linkCluster env b startFat cur i j buf s =
      (⟨(i * b.entriesPerSect + j) % 65536, i, j, 0xffff⟩, buf,
        s.writeBlock env (add32 startFat i) 1 buf 0) := by
  unfold linkCluster
  simp only
  rw [if_pos hcur]

/-- The allocation takes the first free entry of the sectors that it reads. -/
theorem get_free_cluster_found (hm : m.MountedOn env.sectCount hi) {cur : Nat}
    (hcur : EndMark cur) {buf : ByteMem} (hscratch : env.scratch s.mallocs = some buf)
    (hstart : NoZero buf ∨ env.Moves s.commands) {i : Nat}
    (hfound : FoundIn env m.bpb m.fatSect s.disk s.commands i) :
    ∃ c s', getFreeCluster env m.bpb m.fatSect cur s = some (c, s') ∧
      TakenFirst m c s.disk s'.disk ∧ s'.commands = s.commands + i + 2 * m.bpb.fatCount ∧
      s'.mallocs = s.mallocs + 1 := by
  have hle := fat_sect_le_data_sect hm.fats
  have hdata := hm.dataStart
  have hdisk := hm.onDisk
  have hsize := hm.size
  have hspf := hm.sectors
  have hfats := hm.fats
  have hsector := hfound.sector
  rcases scan_fat_start hm hstart with ⟨i', j, buf', hfound', hj, hfree, hscan⟩ | ⟨hnone, _⟩
  swap
  · exact absurd hfound (hnone i)
  obtain rfl := hfound.unique hfound'
  have htake := @take_entry_written s m.fatSect i j buf' hj
  generalize (buf'.copy 0 s.disk (512 * (m.fatSect + i)) 512).setWord16 (2 * j) 0xffff = buf₁
    at hscan htake
  obtain ⟨hwrite, hcommands, hmallocs⟩ := write_block_one hm.size
    (show m.fatSect + i < env.sectCount by omega) buf₁ 0
    { s with mallocs := s.mallocs + 1, commands := s.commands + i + 1 }
  simp only [htake] at hwrite
  have hlink := @link_behind_mark env m.bpb m.fatSect cur i j hcur buf₁
    { s with mallocs := s.mallocs + 1, commands := s.commands + i + 1 }
  rw [show (i * m.bpb.entriesPerSect + j) % 65536 = 256 * i + j by
    rw [Fat16Bpb.entriesPerSect, hm.bytes]; omega, add32_of_lt (by omega)] at hlink
  generalize BlockState.writeBlock env (m.fatSect + i) 1 buf₁ 0
    { s with mallocs := s.mallocs + 1, commands := s.commands + i + 1 } = s₁ at *
  obtain ⟨hcount, hmalloc, hrest⟩ := mirror_fats_moves hm.toPlaced hspf cur
    (n := ⟨256 * i + j, i, j, 0xffff⟩) hsector rfl (m.bpb.fatCount - 1) 1 buf₁ s₁ le_rfl (by omega)
  refine ⟨256 * i + j, mirrorFats env m.bpb m.fatSect cur ⟨256 * i + j, i, j, 0xffff⟩
    (m.bpb.fatCount - 1) 1 buf₁ s₁, ?_, ?_, ?_, ?_⟩
  · unfold getFreeCluster BlockState.heapCreamMalloc
    rw [hscratch, Option.map_some, Option.map_some]
    simp only [hscan, hlink]
  · have haddr : fatEntryAddr m.fatSect (256 * i + j) + 2 ≤
        512 * (m.fatSect + m.bpb.sectorsPerFat) := by
      unfold fatEntryAddr
      omega
    have hentry : fatEntry (mirrorFats env m.bpb m.fatSect cur ⟨256 * i + j, i, j, 0xffff⟩
        (m.bpb.fatCount - 1) 1 buf₁ s₁).disk m.fatSect (256 * i + j) =
          fatEntry s₁.disk m.fatSect (256 * i + j) :=
      ByteMem.word16_congr (hrest _ (Or.inl (by omega))) (hrest _ (Or.inl (by omega)))
    refine ⟨by omega, hfree, ?_, fun x hx hx' => ?_⟩
    · rw [hentry, hwrite]
      split_ifs
      · exact Or.inr (ByteMem.word16_setWord16_same _ _ _)
      · exact Or.inl hfree
    · rw [hrest x hx, hwrite]
      split_ifs
      · exact ByteMem.setWord16_outside hx'
      · rfl
  · rw [hcount, hcommands]
    simp only
    omega
  · rw [hmalloc, hmallocs]

/-- Without a free entry in the sectors that it reads it returns `0xffff`, and keeps the first FAT
where the locals that it does not set are harmless. -/
theorem get_free_cluster_missing (hm : m.MountedOn env.sectCount hi) (cur : Nat) {buf : ByteMem}
    (hscratch : env.scratch s.mallocs = some buf) (hstart : NoZero buf ∨ env.Moves s.commands)
    (hnone : ∀ i, ¬ FoundIn env m.bpb m.fatSect s.disk s.commands i) :
    ∃ s', getFreeCluster env m.bpb m.fatSect cur s = some (0xffff, s') ∧
      (env.Harmless → EntriesMarked m s.disk s'.disk) := by
  rcases scan_fat_start hm hstart with ⟨i, _, _, hfound, _⟩ | ⟨_, buf', hscan⟩
  · exact absurd hfound (hnone i)
  have hfats := hm.fats
  refine ⟨mirrorFats env m.bpb m.fatSect cur ⟨0xffff, env.newClusterSector s.mallocs, 0xffffffff,
    env.curClusterSectNo s.mallocs⟩ (m.bpb.fatCount - 1) 1 buf' { s with
      mallocs := s.mallocs + 1, commands := s.commands + m.bpb.sectorsPerFat }, ?_,
    fun hharmless => ?_⟩
  · unfold getFreeCluster BlockState.heapCreamMalloc
    rw [hscratch, Option.map_some, Option.map_some]
    simp only [hscan]
  · obtain ⟨_, _, hrest⟩ := mirror_fats_moves hm.toPlaced hm.sectors cur
      (n := ⟨0xffff, env.newClusterSector s.mallocs, 0xffffffff, env.curClusterSectNo s.mallocs⟩)
      (by rw [hharmless.newSector]; exact hm.accepted.sectors.1) (hharmless.curSector _)
      (m.bpb.fatCount - 1) 1 buf' { s with
        mallocs := s.mallocs + 1, commands := s.commands + m.bpb.sectorsPerFat } le_rfl (by omega)
    exact entries_marked_of_bytes fun x hx => hrest _ (Or.inl (by omega))

/-! ## Writes add nothing to a chain -/

/-- Scratch memory in which a search finds nothing. -/
structure BlockEnv.Filled (env : BlockEnv) : Prop extends env.Harmless where
  scratch : ∀ n, env.scratch n = some fun _ => 0xff

theorem no_zero_filled : NoZero fun _ => 0xff := fun _ _ =>
  show ByteMem.word16 (fun _ => 0xff) 0 ≠ 0 by decide

/-- Then an allocation marks entries only, whatever fails. -/
theorem get_free_cluster_filled (hm : m.MountedOn env.sectCount hi) (hfilled : env.Filled)
    (hreserved : ReservedTaken m s.disk) {cur : Nat} (hcur : EndMark cur) :
    ∃ d s', getFreeCluster env m.bpb m.fatSect cur s = some (d, s') ∧ (2 ≤ d ∧ d < 65536) ∧
      EntriesMarked m s.disk s'.disk := by
  by_cases hfound : ∃ i, FoundIn env m.bpb m.fatSect s.disk s.commands i
  · obtain ⟨i, hfound⟩ := hfound
    obtain ⟨d, s', hrun, htaken, _⟩ :=
      get_free_cluster_found hm hcur (hfilled.scratch _) (Or.inl no_zero_filled) hfound
    have hspf := hm.sectors
    have hfat := htaken.inFat
    have hzero := htaken.free
    have h0 : d ≠ 0 := fun heq => hreserved.zero (heq ▸ hzero)
    have h1 : d ≠ 1 := fun heq => hreserved.one (heq ▸ hzero)
    exact ⟨d, s', hrun, by omega, htaken.marked⟩
  · obtain ⟨s', hrun, hmarked⟩ := get_free_cluster_missing hm cur (hfilled.scratch _)
      (Or.inl no_zero_filled) fun i hi => hfound ⟨i, hi⟩
    exact ⟨0xffff, s', hrun, by decide, hmarked hfilled.toHarmless⟩

/-- A write is at a cluster with a number, and has marked entries only. -/
theorem entries_marked_inv (hm : m.MountedOn env.sectCount hi) (hfilled : env.Filled)
    (hreserved : ReservedTaken m disk) {r : Nat} :
    WriteInv env m r fun _ c s => (2 ≤ c ∧ c < 65536) ∧ EntriesMarked m disk s.disk where
  granted := fun n => Option.isSome_of_eq_some (hfilled.scratch n)
  idle := fun _ _ h => h
  hop := by
    rintro h c v buf buf' s s' ⟨_, hmarked⟩ hhop hend
    obtain ⟨hdisk, hv16⟩ := hop_cluster_disk hhop
    unfold EndMark at hend
    exact ⟨⟨by omega, hv16⟩, hdisk ▸ hmarked⟩
  extend := by
    rintro h c v buf buf' s s' ⟨_, hmarked⟩ hhop hend
    obtain ⟨hdisk, _⟩ := hop_cluster_disk hhop
    rw [← hdisk] at hmarked
    obtain ⟨d, t, hrun, hd, ht⟩ := get_free_cluster_filled hm hfilled
      (hmarked.reserved hm.accepted.sectors.1 hreserved) hend
    exact ⟨d, t, hm.mounted.fatSect_eq ▸ hrun, hd, hmarked.trans ht⟩
  round := by
    rintro h c temp temp' s s' buf _ ⟨hc, hmarked⟩ hread
    have hdisk := @read_cluster_disk env m (m.clusterSector c) m.bpb.sectPerClust 0 temp s
    rw [hread] at hdisk
    rw [← hdisk] at hmarked
    refine ⟨hc, hmarked.trans (entries_marked_of_bytes fun x hx => ?_)⟩
    refine write_cluster_outside hm.bytes buf _ _ s' fun j _ hj => ?_
    have hsect := cluster_sector_not_fat hm.mounted hc.1 hc.2 (show j < m.bpb.sectPerClust by omega)
    have hstart : m.startSect ≤ m.fatSect := Nat.le_add_right _ _
    omega

end Genesis32
