import Genesis32.FileSyst.FailingDevice
import Genesis32.FileSyst.SectorSize

/-!
# Nearly full and full volumes

What `get_free_cluster` returns when few clusters are left, and what it and `write_fat16` do when
none is. The search of the FAT starts at entry 0 and takes the first zero, so the cluster is one of
the volume if the two reserved entries are not zero. On a full FAT the search returns `0xffff`, if
it looks at the bytes of the FAT and not at what `heap_cream_malloc` left in the buffer; the loop
over the other FATs then runs all the same, and `write_fat16` takes the value for a cluster.
-/

namespace Genesis32

open Word

variable {env : BlockEnv} {b : Fat16Bpb} {m : Fat16Mount} {f : Fat16File} {s : BlockState}
  {startFat c cur hi : Nat}

/-! ## The last free clusters -/

/-- The value of `get_free_cluster` is the first zero entry, for every current cluster. -/
theorem get_free_cluster_first (hworks : env.Works) (hbytes : b.bytesPerSect = 512)
    (hc : c < 65536) (hfat : c / 256 < b.sectorsPerFat)
    (hdisk : startFat + c / 256 < env.sectCount) (hzero : FirstZero s.disk startFat c) (cur : Nat) :
    ∃ s', getFreeCluster env b startFat cur s = some (c, s') := by
  have hentries : b.entriesPerSect = 256 := by rw [Fat16Bpb.entriesPerSect, hbytes]
  have hnumber : (c / 256 * 256 + c % 256) % 65536 = c := by omega
  obtain ⟨buf, hmalloc⟩ := malloc_ok hworks s
  obtain ⟨buf', commands, hscan⟩ := scan_fat_some hworks hbytes hdisk b.sectorsPerFat 0 buf
    { s with mallocs := s.mallocs + 1 } hzero (Nat.zero_le _) (by omega)
  have hlink : ∀ sect t,
      (linkCluster env b startFat cur (c / 256) (c % 256) sect t).1.newClusterNumber
      = c := by
    intro sect t
    unfold linkCluster
    simp only [hentries, hnumber]
    split_ifs <;> rfl
  unfold getFreeCluster
  rw [hmalloc, Option.map_some]
  simp only [hscan, hlink]
  exact ⟨_, rfl⟩

/-- A free data cluster of the partition `[start_sect, start_sect+sect_num)`. -/
structure FreeInPartition (m : Fat16Mount) (sectNum : Nat) (disk : ByteMem) (c : Nat) : Prop where
  two : 2 ≤ c
  notMark : c < 0xfff7
  inFat : c < 256 * m.bpb.sectorsPerFat
  free : fatEntry disk m.fatSect c = 0
  inside : m.clusterSect c + m.bpb.sectPerClust ≤ m.startSect + sectNum

/-- The clusters of a volume lie one behind the other. -/
theorem cluster_sect_mono {d : Nat} (h : c ≤ d) : m.clusterSect c ≤ m.clusterSect d := by
  unfold Fat16Mount.clusterSect
  have hmul := Nat.mul_le_mul_right m.bpb.sectPerClust (Nat.sub_le_sub_right h 2)
  omega

theorem start_sect_le_cluster_sect (c : Nat) : m.startSect ≤ m.clusterSect c := by
  unfold Fat16Mount.clusterSect Fat16Mount.dataSect Fat16Mount.fatSect
  simp only [Nat.add_assoc]
  exact Nat.le_add_right _ _

/-- A volume of the partition with a free data cluster gives one out, if the reserved entries of its
FAT are not zero. -/
theorem free_cluster_usable (hworks : env.Works) (hb : m.bpb.Accepted m.startSect)
    (hbytes : m.bpb.bytesPerSect = 512) {sectNum : Nat}
    (hpart : m.startSect + sectNum ≤ env.sectCount) {d : Nat}
    (hd : FreeInPartition m sectNum s.disk d) (h0 : fatEntry s.disk m.fatSect 0 ≠ 0)
    (h1 : fatEntry s.disk m.fatSect 1 ≠ 0) (cur : Nat) :
    ∃ c s', getFreeCluster env m.bpb m.fatSect cur s = some (c, s') ∧ 2 ≤ c ∧ c < 0xfff7 ∧
      fatEntry s.disk m.fatSect c = 0 ∧ m.startSect ≤ m.clusterSect c ∧
      m.clusterSect c + m.bpb.sectPerClust ≤ m.startSect + sectNum := by
  obtain ⟨c, hlt, hzero⟩ := exists_first_zero ⟨d, hd.inFat, hd.free⟩
  have hcd : c ≤ d := by
    by_contra hnot
    exact hzero.first d (by omega) hd.free
  have hc2 : 2 ≤ c := by
    by_contra hnot
    have hcases : c = 0 ∨ c = 1 := by omega
    rcases hcases with rfl | rfl
    · exact h0 hzero.zero
    · exact h1 hzero.zero
  have hmark := hd.notMark
  have hmono := @cluster_sect_mono m c d hcd
  have hinside := hd.inside
  have hdata := fat_sect_le_data_sect hb.fats.1
  have hfirst : m.dataSect ≤ m.clusterSect c := Nat.le_add_right _ _
  obtain ⟨s', hrun⟩ := get_free_cluster_first hworks hbytes (by omega) (by omega) (by omega) hzero
    cur
  exact ⟨c, s', hrun, hc2, by omega, hzero.zero, start_sect_le_cluster_sect c, by omega⟩

/-- The small disk with empty FATs, and one whose FATs have the single zero entry 3. -/
def zeroDisk : BlockState := { smallDisk with disk := fun _ => 0x00 }

def nearlyFullDisk : BlockState :=
  { smallDisk with disk := fun x => if 512 ≤ x ∧ x < 1536 ∧ x % 512 / 2 ≠ 3 then 0xff else 0x00 }

/-- A device that moves nothing, and scratch memory with a zero at entry 5. -/
def deadEnv : BlockEnv :=
  { smallEnv with
    moved := fun _ _ => 0
    scratch := fun _ => some fun x => if x / 2 = 5 then 0x00 else 0xff }

theorem small_accepted : smallMount.bpb.Accepted smallMount.startSect :=
  ⟨by decide, by decide, by decide, by decide, by decide, by decide, rfl, rfl, rfl⟩

/-- With a free data cluster in the partition a reserved entry is returned where it is zero, and a
taken cluster where the FAT cannot be read. -/
theorem reserved_or_taken_returned :
    (FreeInPartition smallMount 10 zeroDisk.disk 2 ∧
      (getFreeCluster smallEnv smallMount.bpb smallMount.fatSect 0xffff zeroDisk).map Prod.fst =
        some 0) ∧
    FreeInPartition smallMount 10 nearlyFullDisk.disk 3 ∧
      (getFreeCluster deadEnv smallMount.bpb smallMount.fatSect 0xffff nearlyFullDisk).map
        Prod.fst =
        some 5 ∧
      fatEntry nearlyFullDisk.disk smallMount.fatSect 5 ≠ 0 :=
  ⟨⟨⟨by decide, by decide, by decide, by decide +kernel, by decide⟩, by decide +kernel⟩,
    ⟨by decide, by decide, by decide, by decide +kernel, by decide⟩, by decide +kernel,
    by decide +kernel⟩

/-- The last free cluster of the small disk is given out. -/
theorem free_cluster_usable_nearly_full : ∃ c s',
    getFreeCluster smallEnv smallMount.bpb smallMount.fatSect 0xffff nearlyFullDisk =
        some (c, s') ∧ 2 ≤ c ∧ c < 0xfff7 ∧ fatEntry nearlyFullDisk.disk smallMount.fatSect c = 0 ∧
      smallMount.startSect ≤ smallMount.clusterSect c ∧
      smallMount.clusterSect c + smallMount.bpb.sectPerClust ≤ smallMount.startSect + 10 :=
  free_cluster_usable small_volume.works small_accepted rfl (show 0 + 10 ≤ 10 by decide)
    (show FreeInPartition smallMount 10 nearlyFullDisk.disk 3 from
      ⟨by decide, by decide, by decide, by decide +kernel, by decide⟩)
    (by decide +kernel) (by decide +kernel) 0xffff

/-! ## A full FAT -/

/-- No entry of the FAT is zero. -/
def FullFat (b : Fat16Bpb) (startFat : Nat) (disk : ByteMem) : Prop :=
  ∀ k < 256 * b.sectorsPerFat, fatEntry disk startFat k ≠ 0

/-- A failed search changes nothing; the loop over the other FATs follows. -/
theorem get_free_cluster_full (hworks : env.Works) (hbytes : b.bytesPerSect = 512)
    (hdisk : startFat + b.sectorsPerFat ≤ env.sectCount) (hfull : FullFat b startFat s.disk)
    (cur : Nat) :
    ∃ buf commands, getFreeCluster env b startFat cur s =
      some (0xffff, mirrorFats env b startFat cur
        ⟨0xffff, env.newClusterSector s.mallocs, 0xffffffff, env.curClusterSectNo s.mallocs⟩
        (b.fatCount - 1) 1 buf { s with mallocs := s.mallocs + 1, commands := commands }) := by
  obtain ⟨buf, hmalloc⟩ := malloc_ok hworks s
  obtain ⟨buf', commands, hscan⟩ := scan_fat_none hworks hbytes b.sectorsPerFat 0 buf
    { s with mallocs := s.mallocs + 1 } hdisk fun k _ hk => hfull k (by omega)
  refine ⟨buf', commands, ?_⟩
  unfold getFreeCluster
  rw [hmalloc, Option.map_some]
  simp only [hscan]

/-- A round of the mirror loop without a found entry stores outside the buffer. -/
theorem mirror_fat_stray {n : FreeCluster} (hn : b.entriesPerSect ≤ n.newSectOffset) (fat : Nat)
    (buf : ByteMem) (s : BlockState) : (mirrorFat env b fat cur n buf s).2.stray = true := by
  unfold mirrorFat takeEntry
  simp only [if_neg (Nat.not_lt.mpr hn)]
  split_ifs <;> simp

theorem mirror_fats_stray {n : FreeCluster} (hn : b.entriesPerSect ≤ n.newSectOffset) :
    ∀ (r i : Nat) (buf : ByteMem) (s : BlockState), 1 ≤ r ∨ s.stray = true →
      (mirrorFats env b startFat cur n r i buf s).stray = true := by
  intro r
  induction r with
  | zero =>
      intro i buf s h
      exact h.resolve_left (by decide)
  | succ r ih =>
      intro i buf s _
      rw [mirrorFats]
      exact ih (i + 1) _ _ (Or.inr (mirror_fat_stray hn _ buf s))

/-- `get_free_cluster` reports a full FAT and does no harm. -/
def FullReported (env : BlockEnv) (b : Fat16Bpb) (startFat cur : Nat) (s : BlockState) : Prop :=
  ∃ s', getFreeCluster env b startFat cur s = some (0xffff, s') ∧ s'.disk = s.disk ∧
    s'.written = s.written ∧ s'.stray = false

/-- A search with a zero word in its buffer after the first read takes it, or one before it, for a
free entry. -/
theorem search_takes_word {buf : ByteMem} (hscratch : env.scratch s.mallocs = some buf)
    (hsize : env.sectCount < 4294967296) (hdisk : startFat < env.sectCount)
    (hspf : 1 ≤ b.sectorsPerFat) (cur : Nat) {x : Nat}
    (hx : x < b.entriesPerSect) (hx16 : x < 65536)
    (hzero : (if env.Moves s.commands then buf.copy 0 s.disk (512 * startFat) 512
      else buf).word16 (2 * x) = 0) :
    ∃ v ≤ x, ∃ s', getFreeCluster env b startFat cur s = some (v, s') := by
  obtain ⟨r, hr⟩ : ∃ r, b.sectorsPerFat = r + 1 := ⟨_, (Nat.sub_add_cancel hspf).symm⟩
  obtain ⟨j, hj, hfirst, _⟩ := first_zero_exists hx hzero
  have hlink : ∀ sect t,
      (linkCluster env b startFat cur 0 j sect t).1.newClusterNumber = j := by
    intro sect t
    unfold linkCluster
    simp only [Nat.zero_mul, Nat.zero_add, Nat.mod_eq_of_lt (show j < 65536 by omega)]
    split_ifs <;> rfl
  refine ⟨j, hj, ?_⟩
  unfold getFreeCluster BlockState.heapCreamMalloc
  rw [hscratch, hr, Option.map_some, Option.map_some, scanFat, add32_of_lt (by omega), Nat.add_zero,
    read_block_one hsize hdisk]
  simp only [hfirst, hlink]
  exact ⟨_, rfl⟩

/-- Whatever the scratch memory holds, a full FAT is reported without harm exactly where the volume
has sectors of 512 bytes and one FAT, the scratch memory is there and the first read succeeds. -/
theorem full_reported_iff (hsize : env.sectCount < 4294967296)
    (hbytes : b.bytesPerSect = 512 ∨ 514 ≤ b.bytesPerSect) (hspf : 1 ≤ b.sectorsPerFat)
    (hfats : 1 ≤ b.fatCount) (hdisk : startFat + b.sectorsPerFat ≤ env.sectCount)
    (hfull : b.bytesPerSect = 512 → FullFat b startFat s.disk) (hstray : s.stray = false)
    (cur : Nat) :
    (∀ env', env.SameDevice env' → FullReported env' b startFat cur s) ↔
      b.bytesPerSect = 512 ∧ b.fatCount = 1 ∧ (env.scratch s.mallocs).isSome ∧
        env.Moves s.commands := by
  -- what a call does whose search looks at the FAT
  have hrun : ∀ env', env.SameDevice env' → b.bytesPerSect = 512 → env.Moves s.commands →
      ∀ buf, env'.scratch s.mallocs = some buf → ∃ buf' commands,
        getFreeCluster env' b startFat cur s = some (0xffff, mirrorFats env' b startFat cur
          ⟨0xffff, env'.newClusterSector s.mallocs, 0xffffffff, env'.curClusterSectNo s.mallocs⟩
          (b.fatCount - 1) 1 buf' { s with mallocs := s.mallocs + 1, commands := commands }) := by
    intro env' hsame h512 hmoves buf hbuf
    have hdisk' : startFat + b.sectorsPerFat ≤ env'.sectCount := hsame.sectCount ▸ hdisk
    rcases scan_fat_found (hsame.sectCount ▸ hsize) h512 hdisk' s.commands
      b.sectorsPerFat 0 buf { s with mallocs := s.mallocs + 1 } (Nat.zero_add _) rfl
      (fun i hi => absurd hi (Nat.not_lt_zero i))
      (Or.inr (by rw [BlockEnv.Moves, hsame.moved]; exact hmoves)) with
      ⟨i, j, _, hfound, hj, hzero, _⟩ | ⟨_, buf', hscan⟩
    · have hsector := hfound.sector
      exact absurd hzero (hfull h512 _ (by omega))
    · refine ⟨buf', s.commands + b.sectorsPerFat, ?_⟩
      unfold getFreeCluster BlockState.heapCreamMalloc
      rw [hbuf, Option.map_some, Option.map_some]
      simp only [hscan]
  constructor
  · intro h
    obtain ⟨buf, hbuf⟩ : ∃ buf, env.scratch s.mallocs = some buf := by
      obtain ⟨s', hreport, _⟩ := h env (BlockEnv.SameDevice.refl env)
      unfold getFreeCluster at hreport
      obtain ⟨_, hmalloc, _⟩ := Option.map_eq_some_iff.mp hreport
      obtain ⟨buf, hbuf, _⟩ := Option.map_eq_some_iff.mp hmalloc
      exact ⟨buf, hbuf⟩
    -- zeros in the scratch memory would be taken for a free entry
    have hlooks : ¬ (514 ≤ b.bytesPerSect ∨ ¬ env.Moves s.commands) := by
      intro hstale
      obtain ⟨x, hx, hx256, hword⟩ : ∃ x, x < b.entriesPerSect ∧ x ≤ 256 ∧
          (if env.Moves s.commands then
            ByteMem.copy (fun _ => 0x00) 0 s.disk (512 * startFat) 512
          else fun _ => 0x00).word16 (2 * x) = 0 := by
        unfold Fat16Bpb.entriesPerSect
        by_cases hmoves : env.Moves s.commands
        · have hlarge := hstale.resolve_right (not_not.mpr hmoves)
          refine ⟨256, by omega, le_rfl, ?_⟩
          rw [if_pos hmoves, ByteMem.word16, ByteMem.copy_outside (by omega),
            ByteMem.copy_outside (by omega)]
          rfl
        · refine ⟨0, by omega, by decide, ?_⟩
          rw [if_neg hmoves]
          rfl
      obtain ⟨v, hv, s₁, hget⟩ := search_takes_word
        (BlockEnv.fill_scratch_some 0x00 hbuf) hsize (show _ < env.sectCount by omega) hspf cur hx
        (by omega) hword
      obtain ⟨s', hreport, _⟩ := h _ (env.fill_scratch_same 0x00)
      obtain ⟨rfl, _⟩ := Prod.mk.inj (Option.some.inj (hget.symm.trans hreport))
      omega
    have h512 : b.bytesPerSect = 512 := by omega
    have hmoves : env.Moves s.commands := by omega
    refine ⟨h512, ?_, Option.isSome_of_eq_some hbuf, hmoves⟩
    by_contra hne
    obtain ⟨buf', commands, hget⟩ := hrun env (BlockEnv.SameDevice.refl env) h512 hmoves buf hbuf
    obtain ⟨s', hreport, _, _, hnot⟩ := h env (BlockEnv.SameDevice.refl env)
    obtain ⟨_, rfl⟩ := Prod.mk.inj (Option.some.inj (hget.symm.trans hreport))
    rw [mirror_fats_stray (show b.entriesPerSect ≤ 0xffffffff by
      rw [Fat16Bpb.entriesPerSect, h512]; decide) _ _ _ _ (Or.inl (by omega))] at hnot
    cases hnot
  · rintro ⟨h512, hone, hgranted, hmoves⟩ env' hsame
    obtain ⟨buf, hbuf⟩ := Option.isSome_iff_exists.mp
      ((hsame.granted s.mallocs).symm ▸ hgranted)
    obtain ⟨buf', commands, hget⟩ := hrun env' hsame h512 hmoves buf hbuf
    rw [hone] at hget
    exact ⟨_, hget, rfl, rfl, hstray⟩

/-! ## Writing on a full volume -/

/-- The outer loop of a write ends with all the bytes, whatever it did with them. -/
theorem write_loop_returns {buffer : ByteMem} {size : Nat} :
    ∀ {k h x cur idx : Nat} {file file' : Fat16File} {buf temp : ByteMem} {s s' : BlockState}
      {r : Nat}, idx ≤ size →
      writeLoop env m buffer size k h x cur idx file buf temp s = some (r, file', s') →
      r = size := by
  intro k
  induction k with
  | zero =>
      intro h x cur idx file file' buf temp s s' r _ hrun
      cases hrun
  | succ k ih =>
      intro h x cur idx file file' buf temp s s' r hidx hrun
      rw [writeLoop] at hrun
      cases hhops : writeHops env m h cur file.dirtyBit buf s with
      | none =>
          rw [hhops] at hrun
          cases hrun
      | some t =>
          obtain ⟨c, dirtyBit, buf₁, s₁⟩ := t
          rw [hhops] at hrun
          simp only at hrun
          split_ifs at hrun with hdone
          · obtain ⟨rfl, _⟩ := Prod.mk.inj (Option.some.inj hrun)
            omega
          · exact ih (by omega) hrun

/-- Every result of `write_fat16` is the number of bytes that it was given. -/
theorem write_fat16_returns {n k r : Nat} {buffer : ByteMem} {f' : Fat16File} {s' : BlockState}
    (hrun : writeFat16 env m k f buffer n s = some (r, f', s')) : r = n := by
  unfold writeFat16 at hrun
  split_ifs at hrun with hn
  · obtain ⟨rfl, _⟩ := Prod.mk.inj (Option.some.inj hrun)
    exact hn.symm
  · simp only [Option.bind_eq_bind] at hrun
    obtain ⟨⟨f₁, s₁⟩, _, hrun⟩ := Option.bind_eq_some_iff.mp hrun
    obtain ⟨⟨buf, s₂⟩, _, hrun⟩ := Option.bind_eq_some_iff.mp hrun
    obtain ⟨⟨temp, s₃⟩, _, hrun⟩ := Option.bind_eq_some_iff.mp hrun
    exact write_loop_returns (Nat.zero_le n) hrun

/-- A write of a byte to a file with clusters has memory for both its buffers. -/
theorem write_fat16_granted {n k : Nat} {buffer : ByteMem} {r : Nat × Fat16File × BlockState}
    (hn : 1 ≤ n) (hstart : ¬ EndMark (f.fsSpecific % 65536))
    (hrun : writeFat16 env m k f buffer n s = some r) :
    (env.scratch s.mallocs).isSome ∧ (env.scratch (s.mallocs + 1)).isSome := by
  unfold writeFat16 at hrun
  rw [if_neg (by omega), first_cluster_kept hstart] at hrun
  simp only [Option.bind_eq_bind, Option.bind_some] at hrun
  obtain ⟨⟨buf, s₁⟩, hbuf, hrun⟩ := Option.bind_eq_some_iff.mp hrun
  obtain ⟨⟨temp, s₂⟩, htemp, _⟩ := Option.bind_eq_some_iff.mp hrun
  obtain ⟨buf₀, hbuf₀, heq⟩ := Option.map_eq_some_iff.mp hbuf
  obtain ⟨temp₀, htemp₀, _⟩ := Option.map_eq_some_iff.mp htemp
  obtain ⟨_, rfl⟩ := Prod.mk.inj heq
  exact ⟨Option.isSome_of_eq_some hbuf₀, Option.isSome_of_eq_some htemp₀⟩

/-- `write_fat16` reports what fits into the clusters of the file, changes no byte outside them and
keeps the first cluster. -/
def FullWritten (env : BlockEnv) (m : Fat16Mount) (len : ℕ∞) (k : Nat) (f : Fat16File)
    (buffer : ByteMem) (n : Nat) (s : BlockState) : Prop :=
  ∃ r f' s', writeFat16 env m k f buffer n s = some (r, f', s') ∧
    (r : ℕ∞) = min (n : ℕ∞) (len * m.clusterSize - f.offset) ∧
    (∀ x, (∀ p, m.chainAddr s.disk f p ≠ some x) → s'.disk x = s.disk x) ∧
    f'.fsSpecific = f.fsSpecific

theorem full_written_nothing (len : ℕ∞) (k : Nat) (buffer : ByteMem) :
    FullWritten env m len k f buffer 0 s :=
  ⟨0, f, s, rfl, by simp, fun _ _ => rfl, rfl⟩

/-- A write that does so ends inside the chain and has its buffers. -/
theorem full_written_fits (hsize : 0 < m.clusterSize) {n k : Nat} {len : ℕ∞}
    (hlen : Chain.HasLength (m.nextCluster s.disk) (Fat16Mount.startCluster f) len)
    {buffer : ByteMem} (h : FullWritten env m len k f buffer n s) :
    n = 0 ∨ ((f.offset + n : Nat) : ℕ∞) ≤ len * m.clusterSize ∧
      (env.scratch (s.mallocs + 1)).isSome := by
  obtain ⟨r, f', s', hrun, hfits, _⟩ := h
  obtain rfl := write_fat16_returns hrun
  rcases Nat.eq_zero_or_pos r with hzero | hpos
  · exact Or.inl hzero
  · have hin : ((f.offset + r : Nat) : ℕ∞) ≤ len * m.clusterSize := by
      refine (Chain.le_bytes_iff hpos).mp ?_
      rw [hfits]
      exact min_le_right _ _
    have hreach := hlen.block_isSome hsize
      (by rwa [show f.offset + r - 1 + 1 = f.offset + r by omega])
    have hstart : ¬ EndMark (f.fsSpecific % 65536) := fun hend => by
      rw [show Fat16Mount.startCluster f = none from if_pos hend, Chain.nth_none] at hreach
      cases hreach
    exact Or.inr ⟨hin, (write_fat16_granted hpos hstart hrun).2⟩

/-- A write inside the chain does so while the reads of the FAT succeed. -/
theorem full_written_of_hops (hp : m.Placed env.sectCount hi) {n k : Nat} {len : ℕ∞}
    (hlen : Chain.HasLength (m.nextCluster s.disk) (Fat16Mount.startCluster f) len)
    (hok : m.ChainOk hi s.disk f) (hk : n ≤ k) (hn : 1 ≤ n)
    (hin : ((f.offset + n : Nat) : ℕ∞) ≤ len * m.clusterSize) (hhops : HopsRead env m f n s)
    (hbuf : (env.scratch s.mallocs).isSome) (htemp : (env.scratch (s.mallocs + 1)).isSome)
    (buffer : ByteMem) : FullWritten env m len k f buffer n s := by
  have hreach : (m.cluster s.disk f ((f.offset + n - 1) / m.clusterSize)).isSome :=
    hlen.block_isSome hp.clusterSize_pos
      (by rwa [show f.offset + n - 1 + 1 = f.offset + n by omega])
  obtain ⟨temp, htemp⟩ := Option.isSome_iff_exists.mp htemp
  obtain ⟨temps, s', hrun, _, hkept, _⟩ :=
    write_fat16_moves hp hok hn hreach hk hhops hbuf htemp buffer
  refine ⟨n, _, s', hrun, ?_, fun x hx => hkept x fun i c y _ _ hc hy heq => ?_, rfl⟩
  · rw [min_eq_left ((Chain.le_bytes_iff hn).mpr hin)]
  · exact hx (i * m.clusterSize + y) (heq ▸ chain_addr_eq hy hc)

/-- A mounted volume of any sector size that the mount accepts, on a disk that holds what is before
its data. -/
structure Fat16Mount.OnDevice (m : Fat16Mount) (env : BlockEnv) (hi : Nat) : Prop where
  accepted : m.bpb.Accepted m.startSect
  dataStart : m.dataSect ≤ hi
  onDisk : hi ≤ env.sectCount
  size : env.sectCount < 4294967296

theorem Fat16Mount.OnDevice.placed (hv : m.OnDevice env hi) (h512 : m.bpb.bytesPerSect = 512) :
    m.Placed env.sectCount hi where
  bytes := h512
  clust := hv.accepted.clust.1
  fats := hv.accepted.fats.1
  dataStart := hv.dataStart
  onDisk := hv.onDisk
  size := hv.size

/-- No entry of the first FAT, where the format puts it, is zero. -/
def Fat16Mount.Full (m : Fat16Mount) (disk : ByteMem) : Prop :=
  ∀ c < m.bpb.entriesPerSect * m.bpb.sectorsPerFat, disk.word16 (m.definedEntry c) ≠ 0

theorem Fat16Mount.Full.full_fat {disk : ByteMem} (h : m.Full disk)
    (h512 : m.bpb.bytesPerSect = 512) : FullFat m.bpb m.fatSect disk := by
  intro k hk
  have hentry := h k (by rwa [Fat16Bpb.entriesPerSect, h512])
  rwa [Fat16Mount.definedEntry, h512, show 512 * m.startSect + m.bpb.reservedSectors * 512 + 2 * k =
    fatEntryAddr m.fatSect k by unfold fatEntryAddr Fat16Mount.fatSect; omega] at hentry

/-- On a full volume, whatever the scratch memory and the locals that nothing sets hold, the failed
allocation is reported and does no harm, and a write reports what fitted. -/
def FullHarmless (env : BlockEnv) (m : Fat16Mount) (len : ℕ∞) (k : Nat) (f : Fat16File)
    (buffer : ByteMem) (n cur : Nat) (s : BlockState) : Prop :=
  ∀ env', env.SameDevice env' →
    FullReported env' m.bpb m.fatSect cur s ∧ FullWritten env' m len k f buffer n s

/-- One FAT of 512-byte sectors whose first sector can be read, scratch memory for every buffer, and
a range that ends inside the chain. -/
structure FullServed (env : BlockEnv) (m : Fat16Mount) (len : ℕ∞) (f : Fat16File) (n : Nat)
    (s : BlockState) : Prop where
  bytes : m.bpb.bytesPerSect = 512
  oneFat : m.bpb.fatCount = 1
  granted : (env.scratch s.mallocs).isSome
  read : env.Moves s.commands
  fits : n = 0 ∨ ((f.offset + n : Nat) : ℕ∞) ≤ len * m.clusterSize ∧
    (env.scratch (s.mallocs + 1)).isSome

/-- Both calls do what they should on a full volume, of any sector size and on a device with any
pattern of failures, only where `FullServed` holds, and they do so there if the reads of the FAT on
the way to the range succeed. -/
theorem disk_full_iff (hv : m.OnDevice env hi) (hfull : m.Full s.disk) (hstray : s.stray = false)
    {n k : Nat} {len : ℕ∞}
    (hlen : Chain.HasLength (m.nextCluster s.disk) (Fat16Mount.startCluster f) len)
    (hok : m.bpb.bytesPerSect = 512 → m.ChainOk hi s.disk f) (hk : n ≤ k) (buffer : ByteMem)
    (cur : Nat) :
    (FullHarmless env m len k f buffer n cur s → FullServed env m len f n s) ∧
      (FullServed env m len f n s ∧ HopsRead env m f n s →
        FullHarmless env m len k f buffer n cur s) := by
  have hdata := fat_sect_le_data_sect hv.accepted.fats.1
  have hstart := hv.dataStart
  have hdisk := hv.onDisk
  have hbytes := hv.accepted.bytes
  have hreported := full_reported_iff hv.size (by omega) hv.accepted.sectors.1 hv.accepted.fats.1
    (show m.fatSect + m.bpb.sectorsPerFat ≤ env.sectCount by omega) hfull.full_fat hstray cur
  constructor
  · intro h
    obtain ⟨h512, hone, hgranted, hmoves⟩ := hreported.mp fun env' hsame => (h env' hsame).1
    exact
      { bytes := h512
        oneFat := hone
        granted := hgranted
        read := hmoves
        fits := full_written_fits (hv.placed h512).clusterSize_pos hlen
          (h env (BlockEnv.SameDevice.refl env)).2 }
  · rintro ⟨h, hhops⟩ env' hsame
    refine ⟨hreported.mpr ⟨h.bytes, h.oneFat, h.granted, h.read⟩ env' hsame, ?_⟩
    rcases Nat.eq_zero_or_pos n with rfl | hn
    · exact full_written_nothing len k buffer
    · obtain ⟨hin, htemp⟩ := h.fits.resolve_left (by omega)
      refine full_written_of_hops (hsame.sectCount ▸ hv.placed h.bytes) hlen (hok h.bytes) hk hn hin
        (fun hn j hj hj' => ?_) (by rw [hsame.granted]; exact h.granted)
        (by rw [hsame.granted]; exact htemp) buffer
      rw [BlockEnv.Moves, hsame.moved]
      exact hhops hn j hj hj'

/-- The small disk with full FATs, and as a volume of one FAT. -/
def fullDisk : BlockState :=
  { smallDisk with disk := fun x => if 512 ≤ x ∧ x < 1536 then 0xff else 0x00 }

def oneFatMount : Fat16Mount := ⟨0, ⟨512, 1, 1, 1, 1, 16, 1, 2, 3⟩⟩

theorem full_disk_full {fat : Nat} (hfat : fat = 1 ∨ fat = 2) {b : Fat16Bpb}
    (hb : b.sectorsPerFat = 1) : FullFat b fat fullDisk.disk := by
  intro k hk
  rw [hb] at hk
  have hbyte : ∀ x, 512 ≤ x → x < 1536 → fullDisk.disk x = 0xff := fun x hl hh =>
    if_pos ⟨hl, hh⟩
  unfold fatEntry ByteMem.word16 fatEntryAddr
  rw [hbyte _ (by omega) (by omega), hbyte _ (by omega) (by omega)]
  decide

/-- With two FATs the failed allocation stores outside its buffer, and a write of three bytes of
which two fit reports three. -/
theorem full_fat_not_reported :
    FullFat smallMount.bpb smallMount.fatSect fullDisk.disk ∧
      ¬ FullReported smallEnv smallMount.bpb smallMount.fatSect 0xffff fullDisk ∧
      ¬ FullWritten smallEnv smallMount ((1 : Nat) : ℕ∞) 3 smallFile (fun _ => 0x41) 3
        fullDisk := by
  refine ⟨full_disk_full (Or.inl rfl) rfl, fun ⟨s', hreport, _, _, hnot⟩ => ?_,
    fun ⟨r, f', s', hrun, hfits, _⟩ => ?_⟩
  · have hstray : (getFreeCluster smallEnv smallMount.bpb smallMount.fatSect 0xffff fullDisk).map
        (fun r => r.2.stray) = some true := by decide +kernel
    rw [hreport, Option.map_some, hnot] at hstray
    exact absurd hstray (by decide)
  · obtain rfl := write_fat16_returns hrun
    have hle := (hfits.le.trans (min_le_right _ _))
    have hnat := (Chain.le_bytes_iff (show 1 ≤ 3 by decide)).mp hle
    have hbad : smallFile.offset + 3 ≤ 1 * smallMount.clusterSize := by exact_mod_cast hnat
    exact absurd hbad (by decide)

/-- A full FAT with the chain 2, 3, and a device whose second command fails. -/
def fullChainDisk : BlockState :=
  { smallDisk with
    disk := fun x =>
      if x = 516 then 0x03 else if x = 517 then 0x00
      else if 512 ≤ x ∧ x < 1024 then 0xff else 0x00 }

def secondFailsEnv : BlockEnv :=
  { smallEnv with moved := fun n total => if n = 1 then 0 else total }

/-- On a volume with one FAT both calls do what they should, for a write into the second cluster
whose first sector cannot be read. -/
theorem disk_full_iff_one_fat :
    FullHarmless secondFailsEnv oneFatMount ((2 : Nat) : ℕ∞) 2 ⟨600, 2, 1024, 0⟩ (fun _ => 0x41) 2
      0xffff fullChainDisk :=
  have hlast : oneFatMount.cluster fullChainDisk.disk ⟨600, 2, 1024, 0⟩ 2 = none := by
    decide +kernel
  have hclusters : ∀ k < 2, oneFatMount.cluster fullChainDisk.disk ⟨600, 2, 1024, 0⟩ k =
    some (k + 2) := by decide +kernel
  (disk_full_iff
    (show oneFatMount.OnDevice secondFailsEnv 10 from
      ⟨⟨by decide, by decide, by decide, by decide, by decide, by decide, rfl, rfl, rfl⟩,
        by decide, by decide, by decide⟩)
    (show ∀ c < 256, fullChainDisk.disk.word16 (oneFatMount.definedEntry c) ≠ 0 by decide +kernel)
    rfl
    (Chain.has_length_of_none
      (fun k hk => Option.isSome_of_eq_some (hclusters k hk)) hlast)
    (fun _ => chain_ok_of_none hlast fun k hk c hc => by
      obtain rfl := Option.some.inj ((hclusters k hk).symm.trans hc)
      have hsect : oneFatMount.clusterSect (k + 2) = 3 + k * 1 := rfl
      exact ⟨by omega, by omega, show k + 2 < 256 by omega, by rw [hsect]; show _ + 1 ≤ 10; omega⟩)
    le_rfl (fun _ => 0x41) 0xffff).2
    ⟨⟨rfl, rfl, rfl, by decide, Or.inr ⟨by decide +kernel, rfl⟩⟩, fun _ j hj hj' => by
      obtain rfl : j = 1 := le_antisymm hj' hj
      decide⟩

end Genesis32
