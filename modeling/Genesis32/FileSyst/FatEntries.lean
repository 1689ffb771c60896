import Genesis32.FileSyst.FullVolume
import Genesis32.FileSyst.WriteRuns

/-!
# The first FAT under a write

What `write_fat16` does to the entries of the first FAT, on any volume and past the end of any
chain: entries that are zero may become end marks, and all others stay. A write never links a
cluster to another one, because it passes the end mark and not the cluster before it to
`get_free_cluster`.
-/

namespace Genesis32

open Word

/-- Every entry of the first FAT that was not zero is what it was. -/
def EntriesKept (m : Fat16Mount) (disk disk' : ByteMem) : Prop :=
  ∀ c < 256 * m.bpb.sectorsPerFat, fatEntry disk m.fatSect c ≠ 0 →
    fatEntry disk' m.fatSect c = fatEntry disk m.fatSect c

/-- The sectors of the partition before its FATs are what they were. -/
def ReservedKept (m : Fat16Mount) (disk disk' : ByteMem) : Prop :=
  ∀ x, 512 * m.startSect ≤ x → x < 512 * m.fatSect → disk' x = disk x

/-- A volume with an accepted parameter block and a FAT that sixteen bits can address. -/
structure Fat16Mount.Mounted (m : Fat16Mount) (env : BlockEnv) (hi : Nat) : Prop
    extends m.Volume env hi where
  accepted : m.bpb.Accepted m.startSect
  sectors : m.bpb.sectorsPerFat ≤ 256

/-- A file of a volume: its clusters are data clusters that its FAT does not show as free, and its
chain ends. -/
structure Fat16Mount.FileOk (m : Fat16Mount) (hi : Nat) (disk : ByteMem) (f : Fat16File) :
    Prop where
  chain : m.ChainOk hi disk f
  taken : ∀ k c, m.cluster disk f k = some c → fatEntry disk m.fatSect c ≠ 0
  finite : ∃ len : Nat,
    Chain.HasLength (m.nextCluster disk) (Fat16Mount.startCluster f) ((len : Nat) : ℕ∞)

/-- The two entries before those of the clusters are taken. -/
structure ReservedTaken (m : Fat16Mount) (disk : ByteMem) : Prop where
  zero : fatEntry disk m.fatSect 0 ≠ 0
  one : fatEntry disk m.fatSect 1 ≠ 0

/-- The locals of `get_free_cluster` that nothing sets hold the first sector of a FAT and no
sector. -/
structure BlockEnv.Harmless (env : BlockEnv) : Prop where
  newSector : ∀ n, env.newClusterSector n = 0
  curSector : ∀ n, env.curClusterSectNo n = 0xffff

/-- An empty file with its first cluster. -/
abbrev Fat16File.withFirst (f : Fat16File) (c : Nat) : Fat16File :=
  { f with fsSpecific := c, dirtyBit := 1 }

variable {env : BlockEnv} {m : Fat16Mount} {f : Fat16File} {s : BlockState} {hi c : Nat}
  {disk disk' : ByteMem}

theorem BlockEnv.SameDevice.mounted {env' : BlockEnv} (h : env.SameDevice env')
    (hv : m.Mounted env hi) : m.Mounted env' hi where
  toSectors512 := hv.toSectors512
  works :=
    { moved := fun n total => by rw [h.moved]; exact hv.works.moved n total
      scratch := fun n => (h.granted n).trans (hv.works.scratch n)
      size := h.sectCount ▸ hv.works.size }
  fats := hv.fats
  dataStart := hv.dataStart
  onDisk := h.sectCount ▸ hv.onDisk
  accepted := hv.accepted
  sectors := hv.sectors

/-! ## Entries -/

theorem entries_kept_of_bytes
    (h : ∀ x < 512 * m.bpb.sectorsPerFat,
      disk' (512 * m.fatSect + x) = disk (512 * m.fatSect + x)) :
    EntriesKept m disk disk' :=
  fun _ hc _ => fat_entry_congr hc h

theorem EntriesKept.trans {disk'' : ByteMem} (h : EntriesKept m disk disk')
    (h' : EntriesKept m disk' disk'') : EntriesKept m disk disk'' := fun c hc hne =>
  (h' c hc (by rwa [h c hc hne])).trans (h c hc hne)

/-- The FATs of a volume lie before its data. -/
theorem Fat16Mount.Volume.fats_le (hv : m.Volume env hi) :
    m.fatSect + m.bpb.fatCount * m.bpb.sectorsPerFat ≤ hi := by
  refine le_trans ?_ hv.dataStart
  rw [Nat.mul_comm]
  exact Nat.le_add_right _ _

theorem ReservedKept.trans {disk'' : ByteMem} (h : ReservedKept m disk disk')
    (h' : ReservedKept m disk' disk'') : ReservedKept m disk disk'' := fun x hl hh =>
  (h' x hl hh).trans (h x hl hh)

theorem Fat16Mount.Volume.fatSect_eq (hv : m.Volume env hi) :
    add32 m.startSect m.bpb.reservedSectors = m.fatSect := by
  have hfats := hv.fats_le
  have hdisk := hv.onDisk
  have hsize := hv.works.size
  exact add32_of_lt (show m.fatSect < _ by omega)

theorem Fat16Mount.Mounted.fatVolume (hv : m.Mounted env hi) : FatVolume env m.bpb m.fatSect where
  works := hv.works
  bytes := hv.bytes
  fats := hv.fats
  sectors := hv.sectors
  onDisk := hv.fats_le.trans hv.onDisk

theorem EntriesKept.reserved (h : EntriesKept m disk disk') (hspf : 1 ≤ m.bpb.sectorsPerFat)
    (hreserved : ReservedTaken m disk) : ReservedTaken m disk' where
  zero := by rw [h 0 (by omega) hreserved.zero]; exact hreserved.zero
  one := by rw [h 1 (by omega) hreserved.one]; exact hreserved.one

/-- The chain of a file is that of its first cluster. -/
theorem cluster_of_first {f' : Fat16File} (h : f'.fsSpecific = f.fsSpecific) (disk : ByteMem)
    (k : Nat) : m.cluster disk f' k = m.cluster disk f k := by
  unfold Fat16Mount.cluster Fat16Mount.startCluster
  rw [h]

/-- A file whose clusters are all taken keeps its chain. -/
theorem EntriesKept.cluster_eq (h : EntriesKept m disk disk') (hok : m.ChainOk hi disk f)
    (htaken : ∀ k c, m.cluster disk f k = some c → fatEntry disk m.fatSect c ≠ 0) (k : Nat) :
    m.cluster disk' f k = m.cluster disk f k :=
  cluster_congr (fun j c hc => h c (hok j c hc).inFat (htaken j c hc)) k

/-- The chain that a file has after a write, as long as the write has kept the entries. -/
theorem EntriesKept.cluster_after {f' : Fat16File} (h : EntriesKept m disk disk')
    (hfirst : f'.fsSpecific = f.fsSpecific) (hok : m.ChainOk hi disk f)
    (htaken : ∀ k c, m.cluster disk f k = some c → fatEntry disk m.fatSect c ≠ 0) (k : Nat) :
    m.cluster disk' f' k = m.cluster disk f k :=
  (cluster_of_first hfirst disk' k).trans (h.cluster_eq hok htaken k)

/-! ## Allocating behind an end mark -/

theorem Allocated.keeps {cur : Nat} (h : Allocated m.bpb m.fatSect cur c disk disk')
    (hfats : 1 ≤ m.bpb.fatCount) (hcur : EndMark cur) : EntriesKept m disk disk' := by
  intro k hk hne
  have hentry := h.entries 0 hfats k hk
  have hkc : k ≠ c := fun heq => hne (heq ▸ h.free.zero)
  rwa [Nat.zero_mul, Nat.add_zero, if_neg hkc, if_neg fun hlink => hlink.1 hcur] at hentry

/-- Where it has no current cluster, a round of the mirror loop is a read and a write of one
sector. -/
theorem mirror_fat_eq {b : Fat16Bpb} {fat cur : Nat} {n : FreeCluster}
    (hnew : n.newClusterSector ≠ 0xffff) (hcur : n.curClusterSectNo = 0xffff) (buf : ByteMem)
    (s : BlockState) :
    mirrorFat env b fat cur n buf s =
      let r := s.readBlock env (add32 fat n.newClusterSector) 1 buf 0
      let u := takeEntry b n.newSectOffset r.1 r.2
      (u.1, u.2.writeBlock env (add32 fat n.newClusterSector) 1 u.1 0) := by
  unfold mirrorFat
  simp only [hcur, hnew, if_false, ge_iff_le, show 0xfff8 ≤ 0xffff from by decide, if_true]

theorem take_entry_keeps (b : Fat16Bpb) (offset : Nat) (buf : ByteMem) (s : BlockState) :
    (takeEntry b offset buf s).2.commands = s.commands ∧
      (takeEntry b offset buf s).2.mallocs = s.mallocs ∧
      (takeEntry b offset buf s).2.disk = s.disk := by
  unfold takeEntry
  split_ifs <;> exact ⟨rfl, rfl, rfl⟩

/-- They change that sector only, whether they succeed or not. -/
theorem mirror_fat_moves (hsize : env.sectCount < 4294967296) (b : Fat16Bpb) {fat : Nat}
    (cur : Nat) {n : FreeCluster} (hlba : fat + n.newClusterSector < env.sectCount)
    (hnew : n.newClusterSector ≠ 0xffff) (hcur : n.curClusterSectNo = 0xffff) (buf : ByteMem)
    (s : BlockState) :
    (mirrorFat env b fat cur n buf s).2.commands = s.commands + 2 ∧
      (mirrorFat env b fat cur n buf s).2.mallocs = s.mallocs ∧
      ∀ x, x < 512 * (fat + n.newClusterSector) ∨ 512 * (fat + n.newClusterSector + 1) ≤ x →
        (mirrorFat env b fat cur n buf s).2.disk x = s.disk x := by
  rw [mirror_fat_eq hnew hcur, add32_of_lt (by omega), read_block_one hsize hlba]
  generalize (if env.Moves s.commands then
    buf.copy 0 s.disk (512 * (fat + n.newClusterSector)) 512 else buf) = buf₁
  obtain ⟨hcommands, hmallocs, hdisk⟩ := take_entry_keeps b n.newSectOffset buf₁
    { s with commands := s.commands + 1 }
  simp only
  generalize takeEntry b n.newSectOffset buf₁ { s with commands := s.commands + 1 } = u
    at hcommands hmallocs hdisk ⊢
  obtain ⟨_, hcount, hmalloc⟩ := write_block_one hsize hlba u.1 0 u.2
  refine ⟨by rw [hcount, hcommands], by rw [hmalloc, hmallocs], fun x hx => ?_⟩
  rw [write_block_outside hx, hdisk]

/-- So is the mirror loop in each of the other FATs. -/
theorem mirror_fats_moves (hp : m.Placed env.sectCount hi) (hspf : m.bpb.sectorsPerFat ≤ 256)
    (cur : Nat) {n : FreeCluster} (hnew : n.newClusterSector < m.bpb.sectorsPerFat)
    (hcur : n.curClusterSectNo = 0xffff) :
    ∀ (r i : Nat) (buf : ByteMem) (s : BlockState), 1 ≤ i → i + r = m.bpb.fatCount →
      (mirrorFats env m.bpb m.fatSect cur n r i buf s).commands = s.commands + 2 * r ∧
      (mirrorFats env m.bpb m.fatSect cur n r i buf s).mallocs = s.mallocs ∧
      ∀ x, x < 512 * (m.fatSect + m.bpb.sectorsPerFat) ∨
          512 * (m.fatSect + m.bpb.fatCount * m.bpb.sectorsPerFat) ≤ x →
        (mirrorFats env m.bpb m.fatSect cur n r i buf s).disk x = s.disk x := by
  have hsize := hp.size
  have hdisk := hp.volume.fats_le.trans hp.onDisk
  intro r
  induction r with
  | zero => exact fun _ _ _ _ _ => ⟨rfl, rfl, fun _ _ => rfl⟩
  | succ r ih =>
      intro i buf s hi hr
      have hmul : 1 * m.bpb.sectorsPerFat ≤ i * m.bpb.sectorsPerFat := Nat.mul_le_mul_right _ hi
      have hlast : (i + 1) * m.bpb.sectorsPerFat ≤ m.bpb.fatCount * m.bpb.sectorsPerFat :=
        Nat.mul_le_mul_right _ (by omega)
      rw [Nat.add_mul, Nat.one_mul] at hlast
      obtain ⟨hcommands, hmallocs, hother⟩ := mirror_fat_moves hp.size m.bpb cur
        (show m.fatSect + i * m.bpb.sectorsPerFat + n.newClusterSector < env.sectCount by omega)
        (by omega) hcur buf s
      rw [mirrorFats, add32_of_lt (by omega)]
      generalize mirrorFat env m.bpb (m.fatSect + i * m.bpb.sectorsPerFat) cur n buf s = u
        at hcommands hmallocs hother ⊢
      obtain ⟨hcount, hmalloc, hrest⟩ := ih (i + 1) u.1 u.2 (by omega) (by omega)
      exact ⟨by rw [hcount, hcommands]; omega, hmalloc.trans hmallocs, fun x hx =>
        (hrest x hx).trans (hother x (by omega))⟩

/-- Behind an end mark `get_free_cluster` keeps the entries, on a full volume too where the locals
that it does not set are harmless. -/
theorem get_free_cluster_keeps (hv : m.Mounted env hi) (hharmless : env.Harmless)
    (hreserved : ReservedTaken m s.disk) {cur : Nat} (hcur : EndMark cur) (hcur16 : cur < 65536) :
    ∃ d s', getFreeCluster env m.bpb m.fatSect cur s = some (d, s') ∧ (2 ≤ d ∧ d < 65536) ∧
      EntriesKept m s.disk s'.disk ∧ ReservedKept m s.disk s'.disk := by
  by_cases hfree : HasFree m.bpb m.fatSect s.disk
  · obtain ⟨d, s', hrun, halloc⟩ :=
      get_free_cluster_allocates hv.fatVolume hfree ⟨hcur16, Or.inl hcur⟩
    have hzero := halloc.free.zero
    have hspf := hv.sectors
    have hfat := halloc.inFat
    refine ⟨d, s', hrun, ⟨?_, by omega⟩, halloc.keeps hv.fats hcur,
      fun x _ hx => halloc.rest x (Or.inl hx)⟩
    have h0 : d ≠ 0 := fun heq => hreserved.zero (heq ▸ hzero)
    have h1 : d ≠ 1 := fun heq => hreserved.one (heq ▸ hzero)
    omega
  · have hdata := fat_sect_le_data_sect hv.fats
    have hstart := hv.dataStart
    have hdisk := hv.onDisk
    have hfull : FullFat m.bpb m.fatSect s.disk := fun k hk hzero => hfree ⟨k, hk, hzero⟩
    obtain ⟨buf, commands, hrun⟩ :=
      get_free_cluster_full hv.works hv.bytes (by omega) hfull cur
    have hfats := hv.fats
    have hmirror := (mirror_fats_moves hv.placed hv.sectors cur
      (n := ⟨0xffff, env.newClusterSector s.mallocs, 0xffffffff, env.curClusterSectNo s.mallocs⟩)
      (by rw [hharmless.newSector]; exact hv.accepted.sectors.1) (hharmless.curSector _)
      (m.bpb.fatCount - 1) 1 buf { s with mallocs := s.mallocs + 1, commands := commands } le_rfl
      (by omega)).2.2
    refine ⟨0xffff, _, hrun, ⟨by decide, by decide⟩, entries_kept_of_bytes fun x hx => ?_,
      fun x _ hx => ?_⟩
    · exact hmirror (512 * m.fatSect + x) (Or.inl (by omega))
    · exact hmirror x (Or.inl (by omega))

/-! ## Writing a cluster -/

/-- No sector of a cluster is one before the end of the first FAT in the partition, also where the
numbers wrap. -/
theorem cluster_sector_not_fat (hv : m.Mounted env hi) (hc : 2 ≤ c) (hc16 : c < 65536) {j : Nat}
    (hj : j < m.bpb.sectPerClust) :
    add32 (m.clusterSector c) j < m.startSect ∨
      m.fatSect + m.bpb.sectorsPerFat ≤ add32 (m.clusterSector c) j := by
  have hsize := hv.works.size
  have hclust := hv.accepted.clust
  have hfats := hv.accepted.fats
  have hreserved := hv.accepted.reserved
  have hentries := hv.accepted.entries
  have hdata := hv.dataStart.trans hv.onDisk
  have hmul : (c - 2) * m.bpb.sectPerClust ≤ 65535 * 255 := Nat.mul_le_mul (by omega) (by omega)
  have hcopies : m.bpb.sectorsPerFat * m.bpb.fatCount ≤ 256 * 255 :=
    Nat.mul_le_mul hv.sectors (by omega)
  have hone : m.bpb.sectorsPerFat * 1 ≤ m.bpb.sectorsPerFat * m.bpb.fatCount :=
    Nat.mul_le_mul_left _ hfats.1
  unfold Fat16Mount.dataSect Fat16Mount.fatSect at *
  unfold Fat16Mount.clusterSector Fat16Mount.dataOffset
  rw [hv.bytes] at hdata ⊢
  rw [sub32_of_le hc (by omega), mul32_of_lt (by omega)]
  generalize m.bpb.sectorsPerFat * m.bpb.fatCount = fats at *
  generalize (c - 2) * m.bpb.sectPerClust = before at *
  simp only [add32]
  omega

theorem write_cluster_keeps (hv : m.Mounted env hi) (hc : 2 ≤ c) (hc16 : c < 65536) (buf : ByteMem)
    (s : BlockState) :
    EntriesKept m s.disk
        (writeCluster env m (m.clusterSector c) m.bpb.sectPerClust 0 buf s).disk ∧
      ReservedKept m s.disk
        (writeCluster env m (m.clusterSector c) m.bpb.sectPerClust 0 buf s).disk := by
  have hbytes : ∀ x, 512 * m.startSect ≤ x → x < 512 * (m.fatSect + m.bpb.sectorsPerFat) →
      (writeCluster env m (m.clusterSector c) m.bpb.sectPerClust 0 buf s).disk x = s.disk x :=
    fun x hl hh => write_cluster_outside hv.bytes buf _ _ s fun j _ hj => by
      have hsect := cluster_sector_not_fat hv hc hc16 (show j < m.bpb.sectPerClust by omega)
      omega
  have hstart : m.startSect ≤ m.fatSect := Nat.le_add_right _ _
  exact ⟨entries_kept_of_bytes fun x hx => hbytes _ (by omega) (by omega),
    fun x hl hh => hbytes x hl (by omega)⟩

/-! ## The write -/

/-- A write is at a cluster with a number, and has kept the entries of the FAT and what is before
them. -/
theorem entries_kept_inv (hv : m.Mounted env hi) (hharmless : env.Harmless)
    (hreserved : ReservedTaken m disk) {r : Nat} :
    WriteInv env m r fun _ c s => (2 ≤ c ∧ c < 65536) ∧ EntriesKept m disk s.disk ∧
      ReservedKept m disk s.disk where
  granted := hv.works.scratch
  idle := fun _ _ h => h
  hop := by
    rintro h c v buf buf' s s' ⟨_, hkept⟩ hhop hend
    obtain ⟨hdisk, hv16⟩ := hop_cluster_disk hhop
    unfold EndMark at hend
    exact ⟨⟨by omega, hv16⟩, hdisk ▸ hkept⟩
  extend := by
    rintro h c v buf buf' s s' ⟨_, hkept⟩ hhop hend
    obtain ⟨hdisk, hv16⟩ := hop_cluster_disk hhop
    rw [← hdisk] at hkept
    obtain ⟨d, t, hrun, hd, ht, hbefore⟩ := get_free_cluster_keeps hv hharmless
      (hkept.1.reserved hv.accepted.sectors.1 hreserved) hend hv16
    exact ⟨d, t, hv.fatSect_eq ▸ hrun, hd, hkept.1.trans ht, hkept.2.trans hbefore⟩
  round := by
    rintro h c temp temp' s s' buf _ ⟨hc, hkept⟩ hread
    have hdisk := @read_cluster_disk env m (m.clusterSector c) m.bpb.sectPerClust 0 temp s
    rw [hread] at hdisk
    rw [← hdisk] at hkept
    obtain ⟨ht, hbefore⟩ := write_cluster_keeps hv hc.1 hc.2 buf s'
    exact ⟨hc, hkept.1.trans ht, hkept.2.trans hbefore⟩

/-- A write ends with all the bytes, and keeps the entries of the FAT and the first cluster of a
file that has one. -/
theorem write_fat16_keeps (hv : m.Mounted env hi) (hharmless : env.Harmless)
    (hreserved : ReservedTaken m s.disk) {n k : Nat} (hn : 1 ≤ n) (hk : n ≤ k) (buffer : ByteMem)
    (hstart : ¬ EndMark (f.fsSpecific % 65536)) :
    ∃ f' s', writeFat16 env m k f buffer n s = some (n, f', s') ∧
      f'.fsSpecific = f.fsSpecific ∧ EntriesKept m s.disk s'.disk := by
  have hc : 2 ≤ f.fsSpecific % 65536 := by
    unfold EndMark at hstart
    omega
  obtain ⟨f', s', _, hrun, hfile, _, hkept⟩ := write_fat16_inv
    (entries_kept_inv hv hharmless hreserved) hv.clusterSize_pos hn hk buffer
    (first_cluster_kept hstart)
    ⟨⟨hc, Nat.mod_lt _ (by decide)⟩, fun _ _ _ => rfl, fun _ _ _ => rfl⟩
  exact ⟨f', s', hrun, hfile, hkept.1⟩

/-- A write leaves the sectors of the partition before its FATs alone. -/
theorem write_fat16_reserved (hv : m.Mounted env hi) (hharmless : env.Harmless)
    (hreserved : ReservedTaken m s.disk) {n k r : Nat} {buffer : ByteMem} {f' : Fat16File}
    {s' : BlockState} (hn : 1 ≤ n) (hk : n ≤ k)
    (hrun : writeFat16 env m k f buffer n s = some (r, f', s')) :
    ReservedKept m s.disk s'.disk := by
  have hfirst : ∃ f₁ s₁, firstCluster env m f s = some (f₁, s₁) ∧
      (2 ≤ f₁.fsSpecific % 65536 ∧ f₁.fsSpecific % 65536 < 65536) ∧
      EntriesKept m s.disk s₁.disk ∧ ReservedKept m s.disk s₁.disk := by
    by_cases hstart : EndMark (f.fsSpecific % 65536)
    · obtain ⟨d, s₁, hget, hd, hkept, hbefore⟩ := get_free_cluster_keeps hv hharmless hreserved
        hstart (Nat.mod_lt f.fsSpecific (by decide))
      refine ⟨f.withFirst d, s₁, first_cluster_taken hstart (hv.fatSect_eq ▸ hget), ?_, hkept,
        hbefore⟩
      rw [show (f.withFirst d).fsSpecific = d from rfl, Nat.mod_eq_of_lt hd.2]
      exact hd
    · refine ⟨f, s, first_cluster_kept hstart, ⟨?_, Nat.mod_lt _ (by decide)⟩, fun _ _ _ => rfl,
        fun _ _ _ => rfl⟩
      unfold EndMark at hstart
      omega
  obtain ⟨f₁, s₁, hfirst, hP⟩ := hfirst
  obtain ⟨f'', s'', _, hrun', _, _, _, hbefore⟩ :=
    write_fat16_inv (entries_kept_inv hv hharmless hreserved) hv.clusterSize_pos hn hk buffer
      hfirst hP
  simp only [hrun, Option.some.injEq, Prod.mk.injEq] at hrun'
  obtain ⟨_, _, rfl⟩ := hrun'
  exact hbefore

/-! ## The first cluster of an empty file -/

/-- A cluster that `get_free_cluster` can give out and a chain can hold. -/
structure Fat16Mount.Available (m : Fat16Mount) (hi : Nat) (disk : ByteMem) (c : Nat) : Prop where
  data : m.DataCluster hi c
  notMark : c < 0xfff8
  free : fatEntry disk m.fatSect c = 0

theorem Fat16Mount.Available.not_end_mark (hc : m.Available hi disk c) :
    ¬ EndMark (c % 65536) := by
  have htwo := hc.data.two
  have hlt := hc.notMark
  unfold EndMark
  omega

/-- The first zero entry of a FAT with a free cluster is one. -/
theorem first_zero_free (hreserved : ReservedTaken m disk) {d : Nat}
    (hd : m.Available hi disk d) (hc : FirstZero disk m.fatSect c) :
    m.Available hi disk c := by
  have hcd : c ≤ d := by
    by_contra hnot
    exact hc.first d (by omega) hd.free
  have h0 : c ≠ 0 := fun heq => hreserved.zero (heq ▸ hc.zero)
  have h1 : c ≠ 1 := fun heq => hreserved.one (heq ▸ hc.zero)
  have hword := hd.data.word
  have hfat := hd.data.inFat
  have hdata := hd.data.data
  have hmono := @cluster_sect_mono m c d hcd
  have hmark := hd.notMark
  exact ⟨⟨by omega, by omega, by omega, by omega⟩, by omega, hc.zero⟩

/-- What an empty file consists of then. -/
theorem first_cluster_chain (f : Fat16File) (hfats : 1 ≤ m.bpb.fatCount) {cur : Nat}
    (hc : m.Available hi disk c) (halloc : Allocated m.bpb m.fatSect cur c disk disk') :
    m.cluster disk' (f.withFirst c) 0 = some c ∧ m.cluster disk' (f.withFirst c) 1 = none := by
  have hfirst : m.cluster disk' (f.withFirst c) 0 = some c := by
    have hmark := hc.not_end_mark
    show Fat16Mount.startCluster (f.withFirst c) = some c
    unfold Fat16Mount.startCluster
    rw [if_neg hmark, Nat.mod_eq_of_lt hc.data.word]
  refine ⟨hfirst, ?_⟩
  have hentry := halloc.entries 0 hfats c hc.data.inFat
  rw [Nat.zero_mul, Nat.add_zero, if_pos rfl] at hentry
  rw [Fat16Mount.cluster, Chain.nth_succ_of_some hfirst, Fat16Mount.nextCluster, hentry]
  exact if_pos (by decide)

theorem first_cluster_length (f : Fat16File) (hfats : 1 ≤ m.bpb.fatCount) {cur : Nat}
    (hc : m.Available hi disk c) (halloc : Allocated m.bpb m.fatSect cur c disk disk') :
    Chain.HasLength (m.nextCluster disk') (Fat16Mount.startCluster (f.withFirst c))
      ((1 : Nat) : ℕ∞) := by
  obtain ⟨hzero, hone⟩ := first_cluster_chain f hfats hc halloc
  refine Chain.has_length_of_none (fun k hk => ?_) hone
  obtain rfl : k = 0 := by omega
  exact Option.isSome_of_eq_some hzero

/-- Each cluster of the file is that one. -/
theorem first_cluster_only (hfats : 1 ≤ m.bpb.fatCount) {cur k d : Nat}
    (hc : m.Available hi disk c) (halloc : Allocated m.bpb m.fatSect cur c disk disk')
    (hd : m.cluster disk' (f.withFirst c) k = some d) : k = 0 ∧ d = c := by
  obtain ⟨hzero, hone⟩ := first_cluster_chain f hfats hc halloc
  cases k with
  | zero => exact ⟨rfl, Option.some.inj (hd.symm.trans hzero)⟩
  | succ k =>
      rw [Fat16Mount.cluster, Chain.nth_none_of_le hone (by omega)] at hd
      cases hd

/-- The first cluster of a file that was empty is taken. -/
theorem first_cluster_taken_entry (hfats : 1 ≤ m.bpb.fatCount) {c cur : Nat}
    (hc : m.Available hi disk c) (halloc : Allocated m.bpb m.fatSect cur c disk disk') (k d : Nat)
    (hd : m.cluster disk' (f.withFirst c) k = some d) : fatEntry disk' m.fatSect d ≠ 0 := by
  obtain ⟨_, rfl⟩ := first_cluster_only hfats hc halloc hd
  have hset := halloc.entries 0 hfats d hc.data.inFat
  rw [Nat.zero_mul, Nat.add_zero, if_pos rfl] at hset
  omega

/-- As long as the entries are kept, the file has that cluster only. -/
theorem reached_one (hfats : 1 ≤ m.bpb.fatCount) {cur j : Nat} {f' : Fat16File} {disk'' : ByteMem}
    (hc : m.Available hi disk c) (halloc : Allocated m.bpb m.fatSect cur c disk disk')
    (hfirst : f'.fsSpecific = c) (hkept : EntriesKept m disk' disk'')
    (hj : (m.cluster disk'' f' j).isSome) : j = 0 := by
  obtain ⟨hzero, hone⟩ := first_cluster_chain f' hfats hc halloc
  rw [hkept.cluster_after (f := f'.withFirst c) hfirst (chain_ok_single hzero hone hc.data)
    (first_cluster_taken_entry hfats hc halloc)] at hj
  obtain ⟨d, hd⟩ := Option.isSome_iff_exists.mp hj
  exact (first_cluster_only hfats hc halloc hd).1

/-- From its first cluster on the write of an empty file is one of that cluster. -/
theorem write_fat16_first {n k : Nat} {buffer : ByteMem} {f₁ : Fat16File} {s₁ : BlockState}
    (hfirst : firstCluster env m f s = some (f₁, s₁))
    (hstart : ¬ EndMark (f₁.fsSpecific % 65536)) (hn : 1 ≤ n) :
    writeFat16 env m k f buffer n s = writeFat16 env m k f₁ buffer n s₁ := by
  unfold writeFat16
  rw [if_neg (by omega), if_neg (by omega), hfirst, first_cluster_kept hstart]

end Genesis32
