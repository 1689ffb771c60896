import Genesis32.Library.Chain
import Genesis32.FileSyst.FreeCluster

/-!
# The clusters of a file

What `read_fat16` and `write_fat16` of `file_syst/fat16.c` share: where a FAT entry and a cluster
lie on the disk, the hop from a cluster to the next one in the FAT and the loops that move a cluster
sector by sector. The chain of a file is `Chain.nth` of `nextCluster`, whatever the FAT holds.
-/

namespace Genesis32

open Word

/-- What the file functions read of a mount entry: `mnt_part->start_sect` and `fs_bpb`. -/
structure Fat16Mount where
  startSect : Nat
  bpb : Fat16Bpb

/-- `struct file` with the fields of its `struct vfs_node` that the file functions use. -/
structure Fat16File where
  offset : Nat
  fsSpecific : Nat
  size : Nat
  dirtyBit : Nat

namespace Fat16Mount

/-- `bpb->bytes_per_sect*bpb->sect_per_clust`. -/
def clusterSize (m : Fat16Mount) : Nat := m.bpb.bytesPerSect * m.bpb.sectPerClust

/-- The local `temp`: the sectors of the partition before its data. -/
def dataOffset (m : Fat16Mount) : Nat :=
  add32 (add32 m.bpb.reservedSectors (m.bpb.sectorsPerFat * m.bpb.fatCount))
    ((m.bpb.rootEntryCount * 32 + (m.bpb.bytesPerSect - 1)) / m.bpb.bytesPerSect)

/-- The sector of the FAT that holds the entry of a cluster. -/
def entrySector (m : Fat16Mount) (cur : Nat) : Nat :=
  add32 m.startSect (add32 m.bpb.reservedSectors (cur * 2 / m.bpb.bytesPerSect))

/-- The sector where a cluster starts. -/
def clusterSector (m : Fat16Mount) (cur : Nat) : Nat :=
  add32 (add32 m.startSect m.dataOffset) (mul32 (sub32 cur 2) m.bpb.sectPerClust)

end Fat16Mount

/-! ## The loops -/

/-- The hop from a cluster to what the FAT holds for it, with the buffer `single_cluster`. -/
def hopCluster (env : BlockEnv) (m : Fat16Mount) (cur : Nat) (singleCluster : ByteMem)
    (s : BlockState) : Nat × ByteMem × BlockState :=
  match s.readBlock env (m.entrySector cur) (m.bpb.bytesPerSect / 512) singleCluster 0 with
  | (singleCluster, s) => (singleCluster.word16 (cur * 2 % m.bpb.bytesPerSect), singleCluster, s)

/-- The loop that reads a cluster from the sector `sect` on into `cluster_temp`, with `r` sectors
left. -/
def readCluster (env : BlockEnv) (m : Fat16Mount) (sect : Nat) :
    Nat → Nat → ByteMem → BlockState → ByteMem × BlockState
  | 0, _, clusterTemp, s => (clusterTemp, s)
  | r + 1, q, clusterTemp, s =>
      match s.readBlock env (add32 sect q) (m.bpb.bytesPerSect / 512) clusterTemp
        (q * m.bpb.bytesPerSect) with
      | (clusterTemp, s) => readCluster env m sect r (q + 1) clusterTemp s

/-- The loop that writes a cluster from the sector `sect` on from `cluster_temp`, with `r` sectors
left. -/
def writeCluster (env : BlockEnv) (m : Fat16Mount) (sect : Nat) :
    Nat → Nat → ByteMem → BlockState → BlockState
  | 0, _, _, s => s
  | r + 1, q, clusterTemp, s =>
      writeCluster env m sect r (q + 1) clusterTemp
        (s.writeBlock env (add32 sect q) (m.bpb.bytesPerSect / 512) clusterTemp
          (q * m.bpb.bytesPerSect))

/-! ## Chains of clusters -/

namespace Fat16Mount

/-- The first sector of the first FAT. -/
abbrev fatSect (m : Fat16Mount) : Nat := m.startSect + m.bpb.reservedSectors

/-- The first sector of the data. -/
def dataSect (m : Fat16Mount) : Nat :=
  m.fatSect + m.bpb.sectorsPerFat * m.bpb.fatCount +
    (m.bpb.rootEntryCount * 32 + (m.bpb.bytesPerSect - 1)) / m.bpb.bytesPerSect

/-- The first sector of a cluster. -/
def clusterSect (m : Fat16Mount) (c : Nat) : Nat := m.dataSect + (c - 2) * m.bpb.sectPerClust

/-- The first byte of a cluster. -/
def clusterAddr (m : Fat16Mount) (c : Nat) : Nat := 512 * m.clusterSect c

/-- The cluster that the FAT holds for a cluster. -/
def nextCluster (m : Fat16Mount) (disk : ByteMem) (c : Nat) : Option Nat :=
  if EndMark (fatEntry disk m.fatSect c) then none else some (fatEntry disk m.fatSect c)

/-- The first cluster of a file. -/
def startCluster (f : Fat16File) : Option Nat :=
  if EndMark (f.fsSpecific % 65536) then none else some (f.fsSpecific % 65536)

/-- The `k`-th cluster of a file. -/
def cluster (m : Fat16Mount) (disk : ByteMem) (f : Fat16File) (k : Nat) : Option Nat :=
  Chain.nth (m.nextCluster disk) (startCluster f) k

/-- Where on the disk a position of the clusters of a file lies, in the order of the chain. -/
def chainAddr (m : Fat16Mount) (disk : ByteMem) (f : Fat16File) (p : Nat) : Option Nat :=
  (m.cluster disk f (p / m.clusterSize)).map fun c => m.clusterAddr c + p % m.clusterSize

/-- The byte at a position of the clusters of a file. -/
def chainByte (m : Fat16Mount) (disk : ByteMem) (f : Fat16File) (p : Nat) : Option UInt8 :=
  (m.chainAddr disk f p).map disk

/-- The sectors of a cluster and the sector of its FAT entry are on the disk. -/
structure OnDisk (m : Fat16Mount) (env : BlockEnv) (c : Nat) : Prop where
  entry : m.fatSect + c / 256 < env.sectCount
  data : m.clusterSect c + m.bpb.sectPerClust ≤ env.sectCount

end Fat16Mount

variable {env : BlockEnv} {m : Fat16Mount} {s : BlockState} {c : Nat}

theorem not_end_mark_next {disk : ByteMem} {a : Nat} (h : m.nextCluster disk c = some a) :
    ¬ EndMark a ∧ a = fatEntry disk m.fatSect c := by
  unfold Fat16Mount.nextCluster at h
  split_ifs at h with hend
  obtain rfl := Option.some.inj h
  exact ⟨hend, rfl⟩

/-- No cluster of a file is an end mark. -/
theorem not_end_mark_cluster {disk : ByteMem} {f : Fat16File} {k : Nat}
    (h : m.cluster disk f k = some c) : ¬ EndMark c := by
  cases k with
  | zero =>
      change Fat16Mount.startCluster f = some c at h
      unfold Fat16Mount.startCluster at h
      split_ifs at h with hend
      obtain rfl := Option.some.inj h
      exact hend
  | succ k =>
      obtain ⟨a, _, ha⟩ := Option.bind_eq_some_iff.mp h
      exact (not_end_mark_next ha).1

/-- The 512-byte sectors and the clusters of a mounted volume. -/
structure Fat16Mount.Sectors512 (m : Fat16Mount) : Prop where
  bytes : m.bpb.bytesPerSect = 512
  clust : 1 ≤ m.bpb.sectPerClust

theorem Fat16Mount.Sectors512.clusterSize_eq (h : m.Sectors512) :
    m.clusterSize = 512 * m.bpb.sectPerClust := by
  unfold Fat16Mount.clusterSize
  rw [h.bytes]

theorem Fat16Mount.Sectors512.clusterSize_pos (h : m.Sectors512) : 0 < m.clusterSize := by
  have := h.clust
  rw [h.clusterSize_eq]
  omega

theorem entry_sector_eq (hworks : env.Works) (h512 : m.Sectors512)
    (hdisk : m.fatSect + c / 256 < env.sectCount) : m.entrySector c = m.fatSect + c / 256 := by
  have hsize := hworks.size
  unfold Fat16Mount.fatSect at *
  unfold Fat16Mount.entrySector
  rw [h512.bytes, show c * 2 / 512 = c / 256 by omega]
  simp only [add32]
  omega

theorem cluster_sector_eq (hworks : env.Works) (hc : 2 ≤ c) (hc16 : c < 65536)
    (hdisk : m.clusterSect c ≤ env.sectCount) : m.clusterSector c = m.clusterSect c := by
  have hsize := hworks.size
  unfold Fat16Mount.clusterSect Fat16Mount.dataSect Fat16Mount.fatSect at *
  unfold Fat16Mount.clusterSector Fat16Mount.dataOffset
  generalize (m.bpb.rootEntryCount * 32 + (m.bpb.bytesPerSect - 1)) / m.bpb.bytesPerSect = root at *
  generalize m.bpb.sectorsPerFat * m.bpb.fatCount = fats at *
  rw [sub32_of_le hc (by omega), mul32_of_lt (show (c - 2) * m.bpb.sectPerClust < _ by omega)]
  generalize (c - 2) * m.bpb.sectPerClust = before at *
  rw [add32_of_lt (show m.bpb.reservedSectors + fats < _ by omega),
    add32_of_lt (show m.bpb.reservedSectors + fats + root < _ by omega),
    add32_of_lt (show m.startSect + (m.bpb.reservedSectors + fats + root) < _ by omega),
    add32_of_lt (by omega)]
  omega

/-! ## Positions in a chain -/

theorem cluster_lt {disk : ByteMem} {f : Fat16File} {k : Nat} (h : m.cluster disk f k = some c) :
    2 ≤ c ∧ c < 65536 := by
  have hend := not_end_mark_cluster h
  unfold EndMark at hend
  omega

/-- A position inside the `q`-th block of `size` bytes. -/
theorem block_pos {size x : Nat} (q : Nat) (hx : x < size) :
    (q * size + x) / size = q ∧ (q * size + x) % size = x := by
  have hdiv : (q * size + x) / size = q := by
    rw [Nat.mul_comm, Nat.mul_add_div (by omega), Nat.div_eq_of_lt hx, Nat.add_zero]
  refine ⟨hdiv, ?_⟩
  rw [Nat.mul_comm, Nat.mul_add_mod, Nat.mod_eq_of_lt hx]

theorem chain_addr_eq {disk : ByteMem} {f : Fat16File} {q x : Nat} (hx : x < m.clusterSize)
    (hc : m.cluster disk f q = some c) :
    m.chainAddr disk f (q * m.clusterSize + x) = some (m.clusterAddr c + x) := by
  unfold Fat16Mount.chainAddr
  rw [(block_pos q hx).1, (block_pos q hx).2, hc, Option.map_some]

theorem chain_byte_eq {disk : ByteMem} {f : Fat16File} {q x : Nat} (hx : x < m.clusterSize)
    (hc : m.cluster disk f q = some c) :
    m.chainByte disk f (q * m.clusterSize + x) = some (disk (m.clusterAddr c + x)) := by
  unfold Fat16Mount.chainByte
  rw [chain_addr_eq hx hc, Option.map_some]

/-! ## What the loops do -/

/-- A hop reads the entry of the cluster in the first FAT. -/
theorem hop_cluster_ok (hworks : env.Works) (h512 : m.Sectors512)
    (hdisk : m.fatSect + c / 256 < env.sectCount) (buf : ByteMem) (s : BlockState) :
    ∃ buf', hopCluster env m c buf s =
      (fatEntry s.disk m.fatSect c, buf', { s with commands := s.commands + 1 }) := by
  refine ⟨buf.copy 0 s.disk (512 * (m.fatSect + c / 256)) (512 * 1), ?_⟩
  have hword := word16_sector buf s.disk m.fatSect (c / 256) (Nat.mod_lt c (by decide : 0 < 256))
  rw [Nat.div_add_mod c 256] at hword
  unfold hopCluster
  rw [h512.bytes, entry_sector_eq hworks h512 hdisk, show 512 / 512 = 1 from rfl,
    read_block_ok hworks hdisk]
  simp only [show c * 2 % 512 = 2 * (c % 256) by omega, hword]

/-- A hop leaves the disk alone and ends with a word. -/
theorem hop_cluster_disk {v : Nat} {buf buf' : ByteMem} {s' : BlockState}
    (h : hopCluster env m c buf s = (v, buf', s')) : s'.disk = s.disk ∧ v < 65536 := by
  have hdisk := read_block_disk env (m.entrySector c) (m.bpb.bytesPerSect / 512) buf 0 s
  unfold hopCluster at h
  generalize s.readBlock env (m.entrySector c) (m.bpb.bytesPerSect / 512) buf 0 = r at h hdisk
  obtain ⟨rfl, hrest⟩ := Prod.mk.inj h
  obtain ⟨_, rfl⟩ := Prod.mk.inj hrest
  exact ⟨hdisk, ByteMem.word16_lt _ _⟩

/-- So does the loop that reads a cluster leave the disk. -/
theorem read_cluster_disk {sect : Nat} : ∀ (r q : Nat) (buf : ByteMem) (s : BlockState),
    (readCluster env m sect r q buf s).2.disk = s.disk := by
  intro r
  induction r with
  | zero => exact fun _ _ _ => rfl
  | succ r ih =>
      intro q buf s
      rw [readCluster, ih]
      exact read_block_disk ..

/-- The loop that writes a cluster leaves every other sector alone. -/
theorem write_cluster_outside (hbytes : m.bpb.bytesPerSect = 512) {sect x : Nat} (buf : ByteMem) :
    ∀ (r q : Nat) (s : BlockState), (∀ j, q ≤ j → j < q + r →
        x < 512 * add32 sect j ∨ 512 * (add32 sect j + 1) ≤ x) →
      (writeCluster env m sect r q buf s).disk x = s.disk x := by
  intro r
  induction r with
  | zero => exact fun _ _ _ => rfl
  | succ r ih =>
      intro q s hx
      rw [writeCluster, ih (q + 1) _ fun j hj hj' => hx j (by omega) (by omega), hbytes]
      exact write_block_outside (hx q le_rfl (by omega)) buf _ s

/-- The loop that reads a cluster brings its bytes. -/
theorem read_cluster_ok (hworks : env.Works) (h512 : m.Sectors512) {sect : Nat}
    (hdisk : sect + m.bpb.sectPerClust ≤ env.sectCount) :
    ∀ (r q : Nat) (buf : ByteMem) (s : BlockState), q + r = m.bpb.sectPerClust →
      ∃ (buf' : ByteMem) (commands : Nat), readCluster env m sect r q buf s =
        (buf', { s with commands := commands }) ∧ (∀ x < 512 * q, buf' x = buf x) ∧
        ∀ x, 512 * q ≤ x → x < m.clusterSize → buf' x = s.disk (512 * sect + x) := by
  have hsize := hworks.size
  intro r
  induction r with
  | zero =>
      intro q buf s hq
      refine ⟨buf, s.commands, rfl, fun _ _ => rfl, fun x hx hlt => ?_⟩
      rw [h512.clusterSize_eq] at hlt
      omega
  | succ r ih =>
      intro q buf s hq
      have hlast : sect + q + 1 ≤ env.sectCount := by omega
      obtain ⟨buf', commands, hrun, hbefore, hafter⟩ := ih (q + 1)
        (buf.copy (q * 512) s.disk (512 * (sect + q)) (512 * 1))
        { s with commands := s.commands + 1 } (by omega)
      have hone : 512 / 512 = 1 := rfl
      rw [readCluster, h512.bytes, hone, add32_of_lt (by omega), read_block_ok hworks hlast]
      refine ⟨buf', commands, hrun, fun x hx => ?_, fun x hx hlt => ?_⟩
      · rw [hbefore x (by omega), ByteMem.copy_outside (by omega)]
      · by_cases hin : x < 512 * (q + 1)
        · rw [hbefore x hin, ByteMem.copy_inside (by omega) (by omega)]
          congr 1
          omega
        · exact hafter x (by omega) hlt

/-- The loop that writes a cluster replaces its bytes. -/
theorem write_cluster_ok (hworks : env.Works) (h512 : m.Sectors512) {sect : Nat}
    (hdisk : sect + m.bpb.sectPerClust ≤ env.sectCount) (buf : ByteMem) :
    ∀ (r q : Nat) (s : BlockState), q + r = m.bpb.sectPerClust →
      IoEffect sect (sect + m.bpb.sectPerClust) s (writeCluster env m sect r q buf s)
        (s.disk.copy (512 * sect + 512 * q) buf (512 * q) (512 * r)) := by
  have hsize := hworks.size
  intro r
  induction r with
  | zero =>
      intro q s _
      rw [Nat.mul_zero, ByteMem.copy_zero]
      exact IoEffect.refl _ _ s
  | succ r ih =>
      intro q s hq
      have hone : 512 / 512 = 1 := rfl
      rw [writeCluster, h512.bytes, hone, add32_of_lt (by omega)]
      have hwrite : IoEffect sect (sect + m.bpb.sectPerClust) s
          (s.writeBlock env (sect + q) 1 buf (q * 512))
          (s.disk.copy (512 * (sect + q)) buf (q * 512) (512 * 1)) :=
        IoEffect.write hworks (by omega) (by omega) (by omega) buf (q * 512) s
      have hrest := ih (q + 1) (s.writeBlock env (sect + q) 1 buf (q * 512)) (by omega)
      have hjoin := ByteMem.copy_append s.disk buf (512 * sect + 512 * q) (512 * q) 512 (512 * r)
      rw [hwrite.disk, show 512 * (sect + q) = 512 * sect + 512 * q by omega,
        show q * 512 = 512 * q by omega, Nat.mul_one,
        show 512 * sect + 512 * (q + 1) = 512 * sect + 512 * q + 512 by omega,
        show 512 * (q + 1) = 512 * q + 512 by omega, hjoin,
        show 512 + 512 * r = 512 * (r + 1) by omega] at hrest
      rw [show q * 512 = 512 * q by omega] at hwrite ⊢
      exact hwrite.trans hrest

end Genesis32
