import Genesis32.FileSyst.ReadFat16

/-!
# Sectors of the volume and sectors of the disk

A volume counts its reserved sectors, its FATs and its clusters in sectors of `bytes_per_sect`
bytes, and the driver counts sectors of 512. The loops that `read_fat16` and `write_fat16` share add
the two counts. `takes_defined_iff` compares the bytes they take as a FAT entry and as a cluster
with those that the format defines.
-/

namespace Genesis32

open Word

namespace Fat16Mount

/-- Where the format puts the FAT entry of a cluster. -/
def definedEntry (m : Fat16Mount) (c : Nat) : Nat :=
  512 * m.startSect + m.bpb.reservedSectors * m.bpb.bytesPerSect + 2 * c

/-- Where the format puts a cluster. -/
def definedCluster (m : Fat16Mount) (c : Nat) : Nat :=
  512 * m.startSect + (m.bpb.reservedSectors + m.bpb.fatCount * m.bpb.sectorsPerFat +
    (32 * m.bpb.rootEntryCount + (m.bpb.bytesPerSect - 1)) / m.bpb.bytesPerSect +
    (c - 2) * m.bpb.sectPerClust) * m.bpb.bytesPerSect

/-- The sector of the entry and the cluster, as the format defines them, are on the disk. -/
structure DefinedOnDisk (m : Fat16Mount) (env : BlockEnv) (c : Nat) : Prop where
  entry : 512 * m.startSect + (m.bpb.reservedSectors + 2 * c / m.bpb.bytesPerSect + 1) *
    m.bpb.bytesPerSect ≤ 512 * env.sectCount
  data : m.definedCluster c + m.clusterSize ≤ 512 * env.sectCount

/-- The hop and the loops over the sectors of a cluster take the bytes that the format defines. -/
structure TakesDefined (m : Fat16Mount) (env : BlockEnv) (c : Nat) (buf : ByteMem)
    (s : BlockState) : Prop where
  entry : (hopCluster env m c buf s).1 = s.disk.word16 (m.definedEntry c)
  read : ∀ x < m.clusterSize,
    (readCluster env m (m.clusterSector c) m.bpb.sectPerClust 0 buf s).1 x =
      s.disk (m.definedCluster c + x)
  write : (writeCluster env m (m.clusterSector c) m.bpb.sectPerClust 0 buf s).disk =
    s.disk.copy (m.definedCluster c) buf 0 m.clusterSize

end Fat16Mount

variable {env : BlockEnv} {m : Fat16Mount} {c : Nat}

/-- A read stores nothing in front of its place in the buffer. -/
theorem read_block_before (env : BlockEnv) (lba total : Nat) (buf : ByteMem) {a x : Nat}
    (hx : x < a) (s : BlockState) : (s.readBlock env lba total buf a).1 x = buf x := by
  unfold BlockState.readBlock
  split_ifs
  · rfl
  · exact ByteMem.copy_outside (by omega)

/-- Nor does the loop over the sectors of a cluster. -/
theorem read_cluster_before (env : BlockEnv) (m : Fat16Mount) (sect : Nat) :
    ∀ (r q : Nat) (buf : ByteMem) (s : BlockState) (x : Nat), x < q * m.bpb.bytesPerSect →
      (readCluster env m sect r q buf s).1 x = buf x := by
  intro r
  induction r with
  | zero => exact fun _ _ _ _ _ => rfl
  | succ r ih =>
      intro q buf s x hx
      rw [readCluster, ih (q + 1) _ _ x (by rw [Nat.succ_mul]; omega)]
      exact read_block_before env _ _ buf hx s

/-- With sectors of 512 bytes the two counts agree. -/
theorem takes_defined_of_512 (hworks : env.Works) (h512 : m.Sectors512) (hc : 2 ≤ c)
    (hc16 : c < 65536) (hdisk : m.DefinedOnDisk env c) (buf : ByteMem) (s : BlockState) :
    m.TakesDefined env c buf s := by
  have hcluster : m.definedCluster c = 512 * m.clusterSect c := by
    unfold Fat16Mount.definedCluster Fat16Mount.clusterSect Fat16Mount.dataSect Fat16Mount.fatSect
    rw [h512.bytes, Nat.mul_comm m.bpb.fatCount, Nat.mul_comm 32]
    generalize m.bpb.sectorsPerFat * m.bpb.fatCount = fats
    generalize (c - 2) * m.bpb.sectPerClust = before
    omega
  have hdata : m.clusterSect c + m.bpb.sectPerClust ≤ env.sectCount := by
    have hend := hdisk.data
    rw [hcluster, h512.clusterSize_eq] at hend
    omega
  have hfat : m.fatSect + c / 256 < env.sectCount := by
    have hend := hdisk.entry
    rw [h512.bytes] at hend
    unfold Fat16Mount.fatSect
    omega
  have hsect : m.clusterSector c = m.clusterSect c :=
    cluster_sector_eq hworks hc hc16 (Nat.le_trans (Nat.le_add_right _ _) hdata)
  refine ⟨?_, fun x hx => ?_, ?_⟩
  · obtain ⟨buf', hhop⟩ := hop_cluster_ok hworks h512 hfat buf s
    rw [hhop]
    unfold fatEntry fatEntryAddr Fat16Mount.definedEntry Fat16Mount.fatSect
    rw [h512.bytes, Nat.mul_add, Nat.mul_comm 512 m.bpb.reservedSectors]
  · obtain ⟨buf', commands, hread, _, hbytes⟩ :=
      read_cluster_ok hworks h512 hdata m.bpb.sectPerClust 0 buf s (Nat.zero_add _)
    rw [hsect, hread, hcluster]
    exact hbytes x (by omega) hx
  · have hwrite := write_cluster_ok hworks h512 hdata buf m.bpb.sectPerClust 0 s (Nat.zero_add _)
    rw [hsect, hwrite.disk, hcluster, h512.clusterSize_eq]
    rfl

/-- With longer sectors the code takes every cluster from further ahead on the disk. -/
theorem cluster_before_defined (hbpb : m.bpb.Accepted m.startSect)
    (hbytes : m.bpb.bytesPerSect ≠ 512) (hdisk : m.DefinedOnDisk env c) :
    512 * m.clusterSect c < m.definedCluster c ∧
      m.clusterSect c + m.bpb.bytesPerSect / 512 ≤ env.sectCount := by
  have hend := hdisk.data
  have hfats : 1 ≤ m.bpb.sectorsPerFat * m.bpb.fatCount :=
    Nat.mul_pos hbpb.sectors.1 hbpb.fats.1
  have hclust : m.bpb.bytesPerSect ≤ m.clusterSize := Nat.le_mul_of_pos_right _ hbpb.clust.1
  unfold Fat16Mount.definedCluster at *
  unfold Fat16Mount.clusterSect Fat16Mount.dataSect Fat16Mount.fatSect
  rw [Nat.mul_comm m.bpb.fatCount, Nat.mul_comm 32] at *
  generalize m.bpb.sectorsPerFat * m.bpb.fatCount = fats at *
  generalize (c - 2) * m.bpb.sectPerClust = before at *
  generalize (m.bpb.rootEntryCount * 32 + (m.bpb.bytesPerSect - 1)) / m.bpb.bytesPerSect = root at *
  rcases hbpb.bytes with h | h | h | h
  · exact absurd h hbytes
  · rw [h] at hend hclust ⊢
    omega
  · rw [h] at hend hclust ⊢
    omega
  · rw [h] at hend hclust ⊢
    omega

/-- The disk that is zero except for the first byte of a cluster, as the format defines it. -/
def markedDisk (m : Fat16Mount) (c : Nat) : BlockState :=
  ⟨fun x => if x = m.definedCluster c then 0x01 else 0x00, 0, 0, [], false⟩

/-- With longer sectors there is, for every cluster, a disk from which the code takes other bytes.
-/
theorem not_takes_marked (hworks : env.Works) (hbpb : m.bpb.Accepted m.startSect)
    (hbytes : m.bpb.bytesPerSect ≠ 512) (hc : 2 ≤ c) (hc16 : c < 65536)
    (hdisk : m.DefinedOnDisk env c) (buf : ByteMem) :
    ¬ m.TakesDefined env c buf (markedDisk m c) := by
  intro htakes
  obtain ⟨hbefore, hend⟩ := cluster_before_defined hbpb hbytes hdisk
  have hlong : 512 ≤ m.bpb.bytesPerSect ∧ 1 ≤ m.bpb.bytesPerSect / 512 := by
    have := hbpb.bytes
    omega
  have hpos : 0 < m.clusterSize := Nat.mul_pos (by omega) hbpb.clust.1
  have hsect : m.clusterSector c = m.clusterSect c :=
    cluster_sector_eq hworks hc hc16 (Nat.le_trans (Nat.le_add_right _ _) hend)
  -- the first sector that the loop reads brings the first byte
  have hread := htakes.read 0 hpos
  obtain ⟨r, hr⟩ : ∃ r, m.bpb.sectPerClust = r + 1 := ⟨m.bpb.sectPerClust - 1, by
    have := hbpb.clust.1
    omega⟩
  have hfit : m.clusterSect c + 0 < 4294967296 := by
    have := hworks.size
    omega
  rw [hsect, hr, readCluster, read_cluster_before _ _ _ _ _ _ _ _ (by omega), add32_of_lt hfit,
    Nat.add_zero, read_block_ok hworks hend] at hread
  have hfirst : (markedDisk m c).disk (512 * m.clusterSect c) = 0x01 := by
    have hin : ByteMem.copy buf (0 * m.bpb.bytesPerSect) (markedDisk m c).disk
        (512 * m.clusterSect c) (512 * (m.bpb.bytesPerSect / 512)) 0 =
          (markedDisk m c).disk (512 * m.clusterSect c) := by
      rw [ByteMem.copy_inside (by omega) (by omega)]
      congr 1
      omega
    rw [← hin]
    refine hread.trans ?_
    exact if_pos rfl
  have hzero : (markedDisk m c).disk (512 * m.clusterSect c) = 0x00 := if_neg (Nat.ne_of_lt hbefore)
  rw [hzero] at hfirst
  exact absurd hfirst (by decide)

/-- For every accepted block and every cluster, the code takes the bytes that the format defines, on
every disk, exactly when a sector has 512 bytes. -/
theorem takes_defined_iff (hworks : env.Works)
    (hbpb : m.bpb.Accepted m.startSect) (hc : 2 ≤ c) (hc16 : c < 65536)
    (hdisk : m.DefinedOnDisk env c) :
    (∀ buf s, m.TakesDefined env c buf s) ↔ m.bpb.bytesPerSect = 512 := by
  constructor
  · intro htakes
    by_contra hbytes
    exact not_takes_marked hworks hbpb hbytes hc hc16 hdisk (fun _ => 0x00) (htakes _ _)
  · exact fun hbytes =>
      takes_defined_of_512 hworks ⟨hbytes, hbpb.clust.1⟩ hc hc16 hdisk

/-- A cluster of the small disk, with sectors of 512 bytes. -/
theorem takes_defined_iff_small :
    (∀ buf s, smallMount.TakesDefined smallEnv 2 buf s) ↔ smallMount.bpb.bytesPerSect = 512 :=
  takes_defined_iff small_volume.works
    ⟨by decide, by decide, by decide, by decide, by decide, by decide, rfl, rfl, rfl⟩ (by decide)
    (by decide) ⟨by decide, by decide⟩

/-- A boot sector with sectors of 1024 bytes: one reserved, one FAT of one, one for the root and one
in a cluster. -/
def wideSect0 : ByteMem := fun x =>
  if x = 0x0c then 0x04
  else if x = 0x0d ∨ x = 0x0e ∨ x = 0x10 ∨ x = 0x16 then 0x01
  else if x = 0x11 then 0x20
  else 0x00

def wideMount : Fat16Mount := ⟨0, fillBpb 0 wideSect0⟩

def wideEnv : BlockEnv := { smallEnv with sectCount := 16 }

/-- The block is accepted, the first cluster is on the disk from byte 3072 on, and the code takes
byte 1536 for its first. For the entry of the cluster it takes byte 516 and not byte 1028. -/
theorem wide_sectors_not_taken :
    parsePartitionFillBpbFat16 0 0 wideSect0 = some wideMount.bpb ∧
    wideMount.bpb.bytesPerSect = 1024 ∧ wideMount.definedCluster 2 = 3072 ∧
    wideMount.definedEntry 2 = 1028 ∧ wideMount.clusterSize = 1024 ∧
    ¬ wideMount.TakesDefined wideEnv 2 (fun _ => 0x00) (markedDisk wideMount 2) ∧
    ∀ marked : BlockState, marked = ⟨fun x => if x = 1028 then 0x01 else 0x00, 0, 0, [], false⟩ →
      (hopCluster wideEnv wideMount 2 (fun _ => 0x00) marked).1 = 0 ∧
      marked.disk.word16 1028 = 1 := by
  have hread : (readCluster wideEnv wideMount (wideMount.clusterSector 2) 1 0 (fun _ => 0x00)
      (markedDisk wideMount 2)).1 0 = 0x00 := by decide +kernel
  refine ⟨by decide +kernel, by decide +kernel, by decide +kernel, by decide +kernel,
    by decide +kernel, fun htakes => ?_, fun marked hmarked => ?_⟩
  · have hdefined : (markedDisk wideMount 2).disk (wideMount.definedCluster 2 + 0) = 0x01 := by
      decide +kernel
    have hfirst := htakes.read 0 (by decide +kernel)
    rw [hdefined] at hfirst
    exact absurd (hread.symm.trans hfirst) (by decide)
  · rw [hmarked]
    exact ⟨by decide +kernel, by decide +kernel⟩

end Genesis32
