import Genesis32.Disk.BlockIO
import Genesis32.FileSyst.Bpb

/-!
# Allocating a cluster

`get_free_cluster` of `file_syst/fat16.c`: the search for the first zero entry of the FAT, the edit
of the first FAT and the loop that repeats the edit in the other FATs. Where the search finds
nothing, that loop runs with locals that nothing has set.
-/

namespace Genesis32

open Word

/-- An entry is an end mark if no cluster follows: `>=0xfff8 || <0x0002`. -/
abbrev EndMark (v : Nat) : Prop := v ≥ 0xfff8 ∨ v < 0x0002

/-- The entries in a sector of the FAT: `bpb->bytes_per_sect/2`. -/
abbrev Fat16Bpb.entriesPerSect (b : Fat16Bpb) : Nat := b.bytesPerSect / 2

/-! ## The search -/

/-- The inner `for` of `get_free_cluster`, with `r` entries left. -/
def firstZero (singleSect : ByteMem) : Nat → Nat → Option Nat
  | 0, _ => none
  | r + 1, j =>
      if singleSect.word16 (2 * j) = 0x0000 then some j else firstZero singleSect r (j + 1)

/-- The outer `for` of `get_free_cluster` up to the edit, with `r` sectors left: the sector and the
entry that are found, and the buffer, in which the entry is then taken. -/
def scanFat (env : BlockEnv) (b : Fat16Bpb) (startFat : Nat) :
    Nat → Nat → ByteMem → BlockState → Option (Nat × Nat) × ByteMem × BlockState
  | 0, _, singleSect, s => (none, singleSect, s)
  | r + 1, i, singleSect, s =>
      match s.readBlock env (add32 startFat i) 1 singleSect 0 with
      | (singleSect, s) =>
          match firstZero singleSect b.entriesPerSect 0 with
          | some j => (some (i, j), singleSect.setWord16 (2 * j) 0xffff, s)
          | none => scanFat env b startFat r (i + 1) singleSect s

/-! ## The edit -/

/-- The locals of `get_free_cluster` after the first loop. -/
structure FreeCluster where
  newClusterNumber : Nat
  newClusterSector : Nat
  newSectOffset : Nat
  curClusterSectNo : Nat

/-- The rest of the first loop, for the entry `j` of the sector `i`. -/
def linkCluster (env : BlockEnv) (b : Fat16Bpb) (startFat curCluster i j : Nat)
    (singleSect : ByteMem) (s : BlockState) : FreeCluster × ByteMem × BlockState :=
  let newClusterNumber := (i * b.entriesPerSect + j) % 65536
  if EndMark curCluster then
    (⟨newClusterNumber, i, j, 0xffff⟩, singleSect,
      s.writeBlock env (add32 startFat i) 1 singleSect 0)
  else
    let curClusterSectNo := curCluster / b.entriesPerSect
    let curSectOffset := curCluster % b.entriesPerSect
    if curClusterSectNo = i then
      let singleSect := singleSect.setWord16 (2 * curSectOffset) newClusterNumber
      (⟨newClusterNumber, i, j, curClusterSectNo⟩, singleSect,
        s.writeBlock env (add32 startFat curClusterSectNo) 1 singleSect 0)
    else
      let s := s.writeBlock env (add32 startFat i) 1 singleSect 0
      match s.readBlock env (add32 startFat curClusterSectNo) 1 singleSect 0 with
      | (singleSect, s) =>
          let singleSect := singleSect.setWord16 (2 * curSectOffset) newClusterNumber
          (⟨newClusterNumber, i, j, curClusterSectNo⟩, singleSect,
            s.writeBlock env (add32 startFat curClusterSectNo) 1 singleSect 0)

/-- `single_sect[new_sect_offset]=0xffff;`, which goes astray when nothing has been found. -/
def takeEntry (b : Fat16Bpb) (newSectOffset : Nat) (singleSect : ByteMem) (s : BlockState) :
    ByteMem × BlockState :=
  if newSectOffset < b.entriesPerSect then (singleSect.setWord16 (2 * newSectOffset) 0xffff, s)
  else (singleSect, { s with stray := true })

/-- One round of the mirror loop, for the FAT that starts at `fat`. -/
def mirrorFat (env : BlockEnv) (b : Fat16Bpb) (fat curCluster : Nat) (n : FreeCluster)
    (singleSect : ByteMem) (s : BlockState) : ByteMem × BlockState :=
  match s.readBlock env (add32 fat n.newClusterSector) 1 singleSect 0 with
  | (singleSect, s) =>
      match takeEntry b n.newSectOffset singleSect s with
      | (singleSect, s) =>
          let curSectOffset := curCluster % b.entriesPerSect
          if n.newClusterSector = n.curClusterSectNo then
            let singleSect := singleSect.setWord16 (2 * curSectOffset) n.newClusterNumber
            (singleSect, s.writeBlock env (add32 fat n.newClusterSector) 1 singleSect 0)
          else
            let s := s.writeBlock env (add32 fat n.newClusterSector) 1 singleSect 0
            if n.curClusterSectNo ≥ 0xfff8 then (singleSect, s)
            else
              match s.readBlock env (add32 fat n.curClusterSectNo) 1 singleSect 0 with
              | (singleSect, s) =>
                  let singleSect := singleSect.setWord16 (2 * curSectOffset) n.newClusterNumber
                  (singleSect, s.writeBlock env (add32 fat n.curClusterSectNo) 1 singleSect 0)

/-- The mirror loop, with `r` FATs left. -/
def mirrorFats (env : BlockEnv) (b : Fat16Bpb) (startFat curCluster : Nat) (n : FreeCluster) :
    Nat → Nat → ByteMem → BlockState → BlockState
  | 0, _, _, s => s
  | r + 1, i, singleSect, s =>
      match mirrorFat env b (add32 startFat (i * b.sectorsPerFat)) curCluster n singleSect s with
      | (singleSect, s) => mirrorFats env b startFat curCluster n r (i + 1) singleSect s

/-- `get_free_cluster`: the cluster, and no result where the scratch memory is NULL. -/
def getFreeCluster (env : BlockEnv) (b : Fat16Bpb) (startFat curCluster : Nat) (s : BlockState) :
    Option (Nat × BlockState) :=
  (s.heapCreamMalloc env).map fun r =>
    match scanFat env b startFat b.sectorsPerFat 0 r.1 r.2 with
    | (some (i, j), singleSect, t) =>
        match linkCluster env b startFat curCluster i j singleSect t with
        | (n, singleSect, t) =>
            (n.newClusterNumber,
              mirrorFats env b startFat curCluster n (b.fatCount - 1) 1 singleSect t)
    | (none, singleSect, t) =>
        let n : FreeCluster := ⟨0xffff, env.newClusterSector s.mallocs, 0xffffffff,
          env.curClusterSectNo s.mallocs⟩
        (0xffff, mirrorFats env b startFat curCluster n (b.fatCount - 1) 1 singleSect t)

/-! ## What a search finds -/

theorem first_zero_none {buf : ByteMem} {r : Nat} :
    ∀ j, (∀ k, j ≤ k → k < j + r → buf.word16 (2 * k) ≠ 0) → firstZero buf r j = none := by
  induction r with
  | zero => exact fun _ _ => rfl
  | succ r ih =>
      intro j h
      rw [firstZero, if_neg (h j le_rfl (by omega))]
      exact ih (j + 1) fun k hk hk' => h k (by omega) (by omega)

theorem first_zero_some {buf : ByteMem} {r x : Nat} (hzero : buf.word16 (2 * x) = 0) :
    ∀ j, j ≤ x → x < j + r → (∀ k, j ≤ k → k < x → buf.word16 (2 * k) ≠ 0) →
      firstZero buf r j = some x := by
  induction r with
  | zero => omega
  | succ r ih =>
      intro j hj hx h
      rcases Nat.eq_or_lt_of_le hj with rfl | hlt
      · rw [firstZero, if_pos hzero]
      · rw [firstZero, if_neg (h j le_rfl hlt)]
        exact ih (j + 1) hlt (by omega) fun k hk hk' => h k (by omega) hk'

/-- The address of an entry of the FAT that starts at sector `fat`. -/
abbrev fatEntryAddr (fat k : Nat) : Nat := 512 * fat + 2 * k

/-- An entry of the FAT that starts at sector `fat`. -/
def fatEntry (disk : ByteMem) (fat k : Nat) : Nat := disk.word16 (fatEntryAddr fat k)

/-- `c` is the first zero entry of the FAT that starts at sector `fat`. -/
structure FirstZero (disk : ByteMem) (fat c : Nat) : Prop where
  zero : fatEntry disk fat c = 0
  first : ∀ k < c, fatEntry disk fat k ≠ 0

variable {env : BlockEnv} {b : Fat16Bpb} {s : BlockState}

/-- A sector of the FAT in the buffer. -/
theorem word16_sector (buf disk : ByteMem) (fat i : Nat) {j : Nat} (hj : j < 256) :
    (buf.copy 0 disk (512 * (fat + i)) (512 * 1)).word16 (2 * j) =
      fatEntry disk fat (256 * i + j) := by
  have h := @ByteMem.word16_copy buf disk 0 (512 * (fat + i)) (512 * 1) (2 * j) (by omega)
  rw [Nat.zero_add] at h
  rw [h, fatEntry, fatEntryAddr]
  congr 1
  omega

/-- The search ends at the first zero entry, with its sector in the buffer. -/
theorem scan_fat_some (hworks : env.Works) (hbytes : b.bytesPerSect = 512) {startFat c : Nat}
    (hdisk : startFat + c / 256 < env.sectCount) :
    ∀ (r i : Nat) (buf : ByteMem) (s : BlockState), FirstZero s.disk startFat c → i ≤ c / 256 →
      c / 256 < i + r → ∃ (buf' : ByteMem) (commands : Nat), scanFat env b startFat r i buf s =
        (some (c / 256, c % 256),
          (buf'.copy 0 s.disk (512 * (startFat + c / 256)) (512 * 1)).setWord16 (2 * (c % 256))
            0xffff,
          { s with commands := commands }) := by
  have hsize := hworks.size
  have hentries : b.entriesPerSect = 256 := by rw [Fat16Bpb.entriesPerSect, hbytes]
  intro r
  induction r with
  | zero => omega
  | succ r ih =>
      intro i buf s h hi hr
      rw [scanFat, add32_of_lt (by omega), read_block_ok hworks (by omega)]
      simp only [hentries]
      rcases Nat.eq_or_lt_of_le hi with rfl | hlt
      · have hword : ∀ j, j < 256 →
            (buf.copy 0 s.disk (512 * (startFat + c / 256)) (512 * 1)).word16 (2 * j) =
              fatEntry s.disk startFat (256 * (c / 256) + j) := fun j hj =>
          word16_sector buf s.disk startFat (c / 256) hj
        have hmod := Nat.mod_lt c (show 0 < 256 by decide)
        have hdiv := Nat.div_add_mod c 256
        rw [first_zero_some (x := c % 256) (by rw [hword _ hmod, hdiv, h.zero]) 0
          (Nat.zero_le _) (by omega) fun k _ hk => by
            rw [hword k (by omega)]
            exact h.first _ (by omega)]
        exact ⟨buf, _, rfl⟩
      · rw [first_zero_none 0 fun k _ hk => by
          rw [word16_sector buf s.disk startFat i (by omega)]
          exact h.first _ (by omega)]
        obtain ⟨buf', commands, hrun⟩ :=
          ih (i + 1) (buf.copy 0 s.disk (512 * (startFat + i)) (512 * 1))
            { s with commands := s.commands + 1 } h hlt (by omega)
        exact ⟨buf', commands, hrun⟩

/-- A search of a FAT without a zero entry changes nothing but its buffer. -/
theorem scan_fat_none (hworks : env.Works) (hbytes : b.bytesPerSect = 512) {startFat : Nat} :
    ∀ (r i : Nat) (buf : ByteMem) (s : BlockState), startFat + i + r ≤ env.sectCount →
      (∀ k, 256 * i ≤ k → k < 256 * (i + r) → fatEntry s.disk startFat k ≠ 0) →
      ∃ (buf' : ByteMem) (commands : Nat), scanFat env b startFat r i buf s =
        (none, buf', { s with commands := commands }) := by
  have hsize := hworks.size
  have hentries : b.entriesPerSect = 256 := by rw [Fat16Bpb.entriesPerSect, hbytes]
  intro r
  induction r with
  | zero => exact fun i buf s _ _ => ⟨buf, s.commands, rfl⟩
  | succ r ih =>
      intro i buf s hdisk hfull
      rw [scanFat, add32_of_lt (by omega), read_block_ok hworks (by omega)]
      simp only [hentries]
      rw [first_zero_none 0 fun k _ hk => by
        rw [word16_sector buf s.disk startFat i (by omega)]
        exact hfull _ (by omega) (by omega)]
      obtain ⟨buf', commands, hrun⟩ :=
        ih (i + 1) (buf.copy 0 s.disk (512 * (startFat + i)) (512 * 1))
          { s with commands := s.commands + 1 } (by omega) fun k hk hk' =>
            hfull k (by omega) (by omega)
      exact ⟨buf', commands, hrun⟩

end Genesis32
