import Mathlib.Logic.Function.Iterate
import Genesis32.Library.ByteMem
import Genesis32.Library.Word

/-!
# The reader of FAT12 images

`tools/fat.c`, for a 64-bit host. An image is its bytes and their number. A buffer is the number of
bytes that were allocated for it and the number that were stored from its start on, so a load stays
inside its buffer where the second is not greater than the first. What `fread` stores is everything
that the image still has, up to the count.

The amounts that are read are driven by the geometry in whole sectors and by the cluster chain,
those that are allocated by the entry counts and the size field of the directory, and nothing
compares the two: `image_reader_safe_iff`. The loop that prints the file stores nothing and is left
out.
-/

namespace Genesis32

open Word

/-- A disk image. -/
structure Image where
  bytes : ByteMem
  length : Nat

/-- The fields of `bios_header_t` that the reader uses. -/
structure BiosHeader where
  bytesPerSector : Nat
  sectorPerCluster : Nat
  reservedSector : Nat
  fatCount : Nat
  rootEntries : Nat
  sectorPerFat : Nat
  deriving DecidableEq, Repr

/-- A buffer: the bytes that were allocated for it, the bytes that were stored from its start on,
and whether the function that loaded it was successful. -/
structure Load where
  alloc : Nat
  stored : Nat
  ok : Bool
  deriving DecidableEq, Repr

/-- What a run meets outside the image: whether each `malloc` returns memory, and what this memory
and the memory behind it hold. -/
structure HostEnv where
  fatGranted : Bool
  rootGranted : Bool
  outGranted : Bool
  staleFat : ByteMem
  staleRoot : ByteMem

/-- `read_boot_header`: the header has 62 bytes. -/
def readBootHeader (image : Image) : Option BiosHeader :=
  if 62 ≤ image.length then
    some
      { bytesPerSector := image.bytes.word16 11
        sectorPerCluster := (image.bytes 13).toNat
        reservedSector := image.bytes.word16 14
        fatCount := (image.bytes 16).toNat
        rootEntries := image.bytes.word16 17
        sectorPerFat := image.bytes.word16 22 }
  else none

/-- The position at which `readSector` begins, a product of 32 bits. -/
def sectorPos (h : BiosHeader) (lba : Nat) : Nat := mul32 lba h.bytesPerSector

/-- `readSector`: the bytes that it stores, and its result. -/
def readSector (h : BiosHeader) (image : Image) (lba count : Nat) : Nat × Bool :=
  let stored := min (h.bytesPerSector * count) (image.length - sectorPos h lba)
  (stored, stored / h.bytesPerSector = count)

/-- What a buffer holds after `readSector` has stored into it. -/
def sectorBytes (h : BiosHeader) (image : Image) (lba count : Nat) (stale : ByteMem) : ByteMem :=
  fun i =>
    if i < (readSector h image lba count).1 then image.bytes (sectorPos h lba + i) else stale i

/-- The sectors of all FATs. -/
def fatSectors (h : BiosHeader) : Nat := h.fatCount * h.sectorPerFat

/-- `readFat`. The size that it allocates is a product of 32 bits. -/
def readFat (env : HostEnv) (h : BiosHeader) (image : Image) : Load :=
  let alloc := mul32 (fatSectors h) h.bytesPerSector
  if env.fatGranted then
    let r := readSector h image h.reservedSector (fatSectors h)
    ⟨alloc, r.1, r.2⟩
  else ⟨alloc, 0, false⟩

/-- `g_fat` after `readFat`. -/
def fatBytes (env : HostEnv) (h : BiosHeader) (image : Image) : ByteMem :=
  sectorBytes h image h.reservedSector (fatSectors h) env.staleFat

/-- `dir_size`: the sectors of the root directory, rounded up. -/
def dirSize (h : BiosHeader) : Nat :=
  (32 * h.rootEntries + h.bytesPerSector - 1) / h.bytesPerSector

/-- The first sector of the root directory. -/
def rootLba (h : BiosHeader) : Nat := h.reservedSector + fatSectors h

/-- `readRootDir`. The size that it allocates is a product of 64 bits. -/
def readRootDir (env : HostEnv) (h : BiosHeader) (image : Image) : Load :=
  let alloc := h.rootEntries * 32
  if env.rootGranted then
    let r := readSector h image (rootLba h) (dirSize h)
    ⟨alloc, r.1, r.2⟩
  else ⟨alloc, 0, false⟩

/-- `root_dir_entry` after `readRootDir`. -/
def rootBytes (env : HostEnv) (h : BiosHeader) (image : Image) : ByteMem :=
  sectorBytes h image (rootLba h) (dirSize h) env.staleRoot

/-- The `for` of `search_root` from entry `i`, with `k` entries left. -/
def searchEntries (dir fileName : ByteMem) : Nat → Nat → Option Nat
  | 0, _ => none
  | k + 1, i =>
      if dir (32 * i) = 0x00 then none
      else if ∀ j < 11, fileName j = dir (32 * i + j) then some i
      else searchEntries dir fileName k (i + 1)

/-- `search_root`. -/
def searchRoot (h : BiosHeader) (dir fileName : ByteMem) : Option Nat :=
  searchEntries dir fileName h.rootEntries 0

/-- `next_cluster`. -/
def nextCluster (fat : ByteMem) (curClust : Nat) : Nat :=
  let off := curClust * 3 / 2 % 65536
  if curClust % 2 ≠ 0 then
    (fat (off + 1)).toNat <<< 4 ||| ((fat off).toNat &&& 0xf0) >>> 4
  else (fat off).toNat ||| ((fat (off + 1)).toNat &&& 0x0f) <<< 8

/-- `cluster_bytes`. -/
def clusterBytes (h : BiosHeader) : Nat := h.sectorPerCluster * h.bytesPerSector

/-- The first sector of a cluster: the difference is a signed `int`. -/
def clusterLba (h : BiosHeader) (currCluster : Nat) : Nat :=
  let addr : Int := h.reservedSector + fatSectors h + dirSize h
  ((addr + (currCluster - 2) * h.sectorPerCluster) % 4294967296).toNat

/-- The `do` loop of `read_file` at a cluster, `start_loc` bytes into the buffer, with `fuel` rounds
before it is known not to end: the bytes that it stores from the start of the buffer on, and whether
it comes to the end of the chain. -/
def readClusters (h : BiosHeader) (image : Image) (fat : ByteMem) :
    Nat → Nat → Nat → Option (Nat × Bool)
  | 0, _, _ => none
  | fuel + 1, currCluster, startLoc =>
      let r := readSector h image (clusterLba h currCluster) h.sectorPerCluster
      if r.2 = false then some (startLoc + r.1, false)
      else if nextCluster fat currCluster < 0xff8 then
        readClusters h image fat fuel (nextCluster fat currCluster) (startLoc + clusterBytes h)
      else some (startLoc + clusterBytes h, true)

/-- The size of `buf_out` in clusters: the sum is one of 32 bits. -/
def bufClusters (h : BiosHeader) (size : Nat) : Nat :=
  sub32 (add32 size (clusterBytes h)) 1 / clusterBytes h

/-- `size` of the directory entry at `index`. -/
def entrySize (dir : ByteMem) (index : Nat) : Nat := dir.word32 (32 * index + 28)

/-- `cluster_no_low` of the directory entry at `index`. -/
def entryCluster (dir : ByteMem) (index : Nat) : Nat := dir.word16 (32 * index + 26)

/-- `read_file`. -/
def readFile (env : HostEnv) (h : BiosHeader) (image : Image) (fat dir fileName : ByteMem)
    (fuel : Nat) : Option Load :=
  match searchRoot h dir fileName with
  | none => some ⟨0, 0, false⟩
  | some index =>
      let alloc := clusterBytes h * bufClusters h (entrySize dir index)
      if env.outGranted then
        (readClusters h image fat fuel (entryCluster dir index) 0).map fun r => ⟨alloc, r.1, r.2⟩
      else some ⟨alloc, 0, false⟩

/-- `main` once the image is open: the buffers that it has loaded, and the exit code. -/
def readImage (env : HostEnv) (image : Image) (targetFile : ByteMem) (fuel : Nat) :
    Option (List Load × Int) :=
  match readBootHeader image with
  | none => some ([], -3)
  | some h =>
      let fat := readFat env h image
      if fat.ok = false then some ([fat], -4)
      else
        let root := readRootDir env h image
        if root.ok = false then some ([fat, root], -5)
        else if searchRoot h (rootBytes env h image) targetFile = none then
          some ([fat, root], -6)
        else
          (readFile env h image (fatBytes env h image) (rootBytes env h image) targetFile
            fuel).map fun out => ([fat, root, out], if out.ok then 0 else -7)

/-! ## When the loads fit -/

/-- The run ends, and no buffer is stored past its end. -/
def StaysInBuffers (env : HostEnv) (image : Image) (targetFile : ByteMem) : Prop :=
  ∃ fuel loads code, readImage env image targetFile fuel = some (loads, code) ∧
    ∀ load ∈ loads, load.stored ≤ load.alloc

/-- The FATs have fewer than `2^32` bytes, or the image ends within what is allocated for them. -/
def FatFits (h : BiosHeader) (image : Image) : Prop :=
  fatSectors h * h.bytesPerSector < 4294967296 ∨
    image.length ≤ sectorPos h h.reservedSector + mul32 (fatSectors h) h.bytesPerSector

/-- The root directory fills its last sector, or the image ends within its entries. -/
def RootFits (h : BiosHeader) (image : Image) : Prop :=
  h.bytesPerSector ∣ 32 * h.rootEntries ∨
    image.length ≤ sectorPos h (rootLba h) + 32 * h.rootEntries

/-- The `j`-th cluster of a chain. -/
def chainCluster (fat : ByteMem) (first j : Nat) : Nat := (nextCluster fat)^[j] first

/-- Where the `j`-th cluster of a chain begins in the image. -/
def chainPos (h : BiosHeader) (fat : ByteMem) (first j : Nat) : Nat :=
  sectorPos h (clusterLba h (chainCluster fat first j))

/-- Of the first `clusters` clusters of the chain one is the last or is cut by the end of the image,
or the next one begins behind it. -/
def ChainFits (h : BiosHeader) (image : Image) (fat : ByteMem) (first clusters : Nat) : Prop :=
  (∃ j < clusters, 0xff8 ≤ chainCluster fat first (j + 1) ∨
    image.length < chainPos h fat first j + clusterBytes h) ∨
    image.length ≤ chainPos h fat first clusters

/-- What the image must be like for its loads to fit: the FATs do; where these are loaded, the root
directory; and where this is loaded too and has the file, its chain. -/
def Fits (env : HostEnv) (image : Image) (targetFile : ByteMem) : Prop :=
  ∀ h, readBootHeader image = some h →
    (env.fatGranted = true → FatFits h image) ∧
    ((readFat env h image).ok = true → env.rootGranted = true → RootFits h image) ∧
    ∀ index, (readFat env h image).ok = true → (readRootDir env h image).ok = true →
      searchRoot h (rootBytes env h image) targetFile = some index → env.outGranted = true →
      ChainFits h image (fatBytes env h image) (entryCluster (rootBytes env h image) index)
        (bufClusters h (entrySize (rootBytes env h image) index))

variable {h : BiosHeader} {image : Image} {env : HostEnv} {fat dir fileName : ByteMem}

/-- A read stays within `alloc` bytes exactly when it is not longer, or the image ends there. -/
theorem read_sector_stays {lba count alloc : Nat} :
    (readSector h image lba count).1 ≤ alloc ↔
      h.bytesPerSector * count ≤ alloc ∨ image.length ≤ sectorPos h lba + alloc := by
  rw [readSector]
  omega

/-- A read is complete exactly when the image has all its bytes. -/
theorem read_sector_ok (image : Image) (lba : Nat) (hbytes : h.bytesPerSector ≠ 0) {count : Nat}
    (hcount : count ≠ 0) :
    (readSector h image lba count).2 = true ↔
      sectorPos h lba + h.bytesPerSector * count ≤ image.length := by
  have hpos : 0 < h.bytesPerSector * count :=
    Nat.mul_pos (Nat.pos_of_ne_zero hbytes) (Nat.pos_of_ne_zero hcount)
  rw [readSector]
  simp only [decide_eq_true_eq]
  constructor
  · intro hall
    have hfull := Nat.div_mul_le_self
      (min (h.bytesPerSector * count) (image.length - sectorPos h lba)) h.bytesPerSector
    rw [hall, Nat.mul_comm] at hfull
    omega
  · intro hin
    rw [Nat.min_eq_left (by omega)]
    exact Nat.mul_div_cancel_left count (Nat.pos_of_ne_zero hbytes)

theorem fat_stays : (readFat env h image).stored ≤ (readFat env h image).alloc ↔
    (env.fatGranted = true → FatFits h image) := by
  rw [readFat]
  cases env.fatGranted with
  | false => simp
  | true =>
      simp only [if_true, forall_const]
      rw [read_sector_stays, FatFits, Nat.mul_comm h.bytesPerSector]
      refine or_congr_left ?_
      unfold mul32
      omega

theorem dir_size_le (hbytes : h.bytesPerSector ≠ 0) :
    h.bytesPerSector * dirSize h ≤ h.rootEntries * 32 ↔ h.bytesPerSector ∣ 32 * h.rootEntries := by
  have hpos := Nat.pos_of_ne_zero hbytes
  have hup := Nat.div_add_mod (32 * h.rootEntries + h.bytesPerSector - 1) h.bytesPerSector
  have hmod := Nat.mod_lt (32 * h.rootEntries + h.bytesPerSector - 1) hpos
  rw [dirSize]
  constructor
  · intro hle
    exact ⟨(32 * h.rootEntries + h.bytesPerSector - 1) / h.bytesPerSector, by omega⟩
  · intro hall
    obtain ⟨k, hk⟩ := hall
    have hdiv : (32 * h.rootEntries + h.bytesPerSector - 1) / h.bytesPerSector = k := by
      rw [hk, Nat.add_sub_assoc hpos, Nat.mul_add_div hpos, Nat.div_eq_of_lt (by omega),
        Nat.add_zero]
    rw [hdiv]
    omega

theorem root_stays (hbytes : h.bytesPerSector ≠ 0) :
    (readRootDir env h image).stored ≤ (readRootDir env h image).alloc ↔
      (env.rootGranted = true → RootFits h image) := by
  rw [readRootDir]
  cases env.rootGranted with
  | false => simp
  | true =>
      simp only [if_true, forall_const]
      rw [read_sector_stays, RootFits, dir_size_le hbytes, Nat.mul_comm h.rootEntries]

/-! ## The chain -/

theorem chain_cluster_succ (fat : ByteMem) (first j : Nat) :
    chainCluster fat first (j + 1) = chainCluster fat (nextCluster fat first) j :=
  Function.iterate_succ_apply ..

theorem chain_pos_succ (h : BiosHeader) (fat : ByteMem) (first j : Nat) :
    chainPos h fat first (j + 1) = chainPos h fat (nextCluster fat first) j := by
  rw [chainPos, chain_cluster_succ]
  rfl

/-- Where the first cluster is in the image and not the last, the rest of the chain decides. -/
theorem chain_fits_succ {first clusters : Nat} (hnext : nextCluster fat first < 0xff8)
    (hin : chainPos h fat first 0 + clusterBytes h ≤ image.length) :
    ChainFits h image fat first (clusters + 1) ↔
      ChainFits h image fat (nextCluster fat first) clusters := by
  rw [ChainFits, ChainFits, chain_pos_succ]
  refine or_congr_left ⟨?_, ?_⟩
  · intro hall
    obtain ⟨j, hj, hstop⟩ := hall
    cases j with
    | zero =>
        rcases hstop with hend | hcut
        · exact absurd hnext (Nat.not_lt.mpr hend)
        · exact absurd hin (Nat.not_le.mpr hcut)
    | succ j =>
        rw [chain_cluster_succ, chain_pos_succ] at hstop
        exact ⟨j, Nat.lt_of_succ_lt_succ hj, hstop⟩
  · intro hall
    obtain ⟨j, hj, hstop⟩ := hall
    rw [← chain_cluster_succ, ← chain_pos_succ] at hstop
    exact ⟨j + 1, Nat.succ_lt_succ hj, hstop⟩

theorem read_clusters_ge : ∀ fuel curr startLoc r,
    readClusters h image fat fuel curr startLoc = some r → startLoc ≤ r.1 := by
  intro fuel
  induction fuel with
  | zero => exact fun _ _ _ hr => nomatch hr
  | succ fuel ih =>
      intro curr startLoc r hr
      rw [readClusters] at hr
      split_ifs at hr with hfail hnext
      · cases hr
        exact Nat.le_add_right ..
      · exact Nat.le_trans (Nat.le_add_right ..) (ih _ _ _ hr)
      · cases hr
        exact Nat.le_add_right ..

/-- A round of the loop: the cluster is cut by the end of the image, or it is the last, or the next
round follows. -/
theorem read_clusters_round (image : Image) (fat : ByteMem) (hbytes : h.bytesPerSector ≠ 0)
    (hclusters : h.sectorPerCluster ≠ 0) (fuel curr startLoc : Nat) :
    (image.length < chainPos h fat curr 0 + clusterBytes h ∧
      readClusters h image fat (fuel + 1) curr startLoc =
        some (startLoc + (image.length - chainPos h fat curr 0), false)) ∨
    (chainPos h fat curr 0 + clusterBytes h ≤ image.length ∧ 0xff8 ≤ nextCluster fat curr ∧
      readClusters h image fat (fuel + 1) curr startLoc =
        some (startLoc + clusterBytes h, true)) ∨
    (chainPos h fat curr 0 + clusterBytes h ≤ image.length ∧ nextCluster fat curr < 0xff8 ∧
      readClusters h image fat (fuel + 1) curr startLoc =
        readClusters h image fat fuel (nextCluster fat curr) (startLoc + clusterBytes h)) := by
  have hok := read_sector_ok image (clusterLba h curr) hbytes hclusters
  rw [Nat.mul_comm] at hok
  have hpos : chainPos h fat curr 0 = sectorPos h (clusterLba h curr) := rfl
  rw [readClusters, hpos, clusterBytes]
  cases hread : (readSector h image (clusterLba h curr) h.sectorPerCluster).2 with
  | false =>
      have hcut : image.length <
          sectorPos h (clusterLba h curr) + h.sectorPerCluster * h.bytesPerSector := by
        by_contra hin
        rw [hok.mpr (Nat.not_lt.mp hin)] at hread
        cases hread
      refine Or.inl ⟨hcut, ?_⟩
      rw [if_pos rfl, readSector, Nat.mul_comm h.bytesPerSector, Nat.min_eq_right (by omega)]
  | true =>
      have hin := hok.mp hread
      refine Or.inr ?_
      rw [if_neg Bool.true_eq_false_eq_False]
      rcases Nat.lt_or_ge (nextCluster fat curr) 0xff8 with hnext | hend
      · exact Or.inr ⟨hin, hnext, if_pos hnext⟩
      · exact Or.inl ⟨hin, hend, if_neg (Nat.not_lt.mpr hend)⟩

/-- Where the image has the first cluster whole and it is not the last, the loop goes on behind
it. -/
theorem read_clusters_next (hbytes : h.bytesPerSector ≠ 0) (hclusters : h.sectorPerCluster ≠ 0)
    {curr : Nat} (hin : chainPos h fat curr 0 + clusterBytes h ≤ image.length)
    (hnext : nextCluster fat curr < 0xff8) (fuel startLoc : Nat) :
    readClusters h image fat (fuel + 1) curr startLoc =
      readClusters h image fat fuel (nextCluster fat curr) (startLoc + clusterBytes h) := by
  rcases read_clusters_round image fat hbytes hclusters fuel curr startLoc with
    ⟨hcut, _⟩ | ⟨_, hend, _⟩ | ⟨_, _, heq⟩
  · omega
  · omega
  · exact heq

/-- With no cluster left of the buffer, nothing may be stored: the first cluster begins behind the
image. -/
theorem read_clusters_full (hbytes : h.bytesPerSector ≠ 0) (hclusters : h.sectorPerCluster ≠ 0)
    (curr startLoc : Nat) :
    (∃ fuel r, readClusters h image fat fuel curr startLoc = some r ∧ r.1 ≤ startLoc) ↔
      ChainFits h image fat curr 0 := by
  have hpos : 0 < clusterBytes h :=
    Nat.mul_pos (Nat.pos_of_ne_zero hclusters) (Nat.pos_of_ne_zero hbytes)
  constructor
  · intro hall
    obtain ⟨fuel, r, hr, hle⟩ := hall
    cases fuel with
    | zero => cases hr
    | succ fuel =>
        rcases read_clusters_round image fat hbytes hclusters fuel curr startLoc with
          ⟨hcut, heq⟩ | ⟨_, _, heq⟩ | ⟨_, _, heq⟩
        · rw [heq] at hr
          cases hr
          exact Or.inr (by simp only at hle; omega)
        · rw [heq] at hr
          cases hr
          simp only at hle
          omega
        · rw [heq] at hr
          have hge := read_clusters_ge _ _ _ _ hr
          omega
  · rintro (⟨j, hj, _⟩ | hbehind)
    · exact absurd hj (Nat.not_lt_zero j)
    · rcases read_clusters_round image fat hbytes hclusters 0 curr startLoc with
        ⟨_, heq⟩ | ⟨hin, _⟩ | ⟨hin, _⟩
      · exact ⟨1, _, heq, by simp only; omega⟩
      · omega
      · omega

/-- The loop ends within the clusters that are left of the buffer exactly when the chain fits
them. -/
theorem read_clusters_iff (hbytes : h.bytesPerSector ≠ 0) (hclusters : h.sectorPerCluster ≠ 0) :
    ∀ clusters curr startLoc,
      (∃ fuel r, readClusters h image fat fuel curr startLoc = some r ∧
        r.1 ≤ startLoc + clusters * clusterBytes h) ↔
      ChainFits h image fat curr clusters := by
  intro clusters
  induction clusters with
  | zero =>
      intro curr startLoc
      rw [Nat.zero_mul, Nat.add_zero]
      exact read_clusters_full hbytes hclusters curr startLoc
  | succ clusters ih =>
      intro curr startLoc
      have hroom : startLoc + (clusters + 1) * clusterBytes h =
          startLoc + clusterBytes h + clusters * clusterBytes h := by
        rw [Nat.succ_mul]
        omega
      rw [hroom]
      rcases read_clusters_round image fat hbytes hclusters 0 curr startLoc with
        ⟨hcut, heq⟩ | ⟨hin, hend, heq⟩ | ⟨hin, hnext, _⟩
      · refine iff_of_true ⟨1, _, heq, by simp only; omega⟩ ?_
        exact Or.inl ⟨0, Nat.succ_pos _, Or.inr hcut⟩
      · refine iff_of_true ⟨1, _, heq, by simp only; omega⟩ ?_
        exact Or.inl ⟨0, Nat.succ_pos _, Or.inl hend⟩
      · -- the first cluster is stored and the rest of the buffer takes the rest of the chain
        rw [chain_fits_succ hnext hin, ← ih (nextCluster fat curr) (startLoc + clusterBytes h)]
        have hround := read_clusters_next hbytes hclusters hin hnext
        constructor
        · intro hall
          obtain ⟨fuel, r, hr, hle⟩ := hall
          cases fuel with
          | zero => cases hr
          | succ fuel => exact ⟨fuel, r, by rw [← hround]; exact hr, hle⟩
        · intro hall
          obtain ⟨fuel, r, hr, hle⟩ := hall
          exact ⟨fuel + 1, r, by rw [hround]; exact hr, hle⟩

/-! ## The whole run -/

theorem read_file_stays (hbytes : h.bytesPerSector ≠ 0) (hclusters : h.sectorPerCluster ≠ 0)
    {index : Nat} (hfound : searchRoot h dir fileName = some index) :
    (∃ fuel load, readFile env h image fat dir fileName fuel = some load ∧
      load.stored ≤ load.alloc) ↔
    (env.outGranted = true →
      ChainFits h image fat (entryCluster dir index) (bufClusters h (entrySize dir index))) := by
  rw [← read_clusters_iff hbytes hclusters _ _ 0]
  have heq : ∀ fuel, readFile env h image fat dir fileName fuel =
      if env.outGranted then
        (readClusters h image fat fuel (entryCluster dir index) 0).map fun r =>
          ⟨clusterBytes h * bufClusters h (entrySize dir index), r.1, r.2⟩
      else some ⟨clusterBytes h * bufClusters h (entrySize dir index), 0, false⟩ := fun fuel => by
    rw [readFile, hfound]
  simp only [heq]
  cases env.outGranted with
  | false =>
      refine iff_of_true ⟨0, _, rfl, Nat.zero_le _⟩ fun hgranted => ?_
      cases hgranted
  | true =>
      simp only [if_true, forall_const, Option.map_eq_some_iff]
      constructor
      · intro hall
        obtain ⟨fuel, load, ⟨r, hr, rfl⟩, hle⟩ := hall
        exact ⟨fuel, r, hr, by rw [Nat.zero_add, Nat.mul_comm]; exact hle⟩
      · intro hall
        obtain ⟨fuel, r, hr, hle⟩ := hall
        rw [Nat.zero_add, Nat.mul_comm] at hle
        exact ⟨fuel, _, ⟨r, hr, rfl⟩, hle⟩

/-- The run of an image with a header, by how far it gets. -/
theorem read_image_stays (hheader : readBootHeader image = some h) :
    StaysInBuffers env image fileName ↔
      (readFat env h image).stored ≤ (readFat env h image).alloc ∧
      ((readFat env h image).ok = true →
        (readRootDir env h image).stored ≤ (readRootDir env h image).alloc) ∧
      ∀ index, (readFat env h image).ok = true → (readRootDir env h image).ok = true →
        searchRoot h (rootBytes env h image) fileName = some index →
        ∃ fuel load, readFile env h image (fatBytes env h image) (rootBytes env h image) fileName
          fuel = some load ∧ load.stored ≤ load.alloc := by
  unfold StaysInBuffers readImage
  simp only [hheader]
  generalize readFat env h image = fatLoad
  generalize readRootDir env h image = rootLoad
  by_cases hfat : fatLoad.ok = false
  · -- the FATs are not there
    simp [hfat]
  rw [Bool.not_eq_false] at hfat
  by_cases hroot : rootLoad.ok = false
  · -- the root directory is not there
    simp [hfat, hroot]
  rw [Bool.not_eq_false] at hroot
  cases hfound : searchRoot h (rootBytes env h image) fileName with
  | none => simp [hfat, hroot]
  | some index =>
      simp only [hfat, hroot, Bool.true_eq_false, if_false, reduceCtorEq, Option.map_eq_some_iff,
        forall_const, Option.some.injEq, forall_eq']
      constructor
      · intro hgiven
        obtain ⟨fuel, loads, code, ⟨out, hout, heq⟩, hall⟩ := hgiven
        obtain ⟨rfl, _⟩ := Prod.mk.inj heq
        exact ⟨hall _ (by simp), hall _ (by simp), fuel, out, hout, hall _ (by simp)⟩
      · intro hgiven
        obtain ⟨hfits, hfits', fuel, out, hout, hle⟩ := hgiven
        refine ⟨fuel, _, _, ⟨out, hout, rfl⟩, fun load hload => ?_⟩
        simp only [List.mem_cons, List.not_mem_nil, or_false] at hload
        rcases hload with rfl | rfl | rfl
        · exact hfits
        · exact hfits'
        · exact hle

/-- For every image whose sectors and clusters are not empty, the run ends with no byte stored past
the end of a buffer exactly when the FATs, the root directory and the chain of the file fit what is
allocated for them. -/
theorem image_reader_safe_iff (env : HostEnv) (image : Image) (targetFile : ByteMem)
    (hgeometry : ∀ h, readBootHeader image = some h →
      h.bytesPerSector ≠ 0 ∧ h.sectorPerCluster ≠ 0) :
    StaysInBuffers env image targetFile ↔ Fits env image targetFile := by
  cases hheader : readBootHeader image with
  | none =>
      refine iff_of_true ⟨0, [], -3, by rw [readImage, hheader], fun load hload => ?_⟩
        fun h hh => ?_
      · cases hload
      · rw [hheader] at hh
        cases hh
  | some h =>
      obtain ⟨hbytes, hclusters⟩ := hgeometry h hheader
      rw [read_image_stays hheader, fat_stays, root_stays hbytes]
      have hfile : ∀ index, searchRoot h (rootBytes env h image) targetFile = some index →
          ((∃ fuel load, readFile env h image (fatBytes env h image) (rootBytes env h image)
            targetFile fuel = some load ∧ load.stored ≤ load.alloc) ↔
          (env.outGranted = true → ChainFits h image (fatBytes env h image)
            (entryCluster (rootBytes env h image) index)
            (bufClusters h (entrySize (rootBytes env h image) index)))) :=
        fun index hfound => read_file_stays hbytes hclusters hfound
      constructor
      · intro hall h' hh'
        obtain ⟨hfat, hroot, hchain⟩ := hall
        obtain rfl := Option.some.inj (hheader.symm.trans hh')
        exact ⟨hfat, hroot, fun index hok hok' hfound =>
          (hfile index hfound).mp (hchain index hok hok' hfound)⟩
      · intro hfits
        obtain ⟨hfat, hroot, hchain⟩ := hfits h hheader
        exact ⟨hfat, hroot, fun index hok hok' hfound =>
          (hfile index hfound).mpr (hchain index hok hok' hfound)⟩

/-- An image of one 512-byte sector for each of the boot sector, the FAT and the root directory,
with `rootEntries` entries, that ends with its root directory. -/
def smallImage (rootEntries : Nat) : Image where
  bytes := fun i =>
    match i with
    | 12 => 0x02
    | 13 | 14 | 16 | 22 => 0x01
    | 17 => UInt8.ofNat rootEntries
    | _ => 0x00
  length := 1536

/-- A host whose memory is zero. -/
def zeroHost : HostEnv := ⟨true, true, true, fun _ => 0x00, fun _ => 0x00⟩

/-- Such an image with a file of 513 bytes in the clusters 2 and 3. Sixteen directory entries fill
their sector. -/
def fileImage : Image where
  bytes := fun i =>
    if i < 512 then (smallImage 16).bytes i
    else if i < 1024 then
      match i - 512 with
      | 3 => 0x03
      | 4 => 0xf0
      | 5 => 0xff
      | _ => 0x00
    else if i < 1035 then 0x41
    else
      match i - 1024 with
      | 26 | 29 => 0x02
      | 28 => 0x01
      | _ => 0x00
  length := 2560

/-- The file is found and read to its end. -/
theorem image_reader_safe_iff_file :
    (readImage zeroHost fileImage (fun _ => 0x41) 2).map Prod.snd = some 0 ∧
      StaysInBuffers zeroHost fileImage fun _ => 0x41 := by
  have hheader : readBootHeader fileImage = some ⟨512, 1, 1, 1, 16, 1⟩ := by decide
  refine ⟨by decide +kernel,
    (image_reader_safe_iff zeroHost fileImage (fun _ => 0x41) fun h hh => ?_).mpr fun h hh => ?_⟩
  · obtain rfl := Option.some.inj (hheader.symm.trans hh)
    exact ⟨by decide, by decide⟩
  · obtain rfl := Option.some.inj (hheader.symm.trans hh)
    refine ⟨fun _ => Or.inl (by decide), fun _ _ => Or.inl (by decide),
      fun index _ _ hfound _ => ?_⟩
    have hindex : searchRoot ⟨512, 1, 1, 1, 16, 1⟩
        (rootBytes zeroHost ⟨512, 1, 1, 1, 16, 1⟩ fileImage) (fun _ => 0x41) = some 0 := by
      decide +kernel
    obtain rfl := Option.some.inj (hindex.symm.trans hfound)
    -- the second of its clusters is the last
    exact Or.inl ⟨1, by decide +kernel, Or.inl (by decide +kernel)⟩

/-- One directory entry has 32 bytes, and the sector that is read into them 512. -/
theorem one_root_entry_overflows :
    ¬ StaysInBuffers zeroHost (smallImage 1) (fun _ => 0x41) := by
  rw [read_image_stays (h := ⟨512, 1, 1, 1, 1, 1⟩) (by decide)]
  intro hall
  obtain ⟨_, hroot, _⟩ := hall
  exact absurd (hroot (by decide)) (by decide)

end Genesis32
