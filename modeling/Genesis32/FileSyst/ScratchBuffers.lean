import Genesis32.Heap.HeapCream
import Genesis32.FileSyst.DirLookup
import Genesis32.FileSyst.FullVolume

/-!
# Scratch buffers

The file functions ask `heap_cream_malloc` for a buffer of one sector of the volume and for one of a
cluster, and only `read_cluster_find_match` tests what it gets. Here the requests have their sizes:
`ScratchHeap` answers them and refuses what is longer than a page of the heap can hold. The
predicates follow a run of a function and ask of each buffer, where it is used, that it was granted
and is long enough. `operations_fit_iff` says for which volumes and heaps every operation does that.
-/

namespace Genesis32

open Word

/-- What `heap_cream_malloc` answers to the `n`-th request of an operation, if it is for `size`
bytes: NULL, or a block of at least so many bytes with what it held before. -/
structure ScratchHeap where
  grant : Nat → Nat → Option ByteMem
  limit : ∀ n size, 3968 < size → grant n size = none

/-- The requests served by the heap of the kernel, in any memory at each of them. -/
def ScratchHeap.cream (H : Heap) (mary : Nat) (mem : Nat → ByteMem) : ScratchHeap where
  grant n size :=
    match heapCreamMalloc H (mem n) mary size with
    | (ptr, m) => if ptr = 0 then none else some (m.view ptr)
  limit n size hsize := by
    rw [show heapCreamMalloc H (mem n) mary size = (0, mem n) from if_pos hsize]
    exact if_pos rfl

/-- A buffer of `size` bytes that is not NULL and in which `used` bytes can be stored. -/
structure Holds (buf : Option ByteMem) (size used : Nat) : Prop where
  granted : buf.isSome
  long : used ≤ size

/-- The bytes behind a pointer, where only what NULL points to is made up. -/
def contents (buf : Option ByteMem) : ByteMem := buf.getD fun _ => 0x00

/-- The device, with memory for every request. -/
def BlockEnv.withScratch (env : BlockEnv) (bytes : Nat → ByteMem) : BlockEnv :=
  { env with scratch := fun n => some (bytes n) }

namespace Fat16Mount

/-- The bytes that a read of one sector of the volume stores. -/
def sectorBytes (m : Fat16Mount) : Nat := 512 * (m.bpb.bytesPerSect / 512)

/-- The bytes of `cluster_temp` up to the end of its last sector. -/
def clusterBytes (m : Fat16Mount) : Nat :=
  (m.bpb.sectPerClust - 1) * m.bpb.bytesPerSect + m.sectorBytes

end Fat16Mount

/-! ## The functions -/

/-- `get_free_cluster` reads sectors of 512 bytes into its buffer and goes through
`bytes_per_sect/2` entries of it. The store at `single_sect[0xffffffff]` behind a search that finds
nothing is left out: it fits no buffer at all, and `mirror_fats_stray` is about it. -/
def getFreeClusterFits (heap : ScratchHeap) (b : Fat16Bpb) (n : Nat) : Prop :=
  Holds (heap.grant n b.bytesPerSect) b.bytesPerSect (max 512 (2 * b.entriesPerSect))

/-- The `while(1)` of `read_fat16`, over `k` rounds. -/
def readLoopFits (env : BlockEnv) (m : Fat16Mount) (size : Nat) (single temp : Option ByteMem) :
    Nat → Nat → Nat → Nat → Nat → ByteMem → ByteMem → BlockState → Prop
  | 0, _, _, _, _, _, _, _ => True
  | k + 1, clusterCount, offsetInCluster, curCluster, bufferIndex, singleCluster, clusterTemp, s =>
      (clusterCount ≠ 0 → Holds single m.bpb.bytesPerSect m.sectorBytes) ∧
      match readHops env m clusterCount curCluster singleCluster s with
      | (none, _, _) => True
      | (some curCluster, singleCluster, s) =>
          Holds temp m.clusterSize m.clusterBytes ∧
          match readCluster env m (m.clusterSector curCluster) m.bpb.sectPerClust 0 clusterTemp s
            with
          | (clusterTemp, s) =>
              let targetSize := min (size - bufferIndex) (m.clusterSize - offsetInCluster)
              bufferIndex + targetSize ≥ size ∨
                readLoopFits env m size single temp k 1 0 curCluster (bufferIndex + targetSize)
                  singleCluster clusterTemp s

/-- `read_fat16`, over `k` rounds. -/
def readFat16Fits (env : BlockEnv) (heap : ScratchHeap) (m : Fat16Mount) (k : Nat)
    (file : Fat16File) (size : Nat) (s : BlockState) : Prop :=
  let curCluster := file.fsSpecific % 65536
  let single := heap.grant s.mallocs m.bpb.bytesPerSect
  let temp := heap.grant (s.mallocs + 1) m.clusterSize
  size = 0 ∨ EndMark curCluster ∨
    readLoopFits env m size single temp k (file.offset / m.clusterSize)
      (file.offset % m.clusterSize) curCluster 0 (contents single) (contents temp)
      { s with mallocs := s.mallocs + 2 }

/-- The hop loop of `write_fat16`, with `h` hops left. -/
def writeHopsFits (env : BlockEnv) (heap : ScratchHeap) (m : Fat16Mount)
    (single : Option ByteMem) : Nat → Nat → ByteMem → BlockState → Prop
  | 0, _, _, _ => True
  | h + 1, curCluster, singleCluster, s =>
      Holds single m.bpb.bytesPerSect m.sectorBytes ∧
      match hopCluster env m curCluster singleCluster s with
      | (curCluster, singleCluster, s) =>
          if EndMark curCluster then
            getFreeClusterFits heap m.bpb s.mallocs ∧
            match getFreeCluster env m.bpb (add32 m.startSect m.bpb.reservedSectors) curCluster s
              with
            | none => True
            | some (curCluster, s) => writeHopsFits env heap m single h curCluster singleCluster s
          else writeHopsFits env heap m single h curCluster singleCluster s

/-- The `while(1)` of `write_fat16`, over `k` rounds. -/
def writeLoopFits (env : BlockEnv) (heap : ScratchHeap) (m : Fat16Mount) (buffer : ByteMem)
    (size : Nat) (single temp : Option ByteMem) :
    Nat → Nat → Nat → Nat → Nat → ByteMem → ByteMem → BlockState → Prop
  | 0, _, _, _, _, _, _, _ => True
  | k + 1, clusterCount, offsetInCluster, curCluster, bufferIndex, singleCluster, clusterTemp, s =>
      writeHopsFits env heap m single clusterCount curCluster singleCluster s ∧
      match writeHops env m clusterCount curCluster 0 singleCluster s with
      | none => True
      | some (curCluster, _, singleCluster, s) =>
          Holds temp m.clusterSize m.clusterBytes ∧
          match readCluster env m (m.clusterSector curCluster) m.bpb.sectPerClust 0 clusterTemp s
            with
          | (clusterTemp, s) =>
              let targetSize := min (size - bufferIndex) (m.clusterSize - offsetInCluster)
              let clusterTemp := clusterTemp.copy offsetInCluster buffer bufferIndex targetSize
              let s := writeCluster env m (m.clusterSector curCluster) m.bpb.sectPerClust 0
                clusterTemp s
              bufferIndex + targetSize ≥ size ∨
                writeLoopFits env heap m buffer size single temp k 1 0 curCluster
                  (bufferIndex + targetSize) singleCluster clusterTemp s

/-- `write_fat16`, over `k` rounds. What `get_free_cluster` gets is of one size, so that the device
comes with the buffers of all its calls. -/
def writeFat16Fits (env : BlockEnv) (heap : ScratchHeap) (m : Fat16Mount) (k : Nat)
    (file : Fat16File) (buffer : ByteMem) (size : Nat) (s : BlockState) : Prop :=
  let env := env.withScratch fun n => contents (heap.grant n m.bpb.bytesPerSect)
  size = 0 ∨
    (EndMark (file.fsSpecific % 65536) → getFreeClusterFits heap m.bpb s.mallocs) ∧
    match firstCluster env m file s with
    | none => True
    | some (file, s) =>
        let single := heap.grant s.mallocs m.bpb.bytesPerSect
        let temp := heap.grant (s.mallocs + 1) m.clusterSize
        writeLoopFits env heap m buffer size single temp k (file.offset / m.clusterSize)
          (file.offset % m.clusterSize) (file.fsSpecific % 65536) 0 (contents single)
          (contents temp) { s with mallocs := s.mallocs + 2 }

/-- The outer `for` of `read_cluster_find_match`, with `r` clusters left, each of them a call to
`read_fat16` for a cluster. -/
def searchLoopFits (env : BlockEnv) (heap : ScratchHeap) (m : Fat16Mount) (k : Nat)
    (fName : ByteMem) (buf : Option ByteMem) : Nat → Fat16File → ByteMem → BlockState → Prop
  | 0, _, _, _ => True
  | r + 1, file, buffer, s =>
      Holds buf m.clusterSize m.clusterSize ∧ readFat16Fits env heap m k file m.clusterSize s ∧
      match readFat16 (env.withScratch fun n => contents (heap.grant n
          (if n = s.mallocs then m.bpb.bytesPerSect else m.clusterSize))) m k file buffer
          m.clusterSize s with
      | none => True
      | some (n, buffer, file, s) =>
          n = 0 ∨ (findEntry buffer fName (m.clusterSize / fat16DirentSize) 0).isSome ∨
            searchLoopFits env heap m k fName buf r file buffer s

/-- `read_cluster_find_match`, which returns where its own buffer is NULL. -/
def findInNodeFits (env : BlockEnv) (heap : ScratchHeap) (m : Fat16Mount) (k : Nat)
    (node : Fat16File) (fName : ByteMem) (s : BlockState) : Prop :=
  let buffer := heap.grant s.mallocs m.clusterSize
  buffer = none ∨
    searchLoopFits env heap m k fName buffer (node.size / m.clusterSize) { node with offset := 0 }
      (contents buffer) { s with mallocs := s.mallocs + 1 }

/-- In every operation on the volume, with every device, disk and argument, each buffer is granted
and long enough where it is used. -/
structure OperationsFit (heap : ScratchHeap) (m : Fat16Mount) : Prop where
  read : ∀ env k file size s, readFat16Fits env heap m k file size s
  write : ∀ env k file buffer size s, writeFat16Fits env heap m k file buffer size s
  free : ∀ n, getFreeClusterFits heap m.bpb n
  find : ∀ env k node fName s, findInNodeFits env heap m k node fName s

/-! ## When the buffers fit -/

/-- Every request of a sector, and every one of a cluster that can follow it, is granted. -/
structure ScratchHeap.Serves (heap : ScratchHeap) (m : Fat16Mount) : Prop where
  sector : ∀ n, (heap.grant n m.bpb.bytesPerSect).isSome
  cluster : ∀ n, (heap.grant (n + 1) m.clusterSize).isSome

variable {env : BlockEnv} {heap : ScratchHeap} {m : Fat16Mount} {single temp : Option ByteMem}

theorem holds_sector (h : single.isSome) : Holds single m.bpb.bytesPerSect m.sectorBytes :=
  ⟨h, Nat.mul_div_le _ _⟩

/-- The sectors of a cluster fill its buffer. -/
theorem holds_cluster (hclust : 1 ≤ m.bpb.sectPerClust) (h : temp.isSome) :
    Holds temp m.clusterSize m.clusterBytes := by
  refine ⟨h, ?_⟩
  obtain ⟨r, hr⟩ : ∃ r, m.bpb.sectPerClust = r + 1 := ⟨m.bpb.sectPerClust - 1, by omega⟩
  have hsect : m.sectorBytes ≤ m.bpb.bytesPerSect := Nat.mul_div_le _ _
  unfold Fat16Mount.clusterBytes Fat16Mount.clusterSize
  rw [hr, Nat.add_sub_cancel, Nat.mul_succ, Nat.mul_comm]
  exact Nat.add_le_add_left hsect _

theorem get_free_cluster_fits (hbytes : 512 ≤ m.bpb.bytesPerSect) (h : heap.Serves m) (n : Nat) :
    getFreeClusterFits heap m.bpb n :=
  ⟨h.sector n, Nat.max_le.mpr ⟨hbytes, Nat.mul_div_le _ _⟩⟩

theorem read_loop_fits (hclust : 1 ≤ m.bpb.sectPerClust) (hsingle : single.isSome)
    (htemp : temp.isSome) (size : Nat) :
    ∀ (k h x cur idx : Nat) (singleCluster clusterTemp : ByteMem) (s : BlockState),
      readLoopFits env m size single temp k h x cur idx singleCluster clusterTemp s := by
  intro k
  induction k with
  | zero => exact fun _ _ _ _ _ _ _ => trivial
  | succ k ih =>
      intro h x cur idx singleCluster clusterTemp s
      refine ⟨fun _ => holds_sector hsingle, ?_⟩
      generalize readHops env m h cur singleCluster s = r
      obtain ⟨c, singleCluster₁, s₁⟩ := r
      cases c with
      | none => trivial
      | some c =>
          refine ⟨holds_cluster hclust htemp, ?_⟩
          generalize readCluster env m (m.clusterSector c) m.bpb.sectPerClust 0 clusterTemp s₁ = t
          obtain ⟨clusterTemp₁, s₂⟩ := t
          exact Or.inr (ih _ _ _ _ _ _ _)

theorem read_fat16_fits (hclust : 1 ≤ m.bpb.sectPerClust) (h : heap.Serves m) (k : Nat)
    (file : Fat16File) (size : Nat) (s : BlockState) : readFat16Fits env heap m k file size s :=
  Or.inr (Or.inr (read_loop_fits hclust (h.sector _) (h.cluster _) size k _ _ _ _ _ _ _))

theorem write_hops_fits (hbytes : 512 ≤ m.bpb.bytesPerSect) (h : heap.Serves m)
    (hsingle : single.isSome) :
    ∀ (n cur : Nat) (singleCluster : ByteMem) (s : BlockState),
      writeHopsFits env heap m single n cur singleCluster s := by
  intro n
  induction n with
  | zero => exact fun _ _ _ => trivial
  | succ n ih =>
      intro cur singleCluster s
      refine ⟨holds_sector hsingle, ?_⟩
      generalize hopCluster env m cur singleCluster s = r
      obtain ⟨c, singleCluster₁, s₁⟩ := r
      simp only
      split_ifs
      · refine ⟨get_free_cluster_fits hbytes h _, ?_⟩
        cases getFreeCluster env m.bpb (add32 m.startSect m.bpb.reservedSectors) c s₁ with
        | none => trivial
        | some r => exact ih _ _ _
      · exact ih _ _ _

theorem write_loop_fits (hbytes : 512 ≤ m.bpb.bytesPerSect) (hclust : 1 ≤ m.bpb.sectPerClust)
    (h : heap.Serves m) (hsingle : single.isSome) (htemp : temp.isSome) (buffer : ByteMem)
    (size : Nat) :
    ∀ (k n x cur idx : Nat) (singleCluster clusterTemp : ByteMem) (s : BlockState),
      writeLoopFits env heap m buffer size single temp k n x cur idx singleCluster clusterTemp
        s := by
  intro k
  induction k with
  | zero => exact fun _ _ _ _ _ _ _ => trivial
  | succ k ih =>
      intro n x cur idx singleCluster clusterTemp s
      refine ⟨write_hops_fits hbytes h hsingle n cur singleCluster s, ?_⟩
      generalize writeHops env m n cur 0 singleCluster s = r
      cases r with
      | none => trivial
      | some r =>
          obtain ⟨c, dirtyBit, singleCluster₁, s₁⟩ := r
          refine ⟨holds_cluster hclust htemp, ?_⟩
          generalize readCluster env m (m.clusterSector c) m.bpb.sectPerClust 0 clusterTemp s₁ = t
          obtain ⟨clusterTemp₁, s₂⟩ := t
          exact Or.inr (ih _ _ _ _ _ _ _)

theorem write_fat16_fits (hbytes : 512 ≤ m.bpb.bytesPerSect) (hclust : 1 ≤ m.bpb.sectPerClust)
    (h : heap.Serves m) (k : Nat) (file : Fat16File) (buffer : ByteMem) (size : Nat)
    (s : BlockState) : writeFat16Fits env heap m k file buffer size s := by
  refine Or.inr ⟨fun _ => get_free_cluster_fits hbytes h _, ?_⟩
  generalize env.withScratch _ = env'
  cases firstCluster env' m file s with
  | none => trivial
  | some r => exact write_loop_fits hbytes hclust h (h.sector _) (h.cluster _) buffer size k ..

theorem search_loop_fits (hclust : 1 ≤ m.bpb.sectPerClust) (h : heap.Serves m) (k : Nat)
    (fName : ByteMem) {buf : Option ByteMem} (hbuf : buf.isSome) :
    ∀ (r : Nat) (file : Fat16File) (buffer : ByteMem) (s : BlockState),
      searchLoopFits env heap m k fName buf r file buffer s := by
  intro r
  induction r with
  | zero => exact fun _ _ _ => trivial
  | succ r ih =>
      intro file buffer s
      refine ⟨⟨hbuf, le_rfl⟩, read_fat16_fits hclust h k file _ s, ?_⟩
      generalize readFat16 _ m k file buffer m.clusterSize s = t
      cases t with
      | none => trivial
      | some t => exact Or.inr (Or.inr (ih _ _ _))

theorem find_in_node_fits (hclust : 1 ≤ m.bpb.sectPerClust) (h : heap.Serves m) (k : Nat)
    (node : Fat16File) (fName : ByteMem) (s : BlockState) :
    findInNodeFits env heap m k node fName s := by
  by_cases hnull : heap.grant s.mallocs m.clusterSize = none
  · exact Or.inl hnull
  · exact Or.inr (search_loop_fits hclust h k fName (Option.ne_none_iff_isSome.mp hnull) ..)

/-- The read of one byte from the first cluster of a file uses the buffer of a cluster. -/
theorem read_uses_cluster {s : BlockState}
    (h : readFat16Fits env heap m 1 ⟨0, 2, 0, 0⟩ 1 s) :
    (heap.grant (s.mallocs + 1) m.clusterSize).isSome := by
  rcases h with hzero | hend | hloop
  · exact absurd hzero (by decide)
  · exact absurd hend (by decide)
  · have hcount : (0 : Nat) / m.clusterSize = 0 := Nat.zero_div _
    unfold readLoopFits at hloop
    simp only [hcount, readHops] at hloop
    exact hloop.2.1.granted

/-- For every accepted block and every heap, all buffers of all operations fit exactly when a
cluster has at most 3968 bytes and the heap has room for every request of a sector and of a cluster.
-/
theorem operations_fit_iff (hbpb : m.bpb.Accepted m.startSect) :
    OperationsFit heap m ↔ m.clusterSize ≤ 3968 ∧ heap.Serves m := by
  have hbytes : 512 ≤ m.bpb.bytesPerSect := by
    have := hbpb.bytes
    omega
  constructor
  · intro hfit
    have hserves : heap.Serves m :=
      ⟨fun n => (hfit.free n).granted, fun n =>
        read_uses_cluster (s := ⟨fun _ => 0x00, 0, n, [], false⟩)
          (hfit.read ⟨0, fun _ _ => 0, fun _ => none, fun _ => 0, fun _ => 0⟩ ..)⟩
    refine ⟨?_, hserves⟩
    by_contra hlong
    have hsome := hserves.cluster 0
    rw [heap.limit _ _ (by omega)] at hsome
    cases hsome
  · intro h
    obtain ⟨_, hserves⟩ := h
    exact
      { read := fun env k file size s => read_fat16_fits hbpb.clust.1 hserves k file size s
        write := fun env k file buffer size s =>
          write_fat16_fits hbytes hbpb.clust.1 hserves k file buffer size s
        free := get_free_cluster_fits hbytes hserves
        find := fun env k node fName s => find_in_node_fits hbpb.clust.1 hserves k node fName s }

/-- A heap with a free page for every request of a page or less. -/
def pageHeap : ScratchHeap where
  grant _ size := if size ≤ 3968 then some fun _ => 0x00 else none
  limit _ _ hsize := if_neg (Nat.not_le.mpr hsize)

/-- The volume that the boot sector of the repository declares, from the first sector on, and a disk
that takes and gives every sector. -/
def bootVolume : Fat16Mount := ⟨0, ⟨512, 128, 200, 2, 256, 64, 200, 712, 716⟩⟩

def bootDevice : BlockEnv :=
  ⟨7829508, fun _ total => total, pageHeap.grant 0, fun _ => 0, fun _ => 0⟩

/-- Its block is accepted, and no heap has a buffer for its clusters: the read of the first byte of
a file that starts in cluster 2 uses what NULL points to. -/
theorem boot_volume_does_not_fit : bootVolume.bpb.Accepted bootVolume.startSect ∧
    ∀ heap, ¬ readFat16Fits bootDevice heap bootVolume 1 ⟨0, 2, 0, 0⟩ 1
      ⟨fun _ => 0x00, 0, 0, [], false⟩ := by
  refine ⟨⟨by decide, by decide, by decide, by decide, by decide, by decide, by decide, by decide,
    by decide⟩, fun heap hfit => ?_⟩
  have hsome := read_uses_cluster hfit
  have hlong : 3968 < bootVolume.clusterSize := by decide
  rw [heap.limit _ _ hlong] at hsome
  cases hsome

/-- On the small volume everything fits. -/
theorem operations_fit_iff_small : OperationsFit pageHeap smallMount :=
  (operations_fit_iff small_accepted).mpr
    ⟨by decide, { sector := fun _ => rfl, cluster := fun _ => rfl }⟩

end Genesis32
