import Genesis32.FileSyst.ReadFat16

/-!
# Writing a file

`write_fat16` of `file_syst/fat16.c`, as a call that ends within a given number of rounds. A write
inside the chain of a file is a splice: it replaces the bytes of a range of the chain and nothing
else on the disk, and the FAT, which the write follows while it changes the disk, stays as it is.
-/

namespace Genesis32

open Word

/-! ## The model -/

/-- The hop loop of `write_fat16`, with `h` hops left: the cluster, `dirty_bit`, the buffer and the
state. Where the chain ends, a cluster is allocated behind the end mark. -/
def writeHops (env : BlockEnv) (m : Fat16Mount) :
    Nat → Nat → Nat → ByteMem → BlockState → Option (Nat × Nat × ByteMem × BlockState)
  | 0, curCluster, dirtyBit, singleCluster, s => some (curCluster, dirtyBit, singleCluster, s)
  | h + 1, curCluster, dirtyBit, singleCluster, s =>
      match hopCluster env m curCluster singleCluster s with
      | (curCluster, singleCluster, s) =>
          if EndMark curCluster then
            match getFreeCluster env m.bpb (add32 m.startSect m.bpb.reservedSectors) curCluster s
              with
            | none => none
            | some (curCluster, s) => writeHops env m h curCluster 1 singleCluster s
          else writeHops env m h curCluster dirtyBit singleCluster s

/-- The `while(1)` of `write_fat16`, with the number of rounds it may still take: the bytes written,
the file and the state. -/
def writeLoop (env : BlockEnv) (m : Fat16Mount) (buffer : ByteMem) (size : Nat) :
    Nat → Nat → Nat → Nat → Nat → Fat16File → ByteMem → ByteMem → BlockState →
      Option (Nat × Fat16File × BlockState)
  | 0, _, _, _, _, _, _, _, _ => none
  | k + 1, clusterCount, offsetInCluster, curCluster, bufferIndex, file, singleCluster, clusterTemp,
      s =>
      match writeHops env m clusterCount curCluster file.dirtyBit singleCluster s with
      | none => none
      | some (curCluster, dirtyBit, singleCluster, s) =>
          match readCluster env m (m.clusterSector curCluster) m.bpb.sectPerClust 0 clusterTemp s
            with
          | (clusterTemp, s) =>
              let targetSize := min (size - bufferIndex) (m.clusterSize - offsetInCluster)
              let clusterTemp := clusterTemp.copy offsetInCluster buffer bufferIndex targetSize
              let s := writeCluster env m (m.clusterSector curCluster) m.bpb.sectPerClust 0
                clusterTemp s
              let file : Fat16File :=
                { file with
                  offset := add32 file.offset targetSize
                  size := max file.size (bufferIndex + targetSize)
                  dirtyBit := dirtyBit }
              if bufferIndex + targetSize ≥ size then some (bufferIndex + targetSize, file, s)
              else
                writeLoop env m buffer size k 1 0 curCluster (bufferIndex + targetSize) file
                  singleCluster clusterTemp s

/-- The start of `write_fat16`: an empty file gets its first cluster. -/
def firstCluster (env : BlockEnv) (m : Fat16Mount) (file : Fat16File) (s : BlockState) :
    Option (Fat16File × BlockState) :=
  let curCluster := file.fsSpecific % 65536
  if EndMark curCluster then
    (getFreeCluster env m.bpb (add32 m.startSect m.bpb.reservedSectors) curCluster s).map fun r =>
      ({ file with fsSpecific := r.1, dirtyBit := 1 }, r.2)
  else some (file, s)

/-- `write_fat16` within `k` rounds: the return value, the file and the state. -/
def writeFat16 (env : BlockEnv) (m : Fat16Mount) (k : Nat) (file : Fat16File) (buffer : ByteMem)
    (size : Nat) (s : BlockState) : Option (Nat × Fat16File × BlockState) :=
  if size = 0 then some (0, file, s)
  else do
    let (file, s) ← firstCluster env m file s
    let (singleCluster, s) ← s.heapCreamMalloc env
    let (clusterTemp, s) ← s.heapCreamMalloc env
    writeLoop env m buffer size k (file.offset / m.clusterSize) (file.offset % m.clusterSize)
      (file.fsSpecific % 65536) 0 file singleCluster clusterTemp s

/-! ## Volumes -/

/-- A mounted volume of 512-byte sectors, with its FATs and root directory before the sector `hi`,
on a device and with an allocator that work. -/
structure Fat16Mount.Volume (m : Fat16Mount) (env : BlockEnv) (hi : Nat) : Prop
    extends m.Sectors512 where
  works : env.Works
  fats : 1 ≤ m.bpb.fatCount
  dataStart : m.dataSect ≤ hi
  onDisk : hi ≤ env.sectCount

/-- A data cluster of a volume: it has an entry in the FAT and its sectors lie before `hi`. -/
structure Fat16Mount.DataCluster (m : Fat16Mount) (hi c : Nat) : Prop where
  two : 2 ≤ c
  word : c < 65536
  inFat : c < 256 * m.bpb.sectorsPerFat
  data : m.clusterSect c + m.bpb.sectPerClust ≤ hi

/-- Every cluster of a file is a data cluster. -/
def Fat16Mount.ChainOk (m : Fat16Mount) (hi : Nat) (disk : ByteMem) (f : Fat16File) : Prop :=
  ∀ k c, m.cluster disk f k = some c → m.DataCluster hi c

variable {env : BlockEnv} {m : Fat16Mount} {f : Fat16File} {hi : Nat}

theorem fat_sect_le_data_sect (hfats : 1 ≤ m.bpb.fatCount) :
    m.fatSect + m.bpb.sectorsPerFat ≤ m.dataSect := by
  have hmul := Nat.mul_le_mul_left m.bpb.sectorsPerFat hfats
  unfold Fat16Mount.dataSect
  refine le_trans ?_ (Nat.le_add_right _ _)
  omega

theorem Fat16Mount.Volume.onDisk_cluster (hv : m.Volume env hi) {c : Nat}
    (hc : m.DataCluster hi c) : m.OnDisk env c where
  entry := by
    have hfat := hc.inFat
    have hdata := hc.data
    have hdisk := hv.onDisk
    have hle := fat_sect_le_data_sect hv.fats
    unfold Fat16Mount.clusterSect at hdata
    omega
  data := hc.data.trans hv.onDisk

theorem Fat16Mount.Volume.reaches (hv : m.Volume env hi) {disk : ByteMem}
    (hok : m.ChainOk hi disk f) (p n : Nat) : ReachesOnDisk env m disk f p n :=
  ⟨fun k c _ hc => (hv.onDisk_cluster (hok k c hc)).entry,
    fun k c _ _ hc => (hv.onDisk_cluster (hok k c hc)).data⟩

theorem Fat16Mount.Volume.sector_eq (hv : m.Volume env hi) {c : Nat} (hc : m.DataCluster hi c) :
    m.clusterSector c = m.clusterSect c := by
  have hdata := hc.data
  have hdisk := hv.onDisk
  exact cluster_sector_eq hv.works hc.two hc.word (by omega)

/-- The bytes before the data are none of a cluster. -/
theorem data_le_cluster_addr (c : Nat) : 512 * m.dataSect ≤ m.clusterAddr c := by
  unfold Fat16Mount.clusterAddr Fat16Mount.clusterSect
  omega

/-- An entry of the FAT is before the data. -/
theorem fat_entry_lt_data (hv : m.Volume env hi) {c : Nat} (hc : c < 256 * m.bpb.sectorsPerFat) :
    fatEntryAddr m.fatSect c + 2 ≤ 512 * m.dataSect := by
  have hle := fat_sect_le_data_sect hv.fats
  unfold fatEntryAddr
  omega

/-- Disks that agree before the data hold the same FAT. -/
theorem fat_entry_same (hv : m.Volume env hi) {disk disk' : ByteMem}
    (h : ∀ x < 512 * m.dataSect, disk' x = disk x) {c : Nat}
    (hc : c < 256 * m.bpb.sectorsPerFat) :
    fatEntry disk' m.fatSect c = fatEntry disk m.fatSect c := by
  have hlt := fat_entry_lt_data hv hc
  exact ByteMem.word16_congr (h _ (by omega)) (h _ (by omega))

/-- Disks that have the same entries for the clusters of a file have the same chain for it. -/
theorem cluster_congr {disk disk' : ByteMem} (h : ∀ k c, m.cluster disk f k = some c →
      fatEntry disk' m.fatSect c = fatEntry disk m.fatSect c) (k : Nat) :
    m.cluster disk' f k = m.cluster disk f k :=
  Chain.nth_congr (fun j _ a ha => by
    unfold Fat16Mount.nextCluster
    rw [h j a ha]) k le_rfl

theorem cluster_same (hv : m.Volume env hi) {disk disk' : ByteMem}
    (h : ∀ x < 512 * m.dataSect, disk' x = disk x) (hok : m.ChainOk hi disk f) (k : Nat) :
    m.cluster disk' f k = m.cluster disk f k :=
  cluster_congr (fun j c hc => fat_entry_same hv h (hok j c hc).inFat) k

/-! ## Splices -/

/-- From `disk` to `disk'` the `n` bytes of the chain of a file from position `p` on have become
those of `buffer` from `idx` on, and nothing else has changed. Where a chain comes by one address
several times, the last of the bytes stays. -/
structure Spliced (m : Fat16Mount) (disk : ByteMem) (f : Fat16File) (p n idx : Nat)
    (buffer disk' : ByteMem) : Prop where
  inside : ∀ i < n, ∀ a, m.chainAddr disk f (p + i) = some a →
    (∀ j, i < j → j < n → m.chainAddr disk f (p + j) ≠ some a) → disk' a = buffer (idx + i)
  outside : ∀ x, (∀ i < n, m.chainAddr disk f (p + i) ≠ some x) → disk' x = disk x

/-- Positions of a chain lie in its data. -/
theorem data_le_chain_addr {disk : ByteMem} {p a : Nat} (h : m.chainAddr disk f p = some a) :
    512 * m.dataSect ≤ a := by
  unfold Fat16Mount.chainAddr at h
  obtain ⟨c, _, rfl⟩ := Option.map_eq_some_iff.mp h
  have hle := data_le_cluster_addr (m := m) c
  omega

/-- A splice leaves everything before the data alone. -/
theorem Spliced.before {disk disk' : ByteMem} {p n idx : Nat} {buffer : ByteMem}
    (h : Spliced m disk f p n idx buffer disk') {x : Nat} (hx : x < 512 * m.dataSect) :
    disk' x = disk x := by
  refine h.outside x fun i _ haddr => ?_
  have hle := data_le_chain_addr haddr
  omega

/-- A splice of one cluster. -/
theorem Spliced.block {disk : ByteMem} {q c x t : Nat} (idx : Nat) (buffer : ByteMem)
    {temp : ByteMem}
    (hc : m.cluster disk f q = some c) (hx : x + t ≤ m.clusterSize)
    (htemp : ∀ y < m.clusterSize, temp y = disk (m.clusterAddr c + y)) :
    Spliced m disk f (q * m.clusterSize + x) t idx buffer
      (disk.copy (m.clusterAddr c) (temp.copy x buffer idx t) 0 m.clusterSize) where
  inside := by
    intro i hi a ha _
    rw [Nat.add_assoc, chain_addr_eq (by omega) hc] at ha
    obtain rfl := Option.some.inj ha
    rw [ByteMem.copy_inside (by omega) (by omega), ByteMem.copy_inside (by omega) (by omega)]
    congr 1
    omega
  outside := by
    intro y hy
    by_cases hin : m.clusterAddr c ≤ y ∧ y < m.clusterAddr c + m.clusterSize
    · have hrange : y - m.clusterAddr c < x ∨ x + t ≤ y - m.clusterAddr c := by
        by_contra hnot
        refine hy (y - m.clusterAddr c - x) (by omega) ?_
        rw [Nat.add_assoc, chain_addr_eq (by omega) hc]
        congr 1
        omega
      rw [ByteMem.copy_inside hin.1 hin.2, Nat.zero_add, ByteMem.copy_outside hrange,
        htemp _ (by omega)]
      congr 1
      omega
    · exact ByteMem.copy_outside (by omega)

/-- A splice, and a splice behind it. -/
theorem Spliced.cons {disk disk₁ disk₂ : ByteMem} {p t r idx : Nat} {buffer : ByteMem}
    (h : Spliced m disk f p t idx buffer disk₁)
    (hsame : ∀ k, m.cluster disk₁ f k = m.cluster disk f k)
    (h' : Spliced m disk₁ f (p + t) r (idx + t) buffer disk₂) :
    Spliced m disk f p (t + r) idx buffer disk₂ := by
  have haddr : ∀ x, m.chainAddr disk₁ f x = m.chainAddr disk f x := fun x => by
    unfold Fat16Mount.chainAddr
    rw [hsame]
  constructor
  · intro i hi a ha hlast
    rcases Nat.lt_or_ge i t with hlt | hge
    · rw [h'.outside a fun j hj => ?_]
      · exact h.inside i hlt a ha fun j hij hj => hlast j hij (by omega)
      · rw [haddr, Nat.add_assoc]
        exact hlast (t + j) (by omega) (by omega)
    · have hbyte := h'.inside (i - t) (by omega) a
        (by rw [haddr, show p + t + (i - t) = p + i by omega, ha]) fun j hij hj => by
          rw [haddr, Nat.add_assoc]
          exact hlast (t + j) (by omega) (by omega)
      rwa [show idx + t + (i - t) = idx + i by omega] at hbyte
  · intro x hx
    rw [h'.outside x fun j hj => ?_]
    · exact h.outside x fun i hi => hx i (by omega)
    · rw [haddr, Nat.add_assoc]
      exact hx (t + j) (by omega)

/-! ## Writing inside the chain -/

/-- The hop loop of a write goes along the chain. -/
theorem write_hops_in_chain (hv : m.Volume env hi) {disk : ByteMem} (hok : m.ChainOk hi disk f)
    {c : Nat} : ∀ (h q cur dirtyBit : Nat) (buf : ByteMem) (s : BlockState), s.disk = disk →
      m.cluster disk f q = some cur → m.cluster disk f (q + h) = some c →
      ∃ (buf' : ByteMem) (commands : Nat), writeHops env m h cur dirtyBit buf s =
        some (c, dirtyBit, buf', { s with commands := commands }) := by
  intro h
  induction h with
  | zero =>
      intro q cur dirtyBit buf s _ hcur hc
      obtain rfl := Option.some.inj (hcur.symm.trans hc)
      exact ⟨buf, s.commands, rfl⟩
  | succ h ih =>
      intro q cur dirtyBit buf s hs hcur hc
      obtain ⟨buf₁, hhop⟩ := hop_cluster_ok hv.works hv.toSectors512
        (hv.onDisk_cluster (hok q cur hcur)).entry buf s
      obtain ⟨a, ha⟩ := Option.isSome_iff_exists.mp
        (Chain.nth_isSome_of_le (Option.isSome_of_eq_some hc) (show q + 1 ≤ q + (h + 1) by omega))
      have hnext : m.nextCluster disk cur = some a := (Chain.nth_succ_of_some hcur).symm.trans ha
      obtain ⟨hend, hentry⟩ := not_end_mark_next hnext
      rw [writeHops, hhop, hs, ← hentry]
      simp only
      rw [if_neg hend]
      rw [show q + (h + 1) = q + 1 + h by omega] at hc
      obtain ⟨buf', commands, hrun⟩ := ih (q + 1) a dirtyBit buf₁
        { s with commands := s.commands + 1 } hs ha hc
      exact ⟨buf', commands, hs ▸ hrun⟩

/-- The body of the outer loop of a write: the cluster is read, `t` bytes of the buffer are put over
its bytes from `x` on and it is written back. -/
theorem write_round_ok (hv : m.Volume env hi) {c : Nat} (hc : m.DataCluster hi c) (buffer : ByteMem)
    (x t idx : Nat) (temp : ByteMem) (s : BlockState) :
    ∃ (temp₁ : ByteMem) (s₁ s₂ : BlockState),
      readCluster env m (m.clusterSector c) m.bpb.sectPerClust 0 temp s = (temp₁, s₁) ∧
      writeCluster env m (m.clusterSector c) m.bpb.sectPerClust 0 (temp₁.copy x buffer idx t) s₁ =
        s₂ ∧
      (∀ y < m.clusterSize, temp₁ y = s.disk (m.clusterAddr c + y)) ∧
      IoEffect m.dataSect hi s s₂
        (s.disk.copy (m.clusterAddr c) (temp₁.copy x buffer idx t) 0 m.clusterSize) := by
  have hdata := (hv.onDisk_cluster hc).data
  obtain ⟨temp₁, commands, hread, _, htemp⟩ := read_cluster_ok hv.works hv.toSectors512 hdata
    m.bpb.sectPerClust 0 temp s (by omega)
  have hwrite := write_cluster_ok hv.works hv.toSectors512 hdata (temp₁.copy x buffer idx t)
    m.bpb.sectPerClust 0 { s with commands := commands } (by omega)
  rw [hv.sector_eq hc]
  refine ⟨temp₁, _, _, hread, rfl, fun y hy => htemp y (by omega) hy, ?_⟩
  rw [hv.clusterSize_eq]
  have hle : m.dataSect ≤ m.clusterSect c := Nat.le_add_right _ _
  exact (IoEffect.reads _ _ s commands s.mallocs).trans (hwrite.mono hle hc.data)

/-- The outer loop of a write inside the chain. -/
theorem write_loop_in_chain (hv : m.Volume env hi) (buffer : ByteMem) (p size : Nat) :
    ∀ (k h q cur x idx : Nat) (file : Fat16File) (buf temp : ByteMem) (s : BlockState),
      m.ChainOk hi s.disk f → m.cluster s.disk f q = some cur → x < m.clusterSize →
      (q + h) * m.clusterSize + x = p + idx → idx < size → size - idx ≤ k →
      (m.cluster s.disk f ((p + size - 1) / m.clusterSize)).isSome →
      ∃ s', writeLoop env m buffer size k h x cur idx file buf temp s =
          some (size, { file with
            offset := add32 file.offset (size - idx)
            size := max file.size size }, s') ∧
        IoEffect m.dataSect hi s s' s'.disk ∧
        Spliced m s.disk f (p + idx) (size - idx) idx buffer s'.disk := by
  intro k
  induction k with
  | zero => omega
  | succ k ih =>
      intro h q cur x idx file buf temp s hok hcur hx hpos hidx hk hreach
      have hsize := hv.clusterSize_pos
      have hle : q + h ≤ (p + size - 1) / m.clusterSize :=
        (Nat.le_div_iff_mul_le hsize).mpr (by omega)
      obtain ⟨c, hc⟩ : ∃ c, m.cluster s.disk f (q + h) = some c :=
        Option.isSome_iff_exists.mp (Chain.nth_isSome_of_le hreach hle)
      obtain ⟨buf₁, commands, hhops⟩ := write_hops_in_chain hv hok h q cur file.dirtyBit buf s rfl
        hcur hc
      rw [writeLoop, hhops]
      simp only
      generalize ht : min (size - idx) (m.clusterSize - x) = t
      obtain ⟨temp₁, s₁, s₂, hread, hwrite, htemp, heffect⟩ := write_round_ok hv
        (hok (q + h) c hc) buffer x t idx temp
        { s with commands := commands }
      rw [hread]
      simp only
      rw [hwrite]
      -- the round rewrites the whole cluster with `t` new bytes in it
      have hblock := Spliced.block idx buffer hc (show x + t ≤ m.clusterSize by omega) htemp
      have hio := (IoEffect.reads m.dataSect hi s commands s.mallocs).trans heffect
      rw [hpos] at hblock
      generalize s.disk.copy (m.clusterAddr c) (temp₁.copy x buffer idx t) 0 m.clusterSize = disk₁
        at hblock hio
      obtain rfl := hio.disk
      by_cases hdone : idx + t ≥ size
      · rw [if_pos hdone]
        have hall : t = size - idx := by omega
        refine ⟨s₂, ?_, hio, by rwa [hall] at hblock⟩
        rw [show idx + t = size by omega, hall]
      · rw [if_neg hdone]
        -- data sectors hold no entry of a FAT, so the rest of the chain is the same
        have hsame : ∀ j, m.cluster s₂.disk f j = m.cluster s.disk f j :=
          cluster_same hv (fun y hy => hblock.before hy) hok
        obtain ⟨s', hrun, hio', hrest⟩ := ih 1 (q + h) c 0 (idx + t)
          { file with offset := add32 file.offset t, size := max file.size (idx + t) } buf₁
          (temp₁.copy x buffer idx t) s₂ (fun j d hd => hok j d (by rwa [hsame] at hd))
          (by rw [hsame, hc]) hsize (by rw [Nat.add_mul (q + h) 1, Nat.one_mul]; omega) (by omega)
          (by omega) (by rwa [hsame])
        refine ⟨s', ?_, hio.trans hio', ?_⟩
        · rw [hrun]
          simp only [add32_add32]
          rw [show t + (size - (idx + t)) = size - idx by omega,
            show max (max file.size (idx + t)) size = max file.size size by omega]
        · rw [← Nat.add_assoc] at hrest
          have hjoin := hblock.cons hsame hrest
          rwa [show t + (size - (idx + t)) = size - idx by omega] at hjoin

/-! ## The write -/

/-- A byte of a cluster belongs to one cluster only. -/
theorem cluster_addr_inj (h512 : m.Sectors512) {c d x y : Nat} (hc : 2 ≤ c) (hd : 2 ≤ d)
    (hx : x < m.clusterSize) (hy : y < m.clusterSize)
    (h : m.clusterAddr c + x = m.clusterAddr d + y) : c = d ∧ x = y := by
  have haddr : ∀ e, m.clusterAddr e = 512 * m.dataSect + (e - 2) * m.clusterSize := fun e => by
    unfold Fat16Mount.clusterAddr Fat16Mount.clusterSect
    rw [h512.clusterSize_eq, Nat.mul_add]
    congr 1
    ring
  rw [haddr, haddr, Nat.add_assoc, Nat.add_assoc] at h
  have heq := Nat.add_left_cancel h
  have hcpos := block_pos (c - 2) hx
  have hdpos := block_pos (d - 2) hy
  rw [heq] at hcpos
  have hdiv := hcpos.1.symm.trans hdpos.1
  have hmod := hcpos.2.symm.trans hdpos.2
  omega

/-- A chain that ends has no address twice. -/
theorem chain_addr_inj (h512 : m.Sectors512) {disk : ByteMem} {len : Nat}
    (hlen : Chain.HasLength (m.nextCluster disk) (Fat16Mount.startCluster f) len) {p p' a : Nat}
    (h : m.chainAddr disk f p = some a) (h' : m.chainAddr disk f p' = some a) : p = p' := by
  obtain ⟨c, hc, hca⟩ := Option.map_eq_some_iff.mp h
  obtain ⟨d, hd, hda⟩ := Option.map_eq_some_iff.mp h'
  have hsize := h512.clusterSize_pos
  obtain ⟨rfl, hmod⟩ := cluster_addr_inj h512 (cluster_lt hc).1 (cluster_lt hd).1
    (Nat.mod_lt p hsize) (Nat.mod_lt p' hsize) (hca.trans hda.symm)
  have hdiv := hlen.nth_inj hc hd
  rw [← Nat.div_add_mod' p m.clusterSize, ← Nat.div_add_mod' p' m.clusterSize, hdiv, hmod]

/-- Two files share no cluster. -/
def ChainsApart (m : Fat16Mount) (disk : ByteMem) (f g : Fat16File) : Prop :=
  ∀ i j c, m.cluster disk f i = some c → m.cluster disk g j ≠ some c

/-- A splice of a chain leaves the bytes of every other chain alone. -/
theorem Spliced.other (hv : m.Volume env hi) {disk disk' : ByteMem} {p n idx : Nat}
    {buffer : ByteMem} (h : Spliced m disk f p n idx buffer disk') {g : Fat16File}
    (hok : m.ChainOk hi disk g) (hapart : ChainsApart m disk f g) (p' : Nat) :
    m.chainByte disk' g p' = m.chainByte disk g p' := by
  have hsame := cluster_same hv (fun y hy => h.before hy) hok
  have haddr : m.chainAddr disk' g p' = m.chainAddr disk g p' := by
    unfold Fat16Mount.chainAddr
    rw [hsame]
  unfold Fat16Mount.chainByte
  rw [haddr]
  cases hg : m.chainAddr disk g p' with
  | none => rfl
  | some a =>
      rw [Option.map_some, Option.map_some, h.outside a fun i _ hf => ?_]
      obtain ⟨d, hd, hda⟩ := Option.map_eq_some_iff.mp hg
      obtain ⟨c, hc, hca⟩ := Option.map_eq_some_iff.mp hf
      have hsize := hv.clusterSize_pos
      obtain ⟨rfl, _⟩ := cluster_addr_inj hv.toSectors512 (cluster_lt hc).1 (cluster_lt hd).1
        (Nat.mod_lt _ hsize) (Nat.mod_lt _ hsize) (hca.trans hda.symm)
      exact hapart _ _ _ hc hd

/-- A write within the chain has a result within `n` rounds, and is a splice. -/
theorem write_fat16_splices (hv : m.Volume env hi) {n k : Nat} {s : BlockState}
    (hok : m.ChainOk hi s.disk f) (hn : 1 ≤ n)
    (hreach : (m.cluster s.disk f ((f.offset + n - 1) / m.clusterSize)).isSome) (hk : n ≤ k)
    (buffer : ByteMem) :
    ∃ s', writeFat16 env m k f buffer n s =
        some (n, { f with offset := add32 f.offset n, size := max f.size n }, s') ∧
      IoEffect m.dataSect hi s s' s'.disk ∧ Spliced m s.disk f f.offset n 0 buffer s'.disk := by
  obtain ⟨c, hc⟩ := Option.isSome_iff_exists.mp (Chain.nth_isSome_of_le hreach (Nat.zero_le _))
  have hcluster : m.cluster s.disk f 0 = some c := hc
  have hend : ¬ EndMark (f.fsSpecific % 65536) := fun hend => by
    have hnone : Fat16Mount.startCluster f = none := if_pos hend
    rw [Chain.nth, hnone] at hc
    cases hc
  obtain rfl : f.fsSpecific % 65536 = c := Option.some.inj ((if_neg hend).symm.trans hc)
  obtain ⟨buf, hbuf⟩ := malloc_ok hv.works s
  obtain ⟨temp, htemp⟩ := malloc_ok hv.works { s with mallocs := s.mallocs + 1 }
  have hpos := Nat.div_add_mod' f.offset m.clusterSize
  obtain ⟨s', hrun, hio, hsplice⟩ := write_loop_in_chain hv buffer f.offset n k
    (f.offset / m.clusterSize) 0 (f.fsSpecific % 65536) (f.offset % m.clusterSize) 0 f
    buf temp { s with mallocs := s.mallocs + 1 + 1 } hok hcluster
    (Nat.mod_lt _ hv.clusterSize_pos) (by rw [Nat.zero_add]; omega) (by omega) (by omega) hreach
  refine ⟨s', ?_, (IoEffect.reads _ _ s s.commands (s.mallocs + 1 + 1)).trans hio, hsplice⟩
  unfold writeFat16 firstCluster
  simp only [if_neg (show ¬ n = 0 by omega), if_neg hend, Option.bind_eq_bind, Option.bind_some]
  rw [hbuf]
  simp only [Option.bind_some]
  rw [htemp]
  simp only [Option.bind_some]
  rw [hrun, Nat.sub_zero]

/-- A read of a range that has been spliced into a chain that ends returns the buffer. -/
theorem read_spliced (hv : m.Volume env hi) {n k len : Nat} {s : BlockState} {disk : ByteMem}
    (hlen : Chain.HasLength (m.nextCluster disk) (Fat16Mount.startCluster f) len)
    (hok : m.ChainOk hi disk f) (hoffset : f.offset < 4294967296)
    (hin : f.offset + n ≤ len * m.clusterSize) {buffer : ByteMem}
    (hsplice : Spliced m disk f f.offset n 0 buffer s.disk) (hk : n ≤ k) (buffer₀ : ByteMem) :
    ∃ buffer' s', readFat16 env m k f buffer₀ n s =
        some (n, buffer', { f with offset := add32 f.offset n }, s') ∧
      ∀ i < n, buffer' i = buffer i := by
  have hsame : ∀ j, m.cluster s.disk f j = m.cluster disk f j :=
    cluster_same hv (fun y hy => hsplice.before hy) hok
  have hok' : m.ChainOk hi s.disk f := fun j c hc => hok j c (by rwa [hsame] at hc)
  have hlen' : Chain.HasLength (m.nextCluster s.disk) (Fat16Mount.startCluster f) len :=
    fun j => by
      have hj := hlen j
      rwa [show Chain.nth (m.nextCluster disk) (Fat16Mount.startCluster f) j =
        Chain.nth (m.nextCluster s.disk) (Fat16Mount.startCluster f) j from (hsame j).symm] at hj
  obtain ⟨r, buffer', s', hrun, _, hread⟩ :=
    read_fat16_reads hv.works hv.toSectors512 (hv.reaches hok' f.offset n) hoffset hk buffer₀
  have hcount := hread.slice.count hlen' hv.clusterSize_pos
  -- the range ends within the chain, so the read is not short
  have hr : r = n := by
    have hmin : ((len : ℕ∞) * m.clusterSize - f.offset) = ((len * m.clusterSize - f.offset : Nat) :
        ℕ∞) := by push_cast; rfl
    rw [hmin, min_eq_left (by exact_mod_cast (by omega : n ≤ len * m.clusterSize - f.offset))]
      at hcount
    exact_mod_cast hcount
  rw [hr] at hrun hread
  refine ⟨buffer', s', hrun, fun i hi => ?_⟩
  have hbyte := hread.bytes i hi
  unfold Fat16Mount.chainByte at hbyte
  obtain ⟨a, ha, hval⟩ := Option.map_eq_some_iff.mp hbyte
  have haddr : m.chainAddr s.disk f (f.offset + i) = m.chainAddr disk f (f.offset + i) := by
    unfold Fat16Mount.chainAddr
    rw [hsame]
  rw [haddr] at ha
  rw [Nat.zero_add] at hval
  rw [← hval, hsplice.inside i hi a ha fun j hij _ hj => ?_, Nat.zero_add]
  have hinj := chain_addr_inj hv.toSectors512 hlen ha hj
  omega

/-- The outcome of a write to `n` bytes in the chain of a file: the result of the call, the bytes of
the range, those of the file and of the disk outside of it, the sectors in front of the data, every
other file, and what a read at the same offset returns. -/
structure WrittenInPlace (env : BlockEnv) (m : Fat16Mount) (hi k : Nat) (f : Fat16File)
    (buffer : ByteMem) (n : Nat) (s s' : BlockState) : Prop where
  run : writeFat16 env m k f buffer n s =
    some (n, { f with offset := add32 f.offset n, size := max f.size n }, s')
  io : IoEffect m.dataSect hi s s' s'.disk
  stored : ∀ i < n, m.chainByte s'.disk f (f.offset + i) = some (buffer i)
  kept : ∀ p, p < f.offset ∨ f.offset + n ≤ p →
    m.chainByte s'.disk f p = m.chainByte s.disk f p
  outside : ∀ x, (∀ i < n, m.chainAddr s.disk f (f.offset + i) ≠ some x) → s'.disk x = s.disk x
  before : ∀ x < 512 * m.dataSect, s'.disk x = s.disk x
  others : ∀ g, m.ChainOk hi s.disk g → ChainsApart m s.disk f g →
    ∀ p, m.chainByte s'.disk g p = m.chainByte s.disk g p
  read : ∀ buffer₀, ∃ buffer' s'',
    readFat16 env m k { f with size := max f.size n } buffer₀ n s' =
      some (n, buffer', { f with offset := add32 f.offset n, size := max f.size n }, s'') ∧
    ∀ i < n, buffer' i = buffer i

/-- A write within the chain of a file has this outcome. -/
theorem written_in_place (hv : m.Volume env hi) {n k len : Nat} {s : BlockState}
    (hlen : Chain.HasLength (m.nextCluster s.disk) (Fat16Mount.startCluster f) len)
    (hok : m.ChainOk hi s.disk f) (hoffset : f.offset < 4294967296) (hn : 1 ≤ n)
    (hin : f.offset + n ≤ len * m.clusterSize) (hk : n ≤ k) (buffer : ByteMem) :
    ∃ s', WrittenInPlace env m hi k f buffer n s s' := by
  have hsize := hv.clusterSize_pos
  have hreach : (m.cluster s.disk f ((f.offset + n - 1) / m.clusterSize)).isSome :=
    hlen.nth_isSome ((Nat.div_lt_iff_lt_mul hsize).mpr (by omega))
  obtain ⟨s', hrun, hio, hsplice⟩ := write_fat16_splices hv hok hn hreach hk buffer
  have hsame : ∀ j, m.cluster s'.disk f j = m.cluster s.disk f j :=
    cluster_same hv (fun y hy => hsplice.before hy) hok
  have haddr : ∀ p, m.chainAddr s'.disk f p = m.chainAddr s.disk f p := fun p => by
    unfold Fat16Mount.chainAddr
    rw [hsame]
  -- a chain that ends visits no cluster twice, so its positions are different bytes of the disk
  have hinj := fun {p p' a} => @chain_addr_inj m f hv.toSectors512 s.disk len hlen p p' a
  refine ⟨s', hrun, hio, fun i hi => ?_, fun p hp => ?_, hsplice.outside,
    fun x hx => hsplice.before hx, fun g hg hapart => hsplice.other hv hg hapart,
    fun buffer₀ => ?_⟩
  · have hlt : (f.offset + i) / m.clusterSize < len :=
      (Nat.div_lt_iff_lt_mul hsize).mpr (by omega)
    obtain ⟨c, hc⟩ := Option.isSome_iff_exists.mp (hlen.nth_isSome hlt)
    have ha : m.chainAddr s.disk f (f.offset + i) =
        some (m.clusterAddr c + (f.offset + i) % m.clusterSize) := by
      rw [← Nat.div_add_mod' (f.offset + i) m.clusterSize,
        chain_addr_eq (Nat.mod_lt _ hsize) hc, Nat.div_add_mod']
    unfold Fat16Mount.chainByte
    rw [haddr, ha, Option.map_some, hsplice.inside i hi _ ha fun j hij _ hj => ?_, Nat.zero_add]
    have hij' := hinj ha hj
    omega
  · unfold Fat16Mount.chainByte
    rw [haddr]
    cases ha : m.chainAddr s.disk f p with
    | none => rfl
    | some a =>
        rw [Option.map_some, Option.map_some, hsplice.outside a fun i hi h => ?_]
        have heq := hinj ha h
        omega
  · exact @read_spliced env m { f with size := max f.size n } hi hv n k len s' s.disk hlen hok
      hoffset hin buffer ⟨hsplice.inside, hsplice.outside⟩ hk buffer₀

/-- A write within the chain of a file replaces exactly the bytes of its range: the return value and
the offset say so, a read at the same offset returns the buffer, and the FATs, the root directory,
the other bytes of the file and every other file stay as they are. -/
theorem write_fat16_in_place (hv : m.Volume env hi) {n k len : Nat} {s : BlockState}
    (hlen : Chain.HasLength (m.nextCluster s.disk) (Fat16Mount.startCluster f) len)
    (hok : m.ChainOk hi s.disk f) (hoffset : f.offset < 4294967296) (hn : 1 ≤ n)
    (hin : f.offset + n ≤ len * m.clusterSize) (hk : n ≤ k) (buffer : ByteMem) :
    ∃ s', writeFat16 env m k f buffer n s =
        some (n, { f with offset := add32 f.offset n, size := max f.size n }, s') ∧
      (∀ i < n, m.chainByte s'.disk f (f.offset + i) = some (buffer i)) ∧
      (∀ p, p < f.offset ∨ f.offset + n ≤ p →
        m.chainByte s'.disk f p = m.chainByte s.disk f p) ∧
      (∀ x, (∀ i < n, m.chainAddr s.disk f (f.offset + i) ≠ some x) → s'.disk x = s.disk x) ∧
      (∀ x < 512 * m.dataSect, s'.disk x = s.disk x) ∧
      (∀ g, m.ChainOk hi s.disk g → ChainsApart m s.disk f g →
        ∀ p, m.chainByte s'.disk g p = m.chainByte s.disk g p) ∧
      ∀ buffer₀, ∃ buffer' s'', readFat16 env m k { f with size := max f.size n } buffer₀ n s' =
          some (n, buffer', { f with offset := add32 f.offset n, size := max f.size n }, s'') ∧
        ∀ i < n, buffer' i = buffer i := by
  obtain ⟨s', h⟩ := written_in_place hv hlen hok hoffset hn hin hk buffer
  exact ⟨s', h.run, h.stored, h.kept, h.outside, h.before, h.others, h.read⟩

theorem small_mounted : smallMount.Volume smallEnv 10 where
  toSectors512 := small_sectors
  works := small_volume.works
  fats := by decide
  dataStart := by decide
  onDisk := by decide

/-- The chain of a file whose clusters are looked up one by one. -/
theorem chain_ok_of_none {disk : ByteMem} {len : Nat} (hlast : m.cluster disk f len = none)
    (h : ∀ k < len, ∀ c, m.cluster disk f k = some c → m.DataCluster hi c) :
    m.ChainOk hi disk f := by
  intro k c hc
  refine h k (lt_of_not_ge fun hle => ?_) c hc
  rw [Fat16Mount.cluster, Chain.nth_none_of_le hlast hle] at hc
  cases hc

/-- The chain of a file of one cluster. -/
theorem chain_ok_single {disk : ByteMem} {c : Nat} (hfirst : m.cluster disk f 0 = some c)
    (hlast : m.cluster disk f 1 = none) (hc : m.DataCluster hi c) : m.ChainOk hi disk f := by
  refine chain_ok_of_none hlast fun k hk d hd => ?_
  obtain rfl := Nat.lt_one_iff.mp hk
  obtain rfl := Option.some.inj (hfirst.symm.trans hd)
  exact hc

theorem small_chain_ok : smallMount.ChainOk 10 smallDisk.disk smallFile :=
  chain_ok_single (show _ = some 2 from rfl) (by decide +kernel)
    ⟨by decide, by decide, by decide, by decide⟩

/-- The small disk with the chain 2, 3 and the free cluster 4, and a file that starts there. -/
def pairDisk : BlockState :=
  { smallDisk with
    disk := fun x =>
      if 512 ≤ x ∧ x < 1536 then
        if x % 512 = 4 then 0x03
        else if x % 512 = 5 ∨ x % 512 = 8 ∨ x % 512 = 9 then 0x00 else 0xff
      else 0x00 }

def pairFile : Fat16File := ⟨500, 2, 1024, 0⟩

theorem pair_clusters : ∀ k < 2, smallMount.cluster pairDisk.disk pairFile k = some (k + 2) := by
  decide +kernel

theorem pair_end : smallMount.cluster pairDisk.disk pairFile 2 = none := by decide +kernel

theorem pair_chain : Chain.HasLength (smallMount.nextCluster pairDisk.disk)
    (Fat16Mount.startCluster pairFile) ((2 : Nat) : ℕ∞) :=
  Chain.has_length_of_none (fun k hk => Option.isSome_of_eq_some (pair_clusters k hk)) pair_end

theorem pair_chain_ok : smallMount.ChainOk 10 pairDisk.disk pairFile := by
  refine chain_ok_of_none pair_end fun k hk c hc => ?_
  obtain rfl := Option.some.inj ((pair_clusters k hk).symm.trans hc)
  have hsect : smallMount.clusterSect (k + 2) = 4 + k * 1 := rfl
  exact ⟨by omega, by omega, show k + 2 < 256 by omega, by
    rw [hsect]
    show _ + 1 ≤ 10
    omega⟩

/-- The last bytes of the first cluster and the whole second cluster are replaced. -/
theorem write_fat16_in_place_pair : ∃ s',
    writeFat16 smallEnv smallMount 524 pairFile (fun _ => 0x41) 524 pairDisk =
        some (524, ⟨1024, 2, 1024, 0⟩, s') ∧
      (∀ i < 524, smallMount.chainByte s'.disk pairFile (500 + i) = some 0x41) ∧
      (∀ p < 500, smallMount.chainByte s'.disk pairFile p =
        smallMount.chainByte pairDisk.disk pairFile p) ∧
      (∀ x < 512 * smallMount.dataSect, s'.disk x = pairDisk.disk x) ∧
      ∀ buffer₀, ∃ buffer' s'', readFat16 smallEnv smallMount 524 pairFile buffer₀ 524 s' =
          some (524, buffer', ⟨1024, 2, 1024, 0⟩, s'') ∧
        ∀ i < 524, buffer' i = 0x41 := by
  obtain ⟨s', hrun, hbytes, hkept, _, hbefore, _, hread⟩ := write_fat16_in_place small_mounted
    pair_chain pair_chain_ok (by decide) (show 1 ≤ 524 by decide) (by decide) le_rfl fun _ => 0x41
  exact ⟨s', hrun, hbytes, fun p hp => hkept p (Or.inl hp), hbefore, hread⟩

end Genesis32
