import Genesis32.FileSyst.ClusterChain
import Genesis32.FileSyst.FatCopies

/-!
# Reading a file

`read_fat16` of `file_syst/fat16.c`. Its outer loop has no bound of its own: a call has a result if
it ends within the given number of rounds, and `read_fat16_slice` says that as many rounds as there
are bytes to read are enough, whatever the FAT holds. The result is then a slice of the clusters of
the chain.
-/

namespace Genesis32

open Word

/-! ## The model -/

/-- The hop loop of `read_fat16`, with `h` hops left: the cluster, or none at the end of the
chain. -/
def readHops (env : BlockEnv) (m : Fat16Mount) :
    Nat → Nat → ByteMem → BlockState → Option Nat × ByteMem × BlockState
  | 0, curCluster, singleCluster, s => (some curCluster, singleCluster, s)
  | h + 1, curCluster, singleCluster, s =>
      match hopCluster env m curCluster singleCluster s with
      | (curCluster, singleCluster, s) =>
          if EndMark curCluster then (none, singleCluster, s)
          else readHops env m h curCluster singleCluster s

/-- The `while(1)` of `read_fat16`, with the number of rounds it may still take: the bytes read, the
buffer and the state. -/
def readLoop (env : BlockEnv) (m : Fat16Mount) (size : Nat) :
    Nat → Nat → Nat → Nat → Nat → ByteMem → ByteMem → ByteMem → BlockState →
      Option (Nat × ByteMem × BlockState)
  | 0, _, _, _, _, _, _, _, _ => none
  | k + 1, clusterCount, offsetInCluster, curCluster, bufferIndex, buffer, singleCluster,
      clusterTemp, s =>
      match readHops env m clusterCount curCluster singleCluster s with
      | (none, _, s) => some (bufferIndex, buffer, s)
      | (some curCluster, singleCluster, s) =>
          match readCluster env m (m.clusterSector curCluster) m.bpb.sectPerClust 0 clusterTemp s
            with
          | (clusterTemp, s) =>
              let targetSize := min (size - bufferIndex) (m.clusterSize - offsetInCluster)
              let buffer := buffer.copy bufferIndex clusterTemp offsetInCluster targetSize
              if bufferIndex + targetSize ≥ size then some (bufferIndex + targetSize, buffer, s)
              else
                readLoop env m size k 1 0 curCluster (bufferIndex + targetSize) buffer
                  singleCluster clusterTemp s

/-- `read_fat16` within `k` rounds: the return value, the buffer, the file and the state. -/
def readFat16 (env : BlockEnv) (m : Fat16Mount) (k : Nat) (file : Fat16File) (buffer : ByteMem)
    (size : Nat) (s : BlockState) : Option (Nat × ByteMem × Fat16File × BlockState) :=
  let curCluster := file.fsSpecific % 65536
  if size = 0 then some (0, buffer, file, s)
  else if EndMark curCluster then some (0, buffer, file, s)
  else do
    let (singleCluster, s) ← s.heapCreamMalloc env
    let (clusterTemp, s) ← s.heapCreamMalloc env
    let (n, buffer, s) ← readLoop env m size k (file.offset / m.clusterSize)
      (file.offset % m.clusterSize) curCluster 0 buffer singleCluster clusterTemp s
    some (n, buffer, { file with offset := add32 file.offset n }, s)

/-! ## The loops -/

variable {env : BlockEnv} {m : Fat16Mount} {f : Fat16File}

/-- What `n` bytes from position `p` can need of a file is on the disk: the FAT entries of the
clusters that end before their end, and the sectors of the clusters that they are in. -/
structure ReachesOnDisk (env : BlockEnv) (m : Fat16Mount) (disk : ByteMem) (f : Fat16File)
    (p n : Nat) : Prop where
  entry : ∀ k c, (k + 1) * m.clusterSize < p + n → m.cluster disk f k = some c →
    m.fatSect + c / 256 < env.sectCount
  data : ∀ k c, p < (k + 1) * m.clusterSize → k * m.clusterSize < p + n →
    m.cluster disk f k = some c → m.clusterSect c + m.bpb.sectPerClust ≤ env.sectCount

/-- The hop loop goes along the chain. -/
theorem read_hops_ok (hworks : env.Works) (h512 : m.Sectors512) {disk : ByteMem} :
    ∀ (h k cur : Nat) (buf : ByteMem) (s : BlockState), s.disk = disk →
      m.cluster disk f k = some cur →
      (∀ j c, j < k + h → m.cluster disk f j = some c → m.fatSect + c / 256 < env.sectCount) →
      ∃ (buf' : ByteMem) (commands : Nat), readHops env m h cur buf s =
        (m.cluster disk f (k + h), buf', { s with commands := commands }) := by
  intro h
  induction h with
  | zero =>
      intro k cur buf s _ hcur _
      exact ⟨buf, s.commands, by rw [readHops, Nat.add_zero, hcur]⟩
  | succ h ih =>
      intro k cur buf s hs hcur hdisk
      obtain ⟨buf₁, hhop⟩ := hop_cluster_ok hworks h512 (hdisk k cur (by omega) hcur) buf s
      have hnext : m.cluster disk f (k + 1) = m.nextCluster disk cur := Chain.nth_succ_of_some hcur
      rw [readHops, hhop, hs]
      simp only
      by_cases hend : EndMark (fatEntry disk m.fatSect cur)
      · rw [if_pos hend]
        have hnone : m.cluster disk f (k + 1) = none := by
          rw [hnext, Fat16Mount.nextCluster, if_pos hend]
        refine ⟨buf₁, s.commands + 1, ?_⟩
        rw [show m.cluster disk f (k + (h + 1)) = none from
          Chain.nth_none_of_le hnone (by omega)]
      · rw [if_neg hend]
        have hsome : m.cluster disk f (k + 1) = some (fatEntry disk m.fatSect cur) := by
          rw [hnext, Fat16Mount.nextCluster, if_neg hend]
        obtain ⟨buf', commands, hrun⟩ := ih (k + 1) _ buf₁ { s with commands := s.commands + 1 } hs
          hsome fun j c hj hc => hdisk j c (by omega) hc
        rw [show k + (h + 1) = k + 1 + h by omega]
        exact ⟨buf', commands, hs ▸ hrun⟩

/-- What a read of `n` bytes from position `p` leaves behind: `r` bytes of the chain from `idx` on
in the buffer. -/
structure ReadBytes (m : Fat16Mount) (disk : ByteMem) (f : Fat16File) (p n idx r : Nat)
    (buffer buffer' : ByteMem) : Prop where
  slice : Chain.Slice (m.nextCluster disk) (Fat16Mount.startCluster f) m.clusterSize p n r
  bytes : ∀ i < r, m.chainByte disk f (p + i) = some (buffer' (idx + i))
  outside : ∀ x, x < idx ∨ idx + r ≤ x → buffer' x = buffer x

/-- At the end of the chain nothing is read. -/
theorem ReadBytes.nil {disk : ByteMem} {p : Nat} (n idx : Nat) (buffer : ByteMem)
    (h : m.cluster disk f (p / m.clusterSize) = none) :
    ReadBytes m disk f p n idx 0 buffer buffer where
  slice := Chain.Slice.nil n h
  bytes := fun _ hi => absurd hi (Nat.not_lt_zero _)
  outside := fun _ _ => rfl

/-- Bytes of one cluster, and the bytes that are read behind them. -/
theorem ReadBytes.cons {disk : ByteMem} {q c x n idx t r : Nat} {buffer temp buffer' : ByteMem}
    (hc : m.cluster disk f q = some c) (ht : t ≤ n) (hx : x + t ≤ m.clusterSize)
    (htemp : ∀ y < m.clusterSize, temp y = disk (m.clusterAddr c + y))
    (h : ReadBytes m disk f (q * m.clusterSize + x + t) (n - t) (idx + t) r
      (buffer.copy idx temp x t) buffer') :
    ReadBytes m disk f (q * m.clusterSize + x) n idx (t + r) buffer buffer' where
  slice := by
    refine Chain.Slice.cons ht (fun i hi => ?_) h.slice
    have hpos := block_pos q (show x + i < m.clusterSize by omega)
    rw [Nat.add_assoc, hpos.1]
    exact Option.isSome_of_eq_some hc
  bytes := by
    intro i hi
    rcases Nat.lt_or_ge i t with hlt | hge
    · rw [Nat.add_assoc, chain_byte_eq (by omega) hc, h.outside _ (Or.inl (by omega)),
        ByteMem.copy_inside (by omega) (by omega), htemp _ (by omega)]
      congr 3
      omega
    · have hrest := h.bytes (i - t) (by omega)
      rwa [show q * m.clusterSize + x + t + (i - t) = q * m.clusterSize + x + i by omega,
        show idx + t + (i - t) = idx + i by omega] at hrest
  outside := by
    intro y hy
    rw [h.outside y (by omega), ByteMem.copy_outside (by omega)]

/-- The outer loop reads the rest of the bytes, in as many rounds as there are bytes left. -/
theorem read_loop_ok (hworks : env.Works) (h512 : m.Sectors512) {disk : ByteMem} {size : Nat}
    (hdisk : ReachesOnDisk env m disk f f.offset size) :
    ∀ (k h q cur x idx : Nat) (buffer buf temp : ByteMem) (s : BlockState), s.disk = disk →
      m.cluster disk f q = some cur → x < m.clusterSize →
      (q + h) * m.clusterSize + x = f.offset + idx → idx < size → size - idx ≤ k →
      ∃ (r : Nat) (buffer' : ByteMem) (commands : Nat),
        readLoop env m size k h x cur idx buffer buf temp s =
          some (idx + r, buffer', { s with commands := commands }) ∧
        ReadBytes m disk f (f.offset + idx) (size - idx) idx r buffer buffer' := by
  intro k
  induction k with
  | zero => omega
  | succ k ih =>
      intro h q cur x idx buffer buf temp s hs hcur hx hpos hidx hk
      have hsize := h512.clusterSize_pos
      have hreach : ∀ j c, j < q + h → m.cluster disk f j = some c →
          m.fatSect + c / 256 < env.sectCount := by
        intro j c hj hc
        have hmul := Nat.mul_le_mul_right m.clusterSize hj
        exact hdisk.entry j c (by rw [Nat.succ_eq_add_one] at hmul; omega) hc
      obtain ⟨buf₁, commands, hhops⟩ := read_hops_ok hworks h512 h q cur buf s hs hcur hreach
      rw [readLoop, hhops]
      cases hc : m.cluster disk f (q + h) with
      | none =>
          -- the chain ends here, and the read is short
          refine ⟨0, buffer, commands, rfl, ReadBytes.nil _ _ _ ?_⟩
          rw [← hpos, (block_pos (q + h) hx).1, hc]
      | some c =>
          have hdata := hdisk.data (q + h) c (by rw [Nat.add_mul, Nat.one_mul]; omega) (by omega) hc
          obtain ⟨hc2, hc16⟩ := cluster_lt hc
          obtain ⟨temp₁, commands₁, hread, _, htemp⟩ := read_cluster_ok hworks h512 hdata
            m.bpb.sectPerClust 0 temp { s with commands := commands } (by omega)
          have hbytes : ∀ y < m.clusterSize, temp₁ y = disk (m.clusterAddr c + y) := fun y hy => by
            rw [htemp y (by omega) hy, ← hs]
            rfl
          simp only
          rw [cluster_sector_eq hworks hc2 hc16 (by omega), hread]
          simp only
          generalize ht : min (size - idx) (m.clusterSize - x) = t
          by_cases hdone : idx + t ≥ size
          · -- the last round: nothing is left to read behind it
            rw [if_pos hdone]
            refine ⟨t, _, commands₁, rfl, ?_⟩
            rw [← hpos]
            refine ReadBytes.cons (r := 0) hc (by omega) (by omega) hbytes ?_
            rw [show size - idx - t = 0 by omega]
            exact
              { slice := ⟨le_rfl, fun i hi => absurd hi (Nat.not_lt_zero i), Or.inl rfl⟩
                bytes := fun i hi => absurd hi (Nat.not_lt_zero i)
                outside := fun _ _ => rfl }
          · rw [if_neg hdone]
            -- every later round makes one hop and starts at the first byte of its cluster
            obtain ⟨r, buffer', commands₂, hrun, hrest⟩ := ih 1 (q + h) c 0 (idx + t)
              (buffer.copy idx temp₁ x t) buf₁ temp₁ { s with commands := commands₁ } hs hc hsize
              (by rw [Nat.add_mul (q + h) 1, Nat.one_mul]; omega) (by omega) (by omega)
            refine ⟨t + r, buffer', commands₂, ?_, ?_⟩
            · rw [hrun, Nat.add_assoc]
            · rw [← Nat.add_assoc, ← hpos, show size - (idx + t) = size - idx - t by omega] at hrest
              rw [← hpos]
              exact ReadBytes.cons hc (by omega) (by omega) hbytes hrest

/-- A read of `n` bytes has a result within `n` rounds. -/
theorem read_fat16_reads (hworks : env.Works) (h512 : m.Sectors512) {n k : Nat} {s : BlockState}
    (hdisk : ReachesOnDisk env m s.disk f f.offset n) (hoffset : f.offset < 4294967296)
    (hk : n ≤ k) (buffer : ByteMem) :
    ∃ (r : Nat) (buffer' : ByteMem) (s' : BlockState), readFat16 env m k f buffer n s =
        some (r, buffer', { f with offset := add32 f.offset r }, s') ∧ s'.disk = s.disk ∧
      ReadBytes m s.disk f f.offset n 0 r buffer buffer' := by
  have hsame : add32 f.offset 0 = f.offset := add32_of_lt hoffset
  unfold readFat16
  simp only
  by_cases hn : n = 0
  · rw [if_pos hn]
    refine ⟨0, buffer, s, by rw [hsame], rfl, ?_⟩
    exact
      { slice := ⟨Nat.zero_le n, fun i hi => absurd hi (Nat.not_lt_zero i), Or.inl hn.symm⟩
        bytes := fun i hi => absurd hi (Nat.not_lt_zero i)
        outside := fun _ _ => rfl }
  rw [if_neg hn]
  -- a file without a cluster reads nothing
  by_cases hend : EndMark (f.fsSpecific % 65536)
  · rw [if_pos hend]
    have hstart : Fat16Mount.startCluster f = none := if_pos hend
    refine ⟨0, buffer, s, by rw [hsame], rfl, ReadBytes.nil n 0 buffer ?_⟩
    unfold Fat16Mount.cluster
    rw [hstart, Chain.nth_none]
  rw [if_neg hend]
  have hstart : m.cluster s.disk f 0 = some (f.fsSpecific % 65536) := if_neg hend
  obtain ⟨buf, hbuf⟩ := malloc_ok hworks s
  obtain ⟨temp, htemp⟩ := malloc_ok hworks { s with mallocs := s.mallocs + 1 }
  have hpos := Nat.div_add_mod' f.offset m.clusterSize
  obtain ⟨r, buffer', commands, hrun, hread⟩ := read_loop_ok hworks h512 hdisk k
    (f.offset / m.clusterSize) 0 (f.fsSpecific % 65536) (f.offset % m.clusterSize) 0 buffer buf temp
    { s with mallocs := s.mallocs + 1 + 1 } rfl hstart
    (Nat.mod_lt _ h512.clusterSize_pos) (by rw [Nat.zero_add]; omega) (by omega) (by omega)
  rw [Nat.zero_add] at hrun
  rw [Nat.add_zero, Nat.sub_zero] at hread
  refine ⟨r, buffer', { s with mallocs := s.mallocs + 1 + 1, commands := commands }, ?_, rfl, hread⟩
  rw [hbuf]
  simp only [Option.bind_eq_bind, Option.bind_some]
  rw [htemp]
  simp only [Option.bind_some]
  rw [hrun, Option.bind_some]

/-- A read of `n` bytes ends, and brings the bytes of the chain from the offset on that there are,
whatever the FAT holds. -/
theorem read_fat16_slice (hworks : env.Works) (h512 : m.Sectors512) {n k : Nat} {s : BlockState}
    {len : ℕ∞} (hlen : Chain.HasLength (m.nextCluster s.disk) (Fat16Mount.startCluster f) len)
    (hdisk : ReachesOnDisk env m s.disk f f.offset n) (hoffset : f.offset + n < 4294967296)
    (hk : n ≤ k) (buffer : ByteMem) :
    ∃ (r : Nat) (buffer' : ByteMem) (s' : BlockState), readFat16 env m k f buffer n s =
        some (r, buffer', { f with offset := f.offset + r }, s') ∧
      (r : ℕ∞) = min (n : ℕ∞) (len * m.clusterSize - f.offset) ∧
      (∀ i < r, m.chainByte s.disk f (f.offset + i) = some (buffer' i)) ∧
      (∀ i, r ≤ i → buffer' i = buffer i) ∧ s'.disk = s.disk := by
  obtain ⟨r, buffer', s', hrun, hsame, hread⟩ :=
    read_fat16_reads hworks h512 hdisk (by omega) hk buffer
  have hle := hread.slice.le
  rw [add32_of_lt (by omega)] at hrun
  refine ⟨r, buffer', s', hrun, hread.slice.count hlen h512.clusterSize_pos, fun i hi => ?_,
    fun i hi => hread.outside i (by omega), hsame⟩
  have hbyte := hread.bytes i hi
  rwa [Nat.zero_add] at hbyte

/-- The small disk, and a file on it that ends with its first cluster, at an offset two bytes before
that end. -/
def smallMount : Fat16Mount := ⟨0, smallBpb⟩

def smallFile : Fat16File := ⟨510, 2, 512, 0⟩

theorem small_sectors : smallMount.Sectors512 := ⟨rfl, by decide⟩

theorem small_chain : Chain.HasLength (smallMount.nextCluster smallDisk.disk)
    (Fat16Mount.startCluster smallFile) ((1 : Nat) : ℕ∞) :=
  Chain.has_length_of_none (m := 1) (by decide +kernel) (by decide +kernel)

theorem small_reaches : ReachesOnDisk smallEnv smallMount smallDisk.disk smallFile 510 3 := by
  have hlast : smallMount.cluster smallDisk.disk smallFile 1 = none := by decide +kernel
  have honly : ∀ k c, smallMount.cluster smallDisk.disk smallFile k = some c → 2 = c := by
    intro k c hc
    cases k with
    | zero => exact Option.some.inj hc
    | succ k =>
        rw [Fat16Mount.cluster, Chain.nth_none_of_le hlast (by omega)] at hc
        cases hc
  refine ⟨fun k c _ hc => ?_, fun k c _ _ hc => ?_⟩
  · obtain rfl := honly k c hc
    decide
  · obtain rfl := honly k c hc
    decide

/-- Of three bytes that are asked for there are two. -/
theorem read_fat16_slice_small : ∃ (r : Nat) (buffer' : ByteMem) (s' : BlockState),
    readFat16 smallEnv smallMount 3 smallFile (fun _ => 0x00) 3 smallDisk =
        some (r, buffer', { smallFile with offset := 510 + r }, s') ∧
      (r : ℕ∞) = min ((3 : Nat) : ℕ∞) (((1 : Nat) : ℕ∞) * smallMount.clusterSize - (510 : Nat)) ∧
      (∀ i < r, smallMount.chainByte smallDisk.disk smallFile (510 + i) = some (buffer' i)) ∧
      (∀ i, r ≤ i → buffer' i = 0x00) ∧ s'.disk = smallDisk.disk :=
  read_fat16_slice small_volume.works small_sectors small_chain small_reaches (by decide) le_rfl _

end Genesis32
