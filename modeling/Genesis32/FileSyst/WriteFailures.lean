import Genesis32.FileSyst.FailingAllocation

/-!
# Writing through failing commands

`write_fat16` never looks at what `read_disk_block` and `write_disk_block` return. `WriteSafe` is
what a caller can rely on: the bytes around the range, the other files, and a return value that
counts stored bytes. `WriteServed` says, command by command, which of them have to succeed for it:
the device and the pattern of its failures are given, and the scratch memory may hold anything. The
range has to end inside the chain, or inside the first cluster of an empty file, in any case.
-/

namespace Genesis32

open Word

/-! ## The promise -/

/-- The FAT of a volume: the reserved entries are taken and all free entries are those of data
clusters. -/
structure Fat16Mount.FatOk (m : Fat16Mount) (hi : Nat) (disk : ByteMem) : Prop where
  reserved : ReservedTaken m disk
  free : ∀ c < 256 * m.bpb.sectorsPerFat, fatEntry disk m.fatSect c = 0 → m.Available hi disk c

/-- The write of `n` bytes returns, keeps the bytes of the file outside its range and those of all
other files, and the bytes that it counts are stored in the chain of the file. -/
def WriteSafe (env : BlockEnv) (m : Fat16Mount) (hi k : Nat) (f : Fat16File) (buffer : ByteMem)
    (n : Nat) (s : BlockState) : Prop :=
  ∃ r f' s', writeFat16 env m k f buffer n s = some (r, f', s') ∧
    (∀ p b, p < f.offset ∨ f.offset + n ≤ p → m.chainByte s.disk f p = some b →
      m.chainByte s'.disk f' p = some b) ∧
    (∀ g, m.FileOk hi s.disk g → ChainsApart m s.disk f g →
      ∀ p, m.chainByte s'.disk g p = m.chainByte s.disk g p) ∧
    ∀ i < r, m.chainByte s'.disk f' (f.offset + i) = some (buffer i)

/-- The command that reads the sector of a position of the chain, in a write whose first command is
`first`. -/
def readCommand (m : Fat16Mount) (f : Fat16File) (first p : Nat) : Nat :=
  roundCommand m (first + f.offset / m.clusterSize) (f.offset / m.clusterSize)
    (p / m.clusterSize) + p % m.clusterSize / 512

/-- The command that writes it back. -/
def writeCommand (m : Fat16Mount) (f : Fat16File) (first p : Nat) : Nat :=
  readCommand m f first p + m.bpb.sectPerClust

/-- A position of the clusters that a write of `n` bytes reads and writes back. -/
def InRounds (m : Fat16Mount) (f : Fat16File) (n p : Nat) : Prop :=
  f.offset / m.clusterSize ≤ p / m.clusterSize ∧
    p / m.clusterSize ≤ (f.offset + n - 1) / m.clusterSize

/-- The byte of a position behind the range is the one of the cluster before it, which has been read
and does not belong to the range: `cluster_temp` holds it without a read. -/
structure SameBefore (env : BlockEnv) (m : Fat16Mount) (f : Fat16File) (first : Nat)
    (disk : ByteMem) (p : Nat) : Prop where
  later : f.offset / m.clusterSize < p / m.clusterSize
  front : p < f.offset + m.clusterSize
  read : env.Moves (readCommand m f first (p - m.clusterSize))
  same : m.chainByte disk f (p - m.clusterSize) = m.chainByte disk f p

/-- Every sector with a byte of the range is written, and each byte around the range that is written
back has been read. -/
structure DataServed (env : BlockEnv) (m : Fat16Mount) (f : Fat16File) (n first : Nat)
    (disk : ByteMem) : Prop where
  written : ∀ p, f.offset ≤ p → p < f.offset + n → env.Moves (writeCommand m f first p)
  kept : ∀ p, InRounds m f n p → ¬ (f.offset ≤ p ∧ p < f.offset + n) →
    env.Moves (writeCommand m f first p) →
      env.Moves (readCommand m f first p) ∨ SameBefore env m f first disk p

/-- What a write needs of the device: nothing for no byte; inside the chain the reads of the FAT and
the commands of `DataServed`; inside the first cluster of an empty file the read of the first sector
of the FAT, that of a sector with a free entry, and the writes of the sectors of the range. -/
inductive WriteServed (env : BlockEnv) (m : Fat16Mount) (f : Fat16File) (n : Nat)
    (s : BlockState) : Prop where
  | nothing (h : n = 0)
  | inChain (h : (m.cluster s.disk f ((f.offset + n - 1) / m.clusterSize)).isSome)
      (hops : HopsRead env m f n s) (data : DataServed env m f n s.commands s.disk)
  | first (start : EndMark (f.fsSpecific % 65536)) (h : f.offset + n ≤ m.clusterSize)
      (read : env.Moves s.commands) (i : Nat)
      (found : FoundIn env m.bpb m.fatSect s.disk s.commands i)
      (written : ∀ p, f.offset ≤ p → p < f.offset + n →
        env.Moves (writeCommand m f (s.commands + i + 2 * m.bpb.fatCount) p))

variable {env env' : BlockEnv} {m : Fat16Mount} {f g : Fat16File} {s : BlockState} {hi n : Nat}
  {disk disk' buffer : ByteMem}

theorem chain_byte_of_first {f' : Fat16File} (h : f'.fsSpecific = f.fsSpecific) (disk : ByteMem)
    (p : Nat) : m.chainByte disk f' p = m.chainByte disk f p := by
  unfold Fat16Mount.chainByte Fat16Mount.chainAddr
  rw [cluster_of_first h]

theorem chain_byte_isSome {p : Nat} {b : UInt8} (h : m.chainByte disk f p = some b) :
    (m.cluster disk f (p / m.clusterSize)).isSome := by
  unfold Fat16Mount.chainByte Fat16Mount.chainAddr at h
  cases hc : m.cluster disk f (p / m.clusterSize) with
  | none =>
      rw [hc] at h
      cases h
  | some c => rfl

theorem chain_byte_of_reach
    (hreach : (m.cluster disk f ((f.offset + n - 1) / m.clusterSize)).isSome) {p : Nat}
    (hp : p / m.clusterSize ≤ (f.offset + n - 1) / m.clusterSize) :
    ∃ b, m.chainByte disk f p = some b := by
  obtain ⟨c, hc⟩ := Option.isSome_iff_exists.mp (Chain.nth_isSome_of_le hreach hp)
  refine ⟨disk (m.clusterAddr c + p % m.clusterSize), ?_⟩
  unfold Fat16Mount.chainByte Fat16Mount.chainAddr Fat16Mount.cluster
  rw [hc, Option.map_some, Option.map_some]

/-! ## Inside the chain -/

/-- What a write inside the chain leaves of the bytes of the file and of other files, if the reads
of the FAT succeed: `temp i` is `cluster_temp` before the round of the `i`-th cluster. -/
structure FailingBytes (env : BlockEnv) (m : Fat16Mount) (hi : Nat) (f : Fat16File)
    (buffer : ByteMem) (n first : Nat) (disk disk' : ByteMem) (temp : Nat → ByteMem) : Prop where
  next : ∀ p b, InRounds m f n p → m.chainByte disk f p = some b →
    temp (p / m.clusterSize + 1) (p % m.clusterSize) =
      if f.offset ≤ p ∧ p < f.offset + n then buffer (p - f.offset)
      else if env.Moves (readCommand m f first p) then b
      else temp (p / m.clusterSize) (p % m.clusterSize)
  byte : ∀ p b, InRounds m f n p → m.chainByte disk f p = some b →
    m.chainByte disk' f p = some
      (if env.Moves (writeCommand m f first p) then
        temp (p / m.clusterSize + 1) (p % m.clusterSize) else b)
  outside : ∀ p, ¬ InRounds m f n p → m.chainByte disk' f p = m.chainByte disk f p
  others : ∀ g, m.ChainOk hi disk g → ChainsApart m disk f g →
    ∀ p, m.chainByte disk' g p = m.chainByte disk g p

theorem chain_byte_cluster {p : Nat} {b : UInt8} (h : m.chainByte disk f p = some b) :
    ∃ c, m.cluster disk f (p / m.clusterSize) = some c ∧
      disk (m.clusterAddr c + p % m.clusterSize) = b := by
  obtain ⟨a, ha, hb⟩ := Option.map_eq_some_iff.mp h
  obtain ⟨c, hc, rfl⟩ := Option.map_eq_some_iff.mp ha
  exact ⟨c, hc, hb⟩

/-- A byte of a cluster that no round touches is kept. -/
theorem KeptOutside.chain_byte (hp : m.Placed env.sectCount hi) {stop j : Nat}
    (h : KeptOutside m f stop j disk disk') (hg : m.ChainOk hi disk g) {p : Nat}
    (hapart : ∀ i c, j ≤ i → i ≤ (stop - 1) / m.clusterSize → m.cluster disk f i = some c →
      m.cluster disk g (p / m.clusterSize) ≠ some c) :
    m.chainByte disk' g p = m.chainByte disk g p := by
  have hsame := cluster_same hp.volume (fun x hx => h.before hx) hg
  have haddr : m.chainAddr disk' g p = m.chainAddr disk g p := by
    unfold Fat16Mount.chainAddr
    rw [hsame]
  unfold Fat16Mount.chainByte
  rw [haddr]
  cases ha : m.chainAddr disk g p with
  | none => rfl
  | some a =>
      obtain ⟨d, hd, rfl⟩ := Option.map_eq_some_iff.mp ha
      rw [Option.map_some, Option.map_some, h _ fun i c y hji hi hc hy heq => ?_]
      obtain ⟨rfl, _⟩ := cluster_addr_inj hp.toSectors512 (cluster_lt hd).1 (cluster_lt hc).1
        (Nat.mod_lt _ hp.clusterSize_pos) hy heq
      exact hapart i d hji hi hc hd

theorem failing_bytes (hp : m.Placed env.sectCount hi) (hok : m.ChainOk hi disk f)
    (hdistinct : ChainDistinct m f disk) {first : Nat} {temp : Nat → ByteMem}
    (hkept : KeptOutside m f (f.offset + n) (f.offset / m.clusterSize) disk disk')
    (hwrite : FailingWrite env m f buffer f.offset f.offset (f.offset + n)
      (first + f.offset / m.clusterSize) (f.offset / m.clusterSize) temp disk disk') :
    FailingBytes env m hi f buffer n first disk disk' temp where
  next := by
    intro p b hin hb
    obtain ⟨c, hc, rfl⟩ := chain_byte_cluster hb
    have hstep := hwrite.next _ c _ hin.1 hin.2 hc (Nat.mod_lt p hp.clusterSize_pos)
    rwa [Nat.div_add_mod'] at hstep
  byte := by
    intro p b hin hb
    obtain ⟨c, hc, rfl⟩ := chain_byte_cluster hb
    have hstep := hwrite.disk _ c _ hin.1 hin.2 hc (Nat.mod_lt p hp.clusterSize_pos)
    have hsame := cluster_same hp.volume (fun x hx => hkept.before hx) hok
    rw [writeCommand, readCommand, Nat.add_right_comm, ← hstep]
    unfold Fat16Mount.chainByte Fat16Mount.chainAddr
    rw [hsame, hc, Option.map_some, Option.map_some]
  outside := by
    intro p hout
    refine hkept.chain_byte hp hok fun i c hji hi hc hd => hout ?_
    obtain rfl := hdistinct _ _ _ hc hd
    exact ⟨hji, hi⟩
  others := fun g hg hapart p => hkept.chain_byte hp hg fun i c _ _ hc => hapart i _ c hc

/-- A chain that ends has no cluster twice. -/
theorem Fat16Mount.FileOk.distinct (h : m.FileOk hi disk f) : ChainDistinct m f disk := by
  obtain ⟨len, hlen⟩ := h.finite
  exact fun i i' c hc hc' => hlen.nth_inj hc hc'

/-- A write inside the chain of a file, if the reads of the FAT succeed. -/
theorem failing_run (hp : m.Placed env.sectCount hi) (hok : m.ChainOk hi s.disk f)
    (hdistinct : ChainDistinct m f s.disk) {k : Nat} (hn : 1 ≤ n)
    (hreach : (m.cluster s.disk f ((f.offset + n - 1) / m.clusterSize)).isSome) (hk : n ≤ k)
    (hhops : HopsRead env m f n s) (hgranted : ∀ j, (env.scratch j).isSome) {temp : ByteMem}
    (htemp : env.scratch (s.mallocs + 1) = some temp) (buffer : ByteMem) :
    ∃ (temps : Nat → ByteMem) (s' : BlockState), writeFat16 env m k f buffer n s =
        some (n, { f with offset := add32 f.offset n, size := max f.size n }, s') ∧
      temps (f.offset / m.clusterSize) = temp ∧
      FailingBytes env m hi f buffer n s.commands s.disk s'.disk temps := by
  obtain ⟨temps, s', hrun, hstart, hkept, hwrite⟩ :=
    write_fat16_moves hp hok hn hreach hk hhops (hgranted _) htemp buffer
  exact ⟨temps, s', hrun, hstart, failing_bytes hp hok hdistinct hkept (hwrite hdistinct)⟩

/-- The same place one cluster before. -/
theorem block_before {size p : Nat} (hsize : 0 < size) (h : size ≤ p) :
    (p - size) / size + 1 = p / size ∧ (p - size) % size = p % size := by
  obtain ⟨q, rfl⟩ := Nat.exists_eq_add_of_le' h
  rw [Nat.add_sub_cancel, Nat.add_div_right q hsize, Nat.add_mod_right]
  exact ⟨rfl, rfl⟩

/-- The commands of `DataServed` are enough. -/
theorem FailingBytes.safe (hsize : 0 < m.clusterSize) {k : Nat} {f' : Fat16File} {s' : BlockState}
    {temp : Nat → ByteMem} (h : FailingBytes env m hi f buffer n s.commands s.disk s'.disk temp)
    (hrun : writeFat16 env m k f buffer n s = some (n, f', s'))
    (hfirst : f'.fsSpecific = f.fsSpecific) (hn : 1 ≤ n)
    (hreach : (m.cluster s.disk f ((f.offset + n - 1) / m.clusterSize)).isSome)
    (hserved : DataServed env m f n s.commands s.disk) : WriteSafe env m hi k f buffer n s := by
  refine ⟨n, f', s', hrun, fun p b hout hp => ?_, fun g hg hapart => h.others g hg.chain hapart,
    fun i hi => ?_⟩
  · rw [chain_byte_of_first hfirst]
    by_cases hin : InRounds m f n p
    swap
    · rw [h.outside p hin, hp]
    have hrange : ¬ (f.offset ≤ p ∧ p < f.offset + n) := by omega
    rw [h.byte p b hin hp]
    split_ifs with hwritten
    · rw [h.next p b hin hp, if_neg hrange]
      split_ifs with hread
      · rfl
      · -- the byte in the buffer is the one of the cluster before
        have hsame := (hserved.kept p hin hrange hwritten).resolve_left hread
        have hle : m.clusterSize ≤ p := (Nat.div_pos_iff.mp (Nat.zero_lt_of_lt hsame.later)).2
        obtain ⟨hdiv, hmod⟩ := block_before hsize hle
        have hfront := hsame.front
        have hlater := hsame.later
        have hin' : InRounds m f n (p - m.clusterSize) :=
          ⟨by omega, by have hlast := hin.2; omega⟩
        rw [← hdiv, ← hmod, h.next _ b hin' (hsame.same.trans hp),
          if_neg (show ¬ (f.offset ≤ p - m.clusterSize ∧ _) by omega), if_pos hsame.read]
    · rfl
  · have hin : InRounds m f n (f.offset + i) :=
      ⟨Nat.div_le_div_right (by omega), Nat.div_le_div_right (by omega)⟩
    obtain ⟨b, hp⟩ := chain_byte_of_reach hreach hin.2
    rw [chain_byte_of_first hfirst, h.byte _ b hin hp,
      if_pos (hserved.written _ (by omega) (by omega)), h.next _ b hin hp, if_pos (by omega),
      Nat.add_sub_cancel_left]

/-- A byte that differs from a given one. -/
theorem exists_other_byte (b : UInt8) : ∃ v : UInt8, v ≠ b := by
  by_cases hb : b = 0x00
  · exact ⟨0x01, hb ▸ by decide⟩
  · exact ⟨0x00, Ne.symm hb⟩

/-- They are necessary: otherwise some scratch memory and some buffer break the promise. -/
theorem data_served_of_safe (hp : m.Placed env.sectCount hi) (hfile : m.FileOk hi s.disk f)
    {k : Nat} (hn : 1 ≤ n)
    (hreach : (m.cluster s.disk f ((f.offset + n - 1) / m.clusterSize)).isSome) (hk : n ≤ k)
    (hhops : HopsRead env m f n s) (hgranted : ∀ j, (env.scratch j).isSome)
    (h : ∀ env', env.SameDevice env' → ∀ buffer, WriteSafe env' m hi k f buffer n s) :
    DataServed env m f n s.commands s.disk := by
  have hsize := hp.clusterSize_pos
  -- a run with one value in the scratch memory and one in the buffer
  have hrun : ∀ v : UInt8, ∃ (temps : Nat → ByteMem) (s' : BlockState),
      temps (f.offset / m.clusterSize) = (fun _ => v) ∧
      FailingBytes env m hi f (fun _ => v) n s.commands s.disk s'.disk temps ∧
      (∀ p b, p < f.offset ∨ f.offset + n ≤ p → m.chainByte s.disk f p = some b →
        m.chainByte s'.disk f p = some b) ∧
      ∀ i < n, m.chainByte s'.disk f (f.offset + i) = some v := by
    intro v
    obtain ⟨buf, hbuf⟩ := Option.isSome_iff_exists.mp (hgranted (s.mallocs + 1))
    have hsame := env.fill_scratch_same v
    obtain ⟨temps, s', hwrite, hstart, hbytes⟩ := failing_run
      (show m.Placed (env.fillScratch v).sectCount hi from hp) hfile.chain hfile.distinct hn hreach
      hk (hhops.same hsame) (fun j => (hsame.granted j).trans (hgranted j))
      (BlockEnv.fill_scratch_some v hbuf) fun _ => v
    obtain ⟨r, f', s'', hwrite', hkept, _, hstored⟩ := h _ hsame fun _ => v
    obtain ⟨rfl, hpair⟩ := Prod.mk.inj (Option.some.inj (hwrite.symm.trans hwrite'))
    obtain ⟨rfl, rfl⟩ := Prod.mk.inj hpair
    exact ⟨temps, s', hstart, ⟨hbytes.next, hbytes.byte, hbytes.outside, hbytes.others⟩,
      hkept, hstored⟩
  constructor
  · intro p hlo hhi
    by_contra hnot
    have hin : InRounds m f n p := ⟨Nat.div_le_div_right hlo, Nat.div_le_div_right (by omega)⟩
    obtain ⟨b, hb⟩ := chain_byte_of_reach hreach hin.2
    obtain ⟨v, hv⟩ := exists_other_byte b
    obtain ⟨temps, s', _, hbytes, _, hstored⟩ := hrun v
    have hbyte := hstored (p - f.offset) (by omega)
    rw [show f.offset + (p - f.offset) = p by omega, hbytes.byte p b hin hb, if_neg hnot] at hbyte
    exact hv (Option.some.inj hbyte).symm
  · intro p hin hrange hwritten
    by_contra hnot
    rw [not_or] at hnot
    obtain ⟨hread, hbefore⟩ := hnot
    obtain ⟨b, hb⟩ := chain_byte_of_reach hreach hin.2
    -- what the buffer holds at that place is written over the byte
    have hstale : ∀ (v : UInt8) (temps : Nat → ByteMem) (s' : BlockState),
        FailingBytes env m hi f (fun _ => v) n s.commands s.disk s'.disk temps →
        (∀ p b, p < f.offset ∨ f.offset + n ≤ p → m.chainByte s.disk f p = some b →
          m.chainByte s'.disk f p = some b) →
        temps (p / m.clusterSize) (p % m.clusterSize) = b := by
      intro v temps s' hbytes hkept
      have hbyte := hkept p b (by omega) hb
      rw [hbytes.byte p b hin hb, if_pos hwritten, hbytes.next p b hin hb, if_neg hrange,
        if_neg hread] at hbyte
      exact Option.some.inj hbyte
    obtain ⟨v, hv⟩ := exists_other_byte b
    obtain ⟨temps, s', hstart, hbytes, hkept, _⟩ := hrun v
    have hbuf := hstale v temps s' hbytes hkept
    rcases Nat.eq_or_lt_of_le hin.1 with heq | hlater
    · rw [← heq, hstart] at hbuf
      exact hv hbuf
    · have hle : m.clusterSize ≤ p := (Nat.div_pos_iff.mp (Nat.zero_lt_of_lt hlater)).2
      obtain ⟨hdiv, hmod⟩ := block_before hsize hle
      have hin' : InRounds m f n (p - m.clusterSize) := ⟨by omega, by have hlast := hin.2; omega⟩
      obtain ⟨b', hb'⟩ := chain_byte_of_reach hreach hin'.2
      have hnext := hbytes.next _ b' hin' hb'
      rw [hdiv, hmod, hbuf] at hnext
      -- the range ends in the last cluster, so the place before is in the range or in front of it
      have hend : p < f.offset + n + m.clusterSize := by
        have hlast := (Nat.div_lt_iff_lt_mul hsize).mp (Nat.lt_succ_of_le hin.2)
        have hdown := Nat.div_mul_le_self (f.offset + n - 1) m.clusterSize
        rw [Nat.succ_mul] at hlast
        omega
      split_ifs at hnext with hrange' hread'
      · exact hv hnext.symm
      · refine hbefore ⟨hlater, by omega, hread', ?_⟩
        rw [hb', hb, hnext]
      · -- in the first cluster, of which the sector has not been read either
        have hone : f.offset / m.clusterSize = (p - m.clusterSize) / m.clusterSize :=
          le_antisymm hin'.1 (Nat.div_le_div_right (by omega))
        rw [← hone, hstart] at hnext
        exact hv hnext.symm

/-! ## An empty file -/

/-- The first cluster of an empty file, of which the FAT may not show that it is taken. -/
structure FirstTaken (env : BlockEnv) (m : Fat16Mount) (hi : Nat) (f : Fat16File) (c i : Nat)
    (s s₁ : BlockState) : Prop where
  run : firstCluster env m f s = some (f.withFirst c, s₁)
  available : m.Available hi s.disk c
  taken : TakenFirst m c s.disk s₁.disk
  commands : s₁.commands = s.commands + i + 2 * m.bpb.fatCount

theorem first_taken (hm : m.MountedOn env.sectCount hi) (hfat : m.FatOk hi s.disk)
    (hstart : EndMark (f.fsSpecific % 65536)) {buf : ByteMem}
    (hscratch : env.scratch s.mallocs = some buf) (hsearch : NoZero buf ∨ env.Moves s.commands)
    {i : Nat} (hfound : FoundIn env m.bpb m.fatSect s.disk s.commands i) :
    ∃ c s₁, FirstTaken env m hi f c i s s₁ := by
  obtain ⟨c, s₁, hrun, htaken, hcommands, _⟩ :=
    get_free_cluster_found hm hstart hscratch hsearch hfound
  exact ⟨c, s₁, first_cluster_taken hstart (hm.mounted.fatSect_eq ▸ hrun),
    hfat.free c htaken.inFat htaken.free, htaken, hcommands⟩

namespace FirstTaken

variable {c i : Nat} {s₁ : BlockState}

theorem not_end_mark (h : FirstTaken env m hi f c i s s₁) :
    ¬ EndMark ((f.withFirst c).fsSpecific % 65536) := h.available.not_end_mark

/-- The file has that cluster and no other. -/
theorem chain (h : FirstTaken env m hi f c i s s₁) :
    m.cluster s₁.disk (f.withFirst c) 0 = some c ∧
      m.cluster s₁.disk (f.withFirst c) 1 = none := by
  have hc16 : c % 65536 = c := Nat.mod_eq_of_lt h.available.data.word
  have hfirst : m.cluster s₁.disk (f.withFirst c) 0 = some c := by
    show Fat16Mount.startCluster (f.withFirst c) = some c
    unfold Fat16Mount.startCluster
    rw [if_neg h.not_end_mark, hc16]
  refine ⟨hfirst, ?_⟩
  rw [Fat16Mount.cluster, Chain.nth_succ_of_some hfirst]
  refine if_pos ?_
  rcases h.taken.set with hzero | hmark
  · rw [hzero]
    decide
  · rw [hmark]
    decide

theorem chain_ok (h : FirstTaken env m hi f c i s s₁) : m.ChainOk hi s₁.disk (f.withFirst c) :=
  chain_ok_single h.chain.1 h.chain.2 h.available.data

theorem index_zero (h : FirstTaken env m hi f c i s s₁) {j d : Nat}
    (hd : m.cluster s₁.disk (f.withFirst c) j = some d) : j = 0 := by
  cases j with
  | zero => rfl
  | succ j =>
      rw [Fat16Mount.cluster, Chain.nth_none_of_le h.chain.2 (by omega)] at hd
      cases hd

theorem distinct (h : FirstTaken env m hi f c i s s₁) :
    ChainDistinct m (f.withFirst c) s₁.disk := fun j j' d hd hd' => by
  rw [h.index_zero hd, h.index_zero hd']

/-- The bytes of the other files stay where they are. -/
theorem chain_byte (h : FirstTaken env m hi f c i s s₁) (hfats : 1 ≤ m.bpb.fatCount)
    (hg : m.FileOk hi s.disk g) (p : Nat) :
    m.chainByte s₁.disk g p = m.chainByte s.disk g p := by
  have haddr : m.chainAddr s₁.disk g p = m.chainAddr s.disk g p := by
    unfold Fat16Mount.chainAddr
    rw [h.taken.marked.cluster_eq hg.chain]
  unfold Fat16Mount.chainByte
  rw [haddr]
  cases ha : m.chainAddr s.disk g p with
  | none => rfl
  | some a =>
      have hdata := data_le_chain_addr ha
      have hone := fat_sect_le_data_sect hfats
      have hfat : m.fatSect + m.bpb.fatCount * m.bpb.sectorsPerFat ≤ m.dataSect := by
        rw [Nat.mul_comm]
        exact Nat.le_add_right _ _
      have hentry : fatEntryAddr m.fatSect c + 2 ≤ 512 * (m.fatSect + m.bpb.sectorsPerFat) := by
        have hin := h.taken.inFat
        unfold fatEntryAddr
        omega
      rw [Option.map_some, Option.map_some,
        h.taken.rest a (Or.inr (by omega)) (Or.inr (by omega))]

/-- The cluster belonged to no other file. -/
theorem apart (h : FirstTaken env m hi f c i s s₁) (hg : m.FileOk hi s.disk g) :
    ChainsApart m s₁.disk (f.withFirst c) g := by
  intro j j' d hd hd'
  obtain rfl := h.index_zero hd
  obtain rfl := Option.some.inj (h.chain.1.symm.trans hd)
  rw [h.taken.marked.cluster_eq hg.chain] at hd'
  exact hg.taken j' c hd' h.taken.free

end FirstTaken

/-- The run of a write into that cluster. -/
theorem first_run (hm : m.MountedOn env.sectCount hi) {c i k : Nat} {s₁ : BlockState}
    (h : FirstTaken env m hi f c i s s₁) (hn : 1 ≤ n) (hk : n ≤ k)
    (hfits : f.offset + n ≤ m.clusterSize) (hgranted : ∀ j, (env.scratch j).isSome)
    (buffer : ByteMem) :
    ∃ (temps : Nat → ByteMem) (f' : Fat16File) (s' : BlockState),
      writeFat16 env m k f buffer n s = some (n, f', s') ∧ f'.fsSpecific = c ∧
      FailingBytes env m hi (f.withFirst c) buffer n s₁.commands s₁.disk s'.disk temps := by
  obtain ⟨temp, htemp⟩ := Option.isSome_iff_exists.mp (hgranted (s₁.mallocs + 1))
  have hlast : (f.offset + n - 1) / m.clusterSize = 0 := Nat.div_eq_of_lt (by omega)
  obtain ⟨temps, s', hrun, _, hbytes⟩ := failing_run (f := f.withFirst c) hm.toPlaced h.chain_ok
    h.distinct hn
    (show (m.cluster s₁.disk (f.withFirst c) ((f.offset + n - 1) / m.clusterSize)).isSome by
      rw [hlast, h.chain.1]; rfl)
    hk (fun _ j hj hj' => absurd hj' (show ¬ j ≤ (f.offset + n - 1) / m.clusterSize by omega))
    hgranted htemp buffer
  exact ⟨temps, _, s', (write_fat16_first h.run h.not_end_mark hn).trans hrun, rfl, hbytes⟩

/-- It keeps the promise exactly if the sectors of the range are written. -/
theorem first_safe_iff (hm : m.MountedOn env.sectCount hi) (hstart : EndMark (f.fsSpecific % 65536))
    {c i k : Nat} {s₁ : BlockState} (h : FirstTaken env m hi f c i s s₁) (hn : 1 ≤ n) (hk : n ≤ k)
    (hfits : f.offset + n ≤ m.clusterSize) (hgranted : ∀ j, (env.scratch j).isSome) :
    (∀ buffer, WriteSafe env m hi k f buffer n s) ↔ ∀ p, f.offset ≤ p → p < f.offset + n →
      env.Moves (writeCommand m f (s.commands + i + 2 * m.bpb.fatCount) p) := by
  have hlast : (f.offset + n - 1) / m.clusterSize = 0 := Nat.div_eq_of_lt (by omega)
  have hreach : (m.cluster s₁.disk (f.withFirst c)
      (((f.withFirst c).offset + n - 1) / m.clusterSize)).isSome := by
    show (m.cluster s₁.disk (f.withFirst c) ((f.offset + n - 1) / m.clusterSize)).isSome
    rw [hlast, h.chain.1]
    rfl
  have hin : ∀ p, f.offset ≤ p → p < f.offset + n → InRounds m (f.withFirst c) n p :=
    fun p hlo hhi => ⟨Nat.div_le_div_right hlo, Nat.div_le_div_right (show p ≤ f.offset + n - 1 by
      omega)⟩
  have hcommand : ∀ p, writeCommand m (f.withFirst c) s₁.commands p =
      writeCommand m f (s.commands + i + 2 * m.bpb.fatCount) p := fun p => by
    rw [h.commands]
    rfl
  constructor
  · intro hsafe p hlo hhi
    by_contra hnot
    obtain ⟨b, hb⟩ := chain_byte_of_reach hreach (hin p hlo hhi).2
    obtain ⟨v, hv⟩ := exists_other_byte b
    obtain ⟨temps, f', s', hrun, hfirst, hbytes⟩ := first_run hm h hn hk hfits hgranted fun _ => v
    obtain ⟨r, f'', s'', hrun', _, _, hstored⟩ := hsafe fun _ => v
    obtain ⟨rfl, hpair⟩ := Prod.mk.inj (Option.some.inj (hrun.symm.trans hrun'))
    obtain ⟨rfl, rfl⟩ := Prod.mk.inj hpair
    have hbyte := hstored (p - f.offset) (by omega)
    rw [show f.offset + (p - f.offset) = p by omega,
      chain_byte_of_first (f := f.withFirst c) hfirst, hbytes.byte p b (hin p hlo hhi) hb, hcommand,
      if_neg hnot] at hbyte
    exact hv (Option.some.inj hbyte).symm
  · intro hwritten buffer
    obtain ⟨temps, f', s', hrun, hfirst, hbytes⟩ := first_run hm h hn hk hfits hgranted buffer
    refine ⟨n, f', s', hrun, fun p b _ hb => ?_, fun g hg hapart p => ?_, fun j hj => ?_⟩
    · -- an empty file has no bytes
      obtain ⟨d, hd, _⟩ := chain_byte_cluster hb
      unfold Fat16Mount.cluster at hd
      rw [show Fat16Mount.startCluster f = none from if_pos hstart, Chain.nth_none] at hd
      cases hd
    · rw [hbytes.others g (fun j d hd => hg.chain j d
        (by rwa [h.taken.marked.cluster_eq hg.chain] at hd)) (h.apart hg) p,
        h.chain_byte hm.fats hg]
    · have hin' := hin (f.offset + j) (by omega) (by omega)
      obtain ⟨b, hb⟩ := chain_byte_of_reach hreach hin'.2
      rw [chain_byte_of_first (f := f.withFirst c) hfirst, hbytes.byte _ b hin' hb, hcommand,
        if_pos (hwritten _ (by omega) (by omega)), hbytes.next _ b hin' hb,
        if_pos (show f.offset ≤ _ ∧ _ < f.offset + n by omega)]
      exact congrArg (fun x => some (buffer x)) (Nat.add_sub_cancel_left f.offset j)

/-! ## What has to hold for any pattern of failures -/

/-- The outer loop leaves the first cluster of the file alone. -/
theorem write_loop_first {size : Nat} {file' : Fat16File} {s' : BlockState} {r : Nat} :
    ∀ (k h x cur idx : Nat) (file : Fat16File) (buf temp : ByteMem) (s : BlockState),
      writeLoop env m buffer size k h x cur idx file buf temp s = some (r, file', s') →
      file'.fsSpecific = file.fsSpecific := by
  intro k
  induction k with
  | zero =>
      intro h x cur idx file buf temp s hrun
      cases hrun
  | succ k ih =>
      intro h x cur idx file buf temp s hrun
      rw [writeLoop] at hrun
      cases hhops : writeHops env m h cur file.dirtyBit buf s with
      | none =>
          rw [hhops] at hrun
          cases hrun
      | some t =>
          obtain ⟨c, dirtyBit, buf₁, s₁⟩ := t
          rw [hhops] at hrun
          simp only at hrun
          split_ifs at hrun
          · obtain ⟨_, hpair⟩ := Prod.mk.inj (Option.some.inj hrun)
            obtain ⟨rfl, _⟩ := Prod.mk.inj hpair
            rfl
          · have hrest := ih _ _ _ _ _ _ _ _ hrun
            exact hrest

/-- So a write that allocates a number that ends a chain stores nothing that can be found. -/
theorem not_safe_of_mark (hn : 1 ≤ n) {k c : Nat} {s₁ : BlockState}
    (hstart : EndMark (f.fsSpecific % 65536)) (hmark : EndMark (c % 65536))
    (hget : getFreeCluster env m.bpb (add32 m.startSect m.bpb.reservedSectors)
      (f.fsSpecific % 65536) s = some (c, s₁)) : ¬ WriteSafe env m hi k f buffer n s := by
  rintro ⟨r, f', s', hrun, _, _, hstored⟩
  obtain rfl := write_fat16_returns hrun
  have hfirst : f'.fsSpecific = c := by
    unfold writeFat16 at hrun
    rw [if_neg (by omega), first_cluster_taken hstart hget] at hrun
    simp only [Option.bind_eq_bind, Option.bind_some] at hrun
    obtain ⟨_, _, hrun⟩ := Option.bind_eq_some_iff.mp hrun
    obtain ⟨_, _, hrun⟩ := Option.bind_eq_some_iff.mp hrun
    exact write_loop_first _ _ _ _ _ _ _ _ _ hrun
  obtain ⟨d, hd, _⟩ := chain_byte_cluster (hstored 0 (by omega))
  unfold Fat16Mount.cluster Fat16Mount.startCluster at hd
  rw [hfirst, if_pos hmark, Chain.nth_none] at hd
  cases hd

/-- The device with scratch memory in which a search finds nothing, and harmless locals. -/
def BlockEnv.filledEnv (env : BlockEnv) : BlockEnv :=
  { env with
    scratch := fun _ => some fun _ => 0xff
    newClusterSector := fun _ => 0
    curClusterSectNo := fun _ => 0xffff }

theorem BlockEnv.filled_env_filled (env : BlockEnv) : env.filledEnv.Filled where
  newSector := fun _ => rfl
  curSector := fun _ => rfl
  scratch := fun _ => rfl

theorem BlockEnv.filled_env_same (hgranted : ∀ j, (env.scratch j).isSome) :
    env.SameDevice env.filledEnv where
  sectCount := rfl
  moved := rfl
  granted := fun j => (hgranted j).symm

/-- A write that keeps the promise to a file with clusters ends inside its chain. -/
theorem in_chain_of_safe (hm : m.MountedOn env.sectCount hi) (hfilled : env.Filled)
    (hreserved : ReservedTaken m s.disk) (hok : m.ChainOk hi s.disk f)
    (hstart : ¬ EndMark (f.fsSpecific % 65536)) (hn : 1 ≤ n) {k : Nat} (hk : n ≤ k)
    (h : WriteSafe env m hi k f buffer n s) :
    (m.cluster s.disk f ((f.offset + n - 1) / m.clusterSize)).isSome := by
  obtain ⟨r, f', s', hrun, _, _, hstored⟩ := h
  obtain rfl := write_fat16_returns hrun
  have hc : 2 ≤ f.fsSpecific % 65536 := by
    unfold EndMark at hstart
    omega
  obtain ⟨f'', s'', _, hrun', hfirst, _, hmarked⟩ := write_fat16_inv
    (entries_marked_inv hm hfilled hreserved) hm.clusterSize_pos hn hk buffer
    (first_cluster_kept hstart) ⟨⟨hc, Nat.mod_lt _ (by decide)⟩, EntriesMarked.refl m s.disk⟩
  simp only [hrun, Option.some.injEq, Prod.mk.injEq] at hrun'
  obtain ⟨_, rfl, rfl⟩ := hrun'
  have hlast := chain_byte_isSome (hstored (r - 1) (by omega))
  rwa [show f.offset + (r - 1) = f.offset + r - 1 by omega, cluster_of_first hfirst,
    hmarked.cluster_eq hok] at hlast

/-- One that keeps it to an empty file ends inside the cluster that the file gets. -/
theorem fits_of_safe (hm : m.MountedOn env.sectCount hi) (hfilled : env.Filled)
    (hreserved : ReservedTaken m s.disk) {c i k : Nat} {s₁ : BlockState}
    (h : FirstTaken env m hi f c i s s₁) (hn : 1 ≤ n) (hk : n ≤ k)
    (hsafe : WriteSafe env m hi k f buffer n s) : f.offset + n ≤ m.clusterSize := by
  obtain ⟨r, f', s', hrun, _, _, hstored⟩ := hsafe
  obtain rfl := write_fat16_returns hrun
  rw [write_fat16_first h.run h.not_end_mark hn] at hrun
  obtain ⟨f'', s'', _, hrun', hfirst, _, hmarked⟩ := write_fat16_inv
    (entries_marked_inv hm hfilled (h.taken.marked.reserved hm.accepted.sectors.1 hreserved))
    hm.clusterSize_pos hn hk buffer (first_cluster_kept h.not_end_mark)
    ⟨⟨by have htwo := h.available.data.two
         have hword := h.available.data.word
         show 2 ≤ c % 65536
         omega, Nat.mod_lt _ (by decide)⟩, EntriesMarked.refl m s₁.disk⟩
  simp only [hrun, Option.some.injEq, Prod.mk.injEq] at hrun'
  obtain ⟨_, rfl, rfl⟩ := hrun'
  obtain ⟨d, hd⟩ := Option.isSome_iff_exists.mp
    (chain_byte_isSome (hstored (r - 1) (by omega)))
  rw [cluster_of_first hfirst, hmarked.cluster_eq h.chain_ok] at hd
  have hzero := h.index_zero hd
  have hlt := (Nat.div_lt_iff_lt_mul hm.clusterSize_pos).mp
    (show (f.offset + (r - 1)) / m.clusterSize < 1 by omega)
  omega

/-! ## The condition -/

theorem FoundIn.same {b : Fat16Bpb} {startFat first i : Nat}
    (h : FoundIn env b startFat disk first i) (hsame : env.SameDevice env') :
    FoundIn env' b startFat disk first i where
  sector := h.sector
  read := (hsame.moves _).mpr h.read
  free := h.free
  before := fun i' hi hmoves => h.before i' hi ((hsame.moves _).mp hmoves)

theorem DataServed.same {first : Nat} (h : DataServed env m f n first disk)
    (hsame : env.SameDevice env') : DataServed env' m f n first disk where
  written := fun p hlo hhi => (hsame.moves _).mpr (h.written p hlo hhi)
  kept := fun p hin hrange hwritten => by
    refine (h.kept p hin hrange ((hsame.moves _).mp hwritten)).imp (hsame.moves _).mpr
      fun hbefore => ?_
    exact ⟨hbefore.later, hbefore.front, (hsame.moves _).mpr hbefore.read, hbefore.same⟩

/-- A write that the device serves keeps the promise, whatever the scratch memory holds. -/
theorem WriteServed.safe (hm : m.MountedOn env.sectCount hi) (hfat : m.FatOk hi s.disk)
    (hfile : m.FileOk hi s.disk f) (hgranted : ∀ j, (env.scratch j).isSome) {k : Nat} (hk : n ≤ k)
    (h : WriteServed env m f n s) (hsame : env.SameDevice env') (buffer : ByteMem) :
    WriteSafe env' m hi k f buffer n s := by
  have hm' : m.MountedOn env'.sectCount hi := hsame.sectCount ▸ hm
  have hgranted' : ∀ j, (env'.scratch j).isSome := fun j => (hsame.granted j).trans (hgranted j)
  rcases Nat.eq_zero_or_pos n with rfl | hn
  · exact ⟨0, f, s, rfl, fun _ _ _ hb => hb, fun _ _ _ _ => rfl, fun _ hi =>
      absurd hi (Nat.not_lt_zero _)⟩
  cases h with
  | nothing h => omega
  | inChain hreach hops data =>
      obtain ⟨temp, htemp⟩ := Option.isSome_iff_exists.mp (hgranted' (s.mallocs + 1))
      obtain ⟨temps, s', hrun, _, hbytes⟩ := failing_run hm'.toPlaced hfile.chain hfile.distinct hn
        hreach hk (hops.same hsame) hgranted' htemp buffer
      exact hbytes.safe hm.clusterSize_pos hrun rfl hn hreach (data.same hsame)
  | first start hfits read i found written =>
      obtain ⟨buf, hbuf⟩ := Option.isSome_iff_exists.mp (hgranted' s.mallocs)
      obtain ⟨c, s₁, hfirst⟩ := first_taken hm' hfat start hbuf
        (Or.inr ((hsame.moves _).mpr read)) (found.same hsame)
      exact (first_safe_iff hm' start hfirst hn hk hfits hgranted').mpr
        (fun p hlo hhi => (hsame.moves _).mpr (written p hlo hhi)) buffer

/-- The promise to an empty file needs the read of the first sector of the FAT: zeros in the scratch
memory would be taken for the entry 0. -/
theorem first_read_of_safe (hm : m.MountedOn env.sectCount hi)
    (hstart : EndMark (f.fsSpecific % 65536)) (hgranted : ∀ j, (env.scratch j).isSome) (hn : 1 ≤ n)
    {k : Nat} (h : ∀ env', env.SameDevice env' → ∀ buffer, WriteSafe env' m hi k f buffer n s) :
    env.Moves s.commands := by
  by_contra hnot
  obtain ⟨buf, hbuf⟩ := Option.isSome_iff_exists.mp (hgranted s.mallocs)
  have hle := fat_sect_le_data_sect hm.fats
  have hdata := hm.dataStart
  have hdisk := hm.onDisk
  have hspf := hm.accepted.sectors.1
  obtain ⟨v, hv, s₁, hget⟩ := search_takes_word (BlockEnv.fill_scratch_some 0x00 hbuf)
    hm.size (show m.fatSect < env.sectCount by omega) hspf (f.fsSpecific % 65536) (x := 0)
    (by rw [Fat16Bpb.entriesPerSect, hm.bytes]; decide) (by decide) (by
      rw [if_neg (show ¬ (env.fillScratch 0x00).Moves s.commands from hnot)]
      rfl)
  obtain rfl : v = 0 := by omega
  exact not_safe_of_mark hn hstart (by decide) (hm.mounted.fatSect_eq ▸ hget)
    (h _ (env.fill_scratch_same 0x00) fun _ => 0x00)

/-- For every device, pattern of failures, file, offset and length: a write that is served keeps the
promise for every buffer and everything that the scratch memory may hold, and one that keeps it for
all of them is served, if no read of the FAT fails on its way along the chain. -/
theorem write_failures_iff (hm : m.MountedOn env.sectCount hi) (hfat : m.FatOk hi s.disk)
    (hfile : m.FileOk hi s.disk f) (hgranted : ∀ j, (env.scratch j).isSome) {k : Nat}
    (hk : n ≤ k) :
    (WriteServed env m f n s →
      ∀ env', env.SameDevice env' → ∀ buffer, WriteSafe env' m hi k f buffer n s) ∧
    ((∀ env', env.SameDevice env' → ∀ buffer, WriteSafe env' m hi k f buffer n s) →
      WriteServed env m f n s ∨
        (m.cluster s.disk f ((f.offset + n - 1) / m.clusterSize)).isSome ∧
          ¬ HopsRead env m f n s) := by
  refine ⟨fun h env' hsame buffer => h.safe hm hfat hfile hgranted hk hsame buffer, fun h => ?_⟩
  rcases Nat.eq_zero_or_pos n with hzero | hn
  · exact Or.inl (WriteServed.nothing hzero)
  have hfilled : m.MountedOn env.filledEnv.sectCount hi := hm
  have hsafe := h _ (BlockEnv.filled_env_same hgranted) fun _ => 0x00
  by_cases hstart : EndMark (f.fsSpecific % 65536)
  · have hread := first_read_of_safe hm hstart hgranted hn h
    by_cases hfound : ∃ i, FoundIn env m.bpb m.fatSect s.disk s.commands i
    · obtain ⟨i, hfound⟩ := hfound
      obtain ⟨c, s₁, hfirst⟩ := first_taken hfilled hfat hstart rfl (Or.inr hread)
        (hfound.same (BlockEnv.filled_env_same hgranted))
      have hfits := fits_of_safe hfilled env.filled_env_filled hfat.reserved hfirst hn hk hsafe
      refine Or.inl (WriteServed.first hstart hfits hread i hfound ?_)
      exact (first_safe_iff hfilled hstart hfirst hn hk hfits fun _ => rfl).mp
        (h _ (BlockEnv.filled_env_same hgranted))
    · -- no entry is found, and the file gets the number that stands for no cluster
      obtain ⟨s₁, hget, _⟩ := get_free_cluster_missing
        (show m.MountedOn env.filledEnv.sectCount hi from hm) (f.fsSpecific % 65536) (s := s) rfl
        (Or.inr hread) fun i hi =>
          hfound ⟨i, hi.same (BlockEnv.filled_env_same hgranted).symm⟩
      exact absurd hsafe
        (not_safe_of_mark hn hstart (by decide) (hm.mounted.fatSect_eq ▸ hget))
  · have hreach := in_chain_of_safe hfilled env.filled_env_filled hfat.reserved hfile.chain hstart
      hn hk hsafe
    by_cases hhops : HopsRead env m f n s
    · exact Or.inl (WriteServed.inChain hreach hhops
        (data_served_of_safe hm.toPlaced hfile hn hreach hk hhops hgranted h))
    · exact Or.inr ⟨hreach, hhops⟩

/-- The small device with scratch memory that is not zero, whose first command fails. -/
def staleEnv : BlockEnv :=
  { smallEnv with
    moved := fun n total => if n = 0 then 0 else total
    scratch := fun _ => some fun _ => 0xaa }

/-- The write of one byte changes the first byte of the file to what the scratch memory held, when
the read of the cluster fails and the command that writes it back does not. -/
theorem stale_cluster_written :
    ¬ WriteSafe staleEnv smallMount 10 1 smallFile (fun _ => 0x41) 1 nearlyFullDisk := by
  intro hall
  obtain ⟨r, f', s', hrun, hown, _⟩ := hall
  have hstale : (writeFat16 staleEnv smallMount 1 smallFile (fun _ => 0x41) 1
      nearlyFullDisk).map (fun t => smallMount.chainByte t.2.2.disk t.2.1 0) =
        some (some 0xaa) := by decide +kernel
  have hkept := hown 0 0x00 (Or.inl (by decide)) (by decide +kernel)
  rw [hrun, Option.map_some, hkept] at hstale
  exact absurd hstale (by decide)

/-- A device whose fourth command fails. -/
def fourthFailsEnv : BlockEnv :=
  { smallEnv with moved := fun n total => if n = 3 then 0 else total }

theorem pair_file_ok : smallMount.FileOk 10 pairDisk.disk pairFile where
  chain := pair_chain_ok
  taken := fun k c hc => by
    by_cases hk : k < 2
    · obtain rfl := Option.some.inj ((pair_clusters k hk).symm.trans hc)
      have hentry : ∀ k < 2, fatEntry pairDisk.disk smallMount.fatSect (k + 2) ≠ 0 := by
        decide +kernel
      exact hentry k hk
    · rw [Fat16Mount.cluster, Chain.nth_none_of_le pair_end (by omega)] at hc
      cases hc
  finite := ⟨2, pair_chain⟩

theorem pair_fat_ok : smallMount.FatOk 10 pairDisk.disk where
  reserved := ⟨by decide +kernel, by decide +kernel⟩
  free := fun c hc hzero => by
    have hfree : ∀ c < 256, fatEntry pairDisk.disk 1 c = 0 → c = 4 := by decide +kernel
    obtain rfl := hfree c hc hzero
    exact ⟨⟨by decide, by decide, by decide, by decide⟩, by decide, hzero⟩

/-- A write from the last bytes of the first cluster to the end of the second is served: the command
that fails is the one that reads the second cluster, which the write covers. -/
theorem pair_served : WriteServed fourthFailsEnv smallMount pairFile 524 pairDisk := by
  have hread : ∀ p, readCommand smallMount pairFile 0 p = p / 512 * 3 + p % 512 / 512 := fun p => by
    show 0 + 500 / 512 + (p / 512 - 500 / 512) * 3 + p % 512 / 512 = _
    omega
  have hwrite : ∀ p, writeCommand smallMount pairFile 0 p = p / 512 * 3 + p % 512 / 512 + 1 :=
    fun p => congrArg (· + 1) (hread p)
  have hmoves : ∀ n, fourthFailsEnv.Moves n ↔ n ≠ 3 := fun n => by
    show 1 ≤ (if n = 3 then 0 else 1) ↔ n ≠ 3
    split_ifs <;> omega
  refine WriteServed.inChain (by decide +kernel) (fun _ j hj hj' => ?_) ⟨fun p hlo hhi => ?_,
    fun p hin hrange _ => ?_⟩
  · obtain rfl : j = 1 := le_antisymm hj' hj
    decide
  · have hlo' : 500 ≤ p := hlo
    have hhi' : p < 500 + 524 := hhi
    show fourthFailsEnv.Moves (writeCommand smallMount pairFile 0 p)
    rw [hmoves, hwrite]
    omega
  · left
    have hlast : p / 512 ≤ (500 + 524 - 1) / 512 := hin.2
    have hrange' : ¬ (500 ≤ p ∧ p < 500 + 524) := hrange
    show fourthFailsEnv.Moves (readCommand smallMount pairFile 0 p)
    rw [hmoves, hread]
    omega

/-- So the last bytes of the first cluster and the whole second cluster are written as promised. -/
theorem write_failures_iff_pair :
    WriteServed fourthFailsEnv smallMount pairFile 524 pairDisk ∧
      ∀ env', fourthFailsEnv.SameDevice env' → ∀ buffer,
        WriteSafe env' smallMount 10 524 pairFile buffer 524 pairDisk :=
  ⟨pair_served, (write_failures_iff
    (show smallMount.MountedOn fourthFailsEnv.sectCount 10 from
      { toPlaced := small_mounted.placed, accepted := small_accepted, sectors := by decide })
    pair_fat_ok pair_file_ok (fun _ => rfl) le_rfl).1 pair_served⟩

end Genesis32
