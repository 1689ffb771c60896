import Genesis32.FileSyst.WriteRuns

/-!
# Writing on a device whose commands may fail

The loops of `write_fat16` on a device of which nothing is assumed but its size. Commands are
counted from the start of the operating system: `Moves n` says that the `n`-th one, of one sector,
succeeds. As long as the reads of the FAT succeed, a write inside the chain of a file goes from
cluster to cluster as it should, and `FailingWrite` says what each of the other commands, moved or
not, leaves in `cluster_temp` and on the disk.
-/

namespace Genesis32

open Word

/-- The `n`-th command, of one sector, moves it. -/
abbrev BlockEnv.Moves (env : BlockEnv) (n : Nat) : Prop := 1 ≤ env.moved n 1

/-- The same device and the same free memory: what the scratch memory holds and what is on the stack
may differ. -/
structure BlockEnv.SameDevice (env env' : BlockEnv) : Prop where
  sectCount : env'.sectCount = env.sectCount
  moved : env'.moved = env.moved
  granted : ∀ n, (env'.scratch n).isSome = (env.scratch n).isSome

/-- A volume of 512-byte sectors, with its FATs and root directory before the sector `hi`, on a disk
of `sectCount` sectors. -/
structure Fat16Mount.Placed (m : Fat16Mount) (sectCount hi : Nat) : Prop
    extends m.Sectors512 where
  fats : 1 ≤ m.bpb.fatCount
  dataStart : m.dataSect ≤ hi
  onDisk : hi ≤ sectCount
  size : sectCount < 4294967296

/-- A device of that size on which nothing fails. -/
def BlockEnv.working (sectCount : Nat) : BlockEnv where
  sectCount := sectCount
  moved := fun _ total => total
  scratch := fun _ => some fun _ => 0x00
  newClusterSector := fun _ => 0
  curClusterSectNo := fun _ => 0xffff

variable {env : BlockEnv} {m : Fat16Mount} {f : Fat16File} {s : BlockState} {hi c : Nat}
  {disk disk' : ByteMem}

theorem BlockEnv.working_works {sectCount : Nat} (h : sectCount < 4294967296) :
    (BlockEnv.working sectCount).Works where
  moved := fun _ _ => le_rfl
  scratch := fun _ => rfl
  size := h

theorem Fat16Mount.Placed.volume {sectCount : Nat} (hp : m.Placed sectCount hi) :
    m.Volume (BlockEnv.working sectCount) hi where
  toSectors512 := hp.toSectors512
  works := BlockEnv.working_works hp.size
  fats := hp.fats
  dataStart := hp.dataStart
  onDisk := hp.onDisk

theorem BlockEnv.SameDevice.refl (env : BlockEnv) : env.SameDevice env := ⟨rfl, rfl, fun _ => rfl⟩

theorem BlockEnv.SameDevice.symm {env' : BlockEnv} (h : env.SameDevice env') :
    env'.SameDevice env := ⟨h.sectCount.symm, h.moved.symm, fun n => (h.granted n).symm⟩

theorem BlockEnv.SameDevice.moves {env' : BlockEnv} (h : env.SameDevice env') (n : Nat) :
    env'.Moves n ↔ env.Moves n := by
  rw [BlockEnv.Moves, h.moved]

/-- The device with scratch memory that holds one value. -/
def BlockEnv.fillScratch (env : BlockEnv) (v : UInt8) : BlockEnv :=
  { env with scratch := fun n => (env.scratch n).map fun _ => fun _ => v }

theorem BlockEnv.fill_scratch_same (env : BlockEnv) (v : UInt8) :
    env.SameDevice (env.fillScratch v) where
  sectCount := rfl
  moved := rfl
  granted := fun _ => Option.isSome_map

theorem BlockEnv.fill_scratch_some {n : Nat} {buf : ByteMem} (v : UInt8)
    (h : env.scratch n = some buf) : (env.fillScratch v).scratch n = some fun _ => v := by
  simp only [BlockEnv.fillScratch, h, Option.map_some]

theorem Fat16Mount.Volume.placed (hv : m.Volume env hi) : m.Placed env.sectCount hi where
  toSectors512 := hv.toSectors512
  fats := hv.fats
  dataStart := hv.dataStart
  onDisk := hv.onDisk
  size := hv.works.size

/-! ## Single commands -/

theorem read_block_one (hsize : env.sectCount < 4294967296) {lba : Nat} (h : lba < env.sectCount)
    (buf : ByteMem) (a : Nat) (s : BlockState) :
    s.readBlock env lba 1 buf a =
      (if env.Moves s.commands then buf.copy a s.disk (512 * lba) 512 else buf,
        { s with commands := s.commands + 1 }) := by
  unfold BlockState.readBlock
  rw [add32_of_lt (by omega), if_neg (by omega)]
  by_cases hmoves : env.Moves s.commands
  · rw [if_pos hmoves, Nat.min_eq_left hmoves, Nat.mul_one]
  · rw [if_neg hmoves, show min 1 (env.moved s.commands 1) = 0 by omega, Nat.mul_zero,
      ByteMem.copy_zero]

/-- A command that writes one sector leaves the disk as it was if it fails. -/
theorem write_block_one (hsize : env.sectCount < 4294967296) {lba : Nat} (h : lba < env.sectCount)
    (buf : ByteMem) (a : Nat) (s : BlockState) :
    (s.writeBlock env lba 1 buf a).disk =
        (if env.Moves s.commands then s.disk.copy (512 * lba) buf a 512 else s.disk) ∧
      (s.writeBlock env lba 1 buf a).commands = s.commands + 1 ∧
      (s.writeBlock env lba 1 buf a).mallocs = s.mallocs := by
  unfold BlockState.writeBlock
  rw [add32_of_lt (by omega), if_neg (by omega)]
  refine ⟨?_, rfl, rfl⟩
  by_cases hmoves : env.Moves s.commands
  · rw [if_pos hmoves, Nat.min_eq_left hmoves, Nat.mul_one]
  · rw [if_neg hmoves, show min 1 (env.moved s.commands 1) = 0 by omega, Nat.mul_zero,
      ByteMem.copy_zero]

/-! ## The loops -/

/-- A hop whose read succeeds finds the entry of the cluster in the first FAT. -/
theorem hop_cluster_moves (hp : m.Placed env.sectCount hi) (hc : m.DataCluster hi c)
    (hmoves : env.Moves s.commands) (buf : ByteMem) :
    ∃ buf', hopCluster env m c buf s =
      (fatEntry s.disk m.fatSect c, buf', { s with commands := s.commands + 1 }) := by
  have hdisk := (hp.volume.onDisk_cluster hc).entry
  refine ⟨buf.copy 0 s.disk (512 * (m.fatSect + c / 256)) 512, ?_⟩
  have hword := word16_sector buf s.disk m.fatSect (c / 256) (Nat.mod_lt c (by decide : 0 < 256))
  rw [Nat.div_add_mod c 256, Nat.mul_one] at hword
  unfold hopCluster
  rw [hp.bytes, entry_sector_eq hp.volume.works hp.toSectors512 hdisk,
    show 512 / 512 = 1 from rfl, read_block_one hp.size hdisk, if_pos hmoves]
  simp only [show c * 2 % 512 = 2 * (c % 256) by omega, hword]

/-- The sector in a cluster of a byte of the cluster. -/
theorem sector_of_byte (h512 : m.Sectors512) {x : Nat} (hx : x < m.clusterSize) :
    x / 512 < m.bpb.sectPerClust := by
  rw [h512.clusterSize_eq] at hx
  omega

/-- The loop that reads a cluster brings the bytes of the sectors whose reads succeed. -/
theorem read_cluster_moves (hsize : env.sectCount < 4294967296) (h512 : m.Sectors512) {sect : Nat}
    (hdisk : sect + m.bpb.sectPerClust ≤ env.sectCount) :
    ∀ (r q : Nat) (buf : ByteMem) (s : BlockState), q + r = m.bpb.sectPerClust →
      ∃ buf', readCluster env m sect r q buf s = (buf', { s with commands := s.commands + r }) ∧
        (∀ x < 512 * q, buf' x = buf x) ∧
        ∀ x, 512 * q ≤ x → x < m.clusterSize → buf' x =
          if env.Moves (s.commands + (x / 512 - q)) then s.disk (512 * sect + x) else buf x := by
  intro r
  induction r with
  | zero =>
      intro q buf s hq
      refine ⟨buf, rfl, fun _ _ => rfl, fun x hx hlt => ?_⟩
      have hsect := sector_of_byte h512 hlt
      omega
  | succ r ih =>
      intro q buf s hq
      have hlast : sect + q < env.sectCount := by omega
      have hone : 512 / 512 = 1 := rfl
      rw [readCluster, h512.bytes, hone, add32_of_lt (by omega), read_block_one hsize hlast]
      generalize hbuf : (if env.Moves s.commands then
        buf.copy (q * 512) s.disk (512 * (sect + q)) 512 else buf) = buf₁
      -- the command brings the sector `q`, or nothing
      have hother : ∀ x, x < 512 * q ∨ 512 * (q + 1) ≤ x → buf₁ x = buf x := fun x hx => by
        rw [← hbuf]
        split_ifs
        · exact ByteMem.copy_outside (by omega)
        · rfl
      obtain ⟨buf', hrun, hbefore, hafter⟩ := ih (q + 1) buf₁ { s with commands := s.commands + 1 }
        (by omega)
      refine ⟨buf', ?_, fun x hx => ?_, fun x hx hlt => ?_⟩
      · rw [show s.commands + (r + 1) = s.commands + 1 + r by omega]
        exact hrun
      · rw [hbefore x (by omega), hother x (Or.inl hx)]
      · by_cases hin : x < 512 * (q + 1)
        · rw [hbefore x hin, show x / 512 - q = 0 by omega, Nat.add_zero, ← hbuf]
          split_ifs
          · rw [ByteMem.copy_inside (by omega) (by omega)]
            congr 1
            omega
          · rfl
        · rw [hafter x (by omega) hlt, hother x (by omega),
            show s.commands + 1 + (x / 512 - (q + 1)) = s.commands + (x / 512 - q) by omega]

/-- The loop that writes a cluster replaces the sectors whose writes succeed. -/
theorem write_cluster_moves (hsize : env.sectCount < 4294967296) (h512 : m.Sectors512) {sect : Nat}
    (hdisk : sect + m.bpb.sectPerClust ≤ env.sectCount) (buf : ByteMem) :
    ∀ (r q : Nat) (s : BlockState), q + r = m.bpb.sectPerClust →
      (writeCluster env m sect r q buf s).commands = s.commands + r ∧
      (∀ x, 512 * q ≤ x → x < m.clusterSize →
        (writeCluster env m sect r q buf s).disk (512 * sect + x) =
          if env.Moves (s.commands + (x / 512 - q)) then buf x else s.disk (512 * sect + x)) ∧
      ∀ x, x < 512 * (sect + q) ∨ 512 * (sect + m.bpb.sectPerClust) ≤ x →
        (writeCluster env m sect r q buf s).disk x = s.disk x := by
  intro r
  induction r with
  | zero =>
      intro q s hq
      refine ⟨rfl, fun x hx hlt => ?_, fun _ _ => rfl⟩
      have hsect := sector_of_byte h512 hlt
      omega
  | succ r ih =>
      intro q s hq
      have hlast : sect + q < env.sectCount := by omega
      have hone : 512 / 512 = 1 := rfl
      rw [writeCluster, h512.bytes, hone, add32_of_lt (by omega)]
      obtain ⟨hwrite, hcommands, _⟩ := write_block_one hsize hlast buf (q * 512) s
      have hother : ∀ x, x < 512 * (sect + q) ∨ 512 * (sect + q + 1) ≤ x →
          (s.writeBlock env (sect + q) 1 buf (q * 512)).disk x = s.disk x := fun x hx =>
        write_block_outside (by omega) _ _ _
      generalize s.writeBlock env (sect + q) 1 buf (q * 512) = s₁ at hwrite hcommands hother ⊢
      obtain ⟨hcount, hafter, hbefore⟩ := ih (q + 1) s₁ (by omega)
      refine ⟨by omega, fun x hx hlt => ?_, fun x hx => ?_⟩
      · by_cases hin : x < 512 * (q + 1)
        · rw [hbefore _ (Or.inl (by omega)), hwrite, show x / 512 - q = 0 by omega, Nat.add_zero]
          split_ifs
          · rw [ByteMem.copy_inside (by omega) (by omega)]
            congr 1
            omega
          · rfl
        · rw [hafter x (by omega) hlt, hother _ (by omega), hcommands,
            show s.commands + 1 + (x / 512 - (q + 1)) = s.commands + (x / 512 - q) by omega]
      · rw [hbefore x (by omega), hother x (by omega)]

/-- The hop loop of a write goes along the chain while the reads of the FAT succeed. -/
theorem write_hops_moves (hp : m.Placed env.sectCount hi) (hok : m.ChainOk hi disk f) :
    ∀ (h q cur dirtyBit : Nat) (buf : ByteMem) (s : BlockState), s.disk = disk →
      m.cluster disk f q = some cur → m.cluster disk f (q + h) = some c →
      (∀ i < h, env.Moves (s.commands + i)) →
      ∃ buf', writeHops env m h cur dirtyBit buf s =
        some (c, dirtyBit, buf', { s with commands := s.commands + h }) := by
  intro h
  induction h with
  | zero =>
      intro q cur dirtyBit buf s _ hcur hc _
      obtain rfl := Option.some.inj (hcur.symm.trans hc)
      exact ⟨buf, rfl⟩
  | succ h ih =>
      intro q cur dirtyBit buf s hs hcur hc hmoves
      obtain ⟨buf₁, hhop⟩ := hop_cluster_moves hp (hok q cur hcur) (hmoves 0 (by omega)) buf
      obtain ⟨a, ha⟩ := Option.isSome_iff_exists.mp
        (Chain.nth_isSome_of_le (Option.isSome_of_eq_some hc) (show q + 1 ≤ q + (h + 1) by omega))
      have hnext : m.nextCluster disk cur = some a := (Chain.nth_succ_of_some hcur).symm.trans ha
      obtain ⟨hend, hentry⟩ := not_end_mark_next hnext
      rw [writeHops, hhop, hs, ← hentry]
      simp only
      rw [if_neg hend]
      rw [show q + (h + 1) = q + 1 + h by omega] at hc
      obtain ⟨buf', hrun⟩ := ih (q + 1) a dirtyBit buf₁ { s with commands := s.commands + 1 } hs ha
        hc fun i hi => by
          have hlater := hmoves (i + 1) (by omega)
          rwa [show s.commands + (i + 1) = s.commands + 1 + i by omega] at hlater
      refine ⟨buf', ?_⟩
      rw [show s.commands + (h + 1) = s.commands + 1 + h by omega]
      exact hs ▸ hrun

/-! ## The search of the FAT -/

/-- The words of the buffer that the search looks at, of a sector of 512 bytes, are not zero. -/
def NoZero (buf : ByteMem) : Prop := ∀ j < 256, buf.word16 (2 * j) ≠ 0

/-- Of the sectors of the FAT that the search reads, which starts with the command `first`, the
`i`-th is the first one with a free entry. -/
structure FoundIn (env : BlockEnv) (b : Fat16Bpb) (startFat : Nat) (disk : ByteMem)
    (first i : Nat) : Prop where
  sector : i < b.sectorsPerFat
  read : env.Moves (first + i)
  free : ∃ j < 256, fatEntry disk startFat (256 * i + j) = 0
  before : ∀ i' < i, env.Moves (first + i') → ∀ j < 256, fatEntry disk startFat (256 * i' + j) ≠ 0

/-- The first zero of a buffer that has one. -/
theorem first_zero_exists {buf : ByteMem} {r x : Nat} (hx : x < r)
    (hzero : buf.word16 (2 * x) = 0) :
    ∃ j ≤ x, firstZero buf r 0 = some j ∧ buf.word16 (2 * j) = 0 := by
  classical
  have hex : ∃ j, buf.word16 (2 * j) = 0 := ⟨x, hzero⟩
  have hle : Nat.find hex ≤ x := Nat.find_min' hex hzero
  exact ⟨Nat.find hex, hle, first_zero_some (Nat.find_spec hex) 0 (Nat.zero_le _) (by omega)
    fun k _ hk => Nat.find_min hex hk, Nat.find_spec hex⟩

/-- A sector of the FAT that a command may have brought into the buffer. -/
theorem word16_of_read {startFat i j : Nat} {buf buf₁ : ByteMem}
    (hbuf : (if env.Moves s.commands then buf.copy 0 s.disk (512 * (startFat + i)) 512 else buf) =
      buf₁) (hj : j < 256) :
    buf₁.word16 (2 * j) =
      if env.Moves s.commands then fatEntry s.disk startFat (256 * i + j)
      else buf.word16 (2 * j) := by
  have hword := word16_sector buf s.disk startFat i hj
  rw [Nat.mul_one] at hword
  rw [← hbuf]
  split_ifs
  · exact hword
  · rfl

/-- The search, whose buffer holds a sector of the FAT after the first read or no zero from the
start, ends with the first free entry of the sectors that it reads. -/
theorem scan_fat_found (hsize : env.sectCount < 4294967296) {b : Fat16Bpb}
    (hbytes : b.bytesPerSect = 512) {startFat : Nat}
    (hdisk : startFat + b.sectorsPerFat ≤ env.sectCount) (first : Nat) :
    ∀ (r i : Nat) (buf : ByteMem) (s : BlockState), i + r = b.sectorsPerFat →
      s.commands = first + i →
      (∀ i' < i, env.Moves (first + i') →
        ∀ j < 256, fatEntry s.disk startFat (256 * i' + j) ≠ 0) →
      NoZero buf ∨ env.Moves s.commands →
      (∃ (i' j : Nat) (buf' : ByteMem), FoundIn env b startFat s.disk first i' ∧ j < 256 ∧
        fatEntry s.disk startFat (256 * i' + j) = 0 ∧ scanFat env b startFat r i buf s =
          (some (i', j),
            (buf'.copy 0 s.disk (512 * (startFat + i')) 512).setWord16 (2 * j) 0xffff,
            { s with commands := first + i' + 1 })) ∨
      (∀ i', ¬ FoundIn env b startFat s.disk first i') ∧ ∃ buf' : ByteMem,
        scanFat env b startFat r i buf s =
          (none, buf', { s with commands := s.commands + r }) := by
  have hentries : b.entriesPerSect = 256 := by rw [Fat16Bpb.entriesPerSect, hbytes]
  intro r
  induction r with
  | zero =>
      intro i buf s hi _ hbefore _
      refine Or.inr ⟨fun i' hfound => ?_, buf, rfl⟩
      obtain ⟨j, hj, hzero⟩ := hfound.free
      exact hbefore i' (by have hsector := hfound.sector; omega) hfound.read j hj hzero
  | succ r ih =>
      intro i buf s hi hfirst hbefore hstart
      rw [scanFat, add32_of_lt (by omega), read_block_one hsize (by omega)]
      generalize hbuf : (if env.Moves s.commands then
        buf.copy 0 s.disk (512 * (startFat + i)) 512 else buf) = buf₁
      simp only [hentries]
      by_cases hzero : env.Moves s.commands ∧
        ∃ j < 256, fatEntry s.disk startFat (256 * i + j) = 0
      · obtain ⟨hmoves, x, hx, hfree⟩ := hzero
        have hword : ∀ j < 256, buf₁.word16 (2 * j) = fatEntry s.disk startFat (256 * i + j) :=
          fun j hj => by rw [word16_of_read hbuf hj, if_pos hmoves]
        obtain ⟨j, hjx, hscan, hj⟩ := first_zero_exists hx ((hword x hx).trans hfree)
        rw [hscan]
        rw [if_pos hmoves] at hbuf
        refine Or.inl ⟨i, j, buf, ⟨by omega, hfirst ▸ hmoves, ⟨x, hx, hfree⟩, hbefore⟩, by omega,
          (hword j (by omega)).symm.trans hj, ?_⟩
        rw [← hbuf, hfirst]
      · -- no zero in the buffer, whether the read has succeeded or not
        have hnone : ∀ j < 256, env.Moves s.commands →
            fatEntry s.disk startFat (256 * i + j) ≠ 0 := fun j hj hmoves hfree =>
          hzero ⟨hmoves, j, hj, hfree⟩
        have hnozero : NoZero buf₁ := fun j hj => by
          rw [word16_of_read hbuf hj]
          split_ifs with hmoves
          · exact hnone j hj hmoves
          · exact hstart.resolve_right hmoves j hj
        rw [first_zero_none 0 fun k _ hk => hnozero k (by omega)]
        have hrest := ih (i + 1) buf₁ { s with commands := s.commands + 1 } (by omega)
          (by simp only; omega)
          (fun i' hi' hmoves j hj => by
            rcases Nat.eq_or_lt_of_le (Nat.lt_succ_iff.mp hi') with rfl | hlt
            · exact hnone j hj (hfirst ▸ hmoves)
            · exact hbefore i' hlt hmoves j hj)
          (Or.inl hnozero)
        rwa [show s.commands + (r + 1) = s.commands + 1 + r by omega]

/-! ## A write inside the chain -/

/-- The command that reads the first sector of the `i`-th cluster of a file in a write for which
`first` is the one that does so for the `j`-th. In between, a round takes as many reads and as many
writes as a cluster has sectors, and a hop. -/
def roundCommand (m : Fat16Mount) (first j i : Nat) : Nat :=
  first + (i - j) * (2 * m.bpb.sectPerClust + 1)

theorem round_command_self (m : Fat16Mount) (first j : Nat) : roundCommand m first j j = first := by
  rw [roundCommand, Nat.sub_self, Nat.zero_mul, Nat.add_zero]

theorem round_command_next {first j i : Nat} (h : j < i) :
    roundCommand m (first + (2 * m.bpb.sectPerClust + 1)) (j + 1) i = roundCommand m first j i := by
  unfold roundCommand
  rw [show i - j = i - (j + 1) + 1 by omega, Nat.add_mul, Nat.one_mul]
  omega

/-- What a write of the positions `[start, stop)` from `base` on does from the `j`-th cluster of the
chain: `temp i` is `cluster_temp` before the round of the `i`-th, and `first` the command that reads
the first sector of the `j`-th. A sector that is not read stays what the buffer held, and one that
is not written stays what the disk held. -/
structure FailingWrite (env : BlockEnv) (m : Fat16Mount) (f : Fat16File) (buffer : ByteMem)
    (base start stop first j : Nat) (temp : Nat → ByteMem) (disk disk' : ByteMem) : Prop where
  next : ∀ i c y, j ≤ i → i ≤ (stop - 1) / m.clusterSize → m.cluster disk f i = some c →
    y < m.clusterSize → temp (i + 1) y =
      if start ≤ i * m.clusterSize + y ∧ i * m.clusterSize + y < stop then
        buffer (i * m.clusterSize + y - base)
      else if env.Moves (roundCommand m first j i + y / 512) then disk (m.clusterAddr c + y)
      else temp i y
  disk : ∀ i c y, j ≤ i → i ≤ (stop - 1) / m.clusterSize → m.cluster disk f i = some c →
    y < m.clusterSize → disk' (m.clusterAddr c + y) =
      if env.Moves (roundCommand m first j i + m.bpb.sectPerClust + y / 512) then temp (i + 1) y
      else disk (m.clusterAddr c + y)

/-- The bytes of the clusters of the positions up to `stop` from the `j`-th cluster on are the only
ones that may change. -/
def KeptOutside (m : Fat16Mount) (f : Fat16File) (stop j : Nat) (disk disk' : ByteMem) : Prop :=
  ∀ x, (∀ i c y, j ≤ i → i ≤ (stop - 1) / m.clusterSize → m.cluster disk f i = some c →
    y < m.clusterSize → x ≠ m.clusterAddr c + y) → disk' x = disk x

/-- No cluster comes twice. -/
def ChainDistinct (m : Fat16Mount) (f : Fat16File) (disk : ByteMem) : Prop :=
  ∀ i i' c, m.cluster disk f i = some c → m.cluster disk f i' = some c → i = i'

/-- A change of the data keeps the chain. -/
theorem KeptOutside.before {stop j : Nat} (h : KeptOutside m f stop j disk disk') {x : Nat}
    (hx : x < 512 * m.dataSect) : disk' x = disk x :=
  h x fun i c y _ _ _ _ heq => by
    have hle := data_le_cluster_addr (m := m) c
    omega

/-- One round: what the cluster that it reads and writes back becomes, and the buffer. -/
theorem write_round_moves (hp : m.Placed env.sectCount hi) (hc : m.DataCluster hi c)
    (buffer : ByteMem) (x t idx : Nat) (temp : ByteMem) (s : BlockState) :
    ∃ (temp₁ : ByteMem) (s₁ s₂ : BlockState),
      readCluster env m (m.clusterSector c) m.bpb.sectPerClust 0 temp s = (temp₁, s₁) ∧
      writeCluster env m (m.clusterSector c) m.bpb.sectPerClust 0 (temp₁.copy x buffer idx t) s₁ =
        s₂ ∧
      s₂.commands = s.commands + 2 * m.bpb.sectPerClust ∧
      (∀ y < m.clusterSize, temp₁ y =
        if env.Moves (s.commands + y / 512) then s.disk (m.clusterAddr c + y) else temp y) ∧
      (∀ y < m.clusterSize, s₂.disk (m.clusterAddr c + y) =
        if env.Moves (s.commands + m.bpb.sectPerClust + y / 512) then
          temp₁.copy x buffer idx t y
        else s.disk (m.clusterAddr c + y)) ∧
      ∀ a, (∀ y < m.clusterSize, a ≠ m.clusterAddr c + y) → s₂.disk a = s.disk a := by
  have hdata := (hp.volume.onDisk_cluster hc).data
  obtain ⟨temp₁, hread, _, htemp⟩ := read_cluster_moves hp.size hp.toSectors512 hdata
    m.bpb.sectPerClust 0 temp s (by omega)
  obtain ⟨hcount, hwrite, hother⟩ := write_cluster_moves hp.size hp.toSectors512 hdata
    (temp₁.copy x buffer idx t) m.bpb.sectPerClust 0
    { s with commands := s.commands + m.bpb.sectPerClust } (by omega)
  rw [hp.volume.sector_eq hc]
  refine ⟨temp₁, _, _, hread, rfl, by rw [hcount]; simp only; omega,
    fun y hy => htemp y (by omega) hy, fun y hy => hwrite y (by omega) hy, fun a ha => hother a ?_⟩
  by_contra hin
  have hsize := hp.clusterSize_eq
  refine ha (a - m.clusterAddr c) ?_ ?_ <;> unfold Fat16Mount.clusterAddr <;> omega

/-- The round of the `j`-th cluster, which is `c`, in such a write: `first` is the command that
reads its first sector. -/
structure FailingRound (env : BlockEnv) (m : Fat16Mount) (buffer : ByteMem)
    (base start stop first j c : Nat) (temp temp' disk disk' : ByteMem) : Prop where
  next : ∀ y < m.clusterSize, temp' y =
    if start ≤ j * m.clusterSize + y ∧ j * m.clusterSize + y < stop then
      buffer (j * m.clusterSize + y - base)
    else if env.Moves (first + y / 512) then disk (m.clusterAddr c + y)
    else temp y
  other : ∀ a, (∀ y < m.clusterSize, a ≠ m.clusterAddr c + y) → disk' a = disk a
  disk : ∀ y < m.clusterSize, disk' (m.clusterAddr c + y) =
    if env.Moves (first + m.bpb.sectPerClust + y / 512) then temp' y
    else disk (m.clusterAddr c + y)

section

variable {buffer temp temp' disk₁ : ByteMem} {temps : Nat → ByteMem}
  {base start stop first j c : Nat}

/-- The round of the last cluster. -/
theorem FailingRound.last
    (h : FailingRound env m buffer base start stop first j c temp temp' disk disk')
    (hc : m.cluster disk f j = some c) (hlast : (stop - 1) / m.clusterSize = j) :
    FailingWrite env m f buffer base start stop first j (fun i => if i = j then temp else temp')
      disk disk' where
  next := by
    intro i d y hji hi hd hy
    obtain rfl : i = j := by omega
    obtain rfl := Option.some.inj (hc.symm.trans hd)
    simp only [if_neg (Nat.succ_ne_self i), if_true, round_command_self]
    exact h.next y hy
  disk := by
    intro i d y hji hi hd hy
    obtain rfl : i = j := by omega
    obtain rfl := Option.some.inj (hc.symm.trans hd)
    simp only [if_neg (Nat.succ_ne_self i), round_command_self]
    exact h.disk y hy

/-- A round that comes to the end of its cluster, and the write behind it. -/
theorem FailingRound.cons (h512 : m.Sectors512)
    (h : FailingRound env m buffer base start stop first j c temp (temps (j + 1)) disk disk₁)
    (hc : m.cluster disk f j = some c) (hstart : start ≤ (j + 1) * m.clusterSize)
    (hsame : ∀ i, m.cluster disk₁ f i = m.cluster disk f i) (hdistinct : ChainDistinct m f disk)
    (hkept : KeptOutside m f stop (j + 1) disk₁ disk')
    (hrest : FailingWrite env m f buffer base ((j + 1) * m.clusterSize) stop
      (first + (2 * m.bpb.sectPerClust + 1)) (j + 1) temps disk₁ disk') :
    FailingWrite env m f buffer base start stop first j (fun i => if i = j then temp else temps i)
      disk disk' := by
  have hapart : ∀ i d y, j < i → m.cluster disk f i = some d → y < m.clusterSize →
      disk₁ (m.clusterAddr d + y) = disk (m.clusterAddr d + y) :=
    fun i d y hji hd hy => h.other _ fun y' hy' heq => by
      obtain ⟨rfl, _⟩ := cluster_addr_inj h512 (cluster_lt hd).1 (cluster_lt hc).1 hy hy' heq
      have hij := hdistinct i j d hd hc
      omega
  constructor
  · intro i d y hji hi hd hy
    rcases Nat.eq_or_lt_of_le hji with rfl | hlt
    · obtain rfl := Option.some.inj (hc.symm.trans hd)
      simp only [if_neg (Nat.succ_ne_self j), if_true, round_command_self]
      exact h.next y hy
    · have hbig := Nat.mul_le_mul_right m.clusterSize (show j + 1 ≤ i from hlt)
      have hstep := hrest.next i d y hlt hi (by rwa [hsame]) hy
      rw [hapart i d y hlt hd hy, round_command_next hlt] at hstep
      simp only [if_neg (show ¬ i = j by omega), if_neg (show ¬ i + 1 = j by omega)]
      rw [hstep]
      simp only [show (j + 1) * m.clusterSize ≤ i * m.clusterSize + y ↔
        start ≤ i * m.clusterSize + y by omega]
  · intro i d y hji hi hd hy
    rcases Nat.eq_or_lt_of_le hji with rfl | hlt
    · obtain rfl := Option.some.inj (hc.symm.trans hd)
      simp only [if_neg (Nat.succ_ne_self j), round_command_self]
      rw [hkept _ fun i d' y' hji hi hd' hy' heq => ?_]
      · exact h.disk y hy
      · obtain ⟨rfl, _⟩ := cluster_addr_inj h512 (cluster_lt hc).1 (cluster_lt hd').1 hy hy' heq
        have hij := hdistinct i j c (by rwa [hsame] at hd') hc
        omega
    · have hstep := hrest.disk i d y hlt hi (by rwa [hsame]) hy
      rw [hapart i d y hlt hd hy, round_command_next hlt] at hstep
      simp only [if_neg (show ¬ i + 1 = j by omega)]
      exact hstep

end

/-- The outer loop of a write inside the chain, while the reads of the FAT succeed. -/
theorem write_loop_moves (hp : m.Placed env.sectCount hi) (buffer : ByteMem) (p size : Nat) :
    ∀ (k h q cur x idx : Nat) (file : Fat16File) (buf temp : ByteMem) (s : BlockState),
      m.ChainOk hi s.disk f → m.cluster s.disk f q = some cur → x < m.clusterSize →
      (q + h) * m.clusterSize + x = p + idx → idx < size → size - idx ≤ k →
      (m.cluster s.disk f ((p + size - 1) / m.clusterSize)).isSome →
      (∀ i < h, env.Moves (s.commands + i)) →
      (∀ i, q + h < i → i ≤ (p + size - 1) / m.clusterSize →
        env.Moves (roundCommand m (s.commands + h) (q + h) i - 1)) →
      ∃ (temps : Nat → ByteMem) (s' : BlockState),
        writeLoop env m buffer size k h x cur idx file buf temp s =
          some (size, { file with
            offset := add32 file.offset (size - idx)
            size := max file.size size }, s') ∧
        temps (q + h) = temp ∧ KeptOutside m f (p + size) (q + h) s.disk s'.disk ∧
        (ChainDistinct m f s.disk → FailingWrite env m f buffer p (p + idx) (p + size)
          (s.commands + h) (q + h) temps s.disk s'.disk) := by
  intro k
  induction k with
  | zero => omega
  | succ k ih =>
      intro h q cur x idx file buf temp s hok hcur hx hpos hidx hk hreach hhops hlater
      have hsize := hp.clusterSize_pos
      have hle : q + h ≤ (p + size - 1) / m.clusterSize :=
        (Nat.le_div_iff_mul_le hsize).mpr (by omega)
      obtain ⟨c, hc⟩ : ∃ c, m.cluster s.disk f (q + h) = some c :=
        Option.isSome_iff_exists.mp (Chain.nth_isSome_of_le hreach hle)
      obtain ⟨buf₁, hrunHops⟩ := write_hops_moves hp hok h q cur file.dirtyBit buf s rfl hcur hc
        hhops
      rw [writeLoop, hrunHops]
      simp only
      generalize ht : min (size - idx) (m.clusterSize - x) = t
      obtain ⟨temp₁, s₁, s₂, hread, hwrite, hcommands, htemp, hbyte, hother⟩ := write_round_moves hp
        (hok (q + h) c hc) buffer x t idx temp { s with commands := s.commands + h }
      rw [hread]
      simp only
      rw [hwrite]
      simp only at hcommands htemp hbyte hother
      generalize hj : q + h = j at *
      -- the bytes of this round that belong to the range
      have hrange : ∀ y < m.clusterSize, (p + idx ≤ j * m.clusterSize + y ∧
          j * m.clusterSize + y < p + size) ↔ x ≤ y ∧ y < x + t := by omega
      have hround : FailingRound env m buffer p (p + idx) (p + size) (s.commands + h) j c temp
          (temp₁.copy x buffer idx t) s.disk s₂.disk := by
        refine ⟨fun y hy => ?_, hother, hbyte⟩
        by_cases hin : x ≤ y ∧ y < x + t
        · rw [if_pos ((hrange y hy).mpr hin), ByteMem.copy_inside hin.1 hin.2]
          congr 1
          omega
        · rw [if_neg (mt (hrange y hy).mp hin), ByteMem.copy_outside (by omega), htemp y hy]
      by_cases hdone : idx + t ≥ size
      · rw [if_pos hdone]
        have hall : t = size - idx := by omega
        have hlast : (p + size - 1) / m.clusterSize < j + 1 :=
          (Nat.div_lt_iff_lt_mul hsize).mpr (by rw [Nat.add_mul, Nat.one_mul]; omega)
        refine ⟨fun i => if i = j then temp else temp₁.copy x buffer idx t, s₂, ?_, if_pos rfl,
          fun a ha => hother a fun y hy => ha j c y le_rfl hle hc hy,
          fun _ => hround.last hc (by omega)⟩
        rw [show idx + t = size by omega, hall]
      · rw [if_neg hdone]
        have hfull : x + t = m.clusterSize := by omega
        have hnext : j + 1 ≤ (p + size - 1) / m.clusterSize :=
          (Nat.le_div_iff_mul_le hsize).mpr (by rw [Nat.add_mul, Nat.one_mul]; omega)
        -- data sectors hold no entry of a FAT, so the rest of the chain is the same
        have hbefore : ∀ a < 512 * m.dataSect, s₂.disk a = s.disk a := fun a ha =>
          hother a fun y _ heq => by
            have hdata := data_le_cluster_addr (m := m) c
            omega
        have hsame : ∀ i, m.cluster s₂.disk f i = m.cluster s.disk f i :=
          cluster_same hp.volume hbefore hok
        obtain ⟨temps, s', hrun, hstart, hkept, hrest⟩ := ih 1 j c 0 (idx + t)
          { file with offset := add32 file.offset t, size := max file.size (idx + t) } buf₁
          (temp₁.copy x buffer idx t) s₂ (fun i d hd => hok i d (by rwa [hsame] at hd))
          (by rw [hsame, hc]) hsize (by rw [Nat.add_mul j 1, Nat.one_mul]; omega) (by omega)
          (by omega) (by rwa [hsame])
          (fun i hi => by
            have hhop := hlater (j + 1) (by omega) hnext
            rw [roundCommand, Nat.add_sub_cancel_left, Nat.one_mul] at hhop
            rwa [show s₂.commands + i =
              s.commands + h + (2 * m.bpb.sectPerClust + 1) - 1 by omega])
          (fun i hi hi' => by
            have hhop := hlater i (by omega) hi'
            rwa [← round_command_next (by omega), show s.commands + h +
              (2 * m.bpb.sectPerClust + 1) = s₂.commands + 1 by omega] at hhop)
        have hfirst : s₂.commands + 1 = s.commands + h + (2 * m.bpb.sectPerClust + 1) := by omega
        refine ⟨fun i => if i = j then temp else temps i, s', ?_, if_pos rfl, fun a ha => ?_,
          fun hdistinct => ?_⟩
        · rw [hrun]
          simp only [add32_add32]
          rw [show t + (size - (idx + t)) = size - idx by omega,
            show max (max file.size (idx + t)) size = max file.size size by omega]
        · rw [hkept a fun i d y hji hi hd hy => ha i d y (by omega) hi (by rwa [hsame] at hd) hy]
          exact hother a fun y hy => ha j c y le_rfl hle hc hy
        · have hwrite' := hrest fun i i' d hd hd' =>
            hdistinct i i' d (by rwa [hsame] at hd) (by rwa [hsame] at hd')
          rw [show p + (idx + t) = (j + 1) * m.clusterSize by
            rw [Nat.add_mul, Nat.one_mul]; omega, hfirst] at hwrite'
          rw [← hstart] at hround
          exact hround.cons hp.toSectors512 hc (by rw [Nat.add_mul, Nat.one_mul]; omega) hsame
            hdistinct hkept hwrite'

/-- The command that reads the FAT for the `j`-th cluster, `1 ≤ j`, in a write whose first command
is `first`: the hops to the offset come first, and each later one behind the round of its cluster.
-/
def hopCommand (m : Fat16Mount) (f : Fat16File) (first j : Nat) : Nat :=
  first + (j - 1) + (j - f.offset / m.clusterSize) * (2 * m.bpb.sectPerClust)

/-- Every read of the FAT that a write of `n` bytes inside the chain makes succeeds. -/
def HopsRead (env : BlockEnv) (m : Fat16Mount) (f : Fat16File) (n : Nat) (s : BlockState) : Prop :=
  1 ≤ n → ∀ j, 1 ≤ j → j ≤ (f.offset + n - 1) / m.clusterSize →
    env.Moves (hopCommand m f s.commands j)

theorem HopsRead.same {env' : BlockEnv} {n : Nat} (h : HopsRead env m f n s)
    (hsame : env.SameDevice env') : HopsRead env' m f n s :=
  fun hn j hj hj' => (hsame.moves _).mpr (h hn j hj hj')

/-- A write inside the chain while the reads of the FAT succeed: it returns all its bytes, and
changes the clusters of its range only, in the way that `FailingWrite` says. -/
theorem write_fat16_moves (hp : m.Placed env.sectCount hi) {n k : Nat}
    (hok : m.ChainOk hi s.disk f) (hn : 1 ≤ n)
    (hreach : (m.cluster s.disk f ((f.offset + n - 1) / m.clusterSize)).isSome) (hk : n ≤ k)
    (hhops : HopsRead env m f n s) (hbuf : (env.scratch s.mallocs).isSome) {temp : ByteMem}
    (htemp : env.scratch (s.mallocs + 1) = some temp) (buffer : ByteMem) :
    ∃ (temps : Nat → ByteMem) (s' : BlockState), writeFat16 env m k f buffer n s =
        some (n, { f with offset := add32 f.offset n, size := max f.size n }, s') ∧
      temps (f.offset / m.clusterSize) = temp ∧
      KeptOutside m f (f.offset + n) (f.offset / m.clusterSize) s.disk s'.disk ∧
      (ChainDistinct m f s.disk → FailingWrite env m f buffer f.offset f.offset (f.offset + n)
        (s.commands + f.offset / m.clusterSize) (f.offset / m.clusterSize) temps s.disk
        s'.disk) := by
  obtain ⟨c, hc⟩ := Option.isSome_iff_exists.mp (Chain.nth_isSome_of_le hreach (Nat.zero_le _))
  have hcluster : m.cluster s.disk f 0 = some c := hc
  have hend : ¬ EndMark (f.fsSpecific % 65536) := fun hend => by
    have hnone : Fat16Mount.startCluster f = none := if_pos hend
    rw [Chain.nth, hnone] at hc
    cases hc
  obtain rfl : f.fsSpecific % 65536 = c := Option.some.inj ((if_neg hend).symm.trans hc)
  obtain ⟨buf, hbuf⟩ := Option.isSome_iff_exists.mp hbuf
  have hpos := Nat.div_add_mod' f.offset m.clusterSize
  have hle : f.offset / m.clusterSize ≤ (f.offset + n - 1) / m.clusterSize :=
    Nat.div_le_div_right (by omega)
  obtain ⟨temps, s', hrun, hstart, hkept, hwrite⟩ := write_loop_moves hp buffer f.offset n k
    (f.offset / m.clusterSize) 0 (f.fsSpecific % 65536) (f.offset % m.clusterSize) 0 f buf temp
    { s with mallocs := s.mallocs + 1 + 1 } hok hcluster (Nat.mod_lt _ hp.clusterSize_pos)
    (by rw [Nat.zero_add]; omega) (by omega) (by omega) hreach
    (fun i hi => by
      have hhop := hhops hn (i + 1) (by omega) (le_trans hi hle)
      have hbefore : i + 1 - f.offset / m.clusterSize = 0 := Nat.sub_eq_zero_of_le hi
      rwa [hopCommand, hbefore, Nat.zero_mul, Nat.add_sub_cancel] at hhop)
    (fun i hi hi' => by
      have hhop := hhops hn i (Nat.one_le_of_lt hi) hi'
      rw [Nat.zero_add] at hi ⊢
      unfold hopCommand at hhop
      unfold roundCommand
      rw [Nat.mul_add, Nat.mul_one]
      generalize (i - f.offset / m.clusterSize) * (2 * m.bpb.sectPerClust) = rounds at *
      generalize f.offset / m.clusterSize = j at hi ⊢
      rwa [show s.commands + j + (rounds + (i - j)) - 1 = s.commands + (i - 1) + rounds by omega])
  rw [Nat.zero_add, Nat.add_zero] at *
  refine ⟨temps, s', ?_, hstart, hkept, hwrite⟩
  unfold writeFat16 firstCluster BlockState.heapCreamMalloc
  simp only [if_neg (show ¬ n = 0 by omega), if_neg hend, Option.bind_eq_bind, Option.bind_some,
    hbuf, htemp, Option.map_some]
  rw [hrun, Nat.sub_zero]

end Genesis32
