import Genesis32.Library.ByteMem
import Genesis32.Library.Word

/-!
# The partition table

`file_syst/partitions.c`: the decoding of sector 0 into the list of partitions of a disk, along the
boot-record path and along the MBR path. The list that the source links through `next` is a list
here. `single_disk_scan_iff` says for which sectors every listed partition lies on its disk: the
check of an entry adds its start and its count in 32 bits.
-/

namespace Genesis32

open Word

/-- `enum FILE_SYST_TYPE`. -/
inductive FileSystType where
  | fsUnknown
  | fat12
  | fat16L32
  | fat16G32
  | fat16Lba
  | fat32Lba
  | fat32Chs
  | linuxNative
  deriving DecidableEq, Repr

/-- `struct partition`, without the pointer back to the disk that is scanned. -/
structure Partition where
  fsType : FileSystType
  startSect : Nat
  sectNum : Nat
  isBootable : Bool
  deriving DecidableEq, Repr

/-- `get32`. -/
def get32 (m : ByteMem) (ptr : Nat) : Nat :=
  (m ptr).toNat ||| ((m (ptr + 1)).toNat <<< 8) ||| ((m (ptr + 2)).toNat <<< 16) |||
    ((m (ptr + 3)).toNat <<< 24)

/-- `strncmp`, with at most `n` characters left. -/
def strncmp (m₁ : ByteMem) (s₁ : Nat) (m₂ : ByteMem) (s₂ : Nat) : Nat → Int
  | 0 => 0
  | n + 1 =>
      if m₁ s₁ ≠ m₂ s₂ then (m₁ s₁).toNat - (m₂ s₂).toNat
      else if m₁ s₁ = 0x00 then 0
      else strncmp m₁ (s₁ + 1) m₂ (s₂ + 1) n

/-- A string constant: its characters, then zeros. -/
def stringConst (chars : List UInt8) : ByteMem := fun i => chars.getD i 0x00

/-- `check_mbr`: some entry of the table has a type. -/
def checkMbr (m : ByteMem) (partitionTable : Nat) : Bool :=
  (List.range 4).any fun i => m (partitionTable + i * 16 + 4) ≠ 0x00

/-- `fix_vbr`: the file system that the boot record names. -/
def fixVbr (sect0 : ByteMem) : FileSystType :=
  if strncmp sect0 0x36 (stringConst [0x46, 0x41, 0x54, 0x31, 0x32, 0x20]) 0 6 = 0 then .fat12
  else if strncmp sect0 0x36 (stringConst [0x46, 0x41, 0x54, 0x31, 0x36, 0x20]) 0 6 = 0 then
    .fat16Lba
  else if strncmp sect0 0x52 (stringConst [0x46, 0x41, 0x54, 0x33, 0x32, 0x20]) 0 6 = 0 then
    .fat32Lba
  else if strncmp sect0 0x47 (stringConst [0x46, 0x41, 0x54, 0x33, 0x32, 0x20]) 0 6 = 0 then
    .fat32Lba
  else .fsUnknown

/-- The `switch` over the type byte of an entry. -/
def entryType (type : UInt8) : FileSystType :=
  if type = 0x01 then .fat12
  else if type = 0x04 then .fat16L32
  else if type = 0x06 then .fat16G32
  else if type = 0x0e then .fat16Lba
  else if type = 0x0c then .fat32Lba
  else if type = 0x0b then .fat32Chs
  else if type = 0x83 then .linuxNative
  else .fsUnknown

/-- The body of the `for` of `create_linked_list`: the partition of an entry, if it is kept. -/
def entryPartition (sectCount : Nat) (m : ByteMem) (loopVar : Nat) : Option Partition :=
  if get32 m (loopVar + 12) = 0x00 then none
  else if add32 (get32 m (loopVar + 8)) (get32 m (loopVar + 12)) > sectCount then none
  else some ⟨entryType (m (loopVar + 4)), get32 m (loopVar + 8), get32 m (loopVar + 12),
    m loopVar = 0x80⟩

/-- `create_linked_list`. -/
def createLinkedList (sectCount : Nat) (sect0 : ByteMem) (partitionTable : Nat) : List Partition :=
  if !checkMbr sect0 partitionTable then [⟨fixVbr sect0, 0, sectCount, false⟩]
  else (List.range 4).filterMap fun i => entryPartition sectCount sect0 (partitionTable + 16 * i)

/-- `single_disk_scan`: the `link_list` of the disk, given what `read_disk_block` returned for
sector 0 and the buffer it left. -/
def singleDiskScan (sectCount : Nat) (code : Int) (sect0 : ByteMem) : List Partition :=
  if code < 0 then []
  else if sect0 510 ≠ 0x55 ∨ sect0 511 ≠ 0xaa then []
  else createLinkedList sectCount sect0 446

/-! ## Partitions on their disk -/

/-- `get32` reads a little-endian word. -/
theorem get32_eq (m : ByteMem) (ptr : Nat) : get32 m ptr = m.word32 ptr := by
  have h0 := (m ptr).toNat_lt
  have h1 := (m (ptr + 1)).toNat_lt
  have h2 := (m (ptr + 2)).toNat_lt
  have h8 : (m ptr).toNat ||| ((m (ptr + 1)).toNat <<< 8) =
      ((m (ptr + 1)).toNat <<< 8) + (m ptr).toNat := by
    rw [Nat.or_comm]
    exact lor_low (n := 8) (by rw [Nat.shiftLeft_eq]; omega) h0
  have h16 : ∀ x, x < 65536 → x ||| ((m (ptr + 2)).toNat <<< 16) =
      ((m (ptr + 2)).toNat <<< 16) + x := by
    intro x hx
    rw [Nat.or_comm]
    exact lor_low (n := 16) (by rw [Nat.shiftLeft_eq]; omega) hx
  have h24 : ∀ x, x < 16777216 → x ||| ((m (ptr + 3)).toNat <<< 24) =
      ((m (ptr + 3)).toNat <<< 24) + x := by
    intro x hx
    rw [Nat.or_comm]
    exact lor_low (n := 24) (by rw [Nat.shiftLeft_eq]; omega) hx
  rw [get32, h8, h16 _ (by rw [Nat.shiftLeft_eq]; omega), h24 _ (by
    rw [Nat.shiftLeft_eq, Nat.shiftLeft_eq]; omega)]
  simp only [Nat.shiftLeft_eq, ByteMem.word32, ByteMem.word16, Nat.add_assoc, Nat.reduceAdd]
  omega

/-- The start and the count of entry `i`. -/
def entryStart (sect0 : ByteMem) (i : Nat) : Nat := sect0.word32 (446 + 16 * i + 8)

def entryCount (sect0 : ByteMem) (i : Nat) : Nat := sect0.word32 (446 + 16 * i + 12)

/-- The sum of the start and the count of entry `i` wraps to a value that passes the check. -/
def WrapsOntoDisk (sectCount : Nat) (sect0 : ByteMem) (i : Nat) : Prop :=
  entryCount sect0 i ≠ 0 ∧ 4294967296 ≤ entryStart sect0 i + entryCount sect0 i ∧
    entryStart sect0 i + entryCount sect0 i - 4294967296 ≤ sectCount

/-- Sector 0 is taken for a partition table: it has its signature and some entry has a type. -/
def HasPartitionTable (sect0 : ByteMem) : Prop :=
  sect0 510 = 0x55 ∧ sect0 511 = 0xaa ∧ checkMbr sect0 446 = true

theorem entry_partition_eq (sectCount : Nat) (sect0 : ByteMem) (i : Nat) :
    entryPartition sectCount sect0 (446 + 16 * i) =
      if entryCount sect0 i = 0 then none
      else if add32 (entryStart sect0 i) (entryCount sect0 i) > sectCount then none
      else some ⟨entryType (sect0 (446 + 16 * i + 4)), entryStart sect0 i, entryCount sect0 i,
        sect0 (446 + 16 * i) = 0x80⟩ := by
  unfold entryPartition entryStart entryCount
  rw [get32_eq, get32_eq]

/-- An entry that is kept lies on the disk unless its sum wraps. -/
theorem entry_on_disk_iff {sectCount : Nat} (hsect : sectCount < 4294967296) (sect0 : ByteMem)
    (i : Nat) :
    (∀ p, entryPartition sectCount sect0 (446 + 16 * i) = some p →
      p.startSect + p.sectNum ≤ sectCount) ↔ ¬ WrapsOntoDisk sectCount sect0 i := by
  have hstart : entryStart sect0 i < 4294967296 := ByteMem.word32_lt _ _
  have hcount : entryCount sect0 i < 4294967296 := ByteMem.word32_lt _ _
  rw [entry_partition_eq, WrapsOntoDisk]
  by_cases hzero : entryCount sect0 i = 0
  · rw [if_pos hzero]
    exact ⟨fun _ h => h.1 hzero, fun _ p hp => by cases hp⟩
  · rw [if_neg hzero]
    by_cases hreject : add32 (entryStart sect0 i) (entryCount sect0 i) > sectCount
    · rw [if_pos hreject]
      refine ⟨fun _ h => ?_, fun _ p hp => by cases hp⟩
      unfold add32 at hreject
      omega
    · rw [if_neg hreject]
      constructor
      · intro h hwraps
        have hlies := h _ rfl
        simp only at hlies
        omega
      · intro hwraps p hp
        obtain rfl := Option.some.inj hp
        unfold add32 at hreject
        simp only
        omega

/-- Every partition that `single_disk_scan` lists lies on its disk exactly when the sector holds no
partition table, or no entry of the table has a sum that wraps onto the disk. -/
theorem single_disk_scan_iff {sectCount : Nat} (hsect : sectCount < 4294967296)
    (sect0 : ByteMem) :
    (∀ p ∈ singleDiskScan sectCount 0 sect0, p.startSect + p.sectNum ≤ sectCount) ↔
      (HasPartitionTable sect0 → ∀ i, i < 4 → ¬ WrapsOntoDisk sectCount sect0 i) := by
  rw [singleDiskScan, if_neg (by decide)]
  by_cases hsign : sect0 510 ≠ 0x55 ∨ sect0 511 ≠ 0xaa
  · rw [if_pos hsign]
    refine ⟨fun _ h => ?_, fun _ p hp => by cases hp⟩
    rcases hsign with hsign | hsign
    · exact absurd h.1 hsign
    · exact absurd h.2.1 hsign
  · rw [if_neg hsign, createLinkedList]
    push Not at hsign
    by_cases hmbr : checkMbr sect0 446 = true
    · rw [hmbr]
      simp only [Bool.not_true, Bool.false_eq_true, if_false]
      constructor
      · intro h _ i hi
        refine (entry_on_disk_iff hsect sect0 i).mp fun p hp => h p ?_
        exact List.mem_filterMap.mpr ⟨i, List.mem_range.mpr hi, hp⟩
      · intro h p hp
        obtain ⟨i, hi, heq⟩ := List.mem_filterMap.mp hp
        exact (entry_on_disk_iff hsect sect0 i).mpr
          (h ⟨hsign.1, hsign.2, hmbr⟩ i (List.mem_range.mp hi)) p heq
    · rw [Bool.not_eq_true] at hmbr
      rw [hmbr]
      simp only [Bool.not_false, if_true, List.mem_singleton]
      refine ⟨fun _ h => ?_, fun _ p hp => ?_⟩
      · rw [h.2.2] at hmbr
        exact absurd hmbr (by decide)
      · rw [hp]
        simp only
        omega

/-- A sector 0 with two partitions that lie on a disk of 1000 sectors and one that begins behind
it. -/
def threePartSector : ByteMem := fun x =>
  match x with
  | 450 | 466 | 482 => 0x06
  | 454 => 0x3f
  | 458 => 0x64
  | 470 | 474 => 0xf4
  | 471 | 475 => 0x01
  | 486 => 0xe8
  | 487 => 0x03
  | 490 => 0x01
  | 510 => 0x55
  | 511 => 0xaa
  | _ => 0x00

/-- The first two are listed. -/
theorem single_disk_scan_iff_three_parts :
    (singleDiskScan 1000 0 threePartSector).map (fun p => (p.startSect, p.sectNum)) =
        [(63, 100), (500, 500)] ∧
      ∀ p ∈ singleDiskScan 1000 0 threePartSector, p.startSect + p.sectNum ≤ 1000 := by
  refine ⟨by decide +kernel, (single_disk_scan_iff (by decide) threePartSector).mpr
    fun _ i hi hwraps => ?_⟩
  have hsum : ∀ i < 4,
      entryStart threePartSector i + entryCount threePartSector i < 4294967296 := by
    decide +kernel
  exact absurd hwraps.2.1 (Nat.not_le.mpr (hsum i hi))

/-- A sector 0 whose first entry starts at `2 ^ 32 - 1` and has two sectors. -/
def wrappingSector : ByteMem := fun x =>
  if x = 450 then 0x06
  else if 454 ≤ x ∧ x < 458 then 0xff
  else if x = 458 then 0x02
  else if x = 510 then 0x55
  else if x = 511 then 0xaa
  else 0x00

/-- On a disk of 1000 sectors `single_disk_scan` lists this entry, far beyond the end. -/
theorem single_disk_scan_wraps :
    ¬ ∀ p ∈ singleDiskScan 1000 0 wrappingSector, p.startSect + p.sectNum ≤ 1000 := by
  intro h
  have hlist : singleDiskScan 1000 0 wrappingSector =
      [⟨.fat16G32, 0xffffffff, 2, false⟩] := by decide +kernel
  rw [hlist] at h
  exact absurd (h _ (List.mem_singleton.mpr rfl)) (by decide)

end Genesis32
