import Genesis32.Library.ByteMem
import Genesis32.Library.Word

/-!
# The BIOS parameter block

`parse_partition_fill_bpb_fat16` of `file_syst/fat16.c`: the checks on the boot sector of a FAT16
partition and the fields that are filled from it. Sector numbers are sums of 32 bits.
-/

namespace Genesis32

open Word

/-- `struct fat16_bpb`. -/
structure Fat16Bpb where
  bytesPerSect : Nat
  sectPerClust : Nat
  reservedSectors : Nat
  fatCount : Nat
  sectorsPerFat : Nat
  rootEntryCount : Nat
  fatLba : Nat
  rootLba : Nat
  dataLba : Nat
  deriving DecidableEq, Repr

/-- `get_2_bytes`. -/
def get2Bytes (m : ByteMem) (ptr : Nat) : Nat :=
  ((m (ptr + 1)).toNat <<< 8 ||| (m ptr).toNat) % 65536

/-- The fields that `parse_partition_fill_bpb_fat16` fills when every check passes. -/
def fillBpb (startSect : Nat) (sect0 : ByteMem) : Fat16Bpb :=
  let bytesPerSect := get2Bytes sect0 0x0b
  let reservedSectors := get2Bytes sect0 0x0e
  let fatCount := (sect0 0x10).toNat
  let rootEntryCount := get2Bytes sect0 0x11
  let sectorsPerFat := get2Bytes sect0 0x16
  let fatLba := add32 startSect reservedSectors
  let rootLba := add32 fatLba (fatCount * sectorsPerFat)
  let rootDirCount := (rootEntryCount * 32 + (bytesPerSect - 1)) / bytesPerSect
  { bytesPerSect := bytesPerSect
    sectPerClust := (sect0 0x0d).toNat
    reservedSectors := reservedSectors
    fatCount := fatCount
    sectorsPerFat := sectorsPerFat
    rootEntryCount := rootEntryCount
    fatLba := fatLba
    rootLba := rootLba
    dataLba := add32 rootLba rootDirCount }

/-- `parse_partition_fill_bpb_fat16`, given what `read_disk_block` returned for the first sector of
the partition and the buffer it left. -/
def parsePartitionFillBpbFat16 (startSect : Nat) (code : Int) (sect0 : ByteMem) :
    Option Fat16Bpb :=
  if code < 0 then none
  else if get2Bytes sect0 0x0b ≠ 512 ∧ get2Bytes sect0 0x0b ≠ 1024 ∧
      get2Bytes sect0 0x0b ≠ 2048 ∧ get2Bytes sect0 0x0b ≠ 4096 then none
  else if sect0 0x0d = 0x00 then none
  else if sect0 0x10 = 0x00 then none
  else if get2Bytes sect0 0x16 = 0 then none
  else some (fillBpb startSect sect0)

/-- What the checks promise of an accepted block. -/
structure Fat16Bpb.Accepted (b : Fat16Bpb) (startSect : Nat) : Prop where
  bytes : b.bytesPerSect = 512 ∨ b.bytesPerSect = 1024 ∨ b.bytesPerSect = 2048 ∨
    b.bytesPerSect = 4096
  clust : 1 ≤ b.sectPerClust ∧ b.sectPerClust < 256
  reserved : b.reservedSectors < 65536
  fats : 1 ≤ b.fatCount ∧ b.fatCount < 256
  sectors : 1 ≤ b.sectorsPerFat ∧ b.sectorsPerFat < 65536
  entries : b.rootEntryCount < 65536
  fat : b.fatLba = add32 startSect b.reservedSectors
  root : b.rootLba = add32 b.fatLba (b.fatCount * b.sectorsPerFat)
  data : b.dataLba =
    add32 b.rootLba ((b.rootEntryCount * 32 + (b.bytesPerSect - 1)) / b.bytesPerSect)

theorem get2_bytes_lt (m : ByteMem) (ptr : Nat) : get2Bytes m ptr < 65536 :=
  Nat.mod_lt _ (by decide)

theorem byte_pos {x : UInt8} (h : x ≠ 0x00) : 1 ≤ x.toNat := by
  rcases Nat.eq_zero_or_pos x.toNat with hzero | hpos
  · exact absurd (UInt8.toNat_inj.mp hzero) h
  · exact hpos

/-- Every block that is returned is accepted. -/
theorem parse_accepted {startSect : Nat} {code : Int} {sect0 : ByteMem} {b : Fat16Bpb}
    (h : parsePartitionFillBpbFat16 startSect code sect0 = some b) : b.Accepted startSect := by
  unfold parsePartitionFillBpbFat16 at h
  split_ifs at h with hcode hbytes hclust hfats hsectors
  obtain rfl := Option.some.inj h
  exact
    { bytes := by
        show get2Bytes sect0 0x0b = 512 ∨ get2Bytes sect0 0x0b = 1024 ∨
          get2Bytes sect0 0x0b = 2048 ∨ get2Bytes sect0 0x0b = 4096
        omega
      clust := ⟨byte_pos hclust, UInt8.toNat_lt _⟩
      reserved := get2_bytes_lt _ _
      fats := ⟨byte_pos hfats, UInt8.toNat_lt _⟩
      sectors := ⟨Nat.pos_of_ne_zero hsectors, get2_bytes_lt _ _⟩
      entries := get2_bytes_lt _ _
      fat := rfl
      root := rfl
      data := rfl }

/-! ## The geometry -/

/-- The FATs, the root directory and the data follow each other inside the partition. -/
structure Fat16Bpb.FitsPartition (b : Fat16Bpb) (startSect sectNum : Nat) : Prop where
  fat : startSect < b.fatLba
  root : b.fatLba < b.rootLba
  data : b.rootLba ≤ b.dataLba
  stop : b.dataLba < startSect + sectNum

/-- The sectors that a boot sector asks for before the data. -/
def sectorsBeforeData (sect0 : ByteMem) : Nat :=
  get2Bytes sect0 0x0e + (sect0 0x10).toNat * get2Bytes sect0 0x16 +
    (get2Bytes sect0 0x11 * 32 + (get2Bytes sect0 0x0b - 1)) / get2Bytes sect0 0x0b

/-- The geometry of a block that is returned fits its partition exactly if the boot sector asks for
a reserved sector and for fewer sectors before the data than the partition has. -/
theorem parse_fits_iff {startSect sectNum sectCount : Nat} {code : Int} {sect0 : ByteMem}
    {b : Fat16Bpb} (hparse : parsePartitionFillBpbFat16 startSect code sect0 = some b)
    (hpart : startSect + sectNum ≤ sectCount) (hsect : sectCount < 4294967296) :
    b.FitsPartition startSect sectNum ↔
      1 ≤ get2Bytes sect0 0x0e ∧ sectorsBeforeData sect0 < sectNum := by
  have haccepted := parse_accepted hparse
  have hfill : b = fillBpb startSect sect0 := by
    unfold parsePartitionFillBpbFat16 at hparse
    split_ifs at hparse
    exact (Option.some.inj hparse).symm
  have hreserved : b.reservedSectors = get2Bytes sect0 0x0e := by rw [hfill]; rfl
  have hbefore : b.reservedSectors + b.fatCount * b.sectorsPerFat +
      (b.rootEntryCount * 32 + (b.bytesPerSect - 1)) / b.bytesPerSect =
        sectorsBeforeData sect0 := by
    rw [hfill]
    rfl
  rw [← hreserved, ← hbefore]
  have hres := haccepted.reserved
  -- none of the three summands reaches a word
  have hfats : 1 ≤ b.fatCount * b.sectorsPerFat ∧ b.fatCount * b.sectorsPerFat < 4294967296 := by
    refine ⟨Nat.mul_pos haccepted.fats.1 haccepted.sectors.1, ?_⟩
    exact lt_of_lt_of_le (Nat.mul_lt_mul'' haccepted.fats.2 haccepted.sectors.2) (by decide)
  have hroot : (b.rootEntryCount * 32 + (b.bytesPerSect - 1)) / b.bytesPerSect < 4294967296 := by
    refine lt_of_le_of_lt (Nat.div_le_self _ _) ?_
    have hentries := haccepted.entries
    rcases haccepted.bytes with hbytes | hbytes | hbytes | hbytes <;> omega
  have hfatLba := haccepted.fat
  have hrootLba := haccepted.root
  have hdataLba := haccepted.data
  generalize b.fatCount * b.sectorsPerFat = fats at *
  generalize (b.rootEntryCount * 32 + (b.bytesPerSect - 1)) / b.bytesPerSect = root at *
  have hword : ∀ x y, add32 x y < 4294967296 := fun x y => Nat.mod_lt _ (by decide)
  have hfat_iff := lt_add32_iff (x := startSect) (y := b.reservedSectors) (by omega) (by omega)
  have hroot_iff := lt_add32_iff (x := b.fatLba) (y := fats) (hfatLba ▸ hword _ _) (by omega)
  have hdata_iff := le_add32_iff (x := b.rootLba) (y := root) (hrootLba ▸ hword _ _) (by omega)
  rw [← hfatLba] at hfat_iff
  rw [← hrootLba] at hroot_iff
  rw [← hdataLba] at hdata_iff
  constructor
  · intro hfits
    obtain ⟨hone, hfat⟩ := hfat_iff.mp hfits.fat
    obtain ⟨_, hroot⟩ := hroot_iff.mp hfits.root
    have hdata := hdata_iff.mp hfits.data
    have hstop := hfits.stop
    rw [add32_of_lt hfat] at hfatLba
    rw [add32_of_lt hroot] at hrootLba
    rw [add32_of_lt hdata] at hdataLba
    omega
  · intro h
    obtain ⟨hone, hfew⟩ := h
    rw [add32_of_lt (by omega)] at hfatLba
    rw [add32_of_lt (by omega)] at hrootLba
    rw [add32_of_lt (by omega)] at hdataLba
    exact
      { fat := by omega
        root := by omega
        data := by omega
        stop := by omega }

/-- A boot sector with the given number of reserved sectors, one FAT of one sector and a root
directory of one sector. -/
def tinySect0 (reserved : UInt8) : ByteMem := fun x =>
  if x = 0x0c then 0x02
  else if x = 0x0e then reserved
  else if x = 0x0d ∨ x = 0x10 ∨ x = 0x16 then 0x01
  else if x = 0x11 then 0x10
  else 0x00

/-- It fits a partition of four sectors. -/
theorem parse_fits_iff_tiny : ∃ b, parsePartitionFillBpbFat16 63 0 (tinySect0 1) = some b ∧
    b.FitsPartition 63 4 :=
  ⟨fillBpb 63 (tinySect0 1), rfl,
    (parse_fits_iff (show parsePartitionFillBpbFat16 63 0 (tinySect0 1) = _ from rfl)
      (show 63 + 4 ≤ 67 by decide) (by decide)).mpr (by decide)⟩

/-- It is accepted for a partition of three sectors too, which has no room for data, and with no
reserved sector, where the FAT lies over the boot sector. -/
theorem small_partition_accepted :
    (∃ b, parsePartitionFillBpbFat16 63 0 (tinySect0 1) = some b ∧ b.dataLba = 63 + 3 ∧
      ¬ b.FitsPartition 63 3) ∧
    ∃ b, parsePartitionFillBpbFat16 63 0 (tinySect0 0) = some b ∧ b.fatLba = 63 ∧
      ¬ b.FitsPartition 63 1000 := by
  refine ⟨⟨fillBpb 63 (tinySect0 1), rfl, rfl, fun hfits => ?_⟩,
    fillBpb 63 (tinySect0 0), rfl, rfl, fun hfits => ?_⟩
  · exact absurd hfits.stop (by decide)
  · exact absurd hfits.fat (by decide)

end Genesis32
