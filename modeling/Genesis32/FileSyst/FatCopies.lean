import Genesis32.Library.Transition
import Genesis32.FileSyst.FreeCluster

/-!
# The copies of the FAT

`get_free_cluster` edits the first FAT on one of three paths and the other FATs in a loop of its
own. `editFat` is the edit that all of them make: the first zero entry becomes an end mark, and the
entry of the current cluster, if there is one, becomes the new cluster. `free_cluster_edits` says
that a call makes it in every FAT and changes nothing else, so that copies that agree still do.
-/

namespace Genesis32

open Word

variable {env : BlockEnv} {b : Fat16Bpb} {s s' : BlockState} {startFat c cur : Nat}

/-! ## The edit of a FAT -/

/-- The edit that an allocation makes in the FAT that starts at sector `fat`. -/
def editFat (fat c cur : Nat) (disk : ByteMem) : ByteMem :=
  if EndMark cur then disk.setWord16 (fatEntryAddr fat c) 0xffff
  else (disk.setWord16 (fatEntryAddr fat c) 0xffff).setWord16 (fatEntryAddr fat cur) c

/-- The edit in the first `r` FATs. -/
def editFats (startFat spf c cur : Nat) : Nat → ByteMem → ByteMem
  | 0, disk => disk
  | r + 1, disk => editFat (startFat + r * spf) c cur (editFats startFat spf c cur r disk)

/-- `cur_cluster_sect_no` for a current cluster. -/
def curSector (cur : Nat) : Nat := if EndMark cur then 0xffff else cur / 256

/-- The edit of one entry, through a sector in the buffer. -/
theorem edit_sector (buf disk : ByteMem) (fat k v : Nat) :
    disk.copy (512 * (fat + k / 256))
      ((buf.copy 0 disk (512 * (fat + k / 256)) (512 * 1)).setWord16 (2 * (k % 256)) v) 0
      (512 * 1) = disk.setWord16 (fatEntryAddr fat k) v := by
  have hmod := Nat.mod_lt k (show 0 < 256 by decide)
  have haddr : 512 * (fat + k / 256) + 2 * (k % 256) = fatEntryAddr fat k := by
    unfold fatEntryAddr
    omega
  have hset := ByteMem.setWord16_copy buf disk (a := 0) (b := 512 * (fat + k / 256)) (n := 512 * 1)
    (x := 2 * (k % 256)) v (by omega)
  rw [Nat.zero_add, haddr] at hset
  rw [hset, ByteMem.copy_back]
  intro y hy
  refine ByteMem.setWord16_outside ?_
  rw [← haddr]
  omega

/-- The edit of two entries of one sector. -/
theorem edit_sector_twice (buf disk : ByteMem) (fat k k' v v' : Nat) (h : k / 256 = k' / 256) :
    disk.copy (512 * (fat + k / 256))
      (((buf.copy 0 disk (512 * (fat + k / 256)) (512 * 1)).setWord16 (2 * (k % 256)) v).setWord16
        (2 * (k' % 256)) v') 0 (512 * 1) =
      (disk.setWord16 (fatEntryAddr fat k) v).setWord16 (fatEntryAddr fat k') v' := by
  have hmod := Nat.mod_lt k (show 0 < 256 by decide)
  have hmod' := Nat.mod_lt k' (show 0 < 256 by decide)
  have haddr : 512 * (fat + k / 256) + 2 * (k % 256) = fatEntryAddr fat k := by
    unfold fatEntryAddr
    omega
  have haddr' : 512 * (fat + k / 256) + 2 * (k' % 256) = fatEntryAddr fat k' := by
    unfold fatEntryAddr
    omega
  have hset := ByteMem.setWord16_copy buf disk (a := 0) (b := 512 * (fat + k / 256)) (n := 512 * 1)
    (x := 2 * (k % 256)) v (by omega)
  have hset' := ByteMem.setWord16_copy buf (disk.setWord16 (fatEntryAddr fat k) v) (a := 0)
    (b := 512 * (fat + k / 256)) (n := 512 * 1) (x := 2 * (k' % 256)) v' (by omega)
  rw [Nat.zero_add, haddr] at hset
  rw [Nat.zero_add, haddr'] at hset'
  rw [hset, hset', ByteMem.copy_back]
  intro y hy
  rw [ByteMem.setWord16_outside (by rw [← haddr']; omega),
    ByteMem.setWord16_outside (by rw [← haddr]; omega)]

/-- Reading the sector of an entry, storing the entry and writing the sector back. -/
theorem edit_entry (hworks : env.Works) {lo hi fat k : Nat} (hlo : lo ≤ fat + k / 256)
    (hhi : fat + k / 256 < hi) (hdisk : hi ≤ env.sectCount) (buf : ByteMem) (v : Nat)
    (s : BlockState) :
    IoEffect lo hi s ((s.readBlock env (fat + k / 256) 1 buf 0).2.writeBlock env (fat + k / 256) 1
      ((s.readBlock env (fat + k / 256) 1 buf 0).1.setWord16 (2 * (k % 256)) v) 0)
      (s.disk.setWord16 (fatEntryAddr fat k) v) := by
  rw [read_block_ok hworks (by omega)]
  have hwrite := IoEffect.write hworks (show fat + k / 256 + 1 ≤ env.sectCount by omega)
    hlo (show fat + k / 256 + 1 ≤ hi by omega)
    ((buf.copy 0 s.disk (512 * (fat + k / 256)) (512 * 1)).setWord16 (2 * (k % 256)) v) 0
    { s with commands := s.commands + 1 }
  have hedit := edit_sector buf s.disk fat k v
  exact hedit ▸ (IoEffect.reads lo hi s (s.commands + 1) s.mallocs).trans hwrite

theorem cur_sector_lt (hcur : cur < 65536) (h : ¬ EndMark cur) : cur / 256 < 0xfff8 := by
  unfold EndMark at h
  omega

/-- The edit of the first FAT. -/
theorem link_cluster_edits (hworks : env.Works) (hbytes : b.bytesPerSect = 512) {lo hi : Nat}
    (hc : c < 65536) (hlo : lo ≤ startFat + c / 256) (hfat : startFat + c / 256 < hi)
    (hcurFat : EndMark cur ∨ lo ≤ startFat + cur / 256 ∧ startFat + cur / 256 < hi)
    (hdisk : hi ≤ env.sectCount)
    (buf : ByteMem) (s : BlockState) :
    ∃ buf' s', linkCluster env b startFat cur (c / 256) (c % 256)
        ((buf.copy 0 s.disk (512 * (startFat + c / 256)) (512 * 1)).setWord16 (2 * (c % 256))
          0xffff)
        s = (⟨c, c / 256, c % 256, curSector cur⟩, buf', s') ∧
      IoEffect lo hi s s' (editFat startFat c cur s.disk) := by
  have hsize := hworks.size
  have hentries : b.entriesPerSect = 256 := by rw [Fat16Bpb.entriesPerSect, hbytes]
  have hnumber : (c / 256 * 256 + c % 256) % 65536 = c := by omega
  have hwrite := edit_sector buf s.disk startFat c 0xffff
  unfold linkCluster
  simp only [hentries, hnumber]
  rw [add32_of_lt (by omega)]
  by_cases hend : EndMark cur
  · -- no cluster in front of the new one: only its own entry is written
    simp only [editFat, curSector, if_pos hend]
    refine ⟨_, _, rfl, ?_⟩
    rw [← hwrite]
    exact IoEffect.write hworks (by omega) (by omega) (by omega) _ 0 s
  have hcurFat' := hcurFat.resolve_left hend
  simp only [editFat, curSector, if_neg hend]
  rw [add32_of_lt (by omega)]
  by_cases hsame : cur / 256 = c / 256
  · -- both entries are in one sector, which is written once
    rw [if_pos hsame, hsame]
    refine ⟨_, _, rfl, ?_⟩
    rw [← edit_sector_twice buf s.disk startFat c cur 0xffff c hsame.symm]
    exact IoEffect.write hworks (by omega) (by omega) (by omega) _ 0 s
  · -- the sector of the previous cluster is read, edited and written after that of the new one
    rw [if_neg hsame]
    refine ⟨_, _, rfl, ?_⟩
    have hfirst := IoEffect.write hworks (show startFat + c / 256 + 1 ≤ env.sectCount by omega)
      le_rfl le_rfl
      ((buf.copy 0 s.disk (512 * (startFat + c / 256)) (512 * 1)).setWord16 (2 * (c % 256)) 0xffff)
      0 s
    rw [hwrite] at hfirst
    generalize s.writeBlock env (startFat + c / 256) 1 ((buf.copy 0 s.disk
      (512 * (startFat + c / 256)) (512 * 1)).setWord16 (2 * (c % 256)) 0xffff) 0 = s₁ at hfirst ⊢
    generalize (buf.copy 0 s.disk (512 * (startFat + c / 256)) (512 * 1)).setWord16
      (2 * (c % 256)) 0xffff = buf₁
    have hsecond := edit_entry hworks hcurFat'.1 hcurFat'.2 hdisk buf₁ c s₁
    rw [hfirst.disk] at hsecond
    exact (hfirst.mono hlo hfat).trans hsecond

/-- One round of the mirror loop. -/
theorem mirror_fat_edits (hworks : env.Works) (hbytes : b.bytesPerSect = 512) {lo hi fat : Nat}
    (hc : c < 65536) (hcur : cur < 65536) (hlo : lo ≤ fat + c / 256) (hfat : fat + c / 256 < hi)
    (hcurFat : EndMark cur ∨ lo ≤ fat + cur / 256 ∧ fat + cur / 256 < hi)
    (hdisk : hi ≤ env.sectCount) (buf : ByteMem) (s : BlockState) :
    IoEffect lo hi s (mirrorFat env b fat cur ⟨c, c / 256, c % 256, curSector cur⟩ buf s).2
      (editFat fat c cur s.disk) := by
  have hsize := hworks.size
  have hentries : b.entriesPerSect = 256 := by rw [Fat16Bpb.entriesPerSect, hbytes]
  have htake : ∀ buf t,
      takeEntry b (c % 256) buf t = (buf.setWord16 (2 * (c % 256)) 0xffff, t) := by
    intro buf t
    unfold takeEntry
    rw [hentries, if_pos (Nat.mod_lt c (by decide))]
  have hfirst := edit_entry hworks hlo hfat hdisk buf 0xffff s
  unfold mirrorFat
  simp only [hentries, htake]
  rw [add32_of_lt (by omega)]
  by_cases hend : EndMark cur
  · simp only [editFat, curSector, if_pos hend]
    rw [if_neg (show ¬ c / 256 = 0xffff by omega), if_pos (by decide)]
    exact hfirst
  have hcurFat' := hcurFat.resolve_left hend
  simp only [editFat, curSector, if_neg hend]
  by_cases hsame : c / 256 = cur / 256
  · rw [if_pos hsame, read_block_ok hworks (by omega),
      ← edit_sector_twice buf s.disk fat c cur 0xffff c hsame]
    exact (IoEffect.reads lo hi s (s.commands + 1) s.mallocs).trans
      (IoEffect.write hworks (by omega) (by omega) (by omega) _ 0 _)
  · -- the number of a sector is below the end marks, which the loop compares it with
    rw [if_neg hsame, if_neg (Nat.not_le.mpr (cur_sector_lt hcur hend)), add32_of_lt (by omega)]
    generalize BlockState.writeBlock env (fat + c / 256) 1 _ 0 _ = s₁ at hfirst ⊢
    have hsecond := fun buf => edit_entry hworks hcurFat'.1 hcurFat'.2 hdisk buf c s₁
    simp only [hfirst.disk] at hsecond
    exact hfirst.trans (hsecond _)

/-- A sector of one of the FATs. -/
theorem fat_sector_lt (b : Fat16Bpb) (startFat : Nat) {i x : Nat} (hi : i < b.fatCount)
    (hx : x < b.sectorsPerFat) :
    startFat + i * b.sectorsPerFat + x < startFat + b.fatCount * b.sectorsPerFat := by
  have hmul : (i + 1) * b.sectorsPerFat ≤ b.fatCount * b.sectorsPerFat :=
    Nat.mul_le_mul_right _ hi
  rw [Nat.add_mul, Nat.one_mul] at hmul
  omega

/-- The mirror loop makes the edit in the remaining FATs. -/
theorem mirror_fats_edit (hworks : env.Works) (hbytes : b.bytesPerSect = 512) (hc : c < 65536)
    (hcur : cur < 65536) {lo : Nat} (hlo : lo ≤ startFat + c / 256)
    (hfat : c / 256 < b.sectorsPerFat)
    (hcurFat : EndMark cur ∨ lo ≤ startFat + cur / 256 ∧ cur / 256 < b.sectorsPerFat)
    (hdisk : startFat + b.fatCount * b.sectorsPerFat ≤ env.sectCount) {disk : ByteMem} :
    ∀ (r i : Nat) (buf : ByteMem) (s : BlockState), i + r = b.fatCount →
      s.disk = editFats startFat b.sectorsPerFat c cur i disk →
      IoEffect lo (startFat + b.fatCount * b.sectorsPerFat) s
        (mirrorFats env b startFat cur ⟨c, c / 256, c % 256, curSector cur⟩ r i buf s)
        (editFats startFat b.sectorsPerFat c cur b.fatCount disk) := by
  have hsize := hworks.size
  intro r
  induction r with
  | zero =>
      intro i buf s hi hs
      rw [← hi, Nat.add_zero, ← hs]
      exact IoEffect.refl _ _ s
  | succ r ih =>
      intro i buf s hi hs
      have hlt := fat_sector_lt b startFat (show i < b.fatCount by omega) hfat
      have hround := mirror_fat_edits hworks hbytes hc hcur
        (show lo ≤ startFat + i * b.sectorsPerFat + c / 256 by omega) hlt
        (hcurFat.imp id fun h => ⟨by omega, fat_sector_lt b startFat (by omega) h.2⟩) hdisk buf s
      rw [mirrorFats, add32_of_lt (by omega)]
      generalize mirrorFat env b (startFat + i * b.sectorsPerFat) cur
        ⟨c, c / 256, c % 256, curSector cur⟩ buf s = r₁ at hround ⊢
      refine hround.trans (ih (i + 1) r₁.1 r₁.2 (by omega) ?_)
      rw [hround.disk, hs]
      rfl

/-- `get_free_cluster` takes the first zero entry `c` of the first FAT, links it behind the current
cluster, if there is one, and makes the same edit in every FAT. -/
theorem get_free_cluster_edits (hworks : env.Works) (hbytes : b.bytesPerSect = 512)
    (hfats : 1 ≤ b.fatCount) (hc : c < 65536) (hcur : cur < 65536) {lo : Nat}
    (hlo : lo ≤ startFat + c / 256) (hfat : c / 256 < b.sectorsPerFat)
    (hcurFat : EndMark cur ∨ lo ≤ startFat + cur / 256 ∧ cur / 256 < b.sectorsPerFat)
    (hdisk : startFat + b.fatCount * b.sectorsPerFat ≤ env.sectCount)
    (hzero : FirstZero s.disk startFat c) :
    ∃ s', getFreeCluster env b startFat cur s = some (c, s') ∧
      IoEffect lo (startFat + b.fatCount * b.sectorsPerFat) s s'
        (editFats startFat b.sectorsPerFat c cur b.fatCount s.disk) := by
  obtain ⟨buf, hmalloc⟩ := malloc_ok hworks s
  have hlt := fat_sector_lt b startFat (show 0 < b.fatCount by omega) hfat
  rw [Nat.zero_mul, Nat.add_zero] at hlt
  obtain ⟨buf', commands, hscan⟩ := scan_fat_some hworks hbytes
    (show startFat + c / 256 < env.sectCount by omega) b.sectorsPerFat 0 buf
    { s with mallocs := s.mallocs + 1 } hzero (Nat.zero_le _) (by omega)
  have hcurFat' : EndMark cur ∨ lo ≤ startFat + cur / 256 ∧
      startFat + cur / 256 < startFat + b.fatCount * b.sectorsPerFat := by
    refine hcurFat.imp id fun h => ⟨h.1, ?_⟩
    have hlt' := fat_sector_lt b startFat (show 0 < b.fatCount by omega) h.2
    rwa [Nat.zero_mul, Nat.add_zero] at hlt'
  obtain ⟨buf₁, s₁, hlink, heffect⟩ :=
    link_cluster_edits hworks hbytes hc hlo hlt hcurFat' hdisk buf'
    { s with mallocs := s.mallocs + 1, commands := commands }
  refine ⟨mirrorFats env b startFat cur ⟨c, c / 256, c % 256, curSector cur⟩ (b.fatCount - 1) 1 buf₁
    s₁, ?_, ?_⟩
  · unfold getFreeCluster
    rw [hmalloc, Option.map_some]
    simp only [hscan]
    rw [hlink]
  · refine (IoEffect.reads _ _ s commands (s.mallocs + 1)).trans
      (heffect.trans ?_)
    refine mirror_fats_edit hworks hbytes hc hcur hlo hfat hcurFat hdisk (b.fatCount - 1) 1 buf₁ s₁
      (by omega) (heffect.disk.trans ?_)
    simp only [editFats, Nat.zero_mul, Nat.add_zero]

/-! ## The entries after the edit -/

theorem edit_fat_outside {fat spf : Nat} {disk : ByteMem} {x : Nat} (hc : c < 256 * spf)
    (hcur : EndMark cur ∨ cur < 256 * spf) (hx : x < 512 * fat ∨ 512 * (fat + spf) ≤ x) :
    editFat fat c cur disk x = disk x := by
  unfold editFat
  split_ifs with hend
  · exact ByteMem.setWord16_outside (by unfold fatEntryAddr; omega)
  · have hlt := hcur.resolve_left hend
    rw [ByteMem.setWord16_outside (by unfold fatEntryAddr; omega),
      ByteMem.setWord16_outside (by unfold fatEntryAddr; omega)]

/-- An entry of a FAT depends on the bytes of that FAT. -/
theorem fat_entry_congr {disk disk' : ByteMem} {fat fat' spf k : Nat} (hk : k < 256 * spf)
    (h : ∀ x < 512 * spf, disk' (512 * fat' + x) = disk (512 * fat + x)) :
    fatEntry disk' fat' k = fatEntry disk fat k :=
  ByteMem.word16_congr (h (2 * k) (by omega)) (h (2 * k + 1) (by omega))

/-- An entry of a FAT after the edit of that FAT. -/
theorem fat_entry_edit (disk : ByteMem) (fat k : Nat) (hc : c < 65536)
    (hne : EndMark cur ∨ cur ≠ c) :
    fatEntry (editFat fat c cur disk) fat k =
      if k = c then 0xffff else if ¬ EndMark cur ∧ k = cur then c else fatEntry disk fat k := by
  have hother : ∀ {j v : Nat} {d : ByteMem}, k ≠ j →
      (d.setWord16 (fatEntryAddr fat j) v).word16 (fatEntryAddr fat k) =
        d.word16 (fatEntryAddr fat k) := fun hkj =>
    ByteMem.word16_setWord16_other (by unfold fatEntryAddr; omega)
  unfold fatEntry editFat
  by_cases hend : EndMark cur
  · rw [if_pos hend, if_neg (show ¬ (¬ EndMark cur ∧ k = cur) from fun h => h.1 hend)]
    split_ifs with hkc
    · rw [hkc, ByteMem.word16_setWord16_same]
    · exact hother hkc
  · rw [if_neg hend]
    have hcc := hne.resolve_left hend
    split_ifs with hkc hkcur
    · rw [hkc] at hother ⊢
      rw [hother (Ne.symm hcc), ByteMem.word16_setWord16_same]
    · rw [hkcur.2, ByteMem.word16_setWord16_same, Nat.mod_eq_of_lt hc]
    · rw [hother fun heq => hkcur ⟨hend, heq⟩, hother hkc]

theorem edit_fats_outside {spf : Nat} (hc : c < 256 * spf) (hcur : EndMark cur ∨ cur < 256 * spf)
    {disk : ByteMem} {x : Nat} :
    ∀ r, (x < 512 * startFat ∨ 512 * (startFat + r * spf) ≤ x) →
      editFats startFat spf c cur r disk x = disk x := by
  intro r
  induction r with
  | zero => exact fun _ => rfl
  | succ r ih =>
      intro hx
      rw [Nat.add_mul, Nat.one_mul] at hx
      rw [editFats, edit_fat_outside hc hcur (by omega)]
      exact ih (by omega)

/-- An entry of a FAT after the edit of the first `r` FATs. -/
theorem fat_entry_edits {spf : Nat} (hc : c < 256 * spf) (hc16 : c < 65536)
    (hcur : EndMark cur ∨ cur < 256 * spf) (hne : EndMark cur ∨ cur ≠ c) (disk : ByteMem)
    {i k : Nat}
    (hk : k < 256 * spf) :
    ∀ r, i < r → fatEntry (editFats startFat spf c cur r disk) (startFat + i * spf) k =
      if k = c then 0xffff else if ¬ EndMark cur ∧ k = cur then c
      else fatEntry disk (startFat + i * spf) k := by
  intro r
  induction r with
  | zero => omega
  | succ r ih =>
      intro hi
      rcases Nat.eq_or_lt_of_le (Nat.le_of_lt_succ hi) with rfl | hlt
      · rw [editFats, fat_entry_edit _ _ _ hc16 hne]
        split_ifs
        · rfl
        · rfl
        · exact fat_entry_congr hk fun x hx => edit_fats_outside hc hcur i (by omega)
      · have hmul : (i + 1) * spf ≤ r * spf := Nat.mul_le_mul_right _ hlt
        rw [Nat.add_mul, Nat.one_mul] at hmul
        rw [editFats, ← ih hlt]
        exact fat_entry_congr hk fun x hx => edit_fat_outside hc hcur (by omega)

/-! ## Agreement -/

/-- A FAT16 volume of 512-byte sectors, with its FATs on the disk, on a device and with an allocator
that work. -/
structure FatVolume (env : BlockEnv) (b : Fat16Bpb) (startFat : Nat) : Prop where
  works : env.Works
  bytes : b.bytesPerSect = 512
  fats : 1 ≤ b.fatCount
  sectors : b.sectorsPerFat ≤ 256
  onDisk : startFat + b.fatCount * b.sectorsPerFat ≤ env.sectCount

/-- The copies of the FAT are the same, byte by byte. -/
def CopiesAgree (b : Fat16Bpb) (startFat : Nat) (disk : ByteMem) : Prop :=
  ∀ i < b.fatCount, ∀ x < 512 * b.sectorsPerFat,
    disk (512 * (startFat + i * b.sectorsPerFat) + x) = disk (512 * startFat + x)

/-- Some entry of the FAT is zero. -/
def HasFree (b : Fat16Bpb) (startFat : Nat) (disk : ByteMem) : Prop :=
  ∃ k < 256 * b.sectorsPerFat, fatEntry disk startFat k = 0

/-- The current cluster is none, or an entry of the FAT that is not zero. -/
def CanLink (b : Fat16Bpb) (startFat cur : Nat) (disk : ByteMem) : Prop :=
  cur < 65536 ∧ (EndMark cur ∨ cur < 256 * b.sectorsPerFat ∧ fatEntry disk startFat cur ≠ 0)

/-- From `disk` to `disk'` exactly the first zero entry `c` and the entry of the current cluster, if
there is one, have changed, in every FAT. -/
structure Allocated (b : Fat16Bpb) (startFat cur c : Nat) (disk disk' : ByteMem) : Prop where
  inFat : c < 256 * b.sectorsPerFat
  free : FirstZero disk startFat c
  entries : ∀ i < b.fatCount, ∀ k < 256 * b.sectorsPerFat,
    fatEntry disk' (startFat + i * b.sectorsPerFat) k =
      if k = c then 0xffff else if ¬ EndMark cur ∧ k = cur then c
      else fatEntry disk (startFat + i * b.sectorsPerFat) k
  rest : ∀ x, x < 512 * startFat ∨ 512 * (startFat + b.fatCount * b.sectorsPerFat) ≤ x →
    disk' x = disk x

theorem exists_first_zero {disk : ByteMem} (h : HasFree b startFat disk) :
    ∃ c < 256 * b.sectorsPerFat, FirstZero disk startFat c := by
  classical
  obtain ⟨k, hk, hzero⟩ := h
  have hex : ∃ k, fatEntry disk startFat k = 0 := ⟨k, hzero⟩
  exact ⟨Nat.find hex, (Nat.find_min' hex hzero).trans_lt hk, Nat.find_spec hex,
    fun j hj => Nat.find_min hex hj⟩

/-- The edit of every FAT is an allocation. -/
theorem edits_allocated {disk disk' : ByteMem} (hc : c < 256 * b.sectorsPerFat) (hc16 : c < 65536)
    (hcur : EndMark cur ∨ cur < 256 * b.sectorsPerFat) (hne : EndMark cur ∨ cur ≠ c)
    (hzero : FirstZero disk startFat c)
    (hdisk : disk' = editFats startFat b.sectorsPerFat c cur b.fatCount disk) :
    Allocated b startFat cur c disk disk' where
  inFat := hc
  free := hzero
  entries := fun _ hi _ hk => hdisk ▸ fat_entry_edits hc hc16 hcur hne disk hk b.fatCount hi
  rest := fun _ hx => hdisk ▸ edit_fats_outside hc hcur b.fatCount hx

theorem get_free_cluster_allocates (hv : FatVolume env b startFat)
    (hfree : HasFree b startFat s.disk) (hlink : CanLink b startFat cur s.disk) :
    ∃ c s', getFreeCluster env b startFat cur s = some (c, s') ∧
      Allocated b startFat cur c s.disk s'.disk := by
  obtain ⟨c, hc, hzero⟩ := exists_first_zero hfree
  obtain ⟨hcur, hcurFat⟩ := hlink
  have hsectors := hv.sectors
  have hc16 : c < 65536 := by omega
  have hne : EndMark cur ∨ cur ≠ c := by
    refine hcurFat.imp id ?_
    rintro ⟨_, hnonzero⟩ rfl
    exact hnonzero hzero.zero
  have hcurLt : EndMark cur ∨ cur < 256 * b.sectorsPerFat := hcurFat.imp id And.left
  obtain ⟨s', hrun, heffect⟩ := get_free_cluster_edits hv.works hv.bytes hv.fats hc16 hcur
    (Nat.le_add_right startFat _) (by omega)
    (hcurLt.imp id fun h => ⟨Nat.le_add_right _ _, by omega⟩) hv.onDisk hzero
  exact ⟨c, s', hrun, edits_allocated hc hc16 hcurLt hne hzero heffect.disk⟩

/-- Copies of the FAT that agree on every entry agree. -/
theorem copies_agree_of_entries {disk : ByteMem} (h : ∀ i < b.fatCount,
    ∀ k < 256 * b.sectorsPerFat, fatEntry disk (startFat + i * b.sectorsPerFat) k =
      fatEntry disk startFat k) : CopiesAgree b startFat disk := by
  intro i hi x hx
  obtain ⟨hlow, hhigh⟩ := ByteMem.word16_inj (h i hi (x / 2) (by omega))
  rcases Nat.mod_two_eq_zero_or_one x with hmod | hmod
  · rw [show 512 * (startFat + i * b.sectorsPerFat) + x =
        fatEntryAddr (startFat + i * b.sectorsPerFat) (x / 2) by unfold fatEntryAddr; omega,
      show 512 * startFat + x = fatEntryAddr startFat (x / 2) by unfold fatEntryAddr; omega]
    exact hlow
  · rw [show 512 * (startFat + i * b.sectorsPerFat) + x =
        fatEntryAddr (startFat + i * b.sectorsPerFat) (x / 2) + 1 by unfold fatEntryAddr; omega,
      show 512 * startFat + x = fatEntryAddr startFat (x / 2) + 1 by unfold fatEntryAddr; omega]
    exact hhigh

/-- An allocation keeps the copies in agreement. -/
theorem Allocated.agree {disk disk' : ByteMem} (h : Allocated b startFat cur c disk disk')
    (hagree : CopiesAgree b startFat disk) : CopiesAgree b startFat disk' := by
  refine copies_agree_of_entries fun i hi k hk => ?_
  have hentry := h.entries 0 (by omega) k hk
  rw [Nat.zero_mul, Nat.add_zero] at hentry
  rw [h.entries i hi k hk, hentry, fat_entry_congr hk (hagree i hi)]

/-- A call of `get_free_cluster` on a volume that has a free cluster. -/
def AllocStep (env : BlockEnv) (b : Fat16Bpb) (startFat : Nat) (s : BlockState) (cur : Nat)
    (s' : BlockState) : Prop :=
  HasFree b startFat s.disk ∧ CanLink b startFat cur s.disk ∧
    ∃ c, getFreeCluster env b startFat cur s = some (c, s')

/-- `get_free_cluster` changes in every FAT exactly the first zero entry and the entry of the
current cluster and returns the former, and the copies of the FAT agree after any sequence of
calls. -/
theorem fat_copies_agree (hv : FatVolume env b startFat) :
    (∀ (s : BlockState) (cur : Nat), CopiesAgree b startFat s.disk → HasFree b startFat s.disk →
      CanLink b startFat cur s.disk → ∃ c s', getFreeCluster env b startFat cur s = some (c, s') ∧
        Allocated b startFat cur c s.disk s'.disk) ∧
    ∀ (s s' : BlockState) (trace : List (Transition BlockState Nat)),
      Run (AllocStep env b startFat) s trace s' → CopiesAgree b startFat s.disk →
        CopiesAgree b startFat s'.disk := by
  refine ⟨fun s cur _ hfree hlink => get_free_cluster_allocates hv hfree hlink, ?_⟩
  have hstep : ∀ (t : BlockState) (cur : Nat) (t' : BlockState), CopiesAgree b startFat t.disk →
      AllocStep env b startFat t cur t' → CopiesAgree b startFat t'.disk := by
    rintro t cur t' hagree ⟨hfree, hlink, c, hcall⟩
    obtain ⟨c', t'', hcall', hallocated⟩ := get_free_cluster_allocates hv hfree hlink
    rw [hcall] at hcall'
    obtain ⟨_, rfl⟩ := Prod.mk.inj (Option.some.inj hcall')
    exact hallocated.agree hagree
  exact fun s s' trace hrun => @Run.invariant _ _ _ s s' trace
    (fun t => CopiesAgree b startFat t.disk) hstep hrun

/-- A disk of ten sectors with two FATs of a sector from sector 1, in which two entries are taken.
-/
def smallBpb : Fat16Bpb := ⟨512, 1, 1, 2, 1, 16, 1, 3, 4⟩

def smallEnv : BlockEnv where
  sectCount := 10
  moved _ total := total
  scratch _ := some fun _ => 0x00
  newClusterSector _ := 0
  curClusterSectNo _ := 0

def smallDisk : BlockState where
  disk x := if 512 ≤ x ∧ x < 516 ∨ 1024 ≤ x ∧ x < 1028 then 0xff else 0x00
  commands := 0
  mallocs := 0
  written := []
  stray := false

theorem small_volume : FatVolume smallEnv smallBpb 1 where
  works := ⟨fun _ _ => le_rfl, fun _ => rfl, by decide⟩
  bytes := rfl
  fats := by decide
  sectors := by decide
  onDisk := by decide

theorem small_copies_agree : CopiesAgree smallBpb 1 smallDisk.disk := by
  intro i hi x hx
  have hlt : x < 512 := hx
  rcases Nat.lt_or_ge i 1 with h0 | h1
  · obtain rfl : i = 0 := by omega
    rfl
  · obtain rfl : i = 1 := by
      have hlt2 : i < 2 := hi
      omega
    show (if 512 ≤ 512 * 2 + x ∧ 512 * 2 + x < 516 ∨ 1024 ≤ 512 * 2 + x ∧ 512 * 2 + x < 1028
      then (0xff : UInt8) else 0x00) = if 512 ≤ 512 * 1 + x ∧ 512 * 1 + x < 516 ∨
        1024 ≤ 512 * 1 + x ∧ 512 * 1 + x < 1028 then 0xff else 0x00
    by_cases hx4 : x < 4
    · rw [if_pos (by omega), if_pos (by omega)]
    · rw [if_neg (by omega), if_neg (by omega)]

/-- A cluster is allocated on the small disk, and then another one that is linked to it. -/
theorem fat_copies_agree_small : ∃ s₁ s₂,
    getFreeCluster smallEnv smallBpb 1 0xffff smallDisk = some (2, s₁) ∧
    getFreeCluster smallEnv smallBpb 1 2 s₁ = some (3, s₂) ∧
    Allocated smallBpb 1 2 3 s₁.disk s₂.disk ∧ CopiesAgree smallBpb 1 s₂.disk := by
  obtain ⟨hcall, hruns⟩ := fat_copies_agree small_volume
  have hfree : HasFree smallBpb 1 smallDisk.disk := ⟨2, by decide, by decide +kernel⟩
  have hlink : CanLink smallBpb 1 0xffff smallDisk.disk := ⟨by decide, Or.inl (Or.inl (by decide))⟩
  obtain ⟨c, s₁, hrun, hallocated⟩ := hcall smallDisk 0xffff small_copies_agree hfree hlink
  have hentry := hallocated.entries 0 (by decide)
  have hc : c = 2 := by
    have hsome : (getFreeCluster smallEnv smallBpb 1 0xffff smallDisk).map Prod.fst = some 2 := by
      decide +kernel
    rw [hrun] at hsome
    exact Option.some.inj hsome
  subst hc
  -- the new entry ends the chain, and the one behind it is free
  have hlast : fatEntry s₁.disk 1 2 = 0xffff := hentry 2 (by decide)
  have hnext : fatEntry s₁.disk 1 3 = 0 := (hentry 3 (by decide)).trans (by decide +kernel)
  have hfree' : HasFree smallBpb 1 s₁.disk := ⟨3, by decide, hnext⟩
  have hlink' : CanLink smallBpb 1 2 s₁.disk :=
    ⟨by decide, Or.inr ⟨by decide, by rw [hlast]; decide⟩⟩
  obtain ⟨c', s₂, hrun', hallocated'⟩ :=
    hcall s₁ 2 (hallocated.agree small_copies_agree) hfree' hlink'
  have hc' : c' = 3 := by
    rcases Nat.lt_trichotomy c' 3 with hlt | rfl | hlt
    · have hused : ∀ k < 3, fatEntry s₁.disk 1 k ≠ 0 := by
        intro k hk
        have hkept : fatEntry s₁.disk 1 k =
            if k = 2 then 0xffff else fatEntry smallDisk.disk 1 k := hentry k (by
          show k < 256
          omega)
        rw [hkept]
        interval_cases k <;> decide +kernel
      exact absurd hallocated'.free.zero (hused c' hlt)
    · rfl
    · exact absurd hnext (hallocated'.free.first 3 hlt)
  subst hc'
  have hboth : Run (AllocStep smallEnv smallBpb 1) smallDisk _ s₂ :=
    .snoc (.snoc .nil ⟨hfree, hlink, 2, hrun⟩) ⟨hfree', hlink', 3, hrun'⟩
  exact ⟨s₁, s₂, hrun, hrun', hallocated', hruns smallDisk s₂ _ hboth small_copies_agree⟩

end Genesis32
