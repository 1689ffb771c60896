import Genesis32.FileSyst.DirEntry
import Genesis32.FileSyst.WriteFailures

/-!
# Creating an entry

One round of the creation loop of `create_file_fat16` of `file_syst/fat16.c`: it makes the entry,
asks `get_free_cluster` for a cluster and writes the entry to the parent. The loop passes
`start_sect`, where `write_fat16` passes `start_sect+reserved_sectors`, so that the search starts
in the boot sector. `entry_created_iff` says on which volumes a round does no harm all the same.
-/

namespace Genesis32

open Word

/-! ## The model -/

/-- One round of the loop, with the file pointer `parent`: the entry, or none where the round ends
with `-FAILED_TO_GET_FREE_CLUSTER`, the file pointer and the state. -/
def createEntry (env : BlockEnv) (m : Fat16Mount) (k : Nat) (parent : Fat16File)
    (fName dirEnt : ByteMem) (date time : Nat) (s : BlockState) :
    Option (Option ByteMem × Fat16File × BlockState) := do
  let dirEnt ← strncpy dirEnt 0 fName fileNameLenMax 0
  let dirEnt ← strncpy dirEnt fileNameLenMax fName (fNameLen - fileNameLenMax) (fileNameLenMax + 1)
  let (cluster, s) ← getFreeCluster env m.bpb m.startSect 0xfff8 s
  if EndMark cluster then some (none, parent, s)
  else
    let dirEnt := fillFields dirEnt date time cluster
    let (_, parent, s) ← writeFat16 env m k parent dirEnt fat16DirentSize s
    some (some dirEnt, parent, s)

/-- A byte of one of the FATs. -/
def FatByte (m : Fat16Mount) (x : Nat) : Prop :=
  512 * m.fatSect ≤ x ∧ x < 512 * (m.fatSect + m.bpb.fatCount * m.bpb.sectorsPerFat)

/-- A round ends, changes only the FATs and the clusters of the parent directory, writes none of the
reserved sectors, and the entry that it leaves in the directory has a cluster that was free. -/
def EntryCreated (env : BlockEnv) (m : Fat16Mount) (k : Nat) (parent : Fat16File)
    (fName dirEnt : ByteMem) (date time : Nat) (s : BlockState) : Prop :=
  ∃ entry parent' s', createEntry env m k parent fName dirEnt date time s =
      some (entry, parent', s') ∧
    (∀ x, s'.disk x ≠ s.disk x → FatByte m x ∨ ∃ p, m.chainAddr s'.disk parent p = some x) ∧
    (∃ sectors, s'.written = s.written ++ sectors ∧
      ∀ x ∈ sectors, x < m.startSect ∨ m.fatSect ≤ x) ∧
    ∀ e, entry = some e → fatEntry s.disk m.fatSect (e.word16 26) = 0 ∧
      ∀ i < fat16DirentSize, m.chainByte s'.disk parent (parent.offset + i) = some (e i)

/-- What the search from `start_sect` on meets: nothing, on a volume with one FAT, or first a zero
word behind the reserved sectors whose number is no cluster, or is that of a free one, where the
directory has room for the entry. -/
def SearchHarmless (m : Fat16Mount) (disk : ByteMem) (parent : Fat16File) : Prop :=
  FullFat m.bpb m.startSect disk ∧ m.bpb.fatCount = 1 ∨
    ∃ c < 256 * m.bpb.sectorsPerFat, FirstZero disk m.startSect c ∧
      256 * m.bpb.reservedSectors ≤ c ∧
      (0xfff8 ≤ c ∨ fatEntry disk m.fatSect c = 0 ∧
        (m.cluster disk parent ((parent.offset + 31) / m.clusterSize)).isSome)

variable {env env' : BlockEnv} {m : Fat16Mount} {parent : Fat16File} {s s' : BlockState}
  {hi c k : Nat} {disk disk' : ByteMem} {fName dirEnt : ByteMem} {date time : Nat}

/-! ## The search from the boot sector -/

theorem Fat16Mount.Mounted.startVolume (hv : m.Mounted env hi) :
    FatVolume env m.bpb m.startSect where
  works := hv.works
  bytes := hv.bytes
  fats := hv.fats
  sectors := hv.sectors
  onDisk := by
    have hfats := hv.fats_le
    have hdisk := hv.onDisk
    have hstart : m.startSect ≤ m.fatSect := Nat.le_add_right _ _
    omega

/-- An entry of the FAT is a word from the boot sector on. -/
theorem fat_entry_start (e : Nat) :
    fatEntry disk m.fatSect e = fatEntry disk m.startSect (256 * m.bpb.reservedSectors + e) := by
  unfold fatEntry fatEntryAddr Fat16Mount.fatSect
  congr 1
  omega

/-- After the allocation every word from the boot sector on is what it was or an end mark. -/
theorem Allocated.word_or_mark {startFat cur e : Nat} {b : Fat16Bpb}
    (h : Allocated b startFat cur c disk disk') (hcur : EndMark cur) (hspf : 1 ≤ b.sectorsPerFat) :
    fatEntry disk' startFat e = fatEntry disk startFat e ∨ fatEntry disk' startFat e = 0xffff := by
  have haddr : ∀ d, fatEntry d startFat e =
      fatEntry d (startFat + e / (256 * b.sectorsPerFat) * b.sectorsPerFat)
        (e % (256 * b.sectorsPerFat)) := by
    intro d
    have hdiv := Nat.div_add_mod e (256 * b.sectorsPerFat)
    rw [Nat.mul_assoc, Nat.mul_comm b.sectorsPerFat] at hdiv
    unfold fatEntry fatEntryAddr
    congr 1
    omega
  have hmod := Nat.mod_lt e (show 0 < 256 * b.sectorsPerFat by omega)
  by_cases hfat : e / (256 * b.sectorsPerFat) < b.fatCount
  · have hentry := h.entries _ hfat _ hmod
    rw [haddr, haddr, hentry]
    split_ifs with hc hlink
    · exact Or.inr rfl
    · exact absurd hcur hlink.1
    · exact Or.inl rfl
  · -- the word is behind the last copy
    have hmul := Nat.mul_le_mul_right b.sectorsPerFat (Nat.le_of_not_lt hfat)
    have hdiv := Nat.div_add_mod e (256 * b.sectorsPerFat)
    rw [Nat.mul_assoc, Nat.mul_comm b.sectorsPerFat] at hdiv
    refine Or.inl (ByteMem.word16_congr (h.rest _ (Or.inr ?_)) (h.rest _ (Or.inr ?_))) <;>
      unfold fatEntryAddr <;> omega

theorem Allocated.start_reserved (h : Allocated m.bpb m.startSect 0xfff8 c disk disk')
    (hspf : 1 ≤ m.bpb.sectorsPerFat) (htaken : ReservedTaken m disk) : ReservedTaken m disk' where
  zero := by
    have hword := h.word_or_mark (e := 256 * m.bpb.reservedSectors + 0) (Or.inl (by decide)) hspf
    have hzero := htaken.zero
    rw [fat_entry_start] at hzero ⊢
    omega
  one := by
    have hword := h.word_or_mark (e := 256 * m.bpb.reservedSectors + 1) (Or.inl (by decide)) hspf
    have hone := htaken.one
    rw [fat_entry_start] at hone ⊢
    omega

/-- Behind the reserved sectors the search takes an entry of the FAT. -/
theorem Allocated.start_keeps (h : Allocated m.bpb m.startSect 0xfff8 c disk disk')
    (hfats : 1 ≤ m.bpb.fatCount) (hbehind : 256 * m.bpb.reservedSectors ≤ c) :
    EntriesKept m disk disk' := by
  intro e he hne
  have hc := h.inFat
  rw [fat_entry_start] at hne ⊢
  rw [fat_entry_start]
  rcases Nat.lt_or_ge (256 * m.bpb.reservedSectors + e) (256 * m.bpb.sectorsPerFat) with hlt | hge
  · have hentry := h.entries 0 hfats _ hlt
    have hec : 256 * m.bpb.reservedSectors + e ≠ c := fun heq => hne (heq ▸ h.free.zero)
    rwa [Nat.zero_mul, Nat.add_zero, if_neg hec, if_neg fun hlink => hlink.1 (Or.inl le_rfl)]
      at hentry
  · -- a word of the second copy, before the one that is taken there
    obtain ⟨i, hi⟩ := Nat.exists_eq_add_of_le hge
    have hcopy : ∀ d, fatEntry d m.startSect (256 * m.bpb.reservedSectors + e) =
        fatEntry d (m.startSect + 1 * m.bpb.sectorsPerFat) i := by
      intro d
      unfold fatEntry fatEntryAddr
      congr 1
      omega
    rw [hcopy, hcopy]
    by_cases htwo : 1 < m.bpb.fatCount
    · have hentry := h.entries 1 htwo i (by omega)
      rwa [if_neg (by omega), if_neg fun hlink => hlink.1 (Or.inl le_rfl)] at hentry
    · have hone : m.bpb.fatCount = 1 := by omega
      have hrest := h.rest
      rw [hone] at hrest
      refine ByteMem.word16_congr (hrest _ (Or.inr ?_)) (hrest _ (Or.inr ?_)) <;>
        unfold fatEntryAddr <;> omega

/-- Behind the reserved sectors the search changes nothing but the FATs. -/
theorem Allocated.start_frame (h : Allocated m.bpb m.startSect 0xfff8 c disk disk')
    (hfats : 1 ≤ m.bpb.fatCount) (hbehind : 256 * m.bpb.reservedSectors ≤ c) {x : Nat}
    (hx : disk' x ≠ disk x) : FatByte m x := by
  have hc := h.inFat
  have hle : m.startSect ≤ m.fatSect := Nat.le_add_right _ _
  have hin : 512 * m.startSect ≤ x ∧
      x < 512 * (m.startSect + m.bpb.fatCount * m.bpb.sectorsPerFat) := by
    by_contra hnot
    exact hx (h.rest x (by omega))
  refine ⟨?_, by omega⟩
  by_contra hbefore
  have hword := h.entries 0 hfats ((x - 512 * m.startSect) / 2)
    (by unfold Fat16Mount.fatSect at hbefore; omega)
  rw [Nat.zero_mul, Nat.add_zero, if_neg (by unfold Fat16Mount.fatSect at hbefore; omega),
    if_neg fun hlink => hlink.1 (Or.inl le_rfl)] at hword
  obtain ⟨hlow, hhigh⟩ := ByteMem.word16_inj hword
  unfold fatEntryAddr at hlow hhigh
  rcases Nat.mod_two_eq_zero_or_one (x - 512 * m.startSect) with hmod | hmod
  · rw [show 512 * m.startSect + 2 * ((x - 512 * m.startSect) / 2) = x by omega] at hlow
    exact hx hlow
  · rw [show 512 * m.startSect + 2 * ((x - 512 * m.startSect) / 2) + 1 = x by omega] at hhigh
    exact hx hhigh

/-! ## The round -/

variable {name : Name83}

/-- A component of at most eight characters is copied, and then the round is what it is without the
copying. -/
theorem create_entry_short (hname : ∀ i < fNameLen, fName i = name.cString i)
    (hshort : name.text.length ≤ fileNameLenMax) (dirEnt : ByteMem) (date time : Nat) :
    ∃ copied, ∀ env m k parent s, createEntry env m k parent fName dirEnt date time s =
      (getFreeCluster env m.bpb m.startSect 0xfff8 s).bind fun r =>
        if EndMark r.1 then some (none, parent, r.2)
        else
          (writeFat16 env m k parent (fillFields copied date time r.1) fat16DirentSize r.2).map
            fun t => (some (fillFields copied date time r.1), t.2.1, t.2.2) := by
  obtain ⟨_, hfill, _⟩ := fill_dir_ent_short hname hshort dirEnt date time
    (show 0 < 65536 by decide)
  unfold fillDirEnt at hfill
  obtain ⟨e₁, he₁, hfill⟩ := Option.bind_eq_some_iff.mp hfill
  obtain ⟨e₂, he₂, _⟩ := Option.bind_eq_some_iff.mp hfill
  refine ⟨e₂, fun env m k parent s => ?_⟩
  unfold createEntry
  simp only [he₁, he₂, Option.bind_eq_bind, Option.bind_some]
  cases getFreeCluster env m.bpb m.startSect 0xfff8 s with
  | none => rfl
  | some r =>
      simp only [Option.bind_some]
      split_ifs with hend
      · rfl
      · cases writeFat16 env m k parent (fillFields e₂ date time r.1) fat16DirentSize r.2 <;> rfl

/-- A longer one is never copied to its end. -/
theorem create_entry_long (hname : ∀ i < fNameLen, fName i = name.cString i)
    (hlong : fileNameLenMax < name.text.length) :
    createEntry env m k parent fName dirEnt date time s = none := by
  have h8 : fileNameLenMax = 8 := rfl
  have h13 : fNameLen = 13 := rfl
  unfold createEntry
  rw [strncpy_runs_away fName fileNameLenMax 0 0 dirEnt fun j hj => by
    rw [Nat.zero_add, hname j (by omega)]
    exact name.c_string_ne_zero (by omega)]
  rfl

/-- A file keeps its clusters when the entries of the FAT are kept. -/
theorem Fat16Mount.FileOk.kept {f : Fat16File} (hfile : m.FileOk hi disk f)
    (hkept : EntriesKept m disk disk') : m.FileOk hi disk' f where
  chain := fun j d hd =>
    hfile.chain j d (by rwa [hkept.cluster_eq hfile.chain hfile.taken] at hd)
  taken := fun j d hd => by
    rw [hkept.cluster_eq hfile.chain hfile.taken] at hd
    have htaken := hfile.taken j d hd
    rwa [hkept d (hfile.chain j d hd).inFat htaken]
  finite := by
    obtain ⟨len, hlen⟩ := hfile.finite
    refine ⟨len, fun j => ?_⟩
    have hj := hlen j
    rwa [show Chain.nth (m.nextCluster disk) (Fat16Mount.startCluster f) j =
      Chain.nth (m.nextCluster disk') (Fat16Mount.startCluster f) j from
        (hkept.cluster_eq hfile.chain hfile.taken j).symm] at hj

/-- Where the search finds nothing and there is one FAT, nothing happens. -/
theorem entry_created_full (hv : m.Mounted env hi)
    (hname : ∀ i < fNameLen, fName i = name.cString i)
    (hshort : name.text.length ≤ fileNameLenMax) (hfull : FullFat m.bpb m.startSect s.disk)
    (hone : m.bpb.fatCount = 1) :
    EntryCreated env m k parent fName dirEnt date time s := by
  obtain ⟨copied, hcreate⟩ := create_entry_short hname hshort dirEnt date time
  have hdisk := hv.startVolume.onDisk
  have hspf := Nat.mul_le_mul_right m.bpb.sectorsPerFat hv.fats
  obtain ⟨buf, commands, hrun⟩ :=
    get_free_cluster_full hv.works hv.bytes (by omega) hfull 0xfff8
  rw [hone] at hrun
  have hend : EndMark 0xffff := Or.inl (by decide)
  refine ⟨none, parent, { s with mallocs := s.mallocs + 1, commands := commands }, ?_,
    fun x hx => absurd rfl hx, ⟨[], (List.append_nil _).symm, fun x hx =>
      absurd hx List.not_mem_nil⟩, fun e he => nomatch he⟩
  rw [hcreate, hrun, Option.bind_some]
  exact if_pos hend

/-- Where it finds a word behind the reserved sectors, that is no cluster or a free one, and the
directory has room, the round does what it should. -/
theorem entry_created_behind (hv : m.Mounted env hi)
    (hname : ∀ i < fNameLen, fName i = name.cString i)
    (hshort : name.text.length ≤ fileNameLenMax) (hfile : m.FileOk hi s.disk parent)
    (hoffset : parent.offset < 4294967296) (hk : fat16DirentSize ≤ k)
    (hc : c < 256 * m.bpb.sectorsPerFat) (hzero : FirstZero s.disk m.startSect c)
    (hbehind : 256 * m.bpb.reservedSectors ≤ c)
    (hfits : 0xfff8 ≤ c ∨ fatEntry s.disk m.fatSect c = 0 ∧
      (m.cluster s.disk parent ((parent.offset + 31) / m.clusterSize)).isSome) :
    EntryCreated env m k parent fName dirEnt date time s := by
  obtain ⟨copied, hcreate⟩ := create_entry_short hname hshort dirEnt date time
  have hspf := hv.sectors
  have hfat : m.fatSect = m.startSect + m.bpb.reservedSectors := rfl
  have hcur : EndMark 0xfff8 := Or.inl le_rfl
  obtain ⟨s₁, hget, heffect⟩ := get_free_cluster_edits hv.works hv.bytes hv.fats
    (show c < 65536 by omega) (show 0xfff8 < 65536 by decide)
    (show m.fatSect ≤ m.startSect + c / 256 by omega) (by omega) (Or.inl hcur)
    hv.startVolume.onDisk hzero
  have halloc := edits_allocated hc (by omega) (Or.inl hcur) (Or.inl hcur) hzero heffect.disk
  obtain ⟨sectors, hwritten, hin⟩ := heffect.writes
  -- a number that is an end mark looks like a failed search, and nothing is written for it
  by_cases hend : EndMark c
  · refine ⟨none, parent, s₁, ?_, fun x hx => Or.inl (halloc.start_frame hv.fats hbehind hx),
      ⟨sectors, hwritten, fun x hx => Or.inr (hin x hx).1⟩, fun e he => nomatch he⟩
    rw [hcreate, hget, Option.bind_some]
    exact if_pos hend
  obtain ⟨hfree, hroom⟩ := hfits.resolve_left fun hmark => hend (Or.inl hmark)
  have hkept := halloc.start_keeps hv.fats hbehind
  have hfile₁ := hfile.kept hkept
  rw [← hkept.cluster_eq hfile.chain hfile.taken] at hroom
  obtain ⟨len, hlen⟩ := hfile₁.finite
  have hlt : (parent.offset + 31) / m.clusterSize < len := by exact_mod_cast (hlen _).mp hroom
  have hbytes := (Nat.div_lt_iff_lt_mul hv.clusterSize_pos).mp hlt
  obtain ⟨s', hwrite⟩ := written_in_place hv.toVolume hlen hfile₁.chain hoffset
    (show 1 ≤ fat16DirentSize by decide) (show parent.offset + 32 ≤ len * m.clusterSize by omega) hk
    (fillFields copied date time c)
  obtain ⟨sectors', hwritten', hin'⟩ := hwrite.io.writes
  have haddr : ∀ p, m.chainAddr s'.disk parent p = m.chainAddr s₁.disk parent p := fun p => by
    unfold Fat16Mount.chainAddr
    rw [cluster_same hv.toVolume hwrite.before hfile₁.chain]
  refine ⟨some (fillFields copied date time c), { parent with
    offset := add32 parent.offset fat16DirentSize
    size := max parent.size fat16DirentSize }, s', ?_, fun x hx => ?_,
    ⟨sectors ++ sectors', by rw [hwritten', hwritten, List.append_assoc], fun x hx => ?_⟩,
    fun e he => ?_⟩
  · rw [hcreate, hget, Option.bind_some, if_neg hend, hwrite.run]
    rfl
  · -- a byte of the directory is one that the write stores, every other is as after the search
    by_cases hsame : s'.disk x = s₁.disk x
    · exact Or.inl (halloc.start_frame hv.fats hbehind (hsame ▸ hx))
    · refine Or.inr ?_
      by_contra hnot
      exact hsame (hwrite.outside x fun i _ hi => hnot ⟨parent.offset + i, (haddr _).trans hi⟩)
  · have hle := fat_sect_le_data_sect hv.fats
    rcases List.mem_append.mp hx with hx | hx
    · exact Or.inr (hin x hx).1
    · have hlow := (hin' x hx).1
      omega
  · obtain rfl := Option.some.inj he
    rw [fill_fields_cluster _ _ _ (show c < 65536 by omega)]
    exact ⟨hfree, hwrite.stored⟩

/-! ## The condition -/

/-- A round that changes only the FATs and the directory leaves the reserved sectors alone. -/
theorem reserved_of_frame
    (hframe : ∀ x, disk' x ≠ disk x → FatByte m x ∨ ∃ p, m.chainAddr disk' parent p = some x) :
    ReservedKept m disk disk' := by
  intro x _ hx
  by_contra hne
  rcases hframe x hne with hfat | ⟨p, hp⟩
  · exact absurd hfat.1 (by omega)
  · have hdata := data_le_chain_addr hp
    have hle : m.fatSect ≤ m.dataSect := by
      unfold Fat16Mount.dataSect
      rw [Nat.add_assoc]
      exact Nat.le_add_right _ _
    omega

/-- A word of the reserved sectors that the search takes stays taken. -/
theorem not_reserved_taken (hbefore : c < 256 * m.bpb.reservedSectors)
    (halloc : Allocated m.bpb m.startSect 0xfff8 c s.disk disk) (hfats : 1 ≤ m.bpb.fatCount)
    (hkept₁ : ReservedKept m disk disk') : ¬ ReservedKept m s.disk disk' := by
  intro hkept
  have hentry := halloc.entries 0 hfats c halloc.inFat
  have hzero := halloc.free.zero
  rw [Nat.zero_mul, Nat.add_zero, if_pos rfl] at hentry
  have hsame : ∀ d, ReservedKept m d disk' →
      fatEntry disk' m.startSect c = fatEntry d m.startSect c := by
    intro d hd
    refine ByteMem.word16_congr (hd _ ?_ ?_) (hd _ ?_ ?_) <;>
      unfold fatEntryAddr <;> try unfold Fat16Mount.fatSect
    all_goals omega
  rw [← hsame _ hkept₁, hsame _ hkept, hzero] at hentry
  cases hentry

/-- Where the search finds a word, a round that does what it should has found it behind the reserved
sectors, and its number is no cluster, or that of a free one, and the directory has room. -/
theorem search_harmless_of_found (hv : m.Mounted env hi) (hharmless : env.Harmless)
    (hres : 1 ≤ m.bpb.reservedSectors) (htaken : ReservedTaken m s.disk)
    (hfile : m.FileOk hi s.disk parent) (hname : ∀ i < fNameLen, fName i = name.cString i)
    (hshort : name.text.length ≤ fileNameLenMax) (hk : fat16DirentSize ≤ k)
    (h : EntryCreated env m k parent fName dirEnt date time s)
    (hfree : HasFree m.bpb m.startSect s.disk) : SearchHarmless m s.disk parent := by
  obtain ⟨entry, parent', s', hrun, hframe, _, hentry⟩ := h
  obtain ⟨copied, hcreate⟩ := create_entry_short hname hshort dirEnt date time
  obtain ⟨c, s₁, hget, halloc⟩ := get_free_cluster_allocates hv.startVolume hfree
    ⟨show 0xfff8 < 65536 by decide, Or.inl (Or.inl le_rfl)⟩
  have hspf := hv.sectors
  have hinFat := halloc.inFat
  have htaken₁ := halloc.start_reserved hv.accepted.sectors.1 htaken
  have hone : 1 ≤ fat16DirentSize := by decide
  rw [hcreate, hget, Option.bind_some] at hrun
  by_cases hend : EndMark c
  · rw [if_pos hend] at hrun
    simp only [Option.some.injEq, Prod.mk.injEq] at hrun
    obtain ⟨_, _, rfl⟩ := hrun
    -- a word of the reserved sectors would still be taken, and the round may not change it
    have hbehind : 256 * m.bpb.reservedSectors ≤ c := by
      by_contra hnot
      exact not_reserved_taken (Nat.lt_of_not_le hnot) halloc hv.fats (fun _ _ _ => rfl)
        (reserved_of_frame hframe)
    refine Or.inr ⟨c, hinFat, halloc.free, hbehind, Or.inl ?_⟩
    unfold EndMark at hend
    omega
  · rw [if_neg hend] at hrun
    obtain ⟨⟨r, f', t⟩, hwrite, hpair⟩ := Option.map_eq_some_iff.mp hrun
    obtain ⟨rfl, rfl, rfl⟩ :
        some (fillFields copied date time c) = entry ∧ f' = parent' ∧ t = s' := by
      simpa using hpair
    have hbehind : 256 * m.bpb.reservedSectors ≤ c := by
      by_contra hnot
      exact not_reserved_taken (Nat.lt_of_not_le hnot) halloc hv.fats
        (write_fat16_reserved hv hharmless htaken₁ hone hk hwrite) (reserved_of_frame hframe)
    obtain ⟨hfreeEntry, hstored⟩ := hentry _ rfl
    rw [fill_fields_cluster _ _ _ (show c < 65536 by omega)] at hfreeEntry
    have hlast := chain_byte_isSome (hstored 31 (by decide))
    -- the entry is stored in some cluster, so the directory has a first one
    have hstart : ¬ EndMark (parent.fsSpecific % 65536) := fun hmark => by
      have hnone : m.cluster t.disk parent ((parent.offset + 31) / m.clusterSize) = none := by
        unfold Fat16Mount.cluster
        rw [show Fat16Mount.startCluster parent = none from if_pos hmark, Chain.nth_none]
      rw [hnone] at hlast
      cases hlast
    have hkept₁ := halloc.start_keeps hv.fats hbehind
    have hfile₁ := hfile.kept hkept₁
    obtain ⟨f'', t'', hwrite', _, hkept⟩ :=
      write_fat16_keeps hv hharmless htaken₁ hone hk (fillFields copied date time c) hstart
    simp only [hwrite, Option.some.injEq, Prod.mk.injEq] at hwrite'
    obtain ⟨_, _, rfl⟩ := hwrite'
    rw [hkept.cluster_eq hfile₁.chain hfile₁.taken,
      hkept₁.cluster_eq hfile.chain hfile.taken] at hlast
    exact Or.inr ⟨c, hinFat, halloc.free, hbehind, Or.inr ⟨hfreeEntry, hlast⟩⟩

/-- Writing adds to what has been written. -/
theorem write_block_written (env : BlockEnv) (lba total : Nat) (buf : ByteMem) (a : Nat)
    (s : BlockState) : ∃ l, (s.writeBlock env lba total buf a).written = s.written ++ l := by
  unfold BlockState.writeBlock
  split_ifs
  · exact ⟨[], (List.append_nil _).symm⟩
  · exact ⟨_, rfl⟩

@[simp] theorem read_block_written (env : BlockEnv) (lba total : Nat) (buf : ByteMem) (a : Nat)
    (s : BlockState) : (s.readBlock env lba total buf a).2.written = s.written := by
  unfold BlockState.readBlock
  split_ifs <;> rfl

/-- Without a found entry a round of the mirror loop writes the sector back that the local names. -/
theorem mirror_fat_back {b : Fat16Bpb} {fat cur : Nat} {n : FreeCluster}
    (hoffset : b.entriesPerSect ≤ n.newSectOffset) (hcur : n.curClusterSectNo = 0xffff)
    (hnew : n.newClusterSector ≠ 0xffff) (buf : ByteMem) (s : BlockState) :
    (mirrorFat env b fat cur n buf s).2 =
      BlockState.writeBlock env (add32 fat n.newClusterSector) 1
        (s.readBlock env (add32 fat n.newClusterSector) 1 buf 0).1 0
        { (s.readBlock env (add32 fat n.newClusterSector) 1 buf 0).2 with stray := true } := by
  have htake : ∀ buf t, takeEntry b n.newSectOffset buf t = (buf, { t with stray := true }) :=
    fun buf t => if_neg (Nat.not_lt.mpr hoffset)
  have hmark : n.curClusterSectNo ≥ 0xfff8 := by omega
  unfold mirrorFat
  simp only [htake]
  rw [if_neg (show n.newClusterSector ≠ n.curClusterSectNo by omega), if_pos hmark]

theorem mirror_fats_succ {b : Fat16Bpb} {startFat cur r i : Nat} {n : FreeCluster}
    (buf : ByteMem) (s : BlockState) : mirrorFats env b startFat cur n (r + 1) i buf s =
      mirrorFats env b startFat cur n r (i + 1)
        (mirrorFat env b (add32 startFat (i * b.sectorsPerFat)) cur n buf s).1
        (mirrorFat env b (add32 startFat (i * b.sectorsPerFat)) cur n buf s).2 := rfl

theorem mirror_fats_written {b : Fat16Bpb} {startFat cur : Nat} {n : FreeCluster}
    (hoffset : b.entriesPerSect ≤ n.newSectOffset) (hcur : n.curClusterSectNo = 0xffff)
    (hnew : n.newClusterSector ≠ 0xffff) : ∀ (r i : Nat) (buf : ByteMem) (s : BlockState),
      ∃ l, (mirrorFats env b startFat cur n r i buf s).written = s.written ++ l := by
  intro r
  induction r with
  | zero => exact fun _ _ s => ⟨[], (List.append_nil s.written).symm⟩
  | succ r ih =>
      intro i buf s
      rw [mirror_fats_succ, mirror_fat_back hoffset hcur hnew]
      generalize add32 (add32 startFat (i * b.sectorsPerFat)) n.newClusterSector = sect
      generalize (mirrorFat env b (add32 startFat (i * b.sectorsPerFat)) cur n buf s).1 = buf₁
      obtain ⟨l, hl⟩ := write_block_written env sect 1 (s.readBlock env sect 1 buf 0).1 0
        { (s.readBlock env sect 1 buf 0).2 with stray := true }
      generalize BlockState.writeBlock env sect 1 (s.readBlock env sect 1 buf 0).1 0
        { (s.readBlock env sect 1 buf 0).2 with stray := true } = s₁ at hl ⊢
      obtain ⟨l', hl'⟩ := ih (i + 1) buf₁ s₁
      refine ⟨l ++ l', ?_⟩
      rw [hl', hl, read_block_written, List.append_assoc]

/-- The first sector that it writes. -/
theorem mirror_fats_first (hworks : env.Works) {b : Fat16Bpb} {startFat cur i sect : Nat}
    {n : FreeCluster} (hoffset : b.entriesPerSect ≤ n.newSectOffset)
    (hcur : n.curClusterSectNo = 0xffff) (hnew : n.newClusterSector ≠ 0xffff)
    (hsect : add32 (add32 startFat (i * b.sectorsPerFat)) n.newClusterSector = sect)
    (hdisk : sect + 1 ≤ env.sectCount) (r : Nat) (buf : ByteMem) (s : BlockState) :
    ∃ l, (mirrorFats env b startFat cur n (r + 1) i buf s).written = s.written ++ sect :: l := by
  rw [mirror_fats_succ, mirror_fat_back hoffset hcur hnew, hsect, write_block_ok hworks hdisk]
  generalize (mirrorFat env b (add32 startFat (i * b.sectorsPerFat)) cur n buf s).1 = buf₁
  obtain ⟨l, hl⟩ := mirror_fats_written hoffset hcur hnew r (i + 1) buf₁
    { (s.readBlock env sect 1 buf 0).2 with
      disk := (s.readBlock env sect 1 buf 0).2.disk.copy (512 * sect)
        (s.readBlock env sect 1 buf 0).1 0 (512 * 1)
      commands := (s.readBlock env sect 1 buf 0).2.commands + 1
      written := (s.readBlock env sect 1 buf 0).2.written ++ List.range' sect 1
      stray := true }
  refine ⟨l, hl.trans ?_⟩
  rw [read_block_written, List.append_assoc]
  rfl

/-- Where the search finds nothing and there are several FATs, a local that nothing has set may send
the mirror loop to the boot sector. -/
theorem one_fat_of_full (hv : m.Mounted env hi) (hres : 1 ≤ m.bpb.reservedSectors)
    (hnew : ∀ n, env.newClusterSector n = 4294967296 - m.bpb.sectorsPerFat)
    (hcur : ∀ n, env.curClusterSectNo n = 0xffff)
    (hname : ∀ i < fNameLen, fName i = name.cString i)
    (hshort : name.text.length ≤ fileNameLenMax)
    (h : EntryCreated env m k parent fName dirEnt date time s)
    (hfull : FullFat m.bpb m.startSect s.disk) : m.bpb.fatCount = 1 := by
  by_contra hne
  obtain ⟨entry, parent', s', hrun, _, ⟨sectors, hwritten, hin⟩, _⟩ := h
  obtain ⟨copied, hcreate⟩ := create_entry_short hname hshort dirEnt date time
  have hsize := hv.works.size
  have hdisk := hv.startVolume.onDisk
  have hspf := hv.accepted.sectors
  have hfats := hv.fats
  have hmul := Nat.mul_le_mul_right m.bpb.sectorsPerFat (show 1 ≤ m.bpb.fatCount from hfats)
  have hentries : m.bpb.entriesPerSect ≤ 0xffffffff := by
    rw [Fat16Bpb.entriesPerSect, hv.bytes]
    decide
  obtain ⟨buf, commands, hget⟩ :=
    get_free_cluster_full hv.works hv.bytes (by omega) hfull 0xfff8
  have hend : EndMark 0xffff := Or.inl (by decide)
  obtain ⟨r, hr⟩ : ∃ r, m.bpb.fatCount - 1 = r + 1 := ⟨m.bpb.fatCount - 2, by omega⟩
  have hboot : add32 (add32 m.startSect (1 * m.bpb.sectorsPerFat))
      (env.newClusterSector s.mallocs) = m.startSect := by
    rw [hnew]
    simp only [add32]
    omega
  rw [hcreate, hget, Option.bind_some, if_pos hend, hr] at hrun
  simp only [Option.some.injEq, Prod.mk.injEq] at hrun
  obtain ⟨_, _, rfl⟩ := hrun
  obtain ⟨l, hl⟩ := @mirror_fats_first env hv.works m.bpb m.startSect 0xfff8 1 m.startSect
    ⟨0xffff, env.newClusterSector s.mallocs, 0xffffffff, env.curClusterSectNo s.mallocs⟩ hentries
    (hcur s.mallocs) (show env.newClusterSector s.mallocs ≠ 0xffff by rw [hnew]; omega) hboot
    (by omega) r buf
    { s with mallocs := s.mallocs + 1, commands := commands }
  rw [hl] at hwritten
  obtain rfl := List.append_cancel_left hwritten
  have hstart := hin m.startSect List.mem_cons_self
  unfold Fat16Mount.fatSect at hstart
  omega

/-- For every accepted block with 512-byte sectors, every parent directory, component and old entry,
a round on a device that works does what it should exactly when the component has at most eight
characters and the search from the boot sector does no harm. -/
theorem entry_created_iff (hv : m.Mounted env hi) (hres : 1 ≤ m.bpb.reservedSectors)
    (htaken : ReservedTaken m s.disk) (hfile : m.FileOk hi s.disk parent)
    (hoffset : parent.offset < 4294967296) (hname : ∀ i < fNameLen, fName i = name.cString i)
    (hk : fat16DirentSize ≤ k) (dirEnt : ByteMem) (date time : Nat) :
    (∀ env', env.SameDevice env' → EntryCreated env' m k parent fName dirEnt date time s) ↔
      name.text.length ≤ fileNameLenMax ∧ SearchHarmless m s.disk parent := by
  constructor
  · intro h
    have hworks : ∀ new, env.SameDevice
        { env with newClusterSector := fun _ => new, curClusterSectNo := fun _ => 0xffff } :=
      fun _ => ⟨rfl, rfl, fun _ => rfl⟩
    have hshort : name.text.length ≤ fileNameLenMax := by
      by_contra hlong
      obtain ⟨_, _, _, hrun, _⟩ := h _ (hworks 0)
      rw [create_entry_long hname (by omega)] at hrun
      cases hrun
    refine ⟨hshort, ?_⟩
    by_cases hfree : HasFree m.bpb m.startSect s.disk
    · exact search_harmless_of_found ((hworks 0).mounted hv) ⟨fun _ => rfl, fun _ => rfl⟩ hres
        htaken hfile hname hshort hk (h _ (hworks 0)) hfree
    · have hfull : FullFat m.bpb m.startSect s.disk := fun j hj hzero => hfree ⟨j, hj, hzero⟩
      exact Or.inl ⟨hfull, one_fat_of_full ((hworks _).mounted hv) hres (fun _ => rfl)
        (fun _ => rfl) hname hshort (h _ (hworks _)) hfull⟩
  · intro hall env' henv
    obtain ⟨hshort, hfull | ⟨c, hc, hzero, hbehind, hfits⟩⟩ := hall
    · exact entry_created_full (henv.mounted hv) hname hshort hfull.1 hfull.2
    · exact entry_created_behind (henv.mounted hv) hname hshort hfile hoffset hk hc hzero hbehind
        hfits

/-- The small disk with two words in its boot sector that are not zero. -/
def bootDisk : BlockState :=
  { smallDisk with disk := fun x => if x < 4 then 0xff else smallDisk.disk x }

/-- A round for the component `A` changes the third word of the boot sector. -/
theorem boot_sector_edited :
    ¬ EntryCreated smallEnv smallMount 32 ⟨0, 2, 0, 0⟩ nameA.cString (fun _ => 0x00) 0 0
      bootDisk := by
  intro h
  obtain ⟨entry, parent', s', hrun, hframe, _⟩ := h
  have hbyte : (createEntry smallEnv smallMount 32 ⟨0, 2, 0, 0⟩ nameA.cString (fun _ => 0x00) 0 0
      bootDisk).map (fun t => t.2.2.disk 4) = some 0xff := by decide +kernel
  rw [hrun] at hbyte
  have hchanged : s'.disk 4 ≠ bootDisk.disk 4 := by
    have hval : s'.disk 4 = 0xff := Option.some.inj hbyte
    rw [hval]
    decide
  rcases hframe 4 hchanged with hfat | ⟨p, hp⟩
  · exact absurd hfat.1 (by decide)
  · exact absurd (data_le_chain_addr hp) (by decide)

/-- A volume with a FAT of two sectors behind a boot sector that has no zero word. The first zero
word is the entry 3 of the FAT, and the entry 259, which has its number from the boot sector, is
free. -/
def oddMount : Fat16Mount := ⟨0, ⟨512, 1, 1, 1, 2, 16, 1, 3, 4⟩⟩

def oddDisk : BlockState := { smallDisk with disk := fun x => if x < 518 then 0xff else 0x00 }

/-- There a round does what it should. -/
theorem entry_created_iff_odd : SearchHarmless oddMount oddDisk.disk ⟨0, 2, 0, 0⟩ ∧
    ∀ env', smallEnv.SameDevice env' →
      EntryCreated env' oddMount 32 ⟨0, 2, 0, 0⟩ nameA.cString (fun _ => 0x00) 0 0 oddDisk := by
  have hfirst : oddMount.cluster oddDisk.disk ⟨0, 2, 0, 0⟩ 0 = some 2 := rfl
  have hlast : oddMount.cluster oddDisk.disk ⟨0, 2, 0, 0⟩ 1 = none := by decide +kernel
  have hlow : ∀ k < 259, fatEntry oddDisk.disk 0 k ≠ 0 := by decide +kernel
  have hsearch : SearchHarmless oddMount oddDisk.disk ⟨0, 2, 0, 0⟩ :=
    Or.inr ⟨259, by decide, ⟨by decide +kernel, hlow⟩, by decide,
      Or.inr ⟨by decide +kernel, by decide +kernel⟩⟩
  have hmounted : oddMount.Mounted smallEnv 10 :=
    { bytes := rfl
      clust := by decide
      works := small_volume.works
      fats := by decide
      dataStart := by decide
      onDisk := by decide
      accepted := ⟨by decide, by decide, by decide, by decide, by decide, by decide, rfl, rfl, rfl⟩
      sectors := by decide }
  refine ⟨hsearch, (entry_created_iff hmounted (by decide) ⟨by decide +kernel, by decide +kernel⟩
    { chain := chain_ok_single hfirst hlast ⟨by decide, by decide, by decide, by decide⟩
      taken := fun k c hc => ?_
      finite := ⟨1, Chain.has_length_of_none (fun k hk => by
        obtain rfl : k = 0 := by omega
        exact Option.isSome_of_eq_some hfirst) hlast⟩ }
    (by decide) (fun _ _ => rfl) le_rfl _ 0 0).mpr ⟨by decide, hsearch⟩⟩
  cases k with
  | zero =>
      obtain rfl := Option.some.inj (hfirst.symm.trans hc)
      decide +kernel
  | succ k =>
      rw [Fat16Mount.cluster, Chain.nth_none_of_le hlast (by omega)] at hc
      cases hc

end Genesis32
