import Genesis32.FileSyst.DirLookup

/-!
# Searching the root directory

`mount_fat16` makes a node for the root directory with a sector number in `fs_specific`, and
`read_cluster_find_match` hands the node to `read_fat16`, which takes the number for a cluster. The
search then reads the data of the volume, or nothing, and never the root directory, which lies in
front of the data. `root_searched_iff` says which mounts can be searched all the same.
-/

namespace Genesis32

open Word

/-- What a search of the root directory returns: an entry exactly when one of the
`root_entry_count` entries from the sector `root_lba` on compares equal to the name, and a copy of
the first. -/
structure RootLookup (m : Fat16Mount) (disk fName : ByteMem) (result : Option Nat)
    (fillVal : ByteMem) : Prop where
  found : result.isSome ↔ ∃ e < m.bpb.rootEntryCount,
    strncmp disk (512 * m.bpb.rootLba + fat16DirentSize * e) fName 0 fileNameLenMax = 0
  copy : ∀ e < m.bpb.rootEntryCount,
    strncmp disk (512 * m.bpb.rootLba + fat16DirentSize * e) fName 0 fileNameLenMax = 0 →
    (∀ e' < e,
      strncmp disk (512 * m.bpb.rootLba + fat16DirentSize * e') fName 0 fileNameLenMax ≠ 0) →
    ∀ j < fat16DirentSize, fillVal j = disk (512 * m.bpb.rootLba + fat16DirentSize * e + j)

/-- The cache entry `ct` of a mount leads to a node whose origin is the mount entry `mt`, and on a
disk of `sectCount` sectors, whatever it holds, the lookup of a string in it searches the root
directory. -/
structure RootSearched (vfs : VfsState) (ct mt : Ptr) (m : Fat16Mount) (sectCount : Nat) :
    Prop where
  origin : ∃ node n, vfs.searchNode ct = some (some node) ∧
    vfs.object node = some (.vfsNode n) ∧ n.originMountPoint = mt
  searched : ∀ env : BlockEnv, env.Works → env.sectCount = sectCount →
    ∀ (fName fillVal : ByteMem) (s : BlockState), ∃ k result fillVal' s',
      readClusterFindMatch env k vfs ct fName fillVal s = some (result, fillVal', s') ∧
      RootLookup m s.disk fName result fillVal'

/-! ## A disk with one root entry -/

/-- The disk that is zero except for the first byte of the root directory. -/
def rootDisk (m : Fat16Mount) : ByteMem := fun x => if x = 512 * m.bpb.rootLba then 0x41 else 0x00

/-- A device that works and memory that is zero. -/
def zeroEnv (sectCount : Nat) : BlockEnv where
  sectCount := sectCount
  moved _ total := total
  scratch _ := some fun _ => 0x00
  newClusterSector _ := 0
  curClusterSectNo _ := 0

variable {env : BlockEnv} {m : Fat16Mount} {s s' : BlockState}

/-- Every cluster lies behind the root directory. -/
theorem cluster_sector_ne_root (hbpb : m.bpb.Accepted m.startSect)
    (h512 : m.bpb.bytesPerSect = 512) (hroot : 0 < m.bpb.rootEntryCount) {c q : Nat} (hc : 2 ≤ c)
    (hc16 : c < 65536) (hq : q < m.bpb.sectPerClust) :
    add32 (m.clusterSector c) q ≠ m.bpb.rootLba := by
  have hclust := hbpb.clust
  have hentries := hbpb.entries
  have hmul : (c - 2) * m.bpb.sectPerClust ≤ 65535 * 255 :=
    Nat.mul_le_mul (by omega) (by omega)
  rw [hbpb.root, hbpb.fat]
  unfold Fat16Mount.clusterSector Fat16Mount.dataOffset
  rw [h512, Nat.mul_comm m.bpb.fatCount, sub32_of_le hc (by omega), mul32_of_lt (by omega)]
  generalize m.bpb.sectorsPerFat * m.bpb.fatCount = fats at *
  generalize (c - 2) * m.bpb.sectPerClust = before at *
  simp only [add32]
  omega

/-- Reading any other sector brings zeros. -/
theorem read_block_zero (env : BlockEnv) {disk buf : ByteMem} (hdisk : disk = rootDisk m)
    (hs : s.disk = disk) {lba : Nat} (a : Nat) (hlba : lba ≠ m.bpb.rootLba)
    (hbuf : ∀ x, buf x = 0x00) :
    (∀ x, (s.readBlock env lba 1 buf a).1 x = 0x00) ∧
      (s.readBlock env lba 1 buf a).2.disk = disk := by
  unfold BlockState.readBlock
  split_ifs
  · exact ⟨hbuf, hs⟩
  · refine ⟨fun x => ?_, hs⟩
    by_cases hin : a ≤ x ∧ x < a + 512 * min 1 (env.moved s.commands 1)
    · have hmin : min 1 (env.moved s.commands 1) ≤ 1 := Nat.min_le_left _ _
      show ByteMem.copy buf a s.disk (512 * lba) (512 * min 1 (env.moved s.commands 1)) x = 0x00
      rw [ByteMem.copy_inside hin.1 hin.2, hs, hdisk]
      exact if_neg (by omega)
    · exact (ByteMem.copy_outside (by omega)).trans (hbuf x)

theorem read_cluster_zero (env : BlockEnv) (h512 : m.bpb.bytesPerSect = 512) {disk : ByteMem}
    (hdisk : disk = rootDisk m) (sect : Nat) :
    ∀ (r q : Nat) (buf : ByteMem) (s : BlockState), s.disk = disk → (∀ x, buf x = 0x00) →
      (∀ p, q ≤ p → p < q + r → add32 sect p ≠ m.bpb.rootLba) →
      (∀ x, (readCluster env m sect r q buf s).1 x = 0x00) ∧
        (readCluster env m sect r q buf s).2.disk = disk := by
  intro r
  induction r with
  | zero => exact fun q buf s hs hbuf _ => ⟨hbuf, hs⟩
  | succ r ih =>
      intro q buf s hs hbuf hsect
      obtain ⟨hbuf', hs'⟩ := read_block_zero env hdisk hs (q * m.bpb.bytesPerSect)
        (hsect q le_rfl (by omega)) hbuf
      rw [readCluster, h512, show 512 / 512 = 1 from rfl]
      rw [h512] at hbuf' hs'
      exact ih (q + 1) _ _ hs' hbuf' fun p hl hh => hsect p (by omega) (by omega)

/-- The hop loop leaves the disk alone and ends with a cluster. -/
theorem read_hops_disk (env : BlockEnv) (m : Fat16Mount) {disk : ByteMem} :
    ∀ (h cur : Nat) (buf : ByteMem) (s : BlockState), s.disk = disk → 2 ≤ cur → cur < 65536 →
      (readHops env m h cur buf s).2.2.disk = disk ∧
        ∀ c, (readHops env m h cur buf s).1 = some c → 2 ≤ c ∧ c < 65536 := by
  intro h
  induction h with
  | zero =>
      intro cur buf s hs hl hh
      refine ⟨hs, fun c hc => ?_⟩
      obtain rfl := Option.some.inj hc
      exact ⟨hl, hh⟩
  | succ h ih =>
      intro cur buf s hs hl hh
      have hread : (s.readBlock env (m.entrySector cur) (m.bpb.bytesPerSect / 512) buf 0).2.disk =
          disk := by
        unfold BlockState.readBlock
        split_ifs <;> exact hs
      unfold readHops hopCluster
      generalize s.readBlock env (m.entrySector cur) (m.bpb.bytesPerSect / 512) buf 0 = r at hread
      obtain ⟨buf', s'⟩ := r
      have hword := ByteMem.word16_lt buf' (cur * 2 % m.bpb.bytesPerSect)
      simp only
      by_cases hend : EndMark (buf'.word16 (cur * 2 % m.bpb.bytesPerSect))
      · rw [if_pos hend]
        refine ⟨hread, fun c hc => ?_⟩
        cases hc
      · rw [if_neg hend]
        unfold EndMark at hend
        exact ih _ buf' s' hread (by omega) hword

/-- The outer loop of a read brings zeros. -/
theorem read_loop_zero (hbpb : m.bpb.Accepted m.startSect) (h512 : m.bpb.bytesPerSect = 512)
    (hroot : 0 < m.bpb.rootEntryCount) {disk : ByteMem} (hdisk : disk = rootDisk m) (size : Nat) :
    ∀ (k h x cur idx : Nat) (buffer single temp : ByteMem) (s : BlockState)
      (r : Nat × ByteMem × BlockState), s.disk = disk → 2 ≤ cur → cur < 65536 →
      (∀ y, buffer y = 0x00) → (∀ y, temp y = 0x00) →
      readLoop env m size k h x cur idx buffer single temp s = some r →
      (∀ y, r.2.1 y = 0x00) ∧ r.2.2.disk = disk := by
  intro k
  induction k with
  | zero => exact fun _ _ _ _ _ _ _ _ _ _ _ _ _ _ h => nomatch h
  | succ k ih =>
      intro h x cur idx buffer single temp s r hs hl hh hbuffer htemp hrun
      obtain ⟨hdisk₁, hcluster⟩ := read_hops_disk env m h cur single s hs hl hh
      rw [readLoop] at hrun
      generalize readHops env m h cur single s = hops at hrun hdisk₁ hcluster
      obtain ⟨c, single₁, s₁⟩ := hops
      cases c with
      | none =>
          obtain rfl := Option.some.inj hrun
          exact ⟨hbuffer, hdisk₁⟩
      | some c =>
          obtain ⟨hc, hc16⟩ := hcluster c rfl
          obtain ⟨htemp₂, hdisk₂⟩ := read_cluster_zero env h512 hdisk
            (m.clusterSector c) m.bpb.sectPerClust 0 temp s₁ hdisk₁ htemp
            fun p _ hp => cluster_sector_ne_root hbpb h512 hroot hc hc16 (by omega)
          simp only at hrun
          generalize readCluster env m (m.clusterSector c) m.bpb.sectPerClust 0 temp s₁ = cluster
            at hrun htemp₂ hdisk₂
          obtain ⟨temp₂, s₂⟩ := cluster
          -- no cluster lies in the root directory, so the cluster that was read is zero
          have hbuffer₂ : ∀ t y, buffer.copy idx temp₂ x t y = 0x00 := by
            intro t y
            by_cases hin : idx ≤ y ∧ y < idx + t
            · rw [ByteMem.copy_inside hin.1 hin.2]
              exact htemp₂ _
            · rw [ByteMem.copy_outside (by omega)]
              exact hbuffer y
          simp only at hrun
          split_ifs at hrun
          · obtain rfl := Option.some.inj hrun
            exact ⟨hbuffer₂ _, hdisk₂⟩
          · exact ih _ _ _ _ _ _ _ _ _ hdisk₂ hc hc16 (hbuffer₂ _) htemp₂ hrun

/-- A read from memory that is zero brings zeros. -/
theorem read_fat16_zero {sectCount : Nat} (hbpb : m.bpb.Accepted m.startSect)
    (h512 : m.bpb.bytesPerSect = 512) (hroot : 0 < m.bpb.rootEntryCount) {disk : ByteMem}
    (hdisk : disk = rootDisk m) {k size : Nat} {file : Fat16File} {buffer : ByteMem}
    (hbuffer : ∀ y, buffer y = 0x00) (hs : s.disk = disk)
    {r : Nat × ByteMem × Fat16File × BlockState}
    (h : readFat16 (zeroEnv sectCount) m k file buffer size s = some r) :
    (∀ y, r.2.1 y = 0x00) ∧ r.2.2.2.disk = disk := by
  unfold readFat16 at h
  dsimp only at h
  split_ifs at h with hsize hend
  · obtain rfl := Option.some.inj h
    exact ⟨hbuffer, hs⟩
  · obtain rfl := Option.some.inj h
    exact ⟨hbuffer, hs⟩
  · have hmalloc : ∀ t : BlockState, t.heapCreamMalloc (zeroEnv sectCount) =
        some (fun _ => 0x00, { t with mallocs := t.mallocs + 1 }) := fun _ => rfl
    simp only [hmalloc, Option.bind_eq_bind, Option.bind_some] at h
    obtain ⟨⟨n, buffer', s'⟩, hrun, h⟩ := Option.bind_eq_some_iff.mp h
    obtain rfl := Option.some.inj h
    unfold EndMark at hend
    exact read_loop_zero hbpb h512 hroot hdisk size k _ _ _ _ _ _ _
      { s with mallocs := s.mallocs + 1 + 1 } _ hs
      (show 2 ≤ file.fsSpecific % 65536 by omega) (Nat.mod_lt _ (by decide)) hbuffer
      (fun _ => rfl) hrun

/-- A search on that disk finds no entry whose name has a first character. -/
theorem search_loop_zero {sectCount : Nat} (hbpb : m.bpb.Accepted m.startSect)
    (h512 : m.bpb.bytesPerSect = 512) (hroot : 0 < m.bpb.rootEntryCount) {disk fName : ByteMem}
    (hdisk : disk = rootDisk m) (hname : fName 0 ≠ 0x00) (k : Nat) :
    ∀ (r : Nat) (file : Fat16File) (buffer fillVal : ByteMem) (s : BlockState)
      (result : Option Nat × ByteMem × BlockState), s.disk = disk → (∀ y, buffer y = 0x00) →
      searchLoop (zeroEnv sectCount) m k fName r file buffer fillVal s = some result →
      result.1 = none := by
  intro r
  induction r with
  | zero =>
      intro file buffer fillVal s result _ _ h
      obtain rfl := Option.some.inj h
      rfl
  | succ r ih =>
      intro file buffer fillVal s result hs hbuffer h
      rw [searchLoop] at h
      cases hread : readFat16 (zeroEnv sectCount) m k file buffer m.clusterSize s with
      | none =>
          rw [hread] at h
          cases h
      | some t =>
          rw [hread] at h
          obtain ⟨hzero, hs'⟩ := read_fat16_zero hbpb h512 hroot hdisk hbuffer hs hread
          obtain ⟨n, buffer', file', s'⟩ := t
          simp only at h hzero
          rw [find_entry_none _ _ fun j _ _ => by rw [hzero]; exact hname.symm] at h
          split_ifs at h
          · obtain rfl := Option.some.inj h
            rfl
          · exact ih file' buffer' fillVal s' result hs' hzero h

/-! ## After a mount -/

variable {H : PathHash} {call : MountCall} {part : PartitionRef} {path : List UInt8} {rNode : Ptr}
  {vfs vfs' : VfsState} {b : Fat16Bpb} {n : VfsNode}

/-- A root node whose origin is the mount entry is what `read_fat16` takes for a file: its cluster
and its size are a sector and the bytes of the root directory. -/
theorem root_node_file {entry mt bpb : Ptr} (h : MountRootNode vfs' entry mt bpb rNode part b n)
    (horigin : n.originMountPoint = mt) :
    vfs'.nodeFile rNode = some (⟨part.startSect, b⟩,
      ⟨0, add32 b.reservedSectors (b.fatCount * b.sectorsPerFat),
        mul32 b.bytesPerSect (sub32 b.dataLba b.rootLba), 0⟩) := by
  obtain ⟨n', hn', horigin', hsize, hcluster⟩ := h.node
  obtain ⟨mte, hmte, hpart, _, hbpb⟩ := h.mount
  have hnode : vfs'.deref nodeKind rNode = some n' := VfsState.deref_iff.mpr hn'
  have hmount : vfs'.deref mountKind.toObjectKind n'.originMountPoint = some mte := by
    rw [horigin', horigin]
    exact VfsState.deref_iff.mpr hmte
  have hblock : vfs'.deref bpbKind mte.fsBpb = some b := by
    rw [hbpb]
    exact VfsState.deref_iff.mpr h.block
  unfold VfsState.nodeFile
  simp only [hnode, hmount, hblock, Option.bind_eq_bind, Option.bind_some, hsize, hcluster, hpart]

/-- The search in a mount point goes to the root node. -/
theorem root_node_searched {entry mt bpb : Ptr}
    (h : MountRootNode vfs' entry mt bpb rNode part b n) :
    vfs'.searchNode entry = some (some rNode) := by
  obtain ⟨e, he, htype, hcontent⟩ := h.entry
  obtain ⟨mte, hmte, _, hroot, _⟩ := h.mount
  have hentry : vfs'.deref cacheKind.toObjectKind entry = some e := VfsState.deref_iff.mpr he
  have hmount : vfs'.deref mountKind.toObjectKind e.content = some mte := by
    rw [hcontent]
    exact VfsState.deref_iff.mpr hmte
  unfold VfsState.searchNode
  simp only [hentry, hmount, Option.bind_eq_bind, Option.bind_some, htype, hroot]

/-- After every mount of a volume with 512-byte sectors, on a disk of any length: the lookup in the
mount point searches the root directory, and the origin of its node is the mount entry, exactly when
the root directory has no entries and the node had that origin before. -/
theorem root_searched_iff (hmount : mountFat16 H call part path rNode vfs = some (0, vfs'))
    (hparsed : call.parsed part = some b) (hnode : vfs.object rNode = some (.vfsNode n))
    (h512 : b.bytesPerSect = 512) {sectCount : Nat} (hcount : sectCount < 4294967296) :
    RootSearched vfs' call.entry call.mntTblE ⟨part.startSect, b⟩ sectCount ↔
      b.rootEntryCount = 0 ∧ n.originMountPoint = call.mntTblE := by
  obtain ⟨b', n', hparsed', hnode', hroot⟩ := mount_root_node hmount
  obtain rfl := Option.some.inj (hparsed.symm.trans hparsed')
  obtain rfl : n = n' := by
    have := Option.some.inj (hnode.symm.trans hnode')
    injection this
  have hbpb : b.Accepted part.startSect := parse_accepted hparsed
  have hsearch := root_node_searched hroot
  have hresult : ∀ (env : BlockEnv) (k : Nat) (fName fillVal : ByteMem) (s : BlockState),
      n.originMountPoint = call.mntTblE →
      readClusterFindMatch env k vfs' call.entry fName fillVal s =
        findInNode env ⟨part.startSect, b⟩ k
          ⟨0, add32 b.reservedSectors (b.fatCount * b.sectorsPerFat),
            mul32 b.bytesPerSect (sub32 b.dataLba b.rootLba), 0⟩ fName fillVal s := by
    intro env k fName fillVal s horigin
    unfold readClusterFindMatch
    rw [hsearch]
    simp only [Option.bind_eq_bind, Option.bind_some, root_node_file hroot horigin]
  constructor
  · intro h
    obtain ⟨⟨node, n', hnode₁, hobject, horigin'⟩, hsearched⟩ := h
    -- the node that the entry leads to is the one the mount was given
    obtain rfl : rNode = node := Option.some.inj (Option.some.inj (hsearch.symm.trans hnode₁))
    obtain ⟨n'', hn'', horigin, _⟩ := hroot.node
    obtain rfl : n'' = n' := by
      have := Option.some.inj (hn''.symm.trans hobject)
      injection this
    have hsame : n.originMountPoint = call.mntTblE := horigin.symm.trans horigin'
    refine ⟨?_, hsame⟩
    by_contra hentries
    have hpos : 0 < b.rootEntryCount := Nat.pos_of_ne_zero hentries
    obtain ⟨k, result, fillVal', s', hrun, hlookup⟩ := hsearched (zeroEnv sectCount)
      ⟨fun _ _ => le_rfl, fun _ => rfl, hcount⟩ rfl nameA.cString (fun _ => 0x00)
      ⟨rootDisk ⟨part.startSect, b⟩, 0, 0, [], false⟩
    have hfound : result.isSome := by
      refine hlookup.found.mpr ⟨0, hpos, strncmp_eq_zero _ _ _ fun j _ => ?_⟩
      show rootDisk ⟨part.startSect, b⟩ (512 * b.rootLba + fat16DirentSize * 0 + j) =
        [(0x41 : UInt8)].getD (0 + j) 0x00
      rw [Nat.zero_add]
      cases j with
      | zero => exact if_pos rfl
      | succ j =>
          have hne : 512 * b.rootLba + fat16DirentSize * 0 + (j + 1) ≠ 512 * b.rootLba := by omega
          exact (if_neg hne).trans (by simp)
    rw [hresult _ _ _ _ _ hsame] at hrun
    have hnone : result = none := search_loop_zero (m := ⟨part.startSect, b⟩) hbpb h512 hpos rfl
      (by decide) k _ _ _ _ _ _ rfl (fun _ => rfl) hrun
    rw [hnone] at hfound
    cases hfound
  · intro h
    obtain ⟨hentries, horigin⟩ := h
    obtain ⟨n', hn', horigin', _⟩ := hroot.node
    refine ⟨⟨rNode, n', hsearch, hn', horigin'.trans horigin⟩, fun env _ _ fName fillVal s => ?_⟩
    have hshort : mul32 b.bytesPerSect (sub32 b.dataLba b.rootLba) <
        Fat16Mount.clusterSize ⟨part.startSect, b⟩ := by
      have hempty : sub32 b.dataLba b.rootLba = 0 := by
        rw [hbpb.data, hbpb.root, h512, hentries]
        simp only [add32, sub32]
        omega
      rw [hempty]
      exact Nat.mul_pos (h512 ▸ Nat.succ_pos 511) hbpb.clust.1
    refine ⟨0, none, fillVal, { s with mallocs := s.mallocs + 1 }, ?_, ?_, ?_⟩
    · rw [hresult _ _ _ _ _ horigin]
      exact find_in_short_node env 0 hshort fName fillVal s
    · simp [hentries]
    · intro e he
      simp only [hentries] at he
      omega

/-- The state before a mount whose root node has a given origin. -/
def rootState (origin : Ptr) : VfsState :=
  { bootState with heap := AList.singleton 16 (.vfsNode ⟨0, 0, 0, 0, origin, 0⟩) }

/-- A mount succeeds. Where the origin was NULL, the lookup reads through it. Where it was already
the mount entry, the lookup returns NULL for the name of the first of the 16 root entries. -/
theorem mounted_root_not_searched :
    (∃ vfs', mountFat16 zeroHash bootCall bootPart rootPath 16 (rootState 0) = some (0, vfs') ∧
      readClusterFindMatch (zeroEnv 1000) 1 vfs' 128 nameA.cString (fun _ => 0x00)
        ⟨fun x => if x = 512 * 66 then 0x41 else 0x00, 0, 0, [], false⟩ = none) ∧
    ∃ vfs' b, mountFat16 zeroHash bootCall bootPart rootPath 16 (rootState 32) = some (0, vfs') ∧
      bootCall.parsed bootPart = some b ∧ b.rootEntryCount = 16 ∧ b.rootLba = 66 ∧
      (readClusterFindMatch (zeroEnv 1000) 1 vfs' 128 nameA.cString (fun _ => 0x00)
        ⟨fun x => if x = 512 * 66 then 0x41 else 0x00, 0, 0, [], false⟩).map (fun r => r.1) =
          some none := by
  have hnull : ∃ r ∈ mountFat16 zeroHash bootCall bootPart rootPath 16 (rootState 0), r.1 = 0 ∧
      (readClusterFindMatch (zeroEnv 1000) 1 r.2 128 nameA.cString (fun _ => 0x00)
        ⟨fun x => if x = 512 * 66 then 0x41 else 0x00, 0, 0, [], false⟩).isNone := by decide +kernel
  have hset : ∃ r ∈ mountFat16 zeroHash bootCall bootPart rootPath 16 (rootState 32), r.1 = 0 ∧
      (readClusterFindMatch (zeroEnv 1000) 1 r.2 128 nameA.cString (fun _ => 0x00)
        ⟨fun x => if x = 512 * 66 then 0x41 else 0x00, 0, 0, [], false⟩).map (fun r => r.1) =
          some none := by decide +kernel
  have hparsed : ∃ b ∈ bootCall.parsed bootPart, b.rootEntryCount = 16 ∧ b.rootLba = 66 := by
    decide +kernel
  obtain ⟨⟨code, vfs'⟩, hr, rfl, hnone⟩ := hnull
  obtain ⟨⟨code', vfs''⟩, hr', rfl, hresult⟩ := hset
  obtain ⟨b, hb, hentries, hlba⟩ := hparsed
  exact ⟨⟨vfs', hr, Option.isNone_iff_eq_none.mp hnone⟩,
    vfs'', b, hr', hb, hentries, hlba, hresult⟩

/-- After the second of the two mounts the root directory is not searched. -/
theorem root_searched_iff_boot : ∃ vfs' b,
    mountFat16 zeroHash bootCall bootPart rootPath 16 (rootState 32) = some (0, vfs') ∧
    ¬ RootSearched vfs' bootCall.entry bootCall.mntTblE ⟨bootPart.startSect, b⟩ 1000 := by
  have hmount : ∃ r ∈ mountFat16 zeroHash bootCall bootPart rootPath 16 (rootState 32),
      r.1 = 0 := by decide +kernel
  have hparsed : ∃ b ∈ bootCall.parsed bootPart, b.bytesPerSect = 512 ∧ b.rootEntryCount = 16 := by
    decide +kernel
  obtain ⟨⟨code, vfs'⟩, hr, rfl⟩ := hmount
  obtain ⟨b, hb, h512, hentries⟩ := hparsed
  refine ⟨vfs', b, hr, fun hsearched => ?_⟩
  have hzero := ((root_searched_iff (n := ⟨0, 0, 0, 0, 32, 0⟩) hr hb rfl h512 (by decide)).mp
    hsearched).1
  rw [hentries] at hzero
  exact absurd hzero (by decide)

end Genesis32
