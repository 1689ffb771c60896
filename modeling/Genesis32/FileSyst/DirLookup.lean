import Genesis32.FileSyst.OpenNodes
import Genesis32.FileSyst.Partitions
import Genesis32.FileSyst.ReadFat16

/-!
# Looking a name up in a directory

`read_cluster_find_match` of `file_syst/fat16.c`, over `strncmp` of `string/string.c`. The function
searches as many clusters as fit in the size of the node. The node of a subdirectory has the size
that its directory entry records, and for directories the format prescribes zero there.
-/

namespace Genesis32

/-- `FILE_NAME_LEN_MAX`. -/
abbrev fileNameLenMax : Nat := 8

/-- `FAT16_DIRENT_SIZE`. -/
abbrev fat16DirentSize : Nat := 32

/-! ## The model -/

/-- The inner `for` of `read_cluster_find_match` from entry `i` on, with `r` entries left. -/
def findEntry (buffer fName : ByteMem) : Nat → Nat → Option Nat
  | 0, _ => none
  | r + 1, i =>
      if strncmp buffer (fat16DirentSize * i) fName 0 fileNameLenMax = 0 then some i
      else findEntry buffer fName r (i + 1)

/-- The outer `for` of `read_cluster_find_match`, with `r` clusters left: where in the buffer the
entry is that the function returns, if there is one, `fill_val` and the state. `read_fat16` may take
`k` rounds in every cluster. -/
def searchLoop (env : BlockEnv) (m : Fat16Mount) (k : Nat) (fName : ByteMem) :
    Nat → Fat16File → ByteMem → ByteMem → BlockState → Option (Option Nat × ByteMem × BlockState)
  | 0, _, _, fillVal, s => some (none, fillVal, s)
  | r + 1, file, buffer, fillVal, s =>
      match readFat16 env m k file buffer m.clusterSize s with
      | none => none
      | some (n, buffer, file, s) =>
          if n = 0 then some (none, fillVal, s)
          else
            match findEntry buffer fName (m.clusterSize / fat16DirentSize) 0 with
            | some i =>
                some (some (fat16DirentSize * i),
                  fillVal.copy 0 buffer (fat16DirentSize * i) fat16DirentSize, s)
            | none => searchLoop env m k fName r file buffer fillVal s

/-- `read_cluster_find_match` from the file pointer on. -/
def findInNode (env : BlockEnv) (m : Fat16Mount) (k : Nat) (node : Fat16File)
    (fName fillVal : ByteMem) (s : BlockState) : Option (Option Nat × ByteMem × BlockState) :=
  match s.heapCreamMalloc env with
  | none => some (none, fillVal, { s with mallocs := s.mallocs + 1 })
  | some (buffer, s) =>
      searchLoop env m k fName (node.size / m.clusterSize) { node with offset := 0 } buffer fillVal
        s

/-- What a node is to the file functions: the fields of its origin and its own. -/
def VfsState.nodeFile (vfs : VfsState) (node : Ptr) : Option (Fat16Mount × Fat16File) := do
  let n ← vfs.deref nodeKind node
  let mte ← vfs.deref mountKind.toObjectKind n.originMountPoint
  let b ← vfs.deref bpbKind mte.fsBpb
  some (⟨mte.mntPart.startSect, b⟩, ⟨0, n.fsSpecific, n.size, 0⟩)

/-- The `switch` of `read_cluster_find_match`: the node of a cache entry, unless it is a file's. -/
def VfsState.searchNode (vfs : VfsState) (ct : Ptr) : Option (Option Ptr) := do
  let e ← vfs.deref cacheKind.toObjectKind ct
  match e.contentType with
  | .file => some none
  | .mountPnt | .root => do
      let mte ← vfs.deref mountKind.toObjectKind e.content
      some (some mte.fsRootNode)
  | .dir => some (some e.content)

/-- `read_cluster_find_match`. -/
def readClusterFindMatch (env : BlockEnv) (k : Nat) (vfs : VfsState) (ct : Ptr)
    (fName fillVal : ByteMem) (s : BlockState) : Option (Option Nat × ByteMem × BlockState) := do
  match ← vfs.searchNode ct with
  | none => some (none, fillVal, s)
  | some node => do
      let (m, file) ← vfs.nodeFile node
      findInNode env m k file fName fillVal s

/-! ## What the comparison and the search find -/

/-- The comparison is zero if the strings agree in all the characters. -/
theorem strncmp_eq_zero {m₁ m₂ : ByteMem} :
    ∀ n s₁ s₂, (∀ j < n, m₁ (s₁ + j) = m₂ (s₂ + j)) → strncmp m₁ s₁ m₂ s₂ n = 0 := by
  intro n
  induction n with
  | zero => exact fun _ _ _ => rfl
  | succ n ih =>
      intro s₁ s₂ h
      have hfirst : m₁ s₁ = m₂ s₂ := h 0 (by omega)
      rw [strncmp, if_neg (not_not.mpr hfirst)]
      split_ifs
      · rfl
      · refine ih (s₁ + 1) (s₂ + 1) fun j hj => ?_
        rw [Nat.add_assoc, Nat.add_assoc, Nat.add_comm 1 j]
        exact h (j + 1) (by omega)

/-- It is not zero if the first characters differ. -/
theorem strncmp_ne_zero {m₁ m₂ : ByteMem} {s₁ s₂ n : Nat} (h : m₁ s₁ ≠ m₂ s₂) :
    strncmp m₁ s₁ m₂ s₂ (n + 1) ≠ 0 := by
  rw [strncmp, if_pos h]
  intro hzero
  refine h (UInt8.toNat_inj.mp ?_)
  omega

/-- In entries whose first characters all differ from the name's nothing is found. -/
theorem find_entry_none {buffer fName : ByteMem} :
    ∀ r i, (∀ j, i ≤ j → j < i + r → buffer (fat16DirentSize * j) ≠ fName 0) →
      findEntry buffer fName r i = none := by
  intro r
  induction r with
  | zero => exact fun _ _ => rfl
  | succ r ih =>
      intro i h
      rw [findEntry, if_neg (strncmp_ne_zero (h i le_rfl (by omega)))]
      exact ih (i + 1) fun j hl hh => h j (by omega) (by omega)

/-! ## Directories -/

/-- A name of the 8.3 form. -/
structure Name83 where
  base : List UInt8
  ext : List UInt8
  baseLength : 1 ≤ base.length ∧ base.length ≤ 8
  extLength : ext.length ≤ 3
  /-- No control character, blank, dot, slash or mark of a deleted entry. -/
  chars : ∀ c ∈ base ++ ext, 0x20 < c ∧ c ≠ 0x2e ∧ c ≠ 0x2f ∧ c ≠ 0xe5

namespace Name83

/-- The name as a component of a path. -/
def text (name : Name83) : List UInt8 :=
  if name.ext = [] then name.base else name.base ++ 0x2e :: name.ext

/-- The component as a string that ends with a NUL. -/
def cString (name : Name83) : ByteMem := fun i => name.text.getD i 0x00

/-- The eleven bytes of the name in a directory entry. -/
def field (name : Name83) (j : Nat) : UInt8 :=
  if j < 8 then name.base.getD j 0x20 else name.ext.getD (j - 8) 0x20

end Name83

/-- The `e`-th entry in the clusters of a directory is live and carries a name: no entry up to it
ends the directory, it is not deleted and is no volume label or part of a long name. -/
structure LiveEntry (m : Fat16Mount) (disk : ByteMem) (dir : Fat16File) (name : Name83)
    (e : Nat) : Prop where
  beforeEnd : ∀ e' ≤ e, m.chainByte disk dir (fat16DirentSize * e') ≠ some 0x00
  live : m.chainByte disk dir (fat16DirentSize * e) ≠ some 0xe5
  plain : ∃ a, m.chainByte disk dir (fat16DirentSize * e + 11) = some a ∧ a &&& 0x08 = 0
  name : ∀ j < 11, m.chainByte disk dir (fat16DirentSize * e + j) = some (name.field j)

/-- What a complete and exact lookup returns: an entry exactly when a live one carries the name, and
a copy of the first. -/
structure LookupExact (m : Fat16Mount) (disk : ByteMem) (dir : Fat16File) (name : Name83)
    (result : Option Nat) (fillVal : ByteMem) : Prop where
  found : result.isSome ↔ ∃ e, LiveEntry m disk dir name e
  copy : ∀ e, LiveEntry m disk dir name e → (∀ e' < e, ¬ LiveEntry m disk dir name e') →
    ∀ j < fat16DirentSize, m.chainByte disk dir (fat16DirentSize * e + j) = some (fillVal j)

variable {env : BlockEnv} {m : Fat16Mount} {vfs : VfsState} {ct : Ptr} {dir : Fat16File}

/-- The cache entry is a subdirectory of a mounted volume, with a size below that of a cluster: in
directory entries of directories the format prescribes 0. -/
structure VfsState.Subdirectory (vfs : VfsState) (ct : Ptr) (m : Fat16Mount) (dir : Fat16File) :
    Prop where
  entry : ∃ e, vfs.deref cacheKind.toObjectKind ct = some e ∧ e.contentType = .dir ∧
    vfs.nodeFile e.content = some (m, dir)
  size : dir.size < m.clusterSize

/-- So is every entry that `fat16_sub_open_file` makes of a directory entry with the attribute of a
directory, on a mounted volume. -/
theorem opened_subdirectory {H : PathHash} {call : OpenCall} {dirEnt : ByteMem} {path : List UInt8}
    {offset : Nat} {origin : Ptr} {vfs₀ : VfsState} {mte : MountTableEntry} {b : Fat16Bpb}
    (hopen : fat16SubOpenFile H call dirEnt path offset origin vfs₀ = some (ct, vfs))
    (hct : ct ≠ 0) (hattr : dirEnt 11 &&& 0x10 ≠ 0)
    (hsize : dirEnt.word32 28 < (⟨mte.mntPart.startSect, b⟩ : Fat16Mount).clusterSize)
    (hmte : vfs.object origin = some (.mountEntry mte))
    (hbpb : vfs.object mte.fsBpb = some (.bpb b)) :
    vfs.Subdirectory ct ⟨mte.mntPart.startSect, b⟩
      ⟨0, dirEnt.word16 26, dirEnt.word32 28, 0⟩ := by
  obtain ⟨⟨e, he, htype, hcontent⟩, n, hn, horigin, hnsize, hcluster⟩ := opened_node hopen hct
  rw [if_neg hattr] at htype
  refine ⟨⟨e, VfsState.deref_iff.mpr he, htype, ?_⟩, hsize⟩
  have hnode : vfs.deref nodeKind e.content = some n := by
    rw [hcontent]
    exact VfsState.deref_iff.mpr hn
  have hmount : vfs.deref mountKind.toObjectKind n.originMountPoint = some mte := by
    rw [horigin]
    exact VfsState.deref_iff.mpr hmte
  have hblock : vfs.deref bpbKind mte.fsBpb = some b := VfsState.deref_iff.mpr hbpb
  unfold VfsState.nodeFile
  simp only [hnode, hmount, hblock, Option.bind_eq_bind, Option.bind_some, hnsize, hcluster]

/-- A search in a node that is shorter than a cluster reads nothing and finds nothing. -/
theorem find_in_short_node (env : BlockEnv) (k : Nat) (hsize : dir.size < m.clusterSize)
    (fName fillVal : ByteMem) (s : BlockState) :
    findInNode env m k dir fName fillVal s =
      some (none, fillVal, { s with mallocs := s.mallocs + 1 }) := by
  unfold findInNode BlockState.heapCreamMalloc
  rw [Nat.div_eq_of_lt hsize]
  cases env.scratch s.mallocs with
  | none => rfl
  | some buffer => rfl

/-- In a subdirectory nothing is ever found. -/
theorem subdirectory_not_found (hdir : vfs.Subdirectory ct m dir) (k : Nat)
    (fName fillVal : ByteMem) (s : BlockState) :
    readClusterFindMatch env k vfs ct fName fillVal s =
      some (none, fillVal, { s with mallocs := s.mallocs + 1 }) := by
  obtain ⟨e, he, htype, hfile⟩ := hdir.entry
  have hnode : vfs.searchNode ct = some (some e.content) := by
    unfold VfsState.searchNode
    rw [he]
    simp only [Option.bind_eq_bind, Option.bind_some, htype]
  unfold readClusterFindMatch
  rw [hnode]
  simp only [Option.bind_eq_bind, Option.bind_some, hfile]
  exact find_in_short_node env k hdir.size fName fillVal s

/-- In every subdirectory, whatever its clusters hold, the lookup of a name is complete and exact
exactly when no live entry carries the name. -/
theorem lookup_exact_iff (hdir : vfs.Subdirectory ct m dir) (k : Nat) (name : Name83)
    (fillVal : ByteMem) (s : BlockState) :
    (∃ result fillVal' s', readClusterFindMatch env k vfs ct name.cString fillVal s =
        some (result, fillVal', s') ∧ LookupExact m s.disk dir name result fillVal') ↔
      ∀ e, ¬ LiveEntry m s.disk dir name e := by
  rw [subdirectory_not_found hdir]
  constructor
  · intro h e he
    obtain ⟨result, fillVal', s', heq, hexact⟩ := h
    obtain ⟨rfl, _⟩ := Prod.mk.inj (Option.some.inj heq)
    exact absurd (hexact.found.mpr ⟨e, he⟩) (by simp)
  · intro hnone
    refine ⟨none, fillVal, _, rfl, ⟨by simp [hnone], fun e he => absurd he (hnone e)⟩⟩

/-- A volume with a subdirectory in its first cluster, which is a single cluster with one entry: a
file whose name is A. -/
def dirDisk : BlockState where
  disk x :=
    if 512 ≤ x ∧ x < 518 ∨ 1024 ≤ x ∧ x < 1030 then 0xff
    else if x = 2048 then 0x41
    else if 2048 < x ∧ x < 2059 then 0x20
    else 0x00
  commands := 0
  mallocs := 0
  written := []
  stray := false

/-- The subdirectory, open on the mounted volume. -/
def dirVfs : VfsState :=
  ((((⟨∅, [], [], 0, 0, 0, 0, 0, 0⟩ : VfsState).put 16 (.cacheEntry ⟨0, .dir, 32, 1, 1, 0, 0⟩)).put
    32 (.vfsNode ⟨0, 0, 1, 16, 48, 2⟩)).put
    48 (.mountEntry ⟨⟨bootPart.fDisk, 0⟩, 0, 0, 64, 0, 0⟩)).put 64 (.bpb smallBpb)

def dirNode : Fat16File := ⟨0, 2, 0, 0⟩

/-- The name of one letter. -/
def nameA : Name83 := ⟨[0x41], [], by simp, by simp, by simp⟩

theorem dir_vfs_subdirectory : dirVfs.Subdirectory 16 smallMount dirNode :=
  ⟨⟨_, rfl, rfl, rfl⟩, by decide⟩

theorem dir_disk_live : LiveEntry smallMount dirDisk.disk dirNode nameA 0 where
  beforeEnd e he := by
    obtain rfl := Nat.le_zero.mp he
    decide +kernel
  live := by decide +kernel
  plain := ⟨0x00, by decide +kernel, by decide⟩
  name := by decide +kernel

/-- The entry is there and the lookup returns NULL. -/
theorem live_entry_not_found :
    LiveEntry smallMount dirDisk.disk dirNode nameA 0 ∧
    (readClusterFindMatch smallEnv 1 dirVfs 16 nameA.cString (fun _ => 0x00) dirDisk).map
      (fun r => r.1) = some none :=
  ⟨dir_disk_live, by
    rw [subdirectory_not_found dir_vfs_subdirectory]
    rfl⟩

/-- For the subdirectory of the small volume. -/
theorem lookup_exact_iff_dir :
    ¬ ∃ result fillVal' s', readClusterFindMatch smallEnv 1 dirVfs 16 nameA.cString
        (fun _ => 0x00) dirDisk = some (result, fillVal', s') ∧
      LookupExact smallMount dirDisk.disk dirNode nameA result fillVal' := fun h =>
  (lookup_exact_iff dir_vfs_subdirectory 1 nameA _ dirDisk).mp h 0 dir_disk_live

end Genesis32
