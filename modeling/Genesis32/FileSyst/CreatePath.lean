import Genesis32.FileSyst.CreateEntry
import Genesis32.FileSyst.RootSearch

/-!
# Creating a path

`create_file_fat16` of `file_syst/fat16.c` with `get_last_open` and `get_origing_mnt_tbl_ent`. Of
`set_fname` the model has what its comment promises: the name from `start` up to the next slash, and
the index of the last character. The functions disagree on that index. `get_last_open` leaves
`start` at the last character of the open prefix, and the loop waits for a name that ends at
`path_last`, which is one past the last character of the path. `create_path_never` shows that
the function does what it is for on no path.
-/

namespace Genesis32

abbrev nonExistentPath : Int := 42
abbrev pathAlreadyExists : Int := 43
abbrev failedToGetFreeCluster : Int := 46

/-! ## The model -/

/-- What `create_file_fat16` does to directories: it looks a name up in one, or writes an entry to
one. A directory is known by the hash of its path. -/
inductive PathEvent where
  | lookup (parent : UInt64) (fName : List UInt8)
  | entry (parent : UInt64) (fName : List UInt8)
  deriving DecidableEq

/-- The memory of a call, how often it has opened a file, and what it has done so far. -/
structure PathState where
  vfs : VfsState
  blocks : BlockState
  dirEnt : ByteMem
  opens : Nat
  events : List PathEvent

/-- What a call of `create_file_fat16` meets: the path, the hash functions, the device and how many
rounds its loops may take, what the allocator offers for the `n`-th file that is opened, the clock,
the offset of the first write, which comes from an uninitialised local or from freed memory, what is
in `rtn_val` before it is assigned, and the value of `COULD_NOT_FIND_CACHE_TABLE_ENTRY`, which no
header defines. -/
structure PathCall where
  path : List UInt8
  hash : PathHash
  env : BlockEnv
  rounds : Nat
  opens : Nat → OpenCall
  date : Nat
  time : Nat
  offset : Nat
  garbage : Int
  couldNotFindCacheTableEntry : Int

/-- `set_fname`, as its comment has it. There is no result for a start before the path. -/
def setFname (path : List UInt8) (start : Int) : Option (List UInt8 × Int) :=
  if start < 0 then none
  else
    let fName := (path.drop start.toNat).takeWhile (· ≠ 0x2f)
    some (fName, start + fName.length - 1)

/-- A name as a string that ends with a NUL. -/
def cString (fName : List UInt8) : ByteMem := fun i => fName.getD i 0x00

namespace PathCall

/-- `path_last`. -/
def pathLast (call : PathCall) : Int :=
  if call.path.getD (call.path.length - 1) 0x00 = 0x2f then call.path.length - 1
  else call.path.length

/-- `generate_hast_start_end(path, 0, end)`, whose `end` is a `uint32_t`. -/
def hashTo (call : PathCall) (last : Int) : UInt64 :=
  call.hash.generateHastStartEnd call.path 0 (last % 4294967296).toNat

/-- The `for` of `get_last_open` with `i` characters left. -/
def lastOpenFrom (call : PathCall) (vfs : VfsState) : Nat → Nat → Option (Ptr × Int)
  | 0, _ => some (0, 0)
  | _ + 1, 0 => some (0, 0)
  | fuel + 1, i + 1 =>
      if call.path.getD i 0x00 = 0x2f then do
        let ct ← vfs.lastWithHash (call.hashTo (i - 1)) vfs.rounds vfs.cacheTableStart 0
        -- both the body and the head of the loop count `i` down
        if ct ≠ 0 then some (ct, i - 1) else lastOpenFrom call vfs fuel (i - 1)
      else lastOpenFrom call vfs fuel i

/-- `get_last_open`: the cache entry and the offset. -/
def getLastOpen (call : PathCall) (vfs : VfsState) : Option (Ptr × Int) :=
  call.lastOpenFrom vfs call.path.length call.path.length

end PathCall

/-- `get_origing_mnt_tbl_ent`. -/
def VfsState.originOf (vfs : VfsState) (ct : Ptr) : Option Ptr := do
  match ← vfs.searchNode ct with
  | none => some 0
  | some node => do
      let n ← vfs.deref nodeKind node
      some n.originMountPoint

/-- The node that the creation loop writes to. -/
def VfsState.parentNode (vfs : VfsState) (ct : Ptr) : Option Ptr := do
  let e ← vfs.deref cacheKind.toObjectKind ct
  if e.contentType = .mountPnt then do
    let mte ← vfs.deref mountKind.toObjectKind e.content
    some mte.fsRootNode
  else some e.content

namespace PathCall

/-- The label `exit`: the last file is closed, unless it was the first. -/
def leave (isFirst : Bool) (cur : Ptr) (rtnVal : Int) (s : PathState) : Option (Int × PathState) :=
  if isFirst ∨ cur = 0 then some (rtnVal, s)
  else do
    let (_, vfs) ← fat16SubCloseFile cur s.vfs
    some (rtnVal, { s with vfs := vfs })

/-- The directory that a name was found in is closed, unless it was open before the call. -/
def closeParent (isFirst : Bool) (cur : Ptr) (vfs : VfsState) : Option VfsState :=
  if isFirst then some vfs else (fat16SubCloseFile cur vfs).map Prod.snd

/-- `fat16_sub_open_file(dir_ent, path, cur_name_end-1, origin)`. -/
def openNext (call : PathCall) (curNameEnd : Int) (origin : Ptr) (s : PathState) :
    Option (Ptr × PathState) := do
  let (ct, vfs) ← fat16SubOpenFile call.hash (call.opens s.opens) s.dirEnt call.path
    ((curNameEnd - 1) % 4294967296).toNat origin s.vfs
  some (ct, { s with vfs := vfs, opens := s.opens + 1 })

/-- `start` after the name that ends at `cur_name_end`. -/
def nextStart (call : PathCall) (curNameEnd start : Int) : Int :=
  if call.path.getD curNameEnd.toNat 0x00 ≠ 0x00 ∧
      call.path.getD (curNameEnd + 1).toNat 0x00 ≠ 0x00 then curNameEnd + 1
  else start

/-- The creation loop, within `fuel` rounds, for the name `fName` of the directory `cur`. -/
def createLoop (call : PathCall) (isFirst : Bool) : Nat → Ptr → List UInt8 → Int → Int → Nat →
    PathState → Option (Int × PathState)
  | 0, _, _, _, _, _, _ => none
  | fuel + 1, cur, fName, curNameEnd, start, offset, s => do
      let origin ← s.vfs.originOf cur
      let e ← s.vfs.deref cacheKind.toObjectKind cur
      if origin = 0 then do
        let dirEnt ← strncpy s.dirEnt 0 (cString fName) fileNameLenMax 0
        let _ ← strncpy dirEnt fileNameLenMax (cString fName) (fNameLen - fileNameLenMax)
          (fileNameLenMax + 1)
        leave isFirst cur (-call.couldNotFindCacheTableEntry) s
      else do
        let node ← s.vfs.parentNode cur
        let (m, parent) ← s.vfs.nodeFile node
        match ← createEntry call.env m call.rounds { parent with offset := offset } (cString fName)
            s.dirEnt call.date call.time s.blocks with
        | (none, _, blocks) =>
            leave isFirst cur (-failedToGetFreeCluster) { s with blocks := blocks }
        | (some dirEnt, parent, blocks) => do
            -- `write_fat16` never fails, and it leaves the size and the cluster in the node
            let vfs ← s.vfs.update nodeKind node fun n =>
              { n with fsSpecific := parent.fsSpecific, size := parent.size }
            let (_, vfs) ← fat16SubCloseFile cur vfs
            let s := { s with
              vfs := vfs, blocks := blocks, dirEnt := dirEnt,
              events := s.events ++ [PathEvent.entry e.pathHash fName] }
            if curNameEnd = call.pathLast then leave isFirst cur 0 s
            else do
              let (cur, s) ← call.openNext curNameEnd origin s
              let start := call.nextStart curNameEnd start
              let (fName, curNameEnd) ← setFname call.path start
              if curNameEnd ≤ call.pathLast then
                createLoop call isFirst fuel cur fName curNameEnd start 0 s
              else leave isFirst cur call.garbage s

/-- The loop over the names of the path, within `fuel` rounds. -/
def walkLoop (call : PathCall) : Nat → Ptr → Int → Bool → PathState → Option (Int × PathState)
  | 0, _, _, _, _ => none
  | fuel + 1, cur, start, isFirst, s => do
      let (fName, curNameEnd) ← setFname call.path start
      let e ← s.vfs.deref cacheKind.toObjectKind cur
      let s := { s with events := s.events ++ [PathEvent.lookup e.pathHash fName] }
      let (location, dirEnt, blocks) ←
        readClusterFindMatch call.env call.rounds s.vfs cur (cString fName) s.dirEnt s.blocks
      let s := { s with dirEnt := dirEnt, blocks := blocks }
      match location with
      | some _ =>
          if curNameEnd = call.pathLast then leave isFirst cur (-pathAlreadyExists) s
          else if dirEnt 11 &&& 0x10 = 0 then leave isFirst cur (-nonExistentPath) s
          else do
            let origin ← s.vfs.originOf cur
            let vfs ← closeParent isFirst cur s.vfs
            let (cur, s) ← call.openNext curNameEnd origin { s with vfs := vfs }
            walkLoop call fuel cur (call.nextStart curNameEnd start) false s
      | none => createLoop call isFirst fuel cur fName curNameEnd start call.offset s

/-- `create_file_fat16` within `fuel` rounds of its loops: the return value and the state. The type
that is asked for does not come into it. -/
def createFileFat16 (call : PathCall) (fuel : Nat) (s : PathState) : Option (Int × PathState) := do
  let (cur, start) ← call.getLastOpen s.vfs
  let e ← s.vfs.deref cacheKind.toObjectKind cur
  if e.contentType = .file then some (-nonExistentPath, s)
  else call.walkLoop fuel cur start true s

end PathCall

/-! ## Paths and directories -/

/-- Components of a path. -/
def Components (comps : List (List UInt8)) : Prop :=
  ∀ c ∈ comps, c ≠ [] ∧ 0x2f ∉ c ∧ 0x00 ∉ c

/-- The components, each behind a slash. -/
def joined (comps : List (List UInt8)) : List UInt8 := comps.flatMap fun c => 0x2f :: c

/-- The absolute path with these components, with or without a slash at the end. -/
def pathOf (comps : List (List UInt8)) (trailing : Bool) : List UInt8 :=
  joined comps ++ if trailing then [0x2f] else []

/-- The hash of the path of the first `k` components, which for `k = 0` is a slash. -/
def PathCall.prefixHash (call : PathCall) (comps : List (List UInt8)) (k : Nat) : UInt64 :=
  call.hashTo (max 1 (joined (comps.take k)).length - 1)

/-- The cache table has an entry with this hash. -/
def VfsState.OpenAt (vfs : VfsState) (hash : UInt64) (ct : Ptr) : Prop :=
  vfs.lastWithHash hash vfs.rounds vfs.cacheTableStart 0 = some ct ∧ ct ≠ 0

/-- The cache table has no entry with this hash. -/
def VfsState.NotOpen (vfs : VfsState) (hash : UInt64) : Prop :=
  vfs.lastWithHash hash vfs.rounds vfs.cacheTableStart 0 = some 0

/-- A directory: the cluster chain of a file, or the root directory of the volume. -/
structure Directory where
  mount : Fat16Mount
  file : Option Fat16File

namespace Directory

/-- A byte of a directory. -/
def byte (d : Directory) (disk : ByteMem) (p : Nat) : Option UInt8 :=
  match d.file with
  | some f => d.mount.chainByte disk f p
  | none =>
      if p < fat16DirentSize * d.mount.bpb.rootEntryCount then
        some (disk (512 * d.mount.bpb.rootLba + p))
      else none

/-- Entry `e` has the name, as `create_file_fat16` writes names and the lookup compares them. -/
def Named (d : Directory) (disk : ByteMem) (name : List UInt8) (e : Nat) : Prop :=
  ∀ i < fileNameLenMax, d.byte disk (fat16DirentSize * e + i) = some (cString name i)

/-- Entry `e` is a directory, which starts in the cluster `cluster`. -/
def SubdirAt (d : Directory) (disk : ByteMem) (e cluster : Nat) : Prop :=
  ∃ attr lo hi, d.byte disk (fat16DirentSize * e + 11) = some attr ∧ attr &&& 0x10 ≠ 0 ∧
    d.byte disk (fat16DirentSize * e + 26) = some lo ∧
    d.byte disk (fat16DirentSize * e + 27) = some hi ∧ cluster = lo.toNat + 256 * hi.toNat

/-- The directory that starts in a cluster of the same volume. -/
def subdir (d : Directory) (cluster : Nat) : Directory := ⟨d.mount, some ⟨0, cluster, 0, 0⟩⟩

end Directory

/-- All the components exist below the directory. -/
inductive AllExist (disk : ByteMem) : Directory → List (List UInt8) → Prop where
  | nil {d : Directory} : AllExist disk d []
  | last {d : Directory} {c : List UInt8} {e : Nat} : d.Named disk c e → AllExist disk d [c]
  | step {d : Directory} {c : List UInt8} {cs : List (List UInt8)} {e cluster : Nat} :
      d.Named disk c e → d.SubdirAt disk e cluster → AllExist disk (d.subdir cluster) cs →
      AllExist disk d (c :: cs)

/-- What a walk from the directory has to look up: the components in order, up to the first that
does not exist as a directory. -/
inductive LooksUp (disk : ByteMem) : Directory → List (List UInt8) → List (List UInt8) → Prop where
  | last {d : Directory} {c : List UInt8} : LooksUp disk d [c] [c]
  | stop {d : Directory} {c : List UInt8} {cs : List (List UInt8)} :
      (∀ e cluster, d.Named disk c e → ¬ d.SubdirAt disk e cluster) →
      LooksUp disk d (c :: cs) [c]
  | step {d : Directory} {c : List UInt8} {cs names : List (List UInt8)} {e cluster : Nat} :
      d.Named disk c e → d.SubdirAt disk e cluster → LooksUp disk (d.subdir cluster) cs names →
      LooksUp disk d (c :: cs) (c :: names)

/-- The directory of a cache entry, if it is one. -/
def VfsState.directoryOf (vfs : VfsState) (ct : Ptr) : Option Directory := do
  let e ← vfs.deref cacheKind.toObjectKind ct
  match e.contentType with
  | .file => none
  | .dir => do
      let (m, f) ← vfs.nodeFile e.content
      some ⟨m, some f⟩
  | .mountPnt | .root => do
      let mte ← vfs.deref mountKind.toObjectKind e.content
      let b ← vfs.deref bpbKind mte.fsBpb
      some ⟨⟨mte.mntPart.startSect, b⟩, none⟩

/-- The lookups of a call, with the hash of the directory and the name. -/
def lookups (events : List PathEvent) : List (UInt64 × List UInt8) :=
  events.filterMap fun
    | .lookup parent fName => some (parent, fName)
    | .entry _ _ => none

/-- The entries that a call has written. -/
def entries (events : List PathEvent) : List (UInt64 × List UInt8) :=
  events.filterMap fun
    | .entry parent fName => some (parent, fName)
    | .lookup _ _ => none

namespace PathCall

/-- Names in order, each with the hash of the directory it belongs in: the first in that of the
first `k` components. -/
def under (call : PathCall) (comps : List (List UInt8)) (k : Nat) (names : List (List UInt8)) :
    List (UInt64 × List UInt8) :=
  names.mapIdx fun i name => (call.prefixHash comps (k + i), name)

/-- From the directory `ct` of the first `k` components the call ends, it looks up the components
below in order, it returns `-PATH_ALREADY_EXISTS` and leaves the disk alone if they all exist, and
otherwise, if it returns 0, it has written one entry for each that was missing. -/
def CreatesPath (call : PathCall) (comps : List (List UInt8)) (k : Nat) (ct : Ptr) (s : PathState) :
    Prop :=
  ∃ fuel rtnVal s' d names, call.createFileFat16 fuel s = some (rtnVal, s') ∧
    s.vfs.directoryOf ct = some d ∧
    LooksUp s.blocks.disk d (comps.drop k) names ∧
    lookups s'.events = lookups s.events ++ call.under comps k names ∧
    (AllExist s.blocks.disk d (comps.drop k) →
      rtnVal = -pathAlreadyExists ∧ s'.blocks.disk = s.blocks.disk) ∧
    (¬ AllExist s.blocks.disk d (comps.drop k) → rtnVal = 0 → ∃ found missing,
      comps.drop k = found ++ missing ∧ AllExist s.blocks.disk d found ∧
      ¬ AllExist s.blocks.disk d (found ++ missing.take 1) ∧
      entries s'.events = entries s.events ++ call.under comps (k + found.length) missing)

end PathCall

variable {call : PathCall} {comps : List (List UInt8)} {trailing : Bool} {vfs : VfsState} {ct : Ptr}
  {j k : Nat}

/-! ## The characters of a path -/

theorem joined_append (cs cs' : List (List UInt8)) : joined (cs ++ cs') = joined cs ++ joined cs' :=
  List.flatMap_append

/-- A path, cut before component `k`. -/
theorem path_of_split (comps : List (List UInt8)) (trailing : Bool) (k : Nat) :
    pathOf comps trailing = joined (comps.take k) ++ pathOf (comps.drop k) trailing := by
  conv_lhs => rw [← List.take_append_drop k comps]
  rw [pathOf, joined_append, List.append_assoc, pathOf]

/-- Where component `k` starts: the index of the slash before it. -/
def startOf (comps : List (List UInt8)) (k : Nat) : Nat := (joined (comps.take k)).length

theorem start_of_succ {c : List UInt8} (hc : comps[k]? = some c) :
    startOf comps (k + 1) = startOf comps k + 1 + c.length := by
  rw [startOf, List.take_add_one, hc, joined_append, List.length_append, startOf]
  simp [joined]
  omega

theorem start_of_length : startOf comps comps.length = (joined comps).length := by
  rw [startOf, List.take_length]

/-- Behind the components before it a path goes on with a slash and component `k`. -/
theorem path_at {c : List UInt8} (hc : comps[k]? = some c) :
    (pathOf comps trailing).drop (startOf comps k) =
      0x2f :: (c ++ pathOf (comps.drop (k + 1)) trailing) := by
  obtain ⟨hk, hget⟩ := List.getElem?_eq_some_iff.mp hc
  rw [path_of_split comps trailing k, startOf, List.drop_left, List.drop_eq_getElem_cons hk, hget,
    pathOf, joined, List.flatMap_cons, List.append_assoc, List.cons_append, ← joined, ← pathOf]

/-- The character at an index in component `k`, or at the slash before it. -/
theorem path_char {c : List UInt8} (hc : comps[k]? = some c) {i : Nat} (hi : i ≤ c.length) :
    (pathOf comps trailing).getD (startOf comps k + i) 0x00 = (0x2f :: c).getD i 0x00 := by
  rw [List.getD_eq_getElem?_getD, List.getD_eq_getElem?_getD, ← List.getElem?_drop, path_at hc,
    ← List.cons_append, List.getElem?_append_left (by simp; omega)]

theorem start_lt_length (hk : k < comps.length) :
    startOf comps k < (pathOf comps trailing).length := by
  have hdrop : (pathOf comps trailing).drop (startOf comps k) = _ :=
    path_at (List.getElem?_eq_getElem hk)
  by_contra hle
  rw [List.drop_eq_nil_of_le (by omega)] at hdrop
  cases hdrop

/-- What follows a component is the end of the path or a slash. -/
theorem path_of_next (comps : List (List UInt8)) (trailing : Bool) :
    ∀ a rest, pathOf comps trailing = a :: rest → a = 0x2f := by
  intro a rest h
  cases comps with
  | cons c cs => exact (List.cons.inj h).1.symm
  | nil =>
      cases trailing with
      | true => exact (List.cons.inj h).1.symm
      | false => cases h

/-- In a path only the characters before components are slashes. -/
theorem path_slash_iff (hcomps : Components comps) {c : List UInt8} (hc : comps[k]? = some c)
    {i : Nat} (hi : i ≤ c.length) :
    (pathOf comps trailing).getD (startOf comps k + i) 0x00 = 0x2f ↔ i = 0 := by
  rw [path_char hc hi]
  cases i with
  | zero => simp
  | succ i =>
      have hget : (0x2f :: c).getD (i + 1) 0x00 = c.get ⟨i, hi⟩ := by
        simp [List.getD_eq_getElem?_getD, List.getElem?_eq_getElem (show i < c.length by omega)]
      rw [hget]
      have hnot := (hcomps c (List.mem_of_getElem? hc)).2.1
      constructor
      · intro heq
        exact absurd (heq ▸ List.getElem_mem _) hnot
      · intro heq
        omega

/-! ## The deepest open directory -/

/-- What `is_present_in_cache_table` finds has the hash. -/
theorem last_with_hash_entry {hash : UInt64} :
    ∀ rounds i temp, vfs.lastWithHash hash rounds i temp = some ct → ct = temp ∨
      ∀ e, vfs.deref cacheKind.toObjectKind ct = some e → e.pathHash = hash := by
  intro rounds
  induction rounds with
  | zero =>
      intro i temp h
      cases h
  | succ rounds ih =>
      intro i temp h
      rw [VfsState.lastWithHash] at h
      split_ifs at h with hi
      · exact Or.inl (Option.some.inj h).symm
      · obtain ⟨e, he, hrest⟩ := Option.bind_eq_some_iff.mp h
        rcases ih _ _ hrest with heq | hentry
        · split_ifs at heq with hhash
          · subst heq
            refine Or.inr fun e' he' => ?_
            rw [he] at he'
            rw [← Option.some.inj he', hhash]
          · exact Or.inl heq
        · exact Or.inr hentry

theorem VfsState.OpenAt.hash {hash : UInt64} (h : vfs.OpenAt hash ct) {e : CacheTableEntry}
    (he : vfs.deref cacheKind.toObjectKind ct = some e) : e.pathHash = hash :=
  (last_with_hash_entry _ _ _ h.1).resolve_left h.2 e he

/-- The hash of the first `k` components, for `k` at least one. -/
theorem PathCall.prefix_hash_eq (call : PathCall) (hstart : 0 < startOf comps k) :
    call.prefixHash comps k = call.hashTo ((startOf comps k : Int) - 1) := by
  rw [PathCall.prefixHash, ← startOf, max_eq_right (by omega)]

theorem start_of_pos (hcomps : Components comps) (hk : 0 < k) (hlt : k ≤ comps.length) :
    1 < startOf comps k := by
  obtain ⟨k, rfl⟩ : ∃ k', k = k' + 1 := ⟨k - 1, by omega⟩
  have hc : comps[k]? = some comps[k] := List.getElem?_eq_getElem (by omega)
  have hlength := List.length_pos_iff.mpr (hcomps _ (List.getElem_mem (by omega : k < _))).1
  rw [start_of_succ hc]
  omega

theorem last_open_nil {fuel : Nat} : call.lastOpenFrom vfs fuel 0 = some (0, 0) := by
  cases fuel <;> rfl

/-- From an index in component `j` on, `get_last_open` finds nothing before the open components, and
there it stops one character too early: at the last character of component `k`. -/
theorem last_open_scan (hcomps : Components comps) (hpath : call.path = pathOf comps trailing)
    (hopen : vfs.OpenAt (call.prefixHash comps k) ct)
    (hclosed : ∀ j, k < j → j < comps.length → vfs.NotOpen (call.prefixHash comps j)) :
    ∀ fuel i, i ≤ fuel → ∀ j c, comps[j]? = some c → k ≤ j → startOf comps j < i →
      i ≤ startOf comps j + 1 + c.length → ∀ cur start,
      call.lastOpenFrom vfs fuel i = some (cur, start) →
      (0 < k → cur = ct ∧ start = startOf comps k - 1) ∧ (k = 0 → cur = 0 ∨ start < 0) := by
  intro fuel
  induction fuel with
  | zero =>
      intro i hi j c _ _ hlow
      omega
  | succ fuel ih =>
      intro i hi j c hc hkj hlow hhigh cur start hrun
      have hj := (List.getElem?_eq_some_iff.mp hc).1
      obtain ⟨i, rfl⟩ : ∃ i', i = i' + 1 := ⟨i - 1, by omega⟩
      have hslash : (pathOf comps trailing).getD (startOf comps j + _) 0x00 = 0x2f ↔ _ :=
        path_slash_iff hcomps hc (show i - startOf comps j ≤ c.length by omega)
      rw [Nat.add_sub_cancel' (by omega), ← hpath] at hslash
      rw [PathCall.lastOpenFrom] at hrun
      by_cases hat : i = startOf comps j
      · -- at a slash the prefix in front of it is looked up
        rw [if_pos (hslash.mpr (by omega))] at hrun
        obtain ⟨found, hfound, hrest⟩ := Option.bind_eq_some_iff.mp hrun
        rcases Nat.eq_or_lt_of_le hkj with rfl | hlt
        · refine ⟨fun hpos => ?_, fun hzero => ?_⟩
          · -- the open components are found, and `start` is one in front of the slash
            have hstart := start_of_pos hcomps hpos hj.le
            rw [hat, ← call.prefix_hash_eq (by omega), hopen.1] at hfound
            obtain rfl := Option.some.inj hfound
            rw [if_pos hopen.2] at hrest
            obtain ⟨rfl, rfl⟩ := Prod.mk.inj (Option.some.inj hrest)
            exact ⟨rfl, by rw [hat]⟩
          · subst hzero
            have hat' : i = 0 := hat
            subst hat'
            split_ifs at hrest with hfree
            · obtain ⟨rfl, rfl⟩ := Prod.mk.inj (Option.some.inj hrest)
              exact Or.inr (by omega)
            · obtain ⟨rfl, rfl⟩ := Prod.mk.inj (Option.some.inj (last_open_nil.symm.trans hrest))
              exact Or.inl rfl
        · -- the components from here on are not open, and the one before is searched next
          have hstart := start_of_pos hcomps (show 0 < j by omega) hj.le
          rw [hat, ← call.prefix_hash_eq (by omega), hclosed j hlt hj] at hfound
          obtain rfl := Option.some.inj hfound
          rw [if_neg (not_not.mpr rfl)] at hrest
          obtain ⟨j, rfl⟩ : ∃ j', j = j' + 1 := ⟨j - 1, by omega⟩
          have hc' : comps[j]? = some comps[j] := List.getElem?_eq_getElem (by omega)
          have hlength := List.length_pos_iff.mpr
            (hcomps _ (List.getElem_mem (by omega : j < comps.length))).1
          rw [start_of_succ hc'] at hat
          exact ih (i - 1) (by omega) j _ hc' (by omega) (by omega) (by omega) cur start hrest
      · -- inside a component the index only moves on
        rw [if_neg fun h => hat (by have := hslash.mp h; omega)] at hrun
        exact ih i (by omega) j c hc hkj (by omega) (by omega) cur start hrun

/-- What `get_last_open` returns, if it returns: the whole path, if that ends with a slash and is
open, or the open components. -/
theorem get_last_open_cases (hcomps : Components comps) (hk : k < comps.length)
    (hpath : call.path = pathOf comps trailing)
    (hopen : vfs.OpenAt (call.prefixHash comps k) ct)
    (hclosed : ∀ j, k < j → j < comps.length → vfs.NotOpen (call.prefixHash comps j))
    {cur : Ptr} {start : Int} (hrun : call.getLastOpen vfs = some (cur, start)) :
    vfs.OpenAt (call.prefixHash comps comps.length) cur ∨
      (0 < k → cur = ct ∧ start = startOf comps k - 1) ∧ (k = 0 → cur = 0 ∨ start < 0) := by
  obtain ⟨n, hn⟩ : ∃ n, comps.length = n + 1 := ⟨comps.length - 1, by omega⟩
  have hc : comps[n]? = some comps[n] := List.getElem?_eq_getElem (by omega)
  have hlength := List.length_pos_iff.mpr
    (hcomps _ (List.getElem_mem (by omega : n < comps.length))).1
  have hlast : startOf comps comps.length = startOf comps n + 1 + comps[n].length := by
    rw [← start_of_succ hc, ← hn]
  have hjoined : call.path.length = startOf comps comps.length + if trailing then 1 else 0 := by
    rw [hpath, pathOf, List.length_append, start_of_length]
    cases trailing <;> rfl
  rw [PathCall.getLastOpen] at hrun
  cases trailing with
  | false =>
      simp only [Bool.false_eq_true, if_false, Nat.add_zero] at hjoined
      exact Or.inr (last_open_scan hcomps hpath hopen hclosed _ _ le_rfl n _ hc (by omega)
        (by omega) (by omega) cur start hrun)
  | true =>
      simp only [if_true] at hjoined
      have hslash : call.path.getD (startOf comps comps.length) 0x00 = 0x2f := by
        rw [hpath, pathOf, start_of_length]
        simp [List.getD_eq_getElem?_getD]
      rw [hjoined, PathCall.lastOpenFrom, if_pos hslash] at hrun
      obtain ⟨found, hfound, hrest⟩ := Option.bind_eq_some_iff.mp hrun
      rw [← call.prefix_hash_eq (by omega)] at hfound
      split_ifs at hrest with hfree
      · obtain ⟨rfl, _⟩ := Prod.mk.inj (Option.some.inj hrest)
        exact Or.inl ⟨hfound, hfree⟩
      · exact Or.inr (last_open_scan hcomps hpath hopen hclosed _ _ (by omega) n _ hc (by omega)
          (by omega) (by omega) cur start hrest)

/-! ## What a walk looks up -/

theorem leave_events {isFirst : Bool} {cur : Ptr} {rtnVal rtnVal' : Int} {s s' : PathState}
    (h : PathCall.leave isFirst cur rtnVal s = some (rtnVal', s')) :
    rtnVal' = rtnVal ∧ s'.events = s.events := by
  rw [PathCall.leave] at h
  split_ifs at h
  · obtain ⟨rfl, rfl⟩ := Prod.mk.inj (Option.some.inj h)
    exact ⟨rfl, rfl⟩
  · obtain ⟨closed, _, hrest⟩ := Option.bind_eq_some_iff.mp h
    obtain ⟨rfl, rfl⟩ := Prod.mk.inj (Option.some.inj hrest)
    exact ⟨rfl, rfl⟩

theorem open_next_events {curNameEnd : Int} {origin cur : Ptr} {s s' : PathState}
    (h : call.openNext curNameEnd origin s = some (cur, s')) : s'.events = s.events := by
  obtain ⟨opened, _, hrest⟩ := Option.bind_eq_some_iff.mp h
  obtain ⟨_, rfl⟩ := Prod.mk.inj (Option.some.inj hrest)
  rfl

theorem lookups_append (events events' : List PathEvent) :
    lookups (events ++ events') = lookups events ++ lookups events' :=
  List.filterMap_append

/-- How one round of the creation loop ends: with an error and no entry, with the last entry, or
with an entry and the next name. -/
theorem create_loop_cases {isFirst : Bool} {fuel offset : Nat} {cur : Ptr} {fName : List UInt8}
    {curNameEnd start rtnVal : Int} {s s' : PathState}
    (h : call.createLoop isFirst (fuel + 1) cur fName curNameEnd start offset s =
      some (rtnVal, s')) :
    ((rtnVal = -call.couldNotFindCacheTableEntry ∨ rtnVal = -failedToGetFreeCluster) ∧
      s'.events = s.events) ∨
    ∃ parent,
      (curNameEnd = call.pathLast ∧ rtnVal = 0 ∧
        s'.events = s.events ++ [PathEvent.entry parent fName]) ∨
      ∃ cur' fName' curNameEnd' s₁, s₁.events = s.events ++ [PathEvent.entry parent fName] ∧
        setFname call.path (call.nextStart curNameEnd start) = some (fName', curNameEnd') ∧
        (curNameEnd' ≤ call.pathLast ∧
          call.createLoop isFirst fuel cur' fName' curNameEnd' (call.nextStart curNameEnd start) 0
            s₁ = some (rtnVal, s') ∨
        call.pathLast < curNameEnd' ∧ s'.events = s₁.events) := by
  rw [PathCall.createLoop] at h
  obtain ⟨origin, _, h⟩ := Option.bind_eq_some_iff.mp h
  obtain ⟨e, _, h⟩ := Option.bind_eq_some_iff.mp h
  by_cases horigin : origin = 0
  · -- the current entry belongs to no mount
    rw [if_pos horigin] at h
    obtain ⟨dirEnt, _, h⟩ := Option.bind_eq_some_iff.mp h
    obtain ⟨dirEnt', _, h⟩ := Option.bind_eq_some_iff.mp h
    obtain ⟨hcode, hevents⟩ := leave_events h
    exact Or.inl ⟨Or.inl hcode, hevents⟩
  · rw [if_neg horigin] at h
    obtain ⟨node, _, h⟩ := Option.bind_eq_some_iff.mp h
    obtain ⟨⟨m, parent⟩, _, h⟩ := Option.bind_eq_some_iff.mp h
    obtain ⟨⟨entry, parent', blocks⟩, _, h⟩ := Option.bind_eq_some_iff.mp h
    cases entry with
    | none =>
        -- no cluster was free for the entry
        obtain ⟨hcode, hevents⟩ := leave_events h
        exact Or.inl ⟨Or.inr hcode, hevents⟩
    | some dirEnt =>
        obtain ⟨vfs₁, _, h⟩ := Option.bind_eq_some_iff.mp h
        obtain ⟨⟨code, vfs₂⟩, _, h⟩ := Option.bind_eq_some_iff.mp h
        simp only at h
        refine Or.inr ⟨e.pathHash, ?_⟩
        by_cases hend : curNameEnd = call.pathLast
        · rw [if_pos hend] at h
          obtain ⟨hcode, hevents⟩ := leave_events h
          exact Or.inl ⟨hend, hcode, hevents⟩
        · rw [if_neg hend] at h
          obtain ⟨⟨cur', s₁⟩, hopen, h⟩ := Option.bind_eq_some_iff.mp h
          obtain ⟨⟨fName', curNameEnd'⟩, hname, h⟩ := Option.bind_eq_some_iff.mp h
          refine Or.inr ⟨cur', fName', curNameEnd', s₁, open_next_events hopen, hname, ?_⟩
          simp only at h
          by_cases hlast : curNameEnd' ≤ call.pathLast
          · rw [if_pos hlast] at h
            exact Or.inl ⟨hlast, h⟩
          · rw [if_neg hlast] at h
            exact Or.inr ⟨by omega, (leave_events h).2⟩

/-- The creation loop looks nothing up. -/
theorem create_loop_lookups {isFirst : Bool} :
    ∀ fuel cur fName curNameEnd start offset (s : PathState) rtnVal s',
      call.createLoop isFirst fuel cur fName curNameEnd start offset s = some (rtnVal, s') →
      lookups s'.events = lookups s.events := by
  intro fuel
  induction fuel with
  | zero =>
      intro cur fName curNameEnd start offset s rtnVal s' h
      cases h
  | succ fuel ih =>
      intro cur fName curNameEnd start offset s rtnVal s' h
      have hentry : ∀ parent, lookups (s.events ++ [PathEvent.entry parent fName]) =
          lookups s.events := by
        intro parent
        rw [lookups_append]
        exact List.append_nil _
      rcases create_loop_cases h with
        ⟨_, hsame⟩ | ⟨parent, ⟨_, _, hlast⟩ | ⟨cur', fName', _, s₁, hmore, _, hrest⟩⟩
      · rw [hsame]
      · rw [hlast, hentry]
      · rcases hrest with ⟨_, hloop⟩ | ⟨_, hleft⟩
        · rw [ih _ _ _ _ _ _ _ _ hloop, hmore, hentry]
        · rw [hleft, hmore, hentry]

/-- How one round of the walk ends: with a code for the name that it found, with the next name, or
in the creation loop. -/
theorem walk_loop_cases {fuel : Nat} {cur : Ptr} {start rtnVal : Int} {isFirst : Bool}
    {s s' : PathState} (h : call.walkLoop (fuel + 1) cur start isFirst s = some (rtnVal, s')) :
    ∃ fName curNameEnd e s₁, setFname call.path start = some (fName, curNameEnd) ∧
      s.vfs.deref cacheKind.toObjectKind cur = some e ∧
      s₁.events = s.events ++ [PathEvent.lookup e.pathHash fName] ∧
      ((curNameEnd = call.pathLast ∨ rtnVal = -nonExistentPath) ∧ s'.events = s₁.events ∨
      (∃ cur', call.walkLoop fuel cur' (call.nextStart curNameEnd start) false s₁ =
        some (rtnVal, s')) ∨
      call.createLoop isFirst fuel cur fName curNameEnd start call.offset s₁ =
        some (rtnVal, s')) := by
  rw [PathCall.walkLoop] at h
  obtain ⟨⟨fName, curNameEnd⟩, hname, h⟩ := Option.bind_eq_some_iff.mp h
  obtain ⟨e, he, h⟩ := Option.bind_eq_some_iff.mp h
  obtain ⟨⟨location, dirEnt, blocks⟩, _, h⟩ := Option.bind_eq_some_iff.mp h
  cases location with
  | none => exact ⟨fName, curNameEnd, e, _, hname, he, rfl, Or.inr (Or.inr h)⟩
  | some i =>
      simp only at h
      by_cases hend : curNameEnd = call.pathLast
      · rw [if_pos hend] at h
        exact ⟨fName, curNameEnd, e, _, hname, he, rfl, Or.inl ⟨Or.inl hend, (leave_events h).2⟩⟩
      · rw [if_neg hend] at h
        by_cases hfile : dirEnt 11 &&& 0x10 = 0
        · rw [if_pos hfile] at h
          obtain ⟨hcode, hevents⟩ := leave_events h
          exact ⟨fName, curNameEnd, e, _, hname, he, rfl, Or.inl ⟨Or.inr hcode, hevents⟩⟩
        · rw [if_neg hfile] at h
          obtain ⟨origin, _, h⟩ := Option.bind_eq_some_iff.mp h
          obtain ⟨vfs₁, _, h⟩ := Option.bind_eq_some_iff.mp h
          obtain ⟨⟨cur', s₁⟩, hopen, h⟩ := Option.bind_eq_some_iff.mp h
          exact ⟨fName, curNameEnd, e, s₁, hname, he, open_next_events hopen,
            Or.inr (Or.inl ⟨cur', h⟩)⟩

/-- The first lookup of a walk is that of the name at `start`, and if there is another, it is that
of the name at the next start. -/
theorem walk_loop_lookups :
    ∀ fuel cur start isFirst (s : PathState) rtnVal s',
      call.walkLoop fuel cur start isFirst s = some (rtnVal, s') →
      ∃ fName curNameEnd e more, setFname call.path start = some (fName, curNameEnd) ∧
        s.vfs.deref cacheKind.toObjectKind cur = some e ∧
        lookups s'.events = lookups s.events ++ (e.pathHash, fName) :: more ∧
        (more = [] ∨ ∃ fName' curNameEnd' parent more',
          setFname call.path (call.nextStart curNameEnd start) = some (fName', curNameEnd') ∧
          more = (parent, fName') :: more') := by
  intro fuel
  induction fuel with
  | zero =>
      intro cur start isFirst s rtnVal s' h
      cases h
  | succ fuel ih =>
      intro cur start isFirst s rtnVal s' h
      obtain ⟨fName, curNameEnd, e, s₁, hname, he, hevents, hcase⟩ := walk_loop_cases h
      have hfirst : lookups s₁.events = lookups s.events ++ [(e.pathHash, fName)] := by
        rw [hevents, lookups_append]
        rfl
      rcases hcase with ⟨_, hsame⟩ | ⟨cur', hwalk⟩ | hcreate
      · exact ⟨fName, curNameEnd, e, [], hname, he, by rw [hsame, hfirst], Or.inl rfl⟩
      · obtain ⟨fName', curNameEnd', e', more, hname', _, hlookups, _⟩ := ih _ _ _ _ _ _ hwalk
        refine ⟨fName, curNameEnd, e, _, hname, he, ?_,
          Or.inr ⟨fName', curNameEnd', e'.pathHash, more, hname', rfl⟩⟩
        rw [hlookups, hfirst, List.append_assoc]
        rfl
      · refine ⟨fName, curNameEnd, e, [], hname, he, ?_, Or.inl rfl⟩
        rw [create_loop_lookups _ _ _ _ _ _ _ _ _ hcreate, hfirst]

/-! ## Where a name can end -/

/-- A name stops at the next slash. -/
theorem length_take_while_le {l : List UInt8} {i : Nat} (h : l.getD i 0x00 = 0x2f) :
    (l.takeWhile (· ≠ 0x2f)).length ≤ i := by
  induction l generalizing i with
  | nil => exact Nat.zero_le i
  | cons a l ih =>
      by_cases ha : a = 0x2f
      · simp [ha]
      · cases i with
        | zero => exact absurd h ha
        | succ i =>
            have hrest := ih (i := i) h
            simpa [List.takeWhile_cons, ha] using hrest

/-- No name ends at `path_last`. -/
theorem set_fname_end {start curNameEnd : Int} {fName : List UInt8} (hstart : start ≤ call.pathLast)
    (h : setFname call.path start = some (fName, curNameEnd)) : curNameEnd < call.pathLast := by
  rw [setFname] at h
  split_ifs at h with hneg
  obtain ⟨rfl, rfl⟩ := Prod.mk.inj (Option.some.inj h)
  have hlength : ((call.path.drop start.toNat).takeWhile (· ≠ 0x2f)).length ≤
      call.path.length - start.toNat := by
    rw [← List.length_drop]
    exact (List.takeWhile_prefix _).length_le
  unfold PathCall.pathLast at hstart ⊢
  split_ifs at hstart ⊢ with hslash
  · have hnonempty : 0 < call.path.length := by
      by_contra hnil
      obtain hnil : call.path = [] := List.length_eq_zero_iff.mp (by omega)
      rw [hnil] at hslash
      exact absurd hslash (by decide)
    have hnext : (call.path.drop start.toNat).getD (call.path.length - 1 - start.toNat) 0x00 =
        0x2f := by
      rw [List.getD_eq_getElem?_getD, List.getElem?_drop, ← List.getD_eq_getElem?_getD,
        Nat.add_sub_cancel' (by omega)]
      exact hslash
    have := length_take_while_le hnext
    omega
  · omega

theorem next_start_le {start curNameEnd : Int} (hstart : start ≤ call.pathLast)
    (hend : curNameEnd < call.pathLast) : call.nextStart curNameEnd start ≤ call.pathLast := by
  rw [PathCall.nextStart]
  split_ifs <;> omega

/-- The creation loop never says that the path exists. -/
theorem create_loop_code (hcode : call.couldNotFindCacheTableEntry ≠ pathAlreadyExists)
    {isFirst : Bool} :
    ∀ fuel cur fName curNameEnd start offset (s : PathState) rtnVal s',
      start ≤ call.pathLast → curNameEnd < call.pathLast →
      call.createLoop isFirst fuel cur fName curNameEnd start offset s = some (rtnVal, s') →
      rtnVal ≠ -pathAlreadyExists := by
  intro fuel
  induction fuel with
  | zero =>
      intro cur fName curNameEnd start offset s rtnVal s' _ _ h
      cases h
  | succ fuel ih =>
      intro cur fName curNameEnd start offset s rtnVal s' hstart hend h
      rcases create_loop_cases h with
        ⟨herror | hfull, _⟩ | ⟨_, ⟨hlast, _⟩ | ⟨_, _, curNameEnd', _, _, hname, hrest⟩⟩
      · rw [herror]
        exact fun heq => hcode (neg_inj.mp heq)
      · rw [hfull]
        decide
      · omega
      · have hnext := next_start_le hstart hend
        have hend' := set_fname_end hnext hname
        rcases hrest with ⟨_, hloop⟩ | ⟨hpast, _⟩
        · exact ih _ _ _ _ _ _ _ _ hnext hend' hloop
        · omega

/-- Neither does the walk. -/
theorem walk_loop_code (hcode : call.couldNotFindCacheTableEntry ≠ pathAlreadyExists) :
    ∀ fuel cur start isFirst (s : PathState) rtnVal s', start ≤ call.pathLast →
      call.walkLoop fuel cur start isFirst s = some (rtnVal, s') →
      rtnVal ≠ -pathAlreadyExists := by
  intro fuel
  induction fuel with
  | zero =>
      intro cur start isFirst s rtnVal s' _ h
      cases h
  | succ fuel ih =>
      intro cur start isFirst s rtnVal s' hstart h
      obtain ⟨fName, curNameEnd, e, s₁, hname, _, _, hcase⟩ := walk_loop_cases h
      have hend := set_fname_end hstart hname
      rcases hcase with ⟨hlast | hfile, _⟩ | ⟨cur', hwalk⟩ | hcreate
      · omega
      · rw [hfile]
        decide
      · exact ih _ _ _ _ _ _ (next_start_le hstart hend) hwalk
      · exact create_loop_code hcode _ _ _ _ _ _ _ _ _ hstart hend hcreate

/-! ## The first names -/

/-- From the last character of a component on. -/
theorem path_at_last {c : List UInt8} (hc : comps[k]? = some c) (hne : c ≠ []) :
    (pathOf comps trailing).drop (startOf comps k + c.length) =
      c.getLast hne :: pathOf (comps.drop (k + 1)) trailing := by
  have hlength : c.length = (0x2f :: c.dropLast).length := by
    have := List.length_pos_iff.mpr hne
    rw [List.length_cons, List.length_dropLast]
    omega
  rw [← List.drop_drop, path_at hc, ← List.cons_append]
  conv_lhs => rw [← List.dropLast_append_getLast hne, ← List.cons_append, List.append_assoc]
  rw [List.dropLast_append_getLast hne, hlength, List.drop_left, List.singleton_append]

/-- At the last character of component `k` the name is that character, and the next start is the
slash behind it, where the name is empty. -/
theorem names_from_last (hcomps : Components comps) (hpath : call.path = pathOf comps trailing)
    {c : List UInt8} (hc : comps[k]? = some c) (hlt : k + 1 < comps.length) :
    ∃ last, c.getLast? = some last ∧
      setFname call.path ((startOf comps (k + 1) : Int) - 1) =
        some ([last], (startOf comps (k + 1) : Int) - 1) ∧
      call.nextStart ((startOf comps (k + 1) : Int) - 1) ((startOf comps (k + 1) : Int) - 1) =
        startOf comps (k + 1) ∧
      setFname call.path (startOf comps (k + 1)) =
        some ([], (startOf comps (k + 1) : Int) - 1) := by
  obtain ⟨hne, hslash, hzero⟩ := hcomps c (List.mem_of_getElem? hc)
  have hmem := List.getLast_mem hne
  have hlastSlash : c.getLast hne ≠ 0x2f := fun h => hslash (h ▸ hmem)
  have hstart := start_of_succ hc
  have hnext : comps[k + 1]? = some comps[k + 1] := List.getElem?_eq_getElem hlt
  have hdrop : call.path.drop (startOf comps k + c.length) =
      c.getLast hne :: pathOf (comps.drop (k + 1)) trailing := by
    rw [hpath]
    exact path_at_last hc hne
  have hdrop' : call.path.drop (startOf comps (k + 1)) = _ := hpath ▸ path_at hnext
  have hindex : ((startOf comps (k + 1) : Int) - 1).toNat = startOf comps k + c.length := by omega
  refine ⟨c.getLast hne, List.getLast?_eq_some_getLast hne, ?_, ?_, ?_⟩
  · rw [setFname, if_neg (by omega), hindex, hdrop,
      List.takeWhile_cons_of_pos (by simpa using hlastSlash)]
    have hrest : (pathOf (comps.drop (k + 1)) trailing).takeWhile (· ≠ 0x2f) = [] := by
      cases hnext : pathOf (comps.drop (k + 1)) trailing with
      | nil => rfl
      | cons a rest =>
          rw [List.takeWhile_cons_of_neg (by simp [path_of_next _ _ a rest hnext])]
    rw [hrest]
    simp
  · have hlast : call.path.getD (startOf comps k + c.length) 0x00 = c.getLast hne := by
      rw [List.getD_eq_getElem?_getD, ← Nat.add_zero (_ + _), ← List.getElem?_drop, hdrop]
      rfl
    have hbehind : call.path.getD (startOf comps (k + 1)) 0x00 = 0x2f := by
      rw [List.getD_eq_getElem?_getD, ← Nat.add_zero (startOf _ _), ← List.getElem?_drop, hdrop']
      rfl
    rw [PathCall.nextStart, hindex, hlast, show (startOf comps (k + 1) : Int) - 1 + 1 =
      (startOf comps (k + 1) : Nat) by omega, Int.toNat_natCast, hbehind,
      if_pos ⟨fun h => hzero (h ▸ hmem), by decide⟩]
  · rw [setFname, if_neg (by omega), Int.toNat_natCast, hdrop',
      List.takeWhile_cons_of_neg (by simp)]
    simp

/-! ## A disk with the first name -/

/-- The directory is there: its cluster chain has a first cluster with room for an entry, or the
root directory has an entry. -/
def Directory.Valid (d : Directory) : Prop :=
  match d.file with
  | some f => ¬ EndMark (f.fsSpecific % 65536) ∧ fat16DirentSize ≤ d.mount.clusterSize
  | none => 1 ≤ d.mount.bpb.rootEntryCount

/-- Where the first entry of a directory lies does not depend on the disk. -/
theorem Directory.Valid.first {d : Directory} (h : d.Valid) :
    ∃ a, ∀ disk p, p < fat16DirentSize → d.byte disk p = some (disk (a + p)) := by
  obtain ⟨m, file⟩ := d
  cases file with
  | none =>
      refine ⟨512 * m.bpb.rootLba, fun disk p hp => if_pos ?_⟩
      have hcount : 1 ≤ m.bpb.rootEntryCount := h
      show p < fat16DirentSize * m.bpb.rootEntryCount
      exact lt_of_lt_of_le hp (Nat.le_mul_of_pos_right _ hcount)
  | some f =>
      obtain ⟨hcluster, hsize⟩ := h
      refine ⟨m.clusterAddr (f.fsSpecific % 65536), fun disk p hp => ?_⟩
      have hfirst : m.cluster disk f 0 = some (f.fsSpecific % 65536) := if_neg hcluster
      have hbyte := chain_byte_eq (lt_of_lt_of_le hp hsize) hfirst
      rwa [Nat.zero_mul, Nat.zero_add] at hbyte

/-- A disk whose bytes from `a` on are an entry for a directory with this name. -/
def entryDisk (a : Nat) (name : List UInt8) : ByteMem := fun x =>
  if x < a then 0x00
  else if x < a + fileNameLenMax then cString name (x - a)
  else if x = a + 11 then 0x10
  else 0x00

theorem entry_disk_named {d : Directory} {a : Nat} {name : List UInt8}
    (hfirst : ∀ disk p, p < fat16DirentSize → d.byte disk p = some (disk (a + p))) :
    d.Named (entryDisk a name) name 0 ∧ d.SubdirAt (entryDisk a name) 0 0 := by
  have h8 : fileNameLenMax = 8 := rfl
  have h32 : fat16DirentSize = 32 := rfl
  refine ⟨fun i hi => ?_, 0x10, 0x00, 0x00, ?_, by decide, ?_, ?_, rfl⟩
  · rw [Nat.mul_zero, Nat.zero_add, hfirst _ _ (by omega), entryDisk, if_neg (by omega),
      if_pos (by omega), Nat.add_sub_cancel_left]
  · rw [Nat.mul_zero, Nat.zero_add, hfirst _ _ (by omega), entryDisk, if_neg (by omega),
      if_neg (by omega), if_pos rfl]
  · rw [Nat.mul_zero, Nat.zero_add, hfirst _ _ (by omega), entryDisk, if_neg (by omega),
      if_neg (by omega), if_neg (by omega)]
  · rw [Nat.mul_zero, Nat.zero_add, hfirst _ _ (by omega), entryDisk, if_neg (by omega),
      if_neg (by omega), if_neg (by omega)]

/-! ## Whole calls -/

/-- What a call that ends has looked up: nothing, a name in the whole path, or first the last
character of the open components and then the empty name; and in the last case it does not say that
the path exists. -/
theorem create_file_lookups (hcomps : Components comps) (hk : k < comps.length)
    (hpath : call.path = pathOf comps trailing)
    (hopen : vfs.OpenAt (call.prefixHash comps k) ct)
    (hclosed : ∀ j, k < j → j < comps.length → vfs.NotOpen (call.prefixHash comps j))
    (hcode : call.couldNotFindCacheTableEntry ≠ pathAlreadyExists)
    {fuel : Nat} {rtnVal : Int} {s s' : PathState} (hvfs : s.vfs = vfs)
    (hrun : call.createFileFat16 fuel s = some (rtnVal, s')) :
    lookups s'.events = lookups s.events ∨
    ∃ parent fName more, lookups s'.events = lookups s.events ++ (parent, fName) :: more ∧
      (parent = call.prefixHash comps comps.length ∨
        rtnVal ≠ -pathAlreadyExists ∧ (∃ c last, comps[k - 1]? = some c ∧ 0 < k ∧
          c.getLast? = some last ∧ fName = [last]) ∧
        (more = [] ∨ ∃ parent' more', more = (parent', []) :: more')) := by
  subst hvfs
  rw [PathCall.createFileFat16] at hrun
  obtain ⟨⟨cur, start⟩, hlast, hrun⟩ := Option.bind_eq_some_iff.mp hrun
  obtain ⟨e, he, hrun⟩ := Option.bind_eq_some_iff.mp hrun
  split_ifs at hrun with hfile
  · obtain ⟨_, rfl⟩ := Prod.mk.inj (Option.some.inj hrun)
    exact Or.inl rfl
  · obtain ⟨fName, curNameEnd, e', more, hname, he', hlookups, hmore⟩ :=
      walk_loop_lookups _ _ _ _ _ _ _ hrun
    obtain rfl : e = e' := Option.some.inj (he.symm.trans he')
    refine Or.inr ⟨e.pathHash, fName, more, hlookups, ?_⟩
    rcases get_last_open_cases hcomps hk hpath hopen hclosed hlast with hwhole | ⟨hsome, hroot⟩
    · exact Or.inl (hwhole.hash he)
    · rcases Nat.eq_zero_or_pos k with hzero | hpos
      · -- with only the root open there is no entry, or the name starts before the path
        rcases hroot hzero with hnull | hneg
        · subst hnull
          cases he
        · rw [setFname, if_pos hneg] at hname
          cases hname
      · -- the walk starts one character early: its first name is the last character before the
        -- slash, and its second name is empty
        obtain ⟨rfl, rfl⟩ := hsome hpos
        obtain ⟨k, rfl⟩ : ∃ k', k = k' + 1 := ⟨k - 1, by omega⟩
        have hc : comps[k]? = some comps[k] := List.getElem?_eq_getElem (by omega)
        obtain ⟨last, hgetLast, hfirst, hnext, hempty⟩ := names_from_last hcomps hpath hc hk
        rw [hfirst] at hname
        obtain ⟨rfl, rfl⟩ := Prod.mk.inj (Option.some.inj hname)
        rw [hnext, hempty] at hmore
        refine Or.inr ⟨walk_loop_code hcode _ _ _ _ _ _ _ ?_ hrun, ⟨comps[k], last, hc, hpos,
          hgetLast, rfl⟩, hmore.imp_right ?_⟩
        · have hlast : startOf comps (k + 1) < (pathOf comps trailing).length := start_lt_length hk
          rw [← hpath] at hlast
          unfold PathCall.pathLast
          split_ifs <;> omega
        · intro h
          obtain ⟨fName', curNameEnd', parent, more', hname', rfl⟩ := h
          obtain ⟨rfl, _⟩ := Prod.mk.inj (Option.some.inj hname')
          exact ⟨parent, more', rfl⟩

theorem looks_up_cons {disk : ByteMem} {d : Directory} {cs names : List (List UInt8)}
    (h : LooksUp disk d cs names) : ∃ c cs' names', cs = c :: cs' ∧ names = c :: names' := by
  cases h with
  | last => exact ⟨_, _, _, rfl, rfl⟩
  | stop _ => exact ⟨_, _, _, rfl, rfl⟩
  | step _ _ _ => exact ⟨_, _, _, rfl, rfl⟩

/-- If the first component is a directory and not the last one, the second is looked up too. -/
theorem looks_up_second {disk : ByteMem} {d : Directory} {c c' : List UInt8}
    {cs names : List (List UInt8)} {e cluster : Nat} (h : LooksUp disk d (c :: c' :: cs) names)
    (hnamed : d.Named disk c e) (hsub : d.SubdirAt disk e cluster) :
    ∃ names', names = c :: c' :: names' := by
  cases h with
  | stop hnone => exact absurd hsub (hnone e cluster hnamed)
  | step _ _ hrest =>
      obtain ⟨c₁, cs₁, names₁, heq, rfl⟩ := looks_up_cons hrest
      obtain ⟨rfl, _⟩ := List.cons.inj heq
      exact ⟨names₁, rfl⟩

theorem PathCall.prefix_hash_nat (call : PathCall) (comps : List (List UInt8)) (k : Nat) :
    call.prefixHash comps k = call.hashTo (startOf comps k - 1 : Nat) :=
  congrArg call.hashTo (by rw [← startOf]; omega)

/-- For no path, and however much of it is open, does `create_file_fat16` do on every disk what it
is for. -/
theorem create_path_never {dirEnt : ByteMem} (hcomps : Components comps) (hk : k < comps.length)
    (hpath : call.path = pathOf comps trailing)
    (hhash : ∀ i j : Nat, i < call.path.length → j < call.path.length →
      call.hashTo i = call.hashTo j → i = j)
    (hopen : vfs.OpenAt (call.prefixHash comps k) ct)
    (hclosed : ∀ j, k < j → j < comps.length → vfs.NotOpen (call.prefixHash comps j))
    (hvalid : ∀ d, vfs.directoryOf ct = some d → d.Valid)
    (hcode : call.couldNotFindCacheTableEntry ≠ pathAlreadyExists) :
    ¬ ∀ blocks, call.CreatesPath comps k ct ⟨vfs, blocks, dirEnt, 0, []⟩ := by
  intro hall
  obtain ⟨_, _, _, d, _, _, hd, _⟩ := hall ⟨entryDisk 0 [], 0, 0, [], false⟩
  -- a disk whose directory holds an entry named like the first component that is not open
  obtain ⟨a, hfirst⟩ := (hvalid d hd).first
  obtain ⟨fuel, rtnVal, s', d', names, hrun, hd', hnames, hlookups, hexist, _⟩ :=
    hall ⟨entryDisk a comps[k], 0, 0, [], false⟩
  obtain rfl : d = d' := Option.some.inj (hd.symm.trans hd')
  obtain ⟨hnamed, hsub⟩ : d.Named (entryDisk a comps[k]) comps[k] 0 ∧ _ :=
    entry_disk_named hfirst
  rw [List.drop_eq_getElem_cons hk] at hnames hexist
  obtain ⟨c, cs, names, heq, rfl⟩ := looks_up_cons hnames
  obtain ⟨rfl, rfl⟩ := List.cons.inj heq
  rw [PathCall.under, List.mapIdx_cons, Nat.add_zero] at hlookups
  rcases create_file_lookups hcomps hk hpath hopen hclosed hcode rfl hrun with
    hnone | ⟨parent, fName, more, hsome, hcase⟩
  · rw [hnone] at hlookups
    cases hlookups
  · obtain ⟨hparent, hmore⟩ := List.cons.inj (hsome.symm.trans hlookups)
    obtain ⟨rfl, rfl⟩ := Prod.mk.inj hparent
    rcases hcase with hwhole | ⟨hnot, _, hnext⟩
    · -- the whole path is open: the lookup is in the wrong directory
      have hlt : startOf comps k < (pathOf comps false).length := start_lt_length hk
      have hall' : (pathOf comps false).length = startOf comps comps.length := by
        rw [pathOf, start_of_length]
        simp
      have hlength : startOf comps comps.length ≤ call.path.length := by
        rw [hpath, pathOf, List.length_append, start_of_length]
        omega
      have htwo := start_of_pos hcomps (show 0 < comps.length by omega) le_rfl
      rw [call.prefix_hash_nat, call.prefix_hash_nat] at hwhole
      have := hhash _ _ (by omega) (by omega) hwhole
      omega
    · cases hrest : comps.drop (k + 1) with
      -- it is the last component: the path exists, and the call does not say so
      | nil =>
          rw [hrest] at hexist
          exact hnot (hexist (.last hnamed)).1
      | cons c' cs' =>
          rw [hrest] at hnames
          -- another follows: it is looked up under its name, but the call looks up the empty name
          obtain ⟨names', hsecond⟩ := looks_up_second hnames hnamed hsub
          obtain ⟨_, rfl⟩ := List.cons.inj hsecond
          rw [List.mapIdx_cons] at hmore
          rcases hnext with rfl | ⟨parent', more', rfl⟩
          · cases hmore
          · have hempty : c' = [] := (Prod.mk.inj (List.cons.inj hmore).1).2.symm
            have hmem : c' ∈ comps := by
              refine List.mem_of_mem_drop (i := k + 1) ?_
              rw [hrest]
              exact List.mem_cons_self ..
            exact (hcomps c' hmem).1 hempty

/-- The path /A/B on a machine whose hash of a path is its last index. -/
def pathAB : PathCall where
  path := [0x2f, 0x41, 0x2f, 0x42]
  hash := ⟨fun _ => 0, fun _ _ last => UInt64.ofNat last⟩
  env := smallEnv
  rounds := 8
  opens := fun n => ⟨128 + 32 * n, 144 + 32 * n, ⟨0, .file, 0, 0, 0, 0, 0⟩, ⟨0, 0, 0, 0, 0, 0⟩⟩
  date := 0
  time := 0
  offset := 0
  garbage := 0
  couldNotFindCacheTableEntry := 48

/-- The directory /A, open on the mounted volume. -/
def vfsA : VfsState :=
  { (dirVfs.put 16 (.cacheEntry ⟨1, .dir, 32, 2, 3, 0, 0⟩)) with
    cacheTableStart := 16, cacheTableLast := 16 }

theorem components_a_b : Components [[0x41], [0x42]] := by
  simp [Components]

theorem path_a_b : pathAB.path = pathOf [[0x41], [0x42]] false := rfl

theorem open_a : vfsA.OpenAt (pathAB.prefixHash [[0x41], [0x42]] 1) 16 := ⟨rfl, by decide⟩

theorem none_open_below_a : ∀ j, 1 < j → j < [[0x41], [(0x42 : UInt8)]].length →
    vfsA.NotOpen (pathAB.prefixHash [[0x41], [0x42]] j) := by
  intro j hl hh
  exact absurd (show j < 2 from hh) (by omega)

/-- In the open directory /A the call looks up A, and not B. -/
theorem a_looked_up_for_b :
    ¬ pathAB.CreatesPath [[0x41], [0x42]] 1 16 ⟨vfsA, dirDisk, fun _ => 0x00, 0, []⟩ := by
  intro h
  obtain ⟨fuel, rtnVal, s', d, names, hrun, _, hnames, hlookups, _⟩ := h
  obtain ⟨c, cs, names, heq, rfl⟩ := looks_up_cons hnames
  obtain ⟨rfl, rfl⟩ := List.cons.inj heq
  rw [PathCall.under, List.mapIdx_cons] at hlookups
  rcases create_file_lookups components_a_b (by decide) path_a_b open_a none_open_below_a
    (by decide) rfl hrun with hnone | ⟨parent, fName, more, hsome, hcase⟩
  · rw [hnone] at hlookups
    cases hlookups
  · obtain ⟨hparent, _⟩ := List.cons.inj (hsome.symm.trans hlookups)
    obtain ⟨rfl, rfl⟩ := Prod.mk.inj hparent
    rcases hcase with hwhole | ⟨_, ⟨c, last, hc, _, hlast, hname⟩, _⟩
    · exact absurd hwhole (by decide)
    · obtain rfl := Option.some.inj hc
      obtain rfl := Option.some.inj hlast
      exact absurd hname (by decide)

theorem create_path_never_a_b :
    ¬ ∀ blocks, pathAB.CreatesPath [[0x41], [0x42]] 1 16 ⟨vfsA, blocks, fun _ => 0x00, 0, []⟩ := by
  have hhash : ∀ i < 4, ∀ j < 4, pathAB.hashTo (i : Nat) = pathAB.hashTo (j : Nat) → i = j := by
    decide
  refine create_path_never components_a_b (by decide) path_a_b
    (fun i j hi hj => hhash i hi j hj) open_a none_open_below_a (fun d hd => ?_) (by decide)
  obtain rfl : _ = d := Option.some.inj hd
  exact ⟨by decide, by decide⟩

end Genesis32
