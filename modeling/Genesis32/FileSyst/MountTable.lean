import Genesis32.FileSyst.VfsHeap

/-!
# The mount table and the cache table

`mount_fat16`, `umount_fat16`, `fat16_sub_open_file` and `fat16_sub_close_file` of
`file_syst/fat16.c` over the objects of the virtual file system. A function has no result where it
reads or writes an object through NULL, through freed memory or through a pointer to an object of
another type, and where a walk along a list never ends. `generate_hash` and
`generate_hast_start_end` are parameters.
-/

namespace Genesis32

open Word

/-- `MAX_OPEN_FILE_COUNT`. -/
abbrev maxOpenFileCount : Nat := 100

/-- `VFS_NODE_ID_MAX`. -/
abbrev vfsNodeIdMax : Nat := 10000000

abbrev vfsNodeDepletionPanic : Nat := 34
abbrev mountFailure : Int := 35
abbrev mountTableFull : Int := 36
abbrev fileNotFound : Int := 37
abbrev fileNotMountpoint : Int := 38
abbrev resourceBusy : Int := 39
abbrev moreThanOneRefcount : Int := 44
abbrev tryingToCloseMountPnt : Int := 45
abbrev nullArg : Int := 46

/-- `file_read`. -/
abbrev fileRead : Nat := 0x1

/-- `file_write`. -/
abbrev fileWrite : Nat := 0x2

/-- The two functions of `hash.c`. -/
structure PathHash where
  generateHash : List UInt8 → UInt64
  generateHastStartEnd : List UInt8 → Nat → Nat → UInt64

variable {ε : Type}

/-! ## The linked lists -/

/-- `last->next=p; p->prev=last;`. -/
def linkLast (K : LinkKind ε) (s : VfsState) (last p : Ptr) : Option VfsState := do
  let s ← s.update K.toObjectKind last (K.setNext p)
  s.update K.toObjectKind p (K.setPrev last)

/-- How `mount_fat16` appends an entry to a table: the state, the start and the last of the table.
-/
def appendEntry (K : LinkKind ε) (s : VfsState) (start last p : Ptr) :
    Option (VfsState × Ptr × Ptr) :=
  if start = 0 then do
    let s ← s.update K.toObjectKind p (K.setPrev 0)
    let s ← s.update K.toObjectKind p (K.setNext 0)
    some (s, p, p)
  else do
    let s ← linkLast K s last p
    let s ← s.update K.toObjectKind p (K.setNext 0)
    some (s, start, p)

/-- `previous->next=next; next->prev=previous;`. -/
def unlinkEntry (K : LinkKind ε) (s : VfsState) (previous next : Ptr) : Option VfsState := do
  let s ← s.update K.toObjectKind previous (K.setNext next)
  s.update K.toObjectKind next (K.setPrev previous)

namespace VfsState

/-- The `for` of `mount_fat16` over the cache table, with `k` rounds before it is known not to
end. -/
def hashTaken (s : VfsState) (hashValue : UInt64) : Nat → Ptr → Option Bool
  | 0, _ => none
  | k + 1, i =>
      if i = 0 then some false
      else do
        let e ← s.deref cacheKind.toObjectKind i
        if e.pathHash = hashValue then some true else hashTaken s hashValue k e.next

/-- The `for` of `umount_fat16` over the cache table, with `cache_tbl_entry_temp`. -/
def lastWithHash (s : VfsState) (hashValue : UInt64) : Nat → Ptr → Ptr → Option Ptr
  | 0, _, _ => none
  | k + 1, i, temp =>
      if i = 0 then some temp
      else do
        let e ← s.deref cacheKind.toObjectKind i
        lastWithHash s hashValue k e.next (if e.pathHash = hashValue then i else temp)

/-- `generate_vfs_node_id`. -/
def generateVfsNodeId (s : VfsState) : Nat × VfsState :=
  if s.vfsInodeIdCount < vfsNodeIdMax then
    (s.vfsInodeIdCount + 1, { s with vfsInodeIdCount := s.vfsInodeIdCount + 1 })
  else (sub32 0 vfsNodeDepletionPanic, s)

end VfsState

/-! ## Mounting -/

/-- What a call of `mount_fat16` meets: what the allocator offers, what the memory it gets holds,
what the device returns, and what is in the two locals before they are initialised. -/
structure MountCall where
  mntTblE : Ptr
  sect0Buf : Ptr
  bpb : Ptr
  entry : Ptr
  staleMntTblE : MountTableEntry
  staleSect : ByteMem
  staleBpb : Fat16Bpb
  staleEntry : CacheTableEntry
  ports : PortReads
  garbageMntTblE : Ptr
  garbageBpb : Ptr

/-- What the boot sector of a partition parses to. -/
def MountCall.parsed (call : MountCall) (part : PartitionRef) : Option Fat16Bpb :=
  let r := readDiskBlock call.ports part.fDisk part.startSect 1 call.staleSect
  parsePartitionFillBpbFat16 part.startSect r.code r.buf

/-- What `read_disk_block` returns for the boot sector of a partition. -/
def MountCall.readCode (call : MountCall) (part : PartitionRef) : Int :=
  (readDiskBlock call.ports part.fDisk part.startSect 1 call.staleSect).code

/-- `parse_partition_fill_bpb_fat16` with its allocations: the pointer it returns. Neither pointer
is tested. Without memory for the sector it is read to address 0, where no object is; without memory
for the block the fields are stored there, over the sector if that is there too, and NULL is
returned. -/
def parsePartition (call : MountCall) (part : PartitionRef) (s : VfsState) : Ptr × VfsState :=
  match s.heapCreamMalloc call.sect0Buf .sector with
  | (sect0Buf, s) =>
      if call.readCode part < 0 then (0, s.heapCreamFree sect0Buf)
      else
        match s.heapCreamMalloc call.bpb (.bpb call.staleBpb) with
        | (bpb, s) =>
            if bpb = 0 then (0, s.heapCreamFree sect0Buf)
            else
              match call.parsed part with
              | none => (0, (s.heapCreamFree sect0Buf).heapCreamFree bpb)
              | some b => (bpb, (s.put bpb (.bpb b)).heapCreamFree sect0Buf)

/-- The label `fail` of `mount_fat16`. -/
def mountFail (mntTblE bpb rNode : Ptr) (s : VfsState) : Int × VfsState :=
  (-mountFailure, ((s.heapCreamFree mntTblE).heapCreamFree bpb).heapCreamFree rNode)

/-- `mount_fat16` from the fields of the mount entry on. No error is returned any more: without
memory for the cache entry, where there is no result here, the fields are stored at address 0 and 0
is returned. -/
def fillMount (call : MountCall) (part : PartitionRef) (hashValue : UInt64)
    (mntTblE bpb rNode : Ptr) (s : VfsState) : Option (Int × VfsState) := do
  let s ← s.update mountKind.toObjectKind mntTblE fun m =>
    { m with fsRootNode := rNode, mntPart := part, fsBpb := bpb }
  let (nodeId, s) := s.generateVfsNodeId
  let b ← s.deref bpbKind bpb
  let rootDirCount := sub32 b.dataLba b.rootLba
  let s ← s.update nodeKind rNode fun n =>
    { n with
      nodeId := nodeId
      content := mntTblE
      size := mul32 b.bytesPerSect rootDirCount
      fsSpecific := add32 b.reservedSectors (b.fatCount * b.sectorsPerFat) }
  let (i, s) := s.heapCreamMalloc call.entry (.cacheEntry call.staleEntry)
  let s ← s.update cacheKind.toObjectKind i fun e =>
    { e with
      refcount := 1
      contentType := .mountPnt
      content := mntTblE
      pathHash := hashValue }
  let s := { s with cacheTableCount := add32 s.cacheTableCount 1 }
  let s ← s.update mountKind.toObjectKind mntTblE fun m => { m with ctTableEntry := i }
  let (s, start, last) ← appendEntry cacheKind s s.cacheTableStart s.cacheTableLast i
  some (0, { s with cacheTableStart := start, cacheTableLast := last })

/-- `mount_fat16` behind `parse_partition_fill_bpb_fat16`, which has returned `bpb`. -/
def parsedMount (call : MountCall) (part : PartitionRef) (hashValue : UInt64)
    (mntTblE bpb rNode : Ptr) (s : VfsState) : Option (Int × VfsState) :=
  if bpb = 0 then some (mountFail mntTblE 0 rNode s)
  else if rNode = 0 then some (mountFail mntTblE bpb 0 s)
  else fillMount call part hashValue mntTblE bpb rNode s

/-- `mount_fat16` from the link of the mount entry on. -/
def linkMount (call : MountCall) (part : PartitionRef) (hashValue : UInt64)
    (mntTblE rNode : Ptr) (s : VfsState) : Option (Int × VfsState) := do
  let (s, start, last) ← appendEntry mountKind s s.mountTableStart s.mountTableLast mntTblE
  let r := parsePartition call part { s with mountTableStart := start, mountTableLast := last }
  parsedMount call part hashValue mntTblE r.1 rNode r.2

/-- `mount_fat16` from the allocation of the mount entry on. -/
def allocMount (call : MountCall) (part : PartitionRef) (hashValue : UInt64) (rNode : Ptr)
    (s : VfsState) : Option (Int × VfsState) :=
  match s.heapCreamMalloc call.mntTblE (.mountEntry call.staleMntTblE) with
  | (mntTblE, s) =>
      if mntTblE = 0 then some (mountFail 0 call.garbageBpb rNode s)
      else linkMount call part hashValue mntTblE rNode s

/-- `mount_fat16`. -/
def mountFat16 (H : PathHash) (call : MountCall) (part : PartitionRef) (path : List UInt8)
    (rNode : Ptr) (s : VfsState) : Option (Int × VfsState) :=
  if s.cacheTableCount ≥ maxOpenFileCount then some (-mountTableFull, s)
  else do
    let taken ← s.hashTaken (H.generateHash path) s.rounds s.cacheTableStart
    if taken then some (mountFail call.garbageMntTblE call.garbageBpb rNode s)
    else allocMount call part (H.generateHash path) rNode s

/-! ## Unmounting -/

/-- `umount_fat16` from the unlinking of the cache entry on. -/
def umountEntry (ct : Ptr) (e : CacheTableEntry) (s : VfsState) : Option (Int × VfsState) := do
  let s ← unlinkEntry cacheKind s e.prev e.next
  let s := s.heapCreamFree ct
  let s := { s with cacheTableCount := sub32 s.cacheTableCount 1 }
  let m ← s.deref mountKind.toObjectKind e.content
  let s := (s.heapCreamFree m.fsBpb).heapCreamFree m.fsRootNode
  let m ← s.deref mountKind.toObjectKind e.content
  let s ← unlinkEntry mountKind s m.prev m.next
  some (0, s.heapCreamFree e.content)

/-- `umount_fat16`. -/
def umountFat16 (H : PathHash) (path : List UInt8) (s : VfsState) : Option (Int × VfsState) := do
  let ct ← s.lastWithHash (H.generateHash path) s.rounds s.cacheTableStart 0
  if ct = 0 then some (-fileNotFound, s)
  else do
    let e ← s.deref cacheKind.toObjectKind ct
    if e.content = 0 then some (-fileNotMountpoint, s)
    else if e.refcount < 1 then some (-resourceBusy, s)
    else umountEntry ct e s

/-! ## Opening and closing -/

/-- What a call of `fat16_sub_open_file` meets: what the allocator offers and what the memory it
gets holds. -/
structure OpenCall where
  ct : Ptr
  node : Ptr
  staleEntry : CacheTableEntry
  staleNode : VfsNode

/-- The flags of an open file. -/
def openFlags (dirEnt : ByteMem) : Nat :=
  if dirEnt 11 &&& 0x01 = 0 then fileRead ||| fileWrite else fileRead

/-- `fat16_sub_open_file` from the content of the cache entry on. -/
def linkOpened (dirEnt : ByteMem) (hashValue : UInt64) (origin ct node : Ptr) (s : VfsState) :
    Option (Ptr × VfsState) := do
  let s ← s.update cacheKind.toObjectKind ct fun e =>
    { e with
      pathHash := hashValue
      contentType := if dirEnt 11 &&& 0x10 = 0 then .file else .dir
      content := node
      refcount := 1
      flags := openFlags dirEnt
      next := 0 }
  let s ← linkLast cacheKind s s.cacheTableLast ct
  let s := { s with cacheTableLast := ct }
  let (nodeId, s) := s.generateVfsNodeId
  let s ← s.update nodeKind node fun n =>
    { n with
      fsSpecific := dirEnt.word16 26
      size := dirEnt.word32 28
      content := ct
      originMountPoint := origin
      nodeId := nodeId
      mode := openFlags dirEnt }
  some (ct, s)

/-- `fat16_sub_open_file`. -/
def fat16SubOpenFile (H : PathHash) (call : OpenCall) (dirEnt : ByteMem) (path : List UInt8)
    (offset : Nat) (origin : Ptr) (s : VfsState) : Option (Ptr × VfsState) :=
  match s.heapCreamMalloc call.ct (.cacheEntry call.staleEntry) with
  | (ct, s) =>
      if ct = 0 then some (0, s)
      else
        match s.heapCreamMalloc call.node (.vfsNode call.staleNode) with
        | (node, s) =>
            if node = 0 then some (0, s.heapCreamFree ct)
            else linkOpened dirEnt (H.generateHastStartEnd path 0 offset) origin ct node s

/-- `fat16_sub_close_file`. -/
def fat16SubCloseFile (ct : Ptr) (s : VfsState) : Option (Int × VfsState) :=
  if ct = 0 then some (-nullArg, s)
  else do
    let e ← s.deref cacheKind.toObjectKind ct
    if e.refcount > 1 then some (-moreThanOneRefcount, s)
    else if e.contentType = .mountPnt then some (-tryingToCloseMountPnt, s)
    else do
      let s ← unlinkEntry cacheKind s e.prev e.next
      some (0, (s.heapCreamFree ct).heapCreamFree e.content)

end Genesis32
