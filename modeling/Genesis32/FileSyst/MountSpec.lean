import Genesis32.FileSyst.MountLists

/-!
# What the four operations do

One statement for each operation: the state that it leaves when it succeeds, object by object. An
object that is not named in a statement is as it was.
-/

namespace Genesis32

open Word

variable {ε : Type} {s s' : VfsState} {ms cs : List Ptr}

/-! ## The lists after a change of the objects -/

/-- An entry behind the last one extends its list. -/
theorem linked_append {K : LinkKind ε} {l : List Ptr} {p : Ptr} {e : ε}
    (h : DoublyLinked 0 (s.links K) l) (hfresh : s.object p = none)
    (hnew : s'.object p = some (K.wrap e)) (hnext : K.next e = 0)
    (hprev : K.prev e = l.getLastD 0)
    (hlast : ∀ a, s.object (l.getLastD 0) = some (K.wrap a) →
      s'.object (l.getLastD 0) = some (K.wrap (K.setNext p a)))
    (hsame : ∀ c ∈ l, c ≠ l.getLastD 0 → s'.object c = s.object c) :
    DoublyLinked 0 (s'.links K) (l ++ [p]) := by
  have hmem : p ∉ l := fun hp => by
    obtain ⟨a, ha⟩ := exists_object h hp
    rw [hfresh] at ha
    cases ha
  refine h.append hmem (VfsState.ne_zero_of_object hnew) ?_ fun c hc => ?_
  · rw [VfsState.links_of_object hnew, hnext, hprev]
  · obtain ⟨a, ha⟩ := exists_object h hc
    rw [VfsState.links_of_object ha, Option.map_some]
    rcases eq_or_ne c (l.getLastD 0) with heq | hne
    · rw [if_pos heq, heq, VfsState.links_of_object (hlast a (heq ▸ ha)), K.next_setNext,
        K.prev_setNext]
    · rw [if_neg hne, VfsState.links_of_object ((hsame c hc hne).trans ha)]

/-- Linking the neighbours of an entry takes it out of its list. -/
theorem linked_unlink {K : LinkKind ε} {xs ys : List Ptr} {p : Ptr}
    (h : DoublyLinked 0 (s.links K) (xs ++ p :: ys))
    (hprev : ∀ a, s.object (xs.getLastD 0) = some (K.wrap a) →
      s'.object (xs.getLastD 0) = some (K.wrap (K.setNext (ys.headD 0) a)))
    (hnext : ∀ a, s.object (ys.headD 0) = some (K.wrap a) →
      s'.object (ys.headD 0) = some (K.wrap (K.setPrev (xs.getLastD 0) a)))
    (hsame : ∀ c ∈ xs ++ ys, c ≠ xs.getLastD 0 → c ≠ ys.headD 0 → s'.object c = s.object c) :
    DoublyLinked 0 (s'.links K) (xs ++ ys) := by
  refine h.unlink fun c hc => ?_
  have hc' : c ∈ xs ++ p :: ys := by
    rcases List.mem_append.mp hc with hc | hc
    · exact List.mem_append_left _ hc
    · exact List.mem_append_right _ (List.mem_cons_of_mem _ hc)
  obtain ⟨a, ha⟩ := exists_object h hc'
  rw [VfsState.links_of_object ha, Option.map_some]
  rcases eq_or_ne c (xs.getLastD 0) with heq | hne
  · have hne' : c ≠ ys.headD 0 := by
      intro heq'
      have hnull := VfsState.ne_zero_of_object ha
      have hmem : c ∈ xs := by
        rcases eq_or_ne xs [] with rfl | hxs
        · exact absurd heq hnull
        · exact heq ▸ DoublyLinked.getLastD_mem hxs
      have hmem' : c ∈ ys := by
        rcases eq_or_ne ys [] with rfl | hys
        · exact absurd heq' hnull
        · exact heq' ▸ DoublyLinked.headD_mem hys
      exact (List.nodup_append.mp h.nodup).2.2 c hmem c (List.mem_cons_of_mem _ hmem') rfl
    rw [if_pos heq, if_neg hne']
    rw [heq] at ha ⊢
    rw [VfsState.links_of_object (hprev a ha), K.next_setNext, K.prev_setNext]
  · rw [if_neg hne]
    rcases eq_or_ne c (ys.headD 0) with heq' | hne'
    · rw [if_pos heq']
      rw [heq'] at ha ⊢
      rw [VfsState.links_of_object (hnext a ha), K.next_setPrev, K.prev_setPrev]
    · rw [if_neg hne', VfsState.links_of_object ((hsame c hc hne hne').trans ha)]

/-! ## Mounting -/

/-- The allocator serves every object that a mount leaves behind. -/
structure MountCall.Served (call : MountCall) (s : VfsState) : Prop where
  mntTblE : call.mntTblE ≠ 0 ∧ s.object call.mntTblE = none
  bpb : call.bpb ≠ 0 ∧ s.object call.bpb = none ∧ call.bpb ≠ call.mntTblE ∧
    call.bpb ≠ call.sect0Buf
  entry : call.entry ≠ 0 ∧ s.object call.entry = none ∧ call.entry ≠ call.mntTblE ∧
    call.entry ≠ call.bpb

/-- What a successful mount does: the mount entry `m` with its block `bpb` and the cache entry `i`
are new, the root node refers to the mount entry, and each is the last of its table. -/
structure Mounted (s s' : VfsState) (ms cs : List Ptr) (call : MountCall) (part : PartitionRef)
    (hashValue : UInt64) (rNode : Ptr) : Prop where
  fresh : s.object call.entry = none ∧ s.object call.mntTblE = none ∧ s.object call.bpb = none ∧
    call.entry ≠ call.mntTblE
  entry : ∃ flags, s'.object call.entry =
    some (.cacheEntry ⟨hashValue, .mountPnt, call.mntTblE, 1, flags, 0, cs.getLastD 0⟩)
  mountEntry : s'.object call.mntTblE =
    some (.mountEntry ⟨part, rNode, call.entry, call.bpb, 0, ms.getLastD 0⟩)
  node : ∃ n n', s.object rNode = some (.vfsNode n) ∧ s'.object rNode = some (.vfsNode n') ∧
    n'.content = call.mntTblE ∧ n'.originMountPoint = n.originMountPoint
  block : ∃ b, s'.object call.bpb = some (.bpb b)
  lastEntry : ∀ e, s.object (cs.getLastD 0) = some (.cacheEntry e) →
    s'.object (cs.getLastD 0) = some (.cacheEntry { e with next := call.entry })
  lastMount : ∀ e, s.object (ms.getLastD 0) = some (.mountEntry e) →
    s'.object (ms.getLastD 0) = some (.mountEntry { e with next := call.mntTblE })
  same : ∀ x, x ≠ call.entry → x ≠ call.mntTblE → x ≠ call.bpb → x ≠ rNode →
    x ≠ cs.getLastD 0 → x ≠ ms.getLastD 0 → s'.object x = s.object x
  mountStart : s'.mountTableStart = (ms ++ [call.mntTblE]).headD 0
  mountLast : s'.mountTableLast = call.mntTblE
  cacheStart : s'.cacheTableStart = (cs ++ [call.entry]).headD 0
  cacheLast : s'.cacheTableLast = call.entry
  count : s'.cacheTableCount = add32 s.cacheTableCount 1

theorem heap_cream_malloc_ok {offer : Ptr} (h : offer ≠ 0) (hfree : s.object offer = none)
    (stale : VfsObject) : s.heapCreamMalloc offer stale =
      (offer, { s.put offer stale with given := s.given ++ [offer] }) := by
  unfold VfsState.heapCreamMalloc
  rw [if_neg (by rw [hfree]; simpa using h)]

theorem heap_cream_free_ok {p : Ptr} (h : p ≠ 0) :
    s.heapCreamFree p = { s with heap := s.heap.erase p, freed := s.freed ++ [p] } := by
  unfold VfsState.heapCreamFree
  rw [if_neg h]

/-- A boot sector that parses has been read. -/
theorem read_code_of_parsed {call : MountCall} {part : PartitionRef} {b : Fat16Bpb}
    (h : call.parsed part = some b) : ¬ call.readCode part < 0 := by
  intro hneg
  unfold MountCall.parsed at h
  unfold MountCall.readCode at hneg
  simp only [parsePartitionFillBpbFat16, if_pos hneg] at h
  cases h

/-- The buffer of the sector is the only object that is new, and there may be none. -/
theorem sector_allocated (s : VfsState) (offer : Ptr) : ∃ p heap given,
    s.heapCreamMalloc offer .sector = (p, { s with heap := heap, given := given }) ∧
      s.object p = none ∧ (p ≠ 0 → ({ s with heap := heap } : VfsState).object p = some .sector) ∧
      (p = offer ∨ p = 0 ∧ (offer = 0 ∨ (s.object offer).isSome)) ∧
      ∀ x, x ≠ p → ({ s with heap := heap } : VfsState).object x = s.object x := by
  rcases VfsState.heap_cream_malloc_cases s offer .sector with
    ⟨hmalloc, hfail⟩ | ⟨hmalloc, hoffer, hfree⟩
  · exact ⟨0, s.heap, s.given, hmalloc, rfl, fun h => absurd rfl h, Or.inr ⟨rfl, hfail⟩,
      fun _ _ => rfl⟩
  · exact ⟨offer, (s.put offer .sector).heap, s.given ++ [offer], hmalloc, hfree,
      fun _ => (VfsState.object_put hoffer .sector offer).trans (if_pos rfl), Or.inl rfl,
      fun x hx => (VfsState.object_put hoffer .sector x).trans (if_neg hx)⟩

/-- The allocator serves the block of `parse_partition_fill_bpb_fat16`. -/
def MountCall.BlockServed (call : MountCall) (s : VfsState) : Prop :=
  call.bpb ≠ 0 ∧ s.object call.bpb = none ∧ call.bpb ≠ call.sect0Buf

/-- What `parse_partition_fill_bpb_fat16` returns: NULL where the read fails, there is no memory for
the block or the sector does not parse, and else the block, which is then all that is new. -/
theorem parse_partition_cases (call : MountCall) (part : PartitionRef) (s : VfsState) :
    ((call.readCode part < 0 ∨ ¬ call.BlockServed s ∨ call.parsed part = none) ∧
      ∃ s', parsePartition call part s = (0, s') ∧ s'.mountTableLast = s.mountTableLast) ∨
    (¬ call.readCode part < 0 ∧ call.BlockServed s ∧ ∃ b, call.parsed part = some b ∧
      ∃ heap given freed, parsePartition call part s =
          (call.bpb, { s with heap := heap, given := given, freed := freed }) ∧
        ∀ x, ({ s with heap := heap } : VfsState).object x =
          if x = call.bpb then some (.bpb b) else s.object x) := by
  obtain ⟨sect, heap₁, given₁, hsector, hsectFree, hlive, hsect, hsame₁⟩ :=
    sector_allocated s call.sect0Buf
  unfold parsePartition
  rw [hsector]
  simp only
  by_cases hcode : call.readCode part < 0
  · rw [if_pos hcode]
    exact Or.inl ⟨Or.inl hcode, _, rfl, VfsState.free_mount_table_last _ _⟩
  rw [if_neg hcode]
  generalize hs₁ : ({ s with heap := heap₁, given := given₁ } : VfsState) = s₁
  have h₁ : ∀ x, x ≠ sect → s₁.object x = s.object x := fun x hx => hs₁ ▸ hsame₁ x hx
  have hlive₁ : sect ≠ 0 → s₁.object sect = some .sector := fun hne => hs₁ ▸ hlive hne
  rcases VfsState.heap_cream_malloc_cases s₁ call.bpb (.bpb call.staleBpb) with
    ⟨hmalloc, hfail⟩ | ⟨hmalloc, hbpb, hbpbFree⟩
  · -- no block: what is stored through NULL is no object
    have hunserved : ¬ call.BlockServed s := by
      rintro ⟨hne, hfree, hapart⟩
      have hsect' : call.bpb ≠ sect := by
        rcases hsect with heq | ⟨heq, _⟩
        · exact heq ▸ hapart
        · exact heq ▸ hne
      rcases hfail with hzero | hsome
      · exact hne hzero
      · rw [h₁ _ hsect', hfree] at hsome
        cases hsome
    rw [hmalloc]
    refine Or.inl ⟨Or.inr (Or.inl hunserved), _, if_pos rfl, ?_⟩
    rw [VfsState.free_mount_table_last, ← hs₁]
  have hapart : call.bpb ≠ sect := by
    intro heq
    rw [heq, hlive₁ (heq ▸ hbpb)] at hbpbFree
    cases hbpbFree
  have hfree : s.object call.bpb = none := (h₁ _ hapart).symm.trans hbpbFree
  have hserved : call.BlockServed s := by
    refine ⟨hbpb, hfree, fun heq => ?_⟩
    rcases hsect with hsect | ⟨_, hzero | hsome⟩
    · exact hapart (heq.trans hsect.symm)
    · exact hbpb (heq.trans hzero)
    · rw [← heq, hfree] at hsome
      cases hsome
  rw [hmalloc]
  simp only
  rw [if_neg hbpb]
  cases hparsed : call.parsed part with
  | none =>
      refine Or.inl ⟨Or.inr (Or.inr rfl), _, rfl, ?_⟩
      rw [VfsState.free_mount_table_last, VfsState.free_mount_table_last, ← hs₁]
      rfl
  | some b =>
      let s₂ := ({ s₁.put call.bpb (.bpb call.staleBpb) with
        given := s₁.given ++ [call.bpb] } : VfsState).put call.bpb (.bpb b)
      refine Or.inr ⟨hcode, hserved, b, rfl, (s₂.heapCreamFree sect).heap, s₁.given ++ [call.bpb],
        (s₂.heapCreamFree sect).freed, ?_, fun x => ?_⟩
      · rw [← hs₁]
        simp only [s₂, ← hs₁, VfsState.put, VfsState.heapCreamFree]
        split_ifs <;> rfl
      · show (s₂.heapCreamFree sect).object x = _
        have hput : ∀ t : VfsState, ∀ o, (t.put call.bpb o).object x =
            if x = call.bpb then some o else t.object x := fun t o => VfsState.object_put hbpb o x
        have hnew : s₂.object x = if x = call.bpb then some (.bpb b) else s₁.object x := by
          refine (hput _ _).trans ?_
          split_ifs with hx
          · rfl
          · exact (hput s₁ _).trans (if_neg hx)
        rw [VfsState.object_free, hnew]
        rcases eq_or_ne x sect with rfl | hx
        · rw [if_pos rfl, if_neg hapart.symm, hsectFree]
        · rw [if_neg hx, h₁ x hx]

/-- `parse_partition_fill_bpb_fat16` on a boot sector that parses. -/
theorem parse_partition_ok {call : MountCall} {part : PartitionRef} {b : Fat16Bpb}
    (hserved : call.BlockServed s) (hparsed : call.parsed part = some b) :
    ∃ heap given freed, parsePartition call part s =
        (call.bpb, { s with heap := heap, given := given, freed := freed }) ∧
      ∀ x, ({ s with heap := heap } : VfsState).object x =
        if x = call.bpb then some (.bpb b) else s.object x := by
  rcases parse_partition_cases call part s with ⟨hfail, _⟩ | ⟨_, _, b', hparsed', hdone⟩
  · rcases hfail with hcode | hunserved | hnone
    · exact absurd hcode (read_code_of_parsed hparsed)
    · exact absurd hserved hunserved
    · rw [hnone] at hparsed
      cases hparsed
  · obtain rfl := Option.some.inj (hparsed'.symm.trans hparsed)
    exact hdone

theorem generate_vfs_node_id_eq (s : VfsState) :
    ∃ nodeId count, s.generateVfsNodeId = (nodeId, { s with vfsInodeIdCount := count }) := by
  unfold VfsState.generateVfsNodeId
  split_ifs
  · exact ⟨_, _, rfl⟩
  · exact ⟨_, s.vfsInodeIdCount, rfl⟩

/-- A list stays as it is where its cells do. -/
theorem linked_congr {K : LinkKind ε} {l : List Ptr} (h : DoublyLinked 0 (s.links K) l)
    (hsame : ∀ c ∈ l, s'.object c = s.object c) : DoublyLinked 0 (s'.links K) l := by
  refine h.congr fun c hc => ?_
  unfold VfsState.links VfsState.deref
  rw [hsame c hc]

/-- Objects of different types are at different places. -/
theorem ne_of_object {p q : Ptr} {o o' : VfsObject} (hp : s.object p = some o)
    (hq : s.object q = some o') (hne : o ≠ o') : p ≠ q := by
  rintro rfl
  rw [hp] at hq
  exact hne (Option.some.inj hq)

/-- A step of a sequence that has a result. -/
theorem bind_of_some {α β : Type} {x : Option α} {a : α} {f : α → Option β} {r : Option β}
    (hx : x = some a) (hf : f a = r) : x.bind f = r := by
  rw [hx]
  exact hf

/-- The assignments of `mount_fat16` from the fields of the mount entry to the link of the new entry
of the cache table, for a live root node. -/
theorem fill_mount_assigned {call : MountCall} (part : PartitionRef) (hashValue : UInt64)
    {mt bpb rNode : Ptr} {m : MountTableEntry} {b : Fat16Bpb} {n : VfsNode}
    (hm : s.object mt = some (.mountEntry m)) (hb : s.object bpb = some (.bpb b))
    (hn : s.object rNode = some (.vfsNode n)) (hentry : call.entry ≠ 0)
    (hfree : s.object call.entry = none) :
    ∃ s' n' e', fillMount call part hashValue mt bpb rNode s =
        ((appendEntry cacheKind s' s.cacheTableStart s.cacheTableLast call.entry).bind fun r =>
          some (0, { r.1 with cacheTableStart := r.2.1, cacheTableLast := r.2.2 })) ∧
      n'.content = mt ∧ n'.originMountPoint = n.originMountPoint ∧
      e' = { call.staleEntry with
        refcount := 1
        contentType := .mountPnt
        content := mt
        pathHash := hashValue } ∧
      s'.mountTableStart = s.mountTableStart ∧ s'.mountTableLast = s.mountTableLast ∧
      s'.cacheTableCount = add32 s.cacheTableCount 1 ∧
      ∀ x, s'.object x =
        if x = mt then
          some (.mountEntry { m with
            fsRootNode := rNode
            mntPart := part
            fsBpb := bpb
            ctTableEntry := call.entry })
        else if x = call.entry then some (.cacheEntry e')
        else if x = rNode then some (.vfsNode n')
        else s.object x := by
  have hmt := VfsState.ne_zero_of_object hm
  have hrNode := VfsState.ne_zero_of_object hn
  have hne : rNode ≠ mt := ne_of_object hn hm nofun
  have hbne : bpb ≠ mt := ne_of_object hb hm nofun
  have hmtNe : call.entry ≠ mt := fun heq => by
    rw [heq, hm] at hfree
    cases hfree
  have hrNe : call.entry ≠ rNode := fun heq => by
    rw [heq, hn] at hfree
    cases hfree
  -- the states that the assignments go through, in the order of the source
  let m₁ : MountTableEntry := { m with fsRootNode := rNode, mntPart := part, fsBpb := bpb }
  let s₁ := s.put mt (.mountEntry m₁)
  obtain ⟨nodeId, count, hid⟩ := generate_vfs_node_id_eq s₁
  let n' : VfsNode := { n with
    nodeId := nodeId
    content := mt
    size := mul32 b.bytesPerSect (sub32 b.dataLba b.rootLba)
    fsSpecific := add32 b.reservedSectors (b.fatCount * b.sectorsPerFat) }
  let e₁ : CacheTableEntry := { call.staleEntry with
    refcount := 1
    contentType := .mountPnt
    content := mt
    pathHash := hashValue }
  let s₂ : VfsState := { s₁ with vfsInodeIdCount := count }
  let s₃ := s₂.put rNode (.vfsNode n')
  let s₄ : VfsState := { s₃.put call.entry (.cacheEntry call.staleEntry) with
    given := s.given ++ [call.entry] }
  let s₅ := s₄.put call.entry (.cacheEntry e₁)
  let s₆ : VfsState := { s₅ with cacheTableCount := add32 s.cacheTableCount 1 }
  let s₇ := s₆.put mt (.mountEntry { m₁ with ctTableEntry := call.entry })
  have h₁ : ∀ x, s₁.object x = if x = mt then some (.mountEntry m₁) else s.object x :=
    VfsState.object_put hmt _
  have h₃ : ∀ x, s₃.object x = if x = rNode then some (.vfsNode n') else s₁.object x :=
    VfsState.object_put hrNode _
  have h₄ : ∀ x, s₄.object x =
      if x = call.entry then some (.cacheEntry call.staleEntry) else s₃.object x :=
    VfsState.object_put hentry _
  have h₅ : ∀ x, s₅.object x = if x = call.entry then some (.cacheEntry e₁) else s₄.object x :=
    VfsState.object_put hentry _
  have h₇ : ∀ x, s₇.object x =
      if x = mt then some (.mountEntry { m₁ with ctTableEntry := call.entry })
      else s₅.object x :=
    VfsState.object_put hmt _
  refine ⟨s₇, n', e₁, ?_, rfl, rfl, rfl, rfl, rfl, rfl, fun x => ?_⟩
  · -- each assignment finds the object it writes
    unfold fillMount
    refine bind_of_some (a := s₁)
      (VfsState.update_of_object (K := mountKind.toObjectKind) hm _) ?_
    rw [hid]
    refine bind_of_some (a := b) (VfsState.deref_iff.mpr ?_) ?_
    · exact (h₁ bpb).trans (by rw [if_neg hbne, hb]; rfl)
    refine bind_of_some (a := s₃)
      (VfsState.update_of_object (K := nodeKind) (e := n) ?_ _) ?_
    · exact (h₁ rNode).trans (by rw [if_neg hne, hn]; rfl)
    have hfree₃ : s₃.object call.entry = none := by
      rw [h₃, if_neg hrNe, h₁, if_neg hmtNe, hfree]
    rw [heap_cream_malloc_ok hentry hfree₃]
    refine bind_of_some (a := s₅)
      (VfsState.update_of_object (K := cacheKind.toObjectKind) (e := call.staleEntry) ?_ _) ?_
    · exact (h₄ call.entry).trans (if_pos rfl)
    refine bind_of_some (a := s₇)
      (VfsState.update_of_object (K := mountKind.toObjectKind) (e := m₁) ?_ _) rfl
    refine (h₅ mt).trans ?_
    rw [if_neg hmtNe.symm, h₄, if_neg hmtNe.symm, h₃, if_neg hne.symm, h₁, if_pos rfl]
    rfl
  · rw [h₇, h₅, h₄, h₃, h₁]
    split_ifs <;> rfl

/-- `mount_fat16` from the fields of the mount entry on, for a live root node. -/
theorem fill_mount_ok {call : MountCall} (part : PartitionRef) (hashValue : UInt64)
    {mt bpb rNode : Ptr} {m : MountTableEntry} {b : Fat16Bpb} {n : VfsNode}
    (h : DoublyLinked 0 (s.links cacheKind) cs) (hstart : s.cacheTableStart = cs.headD 0)
    (hlast : s.cacheTableLast = cs.getLastD 0) (hm : s.object mt = some (.mountEntry m))
    (hb : s.object bpb = some (.bpb b)) (hn : s.object rNode = some (.vfsNode n))
    (hentry : call.entry ≠ 0) (hfree : s.object call.entry = none) :
    ∃ s' n' flags, fillMount call part hashValue mt bpb rNode s = some (0, s') ∧
      n'.content = mt ∧ n'.originMountPoint = n.originMountPoint ∧
      s'.mountTableStart = s.mountTableStart ∧ s'.mountTableLast = s.mountTableLast ∧
      s'.cacheTableStart = (cs ++ [call.entry]).headD 0 ∧ s'.cacheTableLast = call.entry ∧
      s'.cacheTableCount = add32 s.cacheTableCount 1 ∧
      ∀ x, s'.object x =
        if x = call.entry then
          some (.cacheEntry ⟨hashValue, .mountPnt, mt, 1, flags, 0, cs.getLastD 0⟩)
        else if x = cs.getLastD 0 then
          (s.deref cacheKind.toObjectKind x).map fun e =>
            .cacheEntry { e with next := call.entry }
        else if x = mt then
          some (.mountEntry { m with
            fsRootNode := rNode
            mntPart := part
            fsBpb := bpb
            ctTableEntry := call.entry })
        else if x = rNode then some (.vfsNode n')
        else s.object x := by
  have hmem : call.entry ∉ cs := fun hc => by
    obtain ⟨e, he⟩ := exists_object h hc
    rw [hfree] at he
    cases he
  have hmtNe : call.entry ≠ mt := fun heq => by
    rw [heq, hm] at hfree
    cases hfree
  obtain ⟨s₇, n', e₁, hrun, hcontent, horigin, he₁, hmountStart, hmountLast, hcount, h₇⟩ :=
    fill_mount_assigned part hashValue hm hb hn hentry hfree
  -- no assignment writes an entry of the table
  have hkept : ∀ c ∈ cs, s₇.object c = s.object c := fun c hc => by
    obtain ⟨e, he⟩ := exists_object h hc
    rw [h₇, if_neg (ne_of_object he hm nofun), if_neg (fun heq : c = call.entry => hmem (heq ▸ hc)),
      if_neg (ne_of_object he hn nofun)]
  have hnew : s₇.object call.entry = some (cacheKind.wrap e₁) := by
    rw [h₇, if_neg hmtNe, if_pos rfl]
    rfl
  obtain ⟨heap, happend, hobject⟩ := append_entry_spec (linked_congr h hkept) hnew hmem
  refine ⟨{ s₇ with
    heap := heap
    cacheTableStart := (cs ++ [call.entry]).headD 0
    cacheTableLast := call.entry }, n', call.staleEntry.flags, ?_, hcontent, horigin, hmountStart,
    hmountLast, rfl, rfl, hcount, fun x => ?_⟩
  · rw [hrun, hstart, hlast, happend]
    rfl
  · refine (hobject x).trans ?_
    rcases eq_or_ne x call.entry with hx | hx
    · rw [if_pos hx, if_pos hx, he₁]
      rfl
    · rw [if_neg hx, if_neg hx]
      rcases eq_or_ne x (cs.getLastD 0) with hx' | hx'
      · rw [if_pos hx', if_pos hx']
        have hlastKept : s₇.object x = s.object x := by
          rcases eq_or_ne cs [] with rfl | hcs
          · rw [show x = 0 from hx']
            rfl
          · exact hkept x (hx' ▸ DoublyLinked.getLastD_mem hcs)
        unfold VfsState.deref
        rw [hlastKept]
        rfl
      · rw [if_neg hx', if_neg hx', h₇, if_neg hx]

/-- Memory that is not in use is not the last cell of a list. -/
theorem ne_getLastD_of_free {K : LinkKind ε} {l : List Ptr} {p : Ptr}
    (h : DoublyLinked 0 (s.links K) l) (hp : p ≠ 0) (hfree : s.object p = none) :
    p ≠ l.getLastD 0 := by
  intro heq
  rcases eq_or_ne l [] with rfl | hl
  · exact hp heq
  · obtain ⟨e, he⟩ := exists_object h (DoublyLinked.getLastD_mem hl)
    rw [← heq, hfree] at he
    cases he

/-- The state after the mount entry has been allocated and before it is linked. -/
def allocated (s : VfsState) (mt : Ptr) (stale : MountTableEntry) : VfsState :=
  { s.put mt (.mountEntry stale) with given := s.given ++ [mt] }

/-- Allocating the mount entry and linking it to the mount table. -/
theorem link_mount_entry_ok (h : TableLists s ms cs) {mt : Ptr} (hmt : mt ≠ 0)
    (hfree : s.object mt = none) (stale : MountTableEntry) :
    ∃ heap, appendEntry mountKind (allocated s mt stale) s.mountTableStart s.mountTableLast mt =
        some ({ allocated s mt stale with heap := heap }, (ms ++ [mt]).headD 0, mt) ∧
      ∀ x, ({ s with heap := heap } : VfsState).object x = if x = mt then
          some (.mountEntry { stale with next := 0, prev := ms.getLastD 0 })
        else if x = ms.getLastD 0 then
          (s.deref mountKind.toObjectKind x).map fun e => .mountEntry { e with next := mt }
        else s.object x := by
  have hobject : ∀ x, (allocated s mt stale).object x =
      if x = mt then some (.mountEntry stale) else s.object x := VfsState.object_put hmt _
  have hmem : mt ∉ ms := fun hc => by
    obtain ⟨e, he⟩ := exists_object h.mountList hc
    rw [hfree] at he
    cases he
  have hlinks : DoublyLinked 0 ((allocated s mt stale).links mountKind) ms :=
    linked_congr h.mountList fun c hc => by
      rw [hobject, if_neg (fun heq : c = mt => hmem (heq ▸ hc))]
  obtain ⟨heap, happend, happended⟩ := append_entry_spec hlinks (e := stale)
    ((hobject mt).trans (if_pos rfl)) hmem
  refine ⟨heap, by rw [h.mountStart, h.mountLast]; exact happend, fun x => ?_⟩
  refine (happended x).trans ?_
  rcases eq_or_ne x mt with hx | hx
  · rw [if_pos hx, if_pos hx]
    rfl
  · have hsame : (allocated s mt stale).deref mountKind.toObjectKind x =
        s.deref mountKind.toObjectKind x := by
      unfold VfsState.deref
      rw [hobject, if_neg hx]
    rw [if_neg hx, if_neg hx, hsame, hobject, if_neg hx]
    rfl

/-- A mount that is served, of a partition that parses, under a path that no entry has. -/
theorem mount_fat16_ok {H : PathHash} {call : MountCall} {part : PartitionRef}
    {path : List UInt8} {rNode : Ptr} (h : TableLists s ms cs)
    (hcount : s.cacheTableCount < maxOpenFileCount)
    (hhash : ∀ c ∈ cs, ¬ HasHash s (H.generateHash path) c) (hserved : call.Served s)
    (hparsed : (call.parsed part).isSome) (hnode : ∃ n, s.object rNode = some (.vfsNode n)) :
    ∃ s', mountFat16 H call part path rNode s = some (0, s') ∧
      Mounted s s' ms cs call part (H.generateHash path) rNode := by
  obtain ⟨b, hb⟩ := Option.isSome_iff_exists.mp hparsed
  obtain ⟨n, hn⟩ := hnode
  obtain ⟨⟨hmt, hmtFree⟩, ⟨hbpb, hbpbFree, hbpbNe, hbpbNe'⟩, hentry, hentryFree, hentryNe,
    hentryNe'⟩ := hserved
  have hnotFree : ∀ {p q : Ptr} {o : VfsObject}, s.object p = some o → s.object q = none →
      p ≠ q := by
    rintro p q o hp hq rfl
    rw [hp] at hq
    cases hq
  obtain ⟨heap₂, happend, hobject₂⟩ := link_mount_entry_ok h hmt hmtFree call.staleMntTblE
  let s₂ : VfsState := { allocated s call.mntTblE call.staleMntTblE with
    heap := heap₂
    mountTableStart := (ms ++ [call.mntTblE]).headD 0
    mountTableLast := call.mntTblE }
  have h₂ : ∀ x, s₂.object x = if x = call.mntTblE then
        some (.mountEntry { call.staleMntTblE with next := 0, prev := ms.getLastD 0 })
      else if x = ms.getLastD 0 then
        (s.deref mountKind.toObjectKind x).map fun e =>
          .mountEntry { e with next := call.mntTblE }
      else s.object x := hobject₂
  -- the objects that are not mount entries are still as they were
  have hother : ∀ x, x ≠ call.mntTblE → (∀ m, s.object x ≠ some (.mountEntry m)) →
      s₂.object x = s.object x := by
    intro x hx hkind
    rw [h₂, if_neg hx]
    rcases eq_or_ne x (ms.getLastD 0) with heq | hne
    · rcases eq_or_ne ms [] with rfl | hms
      · rw [show x = 0 from heq]
        rfl
      · obtain ⟨m, hm⟩ := exists_object h.mountList (heq ▸ DoublyLinked.getLastD_mem hms)
        exact absurd hm (hkind m)
    · rw [if_neg hne]
  have hfree₂ : ∀ x, x ≠ call.mntTblE → s.object x = none → s₂.object x = none :=
    fun x hx hfree => (hother x hx fun m hm => by rw [hfree] at hm; cases hm).trans hfree
  obtain ⟨heap₃, given₃, freed₃, hparse, hobject₃⟩ :=
    parse_partition_ok ⟨hbpb, hfree₂ _ hbpbNe hbpbFree, hbpbNe'⟩ hb
  let s₃ : VfsState := { s₂ with heap := heap₃, given := given₃, freed := freed₃ }
  have h₃ : ∀ x, s₃.object x = if x = call.bpb then some (.bpb b) else s₂.object x := hobject₃
  have hlinks₃ : DoublyLinked 0 (s₃.links cacheKind) cs :=
    linked_congr h.cacheList fun c hc => by
      obtain ⟨e, he⟩ := exists_object h.cacheList hc
      rw [h₃, if_neg (hnotFree he hbpbFree), hother c (hnotFree he hmtFree)
        (fun m hm => by rw [he] at hm; cases hm)]
  have hmt₃ : s₃.object call.mntTblE =
      some (.mountEntry { call.staleMntTblE with next := 0, prev := ms.getLastD 0 }) := by
    rw [h₃, if_neg hbpbNe.symm, h₂, if_pos rfl]
  have hnode₃ : s₃.object rNode = some (.vfsNode n) := by
    rw [h₃, if_neg (hnotFree hn hbpbFree), hother rNode (hnotFree hn hmtFree)
      (fun m hm => by rw [hn] at hm; cases hm), hn]
  obtain ⟨s', n', flags, hfill, hcontent, horigin, hmountStart, hmountLast, hcacheStart, hcacheLast,
    hcount', hobject⟩ := fill_mount_ok (s := s₃) part
      (H.generateHash path) hlinks₃ h.cacheStart h.cacheLast hmt₃
      ((h₃ call.bpb).trans (if_pos rfl)) hnode₃ hentry
      (by rw [h₃, if_neg hentryNe', hfree₂ _ hentryNe hentryFree])
  refine ⟨s', ?_, ?_⟩
  · obtain ⟨taken, htaken, hiff⟩ := hash_taken_iff h (H.generateHash path)
    have hfalse : taken = false := by
      cases taken with
      | false => rfl
      | true =>
          obtain ⟨c, hc, hhas⟩ := hiff.mp rfl
          exact absurd hhas (hhash c hc)
    unfold mountFat16
    rw [if_neg (Nat.not_le.mpr hcount)]
    refine Option.bind_eq_some_iff.mpr ⟨taken, htaken, ?_⟩
    rw [hfalse, if_neg (by decide)]
    unfold allocMount
    rw [heap_cream_malloc_ok hmt hmtFree]
    simp only
    rw [if_neg hmt]
    unfold linkMount
    refine Option.bind_eq_some_iff.mpr
      ⟨({ allocated s call.mntTblE call.staleMntTblE with heap := heap₂ },
        (ms ++ [call.mntTblE]).headD 0, call.mntTblE), happend, ?_⟩
    show parsedMount call part (H.generateHash path) call.mntTblE (parsePartition call part s₂).1
      rNode (parsePartition call part s₂).2 = _
    rw [hparse, parsedMount, if_neg hbpb, if_neg (VfsState.ne_zero_of_object hn), hfill]
  · have hmtLast := ne_getLastD_of_free h.cacheList hmt hmtFree
    have hbpbLast := ne_getLastD_of_free h.cacheList hbpb hbpbFree
    have hkept₃ : ∀ {e : CacheTableEntry} {x}, s.object x = some (.cacheEntry e) →
        s₃.object x = some (.cacheEntry e) := by
      intro e x he
      rw [h₃, if_neg (hnotFree he hbpbFree), hother x (hnotFree he hmtFree)
        (fun m hm => by rw [he] at hm; cases hm), he]
    have hnodeLast : rNode ≠ cs.getLastD 0 := by
      intro heq
      rcases eq_or_ne cs [] with rfl | hcs
      · exact VfsState.ne_zero_of_object hn heq
      · obtain ⟨e, he⟩ := exists_object h.cacheList (DoublyLinked.getLastD_mem hcs)
        rw [← heq, hn] at he
        cases he
    exact
      { fresh := ⟨hentryFree, hmtFree, hbpbFree, hentryNe⟩
        entry := ⟨flags, (hobject call.entry).trans (if_pos rfl)⟩
        mountEntry := by
          rw [hobject, if_neg hentryNe.symm, if_neg hmtLast, if_pos rfl]
        node := by
          refine ⟨n, n', hn, ?_, hcontent, horigin⟩
          rw [hobject, if_neg (hnotFree hn hentryFree), if_neg hnodeLast,
            if_neg (hnotFree hn hmtFree), if_pos rfl]
        block := by
          refine ⟨b, ?_⟩
          rw [hobject, if_neg hentryNe'.symm, if_neg hbpbLast, if_neg hbpbNe,
            if_neg (hnotFree hn hbpbFree).symm, h₃, if_pos rfl]
        lastEntry := by
          intro e he
          rw [hobject, if_neg (hnotFree he hentryFree), if_pos rfl,
            VfsState.deref_iff.mpr (hkept₃ he)]
          rfl
        lastMount := by
          intro e he
          have hne : ms.getLastD 0 ≠ cs.getLastD 0 := by
            intro heq
            rcases eq_or_ne cs [] with rfl | hcs
            · exact VfsState.ne_zero_of_object he heq
            · obtain ⟨e', he'⟩ := exists_object h.cacheList (DoublyLinked.getLastD_mem hcs)
              rw [← heq, he] at he'
              cases he'
          have hderef : s.deref mountKind.toObjectKind (ms.getLastD 0) = some e :=
            VfsState.deref_iff.mpr he
          rw [hobject, if_neg (hnotFree he hentryFree), if_neg hne,
            if_neg (hnotFree he hmtFree),
            if_neg (fun heq => by rw [heq, hn] at he; cases he), h₃,
            if_neg (hnotFree he hbpbFree), h₂, if_neg (hnotFree he hmtFree), if_pos rfl, hderef]
          rfl
        same := by
          intro x hx hx' hx'' hx₃ hx₄ hx₅
          rw [hobject, if_neg hx, if_neg hx₄, if_neg hx', if_neg hx₃, h₃, if_neg hx'', h₂,
            if_neg hx', if_neg hx₅]
        mountStart := hmountStart
        mountLast := hmountLast
        cacheStart := hcacheStart
        cacheLast := hcacheLast
        count := hcount' }

/-! ### Mounts that fail -/

/-- Nothing is at a pointer before a write elsewhere that leaves nothing there. -/
theorem object_none_of_put {p x : Ptr} {o : VfsObject} (hp : p ≠ 0)
    (h : (s.put p o).object x = none) : s.object x = none := by
  rw [VfsState.object_put hp] at h
  split_ifs at h
  exact h

/-- Memory for the cache entry that can be written through was not in use. -/
theorem malloc_entry_inv {s₀ : VfsState} {offer : Ptr} {stale e : CacheTableEntry}
    (hback : ∀ {x}, s₀.object x = none → s.object x = none)
    (he : (s₀.heapCreamMalloc offer (.cacheEntry stale)).2.object
      (s₀.heapCreamMalloc offer (.cacheEntry stale)).1 = some (.cacheEntry e)) :
    offer ≠ 0 ∧ s.object offer = none := by
  rcases VfsState.heap_cream_malloc_cases s₀ offer (.cacheEntry stale) with
    ⟨hmalloc, _⟩ | ⟨_, hne, hfree⟩
  · rw [hmalloc] at he
    cases he
  · exact ⟨hne, hback hfree⟩

/-- From the fields of the mount entry on, a mount reports no error, and it has a result only for a
live root node and memory for the cache entry. -/
theorem fill_mount_inv {call : MountCall} {part : PartitionRef} {hashValue : UInt64}
    {mt bpb rNode : Ptr} {r : Int}
    (h : fillMount call part hashValue mt bpb rNode s = some (r, s')) :
    r = 0 ∧ (∃ n, s.object rNode = some (.vfsNode n)) ∧ call.entry ≠ 0 ∧
      s.object call.entry = none := by
  unfold fillMount at h
  obtain ⟨s₁, hupdate, h⟩ := Option.bind_eq_some_iff.mp h
  obtain ⟨m, hm, rfl⟩ := VfsState.object_of_update hupdate
  have hmt := VfsState.ne_zero_of_object hm
  obtain ⟨nodeId, count, hid⟩ := generate_vfs_node_id_eq (s.put mt (mountKind.wrap { m with
    fsRootNode := rNode, mntPart := part, fsBpb := bpb }))
  rw [hid] at h
  obtain ⟨b, _, h⟩ := Option.bind_eq_some_iff.mp h
  obtain ⟨s₃, hupdate', h⟩ := Option.bind_eq_some_iff.mp h
  obtain ⟨n, hn, hs₃⟩ := VfsState.object_of_update hupdate'
  have hnode : s.object rNode = some (.vfsNode n) := by
    have hput := (VfsState.object_put hmt (mountKind.wrap { m with
      fsRootNode := rNode, mntPart := part, fsBpb := bpb }) rNode).symm.trans hn
    rcases eq_or_ne rNode mt with heq | hne
    · rw [if_pos heq] at hput
      cases hput
    · rw [if_neg hne] at hput
      exact hput
  refine ⟨?_, ⟨n, hnode⟩, ?_⟩
  · obtain ⟨s₅, _, h⟩ := Option.bind_eq_some_iff.mp h
    obtain ⟨s₇, _, h⟩ := Option.bind_eq_some_iff.mp h
    obtain ⟨t, _, h⟩ := Option.bind_eq_some_iff.mp h
    exact (Prod.mk.inj (Option.some.inj h)).1.symm
  · obtain ⟨s₅, hupdate₅, _⟩ := Option.bind_eq_some_iff.mp h
    obtain ⟨e, he, _⟩ := VfsState.object_of_update hupdate₅
    refine malloc_entry_inv ?_ he
    rw [hs₃]
    exact fun hnone => object_none_of_put hmt
      (object_none_of_put (VfsState.ne_zero_of_object hnode) hnone)

/-! ## Unmounting -/

/-- What a successful unmount does: the cache entry `ct` between `xs` and `ys`, the mount entry `mt`
between `us` and `vs` and what belongs to it are freed, and their neighbours are linked. -/
structure Unmounted (s s' : VfsState) (us vs xs ys : List Ptr) (ct mt : Ptr)
    (m : MountTableEntry) : Prop where
  gone : ∀ x, x = ct ∨ x = mt ∨ x = m.fsBpb ∨ x = m.fsRootNode → s'.object x = none
  cachePrev : ∀ e, s.object (xs.getLastD 0) = some (.cacheEntry e) →
    s'.object (xs.getLastD 0) = some (.cacheEntry { e with next := ys.headD 0 })
  cacheNext : ∀ e, s.object (ys.headD 0) = some (.cacheEntry e) →
    s'.object (ys.headD 0) = some (.cacheEntry { e with prev := xs.getLastD 0 })
  mountPrev : ∀ e, s.object (us.getLastD 0) = some (.mountEntry e) →
    s'.object (us.getLastD 0) = some (.mountEntry { e with next := vs.headD 0 })
  mountNext : ∀ e, s.object (vs.headD 0) = some (.mountEntry e) →
    s'.object (vs.headD 0) = some (.mountEntry { e with prev := us.getLastD 0 })
  same : ∀ x, x ≠ ct → x ≠ mt → x ≠ m.fsBpb → x ≠ m.fsRootNode → x ≠ xs.getLastD 0 →
    x ≠ ys.headD 0 → x ≠ us.getLastD 0 → x ≠ vs.headD 0 → s'.object x = s.object x
  globals : s'.mountTableStart = s.mountTableStart ∧ s'.mountTableLast = s.mountTableLast ∧
    s'.cacheTableStart = s.cacheTableStart ∧ s'.cacheTableLast = s.cacheTableLast
  count : s'.cacheTableCount = sub32 s.cacheTableCount 1

/-- `umount_fat16` reports no error once it unlinks. -/
theorem umount_entry_code {ct : Ptr} {e : CacheTableEntry} {r : Int}
    (h : umountEntry ct e s = some (r, s')) : r = 0 := by
  unfold umountEntry at h
  obtain ⟨s₁, _, h⟩ := Option.bind_eq_some_iff.mp h
  obtain ⟨m, _, h⟩ := Option.bind_eq_some_iff.mp h
  obtain ⟨m', _, h⟩ := Option.bind_eq_some_iff.mp h
  obtain ⟨s₂, _, h⟩ := Option.bind_eq_some_iff.mp h
  exact (Prod.mk.inj (Option.some.inj h)).1.symm

/-- `umount_fat16` writes through NULL when the entry has no neighbour on one side. -/
theorem umount_entry_null {xs ys : List Ptr} {ct : Ptr} {e : CacheTableEntry}
    (h : DoublyLinked 0 (s.links cacheKind) (xs ++ ct :: ys))
    (he : s.object ct = some (.cacheEntry e)) (hend : xs = [] ∨ ys = []) :
    umountEntry ct e s = none := by
  obtain ⟨hnext, hprev⟩ := neighbours h he
  have hnull : e.prev = 0 ∨ e.next = 0 := by
    rcases hend with rfl | rfl
    · exact Or.inl hprev
    · exact Or.inr hnext
  unfold umountEntry
  rw [unlink_entry_null cacheKind s hnull]
  rfl

/-- The neighbours of an entry are live and differ from it. -/
theorem neighbour_object {K : LinkKind ε} {xs ys : List Ptr} {p : Ptr}
    (h : DoublyLinked 0 (s.links K) (xs ++ p :: ys)) (hxs : xs ≠ []) (hys : ys ≠ []) :
    (∃ a, s.object (xs.getLastD 0) = some (K.wrap a)) ∧
      (∃ b, s.object (ys.headD 0) = some (K.wrap b)) ∧
      xs.getLastD 0 ≠ p ∧ ys.headD 0 ≠ p := by
  have hprev : xs.getLastD 0 ∈ xs := DoublyLinked.getLastD_mem hxs
  have hnext : ys.headD 0 ∈ ys := DoublyLinked.headD_mem hys
  have hnodup := List.nodup_append.mp h.nodup
  refine ⟨exists_object h (List.mem_append_left _ hprev),
    exists_object h (List.mem_append_right _ (List.mem_cons_of_mem _ hnext)), fun heq => ?_,
    fun heq => ?_⟩
  · exact hnodup.2.2 _ hprev p List.mem_cons_self heq
  · exact (List.nodup_cons.mp hnodup.2.1).1 (heq ▸ hnext)

/-- `umount_fat16` of a mount entry between others, in both tables. -/
theorem umount_entry_ok {us vs xs ys : List Ptr} {ct : Ptr} {e : CacheTableEntry}
    {m : MountTableEntry} {n : VfsNode} {b : Fat16Bpb}
    (hcache : DoublyLinked 0 (s.links cacheKind) (xs ++ ct :: ys)) (hxs : xs ≠ []) (hys : ys ≠ [])
    (he : s.object ct = some (.cacheEntry e))
    (hmount : DoublyLinked 0 (s.links mountKind) (us ++ e.content :: vs))
    (hm : s.object e.content = some (.mountEntry m))
    (hb : s.object m.fsBpb = some (.bpb b)) (hn : s.object m.fsRootNode = some (.vfsNode n)) :
    ((us = [] ∨ vs = []) ∧ umountEntry ct e s = none) ∨
    (us ≠ [] ∧ vs ≠ [] ∧ ∃ s', umountEntry ct e s = some (0, s') ∧
      Unmounted s s' us vs xs ys ct e.content m) := by
  obtain ⟨hnext, hprev⟩ := neighbours hcache he
  obtain ⟨⟨a, ha⟩, ⟨a', ha'⟩, hact, hact'⟩ := neighbour_object hcache hxs hys
  obtain ⟨heap₁, hunlink₁, hobject₁⟩ := unlink_entry_spec hcache hxs hys
  have hct := VfsState.ne_zero_of_object he
  let s₁ : VfsState := { s with heap := heap₁ }
  let s₂ : VfsState := { s₁.heapCreamFree ct with
    cacheTableCount := sub32 (s₁.heapCreamFree ct).cacheTableCount 1 }
  have h₂ : ∀ x, s₂.object x = if x = ct then none
      else if x = xs.getLastD 0 then (s.deref cacheKind.toObjectKind x).map fun a =>
        .cacheEntry { a with next := ys.headD 0 }
      else if x = ys.headD 0 then (s.deref cacheKind.toObjectKind x).map fun a =>
        .cacheEntry { a with prev := xs.getLastD 0 }
      else s.object x := by
    intro x
    rw [VfsState.object_count, VfsState.object_free, show s₁.object x = _ from hobject₁ x]
    rfl
  -- the objects that are not cache entries are still as they were
  have hother : ∀ {x o}, s.object x = some o → (∀ e, o ≠ .cacheEntry e) →
      s₂.object x = some o := by
    intro x o ho hkind
    rw [h₂, if_neg (ne_of_object ho he (hkind e)), if_neg (ne_of_object ho ha (hkind a)),
      if_neg (ne_of_object ho ha' (hkind a')), ho]
  let s₃ := (s₂.heapCreamFree m.fsBpb).heapCreamFree m.fsRootNode
  have h₃ : ∀ x, s₃.object x = if x = m.fsRootNode then none
      else if x = m.fsBpb then none else s₂.object x := by
    intro x
    rw [VfsState.object_free, VfsState.object_free]
  have hmount₃ : ∀ {x} {e : MountTableEntry}, s.object x = some (.mountEntry e) →
      s₃.object x = some (.mountEntry e) := by
    intro x e' he'
    rw [h₃, if_neg (ne_of_object he' hn (by simp)), if_neg (ne_of_object he' hb (by simp)),
      hother he' (by simp)]
  have hlinks₃ : DoublyLinked 0 (s₃.links mountKind) (us ++ e.content :: vs) :=
    linked_congr hmount fun c hc => by
      obtain ⟨e', he'⟩ := exists_object hmount hc
      rw [hmount₃ he', he']
      rfl
  obtain ⟨hnext₃, hprev₃⟩ := neighbours hlinks₃ (hmount₃ hm)
  have hrun : umountEntry ct e s = (unlinkEntry mountKind s₃ m.prev m.next).bind fun s =>
      some (0, s.heapCreamFree e.content) := by
    have hderef₂ : s₂.deref mountKind.toObjectKind e.content = some m :=
      VfsState.deref_iff.mpr (hother hm nofun)
    have hderef₃ : s₃.deref mountKind.toObjectKind e.content = some m :=
      VfsState.deref_iff.mpr (hmount₃ hm)
    unfold umountEntry
    rw [show e.prev = _ from hprev, show e.next = _ from hnext, hunlink₁]
    show ((s₂.deref mountKind.toObjectKind e.content).bind _) = _
    rw [hderef₂]
    show ((s₃.deref mountKind.toObjectKind e.content).bind _) = _
    rw [hderef₃]
    rfl
  rcases eq_or_ne us [] with hus | hus
  · refine Or.inl ⟨Or.inl hus, ?_⟩
    rw [hrun, unlink_entry_null mountKind s₃
      (Or.inl (by rw [show m.prev = _ from hprev₃, hus]; rfl))]
    rfl
  rcases eq_or_ne vs [] with hvs | hvs
  · refine Or.inl ⟨Or.inr hvs, ?_⟩
    rw [hrun, unlink_entry_null mountKind s₃
      (Or.inr (by rw [show m.next = _ from hnext₃, hvs]; rfl))]
    rfl
  obtain ⟨⟨c, hc⟩, ⟨c', hc'⟩, hcmt, hcmt'⟩ := neighbour_object hmount hus hvs
  obtain ⟨heap₄, hunlink₄, hobject₄⟩ := unlink_entry_spec hlinks₃ hus hvs
  let s₄ : VfsState := { s₃ with heap := heap₄ }
  let s' := s₄.heapCreamFree e.content
  have h' : ∀ x, s'.object x = if x = e.content then none
      else if x = us.getLastD 0 then (s₃.deref mountKind.toObjectKind x).map fun a =>
        .mountEntry { a with next := vs.headD 0 }
      else if x = vs.headD 0 then (s₃.deref mountKind.toObjectKind x).map fun a =>
        .mountEntry { a with prev := us.getLastD 0 }
      else s₃.object x := by
    intro x
    rw [VfsState.object_free, show s₄.object x = _ from hobject₄ x]
    rfl
  have hcache₃ : ∀ {x} {e' : CacheTableEntry} {o}, s.object x = some (.cacheEntry e') →
      s₂.object x = some o → s'.object x = some o := by
    intro x e' o he' ho
    rw [h', if_neg (ne_of_object he' hm (by simp)), if_neg (ne_of_object he' hc nofun),
      if_neg (ne_of_object he' hc' nofun), h₃, if_neg (ne_of_object he' hn (by simp)),
      if_neg (ne_of_object he' hb (by simp)), ho]
  refine Or.inr ⟨hus, hvs, s', ?_, ?_⟩
  · rw [hrun, show m.prev = _ from hprev₃, show m.next = _ from hnext₃, hunlink₄]
    rfl
  · exact
      { gone := by
          rintro x (rfl | rfl | rfl | rfl)
          · rw [h', if_neg (ne_of_object he hm (by simp)), if_neg (ne_of_object he hc nofun),
              if_neg (ne_of_object he hc' nofun), h₃, if_neg (ne_of_object he hn (by simp)),
              if_neg (ne_of_object he hb (by simp)), h₂, if_pos rfl]
          · rw [h', if_pos rfl]
          · rw [h', if_neg (ne_of_object hb hm (by simp)), if_neg (ne_of_object hb hc nofun),
              if_neg (ne_of_object hb hc' nofun), h₃, if_neg (ne_of_object hb hn (by simp)),
              if_pos rfl]
          · rw [h', if_neg (ne_of_object hn hm (by simp)), if_neg (ne_of_object hn hc nofun),
              if_neg (ne_of_object hn hc' nofun), h₃, if_pos rfl]
        cachePrev := by
          intro e' he'
          refine hcache₃ he' ?_
          rw [h₂, if_neg hact, if_pos rfl,
            show s.deref cacheKind.toObjectKind _ = some e' from VfsState.deref_iff.mpr he']
          rfl
        cacheNext := by
          intro e' he'
          refine hcache₃ he' ?_
          have hne : ys.headD 0 ≠ xs.getLastD 0 := fun heq =>
            (List.nodup_append.mp hcache.nodup).2.2 _ (DoublyLinked.getLastD_mem hxs) _
              (List.mem_cons_of_mem _ (DoublyLinked.headD_mem hys)) heq.symm
          rw [h₂, if_neg hact', if_neg hne, if_pos rfl,
            show s.deref cacheKind.toObjectKind _ = some e' from VfsState.deref_iff.mpr he']
          rfl
        mountPrev := by
          intro e' he'
          rw [h', if_neg hcmt, if_pos rfl, show s₃.deref mountKind.toObjectKind _ = some e' from
            VfsState.deref_iff.mpr (hmount₃ he')]
          rfl
        mountNext := by
          intro e' he'
          have hne : vs.headD 0 ≠ us.getLastD 0 := fun heq =>
            (List.nodup_append.mp hmount.nodup).2.2 _ (DoublyLinked.getLastD_mem hus) _
              (List.mem_cons_of_mem _ (DoublyLinked.headD_mem hvs)) heq.symm
          rw [h', if_neg hcmt', if_neg hne, if_pos rfl,
            show s₃.deref mountKind.toObjectKind _ = some e' from
              VfsState.deref_iff.mpr (hmount₃ he')]
          rfl
        same := by
          intro x hx₁ hx₂ hx₃ hx₄ hx₅ hx₆ hx₇ hx₈
          rw [h', if_neg hx₂, if_neg hx₇, if_neg hx₈, h₃, if_neg hx₄, if_neg hx₃, h₂, if_neg hx₁,
            if_neg hx₅, if_neg hx₆]
        globals := by simp [s', s₄, s₃, s₂, s₁]
        count := by simp only [s', s₄, s₃, s₂, s₁, VfsState.free_cache_table_count] }

/-! ## Opening and closing -/

/-- What a successful open does: the cache entry and its node are new, and the entry is the last of
the cache table. -/
structure Opened (s s' : VfsState) (cs : List Ptr) (call : OpenCall) (hashValue : UInt64)
    (origin : Ptr) : Prop where
  fresh : s.object call.ct = none ∧ s.object call.node = none ∧ call.ct ≠ call.node
  entry : ∃ contentType flags, contentType ≠ .mountPnt ∧ s'.object call.ct =
    some (.cacheEntry ⟨hashValue, contentType, call.node, 1, flags, 0, cs.getLastD 0⟩)
  node : ∃ n, s'.object call.node = some (.vfsNode n) ∧ n.content = call.ct ∧
    n.originMountPoint = origin
  lastEntry : ∀ e, s.object (cs.getLastD 0) = some (.cacheEntry e) →
    s'.object (cs.getLastD 0) = some (.cacheEntry { e with next := call.ct })
  same : ∀ x, x ≠ call.ct → x ≠ call.node → x ≠ cs.getLastD 0 → s'.object x = s.object x
  mountStart : s'.mountTableStart = s.mountTableStart
  mountLast : s'.mountTableLast = s.mountTableLast
  cacheStart : s'.cacheTableStart = s.cacheTableStart
  cacheLast : s'.cacheTableLast = call.ct
  count : s'.cacheTableCount = s.cacheTableCount

/-- The fields that `fat16_sub_open_file` gives a cache entry before it is linked. -/
def openedEntry (call : OpenCall) (dirEnt : ByteMem) (hashValue : UInt64) : CacheTableEntry :=
  { call.staleEntry with
    pathHash := hashValue
    contentType := if dirEnt 11 &&& 0x10 = 0 then .file else .dir
    content := call.node
    refcount := 1
    flags := openFlags dirEnt
    next := 0 }

/-- `fat16_sub_open_file` from the content of the cache entry on, for two new objects. -/
theorem link_opened_ok {call : OpenCall} (dirEnt : ByteMem) (hashValue : UInt64) (origin : Ptr)
    (h : DoublyLinked 0 (s.links cacheKind) cs) (hlast : s.cacheTableLast = cs.getLastD 0)
    (hcs : cs ≠ []) (hmem : call.ct ∉ cs)
    (hct : s.object call.ct = some (.cacheEntry call.staleEntry))
    (hnode : s.object call.node = some (.vfsNode call.staleNode)) :
    ∃ s' n, linkOpened dirEnt hashValue origin call.ct call.node s = some (call.ct, s') ∧
      n.content = call.ct ∧ n.originMountPoint = origin ∧
      s'.mountTableStart = s.mountTableStart ∧ s'.mountTableLast = s.mountTableLast ∧
      s'.cacheTableStart = s.cacheTableStart ∧ s'.cacheTableLast = call.ct ∧
      s'.cacheTableCount = s.cacheTableCount ∧
      ∀ x, s'.object x = if x = call.node then some (.vfsNode n)
        else if x = call.ct then
          some (.cacheEntry { openedEntry call dirEnt hashValue with prev := cs.getLastD 0 })
        else if x = cs.getLastD 0 then (s.deref cacheKind.toObjectKind x).map fun e =>
          .cacheEntry { e with next := call.ct }
        else s.object x := by
  obtain ⟨a, ha⟩ := exists_object h (DoublyLinked.getLastD_mem hcs)
  have hctNull := VfsState.ne_zero_of_object hct
  have hnodeNull := VfsState.ne_zero_of_object hnode
  have hlastNull := VfsState.ne_zero_of_object ha
  have hne : cs.getLastD 0 ≠ call.ct := fun heq => hmem (heq ▸ DoublyLinked.getLastD_mem hcs)
  have hnodeNe : call.node ≠ call.ct := ne_of_object hnode hct nofun
  have hnodeLast : call.node ≠ cs.getLastD 0 := ne_of_object hnode ha nofun
  -- `s₁` has the fields of the entry, `s₂` also the links, `s₃` also the new id of the node
  let e₁ := openedEntry call dirEnt hashValue
  let s₁ := s.put call.ct (.cacheEntry e₁)
  have h₁ : ∀ x, s₁.object x = if x = call.ct then some (.cacheEntry e₁) else s.object x :=
    VfsState.object_put hctNull _
  let s₂ := (s₁.put (cs.getLastD 0) (.cacheEntry { a with next := call.ct })).put call.ct
    (.cacheEntry { e₁ with prev := cs.getLastD 0 })
  have h₂ : ∀ x, s₂.object x = if x = call.ct then
        some (.cacheEntry { e₁ with prev := cs.getLastD 0 })
      else if x = cs.getLastD 0 then some (.cacheEntry { a with next := call.ct })
      else s₁.object x := by
    intro x
    rw [VfsState.object_put hctNull, VfsState.object_put hlastNull]
  obtain ⟨nodeId, count, hid⟩ := generate_vfs_node_id_eq { s₂ with cacheTableLast := call.ct }
  let n : VfsNode := { call.staleNode with
    fsSpecific := dirEnt.word16 26
    size := dirEnt.word32 28
    content := call.ct
    originMountPoint := origin
    nodeId := nodeId
    mode := openFlags dirEnt }
  let s₃ : VfsState := { s₂ with cacheTableLast := call.ct, vfsInodeIdCount := count }
  have hnode₂ : s₂.object call.node = some (.vfsNode call.staleNode) := by
    rw [h₂, if_neg hnodeNe, if_neg hnodeLast, h₁, if_neg hnodeNe, hnode]
  refine ⟨s₃.put call.node (.vfsNode n), n, ?_, rfl, rfl, rfl, rfl, rfl, rfl, rfl, fun x => ?_⟩
  · unfold linkOpened
    refine Option.bind_eq_some_iff.mpr
      ⟨s₁, VfsState.update_of_object (K := cacheKind.toObjectKind) hct _, ?_⟩
    refine Option.bind_eq_some_iff.mpr ⟨s₂, ?_, ?_⟩
    · rw [show s₁.cacheTableLast = cs.getLastD 0 from hlast]
      refine link_last_spec ?_ ?_ hne
      · exact (h₁ _).trans (by rw [if_neg hne, ha])
      · exact (h₁ _).trans (if_pos rfl)
    dsimp only
    rw [hid]
    have hnode₃ : s₃.object call.node = some (.vfsNode call.staleNode) := hnode₂
    exact Option.bind_eq_some_iff.mpr
      ⟨s₃.put call.node (.vfsNode n), VfsState.update_of_object (K := nodeKind) hnode₃ _, rfl⟩
  · rw [VfsState.object_put hnodeNull]
    rcases eq_or_ne x call.node with hx | hx
    · rw [if_pos hx, if_pos hx]
    · rw [if_neg hx, if_neg hx]
      refine (h₂ x).trans ?_
      rcases eq_or_ne x call.ct with hx' | hx'
      · rw [if_pos hx', if_pos hx']
      · rw [if_neg hx', if_neg hx', h₁, if_neg hx']
        rcases eq_or_ne x (cs.getLastD 0) with rfl | hx''
        · rw [if_pos rfl, if_pos rfl,
            show s.deref cacheKind.toObjectKind _ = some a from VfsState.deref_iff.mpr ha]
          rfl
        · rw [if_neg hx'', if_neg hx'']

/-- `linkOpened` writes through NULL when the cache table is empty. -/
theorem link_opened_null {dirEnt : ByteMem} {hashValue : UInt64} {origin ct node : Ptr}
    (hlast : s.cacheTableLast = 0) : linkOpened dirEnt hashValue origin ct node s = none := by
  unfold linkOpened
  cases hupdate : s.update cacheKind.toObjectKind ct fun e =>
      { e with
        pathHash := hashValue
        contentType := if dirEnt 11 &&& 0x10 = 0 then .file else .dir
        content := node
        refcount := 1
        flags := openFlags dirEnt
        next := 0 } with
  | none => rfl
  | some s₁ =>
      have hlast₁ : s₁.cacheTableLast = 0 := by
        obtain ⟨_, _, rfl⟩ := Option.map_eq_some_iff.mp hupdate
        exact hlast
      simp only [Option.bind_eq_bind, Option.bind_some]
      rw [hlast₁]
      rfl

/-- What `fat16_sub_open_file` does: it fails and leaves the objects, it writes through NULL because
the cache table is empty, or it opens the file. -/
theorem fat16_sub_open_file_cases (H : PathHash) (call : OpenCall) (dirEnt : ByteMem)
    (path : List UInt8) (offset : Nat) (origin : Ptr) (h : TableLists s ms cs) :
    (∃ s', fat16SubOpenFile H call dirEnt path offset origin s = some (0, s') ∧
      (∀ x, s'.object x = s.object x) ∧ s'.mountTableStart = s.mountTableStart ∧
      s'.mountTableLast = s.mountTableLast ∧ s'.cacheTableStart = s.cacheTableStart ∧
      s'.cacheTableLast = s.cacheTableLast ∧ s'.cacheTableCount = s.cacheTableCount) ∨
    (cs = [] ∧ fat16SubOpenFile H call dirEnt path offset origin s = none) ∨
    (cs ≠ [] ∧ call.ct ≠ 0 ∧
      ∃ s', fat16SubOpenFile H call dirEnt path offset origin s = some (call.ct, s') ∧
        Opened s s' cs call (H.generateHastStartEnd path 0 offset) origin) := by
  unfold fat16SubOpenFile
  rcases VfsState.heap_cream_malloc_cases s call.ct (.cacheEntry call.staleEntry) with
    ⟨hmalloc, _⟩ | ⟨hmalloc, hct, hctFree⟩
  · rw [hmalloc]
    exact Or.inl ⟨s, rfl, fun _ => rfl, rfl, rfl, rfl, rfl, rfl⟩
  rw [hmalloc]
  simp only
  rw [if_neg hct]
  let s₁ : VfsState := { s.put call.ct (.cacheEntry call.staleEntry) with
    given := s.given ++ [call.ct] }
  have h₁ : ∀ x, s₁.object x =
      if x = call.ct then some (.cacheEntry call.staleEntry) else s.object x :=
    VfsState.object_put hct _
  rcases VfsState.heap_cream_malloc_cases s₁ call.node (.vfsNode call.staleNode) with
    ⟨hmalloc', _⟩ | ⟨hmalloc', hnode, hnodeFree⟩
  · rw [show VfsState.heapCreamMalloc _ call.node (.vfsNode call.staleNode) = (0, s₁) from hmalloc']
    -- the entry is given back, and its place is as free as before
    refine Or.inl ⟨s₁.heapCreamFree call.ct, rfl, fun x => ?_, by simp [s₁, VfsState.put]⟩
    rw [VfsState.object_free, h₁]
    rcases eq_or_ne x call.ct with rfl | hx
    · rw [if_pos rfl, hctFree]
    · rw [if_neg hx, if_neg hx]
  let s₂ : VfsState := { s₁.put call.node (.vfsNode call.staleNode) with
    given := s₁.given ++ [call.node] }
  rw [show VfsState.heapCreamMalloc _ call.node (.vfsNode call.staleNode) = (call.node, s₂) from
    hmalloc']
  simp only
  rw [if_neg hnode]
  have h₂ : ∀ x, s₂.object x =
      if x = call.node then some (.vfsNode call.staleNode) else s₁.object x :=
    VfsState.object_put hnode _
  have hne : call.ct ≠ call.node := by
    intro heq
    rw [← heq, h₁, if_pos rfl] at hnodeFree
    cases hnodeFree
  have hnodeFree' : s.object call.node = none := by
    rw [h₁, if_neg hne.symm] at hnodeFree
    exact hnodeFree
  have hmem : call.ct ∉ cs := fun hc => by
    obtain ⟨e, he⟩ := exists_object h.cacheList hc
    rw [hctFree] at he
    cases he
  have hmem' : call.node ∉ cs := fun hc => by
    obtain ⟨e, he⟩ := exists_object h.cacheList hc
    rw [hnodeFree'] at he
    cases he
  have hsame : ∀ x, x ≠ call.ct → x ≠ call.node → s₂.object x = s.object x := by
    intro x hx hx'
    rw [h₂, if_neg hx', h₁, if_neg hx]
  have hlinks : DoublyLinked 0 (s₂.links cacheKind) cs := linked_congr h.cacheList fun c hc =>
    hsame c (fun heq => hmem (heq ▸ hc)) fun heq => hmem' (heq ▸ hc)
  -- the link goes through `cache_table_last`, which is NULL in an empty table
  rcases eq_or_ne cs [] with rfl | hcs
  · exact Or.inr (Or.inl ⟨rfl, link_opened_null h.cacheLast⟩)
  obtain ⟨s', n, hrun, hcontent, horigin, hmountStart, hmountLast, hcacheStart, hcacheLast, hcount,
    hobject⟩ := link_opened_ok dirEnt (H.generateHastStartEnd path 0 offset) origin hlinks
      h.cacheLast hcs hmem (by rw [h₂, if_neg hne, h₁, if_pos rfl])
        ((h₂ call.node).trans (if_pos rfl))
  have hctLast := ne_getLastD_of_free h.cacheList hct hctFree
  have hnodeLast := ne_getLastD_of_free h.cacheList hnode hnodeFree'
  refine Or.inr (Or.inr ⟨hcs, hct, s', hrun, ?_⟩)
  exact
    { fresh := ⟨hctFree, hnodeFree', hne⟩
      entry := by
        refine ⟨if dirEnt 11 &&& 0x10 = 0 then .file else .dir, openFlags dirEnt, ?_, ?_⟩
        · split_ifs <;> simp
        · rw [hobject, if_neg hne, if_pos rfl]
          rfl
      node := ⟨n, (hobject call.node).trans (if_pos rfl), hcontent, horigin⟩
      lastEntry := by
        intro e he
        rw [hobject, if_neg hnodeLast.symm, if_neg hctLast.symm, if_pos rfl,
          show s₂.deref cacheKind.toObjectKind _ = some e from
            VfsState.deref_iff.mpr ((hsame _ hctLast.symm hnodeLast.symm).trans he)]
        rfl
      same := by
        intro x hx hx' hx''
        rw [hobject, if_neg hx', if_neg hx, if_neg hx'', hsame x hx hx']
      mountStart := hmountStart
      mountLast := hmountLast
      cacheStart := hcacheStart
      cacheLast := hcacheLast
      count := hcount }

/-- What a successful close does: the cache entry `ct` between `xs` and `ys` and its node are freed,
and its neighbours are linked. -/
structure Closed (s s' : VfsState) (xs ys : List Ptr) (ct node : Ptr) : Prop where
  gone : ∀ x, x = ct ∨ x = node → s'.object x = none
  cachePrev : ∀ e, s.object (xs.getLastD 0) = some (.cacheEntry e) →
    s'.object (xs.getLastD 0) = some (.cacheEntry { e with next := ys.headD 0 })
  cacheNext : ∀ e, s.object (ys.headD 0) = some (.cacheEntry e) →
    s'.object (ys.headD 0) = some (.cacheEntry { e with prev := xs.getLastD 0 })
  same : ∀ x, x ≠ ct → x ≠ node → x ≠ xs.getLastD 0 → x ≠ ys.headD 0 →
    s'.object x = s.object x
  globals : s'.mountTableStart = s.mountTableStart ∧ s'.mountTableLast = s.mountTableLast ∧
    s'.cacheTableStart = s.cacheTableStart ∧ s'.cacheTableLast = s.cacheTableLast
  count : s'.cacheTableCount = s.cacheTableCount

/-- What `fat16_sub_close_file` does to an entry of the cache table: it reports an error, it writes
through NULL because the entry is at an end of the table, or it closes the file. -/
theorem fat16_sub_close_file_cases {xs ys : List Ptr} {ct : Ptr} {e : CacheTableEntry}
    {n : VfsNode} (h : DoublyLinked 0 (s.links cacheKind) (xs ++ ct :: ys))
    (he : s.object ct = some (.cacheEntry e))
    (hn : e.contentType ≠ .mountPnt → s.object e.content = some (.vfsNode n)) :
    ((e.refcount > 1 ∨ e.contentType = .mountPnt) ∧
      ∃ r, r < 0 ∧ fat16SubCloseFile ct s = some (r, s)) ∨
    (e.contentType ≠ .mountPnt ∧ (xs = [] ∨ ys = []) ∧ fat16SubCloseFile ct s = none) ∨
    (e.contentType ≠ .mountPnt ∧ xs ≠ [] ∧ ys ≠ [] ∧
      ∃ s', fat16SubCloseFile ct s = some (0, s') ∧ Closed s s' xs ys ct e.content) := by
  have hct := VfsState.ne_zero_of_object he
  have hderef : s.deref cacheKind.toObjectKind ct = some e := VfsState.deref_iff.mpr he
  have hstart : fat16SubCloseFile ct s = if e.refcount > 1 then some (-moreThanOneRefcount, s)
      else if e.contentType = .mountPnt then some (-tryingToCloseMountPnt, s)
      else (unlinkEntry cacheKind s e.prev e.next).bind fun s =>
        some (0, (s.heapCreamFree ct).heapCreamFree e.content) := by
    unfold fat16SubCloseFile
    rw [if_neg hct, hderef]
    rfl
  rw [hstart]
  by_cases hrefs : e.refcount > 1
  · rw [if_pos hrefs]
    exact Or.inl ⟨Or.inl hrefs, _, by decide, rfl⟩
  rw [if_neg hrefs]
  by_cases hkind : e.contentType = .mountPnt
  · rw [if_pos hkind]
    exact Or.inl ⟨Or.inr hkind, _, by decide, rfl⟩
  rw [if_neg hkind]
  obtain ⟨hnext, hprev⟩ := neighbours h he
  -- an entry at an end of the table has a NULL neighbour, which the unlink writes to
  rcases eq_or_ne xs [] with hxs | hxs
  · refine Or.inr (Or.inl ⟨hkind, Or.inl hxs, ?_⟩)
    rw [unlink_entry_null cacheKind s (Or.inl (by rw [show e.prev = _ from hprev, hxs]; rfl))]
    rfl
  rcases eq_or_ne ys [] with hys | hys
  · refine Or.inr (Or.inl ⟨hkind, Or.inr hys, ?_⟩)
    rw [unlink_entry_null cacheKind s (Or.inr (by rw [show e.next = _ from hnext, hys]; rfl))]
    rfl
  obtain ⟨⟨a, ha⟩, ⟨a', ha'⟩, hact, hact'⟩ := neighbour_object h hxs hys
  obtain ⟨heap, hunlink, hobject⟩ := unlink_entry_spec h hxs hys
  have hnode := hn hkind
  let s₁ : VfsState := { s with heap := heap }
  let s' := (s₁.heapCreamFree ct).heapCreamFree e.content
  have h' : ∀ x, s'.object x = if x = e.content then none
      else if x = ct then none
      else if x = xs.getLastD 0 then (s.deref cacheKind.toObjectKind x).map fun a =>
        .cacheEntry { a with next := ys.headD 0 }
      else if x = ys.headD 0 then (s.deref cacheKind.toObjectKind x).map fun a =>
        .cacheEntry { a with prev := xs.getLastD 0 }
      else s.object x := by
    intro x
    rw [VfsState.object_free, VfsState.object_free, show s₁.object x = _ from hobject x]
    rfl
  refine Or.inr (Or.inr ⟨hkind, hxs, hys, s', ?_, ?_⟩)
  · rw [show e.prev = _ from hprev, show e.next = _ from hnext, hunlink]
    rfl
  · exact
      { gone := by
          rintro x (rfl | rfl)
          · rw [h', if_neg (ne_of_object he hnode (by simp)), if_pos rfl]
          · rw [h', if_pos rfl]
        cachePrev := by
          intro e' he'
          rw [h', if_neg (ne_of_object he' hnode (by simp)), if_neg hact, if_pos rfl,
            show s.deref cacheKind.toObjectKind _ = some e' from VfsState.deref_iff.mpr he']
          rfl
        cacheNext := by
          intro e' he'
          have hne : ys.headD 0 ≠ xs.getLastD 0 := fun heq =>
            (List.nodup_append.mp h.nodup).2.2 _ (DoublyLinked.getLastD_mem hxs) _
              (List.mem_cons_of_mem _ (DoublyLinked.headD_mem hys)) heq.symm
          rw [h', if_neg (ne_of_object he' hnode (by simp)), if_neg hact', if_neg hne, if_pos rfl,
            show s.deref cacheKind.toObjectKind _ = some e' from VfsState.deref_iff.mpr he']
          rfl
        same := by
          intro x hx hx' hx₂ hx₃
          rw [h', if_neg hx', if_neg hx, if_neg hx₂, if_neg hx₃]
        globals := by simp [s', s₁]
        count := by simp only [s', s₁, VfsState.free_cache_table_count] }

end Genesis32
