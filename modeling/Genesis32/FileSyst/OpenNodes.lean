import Genesis32.FileSyst.NodeIds

/-!
# The nodes that a mount and an open leave behind

What the file functions later read through the pointers: the node with its size, its
`fs_specific` and its origin, and the block and the partition of the origin. The links of the tables
do not matter here, so the objects are compared without them, and the tables may be in any state.
-/

namespace Genesis32

open Word

/-- An object without its links. -/
def VfsObject.unlinked : VfsObject → VfsObject
  | .cacheEntry e => .cacheEntry { e with next := 0, prev := 0 }
  | .mountEntry e => .mountEntry { e with next := 0, prev := 0 }
  | o => o

/-- The states differ at most in the links of their objects. -/
def SameObjects (s s' : VfsState) : Prop :=
  ∀ x, (s'.object x).map VfsObject.unlinked = (s.object x).map VfsObject.unlinked

/-- The pointers of a list are links. -/
structure LinkKind.Unlinks {ε : Type} (K : LinkKind ε) : Prop where
  next : ∀ p e, (K.wrap (K.setNext p e)).unlinked = (K.wrap e).unlinked
  prev : ∀ p e, (K.wrap (K.setPrev p e)).unlinked = (K.wrap e).unlinked

theorem cache_unlinks : cacheKind.Unlinks := ⟨fun _ _ => rfl, fun _ _ => rfl⟩

variable {ε : Type} {s s' t : VfsState} {x : Ptr}

theorem SameObjects.trans (h : SameObjects s s') (h' : SameObjects s' t) : SameObjects s t :=
  fun x => (h' x).trans (h x)

theorem update_same {K : ObjectKind ε} {p : Ptr} {f : ε → ε}
    (hf : ∀ e, (K.wrap (f e)).unlinked = (K.wrap e).unlinked) (h : s.update K p f = some s') :
    SameObjects s s' := by
  obtain ⟨e, he, rfl⟩ := VfsState.object_of_update h
  intro x
  rw [VfsState.object_put (VfsState.ne_zero_of_object he)]
  split_ifs with hx
  · rw [hx, he, Option.map_some, Option.map_some, hf]
  · rfl

theorem link_last_same {K : LinkKind ε} (hK : K.Unlinks) {last p : Ptr}
    (h : linkLast K s last p = some s') : SameObjects s s' := by
  obtain ⟨s₁, h₁, h₂⟩ := Option.bind_eq_some_iff.mp h
  exact (update_same (hK.next p) h₁).trans (update_same (hK.prev last) h₂)

theorem append_entry_same {K : LinkKind ε} (hK : K.Unlinks) {start last p : Ptr}
    {r : VfsState × Ptr × Ptr} (h : appendEntry K s start last p = some r) :
    SameObjects s r.1 := by
  unfold appendEntry at h
  split_ifs at h
  · obtain ⟨s₁, h₁, h⟩ := Option.bind_eq_some_iff.mp h
    obtain ⟨s₂, h₂, h⟩ := Option.bind_eq_some_iff.mp h
    obtain rfl := Option.some.inj h
    exact (update_same (hK.prev 0) h₁).trans (update_same (hK.next 0) h₂)
  · obtain ⟨s₁, h₁, h⟩ := Option.bind_eq_some_iff.mp h
    obtain ⟨s₂, h₂, h⟩ := Option.bind_eq_some_iff.mp h
    obtain rfl := Option.some.inj h
    exact (link_last_same hK h₁).trans (update_same (hK.next 0) h₂)

/-! Objects that have no links are the same, and the others agree in the rest. -/

theorem SameObjects.node (h : SameObjects s s') {n : VfsNode}
    (hn : s.object x = some (.vfsNode n)) : s'.object x = some (.vfsNode n) := by
  have hx := h x
  rw [hn] at hx
  obtain ⟨o, ho, heq⟩ := Option.map_eq_some_iff.mp hx
  cases o <;> cases heq
  exact ho

theorem SameObjects.bpb (h : SameObjects s s') {b : Fat16Bpb}
    (hb : s.object x = some (.bpb b)) : s'.object x = some (.bpb b) := by
  have hx := h x
  rw [hb] at hx
  obtain ⟨o, ho, heq⟩ := Option.map_eq_some_iff.mp hx
  cases o <;> cases heq
  exact ho

theorem SameObjects.cacheEntry (h : SameObjects s s') {e : CacheTableEntry}
    (he : s.object x = some (.cacheEntry e)) : ∃ e', s'.object x = some (.cacheEntry e') ∧
      e'.contentType = e.contentType ∧ e'.content = e.content := by
  have hx := h x
  rw [he] at hx
  obtain ⟨o, ho, heq⟩ := Option.map_eq_some_iff.mp hx
  cases o with
  | cacheEntry e' =>
      injection heq with heq
      injection heq with _ htype hcontent
      exact ⟨e', ho, htype, hcontent⟩
  | mountEntry e' => cases heq
  | vfsNode n => cases heq
  | bpb b => cases heq
  | sector => cases heq

theorem SameObjects.mountEntry (h : SameObjects s s') {m : MountTableEntry}
    (hm : s.object x = some (.mountEntry m)) : ∃ m', s'.object x = some (.mountEntry m') ∧
      m'.mntPart = m.mntPart ∧ m'.fsRootNode = m.fsRootNode ∧ m'.fsBpb = m.fsBpb := by
  have hx := h x
  rw [hm] at hx
  obtain ⟨o, ho, heq⟩ := Option.map_eq_some_iff.mp hx
  cases o with
  | mountEntry m' =>
      injection heq with heq
      injection heq with hpart hroot _ hbpb
      exact ⟨m', ho, hpart, hroot, hbpb⟩
  | cacheEntry e' => cases heq
  | vfsNode n => cases heq
  | bpb b => cases heq
  | sector => cases heq

/-! ## Mounting -/

/-- What a mount leaves behind: the cache entry leads to the mount entry `mt` and from there to the
root node, which has been filled in from the block, and the origin of the node is what it was. -/
structure MountRootNode (s' : VfsState) (entry mt bpb rNode : Ptr) (part : PartitionRef)
    (b : Fat16Bpb) (n : VfsNode) : Prop where
  entry : ∃ e, s'.object entry = some (.cacheEntry e) ∧ e.contentType = .mountPnt ∧
    e.content = mt
  mount : ∃ m, s'.object mt = some (.mountEntry m) ∧ m.mntPart = part ∧ m.fsRootNode = rNode ∧
    m.fsBpb = bpb
  block : s'.object bpb = some (.bpb b)
  node : ∃ n', s'.object rNode = some (.vfsNode n') ∧
    n'.originMountPoint = n.originMountPoint ∧
    n'.size = mul32 b.bytesPerSect (sub32 b.dataLba b.rootLba) ∧
    n'.fsSpecific = add32 b.reservedSectors (b.fatCount * b.sectorsPerFat)

/-- The cache entry of a mount: new memory that is filled in. -/
theorem malloc_update_entry {offer : Ptr} {stale : CacheTableEntry}
    {f : CacheTableEntry → CacheTableEntry}
    (h : (s.heapCreamMalloc offer (.cacheEntry stale)).2.update cacheKind.toObjectKind
      (s.heapCreamMalloc offer (.cacheEntry stale)).1 f = some s') :
    offer ≠ 0 ∧ s.object offer = none ∧
      ∀ x, s'.object x = if x = offer then some (.cacheEntry (f stale)) else s.object x := by
  obtain ⟨e, he, rfl⟩ := VfsState.object_of_update h
  rcases VfsState.heap_cream_malloc_cases s offer (.cacheEntry stale) with
    ⟨hmalloc, _⟩ | ⟨hmalloc, hne, hfree⟩
  · rw [hmalloc] at he
    cases he
  · have hput : ∀ x, ({ s.put offer (.cacheEntry stale) with
        given := s.given ++ [offer] } : VfsState).object x =
          if x = offer then some (.cacheEntry stale) else s.object x := VfsState.object_put hne _
    rw [hmalloc] at he ⊢
    rw [hput, if_pos rfl] at he
    obtain rfl : stale = e := by
      injection he with he
      injection he
    refine ⟨hne, hfree, fun x => ?_⟩
    rw [VfsState.object_put hne, hput]
    split_ifs <;> rfl

theorem fill_mount_root {call : MountCall} {part : PartitionRef} {hashValue : UInt64}
    {mt bpb rNode : Ptr} {r : Int}
    (h : fillMount call part hashValue mt bpb rNode s = some (r, s')) :
    ∃ b n, s.object bpb = some (.bpb b) ∧ s.object rNode = some (.vfsNode n) ∧
      MountRootNode s' call.entry mt bpb rNode part b n := by
  unfold fillMount at h
  obtain ⟨s₁, hupdate, h⟩ := Option.bind_eq_some_iff.mp h
  obtain ⟨m, hm, rfl⟩ := VfsState.object_of_update hupdate
  have hmt := VfsState.ne_zero_of_object hm
  obtain ⟨nodeId, count, hid⟩ := generate_vfs_node_id_eq (s.put mt (mountKind.wrap { m with
    fsRootNode := rNode, mntPart := part, fsBpb := bpb }))
  rw [hid] at h
  obtain ⟨b, hb, h⟩ := Option.bind_eq_some_iff.mp h
  obtain ⟨s₂, hupdate₂, h⟩ := Option.bind_eq_some_iff.mp h
  obtain ⟨n, hn, rfl⟩ := VfsState.object_of_update hupdate₂
  have hrNode := VfsState.ne_zero_of_object hn
  obtain ⟨s₃, hupdate₃, h⟩ := Option.bind_eq_some_iff.mp h
  obtain ⟨hentry, hfree, h₃⟩ := malloc_update_entry hupdate₃
  obtain ⟨s₄, hupdate₄, h⟩ := Option.bind_eq_some_iff.mp h
  obtain ⟨m', hm', rfl⟩ := VfsState.object_of_update hupdate₄
  obtain ⟨⟨s₅, start, last⟩, happend, h⟩ := Option.bind_eq_some_iff.mp h
  obtain ⟨_, rfl⟩ := Prod.mk.inj (Option.some.inj h)
  have hsame := append_entry_same cache_unlinks happend
  -- the objects after each of the writes
  have h₁ := VfsState.object_put (s := s) hmt (mountKind.wrap { m with
    fsRootNode := rNode, mntPart := part, fsBpb := bpb })
  have hb₁ : (s.put mt (mountKind.wrap { m with
      fsRootNode := rNode, mntPart := part, fsBpb := bpb })).object bpb = some (.bpb b) :=
    VfsState.deref_iff.mp hb
  have hbne : bpb ≠ mt := by
    rintro rfl
    rw [h₁, if_pos rfl] at hb₁
    cases hb₁
  have hn₁ : (s.put mt (mountKind.wrap { m with
      fsRootNode := rNode, mntPart := part, fsBpb := bpb })).object rNode = some (.vfsNode n) := hn
  have hnne : rNode ≠ mt := by
    rintro rfl
    rw [h₁, if_pos rfl] at hn₁
    cases hn₁
  rw [h₁, if_neg hbne] at hb₁
  rw [h₁, if_neg hnne] at hn₁
  refine ⟨b, n, hb₁, hn₁, ?_⟩
  have hnb : rNode ≠ bpb := ne_of_object hn₁ hb₁ nofun
  generalize hmem : mountKind.wrap { m with
    fsRootNode := rNode, mntPart := part, fsBpb := bpb } = filled at *
  generalize hnew : nodeKind.wrap { n with
      nodeId := nodeId
      content := mt
      size := mul32 b.bytesPerSect (sub32 b.dataLba b.rootLba)
      fsSpecific := add32 b.reservedSectors (b.fatCount * b.sectorsPerFat) } = node at *
  have h₂ : ∀ x, (({ s.put mt filled with vfsInodeIdCount := count } : VfsState).put rNode
      node).object x = if x = rNode then some node else if x = mt then some filled
        else s.object x := fun x => (VfsState.object_put hrNode node x).trans (by
    split_ifs with hx hx'
    · rfl
    · rw [hx']
      exact (h₁ mt).trans (if_pos rfl)
    · exact (h₁ x).trans (if_neg hx'))
  have hnotFree : ∀ {y : Ptr} {o : VfsObject}, (if y = rNode then some node
      else if y = mt then some filled else s.object y) = some o → call.entry ≠ y := by
    rintro y o hy rfl
    rw [h₂, hy] at hfree
    cases hfree
  have hentryNode : call.entry ≠ rNode := hnotFree (o := node) (if_pos rfl)
  have hentryMount : call.entry ≠ mt :=
    hnotFree (o := filled) (by rw [if_neg hnne.symm, if_pos rfl])
  have hentryBlock : call.entry ≠ bpb :=
    hnotFree (o := .bpb b) (by rw [if_neg hnb.symm, if_neg hbne, hb₁])
  have h₄ := VfsState.object_put (s := { s₃ with cacheTableCount := add32 s₃.cacheTableCount 1 })
    hmt
  have h₃' : ∀ y, s₃.object y = if y = call.entry then some (.cacheEntry { call.staleEntry with
        refcount := 1
        contentType := .mountPnt
        content := mt
        pathHash := hashValue })
      else if y = rNode then some node else if y = mt then some filled else s.object y :=
    fun y => (h₃ y).trans (by rw [h₂])
  have hlive : s₃.object mt = some filled := by
    rw [h₃', if_neg hentryMount.symm, if_neg hnne.symm, if_pos rfl]
  have hfields : m'.mntPart = part ∧ m'.fsRootNode = rNode ∧ m'.fsBpb = bpb := by
    have heq := Option.some.inj (hlive.symm.trans hm')
    rw [← hmem] at heq
    injection heq with heq
    rw [← heq]
    exact ⟨rfl, rfl, rfl⟩
  refine ⟨?_, ?_, ?_, ?_⟩
  · obtain ⟨e, he, htype, hcontent⟩ := hsame.cacheEntry ((h₄ _ call.entry).trans
      ((if_neg hentryMount).trans ((h₃' call.entry).trans (if_pos rfl))))
    exact ⟨e, he, htype, hcontent⟩
  · obtain ⟨m₅, hm₅, hpart, hroot, hblock⟩ := hsame.mountEntry ((h₄ _ mt).trans (if_pos rfl))
    exact ⟨m₅, hm₅, hpart.trans hfields.1, hroot.trans hfields.2.1, hblock.trans hfields.2.2⟩
  · refine hsame.bpb ((h₄ _ bpb).trans ((if_neg hbne).trans ((h₃' bpb).trans ?_)))
    rw [if_neg hentryBlock.symm, if_neg hnb.symm, if_neg hbne, hb₁]
  · refine ⟨{ n with
        nodeId := nodeId
        content := mt
        size := mul32 b.bytesPerSect (sub32 b.dataLba b.rootLba)
        fsSpecific := add32 b.reservedSectors (b.fatCount * b.sectorsPerFat) },
      hsame.node ((h₄ _ rNode).trans ((if_neg hnne).trans ((h₃' rNode).trans ?_))), rfl, rfl, rfl⟩
    rw [if_neg hentryNode.symm, if_pos rfl, ← hnew]
    rfl

/-- The block of a mount is what the boot sector parses to. -/
theorem parse_partition_block {call : MountCall} {part : PartitionRef}
    (hbpb : (parsePartition call part s).1 ≠ 0) :
    (parsePartition call part s).1 = call.bpb ∧ ∃ b, call.parsed part = some b ∧
      (parsePartition call part s).2.object call.bpb = some (.bpb b) := by
  rcases parse_partition_cases call part s with
    ⟨_, s₁, hparse, _⟩ | ⟨_, _, b, hparsed, heap, given, freed, hparse, hobject⟩
  · rw [hparse] at hbpb
    exact absurd rfl hbpb
  · rw [hparse]
    exact ⟨rfl, b, hparsed, (hobject call.bpb).trans (if_pos rfl)⟩

/-- What a successful mount leaves behind. -/
theorem mount_root_node {H : PathHash} {call : MountCall} {part : PartitionRef}
    {path : List UInt8} {rNode : Ptr} (h : mountFat16 H call part path rNode s = some (0, s')) :
    ∃ b n, call.parsed part = some b ∧ s.object rNode = some (.vfsNode n) ∧
      MountRootNode s' call.entry call.mntTblE call.bpb rNode part b n := by
  have hfail : ∀ (t : VfsState) (x y z : Ptr), mountFail x y z t ≠ (0, s') := fun t x y z heq =>
    absurd (congrArg Prod.fst heq) (show -mountFailure ≠ 0 by decide)
  unfold mountFat16 at h
  split_ifs at h
  · exact absurd (Prod.mk.inj (Option.some.inj h)).1 (by decide)
  obtain ⟨taken, _, h⟩ := Option.bind_eq_some_iff.mp h
  split_ifs at h
  · exact absurd (Option.some.inj h) (hfail _ _ _ _)
  have hk₁ : NodesKept s (s.heapCreamMalloc call.mntTblE (.mountEntry call.staleMntTblE)).2 :=
    malloc_kept s call.mntTblE (mount_not_node call.staleMntTblE)
  unfold allocMount at h
  rcases VfsState.heap_cream_malloc_cases s call.mntTblE (.mountEntry call.staleMntTblE) with
    ⟨heq, _⟩ | ⟨heq, hne, _⟩
  · rw [heq] at h
    simp only [if_true] at h
    exact absurd (Option.some.inj h) (hfail _ _ _ _)
  rw [heq] at h hk₁
  simp only [if_neg hne] at h
  unfold linkMount at h
  simp only [Option.bind_eq_bind] at h
  obtain ⟨⟨s₂, start, last⟩, h₂, h⟩ := Option.bind_eq_some_iff.mp h
  have hk₂ := append_entry_kept mount_not_node h₂
  simp only at h
  have hk₃ := parse_partition_kept call part
    { s₂ with mountTableStart := start, mountTableLast := last }
  unfold parsedMount at h
  split_ifs at h with hbpb
  · exact absurd (Option.some.inj h) (hfail _ _ _ _)
  · exact absurd (Option.some.inj h) (hfail _ _ _ _)
  · obtain ⟨hptr, b, hparsed, hblock⟩ := parse_partition_block hbpb
    rw [hptr] at h
    obtain ⟨b', n, hb', hn, hroot⟩ := fill_mount_root h
    obtain rfl : b = b' := by
      have := Option.some.inj (hblock.symm.trans hb')
      injection this
    exact ⟨b, n, hparsed, hk₁.nodes _ _ (hk₂.nodes _ _ (hk₃.nodes _ _ hn)), hroot⟩

/-! ## Opening -/

/-- What an open leaves behind: the cache entry of the type that the directory entry has leads to a
node with the cluster and the size that it records. -/
structure OpenedNode (s' : VfsState) (ct node origin : Ptr) (dirEnt : ByteMem) : Prop where
  entry : ∃ e, s'.object ct = some (.cacheEntry e) ∧
    e.contentType = (if dirEnt 11 &&& 0x10 = 0 then .file else .dir) ∧ e.content = node
  node : ∃ n, s'.object node = some (.vfsNode n) ∧ n.originMountPoint = origin ∧
    n.size = dirEnt.word32 28 ∧ n.fsSpecific = dirEnt.word16 26

theorem link_opened_node {dirEnt : ByteMem} {hashValue : UInt64} {origin ct node r : Ptr}
    (h : linkOpened dirEnt hashValue origin ct node s = some (r, s')) :
    r = ct ∧ OpenedNode s' ct node origin dirEnt := by
  unfold linkOpened at h
  obtain ⟨s₁, h₁, h⟩ := Option.bind_eq_some_iff.mp h
  obtain ⟨e, he, rfl⟩ := VfsState.object_of_update h₁
  obtain ⟨s₂, h₂, h⟩ := Option.bind_eq_some_iff.mp h
  have hsame := link_last_same cache_unlinks h₂
  obtain ⟨nodeId, count, hid⟩ := generate_vfs_node_id_eq { s₂ with cacheTableLast := ct }
  dsimp only at h
  rw [hid] at h
  obtain ⟨s₃, h₃, h⟩ := Option.bind_eq_some_iff.mp h
  obtain ⟨n, hn, rfl⟩ := VfsState.object_of_update h₃
  obtain ⟨rfl, rfl⟩ := Prod.mk.inj (Option.some.inj h)
  have hct := VfsState.ne_zero_of_object he
  have hnode := VfsState.ne_zero_of_object hn
  obtain ⟨e', he', htype, hcontent⟩ :=
    hsame.cacheEntry ((VfsState.object_put hct _ ct).trans (if_pos rfl))
  have hput := fun o => VfsState.object_put
    (s := { s₂ with cacheTableLast := ct, vfsInodeIdCount := count }) hnode o
  refine ⟨rfl, ⟨e', (hput _ ct).trans ((if_neg ?_).trans he'), htype, hcontent⟩,
    ⟨_, (hput _ node).trans (if_pos rfl), rfl, rfl, rfl⟩⟩
  exact ne_of_object he' hn nofun

theorem opened_node {H : PathHash} {call : OpenCall} {dirEnt : ByteMem} {path : List UInt8}
    {offset : Nat} {origin ct : Ptr}
    (h : fat16SubOpenFile H call dirEnt path offset origin s = some (ct, s')) (hct : ct ≠ 0) :
    OpenedNode s' ct call.node origin dirEnt := by
  unfold fat16SubOpenFile at h
  rcases VfsState.heap_cream_malloc_cases s call.ct (.cacheEntry call.staleEntry) with
    ⟨heq, _⟩ | ⟨heq, hne, _⟩
  · rw [heq] at h
    simp only [if_true] at h
    exact absurd (Prod.mk.inj (Option.some.inj h)).1.symm hct
  rw [heq] at h
  simp only [if_neg hne] at h
  generalize ({ s.put call.ct (.cacheEntry call.staleEntry) with
    given := s.given ++ [call.ct] } : VfsState) = t at h
  rcases VfsState.heap_cream_malloc_cases t call.node (.vfsNode call.staleNode) with
    ⟨heq', _⟩ | ⟨heq', hne', _⟩
  · rw [heq'] at h
    simp only [if_true] at h
    exact absurd (Prod.mk.inj (Option.some.inj h)).1.symm hct
  · rw [heq'] at h
    simp only [if_neg hne'] at h
    obtain ⟨rfl, hopened⟩ := link_opened_node h
    exact hopened

end Genesis32
