import Genesis32.FileSyst.MountRuns

/-!
# The identities of nodes

`generate_vfs_node_id` counts from `VFS_INODE_ID_COUNT`, which starts at `-1`, and gives out numbers
while the counter is below `VFS_NODE_ID_MAX`. The counter is unsigned, so it is over that bound from
the start: `mount_fat16` and `fat16_sub_open_file` store the error that the function returns as the
identity of every node they fill in.
-/

namespace Genesis32

open Word

/-- The initial value of `VFS_INODE_ID_COUNT`. -/
abbrev vfsInodeIdStart : Nat := sub32 0 1

/-- `-VFS_NODE_DEPLETION_PANIC` in `node_id`. -/
abbrev depletedNodeId : Nat := sub32 0 vfsNodeDepletionPanic

/-- The objects and globals, with the nodes that have been filled in and not handed out again. -/
structure NodeRun where
  vfs : VfsState
  identified : List Ptr

/-- The nodes that are filled in after a call that returns `r`. -/
def VfsOp.identifiedAfter (r : Int) (identified : List Ptr) : VfsOp → List Ptr
  | mount _ _ _ rNode => if r = 0 then rNode :: identified else identified
  | openFile call _ _ _ _ => if r = 0 then identified else call.node :: identified
  | makeNode offer _ => if r = 0 then identified else identified.filter (· ≠ offer)
  | umount _ => identified
  | close _ => identified

/-- A step of a run. -/
def NodeStep (H : PathHash) (s : NodeRun) (op : VfsOp) (s' : NodeRun) : Prop :=
  ∃ r, op.exec H s.vfs = some (r, s'.vfs) ∧ s'.identified = op.identifiedAfter r s.identified

/-- The node at a pointer is live and was filled in by a mount or an open. -/
def LiveNode (s : NodeRun) (p : Ptr) (n : VfsNode) : Prop :=
  p ∈ s.identified ∧ s.vfs.object p = some (.vfsNode n)

/-- Live nodes have identities that are not the error and that differ. -/
structure NodeIdsUnique (s : NodeRun) : Prop where
  noError : ∀ p n, LiveNode s p n → n.nodeId ≠ depletedNodeId
  distinct : ∀ p q n n', LiveNode s p n → LiveNode s q n' → p ≠ q → n.nodeId ≠ n'.nodeId

/-! ## What the calls do to nodes -/

/-- No node is new or changed, and the counter stays. -/
structure NodesKept (s s' : VfsState) : Prop where
  count : s'.vfsInodeIdCount = s.vfsInodeIdCount
  nodes : ∀ p n, s'.object p = some (.vfsNode n) → s.object p = some (.vfsNode n)

/-- The node at `x` has the error for its identity, no other node is new or changed, and the counter
stays. -/
structure NodeFilled (s s' : VfsState) (x : Ptr) : Prop where
  count : s'.vfsInodeIdCount = s.vfsInodeIdCount
  filled : ∀ n, s'.object x = some (.vfsNode n) → n.nodeId = depletedNodeId
  nodes : ∀ p n, p ≠ x → s'.object p = some (.vfsNode n) → s.object p = some (.vfsNode n)

variable {ε : Type} {s s' t : VfsState} {x : Ptr}

theorem nodes_kept_refl (s : VfsState) : NodesKept s s := ⟨rfl, fun _ _ h => h⟩

theorem NodesKept.trans (h : NodesKept s s') (h' : NodesKept s' t) : NodesKept s t :=
  ⟨h'.count.trans h.count, fun p n hn => h.nodes p n (h'.nodes p n hn)⟩

theorem NodesKept.filled (h : NodesKept s s') (h' : NodeFilled s' t x) : NodeFilled s t x :=
  ⟨h'.count.trans h.count, h'.filled, fun p n hp hn => h.nodes p n (h'.nodes p n hp hn)⟩

theorem NodeFilled.kept (h : NodeFilled s s' x) (h' : NodesKept s' t) : NodeFilled s t x :=
  ⟨h'.count.trans h.count, fun n hn => h.filled n (h'.nodes x n hn),
    fun p n hp hn => h.nodes p n hp (h'.nodes p n hn)⟩

/-- An object that is no node. -/
def VfsObject.NotNode (o : VfsObject) : Prop := ∀ n, o ≠ .vfsNode n

theorem put_kept (s : VfsState) (p : Ptr) {o : VfsObject} (ho : o.NotNode) :
    NodesKept s (s.put p o) := by
  refine ⟨rfl, fun y n hn => ?_⟩
  rcases eq_or_ne p 0 with rfl | hp
  · rcases eq_or_ne y 0 with rfl | hy
    · rw [VfsState.object_zero] at hn
      cases hn
    · unfold VfsState.object VfsState.put at hn
      rw [if_neg hy, AList.lookup_insert_ne hy] at hn
      unfold VfsState.object
      rwa [if_neg hy]
  · rw [VfsState.object_put hp] at hn
    split_ifs at hn with hy
    · exact absurd (Option.some.inj hn) (ho n)
    · exact hn

theorem free_kept (s : VfsState) (p : Ptr) : NodesKept s (s.heapCreamFree p) := by
  refine ⟨?_, fun y n hn => ?_⟩
  · unfold VfsState.heapCreamFree
    split_ifs <;> rfl
  · rw [VfsState.object_free] at hn
    split_ifs at hn
    exact hn

theorem malloc_kept (s : VfsState) (offer : Ptr) {stale : VfsObject} (hstale : stale.NotNode) :
    NodesKept s (s.heapCreamMalloc offer stale).2 := by
  rcases VfsState.heap_cream_malloc_cases s offer stale with ⟨heq, _⟩ | ⟨heq, _⟩
  · rw [heq]
    exact nodes_kept_refl s
  · rw [heq]
    exact ⟨rfl, (put_kept s offer hstale).nodes⟩

theorem count_kept (s : VfsState) (count : Nat) :
    NodesKept s { s with cacheTableCount := count } := ⟨rfl, fun _ _ h => h⟩

/-- A write to an object that is no node. -/
theorem update_kept {K : ObjectKind ε} (hK : ∀ e, (K.wrap e).NotNode) {p : Ptr} {f : ε → ε}
    (h : s.update K p f = some s') : NodesKept s s' := by
  obtain ⟨e, _, rfl⟩ := VfsState.object_of_update h
  exact put_kept s p (hK _)

theorem cache_not_node (e : CacheTableEntry) : (cacheKind.wrap e).NotNode := fun _ h => nomatch h

theorem mount_not_node (e : MountTableEntry) : (mountKind.wrap e).NotNode := fun _ h => nomatch h

theorem sector_not_node : VfsObject.sector.NotNode := fun _ h => nomatch h

theorem bpb_not_node (b : Fat16Bpb) : (VfsObject.bpb b).NotNode := fun _ h => nomatch h

theorem link_last_kept {K : LinkKind ε} (hK : ∀ e, (K.wrap e).NotNode) {last p : Ptr}
    (h : linkLast K s last p = some s') : NodesKept s s' := by
  obtain ⟨s₁, h₁, h₂⟩ := Option.bind_eq_some_iff.mp h
  exact (update_kept hK h₁).trans (update_kept hK h₂)

theorem unlink_entry_kept {K : LinkKind ε} (hK : ∀ e, (K.wrap e).NotNode) {previous next : Ptr}
    (h : unlinkEntry K s previous next = some s') : NodesKept s s' := by
  obtain ⟨s₁, h₁, h₂⟩ := Option.bind_eq_some_iff.mp h
  exact (update_kept hK h₁).trans (update_kept hK h₂)

theorem append_entry_kept {K : LinkKind ε} (hK : ∀ e, (K.wrap e).NotNode) {start last p : Ptr}
    {r : VfsState × Ptr × Ptr} (h : appendEntry K s start last p = some r) : NodesKept s r.1 := by
  unfold appendEntry at h
  split_ifs at h
  · obtain ⟨s₁, h₁, h⟩ := Option.bind_eq_some_iff.mp h
    obtain ⟨s₂, h₂, h⟩ := Option.bind_eq_some_iff.mp h
    obtain rfl := Option.some.inj h
    exact (update_kept hK h₁).trans (update_kept hK h₂)
  · obtain ⟨s₁, h₁, h⟩ := Option.bind_eq_some_iff.mp h
    obtain ⟨s₂, h₂, h⟩ := Option.bind_eq_some_iff.mp h
    obtain rfl := Option.some.inj h
    exact (link_last_kept hK h₁).trans (update_kept hK h₂)

theorem parse_partition_kept (call : MountCall) (part : PartitionRef) (s : VfsState) :
    NodesKept s (parsePartition call part s).2 := by
  have hsector := malloc_kept s call.sect0Buf sector_not_node
  unfold parsePartition
  generalize s.heapCreamMalloc call.sect0Buf .sector = r₁ at hsector ⊢
  obtain ⟨sect0Buf, s₁⟩ := r₁
  have hbpb := malloc_kept s₁ call.bpb (bpb_not_node call.staleBpb)
  simp only
  by_cases hcode : call.readCode part < 0
  · rw [if_pos hcode]
    exact hsector.trans (free_kept s₁ sect0Buf)
  rw [if_neg hcode]
  generalize s₁.heapCreamMalloc call.bpb (.bpb call.staleBpb) = r₂ at hbpb ⊢
  obtain ⟨bpb, s₂⟩ := r₂
  have hk := hsector.trans hbpb
  simp only
  by_cases hnull : bpb = 0
  · rw [if_pos hnull]
    exact hk.trans (free_kept s₂ sect0Buf)
  rw [if_neg hnull]
  cases call.parsed part with
  | none => exact (hk.trans (free_kept _ _)).trans (free_kept _ _)
  | some b => exact (hk.trans (put_kept s₂ bpb (bpb_not_node b))).trans (free_kept _ _)

theorem mount_fail_kept (mntTblE bpb rNode : Ptr) (s : VfsState) :
    NodesKept s (mountFail mntTblE bpb rNode s).2 :=
  ((free_kept _ _).trans (free_kept _ _)).trans (free_kept _ _)

/-- The counter is over its bound. -/
def VfsState.Depleted (s : VfsState) : Prop := vfsNodeIdMax ≤ s.vfsInodeIdCount

theorem VfsState.Depleted.generate (h : s.Depleted) :
    s.generateVfsNodeId = (depletedNodeId, s) :=
  if_neg (Nat.not_lt.mpr h)

theorem NodesKept.depleted (h : NodesKept s s') (hs : s.Depleted) : s'.Depleted := by
  unfold VfsState.Depleted
  rwa [h.count]

/-- A write that gives a node the error for its identity. -/
theorem update_node_filled {p : Ptr} {f : VfsNode → VfsNode}
    (hf : ∀ n, (f n).nodeId = depletedNodeId) (h : s.update nodeKind p f = some s') :
    NodeFilled s s' p := by
  obtain ⟨e, he, rfl⟩ := VfsState.object_of_update h
  have hp := VfsState.ne_zero_of_object he
  refine ⟨rfl, fun n hn => ?_, fun y n hy hn => ?_⟩
  · rw [VfsState.object_put hp, if_pos rfl] at hn
    cases hn
    exact hf e
  · rwa [VfsState.object_put hp, if_neg hy] at hn

/-- The end of a mount fills the root node in. -/
theorem fill_mount_filled {call : MountCall} {part : PartitionRef} {hashValue : UInt64}
    {mntTblE bpb rNode : Ptr} {r : Int × VfsState} (hs : s.Depleted)
    (h : fillMount call part hashValue mntTblE bpb rNode s = some r) :
    r.1 = 0 ∧ NodeFilled s r.2 rNode := by
  unfold fillMount at h
  simp only [Option.bind_eq_bind] at h
  obtain ⟨s₁, h₁, h⟩ := Option.bind_eq_some_iff.mp h
  have hk₁ := update_kept mount_not_node h₁
  simp only [(hk₁.depleted hs).generate] at h
  obtain ⟨b, _, h⟩ := Option.bind_eq_some_iff.mp h
  obtain ⟨s₂, h₂, h⟩ := Option.bind_eq_some_iff.mp h
  have hf₂ := update_node_filled (fun _ => rfl) h₂
  obtain ⟨s₃, h₃, h⟩ := Option.bind_eq_some_iff.mp h
  have hk₂ := malloc_kept s₂ call.entry (cache_not_node call.staleEntry)
  have hk₃ := update_kept cache_not_node h₃
  obtain ⟨s₄, h₄, h⟩ := Option.bind_eq_some_iff.mp h
  have hk₄ := update_kept mount_not_node h₄
  obtain ⟨⟨s₅, start, last⟩, h₅, h⟩ := Option.bind_eq_some_iff.mp h
  have hk₅ := append_entry_kept cache_not_node h₅
  obtain rfl := Option.some.inj h
  have hfill : NodeFilled s s₅ rNode :=
    hk₁.filled ((((hf₂.kept hk₂).kept hk₃).kept ⟨hk₄.count, hk₄.nodes⟩).kept hk₅)
  exact ⟨rfl, hfill.count, hfill.filled, hfill.nodes⟩

/-- A mount fills the root node in if it reports success, and no node otherwise. -/
theorem mount_fat16_filled {H : PathHash} {call : MountCall} {part : PartitionRef}
    {path : List UInt8} {rNode : Ptr} {r : Int × VfsState} (hs : s.Depleted)
    (h : mountFat16 H call part path rNode s = some r) :
    r.1 = 0 ∧ NodeFilled s r.2 rNode ∨ r.1 ≠ 0 ∧ NodesKept s r.2 := by
  have hfail : ∀ (t : VfsState) (x y z : Ptr), NodesKept s t →
      (mountFail x y z t).1 ≠ 0 ∧ NodesKept s (mountFail x y z t).2 := fun t x y z hk =>
    ⟨show -mountFailure ≠ 0 by decide, hk.trans (mount_fail_kept x y z t)⟩
  unfold mountFat16 at h
  split_ifs at h
  · obtain rfl := Option.some.inj h
    exact Or.inr ⟨show -mountTableFull ≠ 0 by decide, nodes_kept_refl s⟩
  obtain ⟨taken, _, h⟩ := Option.bind_eq_some_iff.mp h
  split_ifs at h
  · obtain rfl := Option.some.inj h
    exact Or.inr (hfail s _ _ _ (nodes_kept_refl s))
  have hk₁ : NodesKept s (s.heapCreamMalloc call.mntTblE (.mountEntry call.staleMntTblE)).2 :=
    malloc_kept s call.mntTblE (mount_not_node call.staleMntTblE)
  unfold allocMount at h
  generalize s.heapCreamMalloc call.mntTblE (.mountEntry call.staleMntTblE) = r₁ at hk₁ h
  obtain ⟨mntTblE, s₁⟩ := r₁
  simp only at h
  split_ifs at h
  · obtain rfl := Option.some.inj h
    exact Or.inr (hfail s₁ _ _ _ hk₁)
  unfold linkMount at h
  simp only [Option.bind_eq_bind] at h
  obtain ⟨⟨s₂, start, last⟩, h₂, h⟩ := Option.bind_eq_some_iff.mp h
  have hk₂ := append_entry_kept mount_not_node h₂
  have hk₃ := parse_partition_kept call part
    { s₂ with mountTableStart := start, mountTableLast := last }
  simp only at h
  generalize parsePartition call part
    { s₂ with mountTableStart := start, mountTableLast := last } = r₃ at hk₃ h
  obtain ⟨bpb, s₃⟩ := r₃
  unfold parsedMount at h
  -- no node has been touched up to the fields of the root node
  have hk : NodesKept s s₃ := (hk₁.trans hk₂).trans ⟨hk₃.count, hk₃.nodes⟩
  simp only at h
  split_ifs at h
  · obtain rfl := Option.some.inj h
    exact Or.inr (hfail s₃ _ _ _ hk)
  · obtain rfl := Option.some.inj h
    exact Or.inr (hfail s₃ _ _ _ hk)
  · obtain ⟨hzero, hfill⟩ := fill_mount_filled (hk.depleted hs) h
    exact Or.inl ⟨hzero, hk.filled hfill⟩

/-- An open fills the new node in if it returns an entry, and no node otherwise. -/
theorem open_file_filled {H : PathHash} {call : OpenCall} {dirEnt : ByteMem} {path : List UInt8}
    {offset : Nat} {origin : Ptr} {r : Ptr × VfsState} (hs : s.Depleted)
    (h : fat16SubOpenFile H call dirEnt path offset origin s = some r) :
    r.1 ≠ 0 ∧ NodeFilled s r.2 call.node ∨ r.1 = 0 ∧ NodesKept s r.2 := by
  have hk₁ : NodesKept s (s.heapCreamMalloc call.ct (.cacheEntry call.staleEntry)).2 :=
    malloc_kept s call.ct (cache_not_node call.staleEntry)
  unfold fat16SubOpenFile at h
  generalize s.heapCreamMalloc call.ct (.cacheEntry call.staleEntry) = r₁ at hk₁ h
  obtain ⟨ct, s₁⟩ := r₁
  simp only at h
  by_cases hct : ct = 0
  · rw [if_pos hct] at h
    obtain rfl := Option.some.inj h
    exact Or.inr ⟨rfl, hk₁⟩
  rw [if_neg hct] at h
  rcases VfsState.heap_cream_malloc_cases s₁ call.node (.vfsNode call.staleNode)
    with ⟨heq, _⟩ | ⟨heq, hne, _⟩
  · rw [heq] at h
    simp only [if_true] at h
    obtain rfl := Option.some.inj h
    exact Or.inr ⟨rfl, hk₁.trans (free_kept s₁ ct)⟩
  rw [heq] at h
  simp only [if_neg hne] at h
  generalize hs₂ : ({ s₁.put call.node (.vfsNode call.staleNode) with
    given := s₁.given ++ [call.node] } : VfsState) = s₂ at h
  have hother : ∀ p n, p ≠ call.node → s₂.object p = some (.vfsNode n) →
      s₁.object p = some (.vfsNode n) := by
    intro p n hp hn
    have hput := VfsState.object_put (s := s₁) hne (.vfsNode call.staleNode) p
    rw [if_neg hp] at hput
    rw [← hput]
    rwa [← hs₂] at hn
  have hcount : s₂.vfsInodeIdCount = s₁.vfsInodeIdCount := by rw [← hs₂]; rfl
  unfold linkOpened at h
  simp only [Option.bind_eq_bind] at h
  obtain ⟨s₃, h₃, h⟩ := Option.bind_eq_some_iff.mp h
  obtain ⟨s₄, h₄, h⟩ := Option.bind_eq_some_iff.mp h
  have hk₂ : NodesKept s₂ s₄ :=
    (update_kept cache_not_node h₃).trans (link_last_kept cache_not_node h₄)
  -- the counter is still at its end, so the node gets no number of its own
  have hdepleted : VfsState.Depleted { s₄ with cacheTableLast := ct } := by
    show vfsNodeIdMax ≤ s₄.vfsInodeIdCount
    rw [hk₂.count, hcount, hk₁.count]
    exact hs
  simp only [hdepleted.generate] at h
  obtain ⟨s₅, h₅, h⟩ := Option.bind_eq_some_iff.mp h
  have hf := update_node_filled (fun _ => rfl) h₅
  obtain rfl := Option.some.inj h
  refine Or.inl ⟨hct, ?_, hf.filled, fun p n hp hn => ?_⟩
  · exact hf.count.trans (hk₂.count.trans (hcount.trans hk₁.count))
  · exact hk₁.nodes p n (hother p n hp (hk₂.nodes p n (hf.nodes p n hp hn)))

theorem umount_fat16_kept {H : PathHash} {path : List UInt8} {r : Int × VfsState}
    (h : umountFat16 H path s = some r) : NodesKept s r.2 := by
  unfold umountFat16 at h
  obtain ⟨ct, _, h⟩ := Option.bind_eq_some_iff.mp h
  split_ifs at h
  · obtain rfl := Option.some.inj h
    exact nodes_kept_refl s
  obtain ⟨e, _, h⟩ := Option.bind_eq_some_iff.mp h
  split_ifs at h
  · obtain rfl := Option.some.inj h
    exact nodes_kept_refl s
  · obtain rfl := Option.some.inj h
    exact nodes_kept_refl s
  unfold umountEntry at h
  simp only [Option.bind_eq_bind] at h
  obtain ⟨s₁, h₁, h⟩ := Option.bind_eq_some_iff.mp h
  obtain ⟨m, _, h⟩ := Option.bind_eq_some_iff.mp h
  obtain ⟨m', _, h⟩ := Option.bind_eq_some_iff.mp h
  obtain ⟨s₂, h₂, h⟩ := Option.bind_eq_some_iff.mp h
  obtain rfl := Option.some.inj h
  have hk₁ := (unlink_entry_kept cache_not_node h₁).trans (free_kept s₁ ct)
  have hk₂ : NodesKept s
      ((VfsState.heapCreamFree { s₁.heapCreamFree ct with
        cacheTableCount := sub32 (s₁.heapCreamFree ct).cacheTableCount 1 } m.fsBpb).heapCreamFree
          m.fsRootNode) :=
    ((hk₁.trans (count_kept _ _)).trans (free_kept _ _)).trans (free_kept _ _)
  exact (hk₂.trans (unlink_entry_kept mount_not_node h₂)).trans (free_kept _ _)

theorem close_file_kept {ct : Ptr} {r : Int × VfsState} (h : fat16SubCloseFile ct s = some r) :
    NodesKept s r.2 := by
  unfold fat16SubCloseFile at h
  split_ifs at h
  · obtain rfl := Option.some.inj h
    exact nodes_kept_refl s
  obtain ⟨e, _, h⟩ := Option.bind_eq_some_iff.mp h
  split_ifs at h
  · obtain rfl := Option.some.inj h
    exact nodes_kept_refl s
  · obtain rfl := Option.some.inj h
    exact nodes_kept_refl s
  obtain ⟨s₁, h₁, h⟩ := Option.bind_eq_some_iff.mp h
  obtain rfl := Option.some.inj h
  exact ((unlink_entry_kept cache_not_node h₁).trans (free_kept _ _)).trans (free_kept _ _)

/-! ## Runs -/

/-- Every live node that has been filled in has the error for its identity. -/
structure NodesDepleted (s : NodeRun) : Prop where
  depleted : s.vfs.Depleted
  nodes : ∀ p n, LiveNode s p n → n.nodeId = depletedNodeId

theorem NodesDepleted.kept {s s' : NodeRun} (h : NodesDepleted s) (hk : NodesKept s.vfs s'.vfs)
    (hsub : ∀ p, p ∈ s'.identified → p ∈ s.identified) : NodesDepleted s' :=
  ⟨hk.depleted h.depleted, fun p n hn => h.nodes p n ⟨hsub p hn.1, hk.nodes p n hn.2⟩⟩

theorem NodesDepleted.filled {s s' : NodeRun} (h : NodesDepleted s) {x : Ptr}
    (hf : NodeFilled s.vfs s'.vfs x) (hx : s'.identified = x :: s.identified) :
    NodesDepleted s' where
  depleted := by
    unfold VfsState.Depleted
    rw [hf.count]
    exact h.depleted
  nodes := by
    intro p n hn
    rcases eq_or_ne p x with rfl | hne
    · exact hf.filled n hn.2
    · have hmem := hn.1
      rw [hx] at hmem
      exact h.nodes p n ⟨(List.mem_cons.mp hmem).resolve_left hne, hf.nodes p n hne hn.2⟩

/-- No call gives a node an identity of its own. -/
theorem node_step_depleted {H : PathHash} (s : NodeRun) (op : VfsOp) (s' : NodeRun)
    (h : NodesDepleted s) (hstep : NodeStep H s op s') : NodesDepleted s' := by
  obtain ⟨r, hexec, hids⟩ := hstep
  cases op with
  | mount call part path rNode =>
      rcases mount_fat16_filled h.depleted hexec with ⟨hr, hf⟩ | ⟨hr, hk⟩
      · exact h.filled hf (by rw [hids]; exact if_pos hr)
      · refine h.kept hk fun p hp => ?_
        rwa [hids, VfsOp.identifiedAfter, if_neg hr] at hp
  | umount path =>
      exact h.kept (umount_fat16_kept hexec) fun p hp => by rwa [hids] at hp
  | openFile call dirEnt path offset origin =>
      obtain ⟨t, ht, heq⟩ := Option.map_eq_some_iff.mp hexec
      obtain ⟨rfl, hvfs⟩ := Prod.mk.inj heq
      rcases open_file_filled h.depleted ht with ⟨hr, hf⟩ | ⟨hr, hk⟩
      · rw [hvfs] at hf
        refine h.filled hf ?_
        rw [hids]
        exact if_neg (by exact_mod_cast hr)
      · rw [hvfs] at hk
        refine h.kept hk fun p hp => ?_
        rwa [hids, VfsOp.identifiedAfter, if_pos (by exact_mod_cast hr)] at hp
  | close ct =>
      exact h.kept (close_file_kept hexec) fun p hp => by rwa [hids] at hp
  | makeNode offer n =>
      obtain ⟨hr, hvfs⟩ := Prod.mk.inj (Option.some.inj hexec)
      rcases VfsState.heap_cream_malloc_cases s.vfs offer (.vfsNode n) with
        ⟨heq, _⟩ | ⟨heq, hne, _⟩
      · rw [heq] at hr hvfs
        refine h.kept (hvfs ▸ nodes_kept_refl s.vfs) fun p hp => ?_
        rwa [hids, VfsOp.identifiedAfter, if_pos (by simpa using hr.symm)] at hp
      · rw [heq] at hr hvfs
        have hr0 : ¬ r = 0 := by
          rw [← hr]
          exact_mod_cast hne
        rw [VfsOp.identifiedAfter, if_neg hr0] at hids
        refine ⟨?_, fun p m hm => ?_⟩
        · rw [← hvfs]
          exact h.depleted
        · obtain ⟨hmem, hp⟩ := hm
          rw [hids, List.mem_filter] at hmem
          have hpne : p ≠ offer := by simpa using hmem.2
          have hput := VfsState.object_put (s := s.vfs) hne (.vfsNode n) p
          rw [if_neg hpne] at hput
          refine h.nodes p m ⟨hmem.1, ?_⟩
          rw [← hput]
          rwa [← hvfs] at hp

theorem nodes_depleted_run {H : PathHash} {s₀ : VfsState}
    (hstart : s₀.vfsInodeIdCount = vfsInodeIdStart) {trace : List (Transition NodeRun VfsOp)}
    {s : NodeRun} (hrun : Run (NodeStep H) ⟨s₀, []⟩ trace s) : NodesDepleted s := by
  refine hrun.invariant node_step_depleted ⟨?_, fun p n hn => absurd hn.1 List.not_mem_nil⟩
  show vfsNodeIdMax ≤ s₀.vfsInodeIdCount
  rw [hstart]
  decide

/-- From the initial counter on, the live nodes have identities of their own exactly where there is
none. -/
theorem node_ids_unique_iff {H : PathHash} {s₀ : VfsState}
    (hstart : s₀.vfsInodeIdCount = vfsInodeIdStart) {trace : List (Transition NodeRun VfsOp)}
    {s : NodeRun} (hrun : Run (NodeStep H) ⟨s₀, []⟩ trace s) :
    NodeIdsUnique s ↔ ∀ p n, ¬ LiveNode s p n := by
  have hend := nodes_depleted_run hstart hrun
  constructor
  · exact fun h p n hn => h.noError p n hn (hend.nodes p n hn)
  · exact fun h => ⟨fun p n hn => absurd hn (h p n), fun p q n n' hn => absurd hn (h p n)⟩

/-- An open that is served. -/
def bootOpenCall : OpenCall := ⟨256, 288, ⟨0, .file, 0, 0, 0, 0, 0⟩, ⟨0, 0, 0, 0, 0, 0⟩⟩

/-- A mount and an open leave two live nodes. -/
theorem two_nodes_run : ∃ trace s n n',
    Run (NodeStep zeroHash) ⟨bootState, []⟩ trace s ∧ LiveNode s 16 n ∧ LiveNode s 288 n' := by
  have hboth : ∃ r ∈ mountFat16 zeroHash bootCall bootPart rootPath 16 bootState, r.1 = 0 ∧
      ∃ t ∈ fat16SubOpenFile zeroHash bootOpenCall (fun _ => 0x00) rootPath 0 32 r.2, t.1 ≠ 0 ∧
        (t.2.deref nodeKind 16).isSome ∧ (t.2.deref nodeKind 288).isSome := by decide +kernel
  obtain ⟨r, hr, hzero, t, ht, hne, h16, h288⟩ := hboth
  obtain ⟨n, hn⟩ := Option.isSome_iff_exists.mp h16
  obtain ⟨n', hn'⟩ := Option.isSome_iff_exists.mp h288
  have hmount : NodeStep zeroHash ⟨bootState, []⟩ (.mount bootCall bootPart rootPath 16)
      ⟨r.2, [16]⟩ := ⟨r.1, hr, (if_pos hzero).symm⟩
  have hopen : NodeStep zeroHash ⟨r.2, [16]⟩ (.openFile bootOpenCall (fun _ => 0x00) rootPath 0 32)
      ⟨t.2, [288, 16]⟩ := by
    refine ⟨(t.1 : Int), ?_, (if_neg (by exact_mod_cast hne)).symm⟩
    show (fat16SubOpenFile zeroHash bootOpenCall _ rootPath 0 32 r.2).map _ = _
    rw [show fat16SubOpenFile zeroHash bootOpenCall _ rootPath 0 32 r.2 = some t from ht]
    rfl
  exact ⟨_, _, n, n', (Run.nil.snoc hmount).snoc hopen,
    ⟨by simp, VfsState.deref_iff.mp hn⟩, ⟨by simp, VfsState.deref_iff.mp hn'⟩⟩

/-- The two nodes have the same identity, which is the error. -/
theorem two_nodes_share_id : ∃ trace s n n',
    Run (NodeStep zeroHash) ⟨bootState, []⟩ trace s ∧ LiveNode s 16 n ∧ LiveNode s 288 n' ∧
      n.nodeId = depletedNodeId ∧ n'.nodeId = n.nodeId ∧ ¬ NodeIdsUnique s := by
  obtain ⟨trace, s, n, n', hrun, h16, h288⟩ := two_nodes_run
  have hend := nodes_depleted_run rfl hrun
  have hn := hend.nodes 16 n h16
  have hn' := hend.nodes 288 n' h288
  exact ⟨trace, s, n, n', hrun, h16, h288, hn, hn'.trans hn.symm, fun h => h.noError 16 n h16 hn⟩

/-- So the identities are not unique after the two calls. -/
theorem node_ids_unique_iff_two_nodes : ∃ trace s,
    Run (NodeStep zeroHash) ⟨bootState, []⟩ trace s ∧ ¬ NodeIdsUnique s := by
  obtain ⟨trace, s, n, n', hrun, h16, _⟩ := two_nodes_run
  exact ⟨trace, s, hrun, fun h => (node_ids_unique_iff rfl hrun).mp h 16 n h16⟩

end Genesis32
