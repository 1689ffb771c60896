import Genesis32.FileSyst.MountRuns

/-!
# Mounts that report an error

`mount_fat16` links the mount entry before it reads the boot sector, and its label `fail` frees the
entry without unlinking it; before that, `fail` frees two locals that may not be initialised. It
also frees the root node, which the caller has made. `mount_atomic_iff` says when a call that
reports an error nevertheless leaves everything as it was.
-/

namespace Genesis32

variable {H : PathHash} {s s' : VfsState} {ms cs : List Ptr} {call : MountCall}
  {part : PartitionRef} {path : List UInt8} {rNode : Ptr}

/-! ## From the link of the mount entry on -/

/-- The allocator serves the mount entry. -/
def MountCall.EntryServed (call : MountCall) (s : VfsState) : Prop :=
  call.mntTblE ≠ 0 ∧ s.object call.mntTblE = none

/-- A mount that has linked its entry reports an error: the boot sector cannot be read, or there is
no memory for the block, or the sector does not parse, or there is no root node. -/
def MountCall.FailsLinked (call : MountCall) (part : PartitionRef) (rNode : Ptr)
    (s : VfsState) : Prop :=
  call.readCode part < 0 ∨ ¬ (call.BlockServed s ∧ call.bpb ≠ call.mntTblE) ∨
    call.parsed part = none ∨ rNode = 0

/-- A mount under a new path whose entry is served links the entry. -/
theorem mount_fat16_linked (part : PartitionRef) (rNode : Ptr) (h : TableLists s ms cs)
    (hcount : s.cacheTableCount < maxOpenFileCount)
    (hhash : ∀ ct ∈ cs, ¬ HasHash s (H.generateHash path) ct) (hentry : call.EntryServed s) :
    ∃ s₂, mountFat16 H call part path rNode s =
        parsedMount call part (H.generateHash path) call.mntTblE (parsePartition call part s₂).1
          rNode (parsePartition call part s₂).2 ∧
      s₂.mountTableLast = call.mntTblE ∧
      ∀ x, s₂.object x = if x = call.mntTblE then
          some (.mountEntry { call.staleMntTblE with next := 0, prev := ms.getLastD 0 })
        else if x = ms.getLastD 0 then
          (s.deref mountKind.toObjectKind x).map fun e =>
            .mountEntry { e with next := call.mntTblE }
        else s.object x := by
  obtain ⟨hmt, hmtFree⟩ := hentry
  obtain ⟨heap₂, happend, hobject₂⟩ := link_mount_entry_ok h hmt hmtFree call.staleMntTblE
  refine ⟨{ allocated s call.mntTblE call.staleMntTblE with
    heap := heap₂
    mountTableStart := (ms ++ [call.mntTblE]).headD 0
    mountTableLast := call.mntTblE }, ?_, rfl, hobject₂⟩
  obtain ⟨taken, htaken, hiff⟩ := hash_taken_iff h (H.generateHash path)
  have hfalse : taken = false := by
    cases taken with
    | false => rfl
    | true =>
        obtain ⟨ct, hct, hhas⟩ := hiff.mp rfl
        exact absurd hhas (hhash ct hct)
  unfold mountFat16
  rw [if_neg (Nat.not_le.mpr hcount), htaken, hfalse]
  simp only [Option.bind_eq_bind, Option.bind_some, Bool.false_eq_true, if_false]
  unfold allocMount
  rw [heap_cream_malloc_ok hmt hmtFree]
  simp only
  rw [if_neg hmt]
  unfold linkMount
  show (appendEntry mountKind (allocated s call.mntTblE call.staleMntTblE) s.mountTableStart
    s.mountTableLast call.mntTblE >>= _) = _
  rw [happend]
  rfl

/-- What the state after the link says about the state before it. -/
theorem linked_object_inv {s₂ : VfsState} (h : TableLists s ms cs)
    (hobject : ∀ x, s₂.object x = if x = call.mntTblE then
        some (.mountEntry { call.staleMntTblE with next := 0, prev := ms.getLastD 0 })
      else if x = ms.getLastD 0 then
        (s.deref mountKind.toObjectKind x).map fun e => .mountEntry { e with next := call.mntTblE }
      else s.object x) (x : Ptr) :
    (s₂.object x = none ↔ x ≠ call.mntTblE ∧ s.object x = none) ∧
      ∀ n, s₂.object x = some (.vfsNode n) → s.object x = some (.vfsNode n) := by
  rw [hobject]
  split_ifs with hmt hlast
  · exact ⟨⟨nofun, fun hne => absurd hmt hne.1⟩, nofun⟩
  · rcases eq_or_ne ms [] with rfl | hms
    · rw [show x = 0 from hlast] at hmt ⊢
      exact ⟨⟨fun _ => ⟨hmt, rfl⟩, fun _ => rfl⟩, nofun⟩
    · obtain ⟨m, hm⟩ := exists_object h.mountList (hlast ▸ DoublyLinked.getLastD_mem hms)
      rw [show s.deref mountKind.toObjectKind x = some m from VfsState.deref_iff.mpr hm]
      refine ⟨⟨nofun, fun hne => ?_⟩, nofun⟩
      rw [hm] at hne
      cases hne.2
  · exact ⟨⟨fun hx => ⟨hmt, hx⟩, And.right⟩, fun _ hn => hn⟩

theorem mount_fail_mount_table_last (mt bpb rNode : Ptr) (s : VfsState) :
    (mountFail mt bpb rNode s).2.mountTableLast = s.mountTableLast := by
  simp [mountFail]

/-- A mount that links its entry reports an error, with the entry in the table, or has no result,
or is done. -/
theorem mount_fat16_linked_cases (part : PartitionRef) (rNode : Ptr) (h : TableLists s ms cs)
    (hcount : s.cacheTableCount < maxOpenFileCount)
    (hhash : ∀ ct ∈ cs, ¬ HasHash s (H.generateHash path) ct) (hentry : call.EntryServed s) :
    (call.FailsLinked part rNode s ∧ ∃ s', mountFat16 H call part path rNode s =
        some (-mountFailure, s') ∧ s'.mountTableLast = call.mntTblE) ∨
    (¬ call.FailsLinked part rNode s ∧ (mountFat16 H call part path rNode s = none ∨
      call.Served s ∧ (call.parsed part).isSome ∧ ∃ n, s.object rNode = some (.vfsNode n))) := by
  obtain ⟨s₂, hrun, hlast, hobject⟩ := mount_fat16_linked part rNode h hcount hhash hentry
  have hinv := linked_object_inv h hobject
  have hblock_iff : call.BlockServed s₂ ↔ call.BlockServed s ∧ call.bpb ≠ call.mntTblE := by
    unfold MountCall.BlockServed
    rw [(hinv call.bpb).1]
    tauto
  unfold MountCall.FailsLinked
  rw [← hblock_iff]
  rcases parse_partition_cases call part s₂ with
    ⟨hfail, s₃, hparse, hlast₃⟩ | ⟨hcode, hblock, b, hb, heap, given, freed, hparse, hobject₃⟩
  · -- no block: the label `fail` frees the entry and does not unlink it
    refine Or.inl ⟨?_, (mountFail call.mntTblE 0 rNode s₃).2, ?_,
      (mount_fail_mount_table_last call.mntTblE 0 rNode s₃).trans (hlast₃.trans hlast)⟩
    · rcases hfail with hcode | hunserved | hnone
      · exact Or.inl hcode
      · exact Or.inr (Or.inl hunserved)
      · exact Or.inr (Or.inr (Or.inl hnone))
    · rw [hrun, hparse]
      rfl
  rw [hparse, parsedMount, if_neg hblock.1] at hrun
  generalize hs₃ :
    ({ s₂ with heap := heap, given := given, freed := freed } : VfsState) = s₃ at hrun
  rcases eq_or_ne rNode 0 with hnull | hnull
  · -- no root node was given
    refine Or.inl ⟨Or.inr (Or.inr (Or.inr hnull)), (mountFail call.mntTblE call.bpb 0 s₃).2,
      hrun.trans (if_pos hnull), ?_⟩
    rw [mount_fail_mount_table_last, ← hs₃]
    exact hlast
  refine Or.inr ⟨?_, ?_⟩
  · rintro (hneg | hunserved | hnone | hzero)
    · exact hcode hneg
    · exact hunserved hblock
    · rw [hnone] at hb
      cases hb
    · exact hnull hzero
  rw [if_neg hnull] at hrun
  cases hfill : fillMount call part (H.generateHash path) call.mntTblE call.bpb rNode s₃ with
  | none => exact Or.inl (hrun.trans hfill)
  | some r =>
      have h₃ : ∀ x, s₃.object x = if x = call.bpb then some (.bpb b) else s₂.object x :=
        fun x => hs₃ ▸ hobject₃ x
      obtain ⟨_, ⟨n, hn⟩, hentry₃, hfree₃⟩ := fill_mount_inv hfill
      have hnode : s₂.object rNode = some (.vfsNode n) := by
        rw [h₃] at hn
        split_ifs at hn
        · cases hn
        · exact hn
      rw [h₃] at hfree₃
      split_ifs at hfree₃ with hne
      obtain ⟨hne', hfree⟩ := (hinv call.entry).1.mp hfree₃
      obtain ⟨hserved, happart⟩ := hblock_iff.mp hblock
      exact Or.inr ⟨⟨hentry, ⟨hserved.1, hserved.2.1, happart, hserved.2.2⟩, hentry₃, hfree, hne',
        hne⟩, Option.isSome_iff_exists.mpr ⟨b, hb⟩, n, (hinv rNode).2 n hnode⟩

/-! ## Atomic mounts -/

/-- An entry of a list, from its start pointer. -/
inductive VfsState.Reaches {ε : Type} (s : VfsState) (K : LinkKind ε) : Ptr → Ptr → Prop where
  | start {p : Ptr} (h : p ≠ 0) : s.Reaches K p p
  | next {p q : Ptr} {e : ε} (hp : s.object p = some (K.wrap e)) (h : s.Reaches K (K.next e) q) :
      s.Reaches K p q

/-- From `s` to `s'` the tables are exactly as they were, nothing that can be reached from them has
been freed, and only memory that was handed out in between has been passed to `heap_cream_free`. -/
structure Untouched (s s' : VfsState) : Prop where
  mountStart : s'.mountTableStart = s.mountTableStart
  mountLast : s'.mountTableLast = s.mountTableLast
  mountList : ∀ p, s.Reaches mountKind s.mountTableStart p → s'.object p = s.object p
  cacheStart : s'.cacheTableStart = s.cacheTableStart
  cacheLast : s'.cacheTableLast = s.cacheTableLast
  cacheList : ∀ p, s.Reaches cacheKind s.cacheTableStart p → s'.object p = s.object p
  count : s'.cacheTableCount = s.cacheTableCount
  frees : ∃ given freed, s'.given = s.given ++ given ∧ s'.freed = s.freed ++ freed ∧
    freed ⊆ given ∧ ∀ p ∈ freed, ¬ s.Reaches mountKind s.mountTableStart p ∧
      ¬ s.Reaches cacheKind s.cacheTableStart p

/-- A mount that reports an error leaves everything as it was. -/
def MountAtomic (H : PathHash) (call : MountCall) (part : PartitionRef) (path : List UInt8)
    (rNode : Ptr) (s : VfsState) : Prop :=
  ∀ r s', mountFat16 H call part path rNode s = some (r, s') → r < 0 → Untouched s s'

/-- The table is full; or the call fails before the link, with nothing to free: no root node, and
NULL in the locals that it frees uninitialised; or it links its entry and reports no error. -/
inductive AtomicWhen (H : PathHash) (cs : List Ptr) (call : MountCall) (part : PartitionRef)
    (path : List UInt8) (rNode : Ptr) (s : VfsState) : Prop where
  | full (hcount : s.cacheTableCount ≥ maxOpenFileCount)
  | taken (hcount : s.cacheTableCount < maxOpenFileCount)
      (hhash : ∃ ct ∈ cs, HasHash s (H.generateHash path) ct)
      (hlocals : call.garbageMntTblE = 0 ∧ call.garbageBpb = 0 ∧ rNode = 0)
  | noEntry (hcount : s.cacheTableCount < maxOpenFileCount)
      (hhash : ∀ ct ∈ cs, ¬ HasHash s (H.generateHash path) ct) (hentry : ¬ call.EntryServed s)
      (hlocals : call.garbageBpb = 0 ∧ rNode = 0)
  | linked (hcount : s.cacheTableCount < maxOpenFileCount)
      (hhash : ∀ ct ∈ cs, ¬ HasHash s (H.generateHash path) ct) (hentry : call.EntryServed s)
      (hok : ¬ call.FailsLinked part rNode s)

theorem untouched_refl (s : VfsState) : Untouched s s where
  mountStart := rfl
  mountLast := rfl
  mountList _ _ := rfl
  cacheStart := rfl
  cacheLast := rfl
  cacheList _ _ := rfl
  count := rfl
  frees := ⟨[], [], by simp, by simp, fun _ hp => hp, fun _ hp => absurd hp List.not_mem_nil⟩

theorem heap_cream_free_zero (s : VfsState) : s.heapCreamFree 0 = s := if_pos rfl

/-- What the label `fail` passes to `heap_cream_free`. -/
theorem mount_fail_freed (mt bpb rNode : Ptr) (s : VfsState) :
    (mountFail mt bpb rNode s).2.given = s.given ∧
      (mountFail mt bpb rNode s).2.freed = s.freed ++ [mt, bpb, rNode].filter (· ≠ 0) := by
  have hfree : ∀ (s : VfsState) (p : Ptr),
      (s.heapCreamFree p).freed = s.freed ++ [p].filter (· ≠ 0) := by
    intro s p
    rcases eq_or_ne p 0 with rfl | hp
    · rw [heap_cream_free_zero]
      simp
    · rw [heap_cream_free_ok hp, List.filter_cons_of_pos (by simpa using hp)]
      rfl
  refine ⟨by simp [mountFail], ?_⟩
  unfold mountFail
  rw [hfree, hfree, hfree, List.append_assoc, List.append_assoc, ← List.filter_append,
    ← List.filter_append]
  rfl

/-- A mount that frees something before it has allocated anything is not atomic. -/
theorem mount_fail_touched {mt bpb rNode : Ptr} {s : VfsState}
    (h : Untouched s (mountFail mt bpb rNode s).2) : mt = 0 ∧ bpb = 0 ∧ rNode = 0 := by
  obtain ⟨given, freed, hgiven, hfreed, hsub, _⟩ := h.frees
  obtain ⟨hsame, hfilter⟩ := mount_fail_freed mt bpb rNode s
  have hnil : given = [] := by
    rw [hsame] at hgiven
    exact (List.append_right_eq_self.mp hgiven.symm)
  rw [hfilter, List.append_cancel_left_eq] at hfreed
  rw [hnil] at hsub
  rw [List.subset_nil.mp hsub] at hfreed
  have hzero : ∀ p ∈ [mt, bpb, rNode], p = 0 := by
    intro p hp
    by_contra hne
    have hmem : p ∈ [mt, bpb, rNode].filter (· ≠ 0) :=
      List.mem_filter.mpr ⟨hp, by simpa using hne⟩
    rw [hfreed] at hmem
    exact absurd hmem List.not_mem_nil
  exact ⟨hzero mt (by simp), hzero bpb (by simp), hzero rNode (by simp)⟩

/-- In a state with whole tables a mount is atomic exactly under the condition. -/
theorem mount_atomic_lists (h : TableLists s ms cs) :
    MountAtomic H call part path rNode s ↔ AtomicWhen H cs call part path rNode s := by
  unfold MountAtomic
  by_cases hfull : s.cacheTableCount ≥ maxOpenFileCount
  · refine ⟨fun _ => .full hfull, fun _ r s' hrun _ => ?_⟩
    unfold mountFat16 at hrun
    rw [if_pos hfull] at hrun
    obtain ⟨_, rfl⟩ := Prod.mk.inj (Option.some.inj hrun)
    exact untouched_refl s
  have hcount := Nat.lt_of_not_le hfull
  by_cases hhash : ∃ ct ∈ cs, HasHash s (H.generateHash path) ct
  · obtain ⟨g, hrun, hg⟩ := mount_fails_early part rNode h hcount (Or.inl hhash)
    have hgarbage : g = call.garbageMntTblE := by
      rcases hg with ⟨_, hg⟩ | ⟨hfree, _⟩
      · exact hg
      · obtain ⟨ct, hct, hhas⟩ := hhash
        exact absurd hhas (hfree ct hct)
    rw [hgarbage] at hrun
    constructor
    · intro hatomic
      exact .taken hcount hhash (mount_fail_touched (hatomic _ _ hrun (by decide)))
    · intro hwhen r s' hrun' _
      cases hwhen with
      | full hcount' => exact absurd hcount' hfull
      | taken _ _ hlocals =>
          obtain ⟨hmt, hbpb, hnode⟩ := hlocals
          rw [hrun, hmt, hbpb, hnode] at hrun'
          obtain ⟨_, rfl⟩ := Prod.mk.inj (Option.some.inj hrun')
          rw [heap_cream_free_zero, heap_cream_free_zero, heap_cream_free_zero]
          exact untouched_refl s
      | noEntry _ hfree _ _ =>
          obtain ⟨ct, hct, hhas⟩ := hhash
          exact absurd hhas (hfree ct hct)
      | linked _ hfree _ _ =>
          obtain ⟨ct, hct, hhas⟩ := hhash
          exact absurd hhas (hfree ct hct)
  have hfree : ∀ ct ∈ cs, ¬ HasHash s (H.generateHash path) ct :=
    fun ct hct hhas => hhash ⟨ct, hct, hhas⟩
  by_cases hentry : call.EntryServed s
  · rcases mount_fat16_linked_cases part rNode h hcount hfree hentry with
      ⟨hfails, t, hrun, hlast⟩ | ⟨hok, hdone⟩
    · -- the freed entry is the last of the table, where another one or none was before
      refine ⟨fun hatomic => ?_, fun hwhen => ?_⟩
      · have hmountLast := (hatomic _ _ hrun (by decide)).mountLast
        rw [hlast, h.mountLast] at hmountLast
        exact absurd hmountLast (ne_getLastD_of_free h.mountList hentry.1 hentry.2)
      · cases hwhen with
        | full hcount' => exact absurd hcount' hfull
        | taken _ htaken _ => exact absurd htaken hhash
        | noEntry _ _ hentry' _ => exact absurd hentry hentry'
        | linked _ _ _ hok => exact absurd hfails hok
    · refine ⟨fun _ => .linked hcount hfree hentry hok, fun _ r s' hrun hneg => ?_⟩
      rcases hdone with hnone | ⟨hserved, hparsed, hnode⟩
      · rw [hnone] at hrun
        cases hrun
      · obtain ⟨t, hrun', _⟩ := mount_fat16_ok h hcount hfree hserved hparsed hnode
        rw [hrun'] at hrun
        obtain ⟨rfl, _⟩ := Prod.mk.inj (Option.some.inj hrun)
        exact absurd hneg (lt_irrefl _)
  · -- the entry is not served: the block pointer and the node are freed, whatever they are
    obtain ⟨g, hrun, hg⟩ := mount_fails_early part rNode h hcount (Or.inr ⟨hfree, hentry⟩)
    have hgarbage : g = 0 := by
      rcases hg with ⟨htaken, _⟩ | ⟨_, hg⟩
      · exact absurd htaken hhash
      · exact hg
    rw [hgarbage] at hrun
    constructor
    · intro hatomic
      exact .noEntry hcount hfree hentry (mount_fail_touched (hatomic _ _ hrun (by decide))).2
    · intro hwhen r s' hrun' _
      cases hwhen with
      | full hcount' => exact absurd hcount' hfull
      | taken _ htaken _ => exact absurd htaken hhash
      | noEntry _ _ _ hlocals =>
          rw [hrun, hlocals.1, hlocals.2] at hrun'
          obtain ⟨_, rfl⟩ := Prod.mk.inj (Option.some.inj hrun')
          rw [heap_cream_free_zero, heap_cream_free_zero, heap_cream_free_zero]
          exact untouched_refl s
      | linked _ _ hentry' _ => exact absurd hentry' hentry

/-- In every state that sound steps reach from empty tables, every mount that reports an error
leaves everything as it was exactly if the table is full, or it fails with nothing to free before
it links its entry, or it links its entry and reports no error. -/
theorem mount_atomic_iff {s₀ : VfsState} (hempty : s₀.TablesEmpty)
    {trace : List (Transition TableRun VfsOp)} {s : TableRun}
    (hrun : Run (VfsStep H) ⟨s₀, []⟩ trace s)
    (hsound : ∀ x ∈ trace, x.event.Sound H x.before) (call : MountCall) (part : PartitionRef)
    (path : List UInt8) (rNode : Ptr) :
    MountAtomic H call part path rNode s.vfs ↔
      AtomicWhen H s.present call part path rNode s.vfs := by
  obtain ⟨ms, h⟩ := tables_ok_run hempty hrun hsound
  exact mount_atomic_lists h.toTableLists

/-- A mount of a partition whose first sector is zero. -/
def zeroSectorCall : MountCall := { bootCall with ports := fun n => if n < 6 then 0x08 else 0 }

theorem zero_sector_parsed : zeroSectorCall.parsed bootPart = none := by decide +kernel

/-- On empty tables, a partition that does not parse leaves `mount_table_last` at a mount entry that
has been freed. -/
theorem mount_zero_sector_touches :
    ¬ ∀ (trace : List (Transition TableRun VfsOp)) (s : TableRun),
      Run (VfsStep zeroHash) ⟨bootState, []⟩ trace s →
        ∀ call part path rNode, MountAtomic zeroHash call part path rNode s.vfs := by
  intro h
  have hatomic := h [] _ .nil zeroSectorCall bootPart rootPath 16
  have hserved := boot_call_served
  cases (mount_atomic_lists (tables_ok_empty boot_state_empty).toTableLists).mp hatomic with
  | full hcount => exact absurd hcount (by decide)
  | taken _ hhash _ =>
      obtain ⟨ct, hct, _⟩ := hhash
      cases hct
  | noEntry _ _ hentry _ => exact hentry hserved.mntTblE
  | linked _ _ _ hok =>
      exact hok (Or.inr (Or.inr (Or.inl zero_sector_parsed)))

/-- After a first mount, mounting its path again is not atomic: the root node is freed. -/
theorem mount_atomic_iff_first_mount : ∃ s,
    ¬ MountAtomic zeroHash bootCall bootPart rootPath 16 s := by
  obtain ⟨s, hrun, hmounted⟩ := boot_run
  have hhash : HasHash s (zeroHash.generateHash rootPath) 128 := by
    obtain ⟨flags, hentry⟩ := hmounted.entry
    exact ⟨_, hentry, rfl⟩
  have hcount : s.cacheTableCount = 1 := hmounted.count
  refine ⟨s, fun hatomic => ?_⟩
  have hiff := mount_atomic_iff boot_state_empty hrun
    (fun x hx => by obtain rfl := List.mem_singleton.mp hx; exact boot_sound)
    bootCall bootPart rootPath 16
  cases hiff.mp hatomic with
  | full hfull =>
      rw [hcount] at hfull
      exact absurd hfull (by decide)
  | taken _ _ hlocals => exact absurd hlocals.2.2 (by decide)
  | noEntry _ hfree _ _ => exact hfree 128 (by simp) hhash
  | linked _ hfree _ _ => exact hfree 128 (by simp) hhash

end Genesis32
