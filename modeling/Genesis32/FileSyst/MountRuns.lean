import Genesis32.Library.Transition
import Genesis32.FileSyst.MountInv

/-!
# Runs of the four operations

A run starts from empty tables and takes mounts, unmounts, opens and closes in any order; between
them the caller may make nodes. It carries the list of the cache entries that have been inserted and
not yet removed. `TableChange` says once what a step can do to the tables, and every invariant of
the runs is derived from it.
-/

namespace Genesis32

open Word

/-- The tables with the cache entries that have been inserted and not yet removed. -/
structure TableRun where
  vfs : VfsState
  present : List Ptr

/-- A call of one of the four operations, or the making of a node by the caller. -/
inductive VfsOp where
  | mount (call : MountCall) (part : PartitionRef) (path : List UInt8) (rNode : Ptr)
  | umount (path : List UInt8)
  | openFile (call : OpenCall) (dirEnt : ByteMem) (path : List UInt8) (offset : Nat)
      (origin : Ptr)
  | close (ct : Ptr)
  | makeNode (offer : Ptr) (n : VfsNode)

namespace VfsOp

/-- The return value of a call and the state it leaves, if it has a result. -/
def exec (H : PathHash) : VfsOp → VfsState → Option (Int × VfsState)
  | mount call part path rNode, s => mountFat16 H call part path rNode s
  | umount path, s => umountFat16 H path s
  | openFile call dirEnt path offset origin, s =>
      (fat16SubOpenFile H call dirEnt path offset origin s).map fun r => ((r.1 : Int), r.2)
  | close ct, s => fat16SubCloseFile ct s
  | makeNode offer n, s => some ((s.heapCreamMalloc offer (.vfsNode n)).1,
      (s.heapCreamMalloc offer (.vfsNode n)).2)

/-- The entries that are present after a call that returns `r`. -/
def presentAfter (H : PathHash) (s : VfsState) (r : Int) (present : List Ptr) :
    VfsOp → List Ptr
  | mount call _ _ _ => if r = 0 then present ++ [call.entry] else present
  | umount path =>
      if r = 0 then
        present.erase
          ((s.lastWithHash (H.generateHash path) s.rounds s.cacheTableStart 0).getD 0)
      else present
  | openFile call _ _ _ _ => if r = 0 then present else present ++ [call.ct]
  | close ct => if r = 0 then present.erase ct else present
  | makeNode _ _ => present

end VfsOp

/-- A step of a run. -/
def VfsStep (H : PathHash) (s : TableRun) (op : VfsOp) (s' : TableRun) : Prop :=
  ∃ r, op.exec H s.vfs = some (r, s'.vfs) ∧ s'.present = op.presentAfter H s.vfs r s.present

/-- No file system is mounted and no file is open. -/
structure VfsState.TablesEmpty (s : VfsState) : Prop where
  mountStart : s.mountTableStart = 0
  mountLast : s.mountTableLast = 0
  cacheStart : s.cacheTableStart = 0
  cacheLast : s.cacheTableLast = 0
  count : s.cacheTableCount = 0

theorem tables_ok_empty {s : VfsState} (h : s.TablesEmpty) : TablesOk s [] [] where
  mountList := .nil
  mountStart := h.mountStart
  mountLast := h.mountLast
  cacheList := .nil
  cacheStart := h.cacheStart
  cacheLast := h.cacheLast
  entries _ hct := by cases hct
  mounts _ hmt := by cases hmt
  blocks _ hmt := by cases hmt
  count := h.count
  few := by simp

/-! ## The calls that keep the tables whole -/

/-- A mount that leaves the tables whole: the table is full; or the objects it leaves behind are
allocated, the boot sector parses, and the root node is a live node that no entry uses; or the mount
fails before it links anything, the locals that it then frees uninitialised are NULL, and no entry
uses the root node. A root node that two mounts share would do for the mount itself, but the first
unmount frees it and the second one frees whatever is there by then. -/
inductive MountSound (H : PathHash) (s : TableRun) (call : MountCall) (part : PartitionRef)
    (path : List UInt8) (rNode : Ptr) : Prop where
  | full (hcount : s.vfs.cacheTableCount ≥ maxOpenFileCount)
  | succeeds (hcount : s.vfs.cacheTableCount < maxOpenFileCount)
      (hhash : ∀ ct ∈ s.present, ¬ HasHash s.vfs (H.generateHash path) ct)
      (hserved : call.Served s.vfs) (hparsed : (call.parsed part).isSome)
      (hnode : ∃ n, s.vfs.object rNode = some (.vfsNode n))
      (hunused : NodeUnused s.vfs s.present rNode)
  | failsEarly (hcount : s.vfs.cacheTableCount < maxOpenFileCount)
      (hfails : (∃ ct ∈ s.present, HasHash s.vfs (H.generateHash path) ct) ∧
          call.garbageMntTblE = 0 ∨
        (∀ ct ∈ s.present, ¬ HasHash s.vfs (H.generateHash path) ct) ∧
          ¬ (call.mntTblE ≠ 0 ∧ s.vfs.object call.mntTblE = none))
      (hgarbage : call.garbageBpb = 0) (hspare : Spare s.vfs s.present rNode)

/-- A call that leaves the tables whole if it has a result: a mount is sound, only entries that are
present are closed, and the entry that an unmount finds is a mount point. -/
def VfsOp.Sound (H : PathHash) (s : TableRun) : VfsOp → Prop
  | mount call part path rNode => MountSound H s call part path rNode
  | umount path => ∀ ct e, IsLastWith s.vfs (H.generateHash path) s.present ct →
      s.vfs.object ct = some (.cacheEntry e) → e.contentType = .mountPnt
  | close ct => ct = 0 ∨ ct ∈ s.present
  | openFile _ _ _ _ _ => True
  | makeNode _ _ => True

/-- What a step can do to the mount table `ms` and the cache table: change an object that no entry
uses, or one of the four changes of the tables. -/
inductive TableChange (H : PathHash) (s s' : TableRun) (ms : List Ptr) :
    VfsOp → List Ptr → Prop where
  | framed {op : VfsOp} {p : Ptr} (hframe : Framed s.vfs s'.vfs p)
      (hspare : Spare s.vfs s.present p) (hpresent : s'.present = s.present) :
      TableChange H s s' ms op ms
  | mounted {call : MountCall} {part : PartitionRef} {path : List UInt8} {rNode : Ptr}
      (hmounted : Mounted s.vfs s'.vfs ms s.present call part (H.generateHash path) rNode)
      (hunused : NodeUnused s.vfs s.present rNode)
      (hcount : s.vfs.cacheTableCount < maxOpenFileCount)
      (hpresent : s'.present = s.present ++ [call.entry]) :
      TableChange H s s' ms (.mount call part path rNode) (ms ++ [call.mntTblE])
  | opened {call : OpenCall} {dirEnt : ByteMem} {path : List UInt8} {offset : Nat} {origin : Ptr}
      {hashValue : UInt64} (hopened : Opened s.vfs s'.vfs s.present call hashValue origin)
      (hcs : s.present ≠ []) (hct : call.ct ≠ 0)
      (hpresent : s'.present = s.present ++ [call.ct]) :
      TableChange H s s' ms (.openFile call dirEnt path offset origin) ms
  | closed {xs ys : List Ptr} {ct : Ptr} {e : CacheTableEntry} (hsplit : s.present = xs ++ ct :: ys)
      (hentry : s.vfs.object ct = some (.cacheEntry e)) (hkind : e.contentType ≠ .mountPnt)
      (hxs : xs ≠ []) (hys : ys ≠ []) (hclosed : Closed s.vfs s'.vfs xs ys ct e.content)
      (hpresent : s'.present = xs ++ ys) :
      TableChange H s s' ms (.close ct) ms
  | unmounted {path : List UInt8} {us vs xs ys : List Ptr} {ct : Ptr} {e : CacheTableEntry}
      {m : MountTableEntry}
      (hfound : IsLastWith s.vfs (H.generateHash path) s.present ct)
      (hsplit : s.present = xs ++ ct :: ys)
      (hmounts : ms = us ++ e.content :: vs)
      (hbetween : Unmounted.Between s.vfs us vs xs ys ct e m)
      (hunmounted : Unmounted s.vfs s'.vfs us vs xs ys ct e.content m)
      (hpresent : s'.present = xs ++ ys) :
      TableChange H s s' ms (.umount path) (us ++ vs)

/-- The state after a mount that fails before it links anything. -/
theorem mount_fails_early {H : PathHash} {s : VfsState} {ms cs : List Ptr} {call : MountCall}
    (part : PartitionRef) {path : List UInt8} (rNode : Ptr) (h : TableLists s ms cs)
    (hcount : s.cacheTableCount < maxOpenFileCount)
    (hfails : (∃ ct ∈ cs, HasHash s (H.generateHash path) ct) ∨
      (∀ ct ∈ cs, ¬ HasHash s (H.generateHash path) ct) ∧
        ¬ (call.mntTblE ≠ 0 ∧ s.object call.mntTblE = none)) :
    ∃ g, mountFat16 H call part path rNode s = some (mountFail g call.garbageBpb rNode s) ∧
      ((∃ ct ∈ cs, HasHash s (H.generateHash path) ct) ∧ g = call.garbageMntTblE ∨
        (∀ ct ∈ cs, ¬ HasHash s (H.generateHash path) ct) ∧ g = 0) := by
  obtain ⟨taken, htaken, hiff⟩ := hash_taken_iff h (H.generateHash path)
  have hrun : mountFat16 H call part path rNode s =
      if taken then some (mountFail call.garbageMntTblE call.garbageBpb rNode s)
      else allocMount call part (H.generateHash path) rNode s := by
    unfold mountFat16
    rw [if_neg (Nat.not_le.mpr hcount), htaken]
    rfl
  rcases hfails with htaken' | ⟨hfree, hfails⟩
  · rw [hrun, hiff.mpr htaken', if_pos rfl]
    exact ⟨_, rfl, Or.inl ⟨htaken', rfl⟩⟩
  · have hfalse : taken = false := by
      cases taken with
      | false => rfl
      | true =>
          obtain ⟨ct, hct, hhas⟩ := hiff.mp rfl
          exact absurd hhas (hfree ct hct)
    rw [hrun, hfalse, if_neg (by decide)]
    unfold allocMount
    rcases VfsState.heap_cream_malloc_cases s call.mntTblE (.mountEntry call.staleMntTblE) with
      ⟨hmalloc, _⟩ | ⟨_, hok, hok'⟩
    · rw [hmalloc]
      exact ⟨0, rfl, Or.inr ⟨hfree, rfl⟩⟩
    · exact absurd ⟨hok, hok'⟩ hfails

/-- Freeing one object changes no global of the tables. -/
theorem framed_free (s : VfsState) (p : Ptr) : Framed s (s.heapCreamFree p) p where
  same x hx := by rw [VfsState.object_free, if_neg hx]
  mountStart := VfsState.free_mount_table_start s p
  mountLast := VfsState.free_mount_table_last s p
  cacheStart := VfsState.free_cache_table_start s p
  cacheLast := VfsState.free_cache_table_last s p
  count := VfsState.free_cache_table_count s p

theorem framed_refl (s : VfsState) (p : Ptr) : Framed s s p :=
  ⟨fun _ _ => rfl, rfl, rfl, rfl, rfl, rfl⟩

theorem spare_zero (s : VfsState) (cs : List Ptr) : Spare s cs 0 :=
  Or.inl (VfsState.object_zero s)

theorem mount_change {H : PathHash} {s s' : TableRun} {ms : List Ptr} {call : MountCall}
    {part : PartitionRef} {path : List UInt8} {rNode : Ptr} (h : TablesOk s.vfs ms s.present)
    (hsound : MountSound H s call part path rNode)
    (hstep : VfsStep H s (.mount call part path rNode) s') :
    ∃ ms', TableChange H s s' ms (.mount call part path rNode) ms' := by
  obtain ⟨r, hexec, hpresent⟩ := hstep
  simp only [VfsOp.exec] at hexec
  simp only [VfsOp.presentAfter] at hpresent
  have hneg : ∀ r : Int, r < 0 → ¬ r = 0 := by omega
  cases hsound with
  | full hcount =>
      unfold mountFat16 at hexec
      rw [if_pos hcount] at hexec
      obtain ⟨hr, hs⟩ := Prod.mk.inj (Option.some.inj hexec)
      rw [← hr, if_neg (hneg _ (by decide))] at hpresent
      exact ⟨ms, .framed (hs ▸ framed_refl s.vfs 0) (spare_zero _ _) hpresent⟩
  | succeeds hcount hhash hserved hparsed hnode hunused =>
      obtain ⟨t, hrun, hmounted⟩ :=
        mount_fat16_ok h.toTableLists hcount hhash hserved hparsed hnode
      rw [hrun] at hexec
      obtain ⟨hr, hs⟩ := Prod.mk.inj (Option.some.inj hexec)
      rw [← hr, if_pos rfl] at hpresent
      exact ⟨_, .mounted (hs ▸ hmounted) hunused hcount hpresent⟩
  | failsEarly hcount hfails hgarbage hspare =>
      obtain ⟨g, hrun, hg⟩ := mount_fails_early part rNode h.toTableLists hcount
        (hfails.imp And.left id)
      -- only `rNode` is freed, and by the condition nothing of the tables is there
      have hzero : g = 0 := by
        rcases hg with ⟨⟨ct, hct, hhas⟩, hg⟩ | ⟨_, hg⟩
        · rcases hfails with ⟨_, hmnt⟩ | ⟨hfree, _⟩
          · rw [hg, hmnt]
          · exact absurd hhas (hfree ct hct)
        · exact hg
      rw [hrun, hzero, hgarbage] at hexec
      obtain ⟨hr, hs⟩ := Prod.mk.inj (Option.some.inj hexec)
      rw [← hr, if_neg (hneg _ (by decide))] at hpresent
      exact ⟨ms, .framed (hs ▸ framed_free s.vfs rNode) hspare hpresent⟩

theorem erase_split {xs ys : List Ptr} {ct : Ptr} (h : ct ∉ xs) :
    (xs ++ ct :: ys).erase ct = xs ++ ys := by
  rw [List.erase_append_right _ h, List.erase_cons_head]

theorem not_mem_before {K : LinkKind CacheTableEntry} {s : VfsState} {xs ys : List Ptr} {ct : Ptr}
    (h : DoublyLinked 0 (s.links K) (xs ++ ct :: ys)) : ct ∉ xs :=
  fun hmem => (List.nodup_append.mp h.nodup).2.2 ct hmem ct List.mem_cons_self rfl

theorem umount_change {H : PathHash} {s s' : TableRun} {ms : List Ptr} {path : List UInt8}
    (h : TablesOk s.vfs ms s.present) (hsound : (VfsOp.umount path).Sound H s)
    (hstep : VfsStep H s (.umount path) s') : ∃ ms', TableChange H s s' ms (.umount path) ms' := by
  obtain ⟨r, hexec, hpresent⟩ := hstep
  simp only [VfsOp.exec] at hexec
  simp only [VfsOp.presentAfter] at hpresent
  have hneg : ∀ r : Int, r < 0 → ¬ r = 0 := by omega
  rcases last_with_hash_cases h.toTableLists (H.generateHash path) with
    ⟨hlookup, _⟩ | ⟨ct, hlookup, hfound⟩
  · unfold umountFat16 at hexec
    rw [hlookup] at hexec
    simp only [Option.bind_eq_bind, Option.bind_some, if_true] at hexec
    obtain ⟨hr, hs⟩ := Prod.mk.inj (Option.some.inj hexec)
    rw [← hr, if_neg (hneg _ (by decide))] at hpresent
    exact ⟨ms, .framed (hs ▸ framed_refl s.vfs 0) (spare_zero _ _) hpresent⟩
  · obtain ⟨xs, ys, hsplit⟩ := List.append_of_mem hfound.mem
    obtain ⟨e, he⟩ := exists_object h.cacheList hfound.mem
    have hkind := hsound ct e hfound he
    obtain ⟨e', he', hrefs, _⟩ := h.entries ct hfound.mem
    rw [show s.vfs.object ct = some (.cacheEntry e) from he] at he'
    cases he'
    obtain ⟨hmem, m, hm, _⟩ := h.entry_mount hfound.mem he hkind
    obtain ⟨us, vs, hmounts⟩ := List.append_of_mem hmem
    obtain ⟨_, _, n, b, _, _, _, hn, _, hb⟩ := h.mount_entry hmem hm
    have hct := VfsState.ne_zero_of_object he
    unfold umountFat16 at hexec
    rw [hlookup] at hexec
    simp only [Option.bind_eq_bind, Option.bind_some, if_neg hct] at hexec
    rw [show s.vfs.deref cacheKind.toObjectKind ct = some e from VfsState.deref_iff.mpr he] at hexec
    simp only [Option.bind_some, if_neg (VfsState.ne_zero_of_object hm)] at hexec
    rw [if_neg (by omega)] at hexec
    have hcache : DoublyLinked 0 (s.vfs.links cacheKind) (xs ++ ct :: ys) := hsplit ▸ h.cacheList
    -- the call has a result, so the entry is at no end of the cache table
    have hends : ¬ (xs = [] ∨ ys = []) := by
      intro hend
      rw [umount_entry_null hcache he hend] at hexec
      cases hexec
    push Not at hends
    rcases umount_entry_ok hcache hends.1 hends.2 he (hmounts ▸ h.mountList) hm hb hn with
      ⟨_, hnone⟩ | ⟨hus, hvs, t, hrun, hunmounted⟩
    · rw [hnone] at hexec
      cases hexec
    · rw [hrun] at hexec
      obtain ⟨hr, hs⟩ := Prod.mk.inj (Option.some.inj hexec)
      rw [← hr, if_pos rfl, hlookup, Option.getD_some, hsplit,
        erase_split (not_mem_before hcache)] at hpresent
      exact ⟨_, .unmounted hfound hsplit hmounts
        ⟨by rw [← hsplit, ← hmounts]; exact h, he, hkind, hm, hends.1, hends.2, hus, hvs⟩
        (hs ▸ hunmounted) hpresent⟩

theorem open_change {H : PathHash} {s s' : TableRun} {ms : List Ptr} {call : OpenCall}
    {dirEnt : ByteMem} {path : List UInt8} {offset : Nat} {origin : Ptr}
    (h : TablesOk s.vfs ms s.present)
    (hstep : VfsStep H s (.openFile call dirEnt path offset origin) s') :
    ∃ ms', TableChange H s s' ms (.openFile call dirEnt path offset origin) ms' := by
  obtain ⟨r, hexec, hpresent⟩ := hstep
  simp only [VfsOp.exec] at hexec
  simp only [VfsOp.presentAfter] at hpresent
  rcases fat16_sub_open_file_cases H call dirEnt path offset origin h.toTableLists with
    ⟨t, hrun, hsame, hrest⟩ | ⟨_, hrun⟩ | ⟨hcs, hct, t, hrun, hopened⟩
  · rw [hrun, Option.map_some] at hexec
    obtain ⟨hr, hs⟩ := Prod.mk.inj (Option.some.inj hexec)
    rw [← hr, if_pos (show ((0 : Ptr) : Int) = 0 from rfl)] at hpresent
    subst hs
    exact ⟨ms, .framed ⟨fun x _ => hsame x, hrest.1, hrest.2.1, hrest.2.2.1, hrest.2.2.2.1,
      hrest.2.2.2.2⟩ (spare_zero _ _) hpresent⟩
  · rw [hrun] at hexec
    cases hexec
  · rw [hrun, Option.map_some] at hexec
    obtain ⟨hr, hs⟩ := Prod.mk.inj (Option.some.inj hexec)
    rw [← hr, if_neg (by simpa using hct)] at hpresent
    subst hs
    exact ⟨ms, .opened hopened hcs hct hpresent⟩

theorem close_change {H : PathHash} {s s' : TableRun} {ms : List Ptr} {ct : Ptr}
    (h : TablesOk s.vfs ms s.present) (hsound : (VfsOp.close ct).Sound H s)
    (hstep : VfsStep H s (.close ct) s') : ∃ ms', TableChange H s s' ms (.close ct) ms' := by
  obtain ⟨r, hexec, hpresent⟩ := hstep
  simp only [VfsOp.exec] at hexec
  simp only [VfsOp.presentAfter] at hpresent
  have hneg : ∀ r : Int, r < 0 → ¬ r = 0 := by omega
  rcases hsound with rfl | hmem
  · unfold fat16SubCloseFile at hexec
    rw [if_pos rfl] at hexec
    obtain ⟨hr, hs⟩ := Prod.mk.inj (Option.some.inj hexec)
    rw [← hr, if_neg (hneg _ (by decide))] at hpresent
    exact ⟨ms, .framed (hs ▸ framed_refl s.vfs 0) (spare_zero _ _) hpresent⟩
  · obtain ⟨xs, ys, hsplit⟩ := List.append_of_mem hmem
    obtain ⟨e, he⟩ := exists_object h.cacheList hmem
    have hcache : DoublyLinked 0 (s.vfs.links cacheKind) (xs ++ ct :: ys) := hsplit ▸ h.cacheList
    obtain ⟨n, hn⟩ : ∃ n, e.contentType ≠ .mountPnt →
        s.vfs.object e.content = some (.vfsNode n) := by
      by_cases hkind : e.contentType = .mountPnt
      · exact ⟨⟨0, 0, 0, 0, 0, 0⟩, fun hne => absurd hkind hne⟩
      · obtain ⟨n, hn, _⟩ := h.entry_node hmem he hkind
        exact ⟨n, fun _ => hn⟩
    rcases fat16_sub_close_file_cases hcache he hn with
      ⟨_, r', hr', hrun⟩ | ⟨_, _, hrun⟩ | ⟨hkind, hxs, hys, t, hrun, hclosed⟩
    · rw [hrun] at hexec
      obtain ⟨hr, hs⟩ := Prod.mk.inj (Option.some.inj hexec)
      rw [← hr, if_neg (hneg _ hr')] at hpresent
      exact ⟨ms, .framed (hs ▸ framed_refl s.vfs 0) (spare_zero _ _) hpresent⟩
    · rw [hrun] at hexec
      cases hexec
    · rw [hrun] at hexec
      obtain ⟨hr, hs⟩ := Prod.mk.inj (Option.some.inj hexec)
      rw [← hr, if_pos rfl, hsplit, erase_split (not_mem_before hcache)] at hpresent
      exact ⟨ms, .closed hsplit he hkind hxs hys (hs ▸ hclosed) hpresent⟩

theorem make_node_change {H : PathHash} {s s' : TableRun} {ms : List Ptr} {offer : Ptr}
    {n : VfsNode} (hstep : VfsStep H s (.makeNode offer n) s') :
    ∃ ms', TableChange H s s' ms (.makeNode offer n) ms' := by
  obtain ⟨r, hexec, hpresent⟩ := hstep
  simp only [VfsOp.exec] at hexec
  simp only [VfsOp.presentAfter] at hpresent
  obtain ⟨_, hs⟩ := Prod.mk.inj (Option.some.inj hexec)
  rcases VfsState.heap_cream_malloc_cases s.vfs offer (.vfsNode n) with
    ⟨hmalloc, _⟩ | ⟨hmalloc, hoffer, hfree⟩
  · rw [hmalloc] at hs
    exact ⟨ms, .framed (hs ▸ framed_refl s.vfs 0) (spare_zero _ _) hpresent⟩
  · rw [hmalloc] at hs
    refine ⟨ms, .framed (hs ▸ ⟨fun x hx => ?_, rfl, rfl, rfl, rfl, rfl⟩) (Or.inl hfree)
      hpresent⟩
    exact (VfsState.object_put hoffer _ x).trans (if_neg hx)

/-- What a sound step does to the tables. -/
theorem table_change {H : PathHash} {s s' : TableRun} {ms : List Ptr} {op : VfsOp}
    (h : TablesOk s.vfs ms s.present) (hsound : op.Sound H s) (hstep : VfsStep H s op s') :
    ∃ ms', TableChange H s s' ms op ms' := by
  cases op with
  | mount call part path rNode => exact mount_change h hsound hstep
  | umount path => exact umount_change h hsound hstep
  | openFile call dirEnt path offset origin => exact open_change h hstep
  | close ct => exact close_change h hsound hstep
  | makeNode offer n => exact make_node_change hstep

/-- Every change keeps the invariant. -/
theorem TableChange.tablesOk {H : PathHash} {s s' : TableRun} {ms ms' : List Ptr} {op : VfsOp}
    (hchange : TableChange H s s' ms op ms') (h : TablesOk s.vfs ms s.present) :
    TablesOk s'.vfs ms' s'.present := by
  cases hchange with
  | framed hframe hspare hpresent => rw [hpresent]; exact hframe.tablesOk h hspare
  | mounted hmounted hunused hcount hpresent =>
      rw [hpresent]
      exact hmounted.tablesOk h hunused hcount
  | opened hopened hcs _ hpresent => rw [hpresent]; exact hopened.tablesOk h hcs
  | closed hsplit hentry hkind hxs hys hclosed hpresent =>
      rw [hpresent]
      rw [hsplit] at h
      exact hclosed.tablesOk h hentry hkind hxs hys
  | unmounted _ _ _ hbetween hunmounted hpresent =>
      rw [hpresent]
      exact hunmounted.tablesOk hbetween

/-- The tables are whole for some mount table. -/
def TablesWhole (s : TableRun) : Prop := ∃ ms, TablesOk s.vfs ms s.present

/-- In every run of sound steps from empty tables the tables are whole. -/
theorem tables_ok_run {H : PathHash} {s₀ : VfsState} (hempty : s₀.TablesEmpty)
    {trace : List (Transition TableRun VfsOp)} {s : TableRun}
    (hrun : Run (VfsStep H) ⟨s₀, []⟩ trace s)
    (hsound : ∀ x ∈ trace, x.event.Sound H x.before) : TablesWhole s := by
  have hstep : ∀ s op s', TablesWhole s → VfsStep H s op s' ∧ op.Sound H s → TablesWhole s' := by
    rintro s op s' ⟨ms, h⟩ ⟨hstep, hop⟩
    obtain ⟨ms', hchange⟩ := table_change h hop hstep
    exact ⟨ms', hchange.tablesOk h⟩
  exact (hrun.guarded hsound).invariant hstep ⟨[], tables_ok_empty hempty⟩

/-! ## The mount that was made last -/

/-- The entry of the mount that was made last is the last of the cache table, so unmounting its path
writes through the NULL that comes after it. -/
theorem umount_last_mounted {H : PathHash} {s s' : VfsState} {ms cs : List Ptr}
    {call : MountCall} {part : PartitionRef} {path : List UInt8} {rNode : Ptr}
    (h : TableLists s ms cs)
    (hm : Mounted s s' ms cs call part (H.generateHash path) rNode) :
    umountFat16 H path s' = none := by
  have h' := hm.lists h
  obtain ⟨flags, hentry⟩ := hm.entry
  have hhash : HasHash s' (H.generateHash path) call.entry := ⟨_, hentry, rfl⟩
  have hlast : IsLastWith s' (H.generateHash path) (cs ++ [call.entry]) call.entry :=
    ⟨cs, [], rfl, hhash, fun _ hc => absurd hc List.not_mem_nil⟩
  rcases last_with_hash_cases h' (H.generateHash path) with ⟨_, hnone⟩ | ⟨ct, hlookup, hfound⟩
  · exact absurd hhash (hnone call.entry (by simp))
  · obtain rfl := hfound.unique hlast
    have hmt := VfsState.ne_zero_of_object hm.mountEntry
    unfold umountFat16
    rw [hlookup]
    simp only [Option.bind_eq_bind, Option.bind_some,
      if_neg (VfsState.ne_zero_of_object hentry)]
    rw [show s'.deref cacheKind.toObjectKind call.entry = some _ from
      VfsState.deref_iff.mpr hentry]
    simp only [Option.bind_some, if_neg hmt]
    rw [if_neg (by decide)]
    exact umount_entry_null h'.cacheList hentry (Or.inr rfl)

/-! ## A first mount -/

/-- `hash.c`: both functions return 0. -/
def zeroHash : PathHash := ⟨fun _ => 0, fun _ _ _ => 0⟩

/-- Empty tables, with a node at `16` that the caller has made. -/
def bootState : VfsState where
  heap := AList.singleton 16 (.vfsNode ⟨0, 0, 0, 0, 0, 0⟩)
  given := [16]
  freed := []
  mountTableStart := 0
  mountTableLast := 0
  cacheTableStart := 0
  cacheTableLast := 0
  cacheTableCount := 0
  vfsInodeIdCount := 0xffffffff

/-- A partition at sector 63 of a disk of 1000 sectors. -/
def bootPart : PartitionRef := ⟨⟨0x1f0, true, 1000⟩, 63⟩

/-- A device that is ready at once and whose sector is a boot record: 512-byte sectors, a sector a
cluster, one reserved sector, two FATs of a sector and 16 root entries. -/
def bootPorts : PortReads := fun n =>
  if n < 6 then 0x08
  else if n = 12 then 0x0102
  else if n = 13 then 0x0001
  else if n = 14 then 0x1002
  else if n = 17 then 0x0001
  else 0x0000

/-- A mount that is served. -/
def bootCall : MountCall where
  mntTblE := 32
  sect0Buf := 64
  bpb := 96
  entry := 128
  staleMntTblE := ⟨bootPart, 0, 0, 0, 0, 0⟩
  staleSect := fun _ => 0x00
  staleBpb := fillBpb 0 fun _ => 0x00
  staleEntry := ⟨0, .file, 0, 0, 0, 0, 0⟩
  ports := bootPorts
  garbageMntTblE := 0
  garbageBpb := 0

/-- The path `/`. -/
def rootPath : List UInt8 := [0x2f]

theorem boot_state_empty : bootState.TablesEmpty := ⟨rfl, rfl, rfl, rfl, rfl⟩

theorem boot_call_parsed : (bootCall.parsed bootPart).isSome := by decide +kernel

theorem boot_node : bootState.object 16 = some (.vfsNode ⟨0, 0, 0, 0, 0, 0⟩) := rfl

theorem boot_free {p : Ptr} (hp : p ≠ 16) : bootState.object p = none := by
  unfold VfsState.object
  rcases eq_or_ne p 0 with rfl | hzero
  · rfl
  · rw [if_neg hzero]
    refine AList.lookup_eq_none.mpr fun hmem => hp ?_
    rw [AList.mem_keys, bootState, AList.keys_singleton] at hmem
    exact List.mem_singleton.mp hmem

theorem boot_call_served : bootCall.Served bootState where
  mntTblE := ⟨by decide, boot_free (by decide)⟩
  bpb := ⟨by decide, boot_free (by decide), by decide, by decide⟩
  entry := ⟨by decide, boot_free (by decide), by decide, by decide⟩

/-- The mount is sound. -/
theorem boot_sound :
    (VfsOp.mount bootCall bootPart rootPath 16).Sound zeroHash ⟨bootState, []⟩ :=
  .succeeds (by decide) (fun _ h => by cases h) boot_call_served boot_call_parsed ⟨_, boot_node⟩
    fun _ h => by cases h

/-- The mount succeeds on empty tables. -/
theorem boot_mounted : ∃ s, mountFat16 zeroHash bootCall bootPart rootPath 16 bootState =
      some (0, s) ∧
    Mounted bootState s [] [] bootCall bootPart (zeroHash.generateHash rootPath) 16 :=
  mount_fat16_ok (tables_ok_empty boot_state_empty).toTableLists (by decide)
    (fun _ h => by cases h) boot_call_served boot_call_parsed ⟨_, boot_node⟩

/-- The run of this mount. -/
theorem boot_run : ∃ s, Run (VfsStep zeroHash) ⟨bootState, []⟩
      [⟨⟨bootState, []⟩, .mount bootCall bootPart rootPath 16, ⟨s, [128]⟩⟩] ⟨s, [128]⟩ ∧
    Mounted bootState s [] [] bootCall bootPart (zeroHash.generateHash rootPath) 16 := by
  obtain ⟨s, hrun, hmounted⟩ := boot_mounted
  exact ⟨s, .snoc .nil ⟨0, hrun, rfl⟩, hmounted⟩

/-! ## Three mounts -/

/-- The state after a call that has a result. -/
def VfsOp.next (H : PathHash) (s : TableRun) (op : VfsOp) : TableRun :=
  match op.exec H s.vfs with
  | none => s
  | some (r, t) => ⟨t, op.presentAfter H s.vfs r s.present⟩

theorem vfs_step_next {H : PathHash} {s : TableRun} {op : VfsOp}
    (h : (op.exec H s.vfs).isSome) : VfsStep H s op (op.next H s) := by
  obtain ⟨⟨r, t⟩, hexec⟩ := Option.isSome_iff_exists.mp h
  refine ⟨r, ?_, ?_⟩ <;> rw [VfsOp.next, hexec]

/-- A hash that tells paths of different lengths apart. -/
def lengthHash : PathHash :=
  ⟨fun path => UInt64.ofNat path.length, fun _ _ size => UInt64.ofNat size⟩

/-- A mount that is served with the objects behind `base`. -/
def mountCallAt (base : Ptr) : MountCall :=
  { bootCall with mntTblE := base + 1, sect0Buf := base + 2, bpb := base + 3, entry := base + 4 }

/-- A path of `n` slashes. -/
def slashes (n : Nat) : List UInt8 := List.replicate n 0x2f

/-- The partition is mounted under three paths, each time on a root node of its own, and the second
mount is undone. -/
def threeMounts : List VfsOp :=
  [.mount (mountCallAt 100) bootPart (slashes 1) 16, .makeNode 200 ⟨0, 0, 0, 0, 0, 0⟩,
    .mount (mountCallAt 300) bootPart (slashes 2) 200, .makeNode 400 ⟨0, 0, 0, 0, 0, 0⟩,
    .mount (mountCallAt 500) bootPart (slashes 3) 400, .umount (slashes 2)]

/-- The run up to the `n`-th call. -/
def mountsAfter (n : Nat) : TableRun :=
  (threeMounts.take n).foldl (VfsOp.next lengthHash) ⟨bootState, []⟩

theorem three_mounts_run : Run (VfsStep lengthHash) ⟨bootState, []⟩
    (transitions (VfsOp.next lengthHash) ⟨bootState, []⟩ threeMounts) (mountsAfter 6) := by
  have hsome : ∀ x ∈ transitions (VfsOp.next lengthHash) ⟨bootState, []⟩ threeMounts,
      (x.event.exec lengthHash x.before.vfs).isSome := by
    decide +kernel
  refine .of_transitions fun x hx => ?_
  rw [(mem_transitions x hx).2]
  exact vfs_step_next (hsome x hx)

/-- A condition on the steps of the run, call by call. -/
theorem three_mounts_forall {p : TableRun → VfsOp → Prop}
    (hnode : ∀ s offer n, p s (.makeNode offer n))
    (hone : p (mountsAfter 0) (.mount (mountCallAt 100) bootPart (slashes 1) 16))
    (htwo : p (mountsAfter 2) (.mount (mountCallAt 300) bootPart (slashes 2) 200))
    (hthree : p (mountsAfter 4) (.mount (mountCallAt 500) bootPart (slashes 3) 400))
    (humount : p (mountsAfter 5) (.umount (slashes 2))) :
    ∀ x ∈ transitions (VfsOp.next lengthHash) ⟨bootState, []⟩ threeMounts, p x.before x.event := by
  simp only [threeMounts, transitions, List.forall_mem_cons]
  exact ⟨hone, hnode _ _ _, htwo, hnode _ _ _, hthree, humount, fun _ h => by cases h⟩

/-- The three mounts are sound. -/
theorem three_mounts_sound :
    MountSound lengthHash (mountsAfter 0) (mountCallAt 100) bootPart (slashes 1) 16 ∧
    MountSound lengthHash (mountsAfter 2) (mountCallAt 300) bootPart (slashes 2) 200 ∧
    MountSound lengthHash (mountsAfter 4) (mountCallAt 500) bootPart (slashes 3) 400 := by
  have hnode : ∀ {s : VfsState} {p : Ptr}, (s.deref nodeKind p).isSome →
      ∃ n, s.object p = some (.vfsNode n) := fun h => by
    obtain ⟨n, hn⟩ := Option.isSome_iff_exists.mp h
    exact ⟨n, VfsState.deref_iff.mp hn⟩
  refine ⟨.succeeds (by decide +kernel) (by decide +kernel) ⟨?_, ?_, ?_⟩ boot_call_parsed
      (hnode (by decide +kernel)) (by decide +kernel),
    .succeeds (by decide +kernel) (by decide +kernel) ⟨?_, ?_, ?_⟩ boot_call_parsed
      (hnode (by decide +kernel)) (by decide +kernel),
    .succeeds (by decide +kernel) (by decide +kernel) ⟨?_, ?_, ?_⟩ boot_call_parsed
      (hnode (by decide +kernel)) (by decide +kernel)⟩ <;> decide +kernel

end Genesis32
