import Genesis32.FileSyst.MountRuns

/-!
# The integrity of the cache table

`CacheIntegrity` says that the cache table is the list of the entries that have been inserted and
not yet removed, with its two end pointers and its count. The operations keep it only where they
need no more than they do: unlinking an entry writes through both neighbours and moves no end
pointer, `fat16_sub_open_file` and `fat16_sub_close_file` leave the count, and a mount that fails
frees what it has linked or never initialised. `cache_table_integrity` is about the runs whose
steps avoid this.
-/

namespace Genesis32

open Word

/-- The entries that can be reached from `cache_table_start` are the present ones, linked in both
directions up to `cache_table_last`, live, and as many as the count says. -/
structure CacheIntegrity (s : TableRun) : Prop where
  linked : DoublyLinked 0 (s.vfs.links cacheKind) s.present
  start : s.vfs.cacheTableStart = s.present.headD 0
  last : s.vfs.cacheTableLast = s.present.getLastD 0
  live : ∀ ct ∈ s.present, ∃ e, s.vfs.object ct = some (.cacheEntry e)
  count : s.vfs.cacheTableCount = s.present.length

/-- The calls that keep the cache table: a sound mount; an unmount of a path that no entry has, or
of a mount point that has both neighbours in both tables; an open that fails in the allocator; a
close that reports an error, or of an entry with both neighbours. -/
def VfsOp.KeepsTable (H : PathHash) (s : TableRun) : VfsOp → Prop
  | mount call part path rNode => MountSound H s call part path rNode
  | umount path => ∀ ct e, IsLastWith s.vfs (H.generateHash path) s.present ct →
      s.vfs.object ct = some (.cacheEntry e) → e.contentType = .mountPnt ∧ e.prev ≠ 0 ∧
        e.next ≠ 0 ∧ ∀ m, s.vfs.object e.content = some (.mountEntry m) → m.prev ≠ 0 ∧ m.next ≠ 0
  | openFile call _ _ _ _ => call.ct = 0 ∨ (s.vfs.object call.ct).isSome ∨ call.node = 0 ∨
      (s.vfs.object call.node).isSome ∨ call.node = call.ct
  | close ct => ct = 0 ∨ ct ∈ s.present ∧ ∀ e, s.vfs.object ct = some (.cacheEntry e) →
      e.refcount > 1 ∨ e.contentType = .mountPnt ∨ e.prev ≠ 0 ∧ e.next ≠ 0
  | makeNode _ _ => True

/-- Every present entry is a mount point. -/
def AllMounts (s : VfsState) (cs : List Ptr) : Prop :=
  ∀ ct ∈ cs, ∀ e, s.object ct = some (.cacheEntry e) → e.contentType = .mountPnt

/-- The invariant of a run whose steps keep the cache table. -/
def OnlyMounts (s : TableRun) : Prop :=
  ∃ ms, TablesOk s.vfs ms s.present ∧ AllMounts s.vfs s.present ∧ ms.length = s.present.length

theorem VfsOp.KeepsTable.sound {H : PathHash} {s : TableRun} {op : VfsOp}
    (h : op.KeepsTable H s) : op.Sound H s := by
  cases op with
  | mount call part path rNode => exact h
  | umount path => exact fun ct e hfound he => (h ct e hfound he).1
  | openFile call dirEnt path offset origin => trivial
  | close ct => exact h.imp id And.left
  | makeNode offer n => trivial

theorem AllMounts.kept {s s' : VfsState} {ms ms' cs cs' : List Ptr} (h : AllMounts s cs)
    (hok : TablesOk s ms cs) (hkept : Kept s s' ms' cs') (hsub : cs' ⊆ cs) :
    AllMounts s' cs' := by
  intro ct hct e' he'
  obtain ⟨e, he⟩ := exists_object hok.cacheList (hsub hct)
  obtain ⟨_, _, hkeep⟩ := hkept.entry ct hct e he
  rw [hkeep] at he'
  cases he'
  exact h ct (hsub hct) e he

/-- A step that keeps the cache table keeps the invariant. -/
theorem OnlyMounts.step {H : PathHash} {s s' : TableRun} {op : VfsOp} (h : OnlyMounts s)
    (hstep : VfsStep H s op s') (hkeeps : op.KeepsTable H s) : OnlyMounts s' := by
  obtain ⟨ms, hok, hall, hlength⟩ := h
  obtain ⟨ms', hchange⟩ := table_change hok hkeeps.sound hstep
  have hok' := hchange.tablesOk hok
  cases hchange with
  | framed hframe hspare hpresent =>
      refine ⟨ms, hok', ?_, by rw [hpresent, hlength]⟩
      rw [hpresent]
      exact hall.kept hok (hframe.kept hok hspare) fun _ hx => hx
  | mounted hmounted hunused hcount hpresent =>
      refine ⟨_, hok', ?_, by rw [hpresent, List.length_append, List.length_append, hlength]; rfl⟩
      rw [hpresent]
      intro ct hct e he
      rcases List.mem_append.mp hct with hct | hct
      · exact hall.kept hok (hmounted.kept hok hunused) (fun _ hx => hx) ct hct e he
      · obtain ⟨flags, hentry⟩ := hmounted.entry
        rw [List.mem_singleton.mp hct, hentry] at he
        cases he
        rfl
  | opened hopened _ hct _ =>
      -- both allocations of the call have succeeded
      obtain ⟨hctFree, hnodeFree, hne⟩ := hopened.fresh
      obtain ⟨n, hn, _⟩ := hopened.node
      rcases hkeeps with hzero | hsome | hzero | hsome | heq
      · exact absurd hzero hct
      · rw [hctFree] at hsome
        cases hsome
      · exact absurd hzero (VfsState.ne_zero_of_object hn)
      · rw [hnodeFree] at hsome
        cases hsome
      · exact absurd heq.symm hne
  | closed hsplit hentry hkind _ _ _ _ =>
      exact absurd (hall _ (by rw [hsplit]; simp) _ hentry) hkind
  | unmounted _ hsplit hmounts hbetween hunmounted hpresent =>
      refine ⟨_, hok', ?_, ?_⟩
      · rw [hpresent]
        refine hall.kept hok (hunmounted.kept hbetween) fun _ hx => ?_
        rw [hsplit]
        exact mem_of_mem_unlinked hx
      · rw [hsplit, hmounts] at hlength
        rw [hpresent]
        simp only [List.length_append, List.length_cons] at hlength ⊢
        omega

/-- An open that fails in the allocator returns NULL. -/
theorem open_alloc_fails (H : PathHash) {s : VfsState} {call : OpenCall} (dirEnt : ByteMem)
    (path : List UInt8) (offset : Nat) (origin : Ptr)
    (h : call.ct = 0 ∨ (s.object call.ct).isSome ∨ call.node = 0 ∨
      (s.object call.node).isSome ∨ call.node = call.ct) :
    ∃ s', fat16SubOpenFile H call dirEnt path offset origin s = some (0, s') := by
  unfold fat16SubOpenFile
  rcases VfsState.heap_cream_malloc_cases s call.ct (.cacheEntry call.staleEntry) with
    ⟨hmalloc, _⟩ | ⟨hmalloc, hct, hctFree⟩
  · rw [hmalloc]
    exact ⟨s, rfl⟩
  rw [hmalloc]
  simp only
  rw [if_neg hct]
  generalize hs₁ : ({ s.put call.ct (.cacheEntry call.staleEntry) with
    given := s.given ++ [call.ct] } : VfsState) = s₁
  have h₁ : ∀ x, s₁.object x =
      if x = call.ct then some (.cacheEntry call.staleEntry) else s.object x := by
    rw [← hs₁]
    exact VfsState.object_put hct _
  rcases VfsState.heap_cream_malloc_cases s₁ call.node (.vfsNode call.staleNode) with
    ⟨hmalloc', _⟩ | ⟨_, hnode, hnodeFree⟩
  · rw [hmalloc']
    exact ⟨_, rfl⟩
  · rw [h₁] at hnodeFree
    rcases eq_or_ne call.node call.ct with heq | hne
    · rw [if_pos heq] at hnodeFree
      cases hnodeFree
    · rw [if_neg hne] at hnodeFree
      rcases h with hzero | hsome | hzero | hsome | heq
      · exact absurd hzero hct
      · rw [hctFree] at hsome
        cases hsome
      · exact absurd hzero hnode
      · rw [hnodeFree] at hsome
        cases hsome
      · exact absurd heq hne

/-- An unmount of a mount point with both neighbours in both tables has a result. -/
theorem umount_has_result {H : PathHash} {s : TableRun} {ms : List Ptr} {path : List UInt8}
    (h : TablesOk s.vfs ms s.present) (hkeeps : (VfsOp.umount path).KeepsTable H s) :
    (umountFat16 H path s.vfs).isSome := by
  unfold umountFat16
  rcases last_with_hash_cases h.toTableLists (H.generateHash path) with
    ⟨hlookup, _⟩ | ⟨ct, hlookup, hfound⟩
  · rw [hlookup]
    rfl
  · obtain ⟨xs, ys, hsplit⟩ := List.append_of_mem hfound.mem
    obtain ⟨e, he⟩ := exists_object h.cacheList hfound.mem
    obtain ⟨hkind, hprev, hnext, hmount⟩ := hkeeps ct e hfound he
    obtain ⟨e', he', hrefs, _⟩ := h.entries ct hfound.mem
    rw [show s.vfs.object ct = some (.cacheEntry e) from he] at he'
    cases he'
    obtain ⟨hmem, m, hm, _⟩ := h.entry_mount hfound.mem he hkind
    obtain ⟨us, vs, hmounts⟩ := List.append_of_mem hmem
    obtain ⟨_, _, n, b, _, _, _, hn, _, hb⟩ := h.mount_entry hmem hm
    obtain ⟨hmprev, hmnext⟩ := hmount m hm
    have hcache : DoublyLinked 0 (s.vfs.links cacheKind) (xs ++ ct :: ys) := hsplit ▸ h.cacheList
    have hlist : DoublyLinked 0 (s.vfs.links mountKind) (us ++ e.content :: vs) :=
      hmounts ▸ h.mountList
    obtain ⟨heqNext, heqPrev⟩ := neighbours hcache he
    obtain ⟨heqNext', heqPrev'⟩ := neighbours hlist hm
    have hxs : xs ≠ [] := fun hnil => hprev (by rw [show e.prev = _ from heqPrev, hnil]; rfl)
    have hys : ys ≠ [] := fun hnil => hnext (by rw [show e.next = _ from heqNext, hnil]; rfl)
    rw [hlookup]
    simp only [Option.bind_eq_bind, Option.bind_some,
      if_neg (VfsState.ne_zero_of_object he)]
    rw [show s.vfs.deref cacheKind.toObjectKind ct = some e from VfsState.deref_iff.mpr he]
    simp only [Option.bind_some, if_neg (VfsState.ne_zero_of_object hm)]
    rw [if_neg (by omega)]
    -- the unmount can only stop at an end of the mount table, and the condition excludes this
    rcases umount_entry_ok hcache hxs hys he hlist hm hb hn with ⟨hend, _⟩ | ⟨_, _, t, hrun, _⟩
    · rcases hend with hnil | hnil
      · exact absurd (by rw [show m.prev = _ from heqPrev', hnil]; rfl) hmprev
      · exact absurd (by rw [show m.next = _ from heqNext', hnil]; rfl) hmnext
    · rw [hrun]
      rfl

/-- A call that keeps the cache table has a result: it reads and writes through no pointer that is
NULL or freed. -/
theorem has_result {H : PathHash} {s : TableRun} {ms : List Ptr} {op : VfsOp}
    (h : TablesOk s.vfs ms s.present) (hkeeps : op.KeepsTable H s) :
    (op.exec H s.vfs).isSome := by
  cases op with
  | mount call part path rNode =>
      simp only [VfsOp.exec]
      cases hkeeps with
      | full hcount =>
          unfold mountFat16
          rw [if_pos hcount]
          rfl
      | succeeds hcount hhash hserved hparsed hnode _ =>
          obtain ⟨t, hrun, _⟩ :=
            mount_fat16_ok h.toTableLists hcount hhash hserved hparsed hnode
          rw [hrun]
          rfl
      | failsEarly hcount hfails _ _ =>
          obtain ⟨g, hrun, _⟩ := mount_fails_early part rNode h.toTableLists hcount
            (hfails.imp And.left id)
          rw [hrun]
          rfl
  | umount path => exact umount_has_result h hkeeps
  | openFile call dirEnt path offset origin =>
      obtain ⟨t, hrun⟩ := open_alloc_fails H dirEnt path offset origin hkeeps
      simp only [VfsOp.exec, hrun]
      rfl
  | close ct =>
      simp only [VfsOp.exec]
      rcases hkeeps with rfl | ⟨hmem, hcond⟩
      · rfl
      · obtain ⟨xs, ys, hsplit⟩ := List.append_of_mem hmem
        obtain ⟨e, he⟩ := exists_object h.cacheList hmem
        have hcache : DoublyLinked 0 (s.vfs.links cacheKind) (xs ++ ct :: ys) :=
          hsplit ▸ h.cacheList
        obtain ⟨heqNext, heqPrev⟩ := neighbours hcache he
        obtain ⟨e', he', hrefs, _⟩ := h.entries ct hmem
        rw [show s.vfs.object ct = some (.cacheEntry e) from he] at he'
        cases he'
        obtain ⟨n, hn⟩ : ∃ n, e.contentType ≠ .mountPnt →
            s.vfs.object e.content = some (.vfsNode n) := by
          by_cases hkind : e.contentType = .mountPnt
          · exact ⟨⟨0, 0, 0, 0, 0, 0⟩, fun hne => absurd hkind hne⟩
          · obtain ⟨n, hn, _⟩ := h.entry_node hmem he hkind
            exact ⟨n, fun _ => hn⟩
        -- an entry at an end of the cache table is the only one whose close writes through NULL
        rcases fat16_sub_close_file_cases hcache he hn with
          ⟨_, r, _, hrun⟩ | ⟨hkind, hend, _⟩ | ⟨_, _, _, t, hrun, _⟩
        · rw [hrun]
          rfl
        · rcases hcond e he with hmany | hmount | ⟨hprev, hnext⟩
          · omega
          · exact absurd hmount hkind
          · rcases hend with hnil | hnil
            · exact absurd (by rw [show e.prev = _ from heqPrev, hnil]; rfl) hprev
            · exact absurd (by rw [show e.next = _ from heqNext, hnil]; rfl) hnext
        · rw [hrun]
          rfl
  | makeNode offer n => rfl

theorem OnlyMounts.integrity {s : TableRun} (h : OnlyMounts s) : CacheIntegrity s := by
  obtain ⟨ms, hok, _, hlength⟩ := h
  exact
    { linked := hok.cacheList
      start := hok.cacheStart
      last := hok.cacheLast
      live := fun ct hct => exists_object hok.cacheList hct
      count := hok.count.trans hlength }

/-- In every run from empty tables whose steps all keep the cache table, the table is whole in the
state reached, and no call that keeps it reads or writes through NULL or freed memory there. -/
theorem cache_table_integrity {H : PathHash} {s₀ : VfsState} (hempty : s₀.TablesEmpty)
    {trace : List (Transition TableRun VfsOp)} {s : TableRun}
    (hrun : Run (VfsStep H) ⟨s₀, []⟩ trace s)
    (hkeeps : ∀ x ∈ trace, x.event.KeepsTable H x.before) :
    CacheIntegrity s ∧ ∀ op : VfsOp, op.KeepsTable H s → (op.exec H s.vfs).isSome := by
  have hinit : OnlyMounts ⟨s₀, []⟩ :=
    ⟨[], tables_ok_empty hempty, fun _ hct => (by cases hct), rfl⟩
  have hinv : OnlyMounts s := (hrun.guarded hkeeps).invariant
    (fun _ _ _ h hstep => h.step hstep.1 hstep.2) hinit
  refine ⟨hinv.integrity, fun op hop => ?_⟩
  obtain ⟨ms, hok, _⟩ := hinv
  exact has_result hok hop

/-- After one mount from empty tables, unmounting its path writes through NULL. -/
theorem umount_first_mount_faults :
    ¬ ∀ (trace : List (Transition TableRun VfsOp)) (s : TableRun),
      Run (VfsStep zeroHash) ⟨bootState, []⟩ trace s →
        CacheIntegrity s ∧ ((VfsOp.umount rootPath).exec zeroHash s.vfs).isSome := by
  intro h
  obtain ⟨s, hrun, hmounted⟩ := boot_run
  have hsome := (h _ _ hrun).2
  have hnone : umountFat16 zeroHash rootPath s = none :=
    umount_last_mounted (tables_ok_empty boot_state_empty).toTableLists hmounted
  rw [show (VfsOp.umount rootPath).exec zeroHash s = none from hnone] at hsome
  cases hsome

/-- After three mounts and the unmount of the one in the middle the cache table is whole and holds
the other two. -/
theorem cache_table_integrity_three_mounts :
    (CacheIntegrity (mountsAfter 6) ∧ ∀ op : VfsOp, op.KeepsTable lengthHash (mountsAfter 6) →
      (op.exec lengthHash (mountsAfter 6).vfs).isSome) ∧
    (mountsAfter 5).present = [104, 304, 504] ∧ (mountsAfter 6).present = [104, 504] := by
  obtain ⟨hone, htwo, hthree⟩ := three_mounts_sound
  refine ⟨cache_table_integrity boot_state_empty three_mounts_run
    (three_mounts_forall (fun _ _ _ => trivial) hone htwo hthree ?_),
    by decide +kernel, by decide +kernel⟩
  -- the entry that the unmount finds has both neighbours in both tables
  have hmiddle : ∀ ct ∈ (mountsAfter 5).present,
      HasHash (mountsAfter 5).vfs (lengthHash.generateHash (slashes 2)) ct →
      ∀ e ∈ (mountsAfter 5).vfs.deref cacheKind.toObjectKind ct,
        e.contentType = .mountPnt ∧ e.prev ≠ 0 ∧ e.next ≠ 0 ∧
          ∀ m ∈ (mountsAfter 5).vfs.deref mountKind.toObjectKind e.content,
            m.prev ≠ 0 ∧ m.next ≠ 0 := by
    decide +kernel
  intro ct e hfound he
  have hmem := hfound.mem
  obtain ⟨_, _, _, hhash, _⟩ := hfound
  obtain ⟨hkind, hprev, hnext, hmount⟩ := hmiddle ct hmem hhash e (VfsState.deref_iff.mpr he)
  exact ⟨hkind, hprev, hnext, fun m hm => hmount m (VfsState.deref_iff.mpr hm)⟩

end Genesis32
