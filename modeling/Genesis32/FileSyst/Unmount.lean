import Genesis32.FileSyst.MountAtomic

/-!
# Unmounting

`umount_fat16` after `mount_fat16` of the same path, and the unmounts that leave no node behind that
refers to a mount entry which has been freed. `umount_fat16` never looks at the type of the entry
that it finds nor at the nodes of the open files, so that it reports an error only for a path that
no entry has.
-/

namespace Genesis32

variable {H : PathHash} {s s' : VfsState} {ms cs ms' cs' : List Ptr} {call : MountCall}
  {part : PartitionRef} {path : List UInt8} {rNode : Ptr}

/-! ## Unmounting what has just been mounted -/

/-- `umount_fat16` succeeds and brings both tables back to what they were in `s`. -/
def UnmountRestores (H : PathHash) (path : List UInt8) (ms cs : List Ptr) (s s' : VfsState) :
    Prop :=
  ∃ s'', umountFat16 H path s' = some (0, s'') ∧ TableLists s'' ms cs ∧
    s''.mountTableStart = s.mountTableStart ∧ s''.mountTableLast = s.mountTableLast ∧
    s''.cacheTableStart = s.cacheTableStart ∧ s''.cacheTableLast = s.cacheTableLast ∧
    s''.cacheTableCount = s.cacheTableCount

/-- What a mount under a new path has done when it succeeds. -/
theorem mounted_of_success (h : TableLists s ms cs)
    (hhash : ∀ ct ∈ cs, ¬ HasHash s (H.generateHash path) ct)
    (hmount : mountFat16 H call part path rNode s = some (0, s')) :
    Mounted s s' ms cs call part (H.generateHash path) rNode := by
  by_cases hfull : s.cacheTableCount ≥ maxOpenFileCount
  · unfold mountFat16 at hmount
    rw [if_pos hfull] at hmount
    cases hmount
  have hcount := Nat.lt_of_not_le hfull
  by_cases hentry : call.EntryServed s
  · rcases mount_fat16_linked_cases part rNode h hcount hhash hentry with
      ⟨_, t, hrun, _⟩ | ⟨_, hnone | ⟨hserved, hparsed, hnode⟩⟩
    · rw [hrun] at hmount
      cases hmount
    · rw [hnone] at hmount
      cases hmount
    · obtain ⟨t, hrun, hmounted⟩ := mount_fat16_ok h hcount hhash hserved hparsed hnode
      rw [hrun] at hmount
      cases hmount
      exact hmounted
  · obtain ⟨g, hrun, _⟩ := mount_fails_early part rNode h hcount (Or.inr ⟨hhash, hentry⟩)
    rw [hrun] at hmount
    cases hmount

/-- Unmounting the path that has just been mounted never restores the tables: the new entry is the
last of the cache table, and it is unlinked through the NULL that comes after it. -/
theorem unmount_never_restores (h : TableLists s ms cs)
    (hhash : ∀ ct ∈ cs, ¬ HasHash s (H.generateHash path) ct)
    (hmount : mountFat16 H call part path rNode s = some (0, s')) :
    umountFat16 H path s' = none ∧ ¬ UnmountRestores H path ms cs s s' := by
  have hnone := umount_last_mounted h (mounted_of_success h hhash hmount)
  refine ⟨hnone, ?_⟩
  intro hall
  obtain ⟨s'', hrun, _⟩ := hall
  rw [hnone] at hrun
  cases hrun

/-- Unmounting `/` after it has been mounted on empty tables writes through NULL. -/
theorem unmount_never_restores_first_mount : ∃ s,
    mountFat16 zeroHash bootCall bootPart rootPath 16 bootState = some (0, s) ∧
      umountFat16 zeroHash rootPath s = none ∧
      ¬ UnmountRestores zeroHash rootPath [] [] bootState s := by
  obtain ⟨s, hrun, _⟩ := boot_mounted
  exact ⟨s, hrun, unmount_never_restores (tables_ok_empty boot_state_empty).toTableLists
    (fun _ hct => by cases hct) hrun⟩

/-- Not every mount can be undone by an unmount. -/
theorem first_mount_not_restored :
    ¬ ∀ (s s' : VfsState) (ms cs : List Ptr) (call : MountCall) (part : PartitionRef)
        (path : List UInt8) (rNode : Ptr), TableLists s ms cs →
      (∀ ct ∈ cs, ¬ HasHash s (zeroHash.generateHash path) ct) →
      mountFat16 zeroHash call part path rNode s = some (0, s') →
      UnmountRestores zeroHash path ms cs s s' := by
  intro h
  have hempty := (tables_ok_empty boot_state_empty).toTableLists
  obtain ⟨s, hrun, hmounted⟩ := boot_mounted
  obtain ⟨s'', hunmount, _⟩ :=
    h bootState s [] [] bootCall bootPart rootPath 16 hempty (fun _ hct => by cases hct) hrun
  rw [umount_last_mounted hempty hmounted] at hunmount
  cases hunmount

/-! ## Unmounting what nothing refers to -/

/-- The node of an open file. -/
def OpenNode (s : VfsState) (cs : List Ptr) (n : VfsNode) : Prop :=
  ∃ ct ∈ cs, ∃ e, s.object ct = some (.cacheEntry e) ∧ e.contentType ≠ .mountPnt ∧
    s.object e.content = some (.vfsNode n)

/-- The root node of a mount. -/
def RootNode (s : VfsState) (cs : List Ptr) (n : VfsNode) : Prop :=
  ∃ ct ∈ cs, ∃ e m, s.object ct = some (.cacheEntry e) ∧ e.contentType = .mountPnt ∧
    s.object e.content = some (.mountEntry m) ∧ s.object m.fsRootNode = some (.vfsNode n)

/-- The entry that the walk finds for the hash is a mount point without another reference, and no
open file was opened under that mount. -/
def SafeToUnmount (s : VfsState) (cs : List Ptr) (hashValue : UInt64) : Prop :=
  ∃ ct e, IsLastWith s hashValue cs ct ∧ s.object ct = some (.cacheEntry e) ∧
    e.contentType = .mountPnt ∧ e.refcount ≤ 1 ∧
    ∀ n, OpenNode s cs n → n.originMountPoint ≠ e.content

/-- `umount_fat16` returns 0 only where it is safe, and elsewhere it reports an error and leaves
the tables. -/
def UnmountsOnlySafely (H : PathHash) (path : List UInt8) (cs : List Ptr) (s : VfsState) : Prop :=
  (∀ s', umountFat16 H path s = some (0, s') → SafeToUnmount s cs (H.generateHash path)) ∧
    (¬ SafeToUnmount s cs (H.generateHash path) →
      ∃ r s', umountFat16 H path s = some (r, s') ∧ r < 0 ∧ Untouched s s')

/-- In a state with whole tables, `umount_fat16` unmounts only safely exactly where no entry has the
path or the entry that it finds can be unmounted. -/
theorem unmounts_only_safely_iff (h : TablesOk s ms cs) :
    UnmountsOnlySafely H path cs s ↔ (∀ ct ∈ cs, ¬ HasHash s (H.generateHash path) ct) ∨
      SafeToUnmount s cs (H.generateHash path) := by
  by_cases hsafe : SafeToUnmount s cs (H.generateHash path)
  · exact ⟨fun _ => Or.inr hsafe, fun _ => ⟨fun _ _ => hsafe, fun hnot => absurd hsafe hnot⟩⟩
  rcases last_with_hash_cases h.toTableLists (H.generateHash path) with
    ⟨hlookup, hfree⟩ | ⟨ct, hlookup, hfound⟩
  · refine ⟨fun _ => Or.inl hfree, fun _ => ?_⟩
    have hrun : umountFat16 H path s = some (-fileNotFound, s) := by
      unfold umountFat16
      rw [hlookup]
      rfl
    refine ⟨fun s' hrun' => ?_, fun _ => ⟨_, s, hrun, by decide, untouched_refl s⟩⟩
    rw [hrun] at hrun'
    cases hrun'
  · have hhash : ∃ c ∈ cs, HasHash s (H.generateHash path) c := by
      refine ⟨ct, hfound.mem, ?_⟩
      obtain ⟨_, _, _, hhash, _⟩ := hfound
      exact hhash
    obtain ⟨e, he, hrefs, hcontent⟩ := h.entries ct hfound.mem
    have hnull : e.content ≠ 0 := by
      rcases hcontent with ⟨_, _, m, hm, _⟩ | ⟨_, n, hn, _⟩
      · exact VfsState.ne_zero_of_object hm
      · exact VfsState.ne_zero_of_object hn
    -- the entry that is found is unlinked whatever it is
    have hrun : umountFat16 H path s = umountEntry ct e s := by
      unfold umountFat16
      rw [hlookup]
      simp only [Option.bind_eq_bind, Option.bind_some, if_neg (VfsState.ne_zero_of_object he)]
      rw [show s.deref cacheKind.toObjectKind ct = some e from VfsState.deref_iff.mpr he]
      simp only [Option.bind_some, if_neg hnull]
      rw [if_neg (by omega)]
    constructor
    · intro hall
      obtain ⟨_, herror⟩ := hall
      obtain ⟨r, s', hrun', hneg, _⟩ := herror hsafe
      rw [umount_entry_code (hrun.symm.trans hrun')] at hneg
      exact absurd hneg (lt_irrefl _)
    · rintro (hfree | hsafe')
      · obtain ⟨c, hc, hhas⟩ := hhash
        exact absurd hhas (hfree c hc)
      · exact absurd hsafe' hsafe

/-! ## Runs that keep the references -/

/-- The calls that leave no reference to a freed mount entry: a sound mount of a root node that
refers to no mount; an open under a mount that is present, or under none; a close of an entry that
is present; and an unmount of a path that no entry has or that is safe. -/
def VfsOp.KeepsReferences (H : PathHash) (s : TableRun) : VfsOp → Prop
  | mount call part path rNode => MountSound H s call part path rNode ∧
      ∀ n, s.vfs.object rNode = some (.vfsNode n) → n.originMountPoint = 0
  | umount path => (∀ ct ∈ s.present, ¬ HasHash s.vfs (H.generateHash path) ct) ∨
      SafeToUnmount s.vfs s.present (H.generateHash path)
  | openFile _ _ _ _ origin => origin = 0 ∨ ∃ ct ∈ s.present, ∃ e,
      s.vfs.object ct = some (.cacheEntry e) ∧ e.contentType = .mountPnt ∧ e.content = origin
  | close ct => ct = 0 ∨ ct ∈ s.present
  | makeNode _ _ => True

theorem VfsOp.KeepsReferences.sound {s : TableRun} {op : VfsOp} (h : op.KeepsReferences H s) :
    op.Sound H s := by
  cases op with
  | mount call part path rNode => exact h.1
  | umount path =>
      intro ct e hfound he
      rcases h with hfree | ⟨ct', e', hfound', he', hkind, _⟩
      · have hmem := hfound.mem
        obtain ⟨_, _, _, hhash, _⟩ := hfound
        exact absurd hhash (hfree ct hmem)
      · rw [hfound.unique hfound', he'] at he
        cases he
        exact hkind
  | openFile call dirEnt path offset origin => trivial
  | close ct => exact h
  | makeNode offer n => trivial

/-- Every node of an open file refers to a mount of the mount table or to none, and every root node
to none. -/
structure OriginsOk (s : VfsState) (ms cs : List Ptr) : Prop where
  opened : ∀ n, OpenNode s cs n → n.originMountPoint = 0 ∨ n.originMountPoint ∈ ms
  root : ∀ mt ∈ ms, ∀ m n, s.object mt = some (.mountEntry m) →
    s.object m.fsRootNode = some (.vfsNode n) → n.originMountPoint = 0

/-- The open nodes of the entries that are kept were open before. -/
theorem Kept.openNode (hkept : Kept s s' ms' cs') (h : TablesOk s ms cs) (hcs : cs' ⊆ cs)
    {n : VfsNode} (hn : OpenNode s' cs' n) : OpenNode s cs' n := by
  obtain ⟨ct, hct, e', he', hkind, hnode⟩ := hn
  obtain ⟨e, he⟩ := exists_object h.cacheList (hcs hct)
  obtain ⟨_, _, hkeep⟩ := hkept.entry ct hct e he
  rw [hkeep] at he'
  cases he'
  exact ⟨ct, hct, e, he, hkind, (hkept.node ct hct e he hkind).symm.trans hnode⟩

/-- What is kept keeps its references, if the mounts that are referred to stay. -/
theorem OriginsOk.kept (ho : OriginsOk s ms cs) (h : TablesOk s ms cs)
    (hkept : Kept s s' ms' cs') (hms : ms' ⊆ ms) (hcs : cs' ⊆ cs)
    (hstay : ∀ n, OpenNode s cs' n → n.originMountPoint ∈ ms → n.originMountPoint ∈ ms') :
    OriginsOk s' ms' cs' where
  opened n hn := by
    have hn' := hkept.openNode h hcs hn
    have hold : OpenNode s cs n := by
      obtain ⟨ct, hct, hrest⟩ := hn'
      exact ⟨ct, hcs hct, hrest⟩
    exact (ho.opened n hold).imp id (hstay n hn')
  root mt hmt m' n hm' hn := by
    obtain ⟨m, hm⟩ := exists_object h.mountList (hms hmt)
    obtain ⟨_, _, hkeep⟩ := hkept.mount mt hmt m hm
    rw [hkeep] at hm'
    cases hm'
    exact ho.root mt (hms hmt) m n hm ((hkept.root mt hmt m hm).1.symm.trans hn)

/-- The tables are whole and their nodes refer to no mount that is not mounted. -/
def ReferencesWhole (s : TableRun) : Prop :=
  ∃ ms, TablesOk s.vfs ms s.present ∧ OriginsOk s.vfs ms s.present

theorem open_node_append {c : Ptr} {n : VfsNode} (h : OpenNode s (cs ++ [c]) n) :
    OpenNode s cs n ∨ ∃ e, s.object c = some (.cacheEntry e) ∧ e.contentType ≠ .mountPnt ∧
      s.object e.content = some (.vfsNode n) := by
  obtain ⟨ct, hct, hrest⟩ := h
  rcases List.mem_append.mp hct with hct | hct
  · exact Or.inl ⟨ct, hct, hrest⟩
  · rw [List.mem_singleton.mp hct] at hrest
    exact Or.inr hrest

theorem ReferencesWhole.step {s s' : TableRun} {op : VfsOp} (h : ReferencesWhole s)
    (hstep : VfsStep H s op s') (hkeeps : op.KeepsReferences H s) : ReferencesWhole s' := by
  obtain ⟨ms, hok, horigins⟩ := h
  obtain ⟨ms', hchange⟩ := table_change hok hkeeps.sound hstep
  refine ⟨ms', hchange.tablesOk hok, ?_⟩
  cases hchange with
  | framed hframe hspare hpresent =>
      rw [hpresent]
      exact horigins.kept hok (hframe.kept hok hspare) (fun _ hx => hx) (fun _ hx => hx)
        fun _ _ hmem => hmem
  | @mounted call part path rNode hmounted hunused hcount hpresent =>
      rw [hpresent]
      have hkept := horigins.kept hok (hmounted.kept hok hunused) (fun _ hx => hx)
        (fun _ hx => hx) fun _ _ hmem => hmem
      refine ⟨fun n hn => ?_, fun mt hmt m n hm hn => ?_⟩
      · rcases open_node_append hn with hn | ⟨e, he, hkind, _⟩
        · exact (hkept.opened n hn).imp id (List.mem_append_left _)
        · obtain ⟨flags, hentry⟩ := hmounted.entry
          rw [hentry] at he
          cases he
          exact absurd rfl hkind
      · -- the new mount entry is last, and its root node keeps the reference it had
        rcases List.mem_append.mp hmt with hmt | hmt
        · exact hkept.root mt hmt m n hm hn
        · rw [List.mem_singleton.mp hmt, hmounted.mountEntry] at hm
          cases hm
          obtain ⟨n₀, n₁, hn₀, hn₁, _, horigin⟩ := hmounted.node
          rw [hn₁] at hn
          cases hn
          exact horigin.trans (hkeeps.2 n₀ hn₀)
  | @opened call dirEnt path offset origin hashValue hopened hcs hct hpresent =>
      rw [hpresent]
      have hkept := horigins.kept hok (hopened.kept hok) (fun _ hx => hx) (fun _ hx => hx)
        fun _ _ hmem => hmem
      refine ⟨fun n hn => ?_, hkept.root⟩
      rcases open_node_append hn with hn | ⟨e, he, _, hnode⟩
      · exact hkept.opened n hn
      · -- the new node refers to the mount entry that the call names
        obtain ⟨_, _, _, hentry⟩ := hopened.entry
        obtain ⟨n₁, hn₁, _, horigin⟩ := hopened.node
        rw [hentry] at he
        cases he
        rw [hn₁] at hnode
        cases hnode
        rw [horigin]
        refine hkeeps.imp id ?_
        intro hall
        obtain ⟨c, hc, e, he, hkind, rfl⟩ := hall
        exact (hok.entry_mount hc he hkind).1
  | closed hsplit hentry hkind hxs hys hclosed hpresent =>
      rw [hpresent]
      refine horigins.kept hok ?_ (fun _ hx => hx) ?_ fun _ _ hmem => hmem
      · rw [hsplit] at hok
        exact hclosed.kept hok hentry hkind hxs hys
      · rw [hsplit]
        exact fun _ hx => mem_of_mem_unlinked hx
  | @unmounted path us vs xs ys ct e m hfound hsplit hmounts hbetween hunmounted
      hpresent =>
      have hsub : xs ++ ys ⊆ s.present := by
        rw [hsplit]
        exact fun _ hx => mem_of_mem_unlinked hx
      rw [hpresent]
      refine horigins.kept hok (hunmounted.kept hbetween) ?_ hsub ?_
      · rw [hmounts]
        exact fun _ hx => mem_of_mem_unlinked hx
      · -- no open node refers to the mount that goes
        intro n hn hmem
        have hhash : HasHash s.vfs (H.generateHash path) ct := by
          obtain ⟨_, _, _, hhash, _⟩ := hfound
          exact hhash
        rw [hmounts] at hmem
        refine mem_unlinked hmem ?_
        rcases hkeeps with hfree | ⟨ct', e', hfound', he', _, _, hsafe⟩
        · exact absurd hhash (hfree ct hfound.mem)
        · rw [← hfound.unique hfound', hbetween.entry] at he'
          cases he'
          obtain ⟨c, hc, hrest⟩ := hn
          exact hsafe n ⟨c, hsub hc, hrest⟩

/-- No node of an open file and no root node of a mount refers to a mount entry that is not live. -/
structure NoFreedMount (s : VfsState) (cs : List Ptr) : Prop where
  opened : ∀ n, OpenNode s cs n → n.originMountPoint = 0 ∨
    ∃ m, s.object n.originMountPoint = some (.mountEntry m)
  root : ∀ n, RootNode s cs n → n.originMountPoint = 0 ∧
    ∃ m, s.object n.content = some (.mountEntry m)

theorem OriginsOk.noFreedMount (ho : OriginsOk s ms cs) (h : TablesOk s ms cs) :
    NoFreedMount s cs where
  opened n hn := (ho.opened n hn).imp id fun hmem => exists_object h.mountList hmem
  root := by
    rintro n ⟨ct, hct, e, m, he, hkind, hm, hn⟩
    obtain ⟨hmem, _⟩ := h.entry_mount hct he hkind
    obtain ⟨_, _, n', _, _, _, _, hn', hback, _⟩ := h.mount_entry hmem hm
    rw [hn] at hn'
    cases hn'
    exact ⟨ho.root _ hmem m n hm hn, m, hback ▸ hm⟩

/-- In every state that is reached by calls that keep the references, `umount_fat16` unmounts only
safely exactly where no entry has the path or the entry that it finds can be unmounted, and no node
refers to a mount entry that has been freed. -/
theorem unmount_only_when_safe {s₀ : VfsState} (hempty : s₀.TablesEmpty)
    {trace : List (Transition TableRun VfsOp)} {s : TableRun}
    (hrun : Run (VfsStep H) ⟨s₀, []⟩ trace s)
    (hkeeps : ∀ x ∈ trace, x.event.KeepsReferences H x.before) :
    (∀ path, UnmountsOnlySafely H path s.present s.vfs ↔
      (∀ ct ∈ s.present, ¬ HasHash s.vfs (H.generateHash path) ct) ∨
        SafeToUnmount s.vfs s.present (H.generateHash path)) ∧
      NoFreedMount s.vfs s.present := by
  have hinit : ReferencesWhole ⟨s₀, []⟩ := by
    refine ⟨[], tables_ok_empty hempty, fun n hn => ?_, fun mt hmt => by cases hmt⟩
    obtain ⟨ct, hct, _⟩ := hn
    cases hct
  obtain ⟨ms, hok, horigins⟩ := (hrun.guarded hkeeps).invariant
    (fun _ _ _ h hstep => h.step hstep.1 hstep.2) hinit
  exact ⟨fun path => unmounts_only_safely_iff hok, horigins.noFreedMount hok⟩

/-- An open of a file. -/
def bootOpen : OpenCall := ⟨160, 192, ⟨0, .file, 0, 0, 0, 0, 0⟩, ⟨0, 0, 0, 0, 0, 0⟩⟩

/-- Three mounts, the unmount of the second one, and an open under the third one. -/
def openedUnderThird : TableRun :=
  (VfsOp.openFile bootOpen (fun _ => 0x00) rootPath 0 501).next lengthHash (mountsAfter 6)

/-- Then no node refers to a freed mount entry, the path of the second mount is safely refused, and
the path of the third one would not be. -/
theorem unmount_only_when_safe_three_mounts :
    NoFreedMount openedUnderThird.vfs openedUnderThird.present ∧
      UnmountsOnlySafely lengthHash (slashes 2) openedUnderThird.present openedUnderThird.vfs ∧
      ¬ UnmountsOnlySafely lengthHash (slashes 3) openedUnderThird.present
        openedUnderThird.vfs := by
  obtain ⟨hone, htwo, hthree⟩ := three_mounts_sound
  have hentry : ∀ {s : VfsState} {p : Ptr} {q : CacheTableEntry → Prop},
      (∃ e ∈ s.deref cacheKind.toObjectKind p, q e) →
        ∃ e, s.object p = some (.cacheEntry e) ∧ q e := by
    rintro s p q ⟨e, he, hq⟩
    exact ⟨e, VfsState.deref_iff.mp he, hq⟩
  have hroot : ∀ {s : VfsState} {p : Ptr},
      (∀ n ∈ s.deref nodeKind p, n.originMountPoint = 0) →
        ∀ n, s.object p = some (.vfsNode n) → n.originMountPoint = 0 :=
    fun h n hn => h n (VfsState.deref_iff.mpr hn)
  -- the second mount can be undone: nothing is open
  have hsafe : SafeToUnmount (mountsAfter 5).vfs (mountsAfter 5).present
      (lengthHash.generateHash (slashes 2)) := by
    obtain ⟨e, he, hkind, hrefs⟩ := hentry (show ∃ e ∈ (mountsAfter 5).vfs.deref
      cacheKind.toObjectKind 304, e.contentType = .mountPnt ∧ e.refcount ≤ 1 by decide +kernel)
    refine ⟨304, e, ⟨[104], [504], by decide +kernel, by decide +kernel, by decide +kernel⟩, he,
      hkind, hrefs, ?_⟩
    rintro n ⟨ct, hct, e', he', hfile, _⟩
    have hmounts : ∀ ct ∈ (mountsAfter 5).present,
        ∀ e ∈ (mountsAfter 5).vfs.deref cacheKind.toObjectKind ct, e.contentType = .mountPnt := by
      decide +kernel
    exact absurd (hmounts ct hct e' (VfsState.deref_iff.mpr he')) hfile
  have hkeeps := three_mounts_forall (p := fun s op => op.KeepsReferences lengthHash s)
    (fun _ _ _ => trivial) ⟨hone, hroot (by decide +kernel)⟩ ⟨htwo, hroot (by decide +kernel)⟩
    ⟨hthree, hroot (by decide +kernel)⟩ (Or.inr hsafe)
  have hopen : (VfsOp.openFile bootOpen (fun _ => 0x00) rootPath 0 501).KeepsReferences lengthHash
      (mountsAfter 6) :=
    Or.inr ⟨504, by decide +kernel, hentry (by decide +kernel)⟩
  have hstep : VfsStep lengthHash (mountsAfter 6)
      (.openFile bootOpen (fun _ => 0x00) rootPath 0 501) openedUnderThird :=
    vfs_step_next (by decide +kernel)
  obtain ⟨hiff, hnodes⟩ :=
    unmount_only_when_safe boot_state_empty (three_mounts_run.snoc hstep) fun x hx => by
      rcases List.mem_append.mp hx with hx | hx
      · exact hkeeps x hx
      · obtain rfl := List.mem_singleton.mp hx
        exact hopen
  refine ⟨hnodes, (hiff (slashes 2)).mpr (Or.inl (by decide +kernel)), fun honly => ?_⟩
  rcases (hiff (slashes 3)).mp honly with hfree | ⟨ct, e, hfound, he, _, _, hopened⟩
  · exact hfree 504 (by decide +kernel) (by decide +kernel)
  · -- the open file was opened under the mount that is found
    have hfile : ∃ e ∈ openedUnderThird.vfs.deref cacheKind.toObjectKind 160,
        e.contentType ≠ .mountPnt ∧ ∃ n ∈ openedUnderThird.vfs.deref nodeKind e.content,
          n.originMountPoint = 501 := by
      decide +kernel
    have hthird : ∀ ct ∈ openedUnderThird.present,
        HasHash openedUnderThird.vfs (lengthHash.generateHash (slashes 3)) ct →
        ∀ e ∈ openedUnderThird.vfs.deref cacheKind.toObjectKind ct, e.content = 501 := by
      decide +kernel
    have hmem := hfound.mem
    obtain ⟨_, _, _, hhash, _⟩ := hfound
    obtain ⟨e', he', hkind, n, hn, horigin⟩ := hfile
    refine hopened n ⟨160, by decide +kernel, e', VfsState.deref_iff.mp he', hkind,
      VfsState.deref_iff.mp hn⟩ ?_
    rw [horigin, hthird ct hmem hhash e (VfsState.deref_iff.mpr he)]

/-- With the hash of `hash.c`, unmounting `/` while a file is open finds the entry of the file: it
is unlinked as if it were a mount. -/
theorem unmount_finds_open_file :
    ¬ ∀ (trace : List (Transition TableRun VfsOp)) (s : TableRun),
      Run (VfsStep zeroHash) ⟨bootState, []⟩ trace s →
        ∀ path, UnmountsOnlySafely zeroHash path s.present s.vfs := by
  intro h
  obtain ⟨s, hmount, hmounted⟩ := boot_mounted
  have hok := hmounted.tablesOk (tables_ok_empty boot_state_empty) (fun _ hct => by cases hct)
    (by decide)
  let dirEnt : ByteMem := fun _ => 0x00
  have hopenRun : (mountFat16 zeroHash bootCall bootPart rootPath 16 bootState).bind (fun r =>
      (fat16SubOpenFile zeroHash bootOpen (fun _ => 0x00) rootPath 0 32 r.2).map Prod.fst) =
        some 160 := by decide +kernel
  rw [hmount, Option.bind_some] at hopenRun
  rcases fat16_sub_open_file_cases zeroHash bootOpen dirEnt rootPath 0 32 hok.toTableLists with
    ⟨t, hopen, _⟩ | ⟨_, hopen⟩ | ⟨hcs, _, t, hopen, hopened⟩
  · rw [hopen] at hopenRun
    cases hopenRun
  · rw [hopen] at hopenRun
    cases hopenRun
  · have hfirst : VfsStep zeroHash ⟨bootState, []⟩ (.mount bootCall bootPart rootPath 16)
        ⟨s, [128]⟩ := ⟨0, hmount, rfl⟩
    have hsecond : VfsStep zeroHash ⟨s, [128]⟩ (.openFile bootOpen dirEnt rootPath 0 32)
        ⟨t, [128, 160]⟩ := ⟨160, by simp only [VfsOp.exec, hopen]; rfl, rfl⟩
    have hrun := Run.snoc (Run.snoc .nil hfirst) hsecond
    have hok' : TablesOk t [32] [128, 160] := hopened.tablesOk hok hcs
    obtain ⟨contentType, flags, hkind, hentry⟩ := hopened.entry
    have hlast : IsLastWith t (zeroHash.generateHash rootPath) [128, 160] 160 :=
      ⟨[128], [], rfl, ⟨_, hentry, rfl⟩, fun _ hc => absurd hc List.not_mem_nil⟩
    rcases (unmounts_only_safely_iff hok').mp (h _ _ hrun rootPath) with
      hfree | ⟨ct, e, hfound, he, hmnt, _⟩
    · exact hfree 160 (by simp) ⟨_, hentry, rfl⟩
    · rw [← hlast.unique hfound, show t.object 160 = _ from hentry] at he
      cases he
      exact hkind hmnt

end Genesis32
