import Genesis32.FileSyst.MountSpec

/-!
# The invariant of the two tables

`TablesOk s ms cs` adds to the lists what the entries hold: a cache entry of a mount and its mount
entry point to each other, a cache entry of an open file and its node point to each other, and a
mount entry owns its root node and its parameter block. Each operation that succeeds keeps it.
-/

namespace Genesis32

open Word

variable {ε : Type} {s s' : VfsState} {ms cs ms' cs' : List Ptr}

/-- What a cache entry holds: a mount entry that points back to it, or a node that does. -/
def EntryOk (s : VfsState) (ms : List Ptr) (ct : Ptr) : Prop :=
  ∃ e, s.object ct = some (.cacheEntry e) ∧ e.refcount = 1 ∧
    ((e.contentType = .mountPnt ∧ e.content ∈ ms ∧
        ∃ m, s.object e.content = some (.mountEntry m) ∧ m.ctTableEntry = ct) ∨
      (e.contentType ≠ .mountPnt ∧ ∃ n, s.object e.content = some (.vfsNode n) ∧ n.content = ct))

/-- What a mount entry holds: its cache entry, a root node that points back to it, and a block. -/
def MountOk (s : VfsState) (cs : List Ptr) (mt : Ptr) : Prop :=
  ∃ m e n b, s.object mt = some (.mountEntry m) ∧ m.ctTableEntry ∈ cs ∧
    s.object m.ctTableEntry = some (.cacheEntry e) ∧ e.contentType = .mountPnt ∧ e.content = mt ∧
    s.object m.fsRootNode = some (.vfsNode n) ∧ n.content = mt ∧
    s.object m.fsBpb = some (.bpb b)

/-- The invariant of the mount table `ms` and the cache table `cs`. -/
structure TablesOk (s : VfsState) (ms cs : List Ptr) : Prop extends TableLists s ms cs where
  entries : ∀ ct ∈ cs, EntryOk s ms ct
  mounts : ∀ mt ∈ ms, MountOk s cs mt
  blocks : ∀ mt ∈ ms, ∀ mt' ∈ ms, ∀ m m', s.object mt = some (.mountEntry m) →
    s.object mt' = some (.mountEntry m') → m.fsBpb = m'.fsBpb → mt = mt'
  count : s.cacheTableCount = ms.length
  few : ms.length ≤ maxOpenFileCount

/-- No entry of the cache table uses the node. -/
def NodeUnused (s : VfsState) (cs : List Ptr) (node : Ptr) : Prop :=
  ∀ ct ∈ cs, ∀ e, s.object ct = some (.cacheEntry e) →
    (e.contentType ≠ .mountPnt → e.content ≠ node) ∧
      (e.contentType = .mountPnt → ∀ m, s.object e.content = some (.mountEntry m) →
        m.fsRootNode ≠ node)

instance (s : VfsState) (cs : List Ptr) (node : Ptr) : Decidable (NodeUnused s cs node) :=
  decidable_of_iff (∀ ct ∈ cs, ∀ e ∈ s.deref cacheKind.toObjectKind ct,
    (e.contentType ≠ .mountPnt → e.content ≠ node) ∧
      (e.contentType = .mountPnt → ∀ m ∈ s.deref mountKind.toObjectKind e.content,
        m.fsRootNode ≠ node)) <| by
    simp only [Option.mem_def, VfsState.deref_iff]
    rfl

/-- From `s` to `s'` the entries `ms` and `cs` and what belongs to them are kept, but for the links
of the entries. -/
structure Kept (s s' : VfsState) (ms cs : List Ptr) : Prop where
  entry : ∀ ct ∈ cs, ∀ e, s.object ct = some (.cacheEntry e) →
    ∃ next prev, s'.object ct = some (.cacheEntry { e with next := next, prev := prev })
  mount : ∀ mt ∈ ms, ∀ m, s.object mt = some (.mountEntry m) →
    ∃ next prev, s'.object mt = some (.mountEntry { m with next := next, prev := prev })
  node : ∀ ct ∈ cs, ∀ e, s.object ct = some (.cacheEntry e) → e.contentType ≠ .mountPnt →
    s'.object e.content = s.object e.content
  root : ∀ mt ∈ ms, ∀ m, s.object mt = some (.mountEntry m) →
    s'.object m.fsRootNode = s.object m.fsRootNode ∧ s'.object m.fsBpb = s.object m.fsBpb

theorem EntryOk.kept {ct : Ptr} (h : EntryOk s ms ct) (hkept : Kept s s' ms' cs') (hct : ct ∈ cs')
    (hmem : ∀ e, s.object ct = some (.cacheEntry e) → e.contentType = .mountPnt →
      e.content ∈ ms') : EntryOk s' ms' ct := by
  obtain ⟨e, he, hrefs, hor⟩ := h
  obtain ⟨next, prev, he'⟩ := hkept.entry ct hct e he
  refine ⟨_, he', hrefs, ?_⟩
  rcases hor with ⟨hkind, _, m, hm, hback⟩ | ⟨hkind, n, hn, hback⟩
  · obtain ⟨next', prev', hm'⟩ := hkept.mount e.content (hmem e he hkind) m hm
    exact Or.inl ⟨hkind, hmem e he hkind, _, hm', hback⟩
  · exact Or.inr ⟨hkind, n, (hkept.node ct hct e he hkind).trans hn, hback⟩

theorem MountOk.kept {mt : Ptr} (h : MountOk s cs mt) (hkept : Kept s s' ms' cs') (hmt : mt ∈ ms')
    (hmem : ∀ m, s.object mt = some (.mountEntry m) → m.ctTableEntry ∈ cs') :
    MountOk s' cs' mt := by
  obtain ⟨m, e, n, b, hm, _, he, hkind, hcontent, hn, hback, hb⟩ := h
  obtain ⟨next, prev, hm'⟩ := hkept.mount mt hmt m hm
  obtain ⟨next', prev', he'⟩ := hkept.entry m.ctTableEntry (hmem m hm) e he
  obtain ⟨hroot, hblock⟩ := hkept.root mt hmt m hm
  exact ⟨_, _, n, b, hm', hmem m hm, he', hkind, hcontent, hroot.trans hn, hback,
    hblock.trans hb⟩

theorem EntryOk.mono {ct : Ptr} (h : EntryOk s ms ct) (hsub : ms ⊆ ms') : EntryOk s ms' ct := by
  obtain ⟨e, he, hrefs, hor⟩ := h
  refine ⟨e, he, hrefs, hor.imp ?_ id⟩
  intro hall
  obtain ⟨hkind, hmem, hrest⟩ := hall
  exact ⟨hkind, hsub hmem, hrest⟩

theorem MountOk.mono {mt : Ptr} (h : MountOk s cs mt) (hsub : cs ⊆ cs') : MountOk s cs' mt := by
  obtain ⟨m, e, n, b, hm, hmem, hrest⟩ := h
  exact ⟨m, e, n, b, hm, hsub hmem, hrest⟩

/-- The blocks of the mounts that are kept are as different as they were. -/
theorem Kept.blocks (hkept : Kept s s' ms' cs') (hsub : ms' ⊆ ms) (h : TablesOk s ms cs) :
    ∀ mt ∈ ms', ∀ mt' ∈ ms', ∀ m m', s'.object mt = some (.mountEntry m) →
      s'.object mt' = some (.mountEntry m') → m.fsBpb = m'.fsBpb → mt = mt' := by
  intro mt hmt mt' hmt' m m' hm hm' heq
  obtain ⟨a, ha⟩ := exists_object h.mountList (hsub hmt)
  obtain ⟨a', ha'⟩ := exists_object h.mountList (hsub hmt')
  obtain ⟨_, _, hkeep⟩ := hkept.mount mt hmt a ha
  obtain ⟨_, _, hkeep'⟩ := hkept.mount mt' hmt' a' ha'
  rw [hkeep] at hm
  rw [hkeep'] at hm'
  cases hm
  cases hm'
  exact h.blocks mt (hsub hmt) mt' (hsub hmt') a a' ha ha' heq

/-! ## Pointers to objects of different types -/

/-- An object of another type is not the last cell of a list. -/
theorem ne_getLastD {K : LinkKind ε} {l : List Ptr} {p : Ptr} {o : VfsObject}
    (h : DoublyLinked 0 (s.links K) l) (hp : s.object p = some o) (hkind : ∀ e, o ≠ K.wrap e) :
    p ≠ l.getLastD 0 := by
  intro heq
  rcases eq_or_ne l [] with rfl | hl
  · exact VfsState.ne_zero_of_object hp heq
  · obtain ⟨e, he⟩ := exists_object h (DoublyLinked.getLastD_mem hl)
    exact ne_of_object hp he (hkind e) heq

theorem ne_of_free {p q : Ptr} {o : VfsObject} (hp : s.object p = some o)
    (hq : s.object q = none) : p ≠ q := by
  rintro rfl
  rw [hp] at hq
  cases hq

/-- What is left of a list without one of its cells. -/
theorem mem_of_mem_unlinked {xs ys : List Ptr} {p c : Ptr} (hc : c ∈ xs ++ ys) :
    c ∈ xs ++ p :: ys := by
  rcases List.mem_append.mp hc with hc | hc
  · exact List.mem_append_left _ hc
  · exact List.mem_append_right _ (List.mem_cons_of_mem _ hc)

theorem mem_unlinked {xs ys : List Ptr} {p c : Ptr} (hc : c ∈ xs ++ p :: ys) (hne : c ≠ p) :
    c ∈ xs ++ ys := by
  rcases List.mem_append.mp hc with hc | hc
  · exact List.mem_append_left _ hc
  · exact List.mem_append_right _ ((List.mem_cons.mp hc).resolve_left hne)

theorem ne_of_mem_unlinked {K : LinkKind ε} {xs ys : List Ptr} {p c : Ptr}
    (h : DoublyLinked 0 (s.links K) (xs ++ p :: ys)) (hc : c ∈ xs ++ ys) : c ≠ p := by
  have hnodup := List.nodup_append.mp h.nodup
  rintro rfl
  rcases List.mem_append.mp hc with hc | hc
  · exact hnodup.2.2 c hc c List.mem_cons_self rfl
  · exact (List.nodup_cons.mp hnodup.2.1).1 hc

/-- The ends of a list stay where a cell between others is unlinked. -/
theorem headD_unlinked {xs ys : List Ptr} {p : Ptr} (hxs : xs ≠ []) :
    (xs ++ p :: ys).headD 0 = (xs ++ ys).headD 0 := by
  rw [DoublyLinked.headD_append _ _ hxs, DoublyLinked.headD_append _ _ hxs]

theorem getLastD_unlinked {xs ys : List Ptr} {p : Ptr} (hys : ys ≠ []) :
    (xs ++ p :: ys).getLastD 0 = (xs ++ ys).getLastD 0 := by
  rw [show xs ++ p :: ys = (xs ++ [p]) ++ ys by simp, DoublyLinked.getLastD_append _ _ hys,
    DoublyLinked.getLastD_append _ _ hys]

namespace TablesOk

theorem entry_mount (h : TablesOk s ms cs) {ct : Ptr} {e : CacheTableEntry} (hct : ct ∈ cs)
    (he : s.object ct = some (.cacheEntry e)) (hkind : e.contentType = .mountPnt) :
    e.content ∈ ms ∧ ∃ m, s.object e.content = some (.mountEntry m) ∧ m.ctTableEntry = ct := by
  obtain ⟨e', he', _, hor⟩ := h.entries ct hct
  rw [he] at he'
  cases he'
  rcases hor with ⟨_, hrest⟩ | ⟨hkind', _⟩
  · exact hrest
  · exact absurd hkind hkind'

theorem entry_node (h : TablesOk s ms cs) {ct : Ptr} {e : CacheTableEntry} (hct : ct ∈ cs)
    (he : s.object ct = some (.cacheEntry e)) (hkind : e.contentType ≠ .mountPnt) :
    ∃ n, s.object e.content = some (.vfsNode n) ∧ n.content = ct := by
  obtain ⟨e', he', _, hor⟩ := h.entries ct hct
  rw [he] at he'
  cases he'
  rcases hor with ⟨hkind', _⟩ | ⟨_, hrest⟩
  · exact absurd hkind' hkind
  · exact hrest

theorem mount_entry (h : TablesOk s ms cs) {mt : Ptr} {m : MountTableEntry} (hmt : mt ∈ ms)
    (hm : s.object mt = some (.mountEntry m)) :
    m.ctTableEntry ∈ cs ∧ ∃ e n b, s.object m.ctTableEntry = some (.cacheEntry e) ∧
      e.contentType = .mountPnt ∧ e.content = mt ∧ s.object m.fsRootNode = some (.vfsNode n) ∧
      n.content = mt ∧ s.object m.fsBpb = some (.bpb b) := by
  obtain ⟨m', e, n, b, hm', hmem, hrest⟩ := h.mounts mt hmt
  rw [hm] at hm'
  cases hm'
  exact ⟨hmem, e, n, b, hrest⟩

/-- The node of a mount that no cache entry uses is not its root node. -/
theorem root_ne (h : TablesOk s ms cs) {node mt : Ptr} {m : MountTableEntry}
    (hunused : NodeUnused s cs node) (hmt : mt ∈ ms) (hm : s.object mt = some (.mountEntry m)) :
    m.fsRootNode ≠ node := by
  obtain ⟨hmem, e, n, b, he, hkind, hcontent, _⟩ := h.mount_entry hmt hm
  exact (hunused _ hmem e he).2 hkind m (hcontent ▸ hm)

/-- The root nodes and blocks of two mounts are different. -/
theorem owned_ne (h : TablesOk s ms cs) {mt mt' : Ptr} {m m' : MountTableEntry} (hmt : mt ∈ ms)
    (hmt' : mt' ∈ ms) (hm : s.object mt = some (.mountEntry m))
    (hm' : s.object mt' = some (.mountEntry m')) (hne : mt ≠ mt') :
    m.fsRootNode ≠ m'.fsRootNode ∧ m.fsBpb ≠ m'.fsBpb := by
  refine ⟨fun heq => ?_, fun heq => hne (h.blocks mt hmt mt' hmt' m m' hm hm' heq)⟩
  obtain ⟨_, _, n, _, _, _, _, hn, hback, _⟩ := h.mount_entry hmt hm
  obtain ⟨_, _, n', _, _, _, _, hn', hback', _⟩ := h.mount_entry hmt' hm'
  rw [heq, hn'] at hn
  cases hn
  exact hne (hback.symm.trans hback')

/-! ## What keeps the invariant -/

end TablesOk

/-- From `s` to `s'` at most the object at `p` changes, and no global of the tables. -/
structure Framed (s s' : VfsState) (p : Ptr) : Prop where
  same : ∀ x, x ≠ p → s'.object x = s.object x
  mountStart : s'.mountTableStart = s.mountTableStart
  mountLast : s'.mountTableLast = s.mountTableLast
  cacheStart : s'.cacheTableStart = s.cacheTableStart
  cacheLast : s'.cacheTableLast = s.cacheTableLast
  count : s'.cacheTableCount = s.cacheTableCount

/-- The pointer is free, or it is a node that no entry uses. -/
def Spare (s : VfsState) (cs : List Ptr) (p : Ptr) : Prop :=
  s.object p = none ∨ (∃ n, s.object p = some (.vfsNode n)) ∧ NodeUnused s cs p

theorem Spare.ne {p x : Ptr} {o : VfsObject} (h : Spare s cs p) (hx : s.object x = some o)
    (hkind : ∀ n, o ≠ .vfsNode n) : x ≠ p := by
  rcases h with hnone | ⟨⟨n, hn⟩, _⟩
  · exact ne_of_free hx hnone
  · exact ne_of_object hx hn (hkind n)

theorem Framed.kept {p : Ptr} (hf : Framed s s' p) (h : TablesOk s ms cs) (hspare : Spare s cs p) :
    Kept s s' ms cs where
  entry ct _ e he := ⟨e.next, e.prev, by rw [hf.same ct (hspare.ne he nofun), he]⟩
  mount mt _ m hm := ⟨m.next, m.prev, by rw [hf.same mt (hspare.ne hm nofun), hm]⟩
  node ct hct e he hkind := by
    refine hf.same _ ?_
    rcases hspare with hnone | ⟨_, hunused⟩
    · obtain ⟨n, hn, _⟩ := h.entry_node hct he hkind
      exact ne_of_free hn hnone
    · exact (hunused ct hct e he).1 hkind
  root mt hmt m hm := by
    obtain ⟨_, _, n, b, _, _, _, hn, _, hb⟩ := h.mount_entry hmt hm
    refine ⟨hf.same _ ?_, hf.same _ (hspare.ne hb nofun)⟩
    rcases hspare with hnone | ⟨_, hunused⟩
    · exact ne_of_free hn hnone
    · exact h.root_ne hunused hmt hm

/-- A change of one object that no entry uses. -/
theorem Framed.tablesOk {p : Ptr} (hf : Framed s s' p) (h : TablesOk s ms cs)
    (hspare : Spare s cs p) : TablesOk s' ms cs where
  mountList := linked_congr h.mountList fun c hc => by
    obtain ⟨m, hm⟩ := exists_object h.mountList hc
    exact hf.same c (hspare.ne hm nofun)
  mountStart := hf.mountStart.trans h.mountStart
  mountLast := hf.mountLast.trans h.mountLast
  cacheList := linked_congr h.cacheList fun c hc => by
    obtain ⟨e, he⟩ := exists_object h.cacheList hc
    exact hf.same c (hspare.ne he nofun)
  cacheStart := hf.cacheStart.trans h.cacheStart
  cacheLast := hf.cacheLast.trans h.cacheLast
  entries ct hct := (h.entries ct hct).kept (hf.kept h hspare) hct fun _ he hkind =>
    (h.entry_mount hct he hkind).1
  mounts mt hmt := (h.mounts mt hmt).kept (hf.kept h hspare) hmt fun _ hm =>
    (h.mount_entry hmt hm).1
  blocks := (hf.kept h hspare).blocks (fun _ hx => hx) h
  count := hf.count.trans h.count
  few := h.few

/-! ### Mounting -/

namespace Mounted

variable {call : MountCall} {part : PartitionRef} {hashValue : UInt64} {rNode : Ptr}

theorem cache_same (hm : Mounted s s' ms cs call part hashValue rNode) (h : TableLists s ms cs) :
    ∀ ct ∈ cs, ct ≠ cs.getLastD 0 → s'.object ct = s.object ct := by
  intro ct hct hlast
  obtain ⟨hentryFree, hmtFree, hbpbFree, _⟩ := hm.fresh
  obtain ⟨n, _, hn, _⟩ := hm.node
  obtain ⟨e, he⟩ := exists_object h.cacheList hct
  exact hm.same ct (ne_of_free he hentryFree) (ne_of_free he hmtFree) (ne_of_free he hbpbFree)
    (ne_of_object he hn nofun) hlast (ne_getLastD h.mountList he nofun)

theorem mount_same (hm : Mounted s s' ms cs call part hashValue rNode) (h : TableLists s ms cs) :
    ∀ mt ∈ ms, mt ≠ ms.getLastD 0 → s'.object mt = s.object mt := by
  intro mt hmt hlast
  obtain ⟨hentryFree, hmtFree, hbpbFree, _⟩ := hm.fresh
  obtain ⟨n, _, hn, _⟩ := hm.node
  obtain ⟨m, hm'⟩ := exists_object h.mountList hmt
  exact hm.same mt (ne_of_free hm' hentryFree) (ne_of_free hm' hmtFree) (ne_of_free hm' hbpbFree)
    (ne_of_object hm' hn nofun) (ne_getLastD h.cacheList hm' nofun) hlast

/-- The new entries are the last of their tables. -/
theorem lists (hm : Mounted s s' ms cs call part hashValue rNode) (h : TableLists s ms cs) :
    TableLists s' (ms ++ [call.mntTblE]) (cs ++ [call.entry]) := by
  obtain ⟨hentryFree, hmtFree, _, _⟩ := hm.fresh
  obtain ⟨flags, hentry⟩ := hm.entry
  exact
    { mountList := linked_append h.mountList hmtFree hm.mountEntry rfl rfl hm.lastMount
        (hm.mount_same h)
      mountStart := hm.mountStart
      mountLast := by rw [hm.mountLast, List.getLastD_concat]
      cacheList := linked_append h.cacheList hentryFree hentry rfl rfl hm.lastEntry
        (hm.cache_same h)
      cacheStart := hm.cacheStart
      cacheLast := by rw [hm.cacheLast, List.getLastD_concat] }

theorem kept (hm : Mounted s s' ms cs call part hashValue rNode) (h : TablesOk s ms cs)
    (hunused : NodeUnused s cs rNode) : Kept s s' ms cs := by
  obtain ⟨hentryFree, hmtFree, hbpbFree, _⟩ := hm.fresh
  obtain ⟨n, _, hn, _⟩ := hm.node
  have hother : ∀ {x o}, s.object x = some o → (∀ e, o ≠ .cacheEntry e) →
      (∀ m, o ≠ .mountEntry m) → x ≠ rNode → s'.object x = s.object x :=
    fun hx hcache hmount hroot => hm.same _ (ne_of_free hx hentryFree) (ne_of_free hx hmtFree)
      (ne_of_free hx hbpbFree) hroot (ne_getLastD h.cacheList hx hcache)
      (ne_getLastD h.mountList hx hmount)
  exact
    { entry := by
        intro ct hct e he
        rcases eq_or_ne ct (cs.getLastD 0) with heq | hlast
        · exact ⟨call.entry, e.prev, by rw [heq, hm.lastEntry e (heq ▸ he)]⟩
        · exact ⟨e.next, e.prev, by rw [hm.cache_same h.toTableLists ct hct hlast, he]⟩
      mount := by
        intro mt hmt m hm'
        rcases eq_or_ne mt (ms.getLastD 0) with heq | hlast
        · exact ⟨call.mntTblE, m.prev, by rw [heq, hm.lastMount m (heq ▸ hm')]⟩
        · exact ⟨m.next, m.prev, by rw [hm.mount_same h.toTableLists mt hmt hlast, hm']⟩
      node := by
        intro ct hct e he hkind
        obtain ⟨a, ha, _⟩ := h.entry_node hct he hkind
        exact hother ha nofun nofun ((hunused ct hct e he).1 hkind)
      root := by
        intro mt hmt m hm'
        obtain ⟨_, _, a, b', _, _, _, ha, _, hb'⟩ := h.mount_entry hmt hm'
        exact ⟨hother ha nofun nofun (h.root_ne hunused hmt hm'),
          hother hb' nofun nofun (ne_of_object hb' hn nofun)⟩ }

/-- A successful mount keeps the invariant. -/
theorem tablesOk (hm : Mounted s s' ms cs call part hashValue rNode) (h : TablesOk s ms cs)
    (hunused : NodeUnused s cs rNode) (hcount : s.cacheTableCount < maxOpenFileCount) :
    TablesOk s' (ms ++ [call.mntTblE]) (cs ++ [call.entry]) := by
  obtain ⟨_, _, hbpbFree, _⟩ := hm.fresh
  obtain ⟨_, n', _, hn', hcontent, _⟩ := hm.node
  obtain ⟨flags, hentry⟩ := hm.entry
  obtain ⟨b, hb⟩ := hm.block
  have hkept := hm.kept h hunused
  exact
    { hm.lists h.toTableLists with
      entries := by
        intro ct hct
        rcases List.mem_append.mp hct with hct | hct
        · exact ((h.entries ct hct).kept hkept hct fun e he hkind =>
            (h.entry_mount hct he hkind).1).mono (List.subset_append_left _ _)
        · rw [List.mem_singleton.mp hct]
          exact ⟨_, hentry, rfl, Or.inl ⟨rfl, by simp, _, hm.mountEntry, rfl⟩⟩
      mounts := by
        intro mt hmt
        rcases List.mem_append.mp hmt with hmt | hmt
        · exact ((h.mounts mt hmt).kept hkept hmt fun m hm' =>
            (h.mount_entry hmt hm').1).mono (List.subset_append_left _ _)
        · rw [List.mem_singleton.mp hmt]
          exact ⟨_, _, n', b, hm.mountEntry, by simp, hentry, rfl, rfl, hn', hcontent, hb⟩
      blocks := by
        -- the new block was not in use, so no older mount has it
        have hnew : ∀ mt ∈ ms, ∀ m, s'.object mt = some (.mountEntry m) → m.fsBpb ≠ call.bpb := by
          intro mt hmt m hm'
          obtain ⟨a, ha⟩ := exists_object h.mountList hmt
          obtain ⟨_, _, hkeep⟩ := hkept.mount mt hmt a ha
          obtain ⟨_, _, _, b', _, _, _, _, _, hb'⟩ := h.mount_entry hmt ha
          rw [hkeep] at hm'
          cases hm'
          exact ne_of_free hb' hbpbFree
        intro mt hmt mt' hmt' m m' hm₁ hm₂ heq
        rcases List.mem_append.mp hmt with hmt | hmt
        · rcases List.mem_append.mp hmt' with hmt' | hmt'
          · exact hkept.blocks (fun _ hx => hx) h mt hmt mt' hmt' m m' hm₁ hm₂ heq
          · rw [List.mem_singleton.mp hmt', hm.mountEntry] at hm₂
            cases hm₂
            exact absurd heq (hnew mt hmt m hm₁)
        · rw [List.mem_singleton.mp hmt, hm.mountEntry] at hm₁
          cases hm₁
          rcases List.mem_append.mp hmt' with hmt' | hmt'
          · exact absurd heq.symm (hnew mt' hmt' m' hm₂)
          · rw [List.mem_singleton.mp hmt, List.mem_singleton.mp hmt']
      count := by
        rw [hm.count, h.count, add32_of_lt, List.length_append]
        · rfl
        · have hfew : ms.length ≤ 100 := h.few
          omega
      few := by
        rw [h.count] at hcount
        rw [List.length_append]
        exact hcount }

end Mounted

/-! ### Opening -/

namespace Opened

variable {call : OpenCall} {hashValue : UInt64} {origin : Ptr}

theorem other (ho : Opened s s' cs call hashValue origin) {x : Ptr} {o : VfsObject}
    (hx : s.object x = some o) (hlast : x ≠ cs.getLastD 0) : s'.object x = s.object x :=
  ho.same x (ne_of_free hx ho.fresh.1) (ne_of_free hx ho.fresh.2.1) hlast

theorem cache_same (ho : Opened s s' cs call hashValue origin) (h : TableLists s ms cs) :
    ∀ ct ∈ cs, ct ≠ cs.getLastD 0 → s'.object ct = s.object ct := by
  intro ct hct hlast
  obtain ⟨e, he⟩ := exists_object h.cacheList hct
  exact ho.other he hlast

theorem kept (ho : Opened s s' cs call hashValue origin) (h : TablesOk s ms cs) :
    Kept s s' ms cs where
  entry ct hct e he := by
    rcases eq_or_ne ct (cs.getLastD 0) with heq | hlast
    · exact ⟨call.ct, e.prev, by rw [heq, ho.lastEntry e (heq ▸ he)]⟩
    · exact ⟨e.next, e.prev, by rw [ho.cache_same h.toTableLists ct hct hlast, he]⟩
  mount mt _ m hm :=
    ⟨m.next, m.prev, by rw [ho.other hm (ne_getLastD h.cacheList hm nofun), hm]⟩
  node ct hct e he hkind := by
    obtain ⟨a, ha, _⟩ := h.entry_node hct he hkind
    exact ho.other ha (ne_getLastD h.cacheList ha nofun)
  root mt hmt m hm := by
    obtain ⟨_, _, a, b, _, _, _, ha, _, hb⟩ := h.mount_entry hmt hm
    exact ⟨ho.other ha (ne_getLastD h.cacheList ha nofun),
      ho.other hb (ne_getLastD h.cacheList hb nofun)⟩

/-- A successful open keeps the invariant. -/
theorem tablesOk (ho : Opened s s' cs call hashValue origin) (h : TablesOk s ms cs)
    (hcs : cs ≠ []) : TablesOk s' ms (cs ++ [call.ct]) := by
  obtain ⟨contentType, flags, hkind, hentry⟩ := ho.entry
  obtain ⟨n, hn, hcontent, _⟩ := ho.node
  have hkept := ho.kept h
  exact
    { mountList := linked_congr h.mountList fun c hc => by
        obtain ⟨m, hm⟩ := exists_object h.mountList hc
        exact ho.other hm (ne_getLastD h.cacheList hm nofun)
      mountStart := ho.mountStart.trans h.mountStart
      mountLast := ho.mountLast.trans h.mountLast
      cacheList := linked_append h.cacheList ho.fresh.1 hentry rfl rfl ho.lastEntry
        (ho.cache_same h.toTableLists)
      cacheStart := by
        rw [ho.cacheStart, h.cacheStart, headD_append_singleton cs call.ct hcs]
      cacheLast := by rw [ho.cacheLast, List.getLastD_concat]
      entries := by
        intro ct hct
        rcases List.mem_append.mp hct with hct | hct
        · exact (h.entries ct hct).kept hkept hct fun e he hkind => (h.entry_mount hct he hkind).1
        · rw [List.mem_singleton.mp hct]
          exact ⟨_, hentry, rfl, Or.inr ⟨hkind, n, hn, hcontent⟩⟩
      mounts := fun mt hmt => ((h.mounts mt hmt).kept hkept hmt fun m hm =>
        (h.mount_entry hmt hm).1).mono (List.subset_append_left _ _)
      blocks := hkept.blocks (fun _ hx => hx) h
      count := ho.count.trans h.count
      few := h.few }

end Opened

/-! ### Closing -/

namespace Closed

variable {xs ys : List Ptr} {ct : Ptr} {e : CacheTableEntry}

theorem cache_same (hc : Closed s s' xs ys ct e.content) (h : TablesOk s ms (xs ++ ct :: ys))
    (he : s.object ct = some (.cacheEntry e)) (hkind : e.contentType ≠ .mountPnt) :
    ∀ c ∈ xs ++ ys, c ≠ xs.getLastD 0 → c ≠ ys.headD 0 → s'.object c = s.object c := by
  intro c hmem hprev hnext
  obtain ⟨n, hn, _⟩ := h.entry_node (by simp) he hkind
  obtain ⟨e', he'⟩ := exists_object h.cacheList (mem_of_mem_unlinked hmem)
  exact hc.same c (ne_of_mem_unlinked h.cacheList hmem) (ne_of_object he' hn nofun) hprev hnext

theorem other (hc : Closed s s' xs ys ct e.content) (h : TablesOk s ms (xs ++ ct :: ys))
    (he : s.object ct = some (.cacheEntry e)) (hxs : xs ≠ []) (hys : ys ≠ []) {x : Ptr}
    {o : VfsObject} (hx : s.object x = some o) (hcache : ∀ e, o ≠ .cacheEntry e)
    (hnode : x ≠ e.content) : s'.object x = s.object x := by
  obtain ⟨⟨a, ha⟩, ⟨a', ha'⟩, _, _⟩ := neighbour_object h.cacheList hxs hys
  exact hc.same _ (ne_of_object hx he (hcache e)) hnode (ne_of_object hx ha (hcache a))
    (ne_of_object hx ha' (hcache a'))

theorem kept (hc : Closed s s' xs ys ct e.content) (h : TablesOk s ms (xs ++ ct :: ys))
    (he : s.object ct = some (.cacheEntry e)) (hkind : e.contentType ≠ .mountPnt)
    (hxs : xs ≠ []) (hys : ys ≠ []) : Kept s s' ms (xs ++ ys) := by
  obtain ⟨n, hn, hback⟩ := h.entry_node (by simp) he hkind
  exact
    { entry := by
        intro c hmem e' he'
        rcases eq_or_ne c (xs.getLastD 0) with heq | hprev
        · exact ⟨ys.headD 0, e'.prev, by rw [heq, hc.cachePrev e' (heq ▸ he')]⟩
        rcases eq_or_ne c (ys.headD 0) with heq | hnext
        · exact ⟨e'.next, xs.getLastD 0, by rw [heq, hc.cacheNext e' (heq ▸ he')]⟩
        · exact ⟨e'.next, e'.prev, by rw [hc.cache_same h he hkind c hmem hprev hnext, he']⟩
      mount := fun mt _ m hm => ⟨m.next, m.prev, by
        rw [hc.other h he hxs hys hm nofun (ne_of_object hm hn nofun), hm]⟩
      node := by
        intro c hmem e' he' hkind'
        obtain ⟨a, ha, hback'⟩ := h.entry_node (mem_of_mem_unlinked hmem) he' hkind'
        refine hc.other h he hxs hys ha nofun fun heq => ne_of_mem_unlinked h.cacheList hmem ?_
        rw [heq, hn] at ha
        cases ha
        exact hback'.symm.trans hback
      root := by
        intro mt hmt m hm
        obtain ⟨_, _, a, b, _, _, _, ha, hback', hb⟩ := h.mount_entry hmt hm
        refine ⟨hc.other h he hxs hys ha nofun fun heq => ne_of_object hm he nofun ?_,
          hc.other h he hxs hys hb nofun (ne_of_object hb hn nofun)⟩
        rw [heq, hn] at ha
        cases ha
        exact hback'.symm.trans hback }

/-- A successful close keeps the invariant. -/
theorem tablesOk (hc : Closed s s' xs ys ct e.content) (h : TablesOk s ms (xs ++ ct :: ys))
    (he : s.object ct = some (.cacheEntry e)) (hkind : e.contentType ≠ .mountPnt)
    (hxs : xs ≠ []) (hys : ys ≠ []) : TablesOk s' ms (xs ++ ys) := by
  obtain ⟨n, hn, _⟩ := h.entry_node (by simp) he hkind
  obtain ⟨hmountStart, hmountLast, hcacheStart, hcacheLast⟩ := hc.globals
  have hkept := hc.kept h he hkind hxs hys
  exact
    { mountList := linked_congr h.mountList fun c hmem => by
        obtain ⟨m, hm⟩ := exists_object h.mountList hmem
        exact hc.other h he hxs hys hm nofun (ne_of_object hm hn nofun)
      mountStart := hmountStart.trans h.mountStart
      mountLast := hmountLast.trans h.mountLast
      cacheList := linked_unlink h.cacheList hc.cachePrev hc.cacheNext
        (hc.cache_same h he hkind)
      cacheStart := by rw [hcacheStart, h.cacheStart, headD_unlinked hxs]
      cacheLast := by rw [hcacheLast, h.cacheLast, getLastD_unlinked hys]
      entries := fun c hmem => (h.entries c (mem_of_mem_unlinked hmem)).kept hkept hmem
        fun e' he' hkind' => (h.entry_mount (mem_of_mem_unlinked hmem) he' hkind').1
      mounts := fun mt hmt => (h.mounts mt hmt).kept hkept hmt fun m hm => by
        obtain ⟨hmem, e', _, _, he', hkind', _⟩ := h.mount_entry hmt hm
        refine mem_unlinked hmem fun heq => hkind ?_
        rw [heq, he] at he'
        cases he'
        exact hkind'
      blocks := hkept.blocks (fun _ hx => hx) h
      count := hc.count.trans h.count
      few := h.few }

end Closed

/-! ### Unmounting -/

namespace Unmounted

variable {us vs xs ys : List Ptr} {ct : Ptr} {e : CacheTableEntry} {m : MountTableEntry}

/-- The objects that are unlinked and freed, and their neighbours: what an unmount starts from. -/
structure Between (s : VfsState) (us vs xs ys : List Ptr) (ct : Ptr) (e : CacheTableEntry)
    (m : MountTableEntry) : Prop where
  ok : TablesOk s (us ++ e.content :: vs) (xs ++ ct :: ys)
  entry : s.object ct = some (.cacheEntry e)
  kind : e.contentType = .mountPnt
  mount : s.object e.content = some (.mountEntry m)
  before : xs ≠ []
  after : ys ≠ []
  mountBefore : us ≠ []
  mountAfter : vs ≠ []

theorem cache_same (hu : Unmounted s s' us vs xs ys ct e.content m)
    (h : Between s us vs xs ys ct e m) :
    ∀ p ∈ xs ++ ys, p ≠ xs.getLastD 0 → p ≠ ys.headD 0 → s'.object p = s.object p := by
  intro p hmem hprev hnext
  obtain ⟨_, _, n, b, _, _, _, hn, _, hb⟩ := h.ok.mount_entry (by simp) h.mount
  obtain ⟨⟨c, hc⟩, ⟨c', hc'⟩, _, _⟩ :=
    neighbour_object h.ok.mountList h.mountBefore h.mountAfter
  obtain ⟨e', he'⟩ := exists_object h.ok.cacheList (mem_of_mem_unlinked hmem)
  exact hu.same p (ne_of_mem_unlinked h.ok.cacheList hmem) (ne_of_object he' h.mount nofun)
    (ne_of_object he' hb nofun) (ne_of_object he' hn nofun) hprev hnext
    (ne_of_object he' hc nofun) (ne_of_object he' hc' nofun)

theorem mount_same (hu : Unmounted s s' us vs xs ys ct e.content m)
    (h : Between s us vs xs ys ct e m) :
    ∀ p ∈ us ++ vs, p ≠ us.getLastD 0 → p ≠ vs.headD 0 → s'.object p = s.object p := by
  intro p hmem hprev hnext
  obtain ⟨_, _, n, b, _, _, _, hn, _, hb⟩ := h.ok.mount_entry (by simp) h.mount
  obtain ⟨⟨a, ha⟩, ⟨a', ha'⟩, _, _⟩ := neighbour_object h.ok.cacheList h.before h.after
  obtain ⟨m', hm'⟩ := exists_object h.ok.mountList (mem_of_mem_unlinked hmem)
  exact hu.same p (ne_of_object hm' h.entry nofun) (ne_of_mem_unlinked h.ok.mountList hmem)
    (ne_of_object hm' hb nofun) (ne_of_object hm' hn nofun) (ne_of_object hm' ha nofun)
    (ne_of_object hm' ha' nofun) hprev hnext

theorem other (hu : Unmounted s s' us vs xs ys ct e.content m)
    (h : Between s us vs xs ys ct e m) {x : Ptr} {o : VfsObject} (hx : s.object x = some o)
    (hcache : ∀ e, o ≠ .cacheEntry e) (hmount : ∀ m, o ≠ .mountEntry m) (hblock : x ≠ m.fsBpb)
    (hroot : x ≠ m.fsRootNode) : s'.object x = s.object x := by
  obtain ⟨⟨a, ha⟩, ⟨a', ha'⟩, _, _⟩ := neighbour_object h.ok.cacheList h.before h.after
  obtain ⟨⟨c, hc⟩, ⟨c', hc'⟩, _, _⟩ :=
    neighbour_object h.ok.mountList h.mountBefore h.mountAfter
  exact hu.same _ (ne_of_object hx h.entry (hcache e)) (ne_of_object hx h.mount (hmount m))
    hblock hroot (ne_of_object hx ha (hcache a)) (ne_of_object hx ha' (hcache a'))
    (ne_of_object hx hc (hmount c)) (ne_of_object hx hc' (hmount c'))

theorem kept (hu : Unmounted s s' us vs xs ys ct e.content m)
    (h : Between s us vs xs ys ct e m) : Kept s s' (us ++ vs) (xs ++ ys) := by
  have hmt : e.content ∈ us ++ e.content :: vs := by simp
  obtain ⟨_, _, n, b, _, _, _, hn, hback, hb⟩ := h.ok.mount_entry hmt h.mount
  exact
    { entry := by
        intro p hmem e' he'
        rcases eq_or_ne p (xs.getLastD 0) with heq | hprev
        · exact ⟨ys.headD 0, e'.prev, by rw [heq, hu.cachePrev e' (heq ▸ he')]⟩
        rcases eq_or_ne p (ys.headD 0) with heq | hnext
        · exact ⟨e'.next, xs.getLastD 0, by rw [heq, hu.cacheNext e' (heq ▸ he')]⟩
        · exact ⟨e'.next, e'.prev, by rw [hu.cache_same h p hmem hprev hnext, he']⟩
      mount := by
        intro p hmem m' hm'
        rcases eq_or_ne p (us.getLastD 0) with heq | hprev
        · exact ⟨vs.headD 0, m'.prev, by rw [heq, hu.mountPrev m' (heq ▸ hm')]⟩
        rcases eq_or_ne p (vs.headD 0) with heq | hnext
        · exact ⟨m'.next, us.getLastD 0, by rw [heq, hu.mountNext m' (heq ▸ hm')]⟩
        · exact ⟨m'.next, m'.prev, by rw [hu.mount_same h p hmem hprev hnext, hm']⟩
      node := by
        intro p hmem e' he' hkind'
        obtain ⟨a, ha, hback'⟩ := h.ok.entry_node (mem_of_mem_unlinked hmem) he' hkind'
        refine hu.other h ha nofun nofun (ne_of_object ha hb nofun) fun heq =>
          ne_of_object he' h.mount nofun ?_
        rw [heq, hn] at ha
        cases ha
        exact hback'.symm.trans hback
      root := by
        intro p hmem m' hm'
        obtain ⟨_, _, a, b', _, _, _, ha, _, hb'⟩ :=
          h.ok.mount_entry (mem_of_mem_unlinked hmem) hm'
        obtain ⟨hroot, hblock⟩ := h.ok.owned_ne (mem_of_mem_unlinked hmem) hmt hm' h.mount
          (ne_of_mem_unlinked h.ok.mountList hmem)
        exact ⟨hu.other h ha nofun nofun (ne_of_object ha hb nofun) hroot,
          hu.other h hb' nofun nofun hblock (ne_of_object hb' hn nofun)⟩ }

/-- A successful unmount keeps the invariant. -/
theorem tablesOk (hu : Unmounted s s' us vs xs ys ct e.content m)
    (h : Between s us vs xs ys ct e m) : TablesOk s' (us ++ vs) (xs ++ ys) := by
  have hct : m.ctTableEntry = ct := by
    obtain ⟨_, m', hm', hback'⟩ := h.ok.entry_mount (by simp) h.entry h.kind
    rw [h.mount] at hm'
    cases hm'
    exact hback'
  obtain ⟨hmountStart, hmountLast, hcacheStart, hcacheLast⟩ := hu.globals
  have hkept := hu.kept h
  have hlength : (us ++ e.content :: vs).length = (us ++ vs).length + 1 := by
    simp only [List.length_append, List.length_cons]
    omega
  have hfew : (us ++ e.content :: vs).length ≤ 100 := h.ok.few
  exact
    { mountList := linked_unlink h.ok.mountList hu.mountPrev hu.mountNext (hu.mount_same h)
      mountStart := by rw [hmountStart, h.ok.mountStart, headD_unlinked h.mountBefore]
      mountLast := by rw [hmountLast, h.ok.mountLast, getLastD_unlinked h.mountAfter]
      cacheList := linked_unlink h.ok.cacheList hu.cachePrev hu.cacheNext (hu.cache_same h)
      cacheStart := by rw [hcacheStart, h.ok.cacheStart, headD_unlinked h.before]
      cacheLast := by rw [hcacheLast, h.ok.cacheLast, getLastD_unlinked h.after]
      entries := fun p hmem => (h.ok.entries p (mem_of_mem_unlinked hmem)).kept hkept hmem
        fun e' he' hkind' => by
          obtain ⟨hmem', m', hm', hback'⟩ :=
            h.ok.entry_mount (mem_of_mem_unlinked hmem) he' hkind'
          refine mem_unlinked hmem' fun heq => ne_of_mem_unlinked h.ok.cacheList hmem ?_
          rw [heq, h.mount] at hm'
          cases hm'
          exact hback'.symm.trans hct
      mounts := fun p hmem => (h.ok.mounts p (mem_of_mem_unlinked hmem)).kept hkept hmem
        fun m' hm' => by
          obtain ⟨hmem', e', _, _, he', _, hcontent, _⟩ :=
            h.ok.mount_entry (mem_of_mem_unlinked hmem) hm'
          refine mem_unlinked hmem' fun heq => ne_of_mem_unlinked h.ok.mountList hmem ?_
          rw [heq, h.entry] at he'
          cases he'
          exact hcontent.symm
      blocks := hkept.blocks (fun _ hx => mem_of_mem_unlinked hx) h.ok
      count := by
        rw [hu.count, h.ok.count, hlength, sub32_of_le (by omega) (by omega)]
        rfl
      few := by
        show (us ++ vs).length ≤ 100
        omega }

end Unmounted

end Genesis32
