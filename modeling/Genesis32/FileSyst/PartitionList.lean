import Genesis32.FileSyst.Partitions
import Genesis32.Library.LinkedList

/-!
# The list of partitions in memory

`create_linked_list` and `single_disk_scan` of `file_syst/partitions.c` with the nodes that they
allocate, link and free. A pointer is a number and `0` is NULL. The list in memory is the list of
`singleDiskScan`, and what the scan has allocated is what is linked and what it has given back.
-/

namespace Genesis32

open Word

/-! ## The model -/

/-- `struct partition`. -/
structure PartitionNode where
  fDisk : Nat
  fsType : FileSystType
  startSect : Nat
  sectNum : Nat
  isBootable : Bool
  next : Nat

/-- The fields that come from the partition table. -/
def PartitionNode.partition (x : PartitionNode) : Partition :=
  ⟨x.fsType, x.startSect, x.sectNum, x.isBootable⟩

/-- What the memory holds for nodes, the addresses that are in use, the addresses that
`heap_cream_malloc` has returned and those that `heap_cream_free` was called with, in order, and the
field `link_list` of the disk. -/
structure ScanState where
  node : Nat → PartitionNode
  live : List Nat
  given : List Nat
  freed : List Nat
  linkList : Nat

/-- The allocator: the address of the next allocation. -/
structure ScanEnv where
  malloc : ScanState → Nat

/-- The allocations succeed: every one returns memory that is not in use. -/
structure ScanEnv.Works (env : ScanEnv) : Prop where
  ne_null : ∀ s, env.malloc s ≠ 0
  fresh : ∀ s, env.malloc s ∉ s.live

namespace ScanState

/-- A write to a node. -/
def update (s : ScanState) (p : Nat) (f : PartitionNode → PartitionNode) : ScanState :=
  { s with node := Function.update s.node p (f (s.node p)) }

/-- `heap_cream_malloc`. -/
def heapCreamMalloc (s : ScanState) (env : ScanEnv) : Nat × ScanState :=
  (env.malloc s,
    { s with live := env.malloc s :: s.live, given := s.given ++ [env.malloc s] })

/-- `heap_cream_free`. -/
def heapCreamFree (s : ScanState) (p : Nat) : ScanState :=
  { s with live := s.live.erase p, freed := s.freed ++ [p] }

end ScanState

namespace ScanEnv

/-- The node of an entry. -/
def entryNode (disk : Nat) (m : ByteMem) (loopVar : Nat) : PartitionNode where
  fDisk := disk
  fsType := entryType (m (loopVar + 4))
  startSect := get32 m (loopVar + 8)
  sectNum := get32 m (loopVar + 12)
  isBootable := m loopVar = 0x80
  next := 0

/-- The body of the `for` of `create_linked_list`: `head`, `last` and the state. -/
def addEntry (env : ScanEnv) (disk sectCount : Nat) (m : ByteMem) (loopVar head last : Nat)
    (s : ScanState) : Nat × Nat × ScanState :=
  if get32 m (loopVar + 12) = 0x00 then (head, last, s)
  else
    match s.heapCreamMalloc env with
    | (cur, s) =>
        let s := s.update cur fun _ => entryNode disk m loopVar
        if add32 (s.node cur).startSect (s.node cur).sectNum > sectCount then
          (head, last, s.heapCreamFree cur)
        else if head = 0 then (cur, cur, s)
        else (head, cur, s.update last fun x => { x with next := cur })

/-- The `for` of `create_linked_list` over the entries from `i` on, with `n` entries left. -/
def entryLoop (env : ScanEnv) (disk sectCount : Nat) (m : ByteMem) (partitionTable : Nat) :
    Nat → Nat → Nat → Nat → ScanState → Nat × ScanState
  | 0, _, head, _, s => (head, s)
  | n + 1, i, head, last, s =>
      match env.addEntry disk sectCount m (partitionTable + 16 * i) head last s with
      | (head, last, s) => entryLoop env disk sectCount m partitionTable n (i + 1) head last s

/-- `fix_vbr`. -/
def fixVbr (sect0 : ByteMem) (head : Nat) (s : ScanState) : ScanState :=
  s.update head fun x => { x with fsType := Genesis32.fixVbr sect0, startSect := 0 }

/-- `create_linked_list`: the head of the list. -/
def createLinkedList (env : ScanEnv) (disk sectCount : Nat) (sect0 : ByteMem)
    (partitionTable : Nat) (s : ScanState) : Nat × ScanState :=
  if !checkMbr sect0 partitionTable then
    match s.heapCreamMalloc env with
    | (head, s) =>
        (head, (fixVbr sect0 head s).update head fun x =>
          { x with isBootable := false, fDisk := disk, sectNum := sectCount, next := 0 })
  else entryLoop env disk sectCount sect0 partitionTable 4 0 0 0 s

/-- `single_disk_scan`, given what `read_disk_block` returned for sector 0 and the buffer it
left. -/
def singleDiskScan (env : ScanEnv) (disk sectCount : Nat) (code : Int) (sect0 : ByteMem)
    (s : ScanState) : ScanState :=
  if disk = 0 then s
  else
    match { s with linkList := 0 }.heapCreamMalloc env with
    | (buf, s) =>
        if code < 0 then s.heapCreamFree buf
        else if sect0 510 ≠ 0x55 ∨ sect0 511 ≠ 0xaa then s.heapCreamFree buf
        else
          match env.createLinkedList disk sectCount sect0 446 s with
          | (head, s) => { s with linkList := head }.heapCreamFree buf

end ScanEnv

/-! ## The list in memory -/

/-- The nodes of a list of partitions of a disk, from its head to the NULL behind the last. -/
structure ScanState.Lists (s : ScanState) (disk head : Nat) (nodes : List Nat)
    (ps : List Partition) : Prop where
  linked : SinglyLinked 0 (fun p => (s.node p).next) head nodes
  nodup : nodes.Nodup
  partitions : nodes.map (fun p => (s.node p).partition) = ps
  disks : ∀ p ∈ nodes, (s.node p).fDisk = disk

/-- From `s₀` to `s` the nodes and the rejected ones have been allocated, the rejected ones have
been given back and the nodes are in use. -/
structure ScanState.Allocates (s₀ s : ScanState) (nodes rejected : List Nat) : Prop where
  new : ∀ p ∈ nodes, p ∉ s₀.live
  live : s.live.Perm (nodes ++ s₀.live)
  given : s.given.Perm (s₀.given ++ (nodes ++ rejected))
  freed : s.freed = s₀.freed ++ rejected

variable {env : ScanEnv} {s₀ s : ScanState} {disk sectCount head : Nat} {nodes rejected : List Nat}
  {ps : List Partition}

/-- A list does not depend on nodes that are not its own. -/
theorem ScanState.Lists.congr {s' : ScanState} (h : s.Lists disk head nodes ps)
    (hsame : ∀ p ∈ nodes, s'.node p = s.node p) : s'.Lists disk head nodes ps where
  linked := h.linked.congr fun p hp => by rw [hsame p hp]
  nodup := h.nodup
  partitions := by
    rw [← h.partitions]
    exact List.map_congr_left fun p hp => by rw [hsame p hp]
  disks := fun p hp => by
    rw [hsame p hp]
    exact h.disks p hp

theorem ScanState.update_of_ne {p q : Nat} (hne : q ≠ p) (f : PartitionNode → PartitionNode) :
    (s.update p f).node q = s.node q := Function.update_of_ne hne _ _

theorem ScanState.update_self {p : Nat} (f : PartitionNode → PartitionNode) :
    (s.update p f).node p = f (s.node p) := Function.update_self _ _ _

/-- A write to the pointer of a node leaves the other fields of all nodes alone. -/
theorem ScanState.set_next_kept (s : ScanState) (last cur p : Nat) :
    ((s.update last fun x => { x with next := cur }).node p).partition = (s.node p).partition ∧
      ((s.update last fun x => { x with next := cur }).node p).fDisk = (s.node p).fDisk := by
  by_cases hp : p = last
  · rw [hp, update_self]
    exact ⟨rfl, rfl⟩
  · rw [update_of_ne hp]
    exact ⟨rfl, rfl⟩

/-- A node behind which nothing comes, linked behind the last one, extends the list. -/
theorem ScanState.Lists.append {cur : Nat} (h : s.Lists disk head nodes ps) (hcur : cur ∉ nodes)
    (hnull : cur ≠ 0) (hend : (s.node cur).next = 0) (hdisk : (s.node cur).fDisk = disk) :
    ((if head = 0 then s else s.update (nodes.getLastD 0) fun x => { x with next := cur }).Lists
      disk (if head = 0 then cur else head) (nodes ++ [cur]) (ps ++ [(s.node cur).partition])) := by
  have hsingle : [cur].Nodup := List.nodup_cons.mpr ⟨List.not_mem_nil, List.nodup_nil⟩
  by_cases hempty : head = 0
  · -- the first node becomes the head and nothing is written
    obtain rfl := h.linked.eq_null_iff.mp hempty
    rw [if_pos hempty, if_pos hempty, ← h.partitions]
    exact
      { linked := ⟨rfl, hnull, hend⟩
        nodup := hsingle
        partitions := rfl
        disks := fun p hp => by
          rw [List.mem_singleton.mp hp]
          exact hdisk }
  · rw [if_neg hempty]
    have hnodes : nodes ≠ [] := mt h.linked.eq_null_iff.mpr hempty
    have hlast : nodes.getLastD 0 ∈ nodes := DoublyLinked.getLastD_mem hnodes
    have hne : cur ≠ nodes.getLastD 0 := fun heq => hcur (heq ▸ hlast)
    have hlinked : SinglyLinked 0 (fun p =>
        ((s.update (nodes.getLastD 0) fun x => { x with next := cur }).node p).next)
        (if head = 0 then cur else head) (nodes ++ [cur]) :=
      h.linked.append hnull (by rw [update_of_ne hne, hend]) h.nodup fun p _ => by
        by_cases hp : p = nodes.getLastD 0
        · rw [if_pos hp, hp, update_self]
        · rw [if_neg hp, update_of_ne hp]
    have hsame := fun p => s.set_next_kept (nodes.getLastD 0) cur p
    exact
      { linked := hlinked
        nodup := List.nodup_append.mpr ⟨h.nodup, hsingle, fun p hp q hq => by
          rw [List.mem_singleton.mp hq]
          exact fun heq => hcur (heq ▸ hp)⟩
        partitions := by
          rw [List.map_append, ← h.partitions]
          simp only [hsame, List.map_cons, List.map_nil]
        disks := fun p hp => by
          rw [(hsame p).2]
          rcases List.mem_append.mp hp with hp | hp
          · exact h.disks p hp
          · rw [List.mem_singleton.mp hp]
            exact hdisk }

/-- An allocation that becomes a node. -/
theorem ScanState.Allocates.keep (h : s₀.Allocates s nodes rejected) {s' : ScanState} {cur : Nat}
    (hcur : cur ∉ s.live) (hlive : s'.live = cur :: s.live) (hgiven : s'.given = s.given ++ [cur])
    (hfreed : s'.freed = s.freed) : s₀.Allocates s' (nodes ++ [cur]) rejected where
  new := fun p hp hmem => by
    rcases List.mem_append.mp hp with hp | hp
    · exact h.new p hp hmem
    · rw [List.mem_singleton.mp hp] at hmem
      exact hcur (h.live.mem_iff.mpr (List.mem_append_right _ hmem))
  live := by
    rw [hlive]
    refine (h.live.cons cur).trans ?_
    rw [← List.cons_append]
    exact (List.perm_append_singleton cur nodes).symm.append_right _
  given := by
    rw [hgiven]
    refine (h.given.append_right [cur]).trans ?_
    have hswap : (rejected ++ [cur]).Perm ([cur] ++ rejected) := List.perm_append_comm
    rw [List.append_assoc, List.append_assoc, List.append_assoc]
    exact (hswap.append_left nodes).append_left s₀.given
  freed := hfreed.trans h.freed

/-- An allocation that is given back at once. -/
theorem ScanState.Allocates.reject (h : s₀.Allocates s nodes rejected) {s' : ScanState} {cur : Nat}
    (hlive : s'.live = s.live) (hgiven : s'.given = s.given ++ [cur])
    (hfreed : s'.freed = s.freed ++ [cur]) : s₀.Allocates s' nodes (rejected ++ [cur]) where
  new := h.new
  live := hlive ▸ h.live
  given := by
    rw [hgiven]
    refine (h.given.append_right [cur]).trans ?_
    rw [List.append_assoc, List.append_assoc]
  freed := by rw [hfreed, h.freed, List.append_assoc]

/-- From `s` to `s₁` the node `x` has been allocated at `cur`. -/
structure ScanState.Takes (s : ScanState) (cur : Nat) (x : PartitionNode) (s₁ : ScanState) : Prop
    where
  node : s₁.node cur = x
  other : ∀ p ≠ cur, s₁.node p = s.node p
  live : s₁.live = cur :: s.live
  given : s₁.given = s.given ++ [cur]
  freed : s₁.freed = s.freed

/-- An entry that is not empty takes a node, which is given back or linked. -/
theorem add_entry_eq (env : ScanEnv) (s : ScanState) (disk sectCount head last : Nat) {m : ByteMem}
    {loopVar : Nat} (hcount : get32 m (loopVar + 12) ≠ 0x00) :
    ∃ s₁, s.Takes (env.malloc s) (ScanEnv.entryNode disk m loopVar) s₁ ∧
      env.addEntry disk sectCount m loopVar head last s =
        if add32 (get32 m (loopVar + 8)) (get32 m (loopVar + 12)) > sectCount then
          (head, last, s₁.heapCreamFree (env.malloc s))
        else if head = 0 then (env.malloc s, env.malloc s, s₁)
        else (head, env.malloc s, s₁.update last fun x => { x with next := env.malloc s }) := by
  refine ⟨(s.heapCreamMalloc env).2.update (env.malloc s) fun _ =>
    ScanEnv.entryNode disk m loopVar, ?_, ?_⟩
  · exact
      { node := ScanState.update_self _
        other := fun p hp => ScanState.update_of_ne hp _
        live := rfl
        given := rfl
        freed := rfl }
  · rw [ScanEnv.addEntry, if_neg hcount]
    simp only [ScanState.heapCreamMalloc, ScanState.update_self]
    rfl

/-- An entry that is kept becomes the last node of the list, and nothing stays of one that is not.
-/
theorem add_entry_lists (henv : env.Works) (sectCount : Nat) (m : ByteMem) (loopVar : Nat)
    (hlists : s.Lists disk head nodes ps) (halloc : s₀.Allocates s nodes rejected) :
    ∃ (head' : Nat) (s' : ScanState) (nodes' rejected' : List Nat),
      env.addEntry disk sectCount m loopVar head (nodes.getLastD 0) s =
        (head', nodes'.getLastD 0, s') ∧
      s'.Lists disk head' nodes' (ps ++ (entryPartition sectCount m loopVar).toList) ∧
      s₀.Allocates s' nodes' rejected' := by
  unfold entryPartition
  by_cases hzero : get32 m (loopVar + 12) = 0x00
  · -- an entry of no sectors is skipped before a node is allocated
    rw [ScanEnv.addEntry, if_pos hzero, if_pos hzero]
    exact ⟨head, s, nodes, rejected, rfl, by rwa [Option.toList_none, List.append_nil], halloc⟩
  obtain ⟨s₁, htakes, heq⟩ :=
    add_entry_eq env s disk sectCount head (nodes.getLastD 0) hzero
  have hnew := henv.fresh s
  have hfresh : env.malloc s ∉ nodes := fun hmem =>
    hnew (halloc.live.mem_iff.mpr (List.mem_append_left _ hmem))
  have hnull := henv.ne_null s
  rw [heq, if_neg hzero]
  generalize env.malloc s = cur at htakes hnew hfresh hnull ⊢
  have hold := hlists.congr fun p hp => htakes.other p fun h => hfresh (h ▸ hp)
  by_cases hreject : add32 (get32 m (loopVar + 8)) (get32 m (loopVar + 12)) > sectCount
  · -- the node is filled in first and freed when it ends behind the disk
    rw [if_pos hreject, if_pos hreject, Option.toList_none, List.append_nil]
    refine ⟨head, s₁.heapCreamFree cur, nodes, rejected ++ [cur], rfl, hold.congr fun _ _ => rfl,
      halloc.reject ?_ htakes.given ?_⟩
    · rw [ScanState.heapCreamFree, htakes.live, List.erase_cons_head]
    · rw [ScanState.heapCreamFree, htakes.freed]
  · rw [if_neg hreject, if_neg hreject, Option.toList_some]
    have happend := hold.append hfresh hnull (by rw [htakes.node]; rfl) (by rw [htakes.node]; rfl)
    rw [show (s₁.node cur).partition = ⟨entryType (m (loopVar + 4)), get32 m (loopVar + 8),
      get32 m (loopVar + 12), m loopVar = 0x80⟩ by rw [htakes.node]; rfl] at happend
    by_cases hempty : head = 0
    · rw [if_pos hempty, if_pos hempty] at happend
      rw [if_pos hempty]
      exact ⟨cur, s₁, nodes ++ [cur], rejected, by rw [List.getLastD_concat], happend,
        halloc.keep hnew htakes.live htakes.given htakes.freed⟩
    · rw [if_neg hempty, if_neg hempty] at happend
      rw [if_neg hempty]
      exact ⟨head, _, nodes ++ [cur], rejected, by rw [List.getLastD_concat], happend,
        halloc.keep hnew htakes.live htakes.given htakes.freed⟩

/-- The loop appends the partitions of the entries that are left. -/
theorem entry_loop_lists (henv : env.Works) (m : ByteMem) (partitionTable : Nat) :
    ∀ (n i head : Nat) (s : ScanState) (nodes rejected : List Nat) (ps : List Partition),
      s.Lists disk head nodes ps → s₀.Allocates s nodes rejected →
      ∃ (head' : Nat) (s' : ScanState) (nodes' rejected' : List Nat),
        env.entryLoop disk sectCount m partitionTable n i head (nodes.getLastD 0) s =
          (head', s') ∧
        s'.Lists disk head' nodes' (ps ++ (List.range' i n).filterMap fun j =>
          entryPartition sectCount m (partitionTable + 16 * j)) ∧
        s₀.Allocates s' nodes' rejected' := by
  intro n
  induction n with
  | zero =>
      intro i head s nodes rejected ps hlists halloc
      refine ⟨head, s, nodes, rejected, rfl, ?_, halloc⟩
      rwa [List.range'_zero, List.filterMap_nil, List.append_nil]
  | succ n ih =>
      intro i head s nodes rejected ps hlists halloc
      obtain ⟨head₁, s₁, nodes₁, rejected₁, hentry, hlists₁, halloc₁⟩ :=
        add_entry_lists henv sectCount m (partitionTable + 16 * i) hlists halloc
      obtain ⟨head', s', nodes', rejected', hloop, hlists', halloc'⟩ :=
        ih (i + 1) head₁ s₁ nodes₁ rejected₁ _ hlists₁ halloc₁
      refine ⟨head', s', nodes', rejected', ?_, ?_, halloc'⟩
      · rw [ScanEnv.entryLoop, hentry]
        exact hloop
      · rw [List.append_assoc] at hlists'
        rw [List.range'_succ, List.filterMap_cons]
        cases hpart : entryPartition sectCount m (partitionTable + 16 * i) with
        | none =>
            rw [hpart] at hlists'
            exact hlists'
        | some part =>
            rw [hpart] at hlists'
            exact hlists'

/-- `create_linked_list` builds the list of `createLinkedList`. -/
theorem create_linked_list_lists (henv : env.Works) (disk sectCount : Nat) (sect0 : ByteMem)
    (partitionTable : Nat) (s : ScanState) :
    ∃ (head : Nat) (s' : ScanState) (nodes rejected : List Nat),
      env.createLinkedList disk sectCount sect0 partitionTable s = (head, s') ∧
      s'.Lists disk head nodes (createLinkedList sectCount sect0 partitionTable) ∧
      s.Allocates s' nodes rejected := by
  have hnone : s.Allocates s [] [] :=
    { new := fun p hp => absurd hp List.not_mem_nil
      live := List.Perm.refl _
      given := by rw [List.append_nil, List.append_nil]
      freed := (List.append_nil _).symm }
  unfold ScanEnv.createLinkedList createLinkedList
  by_cases hmbr : checkMbr sect0 partitionTable = true
  · rw [hmbr, List.range_eq_range']
    exact entry_loop_lists henv sect0 partitionTable 4 0 0 s [] [] []
      ⟨rfl, List.nodup_nil, rfl, fun p hp => by cases hp⟩ hnone
  · rw [Bool.not_eq_true] at hmbr
    rw [hmbr]
    refine ⟨_, _, [env.malloc s], [], rfl, ?_, hnone.keep (henv.fresh s) rfl rfl rfl⟩
    exact
      { linked := ⟨rfl, henv.ne_null s, congrArg PartitionNode.next (ScanState.update_self _)⟩
        nodup := List.nodup_cons.mpr ⟨List.not_mem_nil, List.nodup_nil⟩
        partitions := by
          simp only [List.map_cons, List.map_nil, ScanState.update_self, ScanEnv.fixVbr]
          rfl
        disks := fun p hp => by
          rw [List.mem_singleton.mp hp, ScanState.update_self] }

/-- After a scan that took its buffer at `buf`, the list of the disk is `ps`, the rejected nodes and
the buffer have been given back, and the nodes of the list are what stays in use. -/
structure ScanState.Scanned (s₀ s : ScanState) (disk buf : Nat) (nodes rejected : List Nat)
    (ps : List Partition) : Prop where
  lists : s.Lists disk s.linkList nodes ps
  live : s.live.Perm (nodes ++ s₀.live)
  given : s.given.Perm (s₀.given ++ buf :: (nodes ++ rejected))
  freed : s.freed = s₀.freed ++ rejected ++ [buf]

/-- Giving the buffer back ends a scan. -/
theorem ScanState.Allocates.scanned {buf : Nat}
    (h : ScanState.Allocates { s₀ with live := buf :: s₀.live, given := s₀.given ++ [buf] } s nodes
      rejected) (hlists : s.Lists disk head nodes ps) :
    s₀.Scanned ({ s with linkList := head }.heapCreamFree buf) disk buf nodes rejected ps where
  lists := hlists.congr fun _ _ => rfl
  live := by
    refine (h.live.erase buf).trans ?_
    rw [List.erase_append_right _ fun hmem => h.new buf hmem List.mem_cons_self,
      List.erase_cons_head]
  given := by
    refine h.given.trans ?_
    rw [List.append_assoc]
    rfl
  freed := by rw [heapCreamFree, h.freed]

/-- `single_disk_scan` builds the list of `singleDiskScan` and gives back everything else. -/
theorem single_disk_scan_lists (henv : env.Works) (hdisk : disk ≠ 0) (sectCount : Nat) (code : Int)
    (sect0 : ByteMem) (s : ScanState) :
    ∃ nodes rejected, s.Scanned (env.singleDiskScan disk sectCount code sect0 s) disk
      (env.malloc { s with linkList := 0 }) nodes rejected
      (singleDiskScan sectCount code sect0) := by
  unfold ScanEnv.singleDiskScan singleDiskScan
  rw [if_neg hdisk]
  simp only [ScanState.heapCreamMalloc]
  generalize env.malloc { s with linkList := 0 } = buf
  -- the exits before `create_linked_list` leave the list empty
  have hempty : ∀ s₁ : ScanState, s₁ = { s with
      live := buf :: s.live, given := s.given ++ [buf], linkList := 0 } →
      s.Scanned (s₁.heapCreamFree buf) disk buf [] [] [] := by
    rintro _ rfl
    exact
      { lists := ⟨rfl, List.nodup_nil, rfl, fun p hp => by cases hp⟩
        live := by
          rw [ScanState.heapCreamFree, List.erase_cons_head]
          exact List.Perm.refl _
        given := List.Perm.refl _
        freed := by rw [List.append_nil]; rfl }
  by_cases hcode : code < 0
  · rw [if_pos hcode, if_pos hcode]
    exact ⟨[], [], hempty _ rfl⟩
  rw [if_neg hcode, if_neg hcode]
  by_cases hsign : sect0 510 ≠ 0x55 ∨ sect0 511 ≠ 0xaa
  · rw [if_pos hsign, if_pos hsign]
    exact ⟨[], [], hempty _ rfl⟩
  rw [if_neg hsign, if_neg hsign]
  obtain ⟨head, s', nodes, rejected, hcreate, hlists, halloc⟩ :=
    create_linked_list_lists henv disk sectCount sect0 446
      { s with live := buf :: s.live, given := s.given ++ [buf], linkList := 0 }
  rw [hcreate]
  simp only
  exact ⟨nodes, rejected, ScanState.Allocates.scanned
    ⟨halloc.new, halloc.live, halloc.given, halloc.freed⟩ hlists⟩

/-! ## What the table says -/

/-- The type byte of entry `i`. -/
def entryTypeByte (sect0 : ByteMem) (i : Nat) : UInt8 := sect0 (446 + 16 * i + 4)

/-- The partition that entry `i` describes, if it has sectors and lies on the disk. -/
def describedPartition (sectCount : Nat) (sect0 : ByteMem) (i : Nat) : Option Partition :=
  if entryCount sect0 i ≠ 0 ∧ entryStart sect0 i + entryCount sect0 i ≤ sectCount then
    some ⟨entryType (entryTypeByte sect0 i), entryStart sect0 i, entryCount sect0 i,
      sect0 (446 + 16 * i) = 0x80⟩
  else none

/-- The six characters at `ptr` are those of `name`. -/
def NameAt (sect0 : ByteMem) (ptr : Nat) (name : List UInt8) : Prop :=
  ∀ j < 6, sect0 (ptr + j) = name.getD j 0x00

instance (sect0 : ByteMem) (ptr : Nat) (name : List UInt8) : Decidable (NameAt sect0 ptr name) :=
  inferInstanceAs (Decidable (∀ j < 6, sect0 (ptr + j) = name.getD j 0x00))

/-- The file system that a boot record names: at `0x36` for FAT12 and FAT16, at `0x52` or at `0x47`
for FAT32. -/
def namedFileSystem (sect0 : ByteMem) : FileSystType :=
  if NameAt sect0 0x36 [0x46, 0x41, 0x54, 0x31, 0x32, 0x20] then .fat12
  else if NameAt sect0 0x36 [0x46, 0x41, 0x54, 0x31, 0x36, 0x20] then .fat16Lba
  else if NameAt sect0 0x52 [0x46, 0x41, 0x54, 0x33, 0x32, 0x20] ∨
      NameAt sect0 0x47 [0x46, 0x41, 0x54, 0x33, 0x32, 0x20] then .fat32Lba
  else .fsUnknown

/-- Against a string without a zero `strncmp` compares all the characters. -/
theorem strncmp_eq_zero_iff {m₁ m₂ : ByteMem} :
    ∀ n s₁ s₂, (∀ j < n, m₂ (s₂ + j) ≠ 0x00) →
      (strncmp m₁ s₁ m₂ s₂ n = 0 ↔ ∀ j < n, m₁ (s₁ + j) = m₂ (s₂ + j)) := by
  intro n
  induction n with
  | zero => exact fun _ _ _ => ⟨fun _ j hj => absurd hj (Nat.not_lt_zero j), fun _ => rfl⟩
  | succ n ih =>
      intro s₁ s₂ hchars
      rw [strncmp]
      by_cases hfirst : m₁ s₁ = m₂ s₂
      · have hrest := ih (s₁ + 1) (s₂ + 1) fun j hj => by
          rw [Nat.add_assoc, Nat.add_comm 1]
          exact hchars (j + 1) (by omega)
        have hzero : m₁ s₁ ≠ 0x00 := by
          rw [hfirst]
          exact hchars 0 (by omega)
        rw [if_neg (not_not.mpr hfirst), if_neg hzero, hrest]
        constructor
        · intro h j hj
          cases j with
          | zero => exact hfirst
          | succ j =>
              have hchar := h j (by omega)
              rwa [Nat.add_assoc, Nat.add_assoc, Nat.add_comm 1] at hchar
        · intro h j hj
          rw [Nat.add_assoc, Nat.add_assoc, Nat.add_comm 1]
          exact h (j + 1) (by omega)
      · rw [if_pos hfirst]
        have hne : (m₁ s₁).toNat ≠ (m₂ s₂).toNat := mt UInt8.toNat_inj.mp hfirst
        exact ⟨fun h => absurd h (by omega), fun h => absurd (h 0 (by omega)) hfirst⟩

theorem strncmp_name_iff {sect0 : ByteMem} {ptr : Nat} {name : List UInt8}
    (hchars : ∀ j < 6, name.getD j 0x00 ≠ 0x00) :
    strncmp sect0 ptr (stringConst name) 0 6 = 0 ↔ NameAt sect0 ptr name := by
  rw [strncmp_eq_zero_iff 6 ptr 0 fun j hj => by
    rw [Nat.zero_add]
    exact hchars j hj]
  simp only [Nat.zero_add]
  rfl

theorem fix_vbr_eq (sect0 : ByteMem) : fixVbr sect0 = namedFileSystem sect0 := by
  unfold fixVbr namedFileSystem
  simp (disch := decide) only [strncmp_name_iff]
  by_cases hlow : NameAt sect0 0x52 [0x46, 0x41, 0x54, 0x33, 0x32, 0x20]
  · rw [if_pos hlow, if_pos (Or.inl hlow)]
  · rw [if_neg hlow]
    simp only [hlow, false_or]

/-- `check_mbr` says whether some type byte is not zero. -/
theorem check_mbr_iff (sect0 : ByteMem) :
    checkMbr sect0 446 = true ↔ ∃ i < 4, entryTypeByte sect0 i ≠ 0x00 := by
  unfold checkMbr entryTypeByte
  rw [List.any_eq_true]
  constructor
  · intro h
    obtain ⟨i, hi, htype⟩ := h
    refine ⟨i, List.mem_range.mp hi, ?_⟩
    rw [Nat.mul_comm 16]
    exact of_decide_eq_true htype
  · intro h
    obtain ⟨i, hi, htype⟩ := h
    refine ⟨i, List.mem_range.mpr hi, decide_eq_true ?_⟩
    rwa [Nat.mul_comm 16] at htype

/-- Where no sum wraps, the entries that are kept are those that describe a partition. -/
theorem entry_partition_described {sect0 : ByteMem} {i : Nat}
    (hsum : entryStart sect0 i + entryCount sect0 i < 4294967296) :
    entryPartition sectCount sect0 (446 + 16 * i) = describedPartition sectCount sect0 i := by
  rw [entry_partition_eq, describedPartition, add32_of_lt hsum]
  by_cases hzero : entryCount sect0 i = 0
  · rw [if_pos hzero, if_neg fun h => h.1 hzero]
  · rw [if_neg hzero]
    by_cases hreject : entryStart sect0 i + entryCount sect0 i > sectCount
    · rw [if_pos hreject, if_neg fun h => absurd h.2 (by omega)]
    · rw [if_neg hreject, if_pos ⟨hzero, by omega⟩]
      rfl

/-- From a sector 0 with the signature `single_disk_scan` builds, without a type byte, the list of
one partition that is the whole disk, and otherwise, if no sum of a start and a count wraps, the
list of the partitions on the disk that the entries describe, in order. Everything else that it has
allocated has been given back. -/
theorem single_disk_scan_decodes (henv : env.Works) (hdisk : disk ≠ 0) (sectCount : Nat)
    {code : Int} (hread : 0 ≤ code) {sect0 : ByteMem} (hsign : sect0 510 = 0x55 ∧ sect0 511 = 0xaa)
    (s : ScanState) :
    ∃ nodes rejected ps, s.Scanned (env.singleDiskScan disk sectCount code sect0 s) disk
        (env.malloc { s with linkList := 0 }) nodes rejected ps ∧
      ((∀ i < 4, entryTypeByte sect0 i = 0x00) →
        ps = [⟨namedFileSystem sect0, 0, sectCount, false⟩]) ∧
      ((∃ i < 4, entryTypeByte sect0 i ≠ 0x00) →
        (∀ i < 4, entryStart sect0 i + entryCount sect0 i < 4294967296) →
        ps = (List.range 4).filterMap (describedPartition sectCount sect0)) := by
  obtain ⟨nodes, rejected, hscanned⟩ :=
    single_disk_scan_lists henv hdisk sectCount code sect0 s
  have hlist : singleDiskScan sectCount code sect0 = createLinkedList sectCount sect0 446 := by
    rw [singleDiskScan, if_neg (by omega), if_neg (by simp [hsign])]
  refine ⟨nodes, rejected, _, hscanned, fun hvbr => ?_, fun hmbr hsums => ?_⟩
  · have hnone : checkMbr sect0 446 = false := by
      rw [← Bool.not_eq_true, check_mbr_iff]
      intro h
      obtain ⟨i, hi, htype⟩ := h
      exact htype (hvbr i hi)
    rw [hlist, createLinkedList, hnone, ← fix_vbr_eq]
    rfl
  · rw [hlist, createLinkedList, (check_mbr_iff sect0).mpr hmbr]
    exact List.filterMap_congr fun i hi =>
      entry_partition_described (hsums i (List.mem_range.mp hi))

/-- An allocator that takes the address behind all that are in use. -/
def upwardEnv : ScanEnv := ⟨fun s => s.live.foldr max 0 + 1⟩

theorem upward_works : upwardEnv.Works where
  ne_null := fun _ => Nat.succ_ne_zero _
  fresh := by
    intro s hmem
    have hle : ∀ (l : List Nat), ∀ p ∈ l, p ≤ l.foldr max 0 := by
      intro l
      induction l with
      | nil => exact fun p hp => by cases hp
      | cons a l ih =>
          intro p hp
          rw [List.foldr_cons]
          rcases List.mem_cons.mp hp with rfl | hp
          · exact Nat.le_max_left _ _
          · exact (ih p hp).trans (Nat.le_max_right _ _)
    have := hle s.live _ hmem
    exact absurd this (Nat.not_succ_le_self _)

/-- A partition table whose second entry lies behind a disk of 1000 sectors. -/
def tableSector : ByteMem := fun x =>
  if x = 446 then 0x80
  else if x = 450 ∨ x = 466 then 0x06
  else if x = 454 ∨ x = 458 ∨ x = 474 then 0x10
  else if x = 471 then 0x20
  else if x = 498 then 0x83
  else if x = 502 then 0x20
  else if x = 507 then 0x01
  else if x = 510 then 0x55
  else if x = 511 then 0xaa
  else 0x00

def idleScan : ScanState := ⟨fun _ => ⟨0, .fsUnknown, 0, 0, false, 0⟩, [], [], [], 0⟩

/-- Its first and its fourth entry are listed. -/
theorem single_disk_scan_decodes_table : ∃ nodes rejected,
    idleScan.Scanned (upwardEnv.singleDiskScan 1 1000 0 tableSector idleScan) 1 1 nodes rejected
      [⟨.fat16G32, 16, 16, true⟩, ⟨.linuxNative, 32, 256, false⟩] := by
  obtain ⟨nodes, rejected, ps, hscanned, _, hmbr⟩ :=
    single_disk_scan_decodes upward_works (show 1 ≠ 0 by decide) 1000 (le_refl (0 : Int))
    (show tableSector 510 = 0x55 ∧ tableSector 511 = 0xaa by decide) idleScan
  have hps := hmbr ⟨0, by decide, by decide⟩ (by decide)
  have hlist : (List.range 4).filterMap (describedPartition 1000 tableSector) =
      [⟨.fat16G32, 16, 16, true⟩, ⟨.linuxNative, 32, 256, false⟩] := by decide
  rw [hps, hlist] at hscanned
  exact ⟨nodes, rejected, hscanned⟩

end Genesis32
