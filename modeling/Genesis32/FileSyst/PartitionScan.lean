import Genesis32.Console.Hex
import Genesis32.FileSyst.PartitionList

/-!
# All disks

`scan_part_all_disks` and `partition_debug` of `file_syst/partitions.c`, which `kernel_main` calls
one after the other. The scan of a disk allocates the nodes of its list among those of the disks
before it. `partition_debug_prints` says that no list is disturbed by a later scan: the listing that
is printed is, for every disk that there is, what the scan of this disk alone finds.
-/

namespace Genesis32

open Word

/-! ## The model -/

/-- What the scan meets of a disk: its sector count, what `read_disk_block` returns for sector 0,
and the buffer that it leaves. -/
structure ScannedDisk where
  sectCount : Nat
  code : Int
  sect0 : ByteMem

/-- The memory of the scan, and the field `link_list` of every disk. -/
structure DisksState where
  scan : ScanState
  linkList : Nat → Nat

/-- `single_disk_scan` of one of several disks. -/
def scanDisk (env : ScanEnv) (disks : Nat → ScannedDisk) (disk : Nat) (s : DisksState) :
    DisksState :=
  let scan := env.singleDiskScan disk (disks disk).sectCount (disks disk).code (disks disk).sect0
    { s.scan with linkList := s.linkList disk }
  ⟨scan, Function.update s.linkList disk scan.linkList⟩

/-- The `for` of `scan_part_all_disks` from slot `i`, with `r` slots left. -/
def scanSlots (env : ScanEnv) (disks : Nat → ScannedDisk) (motherlobe : Nat → Nat) :
    Nat → Nat → DisksState → DisksState
  | 0, _, s => s
  | r + 1, i, s =>
      if motherlobe i = 0 then scanSlots env disks motherlobe r (i + 1) s
      else scanSlots env disks motherlobe r (i + 1) (scanDisk env disks (motherlobe i) s)

/-- `scan_part_all_disks`. -/
def scanPartAllDisks (env : ScanEnv) (disks : Nat → ScannedDisk) (motherlobe : Nat → Nat)
    (s : DisksState) : DisksState :=
  scanSlots env disks motherlobe 5 0 s

/-- The `switch` of `print_link_list`. -/
def fsTypeName : FileSystType → String
  | .fat12 => "fat12:"
  | .fat16L32 => "fat16:"
  | .fat16G32 => "fat16:"
  | .fat16Lba => "fat16:"
  | .fat32Lba => "fat32:"
  | .fat32Chs => "fat32:"
  | .linuxNative => "linux native:"
  | .fsUnknown => "file system unknown:"

/-- The end of a line of `print_link_list`. -/
def bootName (isBootable : Bool) : String := if isBootable then "bootable\n" else "non bootable\n"

/-- The `while` of `print_link_list`, with `fuel` rounds before it is known not to end. -/
def printNodes (node : Nat → PartitionNode) : Nat → Nat → Console → Option Console
  | 0, _, _ => none
  | fuel + 1, cur, c =>
      if cur = 0 then some c
      else
        let c := c.print (chars (fsTypeName (node cur).fsType))
        let c := c.print (chars (bootName (node cur).isBootable))
        printNodes node fuel (node cur).next c

/-- `print_link_list`. -/
def printLinkList (node : Nat → PartitionNode) (fuel head : Nat) (c : Console) : Option Console :=
  if head = 0 then some (c.print (chars "no linked list\n")) else printNodes node fuel head c

/-- The `for` of `partition_debug` from slot `i`, with `r` slots left. -/
def debugSlots (motherlobe : Nat → Nat) (s : DisksState) (fuel : Nat) :
    Nat → Nat → Console → Option Console
  | 0, _, c => some c
  | r + 1, i, c =>
      if motherlobe i = 0 then debugSlots motherlobe s fuel r (i + 1) c
      else
        let c := c.print (chars "diskno:")
        let c := c.print32 (UInt32.ofNat i)
        let c := c.print (chars "\n")
        match printLinkList s.scan.node fuel (s.linkList (motherlobe i)) c with
        | none => none
        | some c => debugSlots motherlobe s fuel r (i + 1) c

/-- `partition_debug`. -/
def partitionDebug (motherlobe : Nat → Nat) (s : DisksState) (fuel : Nat) (c : Console) :
    Option Console :=
  debugSlots motherlobe s fuel 5 0 c

/-! ## The text -/

/-- The line of a partition. -/
def partitionText (p : Partition) : List UInt8 :=
  chars (fsTypeName p.fsType) ++ chars (bootName p.isBootable)

/-- The lines of a disk. -/
def listText (ps : List Partition) : List UInt8 :=
  if ps = [] then chars "no linked list\n" else ps.flatMap partitionText

/-- What is printed for the disk of a slot. -/
def diskText (i : Nat) (d : ScannedDisk) : List UInt8 :=
  chars "diskno:" ++ Console.hexText 8 i ++ chars "\n" ++
    listText (singleDiskScan d.sectCount d.code d.sect0)

/-- What is printed for the `r` slots from `i` on. -/
def slotsText (motherlobe : Nat → Nat) (disks : Nat → ScannedDisk) (r i : Nat) : List UInt8 :=
  (List.range' i r).flatMap fun j =>
    if motherlobe j = 0 then [] else diskText j (disks (motherlobe j))

/-! ## What a scan leaves alone -/

variable {env : ScanEnv} {s₀ s : ScanState} {disk sectCount head : Nat} {nodes rejected : List Nat}
  {ps : List Partition}

/-- The nodes that are in use in `s₀` are the same in `s`. -/
def ScanState.Keeps (s₀ s : ScanState) : Prop := ∀ p ∈ s₀.live, s.node p = s₀.node p

/-- An entry changes no node that was in use before the list was begun. -/
theorem add_entry_keeps (henv : env.Works) (sectCount : Nat) (m : ByteMem) (loopVar : Nat)
    (hlists : s.Lists disk head nodes ps) (halloc : s₀.Allocates s nodes rejected)
    (hkeeps : s₀.Keeps s) :
    s₀.Keeps (env.addEntry disk sectCount m loopVar head (nodes.getLastD 0) s).2.2 := by
  by_cases hzero : get32 m (loopVar + 12) = 0x00
  · rw [ScanEnv.addEntry, if_pos hzero]
    exact hkeeps
  obtain ⟨s₁, htakes, heq⟩ := add_entry_eq env s disk sectCount head (nodes.getLastD 0) hzero
  have htaken : s₀.Keeps s₁ := by
    intro p hp
    rw [htakes.other p, hkeeps p hp]
    rintro rfl
    exact henv.fresh s (halloc.live.mem_iff.mpr (List.mem_append_right _ hp))
  rw [heq]
  split_ifs with hreject hempty
  · exact htaken
  · exact htaken
  · -- the last node is one of the list, and these are new
    intro p hp
    change (s₁.update (nodes.getLastD 0) fun x => { x with next := env.malloc s }).node p = _
    refine (ScanState.update_of_ne ?_ _).trans (htaken p hp)
    rintro rfl
    refine halloc.new _ (DoublyLinked.getLastD_mem fun hnil => hempty ?_) hp
    exact hlists.linked.eq_null_iff.mpr hnil

theorem entry_loop_keeps (henv : env.Works) (m : ByteMem) (partitionTable : Nat) :
    ∀ (n i head : Nat) (s : ScanState) (nodes rejected : List Nat) (ps : List Partition),
      s.Lists disk head nodes ps → s₀.Allocates s nodes rejected → s₀.Keeps s →
      s₀.Keeps (env.entryLoop disk sectCount m partitionTable n i head (nodes.getLastD 0) s).2 := by
  intro n
  induction n with
  | zero => exact fun i head s nodes rejected ps _ _ hkeeps => hkeeps
  | succ n ih =>
      intro i head s nodes rejected ps hlists halloc hkeeps
      have hstep := add_entry_keeps henv sectCount m (partitionTable + 16 * i) hlists halloc hkeeps
      obtain ⟨head₁, s₁, nodes₁, rejected₁, hentry, hlists₁, halloc₁⟩ :=
        add_entry_lists henv sectCount m (partitionTable + 16 * i) hlists halloc
      rw [hentry] at hstep
      rw [ScanEnv.entryLoop, hentry]
      exact ih (i + 1) head₁ s₁ nodes₁ rejected₁ _ hlists₁ halloc₁ hstep

theorem create_linked_list_keeps (henv : env.Works) (disk sectCount : Nat) (sect0 : ByteMem)
    (partitionTable : Nat) (s : ScanState) :
    s.Keeps (env.createLinkedList disk sectCount sect0 partitionTable s).2 := by
  unfold ScanEnv.createLinkedList
  by_cases hmbr : checkMbr sect0 partitionTable = true
  · rw [hmbr]
    exact entry_loop_keeps henv sect0 partitionTable 4 0 0 s [] [] []
      ⟨rfl, List.nodup_nil, rfl, fun p hp => by cases hp⟩
      { new := fun p hp => absurd hp List.not_mem_nil
        live := List.Perm.refl _
        given := by rw [List.append_nil, List.append_nil]
        freed := (List.append_nil _).symm } fun _ _ => rfl
  · rw [Bool.not_eq_true] at hmbr
    rw [hmbr, Bool.not_false, if_pos rfl]
    intro p hp
    have hne : p ≠ env.malloc s := by
      rintro rfl
      exact henv.fresh s hp
    simp only [ScanState.heapCreamMalloc, ScanEnv.fixVbr]
    exact (ScanState.update_of_ne hne _).trans (ScanState.update_of_ne hne _)

/-- A scan changes no node that was in use before it. -/
theorem single_disk_scan_keeps (henv : env.Works) (disk sectCount : Nat) (code : Int)
    (sect0 : ByteMem) (s : ScanState) :
    s.Keeps (env.singleDiskScan disk sectCount code sect0 s) := by
  unfold ScanEnv.singleDiskScan
  by_cases hdisk : disk = 0
  · rw [if_pos hdisk]
    exact fun _ _ => rfl
  rw [if_neg hdisk]
  simp only [ScanState.heapCreamMalloc]
  by_cases hcode : code < 0
  · rw [if_pos hcode]
    exact fun _ _ => rfl
  rw [if_neg hcode]
  by_cases hsign : sect0 510 ≠ 0x55 ∨ sect0 511 ≠ 0xaa
  · rw [if_pos hsign]
    exact fun _ _ => rfl
  rw [if_neg hsign]
  exact fun p hp => create_linked_list_keeps henv disk sectCount sect0 446 _ p
    (List.mem_cons_of_mem _ hp)

/-! ## The scan of all disks -/

/-- Every disk in a slot before `k` has the list of its own scan, in nodes that are in use. -/
def DisksListed (disks : Nat → ScannedDisk) (motherlobe : Nat → Nat) (s : DisksState) (k : Nat) :
    Prop :=
  ∀ i < k, motherlobe i ≠ 0 → ∃ nodes,
    s.scan.Lists (motherlobe i) (s.linkList (motherlobe i)) nodes
      (singleDiskScan (disks (motherlobe i)).sectCount (disks (motherlobe i)).code
        (disks (motherlobe i)).sect0) ∧
    ∀ p ∈ nodes, p ∈ s.scan.live

variable {disks : Nat → ScannedDisk} {motherlobe : Nat → Nat}

/-- The scan of one more disk adds its list and keeps the others. -/
theorem scan_disk_listed (henv : env.Works) {s : DisksState} {k : Nat}
    (h : DisksListed disks motherlobe s k) (hdisk : motherlobe k ≠ 0) :
    DisksListed disks motherlobe (scanDisk env disks (motherlobe k) s) (k + 1) := by
  have hkeeps := single_disk_scan_keeps henv (motherlobe k) (disks (motherlobe k)).sectCount
    (disks (motherlobe k)).code (disks (motherlobe k)).sect0
    { s.scan with linkList := s.linkList (motherlobe k) }
  obtain ⟨new, rejected, hscanned⟩ := single_disk_scan_lists henv hdisk
    (disks (motherlobe k)).sectCount (disks (motherlobe k)).code (disks (motherlobe k)).sect0
    { s.scan with linkList := s.linkList (motherlobe k) }
  have hlink : (scanDisk env disks (motherlobe k) s).linkList = Function.update s.linkList
      (motherlobe k) (scanDisk env disks (motherlobe k) s).scan.linkList := rfl
  intro i hi hne
  by_cases hsame : motherlobe i = motherlobe k
  · refine ⟨new, ?_, fun p hp => ?_⟩
    · rw [hsame, hlink, Function.update_self]
      exact hscanned.lists
    · exact hscanned.live.mem_iff.mpr (List.mem_append_left _ hp)
  · have hlt : i < k := by
      by_contra hge
      exact hsame (congrArg motherlobe (by omega))
    obtain ⟨nodes, hlists, hlive⟩ := h i hlt hne
    refine ⟨nodes, ?_, fun p hp => ?_⟩
    · rw [hlink, Function.update_of_ne hsame]
      exact hlists.congr fun p hp => hkeeps p (hlive p hp)
    · exact hscanned.live.mem_iff.mpr (List.mem_append_right _ (hlive p hp))

/-- The loop lists the disks of the slots that it passes. -/
theorem scan_slots_listed (henv : env.Works) : ∀ r i (s : DisksState),
    DisksListed disks motherlobe s i →
      DisksListed disks motherlobe (scanSlots env disks motherlobe r i s) (i + r) := by
  intro r
  induction r with
  | zero => exact fun i s h => h
  | succ r ih =>
      intro i s h
      rw [scanSlots, show i + (r + 1) = i + 1 + r by omega]
      split_ifs with hnull
      · refine ih (i + 1) s fun j hj hne => ?_
        have hji : j ≠ i := fun heq => hne (heq ▸ hnull)
        exact h j (by omega) hne
      · exact ih (i + 1) _ (scan_disk_listed henv h hnull)

/-! ## The listing -/

theorem fs_type_name_ne_nul (t : FileSystType) : ∀ ch ∈ chars (fsTypeName t), ch ≠ 0 := by
  cases t <;> simp [chars, fsTypeName]

theorem boot_name_ne_nul (b : Bool) : ∀ ch ∈ chars (bootName b), ch ≠ 0 := by
  cases b <;> simp [chars, bootName]

theorem partition_text_ne_nul (p : Partition) : ∀ ch ∈ partitionText p, ch ≠ 0 := by
  intro ch hch
  rcases List.mem_append.mp hch with hch | hch
  · exact fs_type_name_ne_nul p.fsType ch hch
  · exact boot_name_ne_nul p.isBootable ch hch

theorem list_text_ne_nul (ps : List Partition) : ∀ ch ∈ listText ps, ch ≠ 0 := by
  rw [listText]
  split_ifs with hempty
  · simp [chars]
  · intro ch hch
    obtain ⟨p, _, hch⟩ := List.mem_flatMap.mp hch
    exact partition_text_ne_nul p ch hch

theorem disk_name_ne_nul : ∀ ch ∈ chars "diskno:", ch ≠ 0 := by simp [chars]

theorem line_end_ne_nul : ∀ ch ∈ chars "\n", ch ≠ 0 := by simp [chars]

theorem disk_text_ne_nul (i : Nat) (d : ScannedDisk) : ∀ ch ∈ diskText i d, ch ≠ 0 := by
  intro ch hch
  rcases List.mem_append.mp hch with hch | hch
  · rcases List.mem_append.mp hch with hch | hch
    · rcases List.mem_append.mp hch with hch | hch
      · exact disk_name_ne_nul ch hch
      · exact Console.hex_text_ne_nul 8 i ch hch
    · exact line_end_ne_nul ch hch
  · exact list_text_ne_nul _ ch hch

/-- The walk along a list prints the line of every node. -/
theorem print_nodes_text (node : Nat → PartitionNode) : ∀ (nodes : List Nat) (fuel cur : Nat)
    (c : Console), SinglyLinked 0 (fun p => (node p).next) cur nodes → nodes.length < fuel →
      printNodes node fuel cur c =
        some (c.print ((nodes.map fun p => (node p).partition).flatMap partitionText)) := by
  intro nodes
  induction nodes with
  | nil =>
      intro fuel cur c hlinked hfuel
      obtain ⟨fuel, rfl⟩ := Nat.exists_eq_add_of_lt hfuel
      exact if_pos hlinked
  | cons p nodes ih =>
      intro fuel cur c hlinked hfuel
      obtain ⟨fuel, rfl⟩ := Nat.exists_eq_add_of_lt hfuel
      obtain ⟨rfl, hne, hrest⟩ := hlinked
      rw [printNodes, if_neg hne]
      simp only
      rw [ih _ _ _ hrest (by rw [List.length_cons]; omega), List.map_cons, List.flatMap_cons,
        Console.print_append (partition_text_ne_nul _), partitionText,
        Console.print_append (fs_type_name_ne_nul _)]
      rfl

/-- A sector 0 lists at most four partitions. -/
theorem single_disk_scan_few (sectCount : Nat) (code : Int) (sect0 : ByteMem) :
    (singleDiskScan sectCount code sect0).length ≤ 4 := by
  rw [singleDiskScan]
  split_ifs
  · exact Nat.zero_le 4
  · exact Nat.zero_le 4
  · rw [createLinkedList]
    split_ifs
    · exact Nat.succ_le_succ (Nat.zero_le 3)
    · exact List.length_filterMap_le _ _

/-- The listing of a disk whose list is in memory. -/
theorem print_link_list_text {fuel : Nat} (hlists : s.Lists disk head nodes ps)
    (hfuel : ps.length < fuel) (c : Console) :
    printLinkList s.node fuel head c = some (c.print (listText ps)) := by
  have hnodes := hlists.partitions
  rw [printLinkList, listText]
  by_cases hempty : nodes = []
  · subst hempty
    have hnone : ps = [] := hnodes.symm
    rw [if_pos (hlists.linked.eq_null_iff.mpr rfl), if_pos hnone]
  · have hne : ps ≠ [] := by
      rw [← hnodes]
      exact fun h => hempty (List.map_eq_nil_iff.mp h)
    have hlength : nodes.length = ps.length := by rw [← hnodes, List.length_map]
    rw [if_neg (mt hlists.linked.eq_null_iff.mp hempty), if_neg hne,
      print_nodes_text s.node nodes fuel head c hlists.linked (by omega), hnodes]

/-- The loop prints the disks of the slots that are left. -/
theorem debug_slots_text {s : DisksState} {fuel k : Nat} (h : DisksListed disks motherlobe s k)
    (hk : k ≤ 4294967296) (hfuel : 4 < fuel) : ∀ r i c, i + r ≤ k →
      debugSlots motherlobe s fuel r i c = some (c.print (slotsText motherlobe disks r i)) := by
  intro r
  induction r with
  | zero => exact fun _ _ _ => rfl
  | succ r ih =>
      intro i c hi
      have htext : slotsText motherlobe disks (r + 1) i =
          (if motherlobe i = 0 then [] else diskText i (disks (motherlobe i))) ++
            slotsText motherlobe disks r (i + 1) := by
        rw [slotsText, List.range'_succ, List.flatMap_cons]
        rfl
      rw [debugSlots, htext]
      by_cases hnull : motherlobe i = 0
      · rw [if_pos hnull, if_pos hnull, List.nil_append]
        exact ih (i + 1) c (by omega)
      · obtain ⟨nodes, hlists, _⟩ := h i (by omega) hnull
        have hfew := single_disk_scan_few (disks (motherlobe i)).sectCount
          (disks (motherlobe i)).code (disks (motherlobe i)).sect0
        have hslot : (UInt32.ofNat i).toNat = i := by
          rw [UInt32.toNat_ofNat']
          omega
        rw [if_neg hnull, if_neg hnull]
        simp only
        rw [print_link_list_text hlists (by omega)]
        simp only
        rw [ih (i + 1) _ (by omega), Console.print_append (disk_text_ne_nul i _), diskText,
          List.append_assoc, List.append_assoc, Console.print_append disk_name_ne_nul,
          Console.print_append (Console.hex_text_ne_nul 8 i), Console.print_append line_end_ne_nul,
          Console.print_32_text, hslot]

/-- What `partition_debug` prints behind `scan_part_all_disks` is, for every slot with a disk, the
number of the slot and the partitions that the sector 0 of this disk names, whatever the scans of
the other disks have allocated. -/
theorem partition_debug_prints (env : ScanEnv) (henv : env.Works) (disks : Nat → ScannedDisk)
    (motherlobe : Nat → Nat) (s : DisksState) (c : Console) {fuel : Nat} (hfuel : 4 < fuel) :
    partitionDebug motherlobe (scanPartAllDisks env disks motherlobe s) fuel c =
      some (c.print (slotsText motherlobe disks 5 0)) :=
  debug_slots_text (scan_slots_listed henv 5 0 s fun i hi => absurd hi (Nat.not_lt_zero i))
    (by omega) hfuel 5 0 c (Nat.le_refl 5)

/-- Two disks in the slots 1 and 3, the first with a partition table. -/
theorem partition_debug_prints_two :
    partitionDebug (fun i => if i = 1 then 0x100 else if i = 3 then 0x200 else 0)
        (scanPartAllDisks upwardEnv
          (fun d => ⟨1000, 0, if d = 0x100 then tableSector else fun _ => 0x00⟩)
          (fun i => if i = 1 then 0x100 else if i = 3 then 0x200 else 0)
          ⟨idleScan, fun _ => 0⟩) 5 ⟨fun _ => 0, 0, 0, []⟩ =
      some (Console.print ⟨fun _ => 0, 0, 0, []⟩
        (slotsText (fun i => if i = 1 then 0x100 else if i = 3 then 0x200 else 0)
          (fun d => ⟨1000, 0, if d = 0x100 then tableSector else fun _ => 0x00⟩) 5 0)) :=
  partition_debug_prints upwardEnv upward_works _ _ _ _ (Nat.lt_succ_self 4)

/-- The text of these two disks. -/
example : slotsText (fun i => if i = 1 then 0x100 else if i = 3 then 0x200 else 0)
    (fun d => ⟨1000, 0, if d = 0x100 then tableSector else fun _ => 0x00⟩) 5 0 =
      chars ("diskno:00000001\nfat16:bootable\nlinux native:non bootable\n" ++
        "diskno:00000003\nno linked list\n") := by
  decide

end Genesis32
