import Genesis32.Disk.ChannelRuns
import Genesis32.FileSyst.PartitionScan

/-!
# The partitions of the machine

`scan_part_all_disks` with `read_disk_block` as the port accesses that it makes. The machine answers
them from its drives, and what `partition_debug` prints afterwards is what the first sectors of the
drives name: `machine_partitions_printed`. The buffer of a scan may have held anything before.
-/

namespace Genesis32

open Word PortProgram

/-! ## The model -/

/-- What the scan meets on the machine: which disk a `struct disk` is for, its number of sectors,
and what the buffer of a slot holds before the read. -/
structure MachineScan where
  idOf : Nat → Ata.DiskId
  sectCount : Ata.DiskId → Nat
  stale : Nat → ByteMem

namespace MachineScan

/-- The fields of a `struct disk` that the driver reads. -/
def ports (S : MachineScan) (disk : Nat) : DiskPorts :=
  (S.idOf disk).ports (S.sectCount (S.idOf disk))

/-- `single_disk_scan` of the disk in slot `i`, with its read of sector 0. -/
def scanDisk (S : MachineScan) (env : ScanEnv) (i disk : Nat) (s : Ata.Machine × DisksState) :
    Ata.Machine × DisksState :=
  let (result, m) :=
    run Ata.Machine.device (readDiskBlockProgram (S.ports disk) 0 1 (S.stale i)) s.1
  (m, Genesis32.scanDisk env (fun _ => ⟨(S.ports disk).sectCount, result.code, result.buf⟩) disk
    s.2)

/-- The `for` of `scan_part_all_disks` from slot `i`, with `r` slots left. -/
def scanSlots (S : MachineScan) (env : ScanEnv) (motherlobe : Nat → Nat) :
    Nat → Nat → Ata.Machine × DisksState → Ata.Machine × DisksState
  | 0, _, s => s
  | r + 1, i, s =>
      if motherlobe i = 0 then scanSlots S env motherlobe r (i + 1) s
      else scanSlots S env motherlobe r (i + 1) (S.scanDisk env i (motherlobe i) s)

/-- `scan_part_all_disks`. -/
def scanPartAllDisks (S : MachineScan) (env : ScanEnv) (motherlobe : Nat → Nat)
    (s : Ata.Machine × DisksState) : Ata.Machine × DisksState :=
  S.scanSlots env motherlobe 5 0 s

/-- The disks as the file system sees them, with sector 0 at the start of each. -/
def disks (S : MachineScan) (blocks : Ata.DiskId → BlockState) (disk : Nat) : ScannedDisk :=
  ⟨(S.ports disk).sectCount, 0, (blocks (S.idOf disk)).disk⟩

end MachineScan

/-! ## The scan looks at sector 0 only -/

variable {m m' : ByteMem} {env : ScanEnv}

theorem get32_congr {ptr : Nat} (h : ∀ x, ptr ≤ x → x < ptr + 4 → m x = m' x) :
    get32 m ptr = get32 m' ptr := by
  rw [get32_eq, get32_eq]
  exact ByteMem.word32_congr h

theorem strncmp_congr {m₂ : ByteMem} : ∀ n s₁ s₂, (∀ x, s₁ ≤ x → x < s₁ + n → m x = m' x) →
    strncmp m s₁ m₂ s₂ n = strncmp m' s₁ m₂ s₂ n := by
  intro n
  induction n with
  | zero => exact fun _ _ _ => rfl
  | succ n ih =>
      intro s₁ s₂ h
      rw [strncmp, strncmp, h s₁ (Nat.le_refl _) (by omega),
        ih (s₁ + 1) (s₂ + 1) fun x hlo hhi => h x (by omega) (by omega)]

theorem add_entry_congr {disk sectCount loopVar head last : Nat} (s : ScanState)
    (h : ∀ x, loopVar ≤ x → x < loopVar + 16 → m x = m' x) :
    env.addEntry disk sectCount m loopVar head last s =
      env.addEntry disk sectCount m' loopVar head last s := by
  have hword : ∀ k, k + 4 ≤ 16 → get32 m (loopVar + k) = get32 m' (loopVar + k) := fun k hk =>
    get32_congr fun x hlo hhi => h x (by omega) (by omega)
  have hnode : ScanEnv.entryNode disk m loopVar = ScanEnv.entryNode disk m' loopVar := by
    rw [ScanEnv.entryNode, ScanEnv.entryNode, hword 8 (by omega), hword 12 (by omega),
      h loopVar (Nat.le_refl _) (by omega), h (loopVar + 4) (by omega) (by omega)]
  rw [ScanEnv.addEntry, ScanEnv.addEntry, hword 12 (by omega), hnode]

theorem entry_loop_congr {disk sectCount partitionTable : Nat} : ∀ n i head last (s : ScanState),
    (∀ x, partitionTable ≤ x → x < partitionTable + 16 * (i + n) → m x = m' x) →
      env.entryLoop disk sectCount m partitionTable n i head last s =
        env.entryLoop disk sectCount m' partitionTable n i head last s := by
  intro n
  induction n with
  | zero => exact fun _ _ _ _ _ => rfl
  | succ n ih =>
      intro i head last s h
      rw [ScanEnv.entryLoop, ScanEnv.entryLoop,
        add_entry_congr s fun x hlo hhi => h x (by omega) (by omega)]
      exact ih (i + 1) _ _ _ fun x hlo hhi => h x hlo (by omega)

/-- Two buffers with the same sector 0 lead to the same list. -/
theorem single_disk_scan_congr {disk sectCount : Nat} {code : Int} (s : ScanState)
    (h : ∀ x < 512, m x = m' x) :
    env.singleDiskScan disk sectCount code m s = env.singleDiskScan disk sectCount code m' s := by
  have hmbr : checkMbr m 446 = checkMbr m' 446 := by
    rw [checkMbr, checkMbr, Bool.eq_iff_iff, List.any_eq_true, List.any_eq_true]
    refine exists_congr fun i => and_congr_right fun hi => ?_
    have hlt := List.mem_range.mp hi
    rw [h (446 + i * 16 + 4) (by omega)]
  have hvbr : fixVbr m = fixVbr m' := by
    have hname : ∀ s₁ name, s₁ + 6 ≤ 512 → strncmp m s₁ name 0 6 = strncmp m' s₁ name 0 6 :=
      fun s₁ name hs => strncmp_congr 6 s₁ 0 fun x _ hhi => h x (by omega)
    rw [fixVbr, fixVbr, hname _ _ (by omega), hname _ _ (by omega), hname _ _ (by omega),
      hname _ _ (by omega)]
  have hlist : ∀ s, env.createLinkedList disk sectCount m 446 s =
      env.createLinkedList disk sectCount m' 446 s := by
    intro s
    rw [ScanEnv.createLinkedList, ScanEnv.createLinkedList, hmbr,
      entry_loop_congr 4 0 0 0 s fun x _ hhi => h x (by omega)]
    simp only [ScanEnv.fixVbr, hvbr]
  rw [ScanEnv.singleDiskScan, ScanEnv.singleDiskScan, h 510 (by omega), h 511 (by omega)]
  simp only [hlist]

/-! ## Reading the first sectors -/

namespace Ata

variable {sectCount : DiskId → Nat} {blocks : DiskId → BlockState} {machine : Machine}

/-- The read of sector 0 of a disk that does not fail brings the start of the disk, and it leaves
all disks as they are. -/
theorem Machine.Serves.read_sector_0 (h : machine.Serves sectCount blocks)
    (hsound : ∀ id dr, machine.drive id = some dr → dr.Sound) {id : DiskId}
    (hpresent : (machine.drive id).isSome) (hsize : 1 ≤ sectCount id) (stale : ByteMem) :
    ∃ machine', run Machine.device (readDiskBlockProgram (id.ports (sectCount id)) 0 1 stale)
        machine = (⟨0, 1, stale.copy 0 (blocks id).disk 0 512⟩, machine') ∧
      machine'.Serves sectCount blocks ∧
      (∀ id', (machine.drive id').isSome → (machine'.drive id').isSome) ∧
      ∀ id' dr, machine'.drive id' = some dr → dr.Sound := by
  obtain ⟨dr, hdrive⟩ := Option.isSome_iff_exists.mp hpresent
  obtain ⟨code, moved, c', hrun, hcalled⟩ :=
    read_disk_block_channel (d := id.ports (sectCount id)) (ata_base_lt id.primary)
      (h.quiet id.primary) hdrive (h.size id dr hdrive) (by omega) (Nat.le_refl 1) (by omega)
      (show 0 + 1 ≤ sectCount id by omega) stale
  have hcode := hcalled.succeeds (h.prompt id dr hdrive) (hsound id dr hdrive)
  have hmoved := hcalled.all hcode
  subst hcode hmoved
  obtain ⟨hserves, hkept, hsound'⟩ :=
    h.called hdrive hcalled (show (blocks id).disk = dr.image from (h.image id dr hdrive).symm)
  rw [Function.update_eq_self] at hserves
  refine ⟨_, ?_, hserves, hkept, hsound' hsound⟩
  -- the read as one of the calls of a run
  rw [show readDiskBlockProgram (id.ports (sectCount id)) 0 1 stale =
    DiskCall.program sectCount ⟨false, id, 0, 1, stale⟩ from rfl, run_call_channel]
  simp only [DiskCall.program, Bool.false_eq_true, if_false]
  rw [show ataBase id.primary = (id.ports (sectCount id)).baseDataPort from rfl, hrun,
    h.image id dr hdrive]

end Ata

/-! ## The scan of the machine -/

variable {S : MachineScan} {blocks : Ata.DiskId → BlockState} {motherlobe : Nat → Nat}

/-- One scan is that of the disk as the file system sees it. -/
theorem scan_disk_machine {machine : Ata.Machine} (h : machine.Serves S.sectCount blocks)
    (hsound : ∀ id dr, machine.drive id = some dr → dr.Sound) {disk : Nat}
    (hpresent : (machine.drive (S.idOf disk)).isSome) (hsize : 1 ≤ S.sectCount (S.idOf disk))
    (i : Nat) (s : DisksState) :
    ∃ machine', S.scanDisk env i disk (machine, s) =
        (machine', scanDisk env (S.disks blocks) disk s) ∧
      machine'.Serves S.sectCount blocks ∧
      (∀ id, (machine.drive id).isSome → (machine'.drive id).isSome) ∧
      ∀ id dr, machine'.drive id = some dr → dr.Sound := by
  obtain ⟨machine', hrun, hkept⟩ := h.read_sector_0 hsound hpresent hsize (S.stale i)
  have hsector : ∀ x < 512, (S.stale i).copy 0 (blocks (S.idOf disk)).disk 0 512 x =
      (blocks (S.idOf disk)).disk x := by
    intro x hx
    rw [ByteMem.copy_inside (by omega) (by omega), Nat.zero_add, Nat.sub_zero]
  refine ⟨machine', ?_, hkept⟩
  rw [MachineScan.scanDisk, MachineScan.ports, hrun]
  simp only [scanDisk, MachineScan.disks, MachineScan.ports, single_disk_scan_congr _ hsector]

/-- The loop scans the disks as the file system sees them, and it leaves them as they are. -/
theorem scan_slots_machine : ∀ r i (machine : Ata.Machine) (s : DisksState),
    machine.Serves S.sectCount blocks →
    (∀ id dr, machine.drive id = some dr → dr.Sound) →
    (∀ j < i + r, motherlobe j ≠ 0 → (machine.drive (S.idOf (motherlobe j))).isSome ∧
      1 ≤ S.sectCount (S.idOf (motherlobe j))) →
    ∃ machine', S.scanSlots env motherlobe r i (machine, s) =
        (machine', scanSlots env (S.disks blocks) motherlobe r i s) ∧
      machine'.Serves S.sectCount blocks := by
  intro r
  induction r with
  | zero => exact fun _ machine _ hserves _ _ => ⟨machine, rfl, hserves⟩
  | succ r ih =>
      intro i machine s hserves hsound hdisks
      rw [MachineScan.scanSlots, scanSlots]
      split_ifs with hnull
      · exact ih (i + 1) machine s hserves hsound fun j hj => hdisks j (by omega)
      · obtain ⟨hpresent, hsize⟩ := hdisks i (by omega) hnull
        obtain ⟨machine₁, hscan, hserves₁, hkept, hsound₁⟩ :=
          scan_disk_machine hserves hsound hpresent hsize i s
        rw [hscan]
        refine ih (i + 1) machine₁ _ hserves₁ hsound₁ fun j hj hne => ?_
        exact ⟨hkept _ (hdisks j (by omega) hne).1, (hdisks j (by omega) hne).2⟩

/-- On a machine whose drives do not fail, `partition_debug` prints behind `scan_part_all_disks` the
partitions that the first sectors of the drives name, whatever the buffers of the reads held, and
the scan leaves the disks as they are. -/
theorem machine_partitions_printed (henv : env.Works) {machine : Ata.Machine}
    (hserves : machine.Serves S.sectCount blocks)
    (hsound : ∀ id dr, machine.drive id = some dr → dr.Sound)
    (hdisks : ∀ i < 5, motherlobe i ≠ 0 → (machine.drive (S.idOf (motherlobe i))).isSome ∧
      1 ≤ S.sectCount (S.idOf (motherlobe i))) (s : DisksState) (c : Console) {fuel : Nat}
    (hfuel : 4 < fuel) : ∃ machine' s',
    S.scanPartAllDisks env motherlobe (machine, s) = (machine', s') ∧
    partitionDebug motherlobe s' fuel c =
      some (c.print (slotsText motherlobe (S.disks blocks) 5 0)) ∧
    machine'.Serves S.sectCount blocks := by
  obtain ⟨machine', hscan, hserves'⟩ := scan_slots_machine 5 0 machine s hserves hsound hdisks
  have hlisted : DisksListed (S.disks blocks) motherlobe
      (scanSlots env (S.disks blocks) motherlobe 5 0 s) 5 :=
    scan_slots_listed henv 5 0 s fun i hi => absurd hi (Nat.not_lt_zero i)
  exact ⟨machine', _, hscan, debug_slots_text hlisted (by omega) hfuel 5 0 c (Nat.le_refl 5),
    hserves'⟩

/-- A drive of 1000 sectors with a partition table. -/
def tableDrive : Ata.Drive :=
  { Ata.blankDrive with
    image := tableSector
    identity := fun i => if i = 120 then 0xe8 else if i = 121 then 0x03 else 0x00 }

/-- A drive on each channel, the first with a partition table. -/
def twoDrives : Ata.Machine := fun primary =>
  { Ata.blankChannel with
    drive := fun master =>
      if master then some (if primary then tableDrive else Ata.blankDrive) else none }

/-- The drives in the slots 1 and 3. -/
def twoDrivesScan : MachineScan where
  idOf disk := ⟨disk = 0x100, true⟩
  sectCount id := if id.primary then 1000 else 16
  stale _ := fun _ => 0xff

theorem two_drives_serve : twoDrives.Serves twoDrivesScan.sectCount
    (fun id => ⟨if id.primary then tableSector else fun _ => 0x00, 0, 0, [], false⟩) ∧
    ∀ id dr, twoDrives.drive id = some dr → dr.Sound := by
  have hdrive : ∀ primary master dr, (twoDrives primary).drive master = some dr →
      dr = if primary then tableDrive else Ata.blankDrive := by
    intro primary master dr h
    cases master with
    | true => exact (Option.some.inj h).symm
    | false => cases h
  refine ⟨⟨fun primary master dr h => ?_, fun id dr h => ?_, fun id dr h => ?_, fun id dr h => ?_⟩,
    fun id dr h => ?_⟩
  · rw [hdrive primary master dr h]
    cases primary <;> rfl
  all_goals
    obtain ⟨primary, master⟩ := id
    rw [hdrive primary master dr h]
    cases primary
  · exact Ata.blank_drive_prompt
  · exact fun _ => Nat.zero_le _
  · show 16 ≤ Ata.blankDrive.size
    decide
  · show 1000 ≤ tableDrive.size
    decide
  · rfl
  · rfl
  · exact fun _ => rfl
  · exact fun _ => rfl

/-- The listing of these two drives. -/
theorem machine_partitions_printed_two : ∃ machine' s',
    twoDrivesScan.scanPartAllDisks upwardEnv
        (fun i => if i = 1 then 0x100 else if i = 3 then 0x200 else 0)
        (twoDrives, ⟨idleScan, fun _ => 0⟩) = (machine', s') ∧
      partitionDebug (fun i => if i = 1 then 0x100 else if i = 3 then 0x200 else 0) s' 5
          ⟨fun _ => 0, 0, 0, []⟩ =
        some (Console.print ⟨fun _ => 0, 0, 0, []⟩
          (slotsText (fun i => if i = 1 then 0x100 else if i = 3 then 0x200 else 0)
            (twoDrivesScan.disks fun id =>
              ⟨if id.primary then tableSector else fun _ => 0x00, 0, 0, [], false⟩) 5 0)) ∧
      machine'.Serves twoDrivesScan.sectCount fun id =>
        ⟨if id.primary then tableSector else fun _ => 0x00, 0, 0, [], false⟩ := by
  refine machine_partitions_printed upward_works two_drives_serve.1 two_drives_serve.2
    (fun i hi hne => ?_) _ _ (Nat.lt_succ_self 4)
  have hslot : i = 1 ∨ i = 3 := by
    by_contra hno
    exact hne (by rw [if_neg fun h => hno (Or.inl h), if_neg fun h => hno (Or.inr h)])
  rcases hslot with rfl | rfl <;> exact ⟨rfl, by decide⟩

end Genesis32
