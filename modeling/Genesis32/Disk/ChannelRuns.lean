import Genesis32.Disk.BlockIO
import Genesis32.Disk.ChannelCalls

/-!
# Runs of driver calls on the machine

The machine has two channels, at the ports 0x1f0 and 0x170, and so up to four disks. A call of the
driver uses the ports of one channel and leaves the other one alone. Over any run of calls, to
whichever disks, the disks that the file system sees and the images in the drives are the same, with
the number of sectors that each command moves as the only thing that is left open.
-/

namespace Genesis32

open Word PortProgram

namespace Ata

/-! ## The machine -/

/-- The first port of a channel, the primary one under `true`. -/
def ataBase (primary : Bool) : Nat := if primary then 0x1f0 else 0x170

theorem ata_base_lt (primary : Bool) : ataBase primary + 7 < 65536 := by
  cases primary <;> decide

/-- The two channels of the machine. -/
abbrev Machine := Bool → Channel

namespace Machine

/-- The channel at a port. -/
def channelAt (port : Nat) : Option Bool :=
  if ataBase true ≤ port ∧ port < ataBase true + 8 then some true
  else if ataBase false ≤ port ∧ port < ataBase false + 8 then some false
  else none

/-- The machine behind its ports. Nothing answers at the other ones. -/
def device : Device Machine PortInput PortWrite Nat where
  answer m i :=
    match channelAt i.port with
    | some primary =>
        let answer := (Channel.device (ataBase primary)).answer (m primary) i
        (answer.1, Function.update m primary answer.2)
    | none => (0xffff, m)
  take m w :=
    match channelAt w.port with
    | some primary =>
        Function.update m primary ((Channel.device (ataBase primary)).take (m primary) w)
    | none => m

theorem channel_at {primary : Bool} {port : Nat}
    (h : ataBase primary ≤ port ∧ port < ataBase primary + 8) :
    channelAt port = some primary := by
  cases primary with
  | true => exact if_pos h
  | false =>
      have hno : ¬ (ataBase true ≤ port ∧ port < ataBase true + 8) := by
        simp only [ataBase] at h ⊢
        simp only [Bool.false_eq_true, if_false, if_true] at h ⊢
        omega
      rw [channelAt, if_neg hno, if_pos h]

/-- A channel is the part of the machine behind its ports. -/
theorem part (primary : Bool) : Part device (Channel.device (ataBase primary))
    (fun m => m primary) (fun m c => Function.update m primary c)
    (fun i => ataBase primary ≤ i.port ∧ i.port < ataBase primary + 8)
    (fun w => ataBase primary ≤ w.port ∧ w.port < ataBase primary + 8) where
  answer m i hi := by
    simp only [device, channel_at hi]
  take m w hw := by
    simp only [device, channel_at hw]
  get_set m c := Function.update_self ..
  set_set m c c' := Function.update_idem ..
  set_get m := Function.update_eq_self ..

end Machine

/-- One of the four disks. -/
structure DiskId where
  primary : Bool
  master : Bool
  deriving DecidableEq

/-- The drive of a disk. -/
def Machine.drive (m : Machine) (id : DiskId) : Option Drive := (m id.primary).drive id.master

/-- The fields of its `struct disk`, with the number of sectors. -/
def DiskId.ports (id : DiskId) (sectCount : Nat) : DiskPorts :=
  ⟨ataBase id.primary, id.master, sectCount⟩

/-! ## Runs of calls -/

/-- A call of `write_disk_block` or of `read_disk_block`. -/
structure DiskCall where
  store : Bool
  id : DiskId
  lba : Nat
  total : Nat
  buf : ByteMem

/-- The program of a call. -/
def DiskCall.program (sectCount : DiskId → Nat) (call : DiskCall) : DriverProgram BlockResult :=
  if call.store then
    writeDiskBlockProgram (call.id.ports (sectCount call.id)) call.lba call.total call.buf
  else readDiskBlockProgram (call.id.ports (sectCount call.id)) call.lba call.total call.buf

/-- The calls of a list on the machine, with what they return. -/
def runCalls (sectCount : DiskId → Nat) : List DiskCall → Machine → List BlockResult × Machine
  | [], m => ([], m)
  | call :: calls, m =>
      let (result, m) := run Machine.device (call.program sectCount) m
      let (results, m) := runCalls sectCount calls m
      (result :: results, m)

/-- What a call does to the disks of the file system: the buffer after it, and whether it moves all
its sectors. -/
def DiskCall.block (env : DiskId → BlockEnv) (call : DiskCall) (s : DiskId → BlockState) :
    (ByteMem × Bool) × (DiskId → BlockState) :=
  let all := add32 call.lba call.total ≤ (env call.id).sectCount ∧
    call.total ≤ (env call.id).moved (s call.id).commands call.total
  if call.store then
    ((call.buf, all), Function.update s call.id
      ((s call.id).writeBlock (env call.id) call.lba call.total call.buf 0))
  else
    let (buf, after) := (s call.id).readBlock (env call.id) call.lba call.total call.buf 0
    ((buf, all), Function.update s call.id after)

/-- The calls of a list on the disks of the file system. -/
def blockCalls (env : DiskId → BlockEnv) :
    List DiskCall → (DiskId → BlockState) → List (ByteMem × Bool) × (DiskId → BlockState)
  | [], s => ([], s)
  | call :: calls, s =>
      let (result, s) := call.block env s
      let (results, s) := blockCalls env calls s
      (result :: results, s)

/-- The machine is between two calls, its drives are prompt and as large as their disks, and the
disks of the file system are their images. -/
structure Machine.Serves (m : Machine) (sectCount : DiskId → Nat) (s : DiskId → BlockState) :
    Prop where
  quiet : ∀ primary, (m primary).Quiet
  prompt : ∀ id dr, m.drive id = some dr → dr.Prompt
  size : ∀ id dr, m.drive id = some dr → sectCount id ≤ dr.size
  image : ∀ id dr, m.drive id = some dr → dr.image = (s id).disk

/-- The disk is there, its LBA has 28 bits and the count is between 1 and 256. -/
structure DiskCall.Fits (m : Machine) (call : DiskCall) : Prop where
  present : (m.drive call.id).isSome
  lba : call.lba < 268435456
  pos : 1 ≤ call.total
  le : call.total ≤ 256

/-- The environment with other numbers of sectors moved. -/
def movedEnv (env : DiskId → BlockEnv) (moved : DiskId → Nat → Nat → Nat) (id : DiskId) :
    BlockEnv :=
  { env id with moved := moved id }

variable {sectCount : DiskId → Nat} {m m' : Machine} {s : DiskId → BlockState}
  {env : DiskId → BlockEnv}

/-- A call changes the drive of its disk only. -/
theorem Machine.drive_update {id : DiskId} {c' : Channel}
    (hother : c'.drive (!id.master) = (m id.primary).drive (!id.master)) (id' : DiskId) :
    Machine.drive (Function.update m id.primary c') id' =
      if id' = id then c'.drive id.master else m.drive id' := by
  obtain ⟨primary, master⟩ := id
  obtain ⟨primary', master'⟩ := id'
  rw [Machine.drive, Machine.drive, Function.update_apply]
  simp only [DiskId.mk.injEq]
  by_cases hprimary : primary' = primary
  · subst hprimary
    by_cases hmaster : master' = master
    · rw [if_pos rfl, if_pos ⟨rfl, hmaster⟩, hmaster]
    · have hnot : master' = !master := by
        cases master' <;> cases master <;> first | rfl | exact absurd rfl hmaster
      rw [if_pos rfl, if_neg (fun h => hmaster h.2), hnot]
      exact hother
  · rw [if_neg hprimary, if_neg fun h => hprimary h.1]

/-- What a call on a drive leaves of a machine that serves the disks. -/
theorem Machine.Serves.called (h : m.Serves sectCount s) {id : DiskId} {dr : Drive}
    (hdrive : m.drive id = some dr) {c' : Channel} {image : ByteMem} {code : Int}
    {moved total : Nat} (hcalled : Called id.master dr (m id.primary) c' image code moved total)
    {after : BlockState} (himage : after.disk = image) :
    Machine.Serves (Function.update m id.primary c') sectCount (Function.update s id after) ∧
      (∀ id', (m.drive id').isSome → (Machine.drive (Function.update m id.primary c') id').isSome) ∧
      ((∀ id' dr, m.drive id' = some dr → dr.Sound) →
        ∀ id' dr, Machine.drive (Function.update m id.primary c') id' = some dr → dr.Sound) := by
  obtain ⟨dr', hdrive', hevolves, himage'⟩ := hcalled.drive
  have hupdate : ∀ id', Machine.drive (Function.update m id.primary c') id' =
      if id' = id then c'.drive id.master else m.drive id' := Machine.drive_update hcalled.other
  rw [hdrive'] at hupdate
  refine ⟨⟨fun primary => ?_, fun id' dr₁ hdr => ?_, fun id' dr₁ hdr => ?_,
    fun id' dr₁ hdr => ?_⟩, fun id' hsome => ?_, fun hsound id' dr₁ hdr => ?_⟩
  · rw [Function.update_apply]
    split_ifs
    · exact hcalled.quiet (h.prompt id dr hdrive)
    · exact h.quiet primary
  all_goals rw [hupdate] at *
  · split_ifs at hdr with hid
    · exact Option.some.inj hdr ▸ hevolves.prompt (h.prompt id dr hdrive)
    · exact h.prompt id' dr₁ hdr
  · split_ifs at hdr with hid
    · obtain rfl := Option.some.inj hdr
      rw [hid, Drive.size, hevolves.identity]
      exact h.size id dr hdrive
    · exact h.size id' dr₁ hdr
  · split_ifs at hdr with hid
    · obtain rfl := Option.some.inj hdr
      rw [hid, Function.update_self, himage, himage']
    · rw [Function.update_of_ne hid, h.image id' dr₁ hdr]
  · split_ifs
    · rfl
    · exact hsome
  · split_ifs at hdr with hid
    · exact Option.some.inj hdr ▸ hevolves.sound (hsound id dr hdrive)
    · exact hsound id' dr₁ hdr

/-- A call runs on the channel of its disk. -/
theorem run_call_channel (call : DiskCall) (m : Machine) :
    run Machine.device (call.program sectCount) m =
      ((run (Channel.device (ataBase call.id.primary)) (call.program sectCount)
          (m call.id.primary)).1,
        Function.update m call.id.primary
          (run (Channel.device (ataBase call.id.primary)) (call.program sectCount)
            (m call.id.primary)).2) := by
  refine (Machine.part call.id.primary).run_eq ?_ m
  have hbase := ata_base_lt call.id.primary
  rw [DiskCall.program]
  split_ifs
  · exact uses_write_disk_block (d := call.id.ports _) hbase _ _ _
  · exact uses_read_disk_block (d := call.id.ports _) hbase _ _ _

/-- One call: there is a number of sectors for its command with which the disks of the file system
do what the machine does. -/
theorem run_call (h : m.Serves sectCount s) (henv : ∀ id, (env id).sectCount = sectCount id)
    {call : DiskCall} (hcall : call.Fits m) : ∃ k, ∀ moved : DiskId → Nat → Nat → Nat,
    (add32 call.lba call.total ≤ sectCount call.id →
      moved call.id (s call.id).commands call.total = k) →
    let concrete := run Machine.device (call.program sectCount) m
    let abstract := call.block (movedEnv env moved) s
    abstract.1.1 = concrete.1.buf ∧ (concrete.1.code = 0 → abstract.1.2 = true) ∧
      concrete.2.Serves sectCount abstract.2 ∧
      (∀ id, (m.drive id).isSome → (concrete.2.drive id).isSome) ∧
      ((∀ id dr, m.drive id = some dr → dr.Sound) →
        (∀ id dr, concrete.2.drive id = some dr → dr.Sound) ∧ k = call.total) := by
  obtain ⟨dr, hdrive⟩ := Option.isSome_iff_exists.mp hcall.present
  have hlba := hcall.lba
  have hle := hcall.le
  have hsum : add32 call.lba call.total = call.lba + call.total := add32_of_lt (by omega)
  have hprompt := h.prompt _ dr hdrive
  have hbase := ata_base_lt call.id.primary
  obtain ⟨store, id, lba, total, buf⟩ := call
  simp only at hsum hdrive hprompt hbase hlba hle
  have hpos : 1 ≤ total := hcall.pos
  by_cases hin : lba + total ≤ sectCount id
  · have hpass : ∀ moved, ¬ add32 lba total > (movedEnv env moved id).sectCount := by
      intro moved
      rw [show (movedEnv env moved id).sectCount = sectCount id from henv id, hsum]
      omega
    cases store with
    | true =>
        obtain ⟨code, moved, kept, c', hrun, hkept, _, hall, hcalled⟩ :=
          write_disk_block_channel (d := id.ports (sectCount id)) hbase (h.quiet id.primary) hdrive
            (h.size id dr hdrive) hlba hpos hle hin buf
        refine ⟨kept, fun moved' hmoved' => ?_⟩
        have hupper := hcalled.upper
        have hmoves : (movedEnv env moved' id).moved (s id).commands total = kept :=
          hmoved' (hsum.trans_le hin)
        have hwrite : ((s id).writeBlock (movedEnv env moved' id) lba total buf 0).disk =
            dr.image.copy (512 * lba) buf 0 (512 * kept) := by
          rw [BlockState.writeBlock, if_neg (hpass moved'), hmoves, Nat.min_eq_right (by omega),
            ← h.image id dr hdrive]
        obtain ⟨hserves, hpresent, hsound⟩ := h.called hdrive hcalled hwrite
        rw [run_call_channel]
        simp only [DiskCall.program, if_true, DiskCall.block]
        rw [show ataBase id.primary = (id.ports (sectCount id)).baseDataPort from rfl, hrun]
        refine ⟨rfl, fun hcode => ?_, hserves, hpresent, fun hs => ⟨hsound hs, ?_⟩⟩
        · rw [decide_eq_true_iff, hmoves, hall hcode, hcalled.all hcode]
          exact ⟨Nat.le_of_not_lt (hpass moved'), Nat.le_refl total⟩
        · have hcode := hcalled.succeeds hprompt (hs id dr hdrive)
          rw [hall hcode, hcalled.all hcode]
    | false =>
        obtain ⟨code, moved, c', hrun, hcalled⟩ :=
          read_disk_block_channel (d := id.ports (sectCount id)) hbase (h.quiet id.primary) hdrive
            (h.size id dr hdrive) hlba hpos hle hin buf
        refine ⟨moved, fun moved' hmoved' => ?_⟩
        have hupper := hcalled.upper
        have hmoves : (movedEnv env moved' id).moved (s id).commands total = moved :=
          hmoved' (hsum.trans_le hin)
        have hread : (s id).readBlock (movedEnv env moved' id) lba total buf 0 =
            (buf.copy 0 dr.image (512 * lba) (512 * moved),
              { s id with commands := (s id).commands + 1 }) := by
          rw [BlockState.readBlock, if_neg (hpass moved'), hmoves, Nat.min_eq_right (by omega),
            h.image id dr hdrive]
        obtain ⟨hserves, hpresent, hsound⟩ := h.called hdrive hcalled
          (show ({ s id with commands := (s id).commands + 1 } : BlockState).disk = dr.image from
            (h.image id dr hdrive).symm)
        rw [run_call_channel]
        simp only [DiskCall.program, Bool.false_eq_true, if_false, DiskCall.block]
        rw [show ataBase id.primary = (id.ports (sectCount id)).baseDataPort from rfl, hrun, hread]
        refine ⟨rfl, fun hcode => ?_, hserves, hpresent, fun hs => ⟨hsound hs, ?_⟩⟩
        · rw [decide_eq_true_iff, hmoves, hcalled.all hcode]
          exact ⟨Nat.le_of_not_lt (hpass moved'), Nat.le_refl total⟩
        · exact hcalled.all (hcalled.succeeds hprompt (hs id dr hdrive))
  · -- the bounds check rejects the call on both sides
    have hreject : add32 lba total > sectCount id := by omega
    refine ⟨total, fun moved' _ => ?_⟩
    have hreject' : add32 lba total > (movedEnv env moved' id).sectCount := by
      rw [show (movedEnv env moved' id).sectCount = sectCount id from henv id]
      exact hreject
    have hcode : (-gen32Invarg : Int) ≠ 0 := by decide
    rw [run_call_channel]
    cases store with
    | true =>
        simp only [DiskCall.program, if_true, DiskCall.block, writeDiskBlockProgram]
        rw [show ataBase id.primary = (id.ports (sectCount id)).baseDataPort from rfl,
          run_rejected _ hreject, BlockState.writeBlock, if_pos hreject',
          Function.update_eq_self, Function.update_eq_self]
        exact ⟨rfl, fun h => absurd h hcode, h, fun _ hs => hs, fun hs => ⟨hs, trivial⟩⟩
    | false =>
        simp only [DiskCall.program, Bool.false_eq_true, if_false, DiskCall.block,
          readDiskBlockProgram]
        rw [show ataBase id.primary = (id.ports (sectCount id)).baseDataPort from rfl,
          run_rejected _ hreject, BlockState.readBlock, if_pos hreject']
        simp only
        rw [Function.update_eq_self, Function.update_eq_self]
        exact ⟨trivial, fun h => absurd h hcode, h, fun _ hs => hs, fun hs => ⟨hs, trivial⟩⟩

/-- A call depends on the number of sectors of its command only. -/
theorem block_congr (call : DiskCall) {moved moved' : DiskId → Nat → Nat → Nat}
    (h : add32 call.lba call.total ≤ (env call.id).sectCount →
      moved call.id (s call.id).commands call.total =
        moved' call.id (s call.id).commands call.total) :
    call.block (movedEnv env moved) s = call.block (movedEnv env moved') s := by
  by_cases hin : add32 call.lba call.total ≤ (env call.id).sectCount
  · simp only [DiskCall.block, BlockState.writeBlock, BlockState.readBlock, movedEnv, h hin]
    rfl
  · have hgt : add32 call.lba call.total > (env call.id).sectCount := Nat.lt_of_not_le hin
    simp only [DiskCall.block, BlockState.writeBlock, BlockState.readBlock, movedEnv, hgt, hin,
      if_true, false_and]

/-- The commands that a disk has had after a call. -/
theorem block_commands (env : DiskId → BlockEnv) (call : DiskCall) (s : DiskId → BlockState)
    (id : DiskId) : ((call.block env s).2 id).commands =
      if id = call.id ∧ add32 call.lba call.total ≤ (env call.id).sectCount then
        (s id).commands + 1
      else (s id).commands := by
  have hstep : ∀ after : BlockState,
      after.commands = (if add32 call.lba call.total ≤ (env call.id).sectCount then
        (s call.id).commands + 1 else (s call.id).commands) →
      (Function.update s call.id after id).commands =
        if id = call.id ∧ add32 call.lba call.total ≤ (env call.id).sectCount then
          (s id).commands + 1
        else (s id).commands := by
    intro after hafter
    by_cases hid : id = call.id
    · subst hid
      rw [Function.update_self, hafter]
      simp only [true_and]
    · rw [Function.update_of_ne hid, if_neg fun h => hid h.1]
  simp only [DiskCall.block]
  by_cases hstore : call.store = true
  · rw [if_pos hstore]
    refine hstep _ ?_
    unfold BlockState.writeBlock
    split_ifs <;> first | rfl | omega
  · rw [if_neg hstore]
    refine hstep _ ?_
    unfold BlockState.readBlock
    split_ifs <;> first | rfl | omega

/-- A run of calls depends on the commands to come only. -/
theorem block_calls_congr (calls : List DiskCall) {moved moved' : DiskId → Nat → Nat → Nat}
    (h : ∀ id n, (s id).commands ≤ n → moved id n = moved' id n) :
    blockCalls (movedEnv env moved) calls s = blockCalls (movedEnv env moved') calls s := by
  induction calls generalizing s with
  | nil => rfl
  | cons call calls ih =>
      have hsame : call.block (movedEnv env moved) s = call.block (movedEnv env moved') s :=
        block_congr call fun _ => by rw [h call.id _ (Nat.le_refl _)]
      rw [blockCalls, blockCalls]
      simp only [← hsame]
      rw [ih fun id n hn => h id n (Nat.le_trans ?_ hn)]
      rw [block_commands]
      split_ifs
      · exact Nat.le_succ _
      · exact Nat.le_refl _

/-- What a call returns is what the file system sees of it. -/
def Sees (result : BlockResult) (seen : ByteMem × Bool) : Prop :=
  seen.1 = result.buf ∧ (result.code = 0 → seen.2 = true)

/-- Over any run of calls on a machine with prompt drives, the disks of the file system are the
images of the drives, and the calls return the buffers that the file system sees; a call that
returns 0 has moved all its sectors. If no drive fails, every command moves all its sectors. -/
theorem run_calls_refine (henv : ∀ id, (env id).sectCount = sectCount id) (calls : List DiskCall)
    (h : m.Serves sectCount s) (hcalls : ∀ call ∈ calls, call.Fits m) :
    ∃ moved : DiskId → Nat → Nat → Nat,
      List.Forall₂ Sees (runCalls sectCount calls m).1
        (blockCalls (movedEnv env moved) calls s).1 ∧
      (runCalls sectCount calls m).2.Serves sectCount
        (blockCalls (movedEnv env moved) calls s).2 ∧
      ((∀ id dr, m.drive id = some dr → dr.Sound) → ∀ id n total, total ≤ moved id n total) := by
  induction calls generalizing m s with
  | nil => exact ⟨fun _ _ total => total, .nil, h, fun _ _ _ total => Nat.le_refl total⟩
  | cons call calls ih =>
      obtain ⟨k, hcall⟩ := run_call h henv (hcalls call List.mem_cons_self)
      -- what the call leaves does not depend on the commands behind its own
      obtain ⟨_, _, hserves, hpresent, hsound⟩ := hcall (fun _ _ _ => k) fun _ => rfl
      obtain ⟨moved₁, hresults, hserves₁, hall⟩ := ih hserves fun call' hmem =>
        have hfits := hcalls call' (List.mem_cons_of_mem call hmem)
        ⟨hpresent _ hfits.present, hfits.lba, hfits.pos, hfits.le⟩
      generalize hs₁ : (call.block (movedEnv env fun _ _ _ => k) s).2 = s₁ at *
      let moved : DiskId → Nat → Nat → Nat := fun id n =>
        if n < (s₁ id).commands then fun total => if total = call.total then k else total
        else moved₁ id n
      have hnow : add32 call.lba call.total ≤ (env call.id).sectCount →
          moved call.id (s call.id).commands call.total = k := by
        intro hin
        have hlt : (s call.id).commands < (s₁ call.id).commands := by
          rw [← hs₁, block_commands, if_pos ⟨rfl, hin⟩]
          exact Nat.lt_succ_self _
        simp only [moved, if_pos hlt, if_true]
      have hsame : (call.block (movedEnv env moved) s).2 = s₁ := by
        rw [← hs₁]
        exact congrArg Prod.snd (block_congr call hnow)
      have htail : blockCalls (movedEnv env moved) calls s₁ =
          blockCalls (movedEnv env moved₁) calls s₁ :=
        block_calls_congr calls fun id n hn => if_neg (Nat.not_lt_of_le hn)
      obtain ⟨hbuf, hcode, _, _, hsound'⟩ := hcall moved (henv call.id ▸ hnow)
      refine ⟨moved, ?_, ?_, fun hs id n total => ?_⟩
      · rw [runCalls, blockCalls]
        simp only [hsame, htail]
        exact .cons ⟨hbuf, hcode⟩ hresults
      · rw [runCalls, blockCalls]
        simp only [hsame, htail]
        exact hserves₁
      · obtain ⟨hlater, hk⟩ := hsound' hs
        by_cases hlt : n < (s₁ id).commands
        · simp only [moved, if_pos hlt]
          by_cases htotal : total = call.total
          · rw [if_pos htotal, htotal, hk]
          · rw [if_neg htotal]
        · simp only [moved, if_neg hlt]
          exact hall hlater id n total

/-- A sector is written to a blank drive and read back. -/
theorem run_calls_blank_refine :
    let calls : List DiskCall := [⟨true, ⟨true, true⟩, 3, 1, fun _ => 0xff⟩,
      ⟨false, ⟨true, true⟩, 3, 1, fun _ => 0x00⟩]
    let env : DiskId → BlockEnv :=
      fun _ => ⟨16, fun _ total => total, fun _ => none, fun _ => 0, fun _ => 0⟩
    let disks : DiskId → BlockState := fun _ => ⟨fun _ => 0x00, 0, 0, [], false⟩
    let machine : Machine := fun _ => blankChannel
    ∃ moved : DiskId → Nat → Nat → Nat,
      List.Forall₂ Sees (runCalls (fun _ => 16) calls machine).1
        (blockCalls (movedEnv env moved) calls disks).1 ∧
      (runCalls (fun _ => 16) calls machine).2.Serves (fun _ => 16)
        (blockCalls (movedEnv env moved) calls disks).2 ∧
      ((∀ id dr, machine.drive id = some dr → dr.Sound) →
        ∀ id n total, total ≤ moved id n total) := by
  intro calls env disks machine
  have hdrive : ∀ id dr, machine.drive id = some dr → dr = blankDrive := fun id dr h =>
    blank_channel_drive h
  have hserves : machine.Serves (fun _ => 16) disks := by
    refine ⟨fun _ => blank_channel_quiet, fun id dr h => ?_, fun id dr h => ?_, fun id dr h => ?_⟩
    all_goals rw [hdrive id dr h]
    · exact blank_drive_prompt
    · decide
    · rfl
  refine run_calls_refine (show ∀ id, (env id).sectCount = 16 from fun _ => rfl) calls hserves
    fun call hmem => ?_
  · simp only [calls, List.mem_cons, List.not_mem_nil, or_false] at hmem
    rcases hmem with rfl | rfl <;> exact ⟨rfl, by decide, by decide, by decide⟩

end Ata

end Genesis32
