import Genesis32.Library.ByteMem
import Genesis32.Library.Word
import Genesis32.Heap.PageHeap

/-!
# The ATA driver

`read_disk_block` and `write_disk_block` of `disk/disk.c`. The device is the sequence of values that
its ports return, one for each `inb` or `in16` of a call, and the driver is the function from such a
sequence to the writes to its ports, the return value and the buffer. The 450 `nop`s change nothing.

A command addresses what its task file denotes when the command byte is written: 28 bits of LBA and
an 8-bit count in which 0 means 256. `Addresses` says that this is what the caller asked for and
that the data port moves as many sectors, and `driver_addresses_iff` for which arguments and which
values of the status port it is.
-/

namespace Genesis32

open Word

/-- `DISK_READ_ERR`. -/
abbrev diskReadErr : Int := 9

/-- `DISK_WRITE_ERR`. -/
abbrev diskWriteErr : Int := 6

/-- `TIMEOUT`. -/
abbrev timeOut : Int := 5

/-- `ATA_WAIT`. It is irreducible because no proof depends on its value being unfolded. -/
@[irreducible] def ataWait : Nat := 100000

/-- The fields of `struct disk` that the driver reads. -/
structure DiskPorts where
  baseDataPort : Nat
  isMaster : Bool
  sectCount : Nat
  deriving DecidableEq, Repr

/-- A write of a value to a port. -/
structure PortWrite where
  port : Nat
  value : Nat
  deriving DecidableEq, Repr

/-- `outb`. -/
def outb (port value : Nat) : PortWrite := ⟨port % 65536, value % 256⟩

/-- `out16`. -/
def out16 (port value : Nat) : PortWrite := ⟨port % 65536, value % 65536⟩

/-- The values that the port inputs of one call return, in order. -/
abbrev PortReads := Nat → Nat

/-- The `n`-th port input, read by `inb`. -/
def inb (ports : PortReads) (n : Nat) : Nat := ports n % 256

/-- The `n`-th port input, read by `in16`. -/
def in16 (ports : PortReads) (n : Nat) : Nat := ports n % 65536

/-- What a call of the driver does: its return value, the number of sectors its loop moved, the port
writes in order, and the buffer. -/
structure Transfer where
  code : Int
  moved : Nat
  outs : List PortWrite
  buf : ByteMem

/-- A polling loop with `k` rounds left before it gives up: the index of the next port input, or
`none` on a time-out. -/
def pollStatus (ports : PortReads) (ready : Nat → Bool) : Nat → Nat → Option Nat
  | 0, n => if ready (inb ports n) then some (n + 1) else none
  | k + 1, n => if ready (inb ports n) then some (n + 1) else pollStatus ports ready k (n + 1)

/-- `!(inb(base+7) & 0x80)`. -/
def notBusy (status : Nat) : Bool := status &&& 0x80 = 0

/-- `(inb(base+7)&0x88)==0x08`. -/
def dataRequest (status : Nat) : Bool := status &&& 0x88 = 0x08

/-- `(inb(base+7)&0x01) || (inb(base+7)&0x20)`, with the inputs from `n`. -/
def statusError (ports : PortReads) (n : Nat) : Bool :=
  inb ports n &&& 0x01 ≠ 0 || inb ports (n + 1) &&& 0x20 ≠ 0

/-- The loop over the words of a sector in `read_disk_block`. -/
def readWords (ports : PortReads) (buf : ByteMem) (curStart : Nat) : Nat → Nat → Nat → ByteMem
  | 0, _, _ => buf
  | r + 1, j, n =>
      readWords ports (buf.setWord16 (curStart + 2 * j) (in16 ports n)) curStart r (j + 1) (n + 1)

/-- The loop over the sectors in `read_disk_block`, with `r` sectors left. -/
def readSectors (ports : PortReads) (outs : List PortWrite) (buf : ByteMem) :
    Nat → Nat → Nat → Transfer
  | 0, i, _ => ⟨0, i, outs, buf⟩
  | r + 1, i, n =>
      match pollStatus ports dataRequest ataWait n with
      | none => ⟨-timeOut, i, outs, buf⟩
      | some n =>
          if statusError ports n then ⟨diskReadErr, i, outs, buf⟩
          else
            readSectors ports outs (readWords ports buf (512 * i) 256 0 (n + 2)) r (i + 1)
              (n + 2 + 256)

/-- The words of a sector that `write_disk_block` sends to the data port. -/
def writeWords (base : Nat) (buf : ByteMem) (curStart : Nat) : Nat → Nat → List PortWrite
  | 0, _ => []
  | r + 1, j => out16 base (buf.word16 (curStart + 2 * j)) :: writeWords base buf curStart r (j + 1)

/-- The loop over the sectors in `write_disk_block` and the last check, with `r` sectors left. -/
def writeSectors (ports : PortReads) (base : Nat) (buf : ByteMem) :
    Nat → List PortWrite → Nat → Nat → Transfer
  | 0, outs, i, n =>
      match pollStatus ports notBusy ataWait n with
      | none => ⟨-timeOut, i, outs, buf⟩
      | some n => if statusError ports n then ⟨diskWriteErr, i, outs, buf⟩ else ⟨0, i, outs, buf⟩
  | r + 1, outs, i, n =>
      match pollStatus ports dataRequest ataWait n with
      | none => ⟨-timeOut, i, outs, buf⟩
      | some n =>
          if statusError ports n then ⟨diskWriteErr, i, outs, buf⟩
          else
            writeSectors ports base buf r (outs ++ writeWords base buf (512 * i) 256 0) (i + 1)
              (n + 2)

/-- The write to the head register that starts a command. -/
def selectDrive (d : DiskPorts) (lba : Nat) : List PortWrite :=
  [outb (d.baseDataPort + 6) ((if d.isMaster then 0xe0 else 0xf0) ||| ((lba >>> 24) &&& 0x0f))]

/-- The writes to the count register and the LBA registers. -/
def loadTaskFile (d : DiskPorts) (lba total : Nat) : List PortWrite :=
  [outb (d.baseDataPort + 2) (total &&& 0xff), outb (d.baseDataPort + 3) (lba &&& 0xff),
    outb (d.baseDataPort + 4) ((lba >>> 8) &&& 0xff),
    outb (d.baseDataPort + 5) ((lba >>> 16) &&& 0xff)]

/-- What both functions do up to the command byte: the index of the next port input and the port
writes, or the writes and the code with which the call returns before. -/
def startCommand (ports : PortReads) (d : DiskPorts) (lba total command : Nat) :
    Except (Int × List PortWrite) (Nat × List PortWrite) :=
  if add32 lba total > d.sectCount then .error (-gen32Invarg, [])
  else
    match pollStatus ports notBusy ataWait 0 with
    | none => .error (-timeOut, selectDrive d lba)
    | some n =>
        match pollStatus ports notBusy ataWait n with
        | none => .error (-timeOut, selectDrive d lba ++ loadTaskFile d lba total)
        | some n =>
            .ok (n, selectDrive d lba ++ loadTaskFile d lba total ++
              [outb (d.baseDataPort + 7) command])

/-- `read_disk_block`. -/
def readDiskBlock (ports : PortReads) (d : DiskPorts) (lba total : Nat) (buf : ByteMem) :
    Transfer :=
  match startCommand ports d lba total 0x20 with
  | .error (code, outs) => ⟨code, 0, outs, buf⟩
  | .ok (n, outs) =>
      match pollStatus ports notBusy ataWait n with
      | none => ⟨-timeOut, 0, outs, buf⟩
      | some n => readSectors ports outs buf total 0 n

/-- `write_disk_block`. -/
def writeDiskBlock (ports : PortReads) (d : DiskPorts) (lba total : Nat) (buf : ByteMem) :
    Transfer :=
  match startCommand ports d lba total 0x30 with
  | .error (code, outs) => ⟨code, 0, outs, buf⟩
  | .ok (n, outs) => writeSectors ports d.baseDataPort buf total outs 0 n

/-! ## What a task file denotes -/

/-- The last value written to a port. -/
def lastOut (outs : List PortWrite) (port : Nat) : Nat :=
  outs.foldl (fun v w => if w.port = port % 65536 then w.value else v) 0

/-- The 28-bit LBA in the task file. -/
def taskFileLba (base : Nat) (outs : List PortWrite) : Nat :=
  lastOut outs (base + 6) % 16 * 16777216 + lastOut outs (base + 5) * 65536 +
    lastOut outs (base + 4) * 256 + lastOut outs (base + 3)

/-- The number of sectors in the task file: a count register of 0 means 256. -/
def taskFileCount (base : Nat) (outs : List PortWrite) : Nat :=
  if lastOut outs (base + 2) = 0 then 256 else lastOut outs (base + 2)

/-- What is sent to the data port for the `r` sectors of a buffer from sector `i` on. -/
def sectorWords (base : Nat) (buf : ByteMem) (i r : Nat) : List PortWrite :=
  (List.range' (256 * i) (256 * r)).map fun w => out16 base (buf.word16 (2 * w))

/-- A write moves exactly `count` sectors: what the data port is sent is the words of the first
`count` sectors of the buffer, in order. -/
def SendsSectors (d : DiskPorts) (call : ByteMem → Transfer) (count : Nat) : Prop :=
  ∀ buf, (call buf).outs.filter (fun w => w.port = d.baseDataPort % 65536) =
    sectorWords d.baseDataPort buf 0 count

/-- A read moves exactly `count` sectors: whatever the buffer held, its sector `i` then holds the
256 words that the port inputs from `start i` on return, and what is behind these sectors stays. -/
def StoresSectors (ports : PortReads) (call : ByteMem → Transfer) (count : Nat) : Prop :=
  ∃ start : Nat → Nat, (∀ i, i + 1 < count → start i + 256 ≤ start (i + 1)) ∧
    ∀ buf, (∀ i < count, ∀ j < 256,
        (call buf).buf.word16 (512 * i + 2 * j) = in16 ports (start i + j)) ∧
      ∀ x, 512 * count ≤ x → (call buf).buf x = buf x

/-- Whenever the command byte is written, the task file loaded before it denotes exactly the sectors
`[lba, lba + total)`, these lie on the disk, and the transfer moves as many sectors as the task file
says. `Moves` is what a call of this kind moves. -/
structure Addresses (d : DiskPorts) (lba total command : Nat) (call : ByteMem → Transfer)
    (Moves : Nat → Prop) : Prop where
  denotes : ∀ buf before after,
    (call buf).outs = before ++ outb (d.baseDataPort + 7) command :: after →
    ∀ s, (taskFileLba d.baseDataPort before ≤ s ∧
      s < taskFileLba d.baseDataPort before + taskFileCount d.baseDataPort before) ↔
      (lba ≤ s ∧ s < lba + total)
  inside : ∀ buf before after,
    (call buf).outs = before ++ outb (d.baseDataPort + 7) command :: after →
    lba + total ≤ d.sectCount
  moves : ∀ buf before after,
    (call buf).outs = before ++ outb (d.baseDataPort + 7) command :: after →
    Moves (taskFileCount d.baseDataPort before)

/-! ## What a device does in a transfer -/

/-- A polling loop that starts at input `n` leaves with the input before `n'`: this is the first
that is ready, and the loop has not given up. -/
def LeavesAt (ports : PortReads) (ready : Nat → Bool) (n n' : Nat) : Prop :=
  n < n' ∧ n' ≤ n + ataWait + 1 ∧ ready (inb ports (n' - 1)) = true ∧
    ∀ k, n ≤ k → k + 1 < n' → ready (inb ports k) = false

/-- The device ends both waits before the command byte, and `n` is the next port input. -/
def CommandAt (ports : PortReads) (n : Nat) : Prop :=
  ∃ m, LeavesAt ports notBusy 0 m ∧ LeavesAt ports notBusy m n

/-- For `r` sectors in turn the device requests data in time and reports no error; a sector takes
`words` port inputs. -/
def ServesSectors (ports : PortReads) (words : Nat) : Nat → Nat → Prop
  | 0, _ => True
  | r + 1, n => ∃ m, LeavesAt ports dataRequest n m ∧ statusError ports m = false ∧
      ServesSectors ports words r (m + 2 + words)

/-- The device serves all sectors of a read: it is ready once more after the command byte. -/
def DeliversSectors (ports : PortReads) (total : Nat) : Prop :=
  ∃ n m, CommandAt ports n ∧ LeavesAt ports notBusy n m ∧
    ServesSectors ports 256 total m

/-- The device serves all sectors of a write. -/
def AcceptsSectors (ports : PortReads) (total : Nat) : Prop :=
  ∃ n, CommandAt ports n ∧ ServesSectors ports 0 total n

theorem poll_status_iff (ports : PortReads) (ready : Nat → Bool) (n' : Nat) :
    ∀ k n, pollStatus ports ready k n = some n' ↔
      n < n' ∧ n' ≤ n + k + 1 ∧ ready (inb ports (n' - 1)) = true ∧
        ∀ j, n ≤ j → j + 1 < n' → ready (inb ports j) = false := by
  intro k
  induction k with
  | zero =>
      intro n
      rw [pollStatus]
      constructor
      · intro h
        split_ifs at h with hready
        obtain rfl := Option.some.inj h
        exact ⟨by omega, by omega, hready, fun j _ _ => by omega⟩
      · intro hall
        obtain ⟨hlt, hle, hready, _⟩ := hall
        have heq : n' = n + 1 := by omega
        rw [heq, Nat.add_sub_cancel] at hready
        rw [if_pos hready, heq]
  | succ k ih =>
      intro n
      rw [pollStatus]
      cases hnow : ready (inb ports n) with
      | true =>
          rw [if_pos rfl]
          constructor
          · intro h
            obtain rfl := Option.some.inj h
            exact ⟨by omega, by omega, hnow, fun j _ _ => by omega⟩
          · intro hall
            obtain ⟨hlt, _, _, hbefore⟩ := hall
            rcases Nat.lt_or_ge (n + 1) n' with hlater | hle
            · rw [hbefore n (Nat.le_refl n) hlater] at hnow
              cases hnow
            · rw [show n' = n + 1 by omega]
      -- the port is read once more, and the bound moves on by one with the induction
      | false =>
          rw [if_neg (by decide), ih]
          constructor
          · intro hall
            obtain ⟨hlt, hle, hready, hbefore⟩ := hall
            refine ⟨by omega, by omega, hready, fun j hj hlt' => ?_⟩
            rcases Nat.eq_or_lt_of_le hj with rfl | hj
            · exact hnow
            · exact hbefore j hj hlt'
          · intro hall
            obtain ⟨hlt, hle, hready, hbefore⟩ := hall
            have hnext : n + 1 < n' := by
              rcases Nat.lt_or_ge (n + 1) n' with hlater | hle'
              · exact hlater
              · rw [show n' = n + 1 by omega, Nat.add_sub_cancel, hnow] at hready
                cases hready
            exact ⟨hnext, by omega, hready, fun j hj hlt' => hbefore j (by omega) hlt'⟩

theorem poll_status_eq_some {ports : PortReads} {ready : Nat → Bool} {n n' : Nat} :
    pollStatus ports ready ataWait n = some n' ↔ LeavesAt ports ready n n' :=
  poll_status_iff ports ready n' ataWait n

theorem serves_sectors_succ {ports : PortReads} {words r n m : Nat}
    (hready : pollStatus ports dataRequest ataWait n = some m) :
    ServesSectors ports words (r + 1) n ↔
      statusError ports m = false ∧ ServesSectors ports words r (m + 2 + words) := by
  constructor
  · rintro ⟨m', hm', herr, hserves⟩
    rw [← poll_status_eq_some, hready] at hm'
    cases hm'
    exact ⟨herr, hserves⟩
  · rintro ⟨herr, hserves⟩
    exact ⟨m, poll_status_eq_some.mp hready, herr, hserves⟩

theorem serves_sectors_time_out {ports : PortReads} {words r n : Nat}
    (hready : pollStatus ports dataRequest ataWait n = none) :
    ¬ ServesSectors ports words (r + 1) n := by
  rintro ⟨m, hm, _⟩
  rw [← poll_status_eq_some, hready] at hm
  cases hm

theorem CommandAt.unique {ports : PortReads} {n n' : Nat} (h : CommandAt ports n)
    (h' : CommandAt ports n') : n' = n := by
  obtain ⟨m, hm, hn⟩ := h
  obtain ⟨m', hm', hn'⟩ := h'
  rw [← poll_status_eq_some] at hm hn hm' hn'
  rw [hm] at hm'
  cases hm'
  rw [hn] at hn'
  exact (Option.some.inj hn').symm

/-! ## The task file of a command -/

/-- The port writes that load the task file. -/
def taskFile (d : DiskPorts) (lba total : Nat) : List PortWrite :=
  selectDrive d lba ++ loadTaskFile d lba total

theorem land_byte (x : Nat) : x &&& 0xff = x % 256 := by
  rw [show (0xff : Nat) = 2 ^ 8 - 1 by decide, Nat.and_two_pow_sub_one_eq_mod]

theorem land_nibble (x : Nat) : x &&& 0x0f = x % 16 := by
  rw [show (0x0f : Nat) = 2 ^ 4 - 1 by decide, Nat.and_two_pow_sub_one_eq_mod]

/-- The low four bits of the head register are bits 24 to 27 of the LBA. -/
theorem head_register (master : Bool) (x : Nat) :
    ((if master then 0xe0 else 0xf0) ||| (x &&& 0x0f)) % 256 % 16 = x % 16 := by
  rw [land_nibble]
  cases master with
  | false =>
      have hor : 0xf0 ||| x % 16 = 0xf0 + x % 16 :=
        lor_low (n := 4) (by decide) (Nat.mod_lt x (by decide))
      simp only [Bool.false_eq_true, if_false, hor]
      omega
  | true =>
      have hor : 0xe0 ||| x % 16 = 0xe0 + x % 16 :=
        lor_low (n := 4) (by decide) (Nat.mod_lt x (by decide))
      simp only [if_true, hor]
      omega

/-- The task file holds the low 28 bits of the LBA. -/
theorem task_file_lba (d : DiskPorts) (lba total : Nat) :
    taskFileLba d.baseDataPort (taskFile d lba total) = lba % 268435456 := by
  have hports : ∀ i j, i < 8 → j < 8 → i ≠ j →
      (d.baseDataPort + i) % 65536 ≠ (d.baseDataPort + j) % 65536 := by omega
  have h6 : lastOut (taskFile d lba total) (d.baseDataPort + 6) =
      ((if d.isMaster then 0xe0 else 0xf0) ||| ((lba >>> 24) &&& 0x0f)) % 256 := by
    simp only [lastOut, taskFile, selectDrive, loadTaskFile, outb, List.cons_append,
      List.nil_append, List.foldl_cons, List.foldl_nil, if_true,
      if_neg (hports 2 6 (by omega) (by omega) (by omega)),
      if_neg (hports 3 6 (by omega) (by omega) (by omega)),
      if_neg (hports 4 6 (by omega) (by omega) (by omega)),
      if_neg (hports 5 6 (by omega) (by omega) (by omega))]
  have h5 : lastOut (taskFile d lba total) (d.baseDataPort + 5) = lba / 65536 % 256 := by
    simp only [lastOut, taskFile, selectDrive, loadTaskFile, outb, List.cons_append,
      List.nil_append, List.foldl_cons, List.foldl_nil, if_true, land_byte,
      Nat.shiftRight_eq_div_pow]
    omega
  have h4 : lastOut (taskFile d lba total) (d.baseDataPort + 4) = lba / 256 % 256 := by
    simp only [lastOut, taskFile, selectDrive, loadTaskFile, outb, List.cons_append,
      List.nil_append, List.foldl_cons, List.foldl_nil, if_true, land_byte,
      Nat.shiftRight_eq_div_pow, if_neg (hports 5 4 (by omega) (by omega) (by omega))]
    omega
  have h3 : lastOut (taskFile d lba total) (d.baseDataPort + 3) = lba % 256 := by
    simp only [lastOut, taskFile, selectDrive, loadTaskFile, outb, List.cons_append,
      List.nil_append, List.foldl_cons, List.foldl_nil, if_true, land_byte,
      if_neg (hports 5 3 (by omega) (by omega) (by omega)),
      if_neg (hports 4 3 (by omega) (by omega) (by omega))]
    omega
  rw [taskFileLba, h6, h5, h4, h3, head_register, Nat.shiftRight_eq_div_pow]
  omega

/-- The count register holds the low 8 bits of the count. -/
theorem task_file_count (d : DiskPorts) (lba total : Nat) :
    taskFileCount d.baseDataPort (taskFile d lba total) =
      if total % 256 = 0 then 256 else total % 256 := by
  have hports : ∀ i j, i < 8 → j < 8 → i ≠ j →
      (d.baseDataPort + i) % 65536 ≠ (d.baseDataPort + j) % 65536 := by omega
  have h2 : lastOut (taskFile d lba total) (d.baseDataPort + 2) = total % 256 := by
    simp only [lastOut, taskFile, selectDrive, loadTaskFile, outb, List.cons_append,
      List.nil_append, List.foldl_cons, List.foldl_nil, if_true, land_byte,
      if_neg (hports 5 2 (by omega) (by omega) (by omega)),
      if_neg (hports 4 2 (by omega) (by omega) (by omega)),
      if_neg (hports 3 2 (by omega) (by omega) (by omega))]
    omega
  rw [taskFileCount, h2]

/-- Nothing before the command byte is written to the command port. -/
theorem task_file_ports {d : DiskPorts} {lba total : Nat} {w : PortWrite}
    (hw : w ∈ taskFile d lba total) : w.port ≠ (d.baseDataPort + 7) % 65536 := by
  simp only [taskFile, selectDrive, loadTaskFile, outb, List.cons_append, List.nil_append,
    List.mem_cons, List.not_mem_nil, or_false] at hw
  rcases hw with rfl | rfl | rfl | rfl | rfl <;> simp only <;> omega

/-- A call either returns before the command byte, or has written exactly the task file and the
command byte, and then the bounds check and both waits have passed. -/
theorem start_command_cases (ports : PortReads) (d : DiskPorts) (lba total command : Nat) :
    (∃ code outs, startCommand ports d lba total command = .error (code, outs) ∧ code < 0 ∧
      ∀ w ∈ outs, w ∈ taskFile d lba total) ∨
    ∃ n, startCommand ports d lba total command =
        .ok (n, taskFile d lba total ++ [outb (d.baseDataPort + 7) command]) ∧
      add32 lba total ≤ d.sectCount ∧ CommandAt ports n := by
  rw [startCommand]
  by_cases hbounds : add32 lba total > d.sectCount
  · rw [if_pos hbounds]
    exact Or.inl ⟨_, _, rfl, by decide, by simp⟩
  · rw [if_neg hbounds]
    cases hfirst : pollStatus ports notBusy ataWait 0 with
    | none => exact Or.inl ⟨_, _, rfl, by decide, fun w hw => List.mem_append_left _ hw⟩
    | some n =>
        cases hpoll : pollStatus ports notBusy ataWait n with
        | none =>
            simp only [hpoll]
            exact Or.inl ⟨_, _, rfl, by decide, fun w hw => hw⟩
        | some n' =>
            simp only [hpoll]
            rw [poll_status_eq_some] at hfirst hpoll
            exact Or.inr ⟨n', rfl, by omega, n, hfirst, hpoll⟩

/-- A call that passes the bounds check writes the command byte to a device that ends both waits. -/
theorem start_command_at {ports : PortReads} {d : DiskPorts} {lba total command n : Nat}
    (hbounds : add32 lba total ≤ d.sectCount) (h : CommandAt ports n) :
    startCommand ports d lba total command =
      .ok (n, taskFile d lba total ++ [outb (d.baseDataPort + 7) command]) := by
  obtain ⟨m, hm, hn⟩ := h
  rw [← poll_status_eq_some] at hm hn
  rw [startCommand, if_neg (by omega), hm]
  simp only [hn]
  rfl

theorem time_out_ne : (-timeOut : Int) ≠ 0 := by decide

theorem disk_read_err_ne : (diskReadErr : Int) ≠ 0 := by decide

theorem disk_write_err_ne : (diskWriteErr : Int) ≠ 0 := by decide

/-! ## The transfer loops -/

/-- The word loop leaves what is before word `j` alone and fills the words from `j` on. -/
theorem read_words_spec (ports : PortReads) (curStart : Nat) : ∀ r j n (buf : ByteMem),
    (∀ x < curStart + 2 * j, readWords ports buf curStart r j n x = buf x) ∧
    ∀ i < r, (readWords ports buf curStart r j n).word16 (curStart + 2 * (j + i)) =
      in16 ports (n + i) := by
  intro r
  induction r with
  | zero => exact fun j n buf => ⟨fun _ _ => rfl, fun i hi => absurd hi (Nat.not_lt_zero i)⟩
  | succ r ih =>
      intro j n buf
      obtain ⟨hbefore, hwords⟩ :=
        ih (j + 1) (n + 1) (buf.setWord16 (curStart + 2 * j) (in16 ports n))
      refine ⟨fun x hx => ?_, fun i hi => ?_⟩
      · rw [readWords, hbefore x (by omega), ByteMem.setWord16_outside (by omega)]
      · rw [readWords]
        cases i with
        | zero =>
            -- the later rounds leave the word of this one alone
            have hsame := ByteMem.word16_congr (hbefore (curStart + 2 * j) (by omega))
              (hbefore (curStart + 2 * j + 1) (by omega))
            rw [Nat.add_zero j, Nat.add_zero n, hsame, ByteMem.word16_setWord16_same]
            exact Nat.mod_eq_of_lt (Nat.mod_lt _ (by decide))
        | succ i =>
            rw [show j + (i + 1) = j + 1 + i by omega, hwords i (by omega),
              show n + 1 + i = n + (i + 1) by omega]

/-- The word loop changes nothing outside its sector. -/
theorem read_words_frame (ports : PortReads) (curStart : Nat) : ∀ r j n (buf : ByteMem) x,
    (x < curStart + 2 * j ∨ curStart + 2 * (j + r) ≤ x) →
    readWords ports buf curStart r j n x = buf x := by
  intro r
  induction r with
  | zero => exact fun j n buf x _ => rfl
  | succ r ih =>
      intro j n buf x hx
      rw [readWords, ih (j + 1) (n + 1) _ x (by omega), ByteMem.setWord16_outside (by omega)]

/-- The read loop writes to no port. -/
theorem read_sectors_outs (ports : PortReads) (outs : List PortWrite) :
    ∀ r (buf : ByteMem) i n, (readSectors ports outs buf r i n).outs = outs := by
  intro r
  induction r with
  | zero => exact fun buf i n => rfl
  | succ r ih =>
      intro buf i n
      rw [readSectors]
      cases pollStatus ports dataRequest ataWait n with
      | none => rfl
      | some n' =>
          simp only
          split_ifs
          · rfl
          · exact ih _ (i + 1) (n' + 2 + 256)

/-- A buffer function stores `k` sectors from sector `i` on, each from 256 port inputs of its own
from input `n` on, and changes nothing else. -/
structure Deposits (ports : PortReads) (store : ByteMem → ByteMem) (i k n : Nat)
    (start : Nat → Nat) : Prop where
  later : 0 < k → n ≤ start i
  apart : ∀ x, i ≤ x → x + 1 < i + k → start x + 256 ≤ start (x + 1)
  words : ∀ buf x, i ≤ x → x < i + k → ∀ j < 256,
    (store buf).word16 (512 * x + 2 * j) = in16 ports (start x + j)
  frame : ∀ buf x, x < 512 * i ∨ 512 * (i + k) ≤ x → store buf x = buf x

theorem Deposits.none (ports : PortReads) (i n : Nat) (start : Nat → Nat) :
    Deposits ports (fun buf => buf) i 0 n start :=
  ⟨fun h => absurd h (Nat.lt_irrefl 0), fun x hx hk => by omega, fun buf x hx hk => by omega,
    fun buf x _ => rfl⟩

/-- The word loop of one sector, and then the sectors after it. -/
theorem Deposits.cons {ports : PortReads} {store : ByteMem → ByteMem} {i k n n' : Nat}
    {start : Nat → Nat} (hn : n ≤ n') (h : Deposits ports store (i + 1) k (n' + 256) start) :
    Deposits ports (fun buf => store (readWords ports buf (512 * i) 256 0 n')) i (k + 1) n
      (Function.update start i n') := by
  have hother : ∀ x, i + 1 ≤ x → Function.update start i n' x = start x := by
    intro x hx
    rw [Function.update_of_ne (by omega)]
  refine ⟨fun _ => by rwa [Function.update_self], fun x hx hk => ?_, fun buf x hx hk j hj => ?_,
    fun buf x hx => ?_⟩
  · rw [hother (x + 1) (by omega)]
    rcases Nat.eq_or_lt_of_le hx with rfl | hx
    · rw [Function.update_self]
      exact h.later (by omega)
    · rw [hother x hx]
      exact h.apart x hx (by omega)
  · rcases Nat.eq_or_lt_of_le hx with rfl | hx
    · -- the later sectors leave the words of this one alone
      obtain ⟨_, hwords⟩ := read_words_spec ports (512 * i) 256 0 n' buf
      have hsame := ByteMem.word16_congr
        (h.frame (readWords ports buf (512 * i) 256 0 n') (512 * i + 2 * j) (Or.inl (by omega)))
        (h.frame (readWords ports buf (512 * i) 256 0 n') (512 * i + 2 * j + 1)
          (Or.inl (by omega)))
      have hword := hwords j hj
      rw [Nat.zero_add] at hword
      rw [hsame, hword, Function.update_self]
    · rw [hother x hx]
      exact h.words _ x hx (by omega) j hj
  · rw [h.frame _ x (by omega), read_words_frame ports (512 * i) 256 0 n' buf x (by omega)]

/-- The read loop fills as many sectors of any buffer as it counts, and all of them exactly when the
device serves them. -/
theorem read_sectors_deposits (ports : PortReads) (outs : List PortWrite) :
    ∀ r i n, ∃ k ≤ r, (k = r ↔ ServesSectors ports 256 r n) ∧
      (∀ buf, (readSectors ports outs buf r i n).moved = i + k ∧
        ((readSectors ports outs buf r i n).code = 0 → k = r)) ∧
      ∃ start, Deposits ports (fun buf => (readSectors ports outs buf r i n).buf) i k n start := by
  intro r
  induction r with
  | zero =>
      intro i n
      exact ⟨0, Nat.le_refl 0, iff_of_true rfl trivial, fun buf => ⟨rfl, fun _ => rfl⟩, fun _ => 0,
        Deposits.none ports i n _⟩
  | succ r ih =>
      intro i n
      cases hpoll : pollStatus ports dataRequest ataWait n with
      | none =>
          have hstop : ∀ buf,
              readSectors ports outs buf (r + 1) i n = ⟨-timeOut, i, outs, buf⟩ := by
            intro buf
            rw [readSectors, hpoll]
          simp only [hstop]
          exact ⟨0, Nat.zero_le _, iff_of_false (by omega) (serves_sectors_time_out hpoll),
            fun buf => ⟨rfl, fun h => absurd h time_out_ne⟩, fun _ => 0, Deposits.none ports i n _⟩
      | some m =>
          by_cases herr : statusError ports m = true
          · have hstop : ∀ buf,
                readSectors ports outs buf (r + 1) i n = ⟨diskReadErr, i, outs, buf⟩ := by
              intro buf
              rw [readSectors, hpoll]
              simp only [herr, if_true]
            simp only [hstop]
            refine ⟨0, Nat.zero_le _, iff_of_false (by omega) fun hserves => ?_,
              fun buf => ⟨rfl, fun h => absurd h disk_read_err_ne⟩, fun _ => 0,
              Deposits.none ports i n _⟩
            have hfalse := ((serves_sectors_succ hpoll).mp hserves).1
            rw [herr] at hfalse
            cases hfalse
          · have hgo : ∀ buf, readSectors ports outs buf (r + 1) i n =
                readSectors ports outs (readWords ports buf (512 * i) 256 0 (m + 2)) r (i + 1)
                  (m + 2 + 256) := by
              intro buf
              rw [readSectors, hpoll]
              simp only [if_neg herr]
            simp only [hgo]
            obtain ⟨k, hk, hiff, hcount, start, hdeposits⟩ := ih (i + 1) (m + 2 + 256)
            have hlt := (poll_status_eq_some.mp hpoll).1
            refine ⟨k + 1, by omega, ?_, fun buf => ?_, Function.update start i (m + 2),
              Deposits.cons (by omega) hdeposits⟩
            · rw [serves_sectors_succ hpoll, ← hiff]
              exact ⟨fun h => ⟨by simpa using herr, by omega⟩, fun h => by omega⟩
            · obtain ⟨hmoved, hall⟩ := hcount (readWords ports buf (512 * i) 256 0 (m + 2))
              exact ⟨by omega, fun h => by rw [hall h]⟩

theorem write_words_eq (base : Nat) (buf : ByteMem) (curStart : Nat) :
    ∀ r j, writeWords base buf curStart r j =
      (List.range' j r).map fun j => out16 base (buf.word16 (curStart + 2 * j)) := by
  intro r
  induction r with
  | zero => exact fun j => rfl
  | succ r ih =>
      intro j
      rw [writeWords, ih (j + 1), List.range'_succ, List.map_cons]

theorem write_words_port {base : Nat} {buf : ByteMem} {curStart : Nat} (r j : Nat) :
    ∀ w ∈ writeWords base buf curStart r j, w.port = base % 65536 := by
  intro w hw
  rw [write_words_eq] at hw
  obtain ⟨x, _, rfl⟩ := List.mem_map.mp hw
  rfl

/-- The word loop of a sector sends this sector. -/
theorem write_words_sector (base : Nat) (buf : ByteMem) (i : Nat) :
    writeWords base buf (512 * i) 256 0 = sectorWords base buf i 1 := by
  have hrange : List.range' (256 * i) 256 = (List.range' 0 256).map (256 * i + ·) := by
    rw [List.map_add_range', Nat.add_zero]
  rw [write_words_eq, sectorWords, Nat.mul_one, hrange, List.map_map]
  refine List.map_congr_left fun j _ => ?_
  simp only [Function.comp]
  rw [show 512 * i + 2 * j = 2 * (256 * i + j) by omega]

theorem sector_words_append (base : Nat) (buf : ByteMem) (i r k : Nat) :
    sectorWords base buf i r ++ sectorWords base buf (i + r) k =
      sectorWords base buf i (r + k) := by
  rw [sectorWords, sectorWords, sectorWords, ← List.map_append, Nat.mul_add, Nat.mul_add,
    List.range'_append_1]

theorem sector_words_port {base : Nat} {buf : ByteMem} {i r : Nat} :
    ∀ w ∈ sectorWords base buf i r, w.port = base % 65536 := by
  intro w hw
  obtain ⟨x, _, rfl⟩ := List.mem_map.mp hw
  rfl

theorem sector_words_length (base : Nat) (buf : ByteMem) (i r : Nat) :
    (sectorWords base buf i r).length = 256 * r := by
  rw [sectorWords, List.length_map, List.length_range']

/-- The write loop sends as many sectors to the data port as it counts and nothing else to any port,
and it sends all of them exactly when the device serves them. -/
theorem write_sectors_sends (ports : PortReads) (base : Nat) (buf : ByteMem) :
    ∀ r outs i n, ∃ k ≤ r, (k = r ↔ ServesSectors ports 0 r n) ∧
      (writeSectors ports base buf r outs i n).outs = outs ++ sectorWords base buf i k ∧
      (writeSectors ports base buf r outs i n).moved = i + k ∧
      ((writeSectors ports base buf r outs i n).code = 0 → k = r) := by
  have hnone : ∀ outs i, outs ++ sectorWords base buf i 0 = outs := fun outs i =>
    List.append_nil outs
  intro r
  induction r with
  | zero =>
      intro outs i n
      refine ⟨0, Nat.le_refl 0, iff_of_true rfl trivial, ?_⟩
      rw [writeSectors, hnone]
      cases pollStatus ports notBusy ataWait n with
      | none => exact ⟨rfl, rfl, fun _ => rfl⟩
      | some n' =>
          simp only
          split_ifs <;> exact ⟨rfl, rfl, fun _ => trivial⟩
  | succ r ih =>
      intro outs i n
      rw [writeSectors]
      cases hpoll : pollStatus ports dataRequest ataWait n with
      | none =>
          refine ⟨0, Nat.zero_le _, iff_of_false (by omega) (serves_sectors_time_out hpoll), ?_⟩
          rw [hnone]
          exact ⟨rfl, rfl, fun h => absurd h time_out_ne⟩
      | some m =>
          by_cases herr : statusError ports m = true
          · refine ⟨0, Nat.zero_le _, iff_of_false (by omega) fun hserves => ?_, ?_⟩
            · have hfalse := ((serves_sectors_succ hpoll).mp hserves).1
              rw [herr] at hfalse
              cases hfalse
            · simp only [herr, if_true]
              rw [hnone]
              exact ⟨rfl, rfl, fun h => absurd h disk_write_err_ne⟩
          · obtain ⟨k, hk, hiff, houts, hmoved, hall⟩ :=
              ih (outs ++ writeWords base buf (512 * i) 256 0) (i + 1) (m + 2)
            refine ⟨k + 1, by omega, ?_, ?_⟩
            · rw [serves_sectors_succ hpoll, Nat.add_zero, ← hiff]
              exact ⟨fun h => ⟨by simpa using herr, by omega⟩, fun h => by omega⟩
            · simp only [if_neg herr]
              refine ⟨?_, by rw [hmoved]; omega, fun h => by rw [hall h]⟩
              rw [houts, write_words_sector, List.append_assoc, sector_words_append,
                Nat.add_comm 1 k]

/-! ## Addressing -/

/-- The command byte is written in one place, so what stands before it is the task file. -/
theorem before_command {d : DiskPorts} {lba total command : Nat}
    {data before after : List PortWrite}
    (hdata : ∀ w ∈ data, w.port = d.baseDataPort % 65536)
    (h : taskFile d lba total ++ [outb (d.baseDataPort + 7) command] ++ data =
      before ++ outb (d.baseDataPort + 7) command :: after) : before = taskFile d lba total := by
  rw [List.append_assoc, List.singleton_append] at h
  rcases List.append_eq_append_iff.mp h with ⟨rest, hbefore, hrest⟩ | ⟨rest, hfile, hrest⟩
  · cases rest with
    | nil => simpa using hbefore
    | cons w rest =>
        have hmem : outb (d.baseDataPort + 7) command ∈ data := by
          have htail := (List.cons_eq_cons.mp hrest).2
          rw [htail]
          simp
        have hport := hdata _ hmem
        simp only [outb] at hport
        omega
  · cases rest with
    | nil => simpa using hfile.symm
    | cons w rest =>
        have hw := (List.cons_eq_cons.mp hrest).1
        have hmem : outb (d.baseDataPort + 7) command ∈ taskFile d lba total := by
          rw [hfile, hw]
          simp
        exact absurd rfl (task_file_ports hmem)

/-- For a 28-bit LBA and 1 to 256 sectors a call that has passed the bounds check addresses what was
asked for, if it moves it. -/
theorem addresses_of_outs {d : DiskPorts} {lba total command : Nat} {call : ByteMem → Transfer}
    {Moves : Nat → Prop} (hlba : lba < 268435456) (hpos : 1 ≤ total) (hle : total ≤ 256)
    (hbounds : add32 lba total ≤ d.sectCount)
    (houts : ∀ buf, ∃ data, (call buf).outs =
        taskFile d lba total ++ [outb (d.baseDataPort + 7) command] ++ data ∧
      ∀ w ∈ data, w.port = d.baseDataPort % 65536)
    (hmoves : Moves total) : Addresses d lba total command call Moves := by
  have hcount : taskFileCount d.baseDataPort (taskFile d lba total) = total := by
    rw [task_file_count]
    split_ifs <;> omega
  have hstart : taskFileLba d.baseDataPort (taskFile d lba total) = lba := by
    rw [task_file_lba]
    exact Nat.mod_eq_of_lt hlba
  have hsum : lba + total ≤ d.sectCount := by
    rwa [add32_of_lt (by omega)] at hbounds
  have hbefore : ∀ buf before after,
      (call buf).outs = before ++ outb (d.baseDataPort + 7) command :: after →
      before = taskFile d lba total := by
    intro buf before after h
    obtain ⟨data, hdata, hport⟩ := houts buf
    exact before_command hport (hdata.symm.trans h)
  refine ⟨fun buf before after h s => ?_, fun _ _ _ _ => hsum, fun buf before after h => ?_⟩
  · rw [hbefore buf before after h, hstart, hcount]
  · rw [hbefore buf before after h, hcount]
    exact hmoves

/-- A call that returns before the command byte addresses nothing. -/
theorem addresses_of_no_command {d : DiskPorts} {lba total command : Nat}
    {call : ByteMem → Transfer} {Moves : Nat → Prop}
    (houts : ∀ buf, ∀ w ∈ (call buf).outs, w ∈ taskFile d lba total) :
    Addresses d lba total command call Moves := by
  have hno : ∀ buf before after,
      (call buf).outs ≠ before ++ outb (d.baseDataPort + 7) command :: after := by
    intro buf before after h
    have hmem : outb (d.baseDataPort + 7) command ∈ (call buf).outs := by
      rw [h]
      simp
    exact absurd rfl (task_file_ports (houts buf _ hmem))
  exact ⟨fun buf before after h => absurd h (hno buf before after),
    fun buf before after h => absurd h (hno buf before after),
    fun buf before after h => absurd h (hno buf before after)⟩

/-- What the command byte was written for determines the arguments, and as many sectors as were
asked for are moved. -/
theorem args_of_addresses {d : DiskPorts} {lba total command : Nat} {call : ByteMem → Transfer}
    {Moves : Nat → Prop} {buf : ByteMem} {data : List PortWrite}
    (h : Addresses d lba total command call Moves)
    (houts : (call buf).outs =
      taskFile d lba total ++ [outb (d.baseDataPort + 7) command] ++ data) :
    lba < 268435456 ∧ 1 ≤ total ∧ total ≤ 256 ∧ Moves total := by
  have hsplit : (call buf).outs =
      taskFile d lba total ++ outb (d.baseDataPort + 7) command :: data := by
    rw [houts, List.append_assoc, List.singleton_append]
  have hdenotes := h.denotes buf (taskFile d lba total) data hsplit
  have hmoves := h.moves buf (taskFile d lba total) data hsplit
  rw [task_file_lba, task_file_count] at hdenotes
  rw [task_file_count] at hmoves
  -- the denoted sectors are never empty, and the two ranges have the same first and last sector
  have hcount : 1 ≤ (if total % 256 = 0 then 256 else total % 256) ∧
      (if total % 256 = 0 then 256 else total % 256) ≤ 256 := by
    split_ifs <;> omega
  generalize (if total % 256 = 0 then 256 else total % 256) = count at hdenotes hcount hmoves
  have hfirst := (hdenotes (lba % 268435456)).mp (by omega)
  have hlast := (hdenotes (lba % 268435456 + count - 1)).mp (by omega)
  have hbegin := (hdenotes lba).mpr (by omega)
  have hend := (hdenotes (lba + total - 1)).mpr (by omega)
  have hlba := Nat.mod_lt lba (show 0 < 268435456 by omega)
  obtain rfl : count = total := by omega
  exact ⟨by omega, by omega, by omega, hmoves⟩

/-- Both functions start in the same way, so they address what was asked for under the same
condition, up to what the device has to serve for their transfer. -/
theorem addresses_iff {ports : PortReads} {d : DiskPorts} {lba total command : Nat}
    {call : ByteMem → Transfer} {Moves : Nat → Prop} {Served : Prop}
    (hstop : ∀ code outs, startCommand ports d lba total command = .error (code, outs) →
      ∀ buf, (call buf).outs = outs)
    (hgo : ∀ n, startCommand ports d lba total command =
        .ok (n, taskFile d lba total ++ [outb (d.baseDataPort + 7) command]) →
      CommandAt ports n →
      (∀ buf, ∃ data, (call buf).outs =
          taskFile d lba total ++ [outb (d.baseDataPort + 7) command] ++ data ∧
        ∀ w ∈ data, w.port = d.baseDataPort % 65536) ∧
      (1 ≤ total → (Moves total ↔ Served))) :
    Addresses d lba total command call Moves ↔
      d.sectCount < add32 lba total ∨ (∀ n, ¬ CommandAt ports n) ∨
        (lba < 268435456 ∧ 1 ≤ total ∧ total ≤ 256 ∧ Served) := by
  constructor
  · intro h
    by_cases hbounds : d.sectCount < add32 lba total
    · exact Or.inl hbounds
    · by_cases hbusy : ∀ n, ¬ CommandAt ports n
      · exact Or.inr (Or.inl hbusy)
      · push Not at hbusy
        obtain ⟨n, hn⟩ := hbusy
        obtain ⟨houts, hmoves⟩ := hgo n (start_command_at (Nat.le_of_not_lt hbounds) hn) hn
        obtain ⟨data, hdata, _⟩ := houts fun _ => 0
        obtain ⟨hlba, hpos, hle, hmoved⟩ := args_of_addresses h hdata
        exact Or.inr (Or.inr ⟨hlba, hpos, hle, (hmoves hpos).mp hmoved⟩)
  · intro h
    rcases start_command_cases ports d lba total command with
      ⟨code, outs, heq, _, houts⟩ | ⟨n, heq, hbounds, hn⟩
    · refine addresses_of_no_command fun buf => ?_
      rw [hstop code outs heq buf]
      exact houts
    · obtain ⟨hlba, hpos, hle, hserved⟩ :=
        (h.resolve_left (by omega)).resolve_left fun hbusy => hbusy n hn
      obtain ⟨houts, hmoves⟩ := hgo n heq hn
      exact addresses_of_outs hlba hpos hle hbounds houts ((hmoves hpos).mpr hserved)

/-- Where a call leaves every buffer as it is from sector `k` on, it has stored no more than `k`
sectors. -/
theorem StoresSectors.le {ports : PortReads} {call : ByteMem → Transfer} {count k : Nat}
    (h : StoresSectors ports call count)
    (hframe : ∀ buf x, 512 * k ≤ x → (call buf).buf x = buf x) : count ≤ k := by
  obtain ⟨start, _, hstores⟩ := h
  by_contra hlt
  -- one word of sector `k` would be the same for two buffers that differ there
  have hword : ∀ v : UInt8, ByteMem.word16 (fun _ => v) 0 = in16 ports (start k + 0) := by
    intro v
    rw [← (hstores fun _ => v).1 k (by omega) 0 (by decide)]
    exact ByteMem.word16_congr (hframe (fun _ => v) (512 * k + 2 * 0) (by omega)).symm
      (hframe (fun _ => v) (512 * k + 2 * 0 + 1) (by omega)).symm
  exact absurd ((hword 0).trans (hword 1).symm) (by decide)

/-- A read that has written the command byte stores the sectors asked for exactly when the device
serves them. -/
theorem stores_sectors_iff {ports : PortReads} {d : DiskPorts} {lba total n : Nat}
    (hstart : startCommand ports d lba total 0x20 =
      .ok (n, taskFile d lba total ++ [outb (d.baseDataPort + 7) 0x20]))
    (hn : CommandAt ports n) (hpos : 1 ≤ total) :
    StoresSectors ports (readDiskBlock ports d lba total) total ↔ DeliversSectors ports total := by
  cases hpoll : pollStatus ports notBusy ataWait n with
  | none =>
      refine iff_of_false (fun h => ?_) ?_
      · have hle := h.le (k := 0) fun buf x _ => by rw [readDiskBlock, hstart]; simp only [hpoll]
        omega
      · rintro ⟨n', m, hn', hm, _⟩
        rw [← poll_status_eq_some, hn.unique hn', hpoll] at hm
        cases hm
  | some m =>
      have hbuf : (fun buf => (readDiskBlock ports d lba total buf).buf) = fun buf =>
          (readSectors ports (taskFile d lba total ++ [outb (d.baseDataPort + 7) 0x20]) buf total 0
            m).buf := by
        funext buf
        rw [readDiskBlock, hstart]
        simp only [hpoll]
      obtain ⟨k, hk, hiff, _, start, hdeposits⟩ := read_sectors_deposits ports
        (taskFile d lba total ++ [outb (d.baseDataPort + 7) 0x20]) total 0 m
      rw [← hbuf] at hdeposits
      constructor
      · intro h
        have hle := h.le fun buf x hx => hdeposits.frame buf x (Or.inr (by omega))
        exact ⟨n, m, hn, poll_status_eq_some.mp hpoll, hiff.mp (by omega)⟩
      · rintro ⟨n', m', hn', hm', hserves⟩
        rw [← poll_status_eq_some, hn.unique hn', hpoll] at hm'
        cases hm'
        obtain rfl := hiff.mpr hserves
        exact ⟨start, fun i hi => hdeposits.apart i (Nat.zero_le i) (by omega), fun buf =>
          ⟨fun i hi j hj => hdeposits.words buf i (Nat.zero_le i) (by omega) j hj,
            fun x hx => hdeposits.frame buf x (Or.inr (by omega))⟩⟩

/-- Up to the command byte nothing is sent to the data port. -/
theorem task_file_sends (d : DiskPorts) (lba total command : Nat) :
    (taskFile d lba total ++ [outb (d.baseDataPort + 7) command]).filter
      (fun w => w.port = d.baseDataPort % 65536) = [] := by
  rw [List.filter_eq_nil_iff]
  intro w hw
  simp only [taskFile, selectDrive, loadTaskFile, outb, List.cons_append, List.nil_append,
    List.mem_cons, List.not_mem_nil, or_false] at hw
  rw [decide_eq_true_eq]
  rcases hw with rfl | rfl | rfl | rfl | rfl | rfl <;> simp only <;> omega

/-- A write that has written the command byte sends the sectors asked for exactly when the device
serves them. -/
theorem sends_sectors_iff {ports : PortReads} {d : DiskPorts} {lba total n : Nat}
    (hstart : startCommand ports d lba total 0x30 =
      .ok (n, taskFile d lba total ++ [outb (d.baseDataPort + 7) 0x30]))
    (hn : CommandAt ports n) :
    SendsSectors d (writeDiskBlock ports d lba total) total ↔ AcceptsSectors ports total := by
  -- what is sent to the data port is what the loop sends
  have hsent : ∀ buf k, (writeDiskBlock ports d lba total buf).outs =
        taskFile d lba total ++ [outb (d.baseDataPort + 7) 0x30] ++
          sectorWords d.baseDataPort buf 0 k →
      (writeDiskBlock ports d lba total buf).outs.filter
        (fun w => w.port = d.baseDataPort % 65536) = sectorWords d.baseDataPort buf 0 k := by
    intro buf k houts
    rw [houts, List.filter_append, task_file_sends, List.nil_append, List.filter_eq_self]
    exact fun w hw => decide_eq_true (sector_words_port w hw)
  have hloop : ∀ buf, ∃ k ≤ total, (k = total ↔ ServesSectors ports 0 total n) ∧
      (writeDiskBlock ports d lba total buf).outs =
        taskFile d lba total ++ [outb (d.baseDataPort + 7) 0x30] ++
          sectorWords d.baseDataPort buf 0 k := by
    intro buf
    obtain ⟨k, hk, hiff, houts, _⟩ := write_sectors_sends ports d.baseDataPort buf total
      (taskFile d lba total ++ [outb (d.baseDataPort + 7) 0x30]) 0 n
    rw [writeDiskBlock, hstart]
    exact ⟨k, hk, hiff, houts⟩
  constructor
  · intro h
    obtain ⟨k, hk, hiff, houts⟩ := hloop fun _ => 0
    have hlength := congrArg List.length ((hsent _ k houts).symm.trans (h fun _ => 0))
    rw [sector_words_length, sector_words_length] at hlength
    exact ⟨n, hn, hiff.mp (by omega)⟩
  · rintro ⟨n', hn', hserves⟩ buf
    obtain rfl := hn.unique hn'
    obtain ⟨k, hk, hiff, houts⟩ := hloop buf
    obtain rfl := hiff.mpr hserves
    exact hsent buf k houts

/-- For every sequence of port values, every disk and all 32-bit arguments: a read, and a write,
addresses and moves what was asked for exactly when the bounds check rejects the call, or the device
stays busy before the command byte, or the LBA has 28 bits, the count is between 1 and 256 and the
device serves that many sectors. -/
theorem driver_addresses_iff (ports : PortReads) (d : DiskPorts) (lba total : Nat) :
    (Addresses d lba total 0x20 (readDiskBlock ports d lba total)
        (StoresSectors ports (readDiskBlock ports d lba total)) ↔
      d.sectCount < add32 lba total ∨ (∀ n, ¬ CommandAt ports n) ∨
        (lba < 268435456 ∧ 1 ≤ total ∧ total ≤ 256 ∧ DeliversSectors ports total)) ∧
    (Addresses d lba total 0x30 (writeDiskBlock ports d lba total)
        (SendsSectors d (writeDiskBlock ports d lba total)) ↔
      d.sectCount < add32 lba total ∨ (∀ n, ¬ CommandAt ports n) ∨
        (lba < 268435456 ∧ 1 ≤ total ∧ total ≤ 256 ∧ AcceptsSectors ports total)) := by
  refine ⟨addresses_iff (fun code outs heq buf => ?_) fun n hstart hn => ⟨fun buf => ⟨[], ?_⟩, ?_⟩,
    addresses_iff (fun code outs heq buf => ?_) fun n hstart hn => ⟨fun buf => ?_, ?_⟩⟩
  · rw [readDiskBlock, heq]
  · -- after the command byte a read writes to no port
    rw [readDiskBlock, hstart, List.append_nil]
    refine ⟨?_, fun w hw => absurd hw List.not_mem_nil⟩
    simp only
    cases pollStatus ports notBusy ataWait n with
    | none => rfl
    | some m => exact read_sectors_outs ports _ total buf 0 m
  · exact stores_sectors_iff hstart hn
  · rw [writeDiskBlock, heq]
  · obtain ⟨k, _, _, houts, _⟩ := write_sectors_sends ports d.baseDataPort buf total
      (taskFile d lba total ++ [outb (d.baseDataPort + 7) 0x30]) 0 n
    rw [writeDiskBlock, hstart]
    exact ⟨_, houts, sector_words_port⟩
  · exact fun _ => sends_sectors_iff hstart hn

/-- One sector at LBA `2 ^ 32 - 1` passes the bounds check of a disk of 1000 sectors, because the
sum wraps to 0, and the command addresses something else. -/
theorem driver_addresses_wrapped_sum :
    ¬ Addresses ⟨0x1f0, true, 1000⟩ 0xffffffff 1 0x30
      (writeDiskBlock (fun _ => 8) ⟨0x1f0, true, 1000⟩ 0xffffffff 1)
      (SendsSectors ⟨0x1f0, true, 1000⟩
        (writeDiskBlock (fun _ => 8) ⟨0x1f0, true, 1000⟩ 0xffffffff 1)) := by
  intro h
  have hready : ∀ n, LeavesAt (fun _ => 8) notBusy n (n + 1) := fun n =>
    ⟨by omega, by omega, show notBusy 8 = true by decide, fun x hx hm => by omega⟩
  have hstart : startCommand (fun _ => 8) ⟨0x1f0, true, 1000⟩ 0xffffffff 1 0x30 =
      .ok (2, taskFile ⟨0x1f0, true, 1000⟩ 0xffffffff 1 ++ [outb (0x1f0 + 7) 0x30]) :=
    start_command_at (by decide) ⟨1, hready 0, hready 1⟩
  obtain ⟨k, _, _, houts, _⟩ := write_sectors_sends (fun _ => 8) 0x1f0 (fun _ => 0) 1
    (taskFile ⟨0x1f0, true, 1000⟩ 0xffffffff 1 ++ [outb (0x1f0 + 7) 0x30]) 0 2
  have hcall : (writeDiskBlock (fun _ => 8) ⟨0x1f0, true, 1000⟩ 0xffffffff 1 fun _ => 0).outs =
      taskFile ⟨0x1f0, true, 1000⟩ 0xffffffff 1 ++ [outb (0x1f0 + 7) 0x30] ++
        sectorWords 0x1f0 (fun _ => 0) 0 k := by
    rw [writeDiskBlock, hstart]
    exact houts
  have hargs := args_of_addresses h hcall
  omega

end Genesis32
