import Genesis32.Disk.DriverProgram

/-!
# An ATA channel

The device behind the ports of the driver: the task file registers of a channel and its two drives,
as the PIO protocol of the ATA standard has them. A drive that gets a command is busy for a while,
then it asks for the words of one sector after the other, or it shows one of the error bits. How
long it is busy, what its status register shows meanwhile and where it fails is up to the drive: the
busy periods to come are part of its state.
-/

namespace Genesis32

open Word PortProgram

namespace Ata

/-! ## A drive -/

/-- The error bits of the status register that the driver looks at: ERR and DF. -/
inductive Fault where
  | err
  | df
  deriving DecidableEq, Repr

/-- The bit of a fault in the status register. -/
def faultBits : Option Fault → Nat
  | none => 0x00
  | some .err => 0x01
  | some .df => 0x20

/-- How a busy period ends when the drive has failed: its error bit, and whether the drive asks for
data all the same. -/
structure Failure where
  fault : Fault
  request : Bool

/-- A busy period: the low bits of the status register at each input of it, and the failure. -/
structure BusyPeriod where
  noise : List Nat
  failure : Option Failure

/-- What a drive is doing. It sends words of an image, or it receives words into a buffer of one
sector; `left` counts the sectors behind this one. -/
inductive Phase where
  | idle (fault : Option Fault)
  | busy (noise : Nat) (rest : List Nat) (after : Phase)
  | sending (image : ByteMem) (sector word left : Nat) (fault : Option Fault)
  | receiving (sector word left : Nat) (latch : ByteMem) (fault : Option Fault)

namespace Phase

/-- Busy for as many inputs of the status register as there is noise. -/
def busyFor : List Nat → Phase → Phase
  | [], after => after
  | noise :: rest, after => .busy noise rest after

/-- The status register: BSY, DRDY, DRQ and the error bits. -/
def status : Phase → Nat
  | idle fault => 0x40 ||| faultBits fault
  | busy noise _ _ => 0x80 ||| noise % 128
  | sending _ _ _ _ fault => 0x48 ||| faultBits fault
  | receiving _ _ _ _ fault => 0x48 ||| faultBits fault

/-- The phase after an input of the status register. -/
def tick : Phase → Phase
  | busy _ rest after => busyFor rest after
  | p => p

/-- The phase at the end of the busy periods. -/
def settled : Phase → Phase
  | busy _ _ after => settled after
  | p => p

/-- How many inputs of the status register still show BSY. -/
def wait : Phase → Nat
  | busy _ rest after => rest.length + 1 + wait after
  | _ => 0

/-- BSY is set. -/
def isBusy : Phase → Bool
  | busy _ _ _ => true
  | _ => false

end Phase

/-- A drive: its sectors, its IDENTIFY data, what it is doing, and the busy periods to come. -/
structure Drive where
  image : ByteMem
  identity : ByteMem
  phase : Phase
  periods : Nat → BusyPeriod

namespace Drive

/-- The number of sectors, as words 61:60 of the IDENTIFY data say. -/
def size (dr : Drive) : Nat := dr.identity.word32 120

/-- The next busy period and what comes after it. -/
def pause (dr : Drive) (after : Option Failure → Phase) : Drive :=
  { dr with
    phase := .busyFor (dr.periods 0).noise (after (dr.periods 0).failure)
    periods := fun n => dr.periods (n + 1) }

/-- The drive has a sector to send. -/
def offer (image : ByteMem) (sector left : Nat) : Option Failure → Phase
  | none => .sending image sector 0 left none
  | some ⟨fault, true⟩ => .sending image sector 0 left (some fault)
  | some ⟨fault, false⟩ => .idle (some fault)

/-- The drive waits for a sector. -/
def accept (sector left : Nat) : Option Failure → Phase
  | none => .receiving sector 0 left (fun _ => 0x00) none
  | some ⟨fault, true⟩ => .receiving sector 0 left (fun _ => 0x00) (some fault)
  | some ⟨fault, false⟩ => .idle (some fault)

/-- What the drive does behind the last word of a sector that it has received. -/
def received (sector left : Nat) (failure : Option Failure) : Phase :=
  match left with
  | 0 => .idle (failure.map Failure.fault)
  | left + 1 => accept (sector + 1) left failure

/-- A command: READ SECTORS, WRITE SECTORS and IDENTIFY DEVICE, and an error for any other one and
for sectors that the drive does not have. -/
def command (dr : Drive) (lba count code : Nat) : Drive :=
  if code = 0x20 ∧ lba + count ≤ dr.size then dr.pause (offer dr.image lba (count - 1))
  else if code = 0x30 ∧ lba + count ≤ dr.size then dr.pause (accept lba (count - 1))
  else if code = 0xec then dr.pause (offer dr.identity 0 0)
  else dr.pause fun _ => .idle (some .err)

/-- An input of the data register. -/
def readData (dr : Drive) : Nat × Drive :=
  match dr.phase with
  | .sending image sector word left fault =>
      (image.word16 (512 * sector + 2 * word),
        if word < 255 then { dr with phase := .sending image sector (word + 1) left fault }
        else if left = 0 then { dr with phase := .idle none }
        else dr.pause (offer image (sector + 1) (left - 1)))
  | _ => (0xffff, dr)

/-- An output to the data register. A sector reaches the medium when all its words are there, unless
the drive fails. -/
def writeData (dr : Drive) (v : Nat) : Drive :=
  match dr.phase with
  | .receiving sector word left latch fault =>
      if word < 255 then
        { dr with
          phase := .receiving sector (word + 1) left (latch.setWord16 (2 * word) v) fault }
      else if (dr.periods 0).failure.isSome then dr.pause (received sector left)
      else
        { dr with
          image := dr.image.copy (512 * sector) (latch.setWord16 (2 * word) v) 0 512 }.pause
            (received sector left)
  | _ => dr

end Drive

/-! ## A channel -/

/-- The registers of a channel that the driver loads, and its two drives, the master under
`true`. -/
structure Channel where
  count : Nat
  lbaLow : Nat
  lbaMid : Nat
  lbaHigh : Nat
  head : Nat
  drive : Bool → Option Drive

namespace Channel

/-- The drive that bit 4 of the drive register selects. -/
def selected (c : Channel) : Bool := c.head &&& 0x10 = 0

/-- The drive that answers. -/
def current (c : Channel) : Option Drive := c.drive c.selected

/-- The channel with another state of the drive that answers. -/
def setCurrent (c : Channel) (dr : Drive) : Channel :=
  { c with drive := Function.update c.drive c.selected (some dr) }

/-- The 28-bit LBA in the registers. -/
def lba (c : Channel) : Nat :=
  c.head % 16 * 16777216 + c.lbaHigh * 65536 + c.lbaMid * 256 + c.lbaLow

/-- The number of sectors in the registers. -/
def sectors (c : Channel) : Nat := if c.count = 0 then 256 else c.count

/-- What the status register of a drive that is not there shows: nothing drives the bus, or the
other drive answers for it. -/
def absent (c : Channel) : Nat := if (c.drive !c.selected).isSome then 0x00 else 0xff

/-- An input of the register `r`. -/
def read (c : Channel) (r : Nat) : Nat × Channel :=
  match r, c.current with
  | 0, some dr => (dr.readData.1, c.setCurrent dr.readData.2)
  | 7, some dr => (dr.phase.status, c.setCurrent { dr with phase := dr.phase.tick })
  | 7, none => (c.absent, c)
  | 2, _ => (c.count, c)
  | 3, _ => (c.lbaLow, c)
  | 4, _ => (c.lbaMid, c)
  | 5, _ => (c.lbaHigh, c)
  | 6, _ => (c.head, c)
  | _, _ => (0xffff, c)

/-- The drive that answers is busy, and takes no output. -/
def isBusy (c : Channel) : Bool := c.current.any fun dr => dr.phase.isBusy

/-- An output to the register `r`. -/
def write (c : Channel) (r v : Nat) : Channel :=
  if c.isBusy then c
  else
    match r, c.current with
    | 0, some dr => c.setCurrent (dr.writeData v)
    | 2, _ => { c with count := v }
    | 3, _ => { c with lbaLow := v }
    | 4, _ => { c with lbaMid := v }
    | 5, _ => { c with lbaHigh := v }
    | 6, _ => { c with head := v }
    | 7, some dr => c.setCurrent (dr.command c.lba c.sectors v)
    | _, _ => c

/-- The channel whose registers are at the ports from `base` on. -/
def device (base : Nat) : Device Channel PortInput PortWrite Nat where
  answer c i :=
    match i with
    | .byte port => if base ≤ port ∧ port < base + 8 then c.read (port - base) else (0xff, c)
    | .word port => if base ≤ port ∧ port < base + 8 then c.read (port - base) else (0xffff, c)
  take c w := if base ≤ w.port ∧ w.port < base + 8 then c.write (w.port - base) w.value else c

/-- No drive is busy. -/
def Quiet (c : Channel) : Prop := ∀ m dr, c.drive m = some dr → dr.phase.isBusy = false

end Channel

/-- The drive is never busy for longer than the driver waits. -/
def Drive.Prompt (dr : Drive) : Prop := ∀ n, (dr.periods n).noise.length ≤ ataWait

/-- The drive never fails. -/
def Drive.Sound (dr : Drive) : Prop := ∀ n, (dr.periods n).failure = none

/-! ## Phases -/

namespace Phase

variable {p after : Phase}

theorem settled_busy_for (noise : List Nat) (after : Phase) :
    (busyFor noise after).settled = after.settled := by
  cases noise <;> rfl

theorem wait_busy_for (noise : List Nat) (after : Phase) :
    (busyFor noise after).wait = noise.length + after.wait := by
  cases noise with
  | nil => exact (Nat.zero_add _).symm
  | cons _ _ => rfl

theorem settled_tick (p : Phase) : p.tick.settled = p.settled := by
  cases p with
  | busy noise rest after => exact settled_busy_for rest after
  | _ => rfl

theorem settled_of_not_busy (h : p.isBusy = false) : p.settled = p := by
  cases p with
  | busy noise rest after => cases h
  | _ => rfl

theorem settled_not_busy : ∀ p : Phase, p.settled.isBusy = false
  | idle _ => rfl
  | busy _ _ after => settled_not_busy after
  | sending _ _ _ _ _ => rfl
  | receiving _ _ _ _ _ => rfl

theorem tick_of_not_busy (h : p.isBusy = false) : p.tick = p := by
  cases p with
  | busy noise rest after => cases h
  | _ => rfl

theorem wait_of_not_busy (h : p.isBusy = false) : p.wait = 0 := by
  cases p with
  | busy noise rest after => cases h
  | _ => rfl

theorem wait_tick (h : p.isBusy = true) : p.tick.wait + 1 = p.wait := by
  cases p with
  | busy noise rest after =>
      rw [tick, wait_busy_for, wait]
      omega
  | _ => cases h

/-- The status register of a drive that is not busy: its error bits are those of the fault. -/
theorem ready_bits (fault : Option Fault) (request : Bool) :
    let status := (if request then 0x48 else 0x40) ||| faultBits fault
    status < 256 ∧ notBusy status = true ∧ dataRequest status = request ∧
      ((status &&& 0x01 ≠ 0 ∨ status &&& 0x20 ≠ 0) ↔ fault ≠ none) := by
  rcases fault with _ | _ | _ <;> cases request <;> decide

theorem status_lt (p : Phase) : p.status < 256 := by
  have hnoise : ∀ n < 128, 0x80 ||| n < 256 := by decide
  cases p with
  | busy noise _ _ => exact hnoise _ (Nat.mod_lt _ (by decide))
  | idle fault => exact (ready_bits fault false).1
  | sending _ _ _ _ fault => exact (ready_bits fault true).1
  | receiving _ _ _ _ fault => exact (ready_bits fault true).1

/-- Both polls of the driver see BSY. -/
theorem busy_not_ready (h : p.isBusy = true) :
    notBusy p.status = false ∧ dataRequest p.status = false := by
  have hnoise : ∀ n < 128, notBusy (0x80 ||| n) = false ∧ dataRequest (0x80 ||| n) = false := by
    decide
  cases p with
  | busy noise _ _ => exact hnoise _ (Nat.mod_lt _ (by decide))
  | _ => cases h

theorem not_busy_status (h : p.isBusy = false) : notBusy p.status = true := by
  cases p with
  | busy _ _ _ => cases h
  | idle fault => exact (ready_bits fault false).2.1
  | sending _ _ _ _ fault => exact (ready_bits fault true).2.1
  | receiving _ _ _ _ fault => exact (ready_bits fault true).2.1

theorem idle_no_request (fault : Option Fault) : dataRequest (idle fault).status = false :=
  (ready_bits fault false).2.2.1

end Phase

namespace Drive

variable {image : ByteMem} {sector left : Nat} {failure : Option Failure}

/-- How a drive that may have failed asks for data: without a failure it does, and where it does its
error bits tell the failure. -/
structure Asks (phase : Option Failure → Phase) : Prop where
  not_busy : ∀ failure, (phase failure).isBusy = false
  request : dataRequest (phase none).status = true
  error : ∀ failure, dataRequest (phase failure).status = true →
    ((phase failure).status &&& 0x01 ≠ 0 ∨ (phase failure).status &&& 0x20 ≠ 0 ↔ failure ≠ none)

theorem offer_asks (image : ByteMem) (sector left : Nat) : Asks (offer image sector left) where
  not_busy failure := by rcases failure with _ | ⟨_, _ | _⟩ <;> rfl
  request := (Phase.ready_bits none true).2.2.1
  error failure h := by
    rcases failure with _ | ⟨fault, _ | _⟩
    · exact (Phase.ready_bits none true).2.2.2.trans (by simp)
    · rw [offer, Phase.idle_no_request] at h
      cases h
    · exact (Phase.ready_bits (some fault) true).2.2.2.trans (by simp)

theorem accept_asks (sector left : Nat) : Asks (accept sector left) where
  not_busy failure := by rcases failure with _ | ⟨_, _ | _⟩ <;> rfl
  request := (Phase.ready_bits none true).2.2.1
  error failure h := by
    rcases failure with _ | ⟨fault, _ | _⟩
    · exact (Phase.ready_bits none true).2.2.2.trans (by simp)
    · rw [accept, Phase.idle_no_request] at h
      cases h
    · exact (Phase.ready_bits (some fault) true).2.2.2.trans (by simp)

end Drive

/-! ## Channels -/

namespace Channel

variable {c : Channel} {dr dr' : Drive}

@[simp] theorem current_set_current (c : Channel) (dr : Drive) :
    (c.setCurrent dr).current = some dr :=
  Function.update_self ..

@[simp] theorem set_current_set_current (c : Channel) (dr dr' : Drive) :
    (c.setCurrent dr).setCurrent dr' = c.setCurrent dr' := by
  show ({ c with drive := Function.update (Function.update _ _ _) _ _ } : Channel) = _
  rw [show (c.setCurrent dr).selected = c.selected from rfl, Function.update_idem]
  rfl

theorem set_current_self (h : c.current = some dr) : c.setCurrent dr = c := by
  show ({ c with drive := Function.update c.drive c.selected (some dr) } : Channel) = c
  rw [← h, current, Function.update_eq_self]

/-- An input of the status register of a drive. -/
theorem read_status (c : Channel) (dr : Drive) : (c.setCurrent dr).read 7 =
    (dr.phase.status, c.setCurrent { dr with phase := dr.phase.tick }) := by
  unfold read
  rw [current_set_current]
  simp only [set_current_set_current]

/-- An input of the data register of a drive. -/
theorem read_data (c : Channel) (dr : Drive) : (c.setCurrent dr).read 0 =
    (dr.readData.1, c.setCurrent dr.readData.2) := by
  unfold read
  rw [current_set_current]
  simp only [set_current_set_current]

theorem is_busy_set_current (c : Channel) (dr : Drive) :
    (c.setCurrent dr).isBusy = dr.phase.isBusy := by
  rw [isBusy, current_set_current, Option.any_some]

/-- An output to the data register of a drive that is not busy. -/
theorem write_data (c : Channel) {dr : Drive} (h : dr.phase.isBusy = false) (v : Nat) :
    (c.setCurrent dr).write 0 v = c.setCurrent (dr.writeData v) := by
  unfold write
  rw [is_busy_set_current, h, current_set_current]
  simp only [Bool.false_eq_true, if_false, set_current_set_current]

/-! Outputs to the other registers when the drive that answers is not busy. -/

theorem write_head (h : c.isBusy = false) (v : Nat) : c.write 6 v = { c with head := v } := by
  simp [write, h]

theorem write_count (h : c.isBusy = false) (v : Nat) : c.write 2 v = { c with count := v } := by
  simp [write, h]

theorem write_lba_low (h : c.isBusy = false) (v : Nat) : c.write 3 v = { c with lbaLow := v } := by
  simp [write, h]

theorem write_lba_mid (h : c.isBusy = false) (v : Nat) : c.write 4 v = { c with lbaMid := v } := by
  simp [write, h]

theorem write_lba_high (h : c.isBusy = false) (v : Nat) :
    c.write 5 v = { c with lbaHigh := v } := by
  simp [write, h]

theorem write_command (h : c.isBusy = false) (hcurrent : c.current = some dr) (v : Nat) :
    c.write 7 v = c.setCurrent (dr.command c.lba c.sectors v) := by
  simp [write, h, hcurrent]

end Channel

end Ata

end Genesis32
