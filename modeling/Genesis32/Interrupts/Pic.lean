import Genesis32.Disk.DriverProgram

/-!
# The interrupt controllers

The two 8259A controllers of the board, with the port 0x92 next to them, and what `_start` of
`kernel.asm` writes to them before it calls `kernel_main`. A controller is in fully nested mode: it
passes on its first requesting line that is not masked, unless this line or one before it is still
in service. The slave is wired to line 2 of the master.
-/

namespace Genesis32

open PortProgram

namespace Irq

/-- What the next write to the data port of a controller is. -/
inductive InitPhase where
  | icw2
  | icw3
  | icw4
  | ready
  deriving DecidableEq, Repr

/-- A controller: the lines that request, the lines in service, the mask, and what the
initialisation words set. -/
structure Pic where
  irr : Nat → Bool
  isr : Nat → Bool
  imr : Nat
  base : Nat
  cascade : Nat
  phase : InitPhase
  single : Bool
  needsIcw4 : Bool
  autoEoi : Bool

namespace Pic

/-- A rising edge on a line. -/
def raise (p : Pic) (line : Nat) : Pic := { p with irr := Function.update p.irr line true }

/-- The first line that requests and is not masked, if neither it nor a line before it is in
service. -/
def candidate (p : Pic) (request : Nat → Bool) : Option Nat :=
  ((List.range 8).find? fun line => request line && !p.imr.testBit line).filter fun line =>
    (List.range (line + 1)).all fun before => !p.isr before

/-- The line is acknowledged. -/
def ack (p : Pic) (line : Nat) : Pic :=
  { p with
    irr := Function.update p.irr line false
    isr := if p.autoEoi then p.isr else Function.update p.isr line true }

/-- A non-specific EOI ends the first line in service. -/
def eoi (p : Pic) : Pic :=
  match (List.range 8).find? p.isr with
  | some line => { p with isr := Function.update p.isr line false }
  | none => p

/-- A write to the command port: ICW1, OCW3, an EOI, or one of the other forms of OCW2, of which
only the specific EOI is modelled. -/
def command (p : Pic) (v : Nat) : Pic :=
  if v.testBit 4 then
    { p with
      irr := fun _ => false
      imr := 0
      phase := .icw2
      single := v.testBit 1
      needsIcw4 := v.testBit 0 }
  else if v.testBit 3 then p
  else if v / 32 = 1 then p.eoi
  else if v / 32 = 3 then { p with isr := Function.update p.isr (v % 8) false }
  else p

/-- A write to the data port: ICW2, ICW3, ICW4 or the mask. -/
def data (p : Pic) (v : Nat) : Pic :=
  match p.phase with
  | .icw2 =>
      { p with
        base := v / 8 * 8
        phase := if !p.single then .icw3 else if p.needsIcw4 then .icw4 else .ready }
  | .icw3 => { p with cascade := v, phase := if p.needsIcw4 then .icw4 else .ready }
  | .icw4 => { p with autoEoi := v.testBit 1, phase := .ready }
  | .ready => { p with imr := v }

end Pic

/-- The controllers and the register behind port 0x92. -/
structure Board where
  control : Nat
  master : Pic
  slave : Pic

namespace Board

/-- The line of the slave that it passes on. -/
def slaveLine (b : Board) : Option Nat := b.slave.candidate b.slave.irr

/-- The lines that request at the master. -/
def request (b : Board) (line : Nat) : Bool :=
  if line = 2 then b.slaveLine.isSome else b.master.irr line

/-- A rising edge on one of the sixteen lines. Line 2 of the master is not wired to a device. -/
def raise (b : Board) (line : Nat) : Board :=
  if line < 8 then if line = 2 then b else { b with master := b.master.raise line }
  else { b with slave := b.slave.raise (line - 8) }

/-- What the processor gets when it acknowledges an interrupt: the vector and the controllers after
it, or nothing when the master does not ask for one. A line of the master with a slave on it gets
the vector of the slave that has its number; where there is none, nothing drives the bus. -/
def interrupt (b : Board) : Option (Nat × Board) :=
  (b.master.candidate b.request).map fun line =>
    let b' := { b with master := b.master.ack line }
    if b.master.cascade.testBit line then
      if b.slave.cascade = line then
        match b.slaveLine with
        | some slaveLine =>
            (b.slave.base + slaveLine, { b' with slave := b.slave.ack slaveLine })
        | none => (b.slave.base + 7, b')
      else (0xff, b')
    else (b.master.base + line, b')

/-- The ports of the board. -/
def device : Device Board PortInput PortWrite Nat where
  answer b i :=
    (if i.port = 0x21 then b.master.imr else if i.port = 0xa1 then b.slave.imr
      else if i.port = 0x92 then b.control else 0xff, b)
  take b w :=
    if w.port = 0x20 then { b with master := b.master.command w.value }
    else if w.port = 0x21 then { b with master := b.master.data w.value }
    else if w.port = 0xa0 then { b with slave := b.slave.command w.value }
    else if w.port = 0xa1 then { b with slave := b.slave.data w.value }
    else if w.port = 0x92 then { b with control := w.value }
    else b

end Board

/-! ## The start of the kernel -/

/-- `_start` up to the call of `kernel_main`: the A20 gate, the initialisation words of both
controllers, and the mask of the master without its low bits. -/
def startProgram : DriverProgram Unit :=
  (inbProgram 0x92).andThen fun al =>
    outputs [outb 0x92 (al ||| 0x02), outb 0x20 0x11, outb 0xa0 0x11, outb 0x21 0x20,
      outb 0xa1 0x28, outb 0x21 0x04, outb 0xa1 0x02, outb 0x21 0x01, outb 0xa1 0x01] <|
      (inbProgram 0x21).andThen fun al => .output (outb 0x21 (al &&& 0xfc)) (.ret ())

/-- A controller after its four initialisation words and with an empty mask. -/
structure Pic.Ready (p : Pic) (base cascade : Nat) : Prop where
  imr : p.imr = 0
  base : p.base = base
  cascade : p.cascade = cascade
  phase : p.phase = .ready
  autoEoi : p.autoEoi = false

/-- The controllers between two interrupts: the vectors behind the exceptions, no line masked, the
slave on line 2, and no line of the master in service. -/
structure Board.Remapped (b : Board) : Prop where
  master : b.master.Ready 0x20 0x04
  slave : b.slave.Ready 0x28 0x02
  served : ∀ line, b.master.isr line = false

/-- A controller after ICW1 to ICW4 and a mask. -/
theorem Pic.init_ready (p : Pic) {icw1 icw2 : Nat} (icw3 : Nat) {icw4 : Nat} (hicw1 : icw1 = 0x11)
    (hicw4 : icw4 = 0x01) (hicw2 : icw2 % 8 = 0) :
    let p' := (((p.command icw1).data icw2).data icw3).data icw4
    p'.Ready icw2 icw3 ∧ (∀ line, p'.irr line = false) ∧ p'.isr = p.isr := by
  subst hicw1 hicw4
  have hfirst : p.command 0x11 = { p with
      irr := fun _ => false
      imr := 0
      phase := .icw2
      single := false
      needsIcw4 := true } := by
    rw [command, if_pos (by decide)]
    rfl
  rw [hfirst]
  simp only [data, Bool.not_false, if_true]
  exact ⟨⟨rfl, by simp only; omega, rfl, rfl, rfl⟩, fun _ => trivial, trivial⟩

/-! What the outputs of `_start` do. -/

section

variable (b : Board) (v : Nat)

@[simp] theorem take_master_command : Board.device.take b (outb 0x20 v) =
    { b with master := b.master.command (v % 256) } := rfl

@[simp] theorem take_master_data : Board.device.take b (outb 0x21 v) =
    { b with master := b.master.data (v % 256) } := rfl

@[simp] theorem take_slave_command : Board.device.take b (outb 0xa0 v) =
    { b with slave := b.slave.command (v % 256) } := rfl

@[simp] theorem take_slave_data : Board.device.take b (outb 0xa1 v) =
    { b with slave := b.slave.data (v % 256) } := rfl

@[simp] theorem take_control : Board.device.take b (outb 0x92 v) =
    { b with control := v % 256 } := rfl

end

/-- Whatever state the controllers are in, `_start` remaps them. The mask that it computes is the
empty one, because ICW1 has cleared the mask that it reads: all lines are open. -/
theorem start_remaps (b : Board) (hmaster : ∀ line, b.master.isr line = false) :
    let after := (run Board.device startProgram b).2
    after.Remapped ∧ (∀ line, after.master.irr line = false) ∧
      (∀ line, after.slave.irr line = false) ∧ after.slave.isr = b.slave.isr := by
  intro after
  obtain ⟨hmasterReady, hmasterIrr, hmasterIsr⟩ := b.master.init_ready (0x04 % 256)
    (show 0x11 % 256 = 0x11 from rfl) (show 0x01 % 256 = 0x01 from rfl)
    (show 0x20 % 256 % 8 = 0 from rfl)
  obtain ⟨hslaveReady, hslaveIrr, hslaveIsr⟩ := b.slave.init_ready (0x02 % 256)
    (show 0x11 % 256 = 0x11 from rfl) (show 0x01 % 256 = 0x01 from rfl)
    (show 0x28 % 256 % 8 = 0 from rfl)
  have hafter : after = ⟨((b.control % 256) ||| 0x02) % 256,
      ((((b.master.command (0x11 % 256)).data (0x20 % 256)).data (0x04 % 256)).data
        (0x01 % 256)).data 0,
      (((b.slave.command (0x11 % 256)).data (0x28 % 256)).data (0x02 % 256)).data
        (0x01 % 256)⟩ := by
    have hcontrol : Board.device.answer b (.byte (0x92 % 65536)) = (b.control, b) := rfl
    have hmask : ∀ b : Board, Board.device.answer b (.byte (0x21 % 65536)) = (b.master.imr, b) :=
      fun _ => rfl
    simp only [after, startProgram, inbProgram, andThen, run_input, hcontrol, run_outputs,
      List.foldl_cons, List.foldl_nil, take_control, take_master_command, take_slave_command,
      take_master_data, take_slave_data, hmask, run_output, run_ret, hmasterReady.imr]
    rfl
  have hopen : ∀ q : Pic, q.phase = .ready → q.data 0 = { q with imr := 0 } := fun q hq => by
    rw [Pic.data, hq]
  rw [hafter, hopen _ hmasterReady.phase]
  exact ⟨⟨⟨rfl, hmasterReady.base, hmasterReady.cascade, hmasterReady.phase,
    hmasterReady.autoEoi⟩, hslaveReady,
    fun line => (congrFun hmasterIsr line).trans (hmaster line)⟩, hmasterIrr, hslaveIrr, hslaveIsr⟩

end Irq

end Genesis32
