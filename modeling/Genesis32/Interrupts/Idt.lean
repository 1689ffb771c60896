import Genesis32.Console.Print
import Genesis32.Library.ByteMem

/-!
# The interrupt descriptor table

`idt_init` of `idt/idt.c`, and the gates that the processor reads from the table. The table has 512
entries, twice as many as there are vectors; `sr0`, `sr20` and `sr21` have one vector each and
`isr_x` has all others. Every gate is a 32-bit interrupt gate that user code may call too. The
video memory and the cursor are the console's, all other memory is `ByteMem`.
-/

namespace Genesis32

/-- `TOTAL_INTERRUPTS`. -/
abbrev totalInterrupts : Nat := 512

/-- `KERNEL_CODE_SELECTOR`. -/
abbrev kernelCodeSelector : Nat := 0x08

/-- `_32INTERRUPT_KC_3_1`. -/
abbrev interruptKC31 : UInt8 := 0xee

/-- The entry points of `isr.asm`. -/
inductive Handler where
  | sr0
  | sr20
  | sr21
  | isrX
  deriving DecidableEq, Repr

/-- What `lidt` loads. -/
structure Idtr where
  len : Nat
  addr : Nat
  deriving DecidableEq, Repr

/-! ## The stores -/

/-- `setup_idt32IKC31`, with the table at `idtTable`. -/
def setupIdt32IKC31 (idtTable interruptNo address : Nat) (mem : ByteMem) : ByteMem :=
  let entry := idtTable + 8 * interruptNo
  let mem := mem.setWord16 entry (address &&& 0x0000ffff)
  let mem := mem.setWord16 (entry + 6) (address >>> 16)
  let mem := mem.setWord16 (entry + 2) kernelCodeSelector
  let mem := Function.update mem (entry + 5) interruptKC31
  Function.update mem (entry + 4) 0x00

/-- The loop of `idt_init`, with `r` entries left. -/
def setupIdtLoop (idtTable address : Nat) : Nat → Nat → ByteMem → ByteMem
  | 0, _, mem => mem
  | r + 1, i, mem =>
      setupIdtLoop idtTable address r (i + 1) (setupIdt32IKC31 idtTable i address mem)

/-- `load_idtr`: the length and the address in the six bytes of a packed `struct idtr`. -/
def loadIdtr (mem : ByteMem) (ldtrAddr : Nat) : Idtr :=
  ⟨mem.word16 ldtrAddr, mem.word32 (ldtrAddr + 2)⟩

/-- What `idt_init` leaves: the screen, the memory, and what it has loaded into IDTR. -/
structure IdtLoaded where
  console : Console
  mem : ByteMem
  idtr : Idtr

/-- `idt_init`, with `idt_table` and `idtr_descriptor` at the given addresses. -/
def idtInit (idtTable idtrDescriptor : Nat) (address : Handler → Nat) (c : Console)
    (mem : ByteMem) : IdtLoaded :=
  let c := c.print (chars "starting idt load....\n")
  let mem := mem.fill idtTable (8 * totalInterrupts) 0x00
  let mem := mem.setWord16 idtrDescriptor (8 * totalInterrupts - 1)
  let mem := mem.setWord32 (idtrDescriptor + 2) idtTable
  let mem := setupIdtLoop idtTable (address .isrX) totalInterrupts 0 mem
  let mem := setupIdt32IKC31 idtTable 0x00 (address .sr0) mem
  let mem := setupIdt32IKC31 idtTable 0x21 (address .sr21) mem
  let mem := setupIdt32IKC31 idtTable 0x20 (address .sr20) mem
  let idtr := loadIdtr mem idtrDescriptor
  let c := c.print (chars "idt loading successfull\n")
  ⟨c, mem, idtr⟩

/-! ## The gates -/

/-- A gate as the processor reads it. -/
structure Gate where
  offset : Nat
  selector : Nat
  attr : UInt8
  deriving DecidableEq, Repr

/-- The gate of a vector, or none if the entry is not inside the table. -/
def Idtr.gate (idtr : Idtr) (mem : ByteMem) (vector : Nat) : Option Gate :=
  if 8 * vector + 7 ≤ idtr.len then
    let entry := idtr.addr + 8 * vector
    some ⟨mem.word16 entry + 65536 * mem.word16 (entry + 6), mem.word16 (entry + 2),
      mem (entry + 5)⟩
  else none

/-- The gate is there. -/
def Gate.present (g : Gate) : Bool := g.attr &&& 0x80 ≠ 0

/-- The lowest privilege that may call the gate with `int`. -/
def Gate.dpl (g : Gate) : Nat := g.attr.toNat / 32 % 4

/-- A 32-bit interrupt gate: the processor clears IF. -/
def Gate.isInterrupt (g : Gate) : Bool := g.attr &&& 0x1f = 0x0e

/-- The handler of a vector. -/
def handlerOf (vector : Nat) : Handler :=
  if vector = 0x20 then .sr20 else if vector = 0x21 then .sr21 else if vector = 0x00 then .sr0
  else .isrX

variable {idtTable : Nat} {mem : ByteMem}

/-- The gate of an entry. -/
def entryGate (mem : ByteMem) (entry : Nat) : Gate :=
  ⟨mem.word16 entry + 65536 * mem.word16 (entry + 6), mem.word16 (entry + 2), mem (entry + 5)⟩

/-- An entry is what its eight bytes are. -/
theorem entry_gate_congr {mem mem' : ByteMem} {entry : Nat}
    (h : ∀ x, entry ≤ x → x < entry + 8 → mem' x = mem x) :
    entryGate mem' entry = entryGate mem entry := by
  have hword : ∀ a, entry ≤ a → a + 2 ≤ entry + 8 → mem'.word16 a = mem.word16 a :=
    fun a hlo hhi => ByteMem.word16_congr (h a hlo (by omega)) (h (a + 1) (by omega) (by omega))
  rw [entryGate, entryGate, hword entry (by omega) (by omega),
    hword (entry + 6) (by omega) (by omega), hword (entry + 2) (by omega) (by omega),
    h (entry + 5) (by omega) (by omega)]

/-- A store leaves all other bytes alone. -/
theorem setup_idt_outside {interruptNo address x : Nat}
    (hx : x < idtTable + 8 * interruptNo ∨ idtTable + 8 * interruptNo + 8 ≤ x) :
    setupIdt32IKC31 idtTable interruptNo address mem x = mem x := by
  simp only [setupIdt32IKC31, Function.update_apply]
  rw [if_neg (by omega), if_neg (by omega), ByteMem.setWord16_outside (by omega),
    ByteMem.setWord16_outside (by omega), ByteMem.setWord16_outside (by omega)]

/-- A byte store elsewhere leaves a word alone. -/
theorem word16_update_other {a b : Nat} (v : UInt8) (h : b < a ∨ a + 2 ≤ b) :
    ByteMem.word16 (Function.update mem b v) a = mem.word16 a :=
  ByteMem.word16_congr (Function.update_of_ne (by omega) ..) (Function.update_of_ne (by omega) ..)

/-- A store makes the gate of its address. -/
theorem setup_idt_gate {interruptNo address : Nat} (haddress : address < 4294967296) :
    entryGate (setupIdt32IKC31 idtTable interruptNo address mem) (idtTable + 8 * interruptNo) =
      ⟨address, kernelCodeSelector, interruptKC31⟩ := by
  rw [entryGate, setupIdt32IKC31]
  generalize idtTable + 8 * interruptNo = entry
  have hlow : address &&& 0x0000ffff = address % 65536 := by
    rw [show (0x0000ffff : Nat) = 2 ^ 16 - 1 by decide, Nat.and_two_pow_sub_one_eq_mod]
  have hattr : Function.update (Function.update (ByteMem.setWord16 (ByteMem.setWord16
      (ByteMem.setWord16 mem entry (address &&& 0x0000ffff)) (entry + 6) (address >>> 16))
      (entry + 2) kernelCodeSelector) (entry + 5) interruptKC31) (entry + 4) 0x00 (entry + 5) =
      interruptKC31 := by
    rw [Function.update_of_ne (by omega), Function.update_self]
  rw [hattr, word16_update_other _ (by omega), word16_update_other _ (by omega),
    word16_update_other _ (by omega), word16_update_other _ (by omega),
    word16_update_other _ (by omega), word16_update_other _ (by omega),
    ByteMem.word16_setWord16_other (by omega), ByteMem.word16_setWord16_other (by omega),
    ByteMem.word16_setWord16_same, ByteMem.word16_setWord16_other (by omega),
    ByteMem.word16_setWord16_same, ByteMem.word16_setWord16_same, hlow, Nat.mod_mod,
    Nat.shiftRight_eq_div_pow, Nat.mod_eq_of_lt (show address / 2 ^ 16 < 65536 by omega),
    show address % 65536 + 65536 * (address / 2 ^ 16) = address by omega]
  rfl

/-- The loop makes the gates of the entries that are left, and nothing else. -/
theorem setup_loop_gates (idtTable : Nat) {address : Nat} (haddress : address < 4294967296) :
    ∀ (r i : Nat) (mem : ByteMem),
    (∀ j, i ≤ j → j < i + r → entryGate (setupIdtLoop idtTable address r i mem) (idtTable + 8 * j) =
      ⟨address, kernelCodeSelector, interruptKC31⟩) ∧
    ∀ x, x < idtTable + 8 * i ∨ idtTable + 8 * (i + r) ≤ x →
      setupIdtLoop idtTable address r i mem x = mem x := by
  intro r
  induction r with
  | zero => exact fun i mem => ⟨fun j hlo hhi => by omega, fun _ _ => rfl⟩
  | succ r ih =>
      intro i mem
      obtain ⟨hgates, houtside⟩ := ih (i + 1) (setupIdt32IKC31 idtTable i address mem)
      refine ⟨fun j hlo hhi => ?_, fun x hx => ?_⟩
      · rcases Nat.eq_or_lt_of_le hlo with rfl | hlt
        · -- the later rounds leave the entry of this one alone
          rw [setupIdtLoop, entry_gate_congr fun x _ hx => houtside x (by omega)]
          exact setup_idt_gate haddress
        · exact hgates j hlt (by omega)
      · rw [setupIdtLoop, houtside x (by omega), setup_idt_outside (by omega)]

/-- One more gate on a table. -/
theorem setup_idt_gates {interruptNo address : Nat} (haddress : address < 4294967296) (v : Nat) :
    entryGate (setupIdt32IKC31 idtTable interruptNo address mem) (idtTable + 8 * v) =
      if v = interruptNo then ⟨address, kernelCodeSelector, interruptKC31⟩
      else entryGate mem (idtTable + 8 * v) := by
  split_ifs with hv
  · rw [hv]
    exact setup_idt_gate haddress
  · exact entry_gate_congr fun x hlo hhi => setup_idt_outside (by omega)

/-- The attribute byte is that of a present interrupt gate that every privilege may call. -/
theorem interrupt_attr (g : Gate) (h : g.attr = interruptKC31) :
    g.present = true ∧ g.isInterrupt = true ∧ g.dpl = 3 := by
  rw [Gate.present, Gate.isInterrupt, Gate.dpl, h]
  decide

/-- The entries that `idt_init` makes after the table is cleared leave everything else alone. -/
theorem setup_gates_outside {address : Handler → Nat} (haddress : ∀ h, address h < 4294967296)
    (mem : ByteMem) {x : Nat} (hx : x < idtTable ∨ idtTable + 8 * totalInterrupts ≤ x) :
    setupIdt32IKC31 idtTable 0x20 (address .sr20) (setupIdt32IKC31 idtTable 0x21 (address .sr21)
      (setupIdt32IKC31 idtTable 0x00 (address .sr0)
        (setupIdtLoop idtTable (address .isrX) totalInterrupts 0 mem))) x = mem x := by
  obtain ⟨_, houtside⟩ := setup_loop_gates idtTable (haddress .isrX) totalInterrupts 0 mem
  have hentries : ∀ n < totalInterrupts,
      x < idtTable + 8 * n ∨ idtTable + 8 * n + 8 ≤ x := fun n hn => by omega
  rw [setup_idt_outside (hentries _ (by decide)), setup_idt_outside (hentries _ (by decide)),
    setup_idt_outside (hentries _ (by decide)), houtside x (by omega)]

section

variable {idtrDescriptor : Nat} {address : Handler → Nat} {c : Console}

/-- The gate of a vector in the memory after `idt_init`. -/
theorem idt_entry_of_init (idtTable idtrDescriptor : Nat) (haddress : ∀ h, address h < 4294967296)
    (c : Console) (mem : ByteMem) {v : Nat} (hv : v < totalInterrupts) :
    entryGate (idtInit idtTable idtrDescriptor address c mem).mem (idtTable + 8 * v) =
      ⟨address (handlerOf v), kernelCodeSelector, interruptKC31⟩ := by
  obtain ⟨hloop, _⟩ := setup_loop_gates idtTable (haddress .isrX) totalInterrupts 0
    (((mem.fill idtTable (8 * totalInterrupts) 0x00).setWord16 idtrDescriptor
      (8 * totalInterrupts - 1)).setWord32 (idtrDescriptor + 2) idtTable)
  rw [idtInit]
  refine Eq.trans (setup_idt_gates (haddress .sr20) v) ?_
  rw [setup_idt_gates (haddress .sr21), setup_idt_gates (haddress .sr0),
    hloop v (Nat.zero_le v) (by omega), handlerOf]
  split_ifs <;> rfl

/-- `idt_init` loads the table, if its descriptor is no part of it. -/
theorem idtr_of_init (haddress : ∀ h, address h < 4294967296)
    (hlt : idtTable + 8 * totalInterrupts ≤ 4294967296)
    (hapart : idtrDescriptor + 6 ≤ idtTable ∨ idtTable + 8 * totalInterrupts ≤ idtrDescriptor)
    (c : Console) (mem : ByteMem) :
    (idtInit idtTable idtrDescriptor address c mem).idtr =
      ⟨8 * totalInterrupts - 1, idtTable⟩ := by
  have htotal : totalInterrupts = 512 := rfl
  rw [idtInit, loadIdtr]
  generalize hstored : ((mem.fill idtTable (8 * totalInterrupts) 0x00).setWord16 idtrDescriptor
    (8 * totalInterrupts - 1)).setWord32 (idtrDescriptor + 2) idtTable = stored
  -- the entries leave the descriptor alone
  have hbyte : ∀ x, idtrDescriptor ≤ x → x < idtrDescriptor + 6 → _ = stored x := fun x hlo hhi =>
    setup_gates_outside haddress stored (show x < idtTable ∨ _ by omega)
  rw [ByteMem.word16_congr (hbyte idtrDescriptor (by omega) (by omega))
      (hbyte (idtrDescriptor + 1) (by omega) (by omega)),
    ByteMem.word32_congr fun x hlo hhi => hbyte x (by omega) (by omega), ← hstored,
    ByteMem.word32_setWord32_same, Nat.mod_eq_of_lt (by omega),
    ByteMem.word16_congr (ByteMem.setWord32_outside (by omega))
      (ByteMem.setWord32_outside (by omega)), ByteMem.word16_setWord16_same]
  rfl

/-- `idt_init` stores in its table and in its descriptor only. -/
theorem idt_init_outside (haddress : ∀ h, address h < 4294967296) (c : Console) (mem : ByteMem)
    {x : Nat} (hx : x < idtTable ∨ idtTable + 8 * totalInterrupts ≤ x)
    (hdescriptor : x < idtrDescriptor ∨ idtrDescriptor + 6 ≤ x) :
    (idtInit idtTable idtrDescriptor address c mem).mem x = mem x := by
  rw [idtInit]
  refine (setup_gates_outside haddress _ hx).trans ?_
  rw [ByteMem.setWord32_outside (by omega), ByteMem.setWord16_outside (by omega),
    ByteMem.fill_outside (by omega)]

/-- The gate of a vector after `idt_init`. -/
theorem idt_gate_of_init (haddress : ∀ h, address h < 4294967296)
    (hlt : idtTable + 8 * totalInterrupts ≤ 4294967296)
    (hapart : idtrDescriptor + 6 ≤ idtTable ∨ idtTable + 8 * totalInterrupts ≤ idtrDescriptor)
    (c : Console) (mem : ByteMem) (v : Nat) :
    (idtInit idtTable idtrDescriptor address c mem).idtr.gate
        (idtInit idtTable idtrDescriptor address c mem).mem v =
      if v < totalInterrupts then
        some ⟨address (handlerOf v), kernelCodeSelector, interruptKC31⟩ else none := by
  have hinside : 8 * v + 7 ≤ 8 * totalInterrupts - 1 ↔ v < totalInterrupts := by omega
  rw [idtr_of_init haddress hlt hapart, Idtr.gate]
  simp only [hinside]
  split_ifs with hv
  · exact congrArg some (idt_entry_of_init idtTable idtrDescriptor haddress c mem hv)
  · rfl

/-- The two lines that `idt_init` prints have no tab. -/
theorem idt_init_in_bounds (idtTable idtrDescriptor : Nat) (address : Handler → Nat)
    (mem : ByteMem) (h : c.InBounds) :
    (idtInit idtTable idtrDescriptor address c mem).console.InBounds := by
  have hstarting : ∀ ch ∈ chars "starting idt load....\n", ch ≠ 9 := by simp [chars]
  have hloaded : ∀ ch ∈ chars "idt loading successfull\n", ch ≠ 9 := by simp [chars]
  have hfirst := Console.print_in_bounds_of_no_tab hstarting c h
  simp only [idtInit]
  exact Console.print_in_bounds_of_no_tab hloaded _ hfirst

end

/-- After `idt_init` every entry of the table that it has loaded is a present interrupt gate into
the kernel code segment, to the handler of its vector, and there are no other gates. No byte outside
the table and its descriptor has changed, and a cursor on the screen is still there, with no store
of the two prints outside the video memory. -/
theorem idt_init_gates {idtTable idtrDescriptor : Nat} {address : Handler → Nat}
    (haddress : ∀ h, address h < 4294967296)
    (hlt : idtTable + 8 * totalInterrupts ≤ 4294967296)
    (hapart : idtrDescriptor + 6 ≤ idtTable ∨ idtTable + 8 * totalInterrupts ≤ idtrDescriptor)
    (c : Console) (mem : ByteMem) :
    let after := idtInit idtTable idtrDescriptor address c mem
    (∀ v, after.idtr.gate after.mem v = if v < totalInterrupts then
      some ⟨address (handlerOf v), kernelCodeSelector, interruptKC31⟩ else none) ∧
    (∀ v g, after.idtr.gate after.mem v = some g →
      g.present = true ∧ g.isInterrupt = true ∧ g.dpl = 3) ∧
    (∀ x, (x < idtTable ∨ idtTable + 8 * totalInterrupts ≤ x) →
      (x < idtrDescriptor ∨ idtrDescriptor + 6 ≤ x) → after.mem x = mem x) ∧
    (c.InBounds → after.console.InBounds) := by
  intro after
  refine ⟨idt_gate_of_init haddress hlt hapart c mem, fun v g hg => ?_,
    fun x hx hdescriptor => idt_init_outside haddress c mem hx hdescriptor,
    idt_init_in_bounds idtTable idtrDescriptor address mem⟩
  rw [show after = idtInit idtTable idtrDescriptor address c mem from rfl,
    idt_gate_of_init haddress hlt hapart c mem v] at hg
  split_ifs at hg
  exact interrupt_attr g (Option.some.inj hg ▸ rfl)

/-- The table at 0x2000 with the descriptor behind it, the handlers at 0x100, 0x200, 0x300 and
0x400, and the cursor at the end of the screen. -/
theorem idt_init_gates_at :
    let address : Handler → Nat := fun h =>
      match h with | .sr0 => 0x100 | .sr20 => 0x200 | .sr21 => 0x300 | .isrX => 0x400
    let after := idtInit 0x2000 0x3000 address ⟨fun _ => 0x0020, 79, 24, []⟩ fun _ => 0xff
    (∀ v, after.idtr.gate after.mem v = if v < totalInterrupts then
      some ⟨address (handlerOf v), kernelCodeSelector, interruptKC31⟩ else none) ∧
    (∀ v g, after.idtr.gate after.mem v = some g →
      g.present = true ∧ g.isInterrupt = true ∧ g.dpl = 3) ∧
    (∀ x, x < 0x2000 ∨ 0x3006 ≤ x → after.mem x = 0xff) ∧ after.console.InBounds := by
  intro address after
  have haddress : ∀ h, address h < 4294967296 := fun h => by cases h <;> decide
  obtain ⟨hgates, hattr, houtside, hscreen⟩ := idt_init_gates haddress
    (show 0x2000 + 8 * totalInterrupts ≤ 4294967296 by decide)
    (show 0x3000 + 6 ≤ 0x2000 ∨ 0x2000 + 8 * totalInterrupts ≤ 0x3000 by decide)
    ⟨fun _ => 0x0020, 79, 24, []⟩ fun _ => 0xff
  have htotal : totalInterrupts = 512 := rfl
  exact ⟨hgates, hattr, fun x hx => houtside x (by omega) (by omega),
    hscreen ⟨by decide, by decide, by simp⟩⟩

end Genesis32
