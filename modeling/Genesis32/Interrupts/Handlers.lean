import Genesis32.Interrupts.Idt
import Genesis32.Library.Word

/-!
# The interrupt handlers

What the entry points of `isr.asm` do to the registers and the stack: `pushad`, a call of a C
function, an EOI, `popad` and `iretd`. The processor has pushed EFLAGS, CS and EIP before, and for
some exceptions an error code on top of them. No handler takes an error code off the stack again. So
an interrupt without one is invisible to the interrupted code, and one with an error code returns to
the error code.
-/

namespace Genesis32

open Word

namespace Irq

/-! ## The processor -/

/-- The registers that a handler sees, and the memory. -/
structure Cpu where
  eax : Nat
  ecx : Nat
  edx : Nat
  ebx : Nat
  esp : Nat
  ebp : Nat
  esi : Nat
  edi : Nat
  eip : Nat
  cs : Nat
  eflags : Nat
  mem : ByteMem

namespace Cpu

/-- `push`. -/
def push (c : Cpu) (v : Nat) : Cpu :=
  { c with esp := sub32 c.esp 4, mem := c.mem.setWord32 (sub32 c.esp 4) v }

/-- Pushes of a list of words. -/
def pushAll (c : Cpu) (vs : List Nat) : Cpu := vs.foldl push c

/-- `pushad`. -/
def pushad (c : Cpu) : Cpu :=
  c.pushAll [c.eax, c.ecx, c.edx, c.ebx, c.esp, c.ebp, c.esi, c.edi]

/-- `popad`. It skips the word of ESP. -/
def popad (c : Cpu) : Cpu :=
  { c with
    edi := c.mem.word32 c.esp
    esi := c.mem.word32 (add32 c.esp 4)
    ebp := c.mem.word32 (add32 c.esp 8)
    ebx := c.mem.word32 (add32 c.esp 16)
    edx := c.mem.word32 (add32 c.esp 20)
    ecx := c.mem.word32 (add32 c.esp 24)
    eax := c.mem.word32 (add32 c.esp 28)
    esp := add32 c.esp 32 }

/-- `iretd` without a change of privilege. -/
def iretd (c : Cpu) : Cpu :=
  { c with
    eip := c.mem.word32 c.esp
    cs := c.mem.word32 (add32 c.esp 4) % 65536
    eflags := c.mem.word32 (add32 c.esp 8)
    esp := add32 c.esp 12 }

/-- The processor enters a gate: EFLAGS, CS, EIP and the error code, if there is one, are pushed,
and IF and TF are cleared. -/
def interrupt (c : Cpu) (g : Gate) (error : Option Nat) : Cpu :=
  { c.pushAll ([c.eflags, c.cs, c.eip] ++ error.toList) with
    eip := g.offset
    cs := g.selector
    eflags := c.eflags &&& 0xfffffcff }

/-- An entry point of `isr.asm`, with the C function that it calls. All but `sr0` end the interrupt
through `al`. -/
def serve (h : Handler) (function : Cpu → Cpu) (c : Cpu) : Cpu :=
  let c := function c.pushad
  let c := if h = .sr0 then c else { c with eax := c.eax / 256 * 256 + 0x20 }
  c.popad.iretd

/-- The calling convention, as far as a handler relies on it: the stack pointer comes back, and the
words that are on the stack stay. -/
structure Cdecl (function : Cpu → Cpu) : Prop where
  esp : ∀ c, (function c).esp = c.esp
  frame : ∀ c x, c.esp ≤ x → x < c.esp + 44 → (function c).mem x = c.mem x

/-- The registers are 32 bits wide, CS is 16 bits wide, and the stack has room. -/
structure Fits (c : Cpu) : Prop where
  eax : c.eax < 4294967296
  ecx : c.ecx < 4294967296
  edx : c.edx < 4294967296
  ebx : c.ebx < 4294967296
  ebp : c.ebp < 4294967296
  esi : c.esi < 4294967296
  edi : c.edi < 4294967296
  eip : c.eip < 4294967296
  eflags : c.eflags < 4294967296
  cs : c.cs < 65536
  room : 48 ≤ c.esp
  esp : c.esp < 4294967296

/-! ## The stack -/

/-- Pushes change ESP and the words below it, and the words are on the stack in order. -/
theorem push_all_spec (vs : List Nat) : ∀ c : Cpu, 4 * vs.length ≤ c.esp → c.esp < 4294967296 →
    c.pushAll vs = { c with esp := c.esp - 4 * vs.length, mem := (c.pushAll vs).mem } ∧
    (∀ x, x < c.esp - 4 * vs.length ∨ c.esp ≤ x → (c.pushAll vs).mem x = c.mem x) ∧
    ∀ k v, vs[k]? = some v →
      (c.pushAll vs).mem.word32 (c.esp - 4 * (k + 1)) = v % 4294967296 := by
  induction vs with
  | nil => exact fun c _ _ => ⟨rfl, fun _ _ => rfl, fun k v h => by simp at h⟩
  | cons v vs ih =>
      intro c hroom hesp
      rw [List.length_cons] at hroom
      have hsub : sub32 c.esp 4 = c.esp - 4 := sub32_of_le (by omega) hesp
      have hpush : c.pushAll (v :: vs) =
          pushAll { c with esp := c.esp - 4, mem := c.mem.setWord32 (c.esp - 4) v } vs := by
        rw [pushAll, List.foldl_cons, push, hsub]
        rfl
      obtain ⟨hregs, houtside, hwords⟩ :=
        ih { c with esp := c.esp - 4, mem := c.mem.setWord32 (c.esp - 4) v }
          (show 4 * vs.length ≤ c.esp - 4 by omega) (show c.esp - 4 < 4294967296 by omega)
      simp only at hregs houtside hwords
      rw [hpush, List.length_cons]
      refine ⟨?_, fun x hx => ?_, fun k w hk => ?_⟩
      · rw [hregs, show c.esp - 4 * (vs.length + 1) = c.esp - 4 - 4 * vs.length by omega]
      · rw [houtside x (by omega), ByteMem.setWord32_outside (by omega)]
      · cases k with
        | zero =>
            obtain rfl := Option.some.inj hk
            rw [ByteMem.word32_congr (m := c.mem.setWord32 (c.esp - 4) v) fun x hlo hhi =>
              houtside x (by omega), ByteMem.word32_setWord32_same]
        | succ k =>
            rw [show c.esp - 4 * (k + 1 + 1) = c.esp - 4 - 4 * (k + 1) by omega]
            exact hwords k w hk

variable {c : Cpu} {function : Cpu → Cpu}

/-- A handler gives the registers back and returns to the three words on top of the stack. -/
theorem serve_returns (hfunction : Cdecl function) (hroom : 32 ≤ c.esp)
    (hesp : c.esp + 12 < 4294967296) (h : Handler) :
    serve h function c =
      { c with
        eax := c.eax % 4294967296
        ecx := c.ecx % 4294967296
        edx := c.edx % 4294967296
        ebx := c.ebx % 4294967296
        ebp := c.ebp % 4294967296
        esi := c.esi % 4294967296
        edi := c.edi % 4294967296
        eip := c.mem.word32 c.esp
        cs := c.mem.word32 (c.esp + 4) % 65536
        eflags := c.mem.word32 (c.esp + 8)
        esp := c.esp + 12
        mem := (serve h function c).mem } := by
  obtain ⟨hpushad, habove, hwords⟩ := push_all_spec
    [c.eax, c.ecx, c.edx, c.ebx, c.esp, c.ebp, c.esi, c.edi] c (by simpa using hroom) (by omega)
  rw [← pushad] at hpushad habove hwords
  simp only [List.length_cons, List.length_nil] at hpushad habove
  have hesp' : (function c.pushad).esp = c.esp - 32 := by
    rw [hfunction.esp, hpushad]
  have hframe : ∀ x, c.esp - 32 ≤ x → x < c.esp + 12 →
      (function c.pushad).mem x = c.pushad.mem x := fun x hlo hhi => by
    refine hfunction.frame _ x ?_ ?_ <;> rw [hpushad] <;> simp only <;> omega
  -- the words that `popad` reads
  have hsaved : ∀ k v, [c.eax, c.ecx, c.edx, c.ebx, c.esp, c.ebp, c.esi, c.edi][k]? = some v →
      k < 8 → (function c.pushad).mem.word32 (add32 (c.esp - 32) (28 - 4 * k)) =
        v % 4294967296 := by
    intro k v hk hlt
    rw [add32_of_lt (by omega), ← hwords k v hk,
      show c.esp - 32 + (28 - 4 * k) = c.esp - 4 * (k + 1) by omega]
    exact ByteMem.word32_congr fun x hlo hhi => hframe x (by omega) (by omega)
  -- and those that `iretd` reads
  have hreturn : ∀ a, c.esp ≤ a → a + 4 ≤ c.esp + 12 →
      (function c.pushad).mem.word32 a = c.mem.word32 a := fun a hlo hhi =>
    ByteMem.word32_congr fun x hxlo hxhi => by
      rw [hframe x (by omega) (by omega), habove x (by omega)]
  have hback : add32 (c.esp - 32) 32 = c.esp := by
    rw [add32_of_lt (by omega)]
    omega
  have hregs : serve h function c = (popad { function c.pushad with eax := 0 }).iretd := by
    rw [serve]
    split_ifs
    · rfl
    · rfl
  have hedi := hsaved 7 c.edi rfl (by decide)
  rw [show 28 - 4 * 7 = 0 from rfl, add32_of_lt (by omega), Nat.add_zero] at hedi
  rw [hregs]
  simp only [popad, iretd, hesp', hback, hedi, hsaved 0 c.eax rfl (by decide),
    hsaved 1 c.ecx rfl (by decide), hsaved 2 c.edx rfl (by decide),
    hsaved 3 c.ebx rfl (by decide), hsaved 5 c.ebp rfl (by decide),
    hsaved 6 c.esi rfl (by decide)]
  rw [add32_of_lt (by omega), add32_of_lt (by omega), add32_of_lt (by omega),
    hreturn c.esp (by omega) (by omega), hreturn (c.esp + 4) (by omega) (by omega),
    hreturn (c.esp + 8) (by omega) (by omega)]

/-- An interrupt without an error code leaves every register of the interrupted code as it was,
whatever the C function does. One with an error code returns to the address that the error code is,
with the old EIP as CS and with a word too many on the stack. -/
theorem interrupt_served (hfits : Fits c) (hfunction : Cdecl function) (g : Gate) (h : Handler) :
    let after := fun error => serve h function (c.interrupt g error)
    after none = { c with mem := (after none).mem } ∧
    ∀ error < 4294967296, after (some error) = { c with
      eip := error
      cs := c.eip % 65536
      eflags := c.cs
      esp := c.esp - 4
      mem := (after (some error)).mem } := by
  have hroom := hfits.room
  have hesp := hfits.esp
  have hcs := hfits.cs
  intro after
  -- what is on the stack when the handler starts
  have hentry : ∀ error : Option Nat, ∃ mem,
      c.interrupt g error = { c with
        esp := c.esp - 4 * ([c.eflags, c.cs, c.eip] ++ error.toList).length
        eip := g.offset
        cs := g.selector
        eflags := c.eflags &&& 0xfffffcff
        mem := mem } ∧
      ∀ k v, ([c.eflags, c.cs, c.eip] ++ error.toList)[k]? = some v →
        mem.word32 (c.esp - 4 * (k + 1)) = v % 4294967296 := by
    intro error
    have hlength : ([c.eflags, c.cs, c.eip] ++ error.toList).length ≤ 4 := by
      cases error <;> simp
    obtain ⟨hpush, _, hwords⟩ :=
      push_all_spec ([c.eflags, c.cs, c.eip] ++ error.toList) c (by omega) hesp
    refine ⟨_, ?_, hwords⟩
    rw [interrupt, hpush]
  have hmod : ∀ {v : Nat}, v < 4294967296 → v % 4294967296 = v := Nat.mod_eq_of_lt
  constructor
  · obtain ⟨mem, hregs, hwords⟩ := hentry none
    have heip : mem.word32 (c.esp - 12) = c.eip := (hwords 2 c.eip rfl).trans (hmod hfits.eip)
    have hcs' : mem.word32 (c.esp - 12 + 4) = c.cs := by
      rw [show c.esp - 12 + 4 = c.esp - 4 * (1 + 1) by omega, hwords 1 c.cs rfl, hmod (by omega)]
    have hflags : mem.word32 (c.esp - 12 + 8) = c.eflags := by
      rw [show c.esp - 12 + 8 = c.esp - 4 * (0 + 1) by omega, hwords 0 c.eflags rfl,
        hmod hfits.eflags]
    have hreturn := serve_returns (c := c.interrupt g none) hfunction
      (by rw [hregs]; simp; omega) (by rw [hregs]; simp; omega) h
    simp only [after]
    generalize serve h function (c.interrupt g none) = a at hreturn ⊢
    rw [hreturn, hregs]
    simp only [List.length_append, List.length_cons, List.length_nil, Option.toList_none]
    rw [show c.esp - 4 * (0 + 1 + 1 + 1 + 0) = c.esp - 12 by omega, heip, hcs', hflags,
      Nat.mod_eq_of_lt hcs, Nat.sub_add_cancel (show 12 ≤ c.esp by omega), hmod hfits.eax,
      hmod hfits.ecx, hmod hfits.edx, hmod hfits.ebx, hmod hfits.ebp, hmod hfits.esi,
      hmod hfits.edi]
  · intro error herror
    obtain ⟨mem, hregs, hwords⟩ := hentry (some error)
    have htop : mem.word32 (c.esp - 16) = error := (hwords 3 error rfl).trans (hmod herror)
    have heip : mem.word32 (c.esp - 16 + 4) = c.eip := by
      rw [show c.esp - 16 + 4 = c.esp - 4 * (2 + 1) by omega, hwords 2 c.eip rfl, hmod hfits.eip]
    have hcs' : mem.word32 (c.esp - 16 + 8) = c.cs := by
      rw [show c.esp - 16 + 8 = c.esp - 4 * (1 + 1) by omega, hwords 1 c.cs rfl, hmod (by omega)]
    have hreturn := serve_returns (c := c.interrupt g (some error)) hfunction
      (by rw [hregs]; simp; omega) (by rw [hregs]; simp; omega) h
    simp only [after]
    generalize serve h function (c.interrupt g (some error)) = a at hreturn ⊢
    rw [hreturn, hregs]
    simp only [List.length_append, List.length_cons, List.length_nil, Option.toList_some]
    rw [show c.esp - 4 * (0 + 1 + 1 + 1 + (0 + 1)) = c.esp - 16 by omega, htop, heip, hcs',
      show c.esp - 16 + 12 = c.esp - 4 by omega, hmod hfits.eax, hmod hfits.ecx, hmod hfits.edx,
      hmod hfits.ebx, hmod hfits.ebp, hmod hfits.esi, hmod hfits.edi]

/-- An interrupt of code at 0x100000, with an error code of 0 and without one. -/
theorem interrupt_served_at :
    let c : Cpu := ⟨1, 2, 3, 4, 0x200000, 5, 6, 7, 0x100000, 0x08, 0x202, fun _ => 0x00⟩
    let after := fun error => serve .isrX id (c.interrupt ⟨0x300, 0x08, 0xee⟩ error)
    after none = { c with mem := (after none).mem } ∧
    ∀ error < 4294967296, after (some error) = { c with
      eip := error
      cs := c.eip % 65536
      eflags := c.cs
      esp := c.esp - 4
      mem := (after (some error)).mem } := by
  intro c
  exact interrupt_served ⟨by decide, by decide, by decide, by decide, by decide, by decide,
    by decide, by decide, by decide, by decide, by decide, by decide⟩
    ⟨fun _ => rfl, fun _ _ _ _ => rfl⟩ _ _

end Cpu

end Irq

end Genesis32
