import Genesis32.Interrupts.Idt
import Genesis32.Interrupts.Pic
import Genesis32.Library.Transition

/-!
# Runs of interrupts

The processor takes interrupts from the controllers and runs the handler of `isr.asm` that the
vector has, while any lines rise in any order. Every handler but `sr0` ends with an EOI to the
master, and none with one to the slave. So the master is free again after every interrupt, and the
only rises of its lines that come to nothing are those of a line that requests already; but a line
of the slave stays in service for ever once it was taken, and blocks itself and all lines behind it.
-/

namespace Genesis32

open PortProgram

namespace Irq

/-! ## The machine -/

/-- The controllers, IF, the tick counter of `isr.c` and what the handlers have printed. -/
structure IrqState where
  board : Board
  enabled : Bool
  tick : Nat
  printed : List String

/-- What a handler of `isr.asm` writes to ports. -/
def handlerProgram : Handler → DriverProgram Unit
  | .sr0 => .ret ()
  | .sr20 | .sr21 | .isrX => .output (outb 0x20 0x20) (.ret ())

/-- The function of `isr.c` that a handler calls. -/
def handlerCall (s : IrqState) : Handler → IrqState
  | .sr0 => { s with printed := s.printed ++ ["divide by zero error"] }
  | .sr20 => { s with tick := (s.tick + 1) % 18446744073709551616 }
  | .sr21 => { s with printed := s.printed ++ ["test int 0x21"] }
  | .isrX => s

/-- A whole handler, with interrupts off until its `iretd`. -/
def handle (s : IrqState) (h : Handler) : IrqState :=
  { handlerCall s h with board := (run Board.device (handlerProgram h) s.board).2 }

/-- A rising edge on one of the sixteen lines, or an interrupt that the processor takes. -/
inductive IrqEvent where
  | raise (line : Nat)
  | take (vector : Nat)
  deriving DecidableEq

/-- A step of the machine. -/
inductive IrqStep (s : IrqState) : IrqEvent → IrqState → Prop where
  | raise {line : Nat} (h : line < 16) :
      IrqStep s (.raise line) { s with board := s.board.raise line }
  | take {vector : Nat} {board : Board} (hif : s.enabled = true)
      (h : s.board.interrupt = some (vector, board)) :
      IrqStep s (.take vector) (handle { s with board := board } (handlerOf vector))

/-! ## Controllers -/

/-- When a controller passes on a line. -/
theorem Pic.candidate_eq_some {p : Pic} {request : Nat → Bool} {line : Nat} :
    p.candidate request = some line ↔
      line < 8 ∧ request line = true ∧ p.imr.testBit line = false ∧
      (∀ before < line, request before = true → p.imr.testBit before = true) ∧
      ∀ before ≤ line, p.isr before = false := by
  rw [candidate, Option.filter_eq_some_iff, List.find?_range_eq_some]
  simp only [Bool.and_eq_true, Bool.not_eq_true', Bool.and_eq_false_iff, List.mem_range,
    List.all_eq_true, Nat.lt_succ_iff, Bool.not_eq_false']
  constructor
  · rintro ⟨⟨⟨hrequest, hmask⟩, hline, hfirst⟩, hserved⟩
    exact ⟨hline, hrequest, hmask,
      fun before hb hr => (hfirst before hb).resolve_left (by simp [hr]), hserved⟩
  · rintro ⟨hline, hrequest, hmask, hfirst, hserved⟩
    refine ⟨⟨⟨hrequest, hmask⟩, hline, fun before hb => ?_⟩, hserved⟩
    cases hr : request before with
    | false => exact Or.inl rfl
    | true => exact Or.inr (hfirst before hb hr)

/-- An EOI behind an acknowledgement leaves the controller as it was, but for the request. -/
theorem Pic.eoi_ack {p : Pic} (hserved : ∀ line, p.isr line = false) (hauto : p.autoEoi = false)
    {line : Nat} (hline : line < 8) :
    (p.ack line).eoi = { p with irr := Function.update p.irr line false } := by
  have hisr : (p.ack line).isr = Function.update p.isr line true := by
    rw [ack, hauto, if_neg Bool.false_ne_true]
  have hfind : (List.range 8).find? (p.ack line).isr = some line := by
    rw [List.find?_range_eq_some, hisr, Function.update_self, List.mem_range]
    refine ⟨rfl, hline, fun before hb => ?_⟩
    rw [Function.update_of_ne (by omega), hserved before]
    rfl
  have hback : Function.update (p.ack line).isr line false = p.isr := by
    rw [hisr, Function.update_idem, ← hserved line, Function.update_eq_self]
  rw [eoi, hfind]
  simp only [hback]
  rfl

/-- Behind an interrupt of a controller comes an EOI to the master, unless the vector is 0. -/
theorem handle_board (s : IrqState) {vector : Nat} (h : vector ≠ 0x00) :
    (handle s (handlerOf vector)).board = { s.board with master := s.board.master.eoi } := by
  have heoi : ∀ p : Pic, p.command (0x20 % 256) = p.eoi := fun p => by
    rw [Pic.command, if_neg (by decide), if_neg (by decide), if_pos (by decide)]
  have hrun : ∀ handler, handler ≠ .sr0 → (run Board.device (handlerProgram handler) s.board).2 =
      { s.board with master := s.board.master.eoi } := by
    intro handler hne
    cases handler with
    | sr0 => exact absurd rfl hne
    | _ => rw [handlerProgram, run_output, run_ret, take_master_command, heoi]
  refine hrun _ ?_
  rw [handlerOf]
  split_ifs <;> decide

/-- What the processor can take from remapped controllers: the first line of the master that
requests, if it is not the one of the slave, or else the first line of the slave that requests, if
no line of the slave up to it is in service. The master is free again after the handler. -/
theorem take_cases {s : IrqState} (h : s.board.Remapped) {vector : Nat} {board : Board}
    (hint : s.board.interrupt = some (vector, board)) :
    (∃ line, line < 8 ∧ line ≠ 2 ∧ vector = 0x20 + line ∧ s.board.master.irr line = true ∧
      (∀ before < line, s.board.request before = false) ∧
      (handle { s with board := board } (handlerOf vector)).board = { s.board with
        master := { s.board.master with
          irr := Function.update s.board.master.irr line false } }) ∨
    ∃ line, line < 8 ∧ vector = 0x28 + line ∧ s.board.slave.irr line = true ∧
      (∀ before < line, s.board.slave.irr before = false) ∧
      (∀ before ≤ line, s.board.slave.isr before = false) ∧
      (∀ before < 2, s.board.request before = false) ∧
      (handle { s with board := board } (handlerOf vector)).board = { s.board with
        master := { s.board.master with irr := Function.update s.board.master.irr 2 false }
        slave := s.board.slave.ack line } := by
  rw [Board.interrupt, Option.map_eq_some_iff] at hint
  obtain ⟨line, hline, hboard⟩ := hint
  obtain ⟨hlt, hrequest, _, hfirst, _⟩ := Pic.candidate_eq_some.mp hline
  have hfirst : ∀ before < line, s.board.request before = false := fun before hb => by
    refine eq_false_of_ne_true fun hr => ?_
    have hmask := hfirst before hb hr
    rw [h.master.imr, Nat.zero_testBit] at hmask
    cases hmask
  have hcascade : ∀ line < 8, (0x04 : Nat).testBit line = decide (line = 2) := by decide
  rw [h.master.cascade, hcascade line hlt] at hboard
  have heoi := Pic.eoi_ack h.served h.master.autoEoi hlt
  by_cases htwo : line = 2
  · subst htwo
    rw [Board.request, if_pos rfl] at hrequest
    obtain ⟨slaveLine, hslave⟩ := Option.isSome_iff_exists.mp hrequest
    obtain ⟨hlt', hrequest', _, hfirst', hserved'⟩ := Pic.candidate_eq_some.mp hslave
    have hfirst' : ∀ before < slaveLine, s.board.slave.irr before = false := fun before hb => by
      refine eq_false_of_ne_true fun hr => ?_
      have hmask := hfirst' before hb hr
      rw [h.slave.imr, Nat.zero_testBit] at hmask
      cases hmask
    simp only [decide_true, if_true, h.slave.cascade, h.slave.base, hslave, Prod.mk.injEq] at hboard
    obtain ⟨rfl, rfl⟩ := hboard
    refine Or.inr ⟨slaveLine, hlt', rfl, hrequest', hfirst', hserved',
      fun before hb => hfirst before hb, ?_⟩
    rw [handle_board _ (by omega)]
    simp only [heoi]
  · simp only [htwo, decide_false, Bool.false_eq_true, if_false, h.master.base,
      Prod.mk.injEq] at hboard
    obtain ⟨rfl, rfl⟩ := hboard
    rw [Board.request, if_neg htwo] at hrequest
    refine Or.inl ⟨line, hlt, htwo, rfl, hrequest, hfirst, ?_⟩
    rw [handle_board _ (by omega)]
    simp only [heoi]

theorem take_not_zero {s : IrqState} (h : s.board.Remapped) {vector : Nat} {board : Board}
    (hint : s.board.interrupt = some (vector, board)) : vector ≠ 0x00 := by
  rcases take_cases h hint with ⟨line, _, _, rfl, _⟩ | ⟨line, _, rfl, _⟩ <;> omega

/-! ## Runs -/

/-- The controllers stay remapped. -/
theorem remapped_step {s s' : IrqState} {e : IrqEvent} (h : s.board.Remapped)
    (hstep : IrqStep s e s') : s'.board.Remapped := by
  cases hstep with
  | raise hline =>
      simp only [Board.raise]
      split_ifs
      · exact h
      · exact ⟨⟨h.master.imr, h.master.base, h.master.cascade, h.master.phase, h.master.autoEoi⟩,
          h.slave, h.served⟩
      · exact ⟨h.master, ⟨h.slave.imr, h.slave.base, h.slave.cascade, h.slave.phase,
          h.slave.autoEoi⟩, h.served⟩
  | take hif hint =>
      have hmaster : ∀ irr, ({ s.board.master with irr := irr } : Pic).Ready 0x20 0x04 := fun irr =>
        ⟨h.master.imr, h.master.base, h.master.cascade, h.master.phase, h.master.autoEoi⟩
      rcases take_cases h hint with ⟨line, _, _, _, _, _, hafter⟩ | ⟨line, _, _, _, _, _, _, hafter⟩
      · rw [hafter]
        exact ⟨hmaster _, h.slave, h.served⟩
      · rw [hafter]
        exact ⟨hmaster _, ⟨h.slave.imr, h.slave.base, h.slave.cascade, h.slave.phase,
          h.slave.autoEoi⟩, h.served⟩

theorem remapped_run {s t : IrqState} {trace : List (Transition IrqState IrqEvent)}
    (hrun : Run IrqStep s trace t) (hs : s.board.Remapped) : t.board.Remapped := by
  let inv : IrqState → Prop := fun s => s.board.Remapped
  have hstep : ∀ s e s', inv s → IrqStep s e s' → inv s' := fun _ _ _ => remapped_step
  have ht : inv t := hrun.invariant hstep hs
  exact ht

/-- The vectors of the slave that a run takes, in order. -/
def slaveVectors (trace : List (Transition IrqState IrqEvent)) : List Nat :=
  trace.filterMap fun x =>
    match x.event with
    | .take vector => if 0x28 ≤ vector then some vector else none
    | .raise _ => none

/-- How often a run takes a vector. -/
def taken (trace : List (Transition IrqState IrqEvent)) (vector : Nat) : Nat :=
  trace.countP fun x => x.event = .take vector

/-- How often a line rises in a run. -/
def raised (trace : List (Transition IrqState IrqEvent)) (line : Nat) : Nat :=
  trace.countP fun x => x.event = .raise line

/-- How often a line of the master rises in a run while it requests already. The controller has one
bit for both rises. -/
def merged (trace : List (Transition IrqState IrqEvent)) (line : Nat) : Nat :=
  trace.countP fun x => x.event = .raise line ∧ x.before.board.master.irr line = true

variable {s t : IrqState} {trace : List (Transition IrqState IrqEvent)}

/-- The slave's interrupts come in falling order, and what it has in service is what it was ever
taken for. -/
theorem slave_lines_fall (hrun : Run IrqStep s trace t) (hs : s.board.Remapped)
    (hslave : ∀ line, s.board.slave.isr line = false) :
    (slaveVectors trace).Pairwise (· > ·) ∧
      (∀ vector ∈ slaveVectors trace, 0x28 ≤ vector ∧ vector < 0x30) ∧
      ∀ line, t.board.slave.isr line = true ↔ 0x28 + line ∈ slaveVectors trace := by
  induction hrun with
  | nil =>
      refine ⟨.nil, fun _ h => absurd h List.not_mem_nil, fun line => ?_⟩
      rw [hslave line]
      exact ⟨(nomatch ·), fun h => absurd h List.not_mem_nil⟩
  | @snoc trace u w e hprefix hlast ih =>
      obtain ⟨hfall, hrange, hisr⟩ := ih
      have hu : u.board.Remapped := remapped_run hprefix hs
      rw [slaveVectors, List.filterMap_append, ← slaveVectors]
      cases hlast with
      | @raise line hline =>
          have hsame : (u.board.raise line).slave.isr = u.board.slave.isr := by
            simp only [Board.raise]
            split_ifs <;> rfl
          simp only [List.filterMap_cons, List.filterMap_nil, List.append_nil, hsame]
          exact ⟨hfall, hrange, hisr⟩
      | @take vector board hif hint =>
          rcases take_cases hu hint with ⟨line, hlt, _, rfl, _, _, hafter⟩ |
            ⟨line, hlt, rfl, _, _, hserved, _, hafter⟩
          · have hnot : ¬ 0x28 ≤ 0x20 + line := by omega
            rw [hafter]
            simp only [List.filterMap_cons, List.filterMap_nil, if_neg hnot, List.append_nil]
            exact ⟨hfall, hrange, hisr⟩
          · have hyes : 0x28 ≤ 0x28 + line := by omega
            have hack : (u.board.slave.ack line).isr =
                Function.update u.board.slave.isr line true := by
              rw [Pic.ack, hu.slave.autoEoi, if_neg Bool.false_ne_true]
            rw [hafter]
            simp only [List.filterMap_cons, List.filterMap_nil, if_pos hyes, hack]
            refine ⟨List.pairwise_append.mpr ⟨hfall, List.pairwise_singleton _ _, ?_⟩, ?_, ?_⟩
            · -- a line that was taken before is in service, so it is behind this one
              intro vector hvector vector' hvector'
              obtain rfl := List.mem_singleton.mp hvector'
              obtain ⟨hlo, _⟩ := hrange vector hvector
              have hin := (hisr (vector - 0x28)).mpr (by
                rwa [show 0x28 + (vector - 0x28) = vector by omega])
              by_contra hle
              rw [hserved (vector - 0x28) (by omega)] at hin
              cases hin
            · intro vector hvector
              rcases List.mem_append.mp hvector with hvector | hvector
              · exact hrange vector hvector
              · obtain rfl := List.mem_singleton.mp hvector
                omega
            · intro line'
              rw [Function.update_apply, List.mem_append, List.mem_singleton]
              by_cases hsame : line' = line
              · rw [if_pos hsame]
                exact ⟨fun _ => Or.inr (by rw [hsame]), fun _ => rfl⟩
              · rw [if_neg hsame, hisr line']
                exact ⟨Or.inl, fun h => h.resolve_right (by omega)⟩

/-- What the handler of an interrupt of the controllers does besides its EOI. -/
theorem handle_counts (s : IrqState) {vector : Nat} (h : vector ≠ 0x00) :
    (handle s (handlerOf vector)).tick =
      (if vector = 0x20 then (s.tick + 1) % 18446744073709551616 else s.tick) ∧
    (handle s (handlerOf vector)).printed =
      s.printed ++ List.replicate (if vector = 0x21 then 1 else 0) "test int 0x21" ∧
    (handle s (handlerOf vector)).enabled = s.enabled := by
  by_cases h20 : vector = 0x20
  · subst h20
    exact ⟨rfl, (List.append_nil _).symm, rfl⟩
  · by_cases h21 : vector = 0x21
    · subst h21
      exact ⟨rfl, rfl, rfl⟩
    · rw [handlerOf, if_neg h20, if_neg h21, if_neg h, if_neg h20, if_neg h21]
      exact ⟨rfl, (List.append_nil _).symm, rfl⟩

/-- The lines of the master after a step. -/
theorem master_irr_step {s s' : IrqState} {e : IrqEvent} (h : s.board.Remapped)
    (hstep : IrqStep s e s') {line : Nat} (hline : line < 8) (hne : line ≠ 2) :
    s'.board.master.irr line = (decide (e = .raise line) || s.board.master.irr line &&
      decide (e ≠ .take (0x20 + line))) ∧
    (e = .take (0x20 + line) → s.board.master.irr line = true) := by
  cases hstep with
  | @raise raised hraised =>
      refine ⟨?_, fun h => nomatch h⟩
      simp only [Board.raise, IrqEvent.raise.injEq, ne_eq, reduceCtorEq, not_false_eq_true,
        decide_true, Bool.and_true]
      by_cases hsame : raised = line
      · subst hsame
        rw [if_pos hline, if_neg hne, decide_eq_true rfl, Bool.true_or]
        exact Function.update_self ..
      · rw [decide_eq_false hsame, Bool.false_or]
        split_ifs
        · rfl
        · exact Function.update_of_ne (Ne.symm hsame) ..
        · rfl
  | @take vector board hif hint =>
      simp only [reduceCtorEq, decide_false, Bool.false_or, IrqEvent.take.injEq, ne_eq]
      rcases take_cases h hint with ⟨line', _, _, rfl, hirr, _, hafter⟩ |
        ⟨line', hlt', rfl, _, _, _, _, hafter⟩
      · rw [hafter]
        show Function.update s.board.master.irr line' false line = _ ∧ _
        by_cases hsame : line' = line
        · subst hsame
          refine ⟨?_, fun _ => hirr⟩
          rw [Function.update_self, decide_eq_false (not_not.mpr rfl), Bool.and_false]
        · refine ⟨?_, fun heq => absurd (by omega) hsame⟩
          rw [Function.update_of_ne (Ne.symm hsame),
            decide_eq_true (show ¬ 0x20 + line' = 0x20 + line by omega), Bool.and_true]
      · rw [hafter]
        show Function.update s.board.master.irr 2 false line = _ ∧ _
        refine ⟨?_, fun heq => by omega⟩
        rw [Function.update_of_ne hne, decide_eq_true (show ¬ 0x28 + line' = 0x20 + line by omega),
          Bool.and_true]

/-- Remapped controllers give the first line to the processor whenever it requests. -/
theorem timer_first {b : Board} (h : b.Remapped) (hirr : b.master.irr 0 = true) :
    ∃ board, b.interrupt = some (0x20, board) := by
  have hline : b.master.candidate b.request = some 0 := by
    refine Pic.candidate_eq_some.mpr ⟨by decide, hirr, ?_, fun before hb => by omega,
      fun before _ => h.served before⟩
    rw [h.master.imr, Nat.zero_testBit]
  rw [Board.interrupt, hline]
  simp only [Option.map_some, h.master.cascade, h.master.base]
  exact ⟨_, rfl⟩

theorem taken_snoc (trace : List (Transition IrqState IrqEvent))
    (x : Transition IrqState IrqEvent) (vector : Nat) :
    taken (trace ++ [x]) vector = taken trace vector + if x.event = .take vector then 1 else 0 := by
  rw [taken, List.countP_append, ← taken, List.countP_singleton]
  simp only [decide_eq_true_eq]

theorem raised_snoc (trace : List (Transition IrqState IrqEvent))
    (x : Transition IrqState IrqEvent) (line : Nat) :
    raised (trace ++ [x]) line = raised trace line + if x.event = .raise line then 1 else 0 := by
  rw [raised, List.countP_append, ← raised, List.countP_singleton]
  simp only [decide_eq_true_eq]

theorem merged_snoc (trace : List (Transition IrqState IrqEvent))
    (x : Transition IrqState IrqEvent) (line : Nat) :
    merged (trace ++ [x]) line = merged trace line +
      if x.event = .raise line ∧ x.before.board.master.irr line = true then 1 else 0 := by
  rw [merged, List.countP_append, ← merged, List.countP_singleton]
  simp only [decide_eq_true_eq]

/-- Every interrupt of the timer that is taken is counted, and every one of the keyboard is
printed. -/
theorem ticks_counted (hrun : Run IrqStep s trace t) (hs : s.board.Remapped)
    (htick : s.tick < 18446744073709551616) :
    t.tick = (s.tick + taken trace 0x20) % 18446744073709551616 ∧
    t.printed = s.printed ++ List.replicate (taken trace 0x21) "test int 0x21" := by
  induction hrun with
  | nil => exact ⟨(Nat.mod_eq_of_lt htick).symm, (List.append_nil _).symm⟩
  | @snoc trace u w e hprefix hlast ih =>
      obtain ⟨htick', hprinted⟩ := ih
      have hu : u.board.Remapped := remapped_run hprefix hs
      rw [taken_snoc, taken_snoc]
      cases hlast with
      | raise hline => exact ⟨htick', hprinted⟩
      | @take vector board hif hint =>
          obtain ⟨htick, hprint, _⟩ := handle_counts { u with board := board }
            (take_not_zero hu hint)
          rw [htick, hprint]
          simp only [IrqEvent.take.injEq, htick', hprinted]
          refine ⟨?_, ?_⟩
          · split_ifs <;> omega
          · rw [List.append_assoc, List.replicate_append_replicate]

/-- A rise of a line of the master is taken, or requests still, or has met an earlier one that
requests. -/
theorem lines_counted (hrun : Run IrqStep s trace t) (hs : s.board.Remapped)
    (hirr : ∀ line, s.board.master.irr line = false) {line : Nat} (hline : line < 8)
    (hne : line ≠ 2) :
    raised trace line = taken trace (0x20 + line) + merged trace line +
      if t.board.master.irr line then 1 else 0 := by
  induction hrun with
  | nil =>
      rw [hirr line]
      rfl
  | @snoc trace u w e hprefix hlast ih =>
      have hu : u.board.Remapped := remapped_run hprefix hs
      obtain ⟨hafter, htake⟩ := master_irr_step hu hlast hline hne
      rw [raised_snoc, taken_snoc, merged_snoc, ih, hafter]
      simp only
      cases hbefore : u.board.master.irr line with
      | false =>
          have hnot : e ≠ .take (0x20 + line) := fun h => by
            rw [htake h] at hbefore
            cases hbefore
          simp only [hnot, Bool.false_eq_true, and_false, if_false, Bool.false_and, Bool.or_false,
            decide_eq_true_eq]
          omega
      | true =>
          by_cases htaken : e = .take (0x20 + line)
          · subst htaken
            simp only [reduceCtorEq, false_and, if_false, if_true, decide_false, Bool.false_or,
              Bool.true_and, ne_eq, not_true_eq_false, Bool.false_eq_true]
            omega
          · by_cases hraised : e = .raise line
            · simp only [hraised, reduceCtorEq, and_self, if_true, if_false, decide_true,
                Bool.true_or]
              omega
            · simp only [htaken, hraised, false_and, if_false, if_true, ne_eq, not_false_eq_true,
                decide_true, Bool.and_true, Bool.or_true]
              omega

/-! ## Runs of the kernel -/

/-- The machine behind `_start` and `enable_interrupts`. -/
def booted (b : Board) : IrqState := ⟨(run Board.device startProgram b).2, true, 0, []⟩

/-- In any run of the kernel the interrupts of the slave come in falling order: each of its lines
interrupts once at most, and only if no line up to it has done so before, for no handler tells the
slave that it is done. -/
theorem kernel_slave_lines_fall {b : Board} (hmaster : ∀ line, b.master.isr line = false)
    (hslave : ∀ line, b.slave.isr line = false) (hrun : Run IrqStep (booted b) trace t) :
    (slaveVectors trace).Pairwise (· > ·) ∧
      (∀ vector ∈ slaveVectors trace, 0x28 ≤ vector ∧ vector < 0x30) ∧
      ∀ line, t.board.slave.isr line = true ↔ 0x28 + line ∈ slaveVectors trace := by
  obtain ⟨hremapped, _, _, hisr⟩ := start_remaps b hmaster
  exact slave_lines_fall hrun hremapped fun line => (congrFun hisr line).trans (hslave line)

/-- In any run of the kernel the rises of a line of the master are the times that its vector is
taken, the rises that have met one that requests already, and the one that requests still. Every
tick of the timer that is taken is counted, and one that requests is the next interrupt to be taken,
whatever the slave has in service. -/
theorem kernel_master_lines_counted {b : Board} (hmaster : ∀ line, b.master.isr line = false)
    (hrun : Run IrqStep (booted b) trace t) :
    (∀ line < 8, line ≠ 2 → raised trace line =
      taken trace (0x20 + line) + merged trace line +
        if t.board.master.irr line then 1 else 0) ∧
    t.tick = taken trace 0x20 % 18446744073709551616 ∧
    t.printed = List.replicate (taken trace 0x21) "test int 0x21" ∧
    (t.board.master.irr 0 = true → ∃ board, t.board.interrupt = some (0x20, board)) := by
  obtain ⟨hremapped, hirr, _, _⟩ := start_remaps b hmaster
  obtain ⟨htick, hprinted⟩ := ticks_counted hrun hremapped
    (show 0 < 18446744073709551616 by decide)
  rw [show (booted b).tick = 0 from rfl, Nat.zero_add] at htick
  exact ⟨fun _ => lines_counted hrun hremapped hirr, htick, hprinted,
    timer_first (remapped_run hrun hremapped)⟩

/-- Controllers in the state of a reset. -/
def idleBoard : Board :=
  let pic : Pic := ⟨fun _ => false, fun _ => false, 0xff, 0x00, 0x00, .ready, false, false, false⟩
  ⟨0x00, pic, pic⟩

/-- A disk on line 14 interrupts. Then the timer rises twice before it is taken, and once more after
that. -/
theorem run_disk_and_timer : ∃ trace, ∃ t : IrqState, Run IrqStep (booted idleBoard) trace t ∧
    trace.map Transition.event =
      [.raise 14, .take 0x2e, .raise 0, .raise 0, .take 0x20, .raise 0] :=
  ⟨_, _, .snoc (.snoc (.snoc (.snoc (.snoc (.snoc .nil (.raise (show 14 < 16 by omega)))
    (.take rfl rfl)) (.raise (show 0 < 16 by omega))) (.raise (show 0 < 16 by omega)))
    (.take rfl rfl)) (.raise (show 0 < 16 by omega)), rfl⟩

/-- The slave in the run of the disk and the timer. -/
theorem disk_and_timer_slave_falls : ∃ trace, ∃ t : IrqState,
    trace.map Transition.event =
      [.raise 14, .take 0x2e, .raise 0, .raise 0, .take 0x20, .raise 0] ∧
    (slaveVectors trace).Pairwise (· > ·) ∧
    (∀ vector ∈ slaveVectors trace, 0x28 ≤ vector ∧ vector < 0x30) ∧
    ∀ line, t.board.slave.isr line = true ↔ 0x28 + line ∈ slaveVectors trace := by
  obtain ⟨trace, t, hrun, hevents⟩ := run_disk_and_timer
  exact ⟨trace, t, hevents,
    kernel_slave_lines_fall (b := idleBoard) (fun _ => rfl) (fun _ => rfl) hrun⟩

/-- The master in the run of the disk and the timer. -/
theorem disk_and_timer_master_counted : ∃ trace, ∃ t : IrqState,
    trace.map Transition.event =
      [.raise 14, .take 0x2e, .raise 0, .raise 0, .take 0x20, .raise 0] ∧
    (∀ line < 8, line ≠ 2 → raised trace line =
      taken trace (0x20 + line) + merged trace line +
        if t.board.master.irr line then 1 else 0) ∧
    t.tick = taken trace 0x20 % 18446744073709551616 ∧
    t.printed = List.replicate (taken trace 0x21) "test int 0x21" ∧
    (t.board.master.irr 0 = true → ∃ board, t.board.interrupt = some (0x20, board)) := by
  obtain ⟨trace, t, hrun, hevents⟩ := run_disk_and_timer
  exact ⟨trace, t, hevents, kernel_master_lines_counted (b := idleBoard) (fun _ => rfl) hrun⟩

end Irq

end Genesis32
