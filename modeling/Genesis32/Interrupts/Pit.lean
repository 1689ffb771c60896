import Genesis32.Interrupts.IrqRuns
import Genesis32.Library.Word

/-!
# The timer

`pit_init` of `pit/pit.c` with the counter that it programs, and the waiting functions of
`time/time.c` on top of the runs of interrupts. The counter takes a divisor of 16 bits, so it runs
at the frequency that was asked for from 19 Hz on only. A sleep ends with the first look at `tick`
after as many timer interrupts as it was to wait for.
-/

namespace Genesis32

open Word PortProgram

namespace Irq

/-! ## The counter -/

/-- `PIT_FREQ`. -/
abbrev pitFreq : Nat := 1193182

/-- `pit_init`. There is no result for a division by zero. -/
def pitInit (freq : Nat) : Option (List PortWrite) :=
  if freq = 0 then none
  else
    let val := pitFreq / freq % 65536
    some [outb 0x43 0x36, outb 0x40 (val &&& 0xff), outb 0x40 ((val >>> 8) &&& 0xff)]

/-- Counter 0 of the 8254: its mode, how its data port is accessed, the low byte that waits for the
high one, and the divisor. -/
structure Counter where
  mode : Nat
  access : Nat
  low : Option Nat
  reload : Nat
  deriving DecidableEq, Repr

/-- The divisor that the counter uses: 0 means `2 ^ 16`. -/
def Counter.divisor (c : Counter) : Nat := if c.reload = 0 then 65536 else c.reload

/-- An output to the ports of the 8254. Only counter 0 is modelled, with the access to one byte or
to both. -/
def Counter.take (c : Counter) (w : PortWrite) : Counter :=
  if w.port = 0x43 then
    if w.value / 64 = 0 then
      { c with mode := w.value / 2 % 8, access := w.value / 16 % 4, low := none }
    else c
  else if w.port = 0x40 then
    match c.access, c.low with
    | 1, _ => { c with reload := w.value }
    | 2, _ => { c with reload := 256 * w.value }
    | 3, none => { c with low := some w.value }
    | 3, some low => { c with low := none, reload := low + 256 * w.value }
    | _, _ => c
  else c

/-- `pit_init` makes the counter a square wave generator, with the low 16 bits of the quotient as
its divisor. -/
theorem pit_init_counter (c : Counter) {freq : Nat} (hfreq : freq ≠ 0) :
    ∃ outs, pitInit freq = some outs ∧
      outs.foldl Counter.take c = ⟨3, 3, none, pitFreq / freq % 65536⟩ := by
  refine ⟨_, if_neg hfreq, ?_⟩
  generalize hval : pitFreq / freq % 65536 = val
  have hlt : val < 65536 := by omega
  have hlow : (val &&& 0xff) % 256 = val % 256 := by rw [land_byte, Nat.mod_mod]
  have hhigh : ((val >>> 8) &&& 0xff) % 256 = val / 256 := by
    rw [land_byte, Nat.mod_mod, Nat.shiftRight_eq_div_pow]
    omega
  simp only [List.foldl_cons, List.foldl_nil, outb, hlow, hhigh]
  show Counter.mk 3 3 none (val % 256 + 256 * (val / 256)) = _
  rw [Nat.mod_add_div]

/-- The counter divides by the quotient exactly for the frequencies from 19 Hz to its own, and then
its interrupts are as frequent as asked for, but not by a whole divisor more frequent. -/
theorem pit_init_divisor_iff (c : Counter) (freq : Nat) :
    (∃ outs, pitInit freq = some outs ∧
      let divisor := (outs.foldl Counter.take c).divisor
      freq * divisor ≤ pitFreq ∧ pitFreq < freq * (divisor + 1)) ↔ 19 ≤ freq ∧ freq ≤ pitFreq := by
  -- both bounds together say that the divisor is the quotient
  have hquotient : ∀ {divisor}, 0 < freq → (freq * divisor ≤ pitFreq ∧
      pitFreq < freq * (divisor + 1) ↔ divisor = pitFreq / freq) := by
    intro divisor hpos
    rw [eq_comm, Nat.div_eq_iff hpos, Nat.mul_comm freq divisor, Nat.mul_comm freq (divisor + 1),
      Nat.add_mul, Nat.one_mul]
    omega
  constructor
  · rintro ⟨outs, houts, hdivisor⟩
    have hfreq : freq ≠ 0 := fun h => by
      rw [h] at houts
      cases houts
    obtain ⟨outs', houts', htake⟩ := pit_init_counter c hfreq
    obtain rfl := Option.some.inj (houts.symm.trans houts')
    have hdivisor := (hquotient (Nat.pos_of_ne_zero hfreq)).mp hdivisor
    rw [htake, Counter.divisor] at hdivisor
    simp only at hdivisor
    have hpos : 0 < pitFreq / freq ∧ pitFreq / freq ≤ 65536 := by
      split_ifs at hdivisor <;> omega
    refine ⟨?_, (Nat.div_pos_iff.mp hpos.1).2⟩
    by_contra hlt
    have hbig : pitFreq / 18 ≤ pitFreq / freq :=
      Nat.div_le_div_left (by omega) (Nat.pos_of_ne_zero hfreq)
    exact absurd (hbig.trans hpos.2) (by decide)
  · rintro ⟨hlo, hhi⟩
    obtain ⟨outs, houts, htake⟩ := pit_init_counter c (show freq ≠ 0 by omega)
    have hsmall : pitFreq / freq ≤ pitFreq / 19 := Nat.div_le_div_left hlo (by decide)
    have hsmall : pitFreq / freq < 65536 := lt_of_le_of_lt hsmall (by decide)
    have hpos : 0 < pitFreq / freq := Nat.div_pos hhi (by omega)
    refine ⟨outs, houts, (hquotient (by omega)).mpr ?_⟩
    rw [htake, Counter.divisor]
    simp only
    rw [Nat.mod_eq_of_lt hsmall, if_neg (by omega)]

/-! ## Sleeping -/

/-- `while(tick < end)`, with the `i`-th value of `tick` that it reads: the index of the read that
ends it. -/
def waitLoop (ticks : Nat → Nat) (fin : Nat) : Nat → Nat → Option Nat
  | 0, _ => none
  | fuel + 1, i => if ticks i < fin then waitLoop ticks fin fuel (i + 1) else some i

/-- `sleep_ticks`. The first read makes the end. -/
def sleepTicks (ticks : Nat → Nat) (fuel tickCount : Nat) : Option Nat :=
  waitLoop ticks ((ticks 0 + tickCount) % 18446744073709551616) fuel 1

/-- `sleep`. -/
def sleep (ticks : Nat → Nat) (fuel timeSec : Nat) : Option Nat :=
  sleepTicks ticks fuel (mul32 timeSec 100)

/-- `sleep_ms`. -/
def sleepMs (ticks : Nat → Nat) (fuel milliSec : Nat) : Option Nat :=
  sleepTicks ticks fuel ((if milliSec < 10 then 10 else milliSec) / 10)

/-- The loop ends with the first read that has come far enough. -/
theorem wait_loop_eq_some {ticks : Nat → Nat} {fin n : Nat} : ∀ fuel i,
    waitLoop ticks fin fuel i = some n ↔
      i ≤ n ∧ n < i + fuel ∧ fin ≤ ticks n ∧ ∀ j, i ≤ j → j < n → ticks j < fin := by
  intro fuel
  induction fuel with
  | zero =>
      intro i
      rw [waitLoop]
      exact ⟨(nomatch ·), fun h => by omega⟩
  | succ fuel ih =>
      intro i
      rw [waitLoop]
      split_ifs with hlt
      · rw [ih]
        constructor
        · rintro ⟨hlo, hhi, hend, hbefore⟩
          refine ⟨by omega, by omega, hend, fun j hj hjn => ?_⟩
          rcases Nat.eq_or_lt_of_le hj with rfl | hj
          · exact hlt
          · exact hbefore j hj hjn
        · rintro ⟨hlo, hhi, hend, hbefore⟩
          have hne : i ≠ n := fun h => by
            rw [h] at hlt
            omega
          exact ⟨by omega, by omega, hend, fun j hj hjn => hbefore j (by omega) hjn⟩
      · rw [Option.some.injEq]
        constructor
        · rintro rfl
          exact ⟨Nat.le_refl i, by omega, by omega, fun j hj hjn => by omega⟩
        · rintro ⟨hlo, _, _, hbefore⟩
          by_contra hne
          exact hlt (hbefore i (Nat.le_refl i) (by omega))

/-- The timer interrupts that are taken up to the `n`-th part of a run. -/
def ticksTaken (traces : Nat → List (Transition IrqState IrqEvent)) (n : Nat) : Nat :=
  ((List.range n).map fun i => taken (traces i) 0x20).sum

variable {states : Nat → IrqState} {traces : Nat → List (Transition IrqState IrqEvent)}

/-- `tick` counts the timer interrupts over the parts of a run. -/
theorem tick_of_parts (hrun : ∀ i, Run IrqStep (states i) (traces i) (states (i + 1)))
    (hremapped : (states 0).board.Remapped) (htick : (states 0).tick < 18446744073709551616) :
    ∀ n, (states n).board.Remapped ∧
      (states n).tick = ((states 0).tick + ticksTaken traces n) % 18446744073709551616 := by
  intro n
  induction n with
  | zero => exact ⟨hremapped, (Nat.mod_eq_of_lt htick).symm⟩
  | succ n ih =>
      obtain ⟨hn, hticks⟩ := ih
      have hlt : (states n).tick < 18446744073709551616 := by omega
      have hsum : ticksTaken traces (n + 1) = ticksTaken traces n + taken (traces n) 0x20 := by
        rw [ticksTaken, List.range_succ, List.map_append, List.sum_append, ← ticksTaken]
        simp
      refine ⟨remapped_run (hrun n) hn, ?_⟩
      rw [(ticks_counted (hrun n) hn hlt).1, hticks, hsum]
      omega

/-- A sleep comes back with its first look at `tick` after as many timer interrupts as it waits
for, and not before, as long as the counter does not wrap. -/
theorem sleep_ticks_waits (hrun : ∀ i, Run IrqStep (states i) (traces i) (states (i + 1)))
    (hremapped : (states 0).board.Remapped) {tickCount : Nat}
    (hroom : (states 0).tick + tickCount < 18446744073709551616)
    (hwrap : ∀ i, (states 0).tick + ticksTaken traces i < 18446744073709551616) (fuel n : Nat) :
    sleepTicks (fun i => (states i).tick) fuel tickCount = some n ↔
      1 ≤ n ∧ n < 1 + fuel ∧ tickCount ≤ ticksTaken traces n ∧
      ∀ j, 1 ≤ j → j < n → ticksTaken traces j < tickCount := by
  have hticks : ∀ i, (states i).tick = (states 0).tick + ticksTaken traces i := fun i => by
    rw [(tick_of_parts hrun hremapped (by omega) i).2, Nat.mod_eq_of_lt (hwrap i)]
  have hbegun : ∀ i, (states 0).tick + tickCount ≤ (states i).tick ↔
      tickCount ≤ ticksTaken traces i := fun i => by
    rw [hticks i, Nat.add_le_add_iff_left]
  rw [sleepTicks, wait_loop_eq_some, Nat.mod_eq_of_lt hroom, hbegun]
  constructor
  · rintro ⟨hlo, hhi, hend, hbefore⟩
    exact ⟨hlo, hhi, hend, fun j hj hjn =>
      Nat.lt_of_not_le fun h => absurd ((hbegun j).mpr h) (Nat.not_le_of_lt (hbefore j hj hjn))⟩
  · rintro ⟨hlo, hhi, hend, hbefore⟩
    exact ⟨hlo, hhi, hend, fun j hj hjn =>
      Nat.lt_of_not_le fun h => absurd ((hbegun j).mp h) (Nat.not_le_of_lt (hbefore j hj hjn))⟩

/-- For less than `2 ^ 32 / 100` seconds `sleep` waits for 100 timer interrupts a second. -/
theorem sleep_waits (hrun : ∀ i, Run IrqStep (states i) (traces i) (states (i + 1)))
    (hremapped : (states 0).board.Remapped) {timeSec : Nat} (hsec : timeSec < 42949673)
    (hroom : (states 0).tick + 100 * timeSec < 18446744073709551616)
    (hwrap : ∀ i, (states 0).tick + ticksTaken traces i < 18446744073709551616) (fuel n : Nat) :
    sleep (fun i => (states i).tick) fuel timeSec = some n ↔
      1 ≤ n ∧ n < 1 + fuel ∧ 100 * timeSec ≤ ticksTaken traces n ∧
      ∀ j, 1 ≤ j → j < n → ticksTaken traces j < 100 * timeSec := by
  have hproduct : mul32 timeSec 100 = 100 * timeSec := by
    rw [mul32]
    omega
  rw [sleep, hproduct]
  exact sleep_ticks_waits hrun hremapped hroom hwrap fuel n

/-- `sleep_ms` waits for a timer interrupt every ten milliseconds, and for one at least. -/
theorem sleep_ms_waits (hrun : ∀ i, Run IrqStep (states i) (traces i) (states (i + 1)))
    (hremapped : (states 0).board.Remapped) {milliSec : Nat}
    (hroom : (states 0).tick + max 1 (milliSec / 10) < 18446744073709551616)
    (hwrap : ∀ i, (states 0).tick + ticksTaken traces i < 18446744073709551616) (fuel n : Nat) :
    sleepMs (fun i => (states i).tick) fuel milliSec = some n ↔
      1 ≤ n ∧ n < 1 + fuel ∧ max 1 (milliSec / 10) ≤ ticksTaken traces n ∧
      ∀ j, 1 ≤ j → j < n → ticksTaken traces j < max 1 (milliSec / 10) := by
  have hcount : (if milliSec < 10 then 10 else milliSec) / 10 = max 1 (milliSec / 10) := by
    split_ifs <;> omega
  rw [sleepMs, hcount]
  exact sleep_ticks_waits hrun hremapped hroom hwrap fuel n

/-- A timer interrupt: its line rises and is taken. -/
theorem timer_interrupt {s : IrqState} (h : s.board.Remapped) (hif : s.enabled = true) :
    ∃ trace t, Run IrqStep s trace t ∧ (t.board.Remapped ∧ t.enabled = true) ∧
      taken trace 0x20 = 1 := by
  have hraise : IrqStep s (.raise 0) { s with board := s.board.raise 0 } :=
    .raise (show 0 < 16 by omega)
  have hraised := remapped_step h hraise
  obtain ⟨hirr, _⟩ := master_irr_step h hraise (show 0 < 8 by omega) (show 0 ≠ 2 by omega)
  obtain ⟨board, hboard⟩ := timer_first hraised (by rw [hirr, decide_eq_true rfl, Bool.true_or])
  have htake := IrqStep.take (s := { s with board := s.board.raise 0 }) hif hboard
  exact ⟨_, _, .snoc (.snoc .nil hraise) htake, ⟨remapped_step hraised htake, hif⟩, rfl⟩

/-- A kernel with `n` timer interrupts, one between a look at `tick` and the next one. -/
theorem exists_ticking (n : Nat) : ∃ (states : Nat → IrqState)
    (traces : Nat → List (Transition IrqState IrqEvent)), states 0 = booted idleBoard ∧
    (∀ i, Run IrqStep (states i) (traces i) (states (i + 1))) ∧
    ∀ i, ticksTaken traces i = min i n := by
  have hinterrupt : ∀ s : { s : IrqState // s.board.Remapped ∧ s.enabled = true },
      ∃ (trace : _) (t : { s : IrqState // s.board.Remapped ∧ s.enabled = true }),
        Run IrqStep s.1 trace t.1 ∧ taken trace 0x20 = 1 := by
    rintro ⟨s, hremapped, hif⟩
    obtain ⟨trace, t, hrun, ht, htaken⟩ := timer_interrupt hremapped hif
    exact ⟨trace, ⟨t, ht⟩, hrun, htaken⟩
  choose trace next hrun htaken using hinterrupt
  have hstart := (start_remaps idleBoard fun _ => rfl).1
  let states : Nat → { s : IrqState // s.board.Remapped ∧ s.enabled = true } := fun i =>
    i.rec ⟨booted idleBoard, hstart, rfl⟩ fun i s => if i < n then next s else s
  have hsucc : ∀ i, states (i + 1) = if i < n then next (states i) else states i := fun _ => rfl
  refine ⟨fun i => (states i).1, fun i => if i < n then trace (states i) else [], rfl,
    fun i => ?_, fun i => ?_⟩
  · simp only [hsucc]
    split_ifs
    · exact hrun (states i)
    · exact .nil
  · induction i with
    | zero => exact (Nat.zero_min n).symm
    | succ i ih =>
        rw [ticksTaken, List.range_succ, List.map_append, List.sum_append, ← ticksTaken, ih,
          List.map_singleton, List.sum_singleton]
        split_ifs
        · rw [htaken]
          omega
        · rw [show taken [] 0x20 = 0 from rfl]
          omega

/-- In a kernel with 150 timer interrupts, one before each look, a sleep of one second ends with the
hundredth look, and one of two seconds with none of a thousand. -/
theorem sleep_waits_ticking : ∃ states : Nat → IrqState, states 0 = booted idleBoard ∧
    sleep (fun i => (states i).tick) 1000 1 = some 100 ∧
    sleep (fun i => (states i).tick) 1000 2 = none := by
  obtain ⟨states, traces, hfirst, hrun, hticks⟩ := exists_ticking 150
  have hremapped : (states 0).board.Remapped := by
    rw [hfirst]
    exact (start_remaps idleBoard fun _ => rfl).1
  have htick : (states 0).tick = 0 := by
    rw [hfirst]
    rfl
  have hwrap : ∀ i, (states 0).tick + ticksTaken traces i < 18446744073709551616 := fun i => by
    rw [htick, hticks]
    omega
  refine ⟨states, hfirst, ?_, ?_⟩
  · refine (sleep_waits hrun hremapped (by omega) (by omega) hwrap 1000 100).mpr
      ⟨by omega, by omega, by rw [hticks]; omega, fun j hj hj' => ?_⟩
    rw [hticks]
    omega
  · refine Option.eq_none_iff_forall_ne_some.mpr fun m hm => ?_
    obtain ⟨_, _, hend, _⟩ :=
      (sleep_waits hrun hremapped (by omega) (by omega) hwrap 1000 m).mp hm
    rw [hticks] at hend
    omega

end Irq

end Genesis32
