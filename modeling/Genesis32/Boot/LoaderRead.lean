import Genesis32.Disk.ChannelCalls

/-!
# The sector loop of the boot sector

`ata_lba_read` of `bootloader/boot.asm`, which loads the kernel before there is a driver: a sequence
of port accesses with the registers `ebx` (LBA), `ecx` (count) and `edi` (address). It waits for
each sector without a bound and looks at no error bit. So it loads the right sectors from any drive
that keeps asking for data, however slow it is and whatever errors it shows, and it never comes back
from one that stops asking.
-/

namespace Genesis32

open Word PortProgram

/-- `rep insw` with the count `ecx`: the memory and `edi` after it. -/
def insWordsProgram : Nat → Nat → ByteMem → DriverProgram (ByteMem × Nat)
  | 0, edi, mem => .ret (mem, edi)
  | ecx + 1, edi, mem =>
      (in16Program 0x1f0).andThen fun v =>
        insWordsProgram ecx (add32 edi 2) (mem.setWord16 edi v)

/-- `.call_read_sect`, with `r` rounds left: `ecx` is `r` in 32 bits, and `mov cx,0x100` leaves its
high half alone. A round polls at most `fuel + 1` times, and there is no result if that is not
enough. -/
def callReadSect (fuel : Nat) : Nat → Nat → ByteMem → DriverProgram (Option ByteMem)
  | 0, _, mem => .ret (some mem)
  | r + 1, edi, mem =>
      (pollProgram 0x1f7 dataRequest fuel).andThen fun asked =>
        if asked then
          (insWordsProgram ((r + 1) % 4294967296 / 65536 * 65536 + 0x100) edi mem).andThen
            fun (mem, edi) => callReadSect fuel r edi mem
        else .ret none

/-- The outputs of `ata_lba_read` before the loop. -/
def bootTaskFile (ebx ecx : Nat) : List PortWrite :=
  [outb 0x1f2 ecx, outb 0x1f3 ebx, outb 0x1f4 (ebx >>> 8), outb 0x1f5 (ebx >>> 16),
    outb 0x1f6 (((ebx >>> 24) &&& 0x0f) ||| 0xe0), outb 0x1f7 0x20]

/-- `ata_lba_read`. The loop counts down before it tests, so a count of 0 means `2 ^ 32` rounds. -/
def ataLbaRead (fuel ebx ecx edi : Nat) (mem : ByteMem) : DriverProgram (Option ByteMem) :=
  outputs (bootTaskFile ebx ecx)
    (callReadSect fuel (if ecx = 0 then 4294967296 else ecx) edi mem)

namespace Ata

/-! ## One sector -/

/-- Below the end of the address space `rep insw` is the word loop of the driver. -/
theorem ins_words_eq (curStart : Nat) : ∀ (r j : Nat) (mem : ByteMem),
    curStart + 2 * (j + r) < 4294967296 →
    insWordsProgram r (curStart + 2 * j) mem = (readWordsProgram 0x1f0 curStart r j mem).andThen
      fun mem => .ret (mem, curStart + 2 * (j + r)) := by
  intro r
  induction r with
  | zero => exact fun _ _ _ => rfl
  | succ r ih =>
      intro j mem h
      rw [insWordsProgram, readWordsProgram, in16Program, andThen, andThen, andThen]
      simp only [andThen]
      rw [add32_of_lt (by omega), show curStart + 2 * j + 2 = curStart + 2 * (j + 1) by omega]
      simp only [ih (j + 1) _ (by omega), show j + 1 + r = j + (r + 1) by omega]

/-- The drive has failed and does not ask for data. -/
def Stops (failure : Option Failure) : Prop := ∃ fault, failure = some ⟨fault, false⟩

/-- How the busy periods of a transfer end, the first one with `failure`. -/
def Drive.failures (dr : Drive) (failure : Option Failure) : Nat → Option Failure
  | 0 => failure
  | n + 1 => (dr.periods n).failure

/-- The poll of a drive that has a sector to send. -/
theorem run_boot_poll (c : Channel) {dr : Drive} {image : ByteMem} {sector left : Nat}
    {failure : Option Failure} (hphase : dr.phase.settled = Drive.offer image sector left failure) :
    (Stops failure → ∀ fuel, (run (Channel.device 0x1f0) (pollProgram 0x1f7 dataRequest fuel)
      (c.setCurrent dr)).1 = false) ∧
    (¬ Stops failure → ∃ fault, ∀ fuel,
      ((run (Channel.device 0x1f0) (pollProgram 0x1f7 dataRequest fuel)
        (c.setCurrent dr)).1 = true →
      (run (Channel.device 0x1f0) (pollProgram 0x1f7 dataRequest fuel) (c.setCurrent dr)).2 =
        c.setCurrent { dr with phase := .sending image sector 0 left fault }) ∧
      (dr.phase.wait ≤ fuel → (run (Channel.device 0x1f0) (pollProgram 0x1f7 dataRequest fuel)
        (c.setCurrent dr)).1 = true)) := by
  have hpoll := fun fuel => run_poll (show 0x1f0 + 7 < 65536 by decide)
    (fun p hp => (Phase.busy_not_ready hp).2) c fuel dr
  rw [hphase] at hpoll
  constructor
  · rintro ⟨fault, rfl⟩ fuel
    obtain ⟨b, p, hrun, _, htrue, _⟩ := hpoll fuel
    rw [hrun]
    refine eq_false_of_ne_true fun hb => ?_
    obtain ⟨hp, hready⟩ := htrue hb
    rw [hp, Drive.offer, Phase.idle_no_request] at hready
    cases hready
  · intro hgoes
    obtain ⟨fault, hoffer⟩ : ∃ fault, Drive.offer image sector left failure =
        .sending image sector 0 left fault := by
      rcases failure with _ | ⟨fault, _ | _⟩
      · exact ⟨none, rfl⟩
      · exact absurd ⟨fault, rfl⟩ hgoes
      · exact ⟨some fault, rfl⟩
    refine ⟨fault, fun fuel => ?_⟩
    obtain ⟨b, p, hrun, _, htrue, hwait⟩ := hpoll fuel
    rw [hoffer] at htrue hwait
    rw [hrun]
    refine ⟨fun hb => ?_, fun hfuel => ?_⟩
    · rw [← (htrue hb).1]
    · obtain ⟨hp, hb⟩ := hwait hfuel
      rw [hb, hp]
      exact (Phase.ready_bits fault true).2.2.1

/-! ## The loop -/

/-- The loop brings what was asked for or nothing: it comes back if the drive does not stop in it
and there is enough fuel, and only then. -/
theorem run_call_read_sect (c : Channel) (image : ByteMem) : ∀ (r sector edi : Nat) (dr : Drive)
    (failure : Option Failure) (mem : ByteMem), r ≤ 256 → edi + 512 * r < 4294967296 →
    dr.phase.settled = Drive.offers image sector r failure →
    let loaded := fun fuel =>
      (run (Channel.device 0x1f0) (callReadSect fuel r edi mem) (c.setCurrent dr)).1
    (∀ fuel, loaded fuel = none ∨ loaded fuel = some (mem.copy edi image (512 * sector) (512 * r)))
    ∧ (∀ fuel, (loaded fuel).isSome → ∀ n < r, ¬ Stops (dr.failures failure n))
    ∧ ((∀ n < r, ¬ Stops (dr.failures failure n)) →
      ∃ enough, ∀ fuel, enough ≤ fuel → (loaded fuel).isSome) := by
  intro r
  induction r with
  | zero =>
      intro sector edi dr failure mem _ _ _
      refine ⟨fun fuel => Or.inr ?_, fun _ _ n hn => absurd hn (Nat.not_lt_zero n),
        fun _ => ⟨0, fun _ _ => rfl⟩⟩
      rw [Nat.mul_zero, ByteMem.copy_zero]
      rfl
  | succ r ih =>
      intro sector edi dr failure mem hr hedi hphase
      have hend : edi + 2 * (0 + 256) < 4294967296 :=
        Nat.lt_of_le_of_lt (show edi + 2 * (0 + 256) ≤ edi + 512 * (r + 1) by omega) hedi
      obtain ⟨hstop, hgo⟩ := run_boot_poll c hphase
      intro loaded
      have hloaded : ∀ fuel, loaded fuel = _ := fun fuel => by
        simp only [loaded]
        rw [callReadSect, run_and_then]
      by_cases hstops : Stops failure
      · have hnone : ∀ fuel, loaded fuel = none := fun fuel => by
          rw [hloaded, hstop hstops fuel]
          rfl
        refine ⟨fun fuel => Or.inl (hnone fuel), fun fuel hsome => ?_,
          fun h => absurd hstops (h 0 (by omega))⟩
        rw [hnone] at hsome
        cases hsome
      · obtain ⟨fault, hpoll⟩ := hgo hstops
        have hfails : ∀ fuel, (run (Channel.device 0x1f0) (pollProgram 0x1f7 dataRequest fuel)
            (c.setCurrent dr)).1 = false → loaded fuel = none := fun fuel hb => by
          rw [hloaded, hb]
          rfl
        have hins := ins_words_eq edi 256 0 mem hend
        have hcount : (r + 1) % 4294967296 / 65536 * 65536 + 0x100 = 256 := by omega
        let asked : Drive := { dr with phase := .sending image sector 0 r fault }
        have hread := run_read_words (show 0x1f0 + 7 < 65536 by decide) c image sector r edi fault
          255 0
          asked mem rfl rfl
        rw [Nat.mul_zero, Nat.add_zero, Nat.zero_add] at hins
        have hwords : ∀ fuel, (run (Channel.device 0x1f0) (pollProgram 0x1f7 dataRequest fuel)
            (c.setCurrent dr)).1 = true → loaded fuel = (run (Channel.device 0x1f0)
              (callReadSect fuel r (edi + 512) (mem.copy edi image (512 * sector) 512))
                (c.setCurrent (asked.sent image sector r))).1 := fun fuel hb => by
          rw [hloaded, hb, (hpoll fuel).1 hb, if_pos rfl, hcount, run_and_then, hins, run_and_then,
            hread]
          rfl
        obtain ⟨hnext, _⟩ := asked.sent_offers image sector r
        obtain ⟨hbring, honly, hback⟩ := ih (sector + 1) (edi + 512) _ _
          (mem.copy edi image (512 * sector) 512) (by omega)
          (Nat.lt_of_le_of_lt (show edi + 512 + 512 * r ≤ edi + 512 * (r + 1) by omega) hedi) hnext
        have hcopy : (mem.copy edi image (512 * sector) 512).copy (edi + 512) image
            (512 * (sector + 1)) (512 * r) = mem.copy edi image (512 * sector) (512 * (r + 1)) := by
          rw [show 512 * (sector + 1) = 512 * sector + 512 by omega, ByteMem.copy_append,
            show 512 + 512 * r = 512 * (r + 1) by omega]
        have hshift : ∀ n < r, (asked.sent image sector r).failures (asked.periods 0).failure n =
            dr.failures failure (n + 1) := by
          intro n hn
          cases n with
          | zero => rfl
          | succ n =>
              rw [Drive.failures, Drive.sent, if_neg (by omega)]
              rfl
        refine ⟨fun fuel => ?_, fun fuel hsome => ?_, fun h => ?_⟩
        · cases hb : (run (Channel.device 0x1f0) (pollProgram 0x1f7 dataRequest fuel)
            (c.setCurrent dr)).1 with
          | false => exact Or.inl (hfails fuel hb)
          | true =>
              rw [hwords fuel hb, ← hcopy]
              exact hbring fuel
        · have hb : (run (Channel.device 0x1f0) (pollProgram 0x1f7 dataRequest fuel)
              (c.setCurrent dr)).1 = true := by
            refine eq_true_of_ne_false fun hb => ?_
            rw [hfails fuel hb] at hsome
            cases hsome
          rw [hwords fuel hb] at hsome
          intro n hn
          cases n with
          | zero => exact hstops
          | succ n =>
              rw [← hshift n (by omega)]
              exact honly fuel hsome n (by omega)
        · obtain ⟨enough, henough⟩ := hback fun n hn => by
            rw [hshift n hn]
            exact h (n + 1) (by omega)
          refine ⟨max enough dr.phase.wait, fun fuel hfuel => ?_⟩
          rw [hwords fuel ((hpoll fuel).2 (le_trans (le_max_right _ _) hfuel))]
          exact henough fuel (le_trans (le_max_left _ _) hfuel)

/-- The outputs before the loop start the command on the master of a quiet channel. -/
theorem take_boot_task_file {c : Channel} {dr : Drive} (hquiet : c.Quiet)
    (hdrive : c.drive true = some dr) {ebx ecx : Nat} (hebx : ebx < 268435456) (hpos : 1 ≤ ecx)
    (hle : ecx ≤ 256) : (bootTaskFile ebx ecx).foldl (Channel.device 0x1f0).take c =
      (c.loaded ⟨0x1f0, true, 0⟩ ebx ecx).setCurrent (dr.command ebx ecx 0x20) := by
  have hbusy : ∀ {c' : Channel}, c'.drive = c.drive → c'.isBusy = false :=
    fun hdrive => (hquiet.of_drive hdrive).not_busy
  have htake := fun (c : Channel) (r : Nat) (hr : r < 8) v =>
    take_register (show 0x1f0 + 7 < 65536 by decide) c hr v
  -- the registers are those that the driver would load for the master
  have hloaded : (bootTaskFile ebx ecx).foldl (Channel.device 0x1f0).take c =
      (c.loaded ⟨0x1f0, true, 0⟩ ebx ecx).write 7 0x20 := by
    simp only [bootTaskFile, List.foldl_cons, List.foldl_nil]
    rw [htake _ 2 (by decide), htake _ 3 (by decide), htake _ 4 (by decide), htake _ 5 (by decide),
      htake _ 6 (by decide), htake _ 7 (by decide), Channel.write_count, Channel.write_lba_low,
      Channel.write_lba_mid, Channel.write_lba_high, Channel.write_head]
    · simp only [Channel.loaded, if_true, Nat.shiftRight_eq_div_pow, Nat.or_comm 0xe0]
    all_goals exact hbusy rfl
  have hcurrent := (c.loaded_current ⟨0x1f0, true, 0⟩ ebx ecx).trans hdrive
  have hidle : (c.loaded ⟨0x1f0, true, 0⟩ ebx ecx).isBusy = false := hbusy rfl
  rw [hloaded, Channel.write_command hidle hcurrent, Channel.loaded_lba c _ hebx,
    Channel.loaded_sectors c _ ebx hpos hle]

/-- `ata_lba_read` from a quiet channel: whatever it loads is what was asked for, and it comes back
exactly if the drive never stops asking for data. -/
theorem ata_lba_read_loads {c : Channel} {dr : Drive} (hquiet : c.Quiet)
    (hdrive : c.drive true = some dr) {ebx ecx edi : Nat} (hebx : ebx < 268435456) (hpos : 1 ≤ ecx)
    (hle : ecx ≤ 256) (hin : ebx + ecx ≤ dr.size) (hedi : edi + 512 * ecx < 4294967296)
    (mem : ByteMem) :
    let loaded := fun fuel =>
      (run (Channel.device 0x1f0) (ataLbaRead fuel ebx ecx edi mem) c).1
    (∀ fuel, loaded fuel = none ∨
      loaded fuel = some (mem.copy edi dr.image (512 * ebx) (512 * ecx))) ∧
    ((∃ fuel, (loaded fuel).isSome) ↔ ∀ n < ecx, ¬ Stops (dr.periods n).failure) := by
  have hcommand : dr.command ebx ecx 0x20 = dr.pause (Drive.offer dr.image ebx (ecx - 1)) :=
    if_pos ⟨rfl, hin⟩
  obtain ⟨hsettled, _⟩ :=
    dr.pause_ends ((Drive.offer_asks dr.image ebx (ecx - 1)).not_busy (dr.periods 0).failure)
  rw [← hcommand, show Drive.offer dr.image ebx (ecx - 1) (dr.periods 0).failure =
    Drive.offers dr.image ebx ecx (dr.periods 0).failure by
      rw [← Nat.sub_add_cancel hpos]; rfl] at hsettled
  obtain ⟨hbring, honly, hback⟩ := run_call_read_sect (c.loaded ⟨0x1f0, true, 0⟩ ebx ecx) dr.image
    ecx ebx edi (dr.command ebx ecx 0x20) _ mem hle hedi hsettled
  have hrun : ∀ fuel, run (Channel.device 0x1f0) (ataLbaRead fuel ebx ecx edi mem) c =
      run (Channel.device 0x1f0) (callReadSect fuel ecx edi mem)
        ((c.loaded ⟨0x1f0, true, 0⟩ ebx ecx).setCurrent (dr.command ebx ecx 0x20)) := fun fuel => by
    rw [ataLbaRead, run_outputs, take_boot_task_file hquiet hdrive hebx hpos hle, if_neg (by omega)]
  have hfailures : ∀ n, (dr.command ebx ecx 0x20).failures (dr.periods 0).failure n =
      (dr.periods n).failure := by
    intro n
    rw [hcommand]
    cases n <;> rfl
  intro loaded
  simp only [hfailures] at honly hback
  simp only [loaded, hrun]
  refine ⟨hbring, fun ⟨fuel, hsome⟩ => honly fuel hsome, fun h => ?_⟩
  obtain ⟨enough, henough⟩ := hback h
  exact ⟨enough, henough enough (Nat.le_refl enough)⟩

/-- Two sectors of a blank drive, to 1 MiB. -/
theorem ata_lba_read_blank_loads :
    let loaded := fun fuel => (run (Channel.device 0x1f0)
      (ataLbaRead fuel 2 2 0x100000 fun _ => 0xff) blankChannel).1
    (∀ fuel, loaded fuel = none ∨ loaded fuel =
      some (ByteMem.copy (fun _ => 0xff) 0x100000 blankDrive.image (512 * 2) (512 * 2))) ∧
    ((∃ fuel, (loaded fuel).isSome) ↔ ∀ n < 2, ¬ Stops (blankDrive.periods n).failure) :=
  ata_lba_read_loads blank_channel_quiet rfl (by decide) (by decide) (by decide) (by decide)
    (by decide) _

end Ata

end Genesis32
