import Genesis32.Disk.ChannelRuns
import Genesis32.Disk.DiskSearch

/-!
# The search for disks on the machine

`disk_search_and_init` once more, with the port of every input, so that the machine can answer it.
Replayed on a sequence of port inputs the program does what `diskSearchAndInit` does with it:
`disk_search_replay`. On a machine whose drives are swift and do not fail the search finds the
drives that are there, each with its own number of sectors, and it leaves their contents alone:
`disk_search_finds`.
-/

namespace Genesis32

open Word PortProgram

/-! ## The programs -/

/-- A polling loop with `k` rounds left before it gives up. A round says whether it ends the
loop. -/
def roundsProgram (round : DriverProgram Bool) : Nat → DriverProgram Bool
  | 0 => round
  | k + 1 => round.andThen fun done => if done then .ret true else roundsProgram round k

/-- `(inb(port) & 0x80) || !(inb(port)&0x08)`: a busy drive is read once. -/
def dataRoundProgram (port : Nat) : DriverProgram Bool :=
  (inbProgram port).andThen fun status =>
    if notBusy status then (inbProgram port).andThen fun status => .ret (status &&& 0x08 ≠ 0)
    else .ret false

/-- The inputs between the choice of a drive and its first use, with `r` left. -/
def delayProgram (port : Nat) : Nat → DriverProgram Unit
  | 0 => .ret ()
  | r + 1 => (inbProgram port).andThen fun _ => delayProgram port r

/-- `get_disk_info` behind its first two outputs. -/
def transferProgram (base commandPort command : Nat) (buf : ByteMem) : DriverProgram ByteMem :=
  (delayProgram (base + 6) 4).andThen fun _ =>
    (pollProgram commandPort notBusy (ataWait - 1)).andThen fun inTime =>
      if inTime then
        .output (outb commandPort command) <|
          (roundsProgram (dataRoundProgram commandPort) (ataWait - 1)).andThen fun inTime =>
            if inTime then readWordsProgram base 0 256 0 buf else .ret buf
      else .ret buf

/-- `get_disk_info`: the buffer after it. -/
def getDiskInfoProgram (d : Disk) (command : Nat) (buf : ByteMem) : DriverProgram ByteMem :=
  outputs [outb d.controlPort 0, outb d.head d.driveHead] <|
    transferProgram d.baseDataPort d.commandStatusPort command buf

/-- The last loop of `check_disk`: the status that ends it, or `none`. -/
def statusWaitProgram (port : Nat) : Nat → Nat → DriverProgram (Option Nat)
  | 0, status =>
      if status &&& 0x08 ≠ 0 then .ret (some status)
      else (inbProgram port).andThen fun _ => .ret none
  | k + 1, status =>
      if status &&& 0x08 ≠ 0 then .ret (some status)
      else (inbProgram port).andThen fun status => statusWaitProgram port k status

/-- `check_disk` behind its first two outputs. -/
def probeProgram (portNo : Nat) (found : Option Disk) : DriverProgram (Option Disk) :=
  (delayProgram (portNo + 6) 4).andThen fun _ =>
    (inbProgram (portNo + 7)).andThen fun stat =>
      if stat = 0xff ∨ stat = 0x00 then .ret none
      else
        (pollProgram (portNo + 7) notBusy ataWait).andThen fun inTime =>
          if inTime then
            .output (outb (portNo + 7) 0xec) <|
              (delayProgram (portNo + 6) 4).andThen fun _ =>
                (roundsProgram (dataRoundProgram (portNo + 7)) ataWait).andThen fun inTime =>
                  if inTime then
                    (inbProgram (portNo + 7)).andThen fun status =>
                      (statusWaitProgram (portNo + 7) ataWait status).andThen fun
                        | none => .ret none
                        | some status =>
                            if status = 0x00 ∨ status = 0x01 then .ret none
                            else if status &&& 0x08 ≠ 0 then .ret found
                            else .ret none
                  else .ret none
          else .ret none

/-- `check_disk`. `granted` says whether `heap_cream_malloc` returns memory, and `stale` is what
that memory holds. -/
def checkDiskProgram (granted : Bool) (stale : Disk) (ataVal : Nat) :
    DriverProgram (Option Disk) :=
  let portNo := if ataVal &&& 0x02 ≠ 0 then 0x170 else 0x1f0
  let drive := if ataVal &&& 0x01 ≠ 0 then 0xb0 else 0xa0
  outputs [outb (portNo + 0x206) 0x00, outb (portNo + 6) drive] <|
    probeProgram portNo
      (if granted then some { stale with ataCode := ataVal, type := diskTypeReal } else none)

/-- What `disk_search_and_init` does with the boot disk and with each disk that it finds: the buffer
and the disks of `motherlobe` after it. -/
def recordDiskProgram (d : Disk) (r : ByteMem × List Disk) :
    DriverProgram (ByteMem × List Disk) :=
  (getDiskInfoProgram (setDiskInfo d) 0xec r.1).andThen fun buf =>
    .ret (buf, r.2 ++ [{ setDiskInfo d with sectCount := sectCountOf buf, sectSize := 512 }])

/-- The `for` of `disk_search_and_init` over the codes of the other drives. -/
def searchDisksProgram (granted : Nat → Bool) (stale : Nat → Disk) :
    List Nat → ByteMem × List Disk → DriverProgram (ByteMem × List Disk)
  | [], r => .ret r
  | i :: codes, r =>
      (checkDiskProgram (granted i) (stale i) i).andThen fun
        | none => searchDisksProgram granted stale codes r
        | some val =>
            (recordDiskProgram val r).andThen fun r => searchDisksProgram granted stale codes r

/-- `disk_search_and_init`: the disks of `motherlobe`. -/
def diskSearchProgram (bootDrive : Nat) (granted : Nat → Bool) (stale : Nat → Disk)
    (buf : ByteMem) : DriverProgram (List Disk) :=
  (recordDiskProgram ⟨diskTypeReal, bootDrive, 0, 0, 0, 0, 0, false, 0, 0⟩ (buf, [])).andThen
    fun r =>
      (searchDisksProgram granted stale [0x81, 0x82, 0x83] r).andThen fun r => .ret r.2

/-! ## Replays -/

/-- Replayed where a state of the search is, a program returns `a` and goes on to the next state. -/
def Follows {α : Type} (ports : PortReads) (p : DriverProgram α) (s s' : SearchState) (a : α) :
    Prop :=
  ∃ outs, replay ports p s.next = (a, s'.next, outs) ∧ s'.outs = s.outs ++ outs

section

variable {ports : PortReads} {α β : Type} {s s' s'' : SearchState}

theorem follows_ret (s : SearchState) (a : α) : Follows ports (.ret a) s s a :=
  ⟨[], rfl, (List.append_nil _).symm⟩

theorem Follows.and_then {p : DriverProgram α} {f : α → DriverProgram β} {a : α} {b : β}
    (hp : Follows ports p s s' a) (hf : Follows ports (f a) s' s'' b) :
    Follows ports (p.andThen f) s s'' b := by
  obtain ⟨outs, hrun, houts⟩ := hp
  obtain ⟨outs', hrun', houts'⟩ := hf
  refine ⟨outs ++ outs', ?_, by rw [houts', houts, List.append_assoc]⟩
  rw [replay_and_then, hrun]
  simp only
  rw [hrun']

/-- A program that only reads. -/
theorem follows_inputs {p : DriverProgram α} {a : α} {n : Nat}
    (hp : replay ports p s.next = (a, n, [])) : Follows ports p s { s with next := n } a :=
  ⟨[], hp, (List.append_nil _).symm⟩

theorem Follows.outputs {p : DriverProgram α} {os : List PortWrite} {a : α}
    (hp : Follows ports p { s with outs := s.outs ++ os } s' a) :
    Follows ports (PortProgram.outputs os p) s s' a := by
  obtain ⟨outs, hrun, houts⟩ := hp
  refine ⟨os ++ outs, ?_, by rw [houts, List.append_assoc]⟩
  rw [replay_outputs, hrun]

theorem Follows.output {p : DriverProgram α} {o : PortWrite} {a : α}
    (hp : Follows ports p { s with outs := s.outs ++ [o] } s' a) :
    Follows ports (.output o p) s s' a :=
  hp.outputs

theorem delay_replay (port r n : Nat) :
    replay ports (delayProgram port r) n = ((), n + r, []) := by
  induction r generalizing n with
  | zero => rfl
  | succ r ih =>
      rw [delayProgram, inbProgram, andThen, replay]
      show replay ports (delayProgram port r) (n + 1) = _
      rw [ih, show n + 1 + r = n + (r + 1) by omega]

theorem rounds_replay {program : DriverProgram Bool} {round : Nat → Bool × Nat}
    (h : ∀ n, replay ports program n = ((round n).1, (round n).2, [])) (k : Nat) : ∀ n,
    replay ports (roundsProgram program k) n =
      ((statusLoop round k n).1, (statusLoop round k n).2, []) := by
  induction k with
  | zero => exact h
  | succ k ih =>
      intro n
      rw [roundsProgram, replay_and_then, h, statusLoop]
      by_cases hdone : (round n).1 = true
      · rw [if_pos hdone, hdone]
        rfl
      · rw [if_neg hdone, eq_false_of_ne_true hdone]
        simp only [Bool.false_eq_true, if_false]
        rw [ih]
        rfl

/-- A poll is a loop whose rounds read one input. -/
theorem poll_rounds (port : Nat) (ready : Nat → Bool) (k : Nat) :
    pollProgram port ready k =
      roundsProgram ((inbProgram port).andThen fun status => .ret (ready status)) k := by
  induction k with
  | zero => rfl
  | succ k ih =>
      rw [pollProgram, roundsProgram, ih]
      rfl

theorem not_busy_replay (port k n : Nat) :
    replay ports (pollProgram port notBusy k) n =
      ((statusLoop (notBusyRound ports) k n).1, (statusLoop (notBusyRound ports) k n).2, []) := by
  rw [poll_rounds]
  exact rounds_replay (fun _ => rfl) k n

theorem data_replay (port k n : Nat) :
    replay ports (roundsProgram (dataRoundProgram port) k) n =
      ((statusLoop (dataRound ports) k n).1, (statusLoop (dataRound ports) k n).2, []) := by
  refine rounds_replay (fun n => ?_) k n
  rw [dataRoundProgram, inbProgram, andThen, replay, andThen, dataRound]
  by_cases hready : notBusy (inb ports n) = true
  · rw [if_pos hready, if_pos (show notBusy (ports n % 256) = true from hready)]
    rfl
  · rw [if_neg hready, if_neg (show ¬ notBusy (ports n % 256) = true from hready)]
    rfl

theorem status_wait_replay (port k : Nat) : ∀ status n,
    replay ports (statusWaitProgram port k status) n =
      ((statusWait ports k status n).1, (statusWait ports k status n).2, []) := by
  induction k with
  | zero =>
      intro status n
      rw [statusWaitProgram, statusWait]
      split_ifs <;> rfl
  | succ k ih =>
      intro status n
      rw [statusWaitProgram, statusWait]
      split_ifs
      · rfl
      · exact ih _ (n + 1)

theorem get_disk_info_replay (ports : PortReads) (d : Disk) (command : Nat) (s : SearchState) :
    Follows ports (getDiskInfoProgram d command s.buf) s (getDiskInfo ports d command s)
      (getDiskInfo ports d command s).buf := by
  rw [getDiskInfoProgram, transferProgram]
  refine .outputs ((follows_inputs (delay_replay _ _ _)).and_then
    ((follows_inputs (not_busy_replay _ _ _)).and_then ?_))
  simp only [getDiskInfo]
  rcases statusLoop (notBusyRound ports) (ataWait - 1) (s.next + 4) with ⟨_ | _, n⟩
  · exact follows_ret _ _
  · simp only [if_true]
    refine .output ((follows_inputs (data_replay _ _ _)).and_then ?_)
    simp only
    rcases statusLoop (dataRound ports) (ataWait - 1) n with ⟨_ | _, n'⟩
    · exact follows_ret _ _
    · simp only [if_true]
      exact ⟨[], read_words_replay _ _ _ _ _ _, (List.append_nil _).symm⟩

theorem check_disk_replay (ports : PortReads) (granted : Bool) (stale : Disk) (ataVal : Nat)
    (s : SearchState) : Follows ports (checkDiskProgram granted stale ataVal) s
      (checkDisk ports granted stale ataVal s).2 (checkDisk ports granted stale ataVal s).1 := by
  simp only [checkDiskProgram, probeProgram, checkDisk]
  generalize (if ataVal &&& 0x02 ≠ 0 then 0x170 else 0x1f0) = portNo
  generalize (if ataVal &&& 0x01 ≠ 0 then 0xb0 else 0xa0) = drive
  refine .outputs ((follows_inputs (delay_replay _ _ _)).and_then ?_)
  refine (follows_inputs (n := s.next + 5) (a := inb ports (s.next + 4)) rfl).and_then ?_
  by_cases hstat : inb ports (s.next + 4) = 0xff ∨ inb ports (s.next + 4) = 0x00
  · rw [if_pos hstat, if_pos hstat]
    exact follows_ret _ _
  rw [if_neg hstat, if_neg hstat]
  refine (follows_inputs (not_busy_replay _ _ _)).and_then ?_
  simp only
  rcases statusLoop (notBusyRound ports) ataWait (s.next + 5) with ⟨_ | _, n⟩
  · exact follows_ret _ _
  simp only [if_true]
  refine .output ((follows_inputs (delay_replay _ _ _)).and_then
    ((follows_inputs (data_replay _ _ _)).and_then ?_))
  simp only
  rcases statusLoop (dataRound ports) ataWait (n + 4) with ⟨_ | _, n'⟩
  · exact follows_ret _ _
  simp only [if_true]
  refine (follows_inputs (n := n' + 1) (a := inb ports n') rfl).and_then
    ((follows_inputs (status_wait_replay _ _ _ _)).and_then ?_)
  simp only
  rcases statusWait ports ataWait (inb ports n') (n' + 1) with ⟨_ | status, n''⟩
  · exact follows_ret _ _
  simp only
  split_ifs <;> exact follows_ret _ _

theorem record_disk_replay (ports : PortReads) (d : Disk) (r : SearchState × List RecordedDisk) :
    Follows ports (recordDiskProgram d (r.1.buf, r.2.map RecordedDisk.disk)) r.1
      (recordDisk ports d r).1
      ((recordDisk ports d r).1.buf, (recordDisk ports d r).2.map RecordedDisk.disk) := by
  refine (get_disk_info_replay ports (setDiskInfo d) 0xec r.1).and_then ?_
  simp only [recordDisk, List.map_append, List.map_cons, List.map_nil]
  exact follows_ret _ _

theorem search_disks_replay (ports : PortReads) (granted : Nat → Bool) (stale : Nat → Disk)
    (codes : List Nat) : ∀ r : SearchState × List RecordedDisk,
    Follows ports (searchDisksProgram granted stale codes (r.1.buf, r.2.map RecordedDisk.disk)) r.1
      (searchDisks ports granted stale codes r).1
      ((searchDisks ports granted stale codes r).1.buf,
        (searchDisks ports granted stale codes r).2.map RecordedDisk.disk) := by
  induction codes with
  | nil => exact fun r => follows_ret _ _
  | cons i codes ih =>
      intro r
      have hcheck := check_disk_replay ports (granted i) (stale i) i r.1
      have hbuf := (check_disk_spec ports (granted i) (stale i) i r.1).2.1
      rw [searchDisksProgram, searchDisks]
      rw [← hbuf]
      refine hcheck.and_then ?_
      rcases checkDisk ports (granted i) (stale i) i r.1 with ⟨_ | val, s⟩
      · exact ih (s, r.2)
      · exact (record_disk_replay ports val (s, r.2)).and_then (ih (recordDisk ports val (s, r.2)))

/-- On a sequence of port inputs the program is `diskSearchAndInit`. -/
theorem disk_search_replay (ports : PortReads) (bootDrive : Nat) (granted : Nat → Bool)
    (stale : Nat → Disk) (buf : ByteMem) :
    (replay ports (diskSearchProgram bootDrive granted stale buf) 0).1 =
      (diskSearchAndInit ports bootDrive granted stale buf).map RecordedDisk.disk := by
  have hboot := record_disk_replay ports ⟨diskTypeReal, bootDrive, 0, 0, 0, 0, 0, false, 0, 0⟩
    (⟨0, [], buf, none⟩, [])
  have hsearch := search_disks_replay ports granted stale [0x81, 0x82, 0x83]
    (recordDisk ports ⟨diskTypeReal, bootDrive, 0, 0, 0, 0, 0, false, 0, 0⟩
      (⟨0, [], buf, none⟩, []))
  have hprogram : Follows ports (diskSearchProgram bootDrive granted stale buf) ⟨0, [], buf, none⟩ _
      ((diskSearchAndInit ports bootDrive granted stale buf).map RecordedDisk.disk) :=
    hboot.and_then (hsearch.and_then (follows_ret _ _))
  obtain ⟨outs, hrun, _⟩ := hprogram
  exact congrArg Prod.fst hrun

end

/-! ## Ports -/

section

variable {base : Nat}

theorem uses_rounds {round : DriverProgram Bool} (h : UsesPorts base round) (k : Nat) :
    UsesPorts base (roundsProgram round k) := by
  induction k with
  | zero => exact h
  | succ k ih =>
      refine h.and_then fun done => ?_
      split_ifs
      · trivial
      · exact ih

theorem uses_data_round (hbase : base + 7 < 65536) :
    UsesPorts base (dataRoundProgram (base + 7)) := by
  refine (uses_inb hbase).and_then fun status => ?_
  split_ifs
  · exact (uses_inb hbase).and_then fun _ => trivial
  · trivial

theorem uses_delay (hbase : base + 7 < 65536) (r : Nat) :
    UsesPorts base (delayProgram (base + 6) r) := by
  induction r with
  | zero => trivial
  | succ r ih =>
      refine ⟨?_, fun _ => ih⟩
      show base ≤ (base + 6) % 65536 ∧ (base + 6) % 65536 < base + 8
      omega

theorem uses_status_wait (hbase : base + 7 < 65536) (k : Nat) : ∀ status,
    UsesPorts base (statusWaitProgram (base + 7) k status) := by
  induction k with
  | zero =>
      intro status
      rw [statusWaitProgram]
      split_ifs
      · trivial
      · exact (uses_inb hbase).and_then fun _ => trivial
  | succ k ih =>
      intro status
      rw [statusWaitProgram]
      split_ifs
      · trivial
      · exact (uses_inb hbase).and_then ih

theorem uses_transfer (hbase : base + 7 < 65536) (buf : ByteMem) :
    UsesPorts base (transferProgram base (base + 7) 0xec buf) := by
  refine (uses_delay hbase 4).and_then fun _ => (uses_poll hbase _).and_then fun inTime => ?_
  split_ifs
  · refine ⟨uses_outb hbase (by decide) _, (uses_rounds (uses_data_round hbase) _).and_then
      fun inTime => ?_⟩
    split_ifs
    · exact uses_read_words hbase 0 256 0 buf
    · trivial
  · trivial

theorem uses_probe (hbase : base + 7 < 65536) (found : Option Disk) :
    UsesPorts base (probeProgram base found) := by
  refine (uses_delay hbase 4).and_then fun _ => (uses_inb hbase).and_then fun stat => ?_
  split_ifs
  · trivial
  refine (uses_poll hbase ataWait).and_then fun inTime => ?_
  split_ifs
  · refine ⟨uses_outb hbase (by decide) _, (uses_delay hbase 4).and_then fun _ => ?_⟩
    refine (uses_rounds (uses_data_round hbase) ataWait).and_then fun inTime => ?_
    split_ifs
    · refine (uses_inb hbase).and_then fun status =>
        (uses_status_wait hbase ataWait status).and_then fun ended => ?_
      cases ended with
      | none => trivial
      | some status =>
          simp only
          split_ifs <;> trivial
    · trivial
  · trivial

end

namespace Ata

variable {base : Nat} {c : Channel} {dr : Drive}

/-! ## One drive -/

/-- The delay reads a register that nothing changes. -/
theorem run_delay (hbase : base + 7 < 65536) (c : Channel) (r : Nat) :
    run (Channel.device base) (delayProgram (base + 6) r) c = ((), c) := by
  have hanswer : ((Channel.device base).answer c (.byte ((base + 6) % 65536))).2 = c := by
    simp only [Channel.device]
    rw [Nat.mod_eq_of_lt (by omega), if_pos ⟨by omega, by omega⟩, Nat.add_sub_cancel_left]
    cases c.current <;> rfl
  induction r with
  | zero => rfl
  | succ r ih =>
      rw [delayProgram, inbProgram, andThen, run_input, hanswer]
      exact ih

/-- The status of a drive that is not busy is read without any effect. -/
theorem run_status_ready {α : Type} (hbase : base + 7 < 65536) (c : Channel)
    (hbusy : dr.phase.isBusy = false) (f : Nat → DriverProgram α) :
    run (Channel.device base) ((inbProgram (base + 7)).andThen f) (c.setCurrent dr) =
      run (Channel.device base) (f dr.phase.status) (c.setCurrent dr) := by
  rw [run_status hbase, Phase.tick_of_not_busy hbusy]

/-- A round sees whether a drive that is not busy asks for data. -/
theorem run_data_round (hbase : base + 7 < 65536) (c : Channel) (dr : Drive)
    (hbusy : dr.phase.isBusy = false) :
    run (Channel.device base) (dataRoundProgram (base + 7)) (c.setCurrent dr) =
      (decide (dr.phase.status &&& 0x08 ≠ 0), c.setCurrent dr) := by
  rw [dataRoundProgram, run_status_ready hbase c hbusy, if_pos (Phase.not_busy_status hbusy),
    run_status_ready hbase c hbusy, run_ret]

/-- A round lets a busy drive get on. -/
theorem run_data_round_busy (hbase : base + 7 < 65536) (c : Channel) (dr : Drive)
    (hbusy : dr.phase.isBusy = true) :
    run (Channel.device base) (dataRoundProgram (base + 7)) (c.setCurrent dr) =
      (false, c.setCurrent { dr with phase := dr.phase.tick }) := by
  have hnot : ¬ notBusy dr.phase.status = true := by
    rw [(Phase.busy_not_ready hbusy).1]
    exact Bool.false_ne_true
  rw [dataRoundProgram, run_status hbase, if_neg hnot, run_ret]

/-- The rounds end in time with a drive that comes to send a sector in time. -/
theorem run_data_rounds (hbase : base + 7 < 65536) (c : Channel) {image : ByteMem}
    {sector left : Nat} : ∀ (k : Nat) (dr : Drive), dr.phase.wait ≤ k →
      dr.phase.settled = .sending image sector 0 left none →
      run (Channel.device base) (roundsProgram (dataRoundProgram (base + 7)) k) (c.setCurrent dr) =
        (true, c.setCurrent { dr with phase := .sending image sector 0 left none }) := by
  have hready : ∀ dr : Drive, dr.phase.isBusy = false →
      dr.phase.settled = .sending image sector 0 left none →
      run (Channel.device base) (dataRoundProgram (base + 7)) (c.setCurrent dr) =
        (true, c.setCurrent { dr with phase := .sending image sector 0 left none }) := by
    intro dr hbusy hsettled
    have hphase := (Phase.settled_of_not_busy hbusy).symm.trans hsettled
    have hstatus : decide (dr.phase.status &&& 0x08 ≠ 0) = true := by
      rw [hphase, Phase.status, faultBits]
      decide
    rw [run_data_round hbase c dr hbusy, hstatus, ← hphase]
  intro k
  induction k with
  | zero =>
      intro dr hwait hsettled
      refine hready dr ?_ hsettled
      by_contra hbusy
      have htick := Phase.wait_tick (Bool.eq_true_of_not_eq_false hbusy)
      omega
  | succ k ih =>
      intro dr hwait hsettled
      rw [roundsProgram, run_and_then]
      cases hbusy : dr.phase.isBusy with
      | false =>
          rw [hready dr hbusy hsettled]
          rfl
      | true =>
          have htick := Phase.wait_tick hbusy
          rw [run_data_round_busy hbase c dr hbusy]
          simp only [Bool.false_eq_true, if_false]
          exact ih { dr with phase := dr.phase.tick } (by simp only; omega)
            ((Phase.settled_tick _).trans hsettled)

/-- The drive is ready sooner than the impatient loops of `get_disk_info` give up. -/
def Drive.Swift (dr : Drive) : Prop := ∀ n, (dr.periods n).noise.length < ataWait

/-- The drive takes a command, and it will execute it swiftly and without a failure. -/
structure Drive.Ready (dr : Drive) : Prop where
  idle : dr.phase.isBusy = false
  swift : dr.Swift
  sound : dr.Sound

/-- A drive that has been asked for its IDENTIFY data. -/
def Drive.asked (dr : Drive) : Drive := dr.pause (Drive.offer dr.identity 0 0)

theorem Drive.Ready.asked_sends (h : dr.Ready) :
    dr.asked.phase.settled = .sending dr.identity 0 0 0 none ∧
      dr.asked.phase.wait ≤ ataWait - 1 := by
  have hnoise := h.swift 0
  have hoffer : Drive.offer dr.identity 0 0 (dr.periods 0).failure =
      .sending dr.identity 0 0 0 none := by
    rw [h.sound 0]
    rfl
  rw [asked, pause, hoffer, Phase.settled_busy_for, Phase.wait_busy_for]
  exact ⟨rfl, by rw [Phase.wait_of_not_busy rfl]; omega⟩

/-- The drive is ready again when the transfer is over, or is begun anew. -/
theorem Drive.Ready.asked (h : dr.Ready) {p : Phase} (hbusy : p.isBusy = false) :
    ({ dr.asked with phase := p } : Drive).Ready where
  idle := hbusy
  swift n := h.swift (n + 1)
  sound n := h.sound (n + 1)

/-- IDENTIFY DEVICE to a drive that is not busy. -/
theorem take_identify (hbase : base + 7 < 65536) (c : Channel) (hbusy : dr.phase.isBusy = false) :
    (Channel.device base).take (c.setCurrent dr) (outb (base + 7) 0xec) =
      c.setCurrent dr.asked := by
  rw [take_register hbase _ (by decide), Channel.write_command
    ((Channel.is_busy_set_current c dr).trans hbusy) (Channel.current_set_current c dr),
    Channel.set_current_set_current, Drive.command, if_neg fun h => absurd h.1 (by decide),
    if_neg fun h => absurd h.1 (by decide), if_pos (by decide)]
  rfl

/-- A poll of a drive that is not busy ends at once. -/
theorem run_poll_ready (hbase : base + 7 < 65536) (c : Channel) (hbusy : dr.phase.isBusy = false)
    (k : Nat) : run (Channel.device base) (pollProgram (base + 7) notBusy k) (c.setCurrent dr) =
      (true, c.setCurrent dr) := by
  obtain ⟨b, p, hrun, _, _, hready⟩ :=
    run_poll hbase (fun p hp => (Phase.busy_not_ready hp).1) c k dr
  have hwait := Phase.wait_of_not_busy hbusy
  obtain ⟨rfl, rfl⟩ := hready (by omega)
  rw [hrun, Phase.settled_of_not_busy hbusy, Phase.not_busy_status hbusy]

/-- `get_disk_info` behind the choice of the drive. -/
theorem run_transfer (hbase : base + 7 < 65536) (c : Channel) (hready : dr.Ready)
    (buf : ByteMem) :
    run (Channel.device base) (transferProgram base (base + 7) 0xec buf) (c.setCurrent dr) =
      (buf.copy 0 dr.identity 0 512, c.setCurrent { dr.asked with phase := .idle none }) := by
  obtain ⟨hsettled, hwait⟩ := hready.asked_sends
  have hbusy := hready.idle
  rw [transferProgram, run_and_then, run_delay hbase]
  simp only
  rw [run_and_then, run_poll_ready hbase c hbusy]
  simp only [if_true]
  rw [run_output, take_identify hbase c hbusy, run_and_then,
    run_data_rounds hbase c (ataWait - 1) dr.asked hwait hsettled]
  simp only [if_true]
  exact run_read_words hbase c dr.identity 0 0 0 none 255 0 _ buf rfl rfl

/-! ## Whether a drive is there -/

theorem Phase.status_live {p : Phase} (h : p.isBusy = false) :
    p.status ≠ 0xff ∧ p.status ≠ 0x00 := by
  have hfault : ∀ fault, (0x40 ||| faultBits fault ≠ 0xff ∧ 0x40 ||| faultBits fault ≠ 0x00) ∧
      0x48 ||| faultBits fault ≠ 0xff ∧ 0x48 ||| faultBits fault ≠ 0x00 := by
    intro fault
    rcases fault with _ | _ | _ <;> decide
  cases p with
  | busy _ _ _ => cases h
  | idle fault => exact (hfault fault).1
  | sending _ _ _ _ fault => exact (hfault fault).2
  | receiving _ _ _ _ fault => exact (hfault fault).2

theorem status_wait_ready {port k status : Nat} (h : status &&& 0x08 ≠ 0) :
    statusWaitProgram port k status = .ret (some status) := by
  cases k <;> rw [statusWaitProgram, if_pos h]

/-- A drive that is there is found, and it is left about to send its IDENTIFY data. -/
theorem run_probe (hbase : base + 7 < 65536) (c : Channel) (hready : dr.Ready)
    (found : Option Disk) :
    run (Channel.device base) (probeProgram base found) (c.setCurrent dr) =
      (found, c.setCurrent { dr.asked with phase := .sending dr.identity 0 0 0 none }) := by
  obtain ⟨hsettled, hwait⟩ := hready.asked_sends
  have hbusy := hready.idle
  obtain ⟨hone, hzero⟩ := Phase.status_live hbusy
  rw [probeProgram, run_and_then, run_delay hbase]
  simp only
  rw [run_status_ready hbase c hbusy, if_neg (not_or_intro hone hzero), run_and_then,
    run_poll_ready hbase c hbusy]
  simp only [if_true]
  rw [run_output, take_identify hbase c hbusy, run_and_then, run_delay hbase]
  simp only
  rw [run_and_then, run_data_rounds hbase c ataWait dr.asked (by omega) hsettled]
  simp only [if_true]
  have hstatus : (Phase.sending dr.identity 0 0 0 none).status = 0x48 := rfl
  rw [run_status_ready hbase c rfl, status_wait_ready (by simp [hstatus])]
  simp [andThen, hstatus]

/-- No drive is found where there is none. -/
theorem run_probe_absent (hbase : base + 7 < 65536) {c : Channel} (h : c.current = none)
    (found : Option Disk) :
    run (Channel.device base) (probeProgram base found) c = (none, c) := by
  have hanswer : (Channel.device base).answer c (.byte ((base + 7) % 65536)) = (c.absent, c) := by
    simp only [Channel.device]
    rw [Nat.mod_eq_of_lt hbase, if_pos ⟨by omega, by omega⟩, Nat.add_sub_cancel_left]
    simp [Channel.read, h]
  have habsent : c.absent % 256 = 0xff ∨ c.absent % 256 = 0x00 := by
    rw [Channel.absent]
    split_ifs
    · exact Or.inr rfl
    · exact Or.inl rfl
  rw [probeProgram, run_and_then, run_delay hbase]
  simp only
  rw [inbProgram, andThen, run_input, hanswer, andThen, if_pos habsent]
  rfl

/-! ## The machine -/

/-- The drive that a code stands for. -/
def diskOf (code : Nat) : DiskId := ⟨code &&& 0x02 = 0, code &&& 0x01 = 0⟩

/-- What the head register holds when a drive is chosen for IDENTIFY DEVICE. -/
def driveHead (master : Bool) : Nat := if master then 0xa0 else 0xb0

/-- The machine is between two calls, and its drives are swift and do not fail. -/
def Machine.Ready (m : Machine) : Prop := ∀ id dr, m.drive id = some dr → dr.Ready

/-- The sectors and the IDENTIFY data of a drive. -/
def Drive.contents (dr : Drive) : ByteMem × ByteMem := (dr.image, dr.identity)

/-- A machine that is ready once more, with the contents that its drives had. -/
structure Machine.Kept (m m' : Machine) : Prop where
  ready : m'.Ready
  contents : ∀ id, (m'.drive id).map Drive.contents = (m.drive id).map Drive.contents

variable {m m' m'' : Machine} {id : DiskId}

theorem Machine.Kept.trans (h : m.Kept m') (h' : m'.Kept m'') : m.Kept m'' :=
  ⟨h'.ready, fun id => (h'.contents id).trans (h.contents id)⟩

theorem Machine.Kept.present (h : m.Kept m') (id : DiskId) :
    (m'.drive id).isSome = (m.drive id).isSome := by
  have hsome := congrArg Option.isSome (h.contents id)
  rwa [Option.isSome_map, Option.isSome_map] at hsome

/-- A channel on which only the drive of one disk has gone on. -/
theorem Machine.Ready.kept (hready : m.Ready) {c' : Channel}
    (hother : c'.drive (!id.master) = (m id.primary).drive (!id.master))
    (hdrive : ∀ dr, c'.drive id.master = some dr → dr.Ready)
    (hcontents : (c'.drive id.master).map Drive.contents = (m.drive id).map Drive.contents) :
    m.Kept (Function.update m id.primary c') where
  ready id' dr hdr := by
    rw [Machine.drive_update hother] at hdr
    split_ifs at hdr
    · exact hdrive dr hdr
    · exact hready id' dr hdr
  contents id' := by
    rw [Machine.drive_update hother]
    split_ifs with hid
    · rw [hid, hcontents]
    · rfl

theorem Machine.Ready.quiet (hready : m.Ready) (primary : Bool) : (m primary).Quiet :=
  fun master dr hdr => (hready ⟨primary, master⟩ dr hdr).idle

/-- The channel after the choice of a drive. -/
def Channel.choose (c : Channel) (master : Bool) : Channel := { c with head := driveHead master }

theorem Channel.choose_selected (c : Channel) (master : Bool) :
    (c.choose master).selected = master := by
  show decide (driveHead master &&& 0x10 = 0) = master
  cases master <;> decide

theorem Channel.choose_current (m : Machine) (id : DiskId) :
    ((m id.primary).choose id.master).current = m.drive id := by
  rw [Channel.current, choose_selected]
  rfl

/-- Nothing answers at the port of the device control register. -/
theorem take_control (m : Machine) (primary : Bool) :
    Machine.device.take m (outb (ataBase primary + 0x206) 0x00) = m := by
  cases primary <;> rfl

/-- A program behind the choice of a drive runs on the channel of the drive. -/
theorem run_chosen {α : Type} {rest : DriverProgram α} (hready : m.Ready) (id : DiskId)
    (huses : UsesPorts (ataBase id.primary) rest) :
    run Machine.device (outputs [outb (ataBase id.primary + 0x206) 0x00,
        outb (ataBase id.primary + 6) (driveHead id.master)] rest) m =
      ((run (Channel.device (ataBase id.primary)) rest ((m id.primary).choose id.master)).1,
        Function.update m id.primary (run (Channel.device (ataBase id.primary)) rest
          ((m id.primary).choose id.master)).2) := by
  have hbase := ata_base_lt id.primary
  have hbyte : driveHead id.master % 256 = driveHead id.master := by
    cases id.master <;> rfl
  have hhead : (Channel.device (ataBase id.primary)).take (m id.primary)
      (outb (ataBase id.primary + 6) (driveHead id.master)) =
        (m id.primary).choose id.master := by
    rw [take_register hbase _ (by decide), Channel.write_head (hready.quiet _).not_busy, hbyte]
    rfl
  have hrun := (Machine.part id.primary).run_eq
    (p := .output (outb (ataBase id.primary + 6) (driveHead id.master)) rest)
    ⟨uses_outb hbase (by decide) _, huses⟩ m
  rw [run_output, run_output, hhead] at hrun
  rw [run_outputs, List.foldl_cons, take_control]
  exact hrun

/-- What a program does to the drive that it has chosen, and nothing to the other ones. -/
theorem run_chosen_drive {α : Type} {rest : DriverProgram α} {a : α} {dr dr' : Drive}
    (hready : m.Ready) (hdrive : m.drive id = some dr)
    (huses : UsesPorts (ataBase id.primary) rest)
    (hrun : ∀ c : Channel, run (Channel.device (ataBase id.primary)) rest (c.setCurrent dr) =
      (a, c.setCurrent dr'))
    (hready' : dr'.Ready) (hcontents : dr'.contents = dr.contents) : ∃ m',
    run Machine.device (outputs [outb (ataBase id.primary + 0x206) 0x00,
        outb (ataBase id.primary + 6) (driveHead id.master)] rest) m = (a, m') ∧ m.Kept m' := by
  have hcurrent := Channel.set_current_self ((Channel.choose_current m id).trans hdrive)
  have hchosen := hrun ((m id.primary).choose id.master)
  rw [hcurrent] at hchosen
  have hdrives : ∀ master, (((m id.primary).choose id.master).setCurrent dr').drive master =
      if master = id.master then some dr' else (m id.primary).drive master := by
    intro master
    show Function.update (m id.primary).drive ((m id.primary).choose id.master).selected
      (some dr') master = _
    rw [Function.update_apply, Channel.choose_selected]
  rw [run_chosen hready id huses, hchosen]
  refine ⟨_, rfl, hready.kept ?_ (fun dr₁ hdr => ?_) ?_⟩
  · rw [hdrives, if_neg (by cases id.master <;> decide)]
  · rw [hdrives, if_pos rfl] at hdr
    exact Option.some.inj hdr ▸ hready'
  · rw [hdrives, if_pos rfl, hdrive, Option.map_some, Option.map_some, hcontents]

theorem set_disk_info_drive (d : Disk) :
    (setDiskInfo d).baseDataPort = ataBase (diskOf d.ataCode).primary ∧
      (setDiskInfo d).driveHead = driveHead (diskOf d.ataCode).master := by
  simp [setDiskInfo, diskOf, ataBase, driveHead]

/-- `get_disk_info` fills the buffer from the drive of its disk. -/
theorem run_get_disk_info (hready : m.Ready) {d : Disk} {dr : Drive}
    (hdrive : m.drive (diskOf d.ataCode) = some dr) (buf : ByteMem) : ∃ m',
    run Machine.device (getDiskInfoProgram (setDiskInfo d) 0xec buf) m =
      (buf.copy 0 dr.identity 0 512, m') ∧ m.Kept m' := by
  have hbase := ata_base_lt (diskOf d.ataCode).primary
  have hdr := hready _ dr hdrive
  obtain ⟨hport, hhead⟩ := set_disk_info_drive d
  obtain ⟨m', hrun, hkept⟩ := run_chosen_drive hready hdrive (uses_transfer hbase buf)
    (fun c => run_transfer hbase c hdr buf) (hdr.asked (p := .idle none) rfl) rfl
  refine ⟨m', ?_, hkept⟩
  rw [← hrun, ← hport, ← hhead]
  rfl

/-- `check_disk` finds the drives that are there, if there is memory for them. -/
theorem run_check_disk (hready : m.Ready) (granted : Bool) (stale : Disk) (code : Nat) : ∃ m',
    run Machine.device (checkDiskProgram granted stale code) m =
      (if granted ∧ (m.drive (diskOf code)).isSome then
          some { stale with ataCode := code, type := diskTypeReal } else none, m') ∧ m.Kept m' := by
  have hbase := ata_base_lt (diskOf code).primary
  have hport : (if code &&& 0x02 ≠ 0 then 0x170 else 0x1f0) = ataBase (diskOf code).primary := by
    rw [ite_not]
    simp [diskOf, ataBase]
  have hhead : (if code &&& 0x01 ≠ 0 then 0xb0 else 0xa0) = driveHead (diskOf code).master := by
    rw [ite_not]
    simp [diskOf, driveHead]
  have huses := uses_probe hbase
  simp only [checkDiskProgram, hport, hhead]
  cases hdrive : m.drive (diskOf code) with
  | some dr =>
      have hdr := hready _ dr hdrive
      simp only [Option.isSome_some, and_true]
      exact run_chosen_drive hready hdrive (huses _) (fun c => run_probe hbase c hdr _)
        (hdr.asked (p := .sending dr.identity 0 0 0 none) rfl) rfl
  | none =>
      have habsent := run_probe_absent hbase ((Channel.choose_current m _).trans hdrive)
      rw [run_chosen hready _ (huses _), habsent]
      simp only [Option.isSome_none, Bool.false_eq_true, and_false, if_false]
      exact ⟨_, rfl, hready.kept rfl (fun dr hdr => hready _ dr hdr) rfl⟩

/-! ## The search -/

/-- The `struct disk` of a drive of `size` sectors. -/
def foundDisk (code size : Nat) : Disk :=
  { setDiskInfo ⟨diskTypeReal, code, 0, 0, 0, 0, 0, false, 0, 0⟩ with
    sectCount := size
    sectSize := 512 }

/-- The `struct disk` of the drive that a code stands for. -/
def Machine.found (m : Machine) (code : Nat) : Disk :=
  foundDisk code ((m.drive (diskOf code)).elim 0 Drive.size)

theorem Machine.Kept.found (h : m.Kept m') : m'.found = m.found := by
  funext code
  have hcontents := h.contents (diskOf code)
  rw [Machine.found, Machine.found]
  cases hdrive : m.drive (diskOf code) with
  | none =>
      rw [hdrive, Option.map_none, Option.map_eq_none_iff] at hcontents
      rw [hcontents]
  | some dr =>
      rw [hdrive, Option.map_some, Option.map_eq_some_iff] at hcontents
      obtain ⟨dr', hdrive', hsame⟩ := hcontents
      have hidentity : dr'.identity = dr.identity := congrArg Prod.snd hsame
      rw [hdrive', Option.elim_some, Option.elim_some, Drive.size, hidentity, Drive.size]

/-- The size in the IDENTIFY data is the size that the driver reads from its buffer. -/
theorem sect_count_identity (buf : ByteMem) (dr : Drive) :
    sectCountOf (buf.copy 0 dr.identity 0 512) = dr.size := by
  have hword : ∀ x, x + 2 ≤ 512 →
      (buf.copy 0 dr.identity 0 512).word16 x = dr.identity.word16 x := by
    intro x hx
    have hcopy : (buf.copy 0 dr.identity 0 512).word16 (0 + x) = dr.identity.word16 (0 + x) :=
      ByteMem.word16_copy hx
    rwa [Nat.zero_add] at hcopy
  have hlow := hword (2 * 60) (by omega)
  have hhigh := hword (2 * 61) (by omega)
  rw [sect_count_of_eq, hlow, hhigh, Drive.size, ByteMem.word32, Nat.mul_comm, Nat.add_comm]

/-- A disk whose drive is there is recorded with the size of the drive. -/
theorem run_record_disk (hready : m.Ready) {d : Disk} (htype : d.type = diskTypeReal)
    (hpresent : (m.drive (diskOf d.ataCode)).isSome) (r : ByteMem × List Disk) : ∃ buf m',
    run Machine.device (recordDiskProgram d r) m =
      ((buf, r.2 ++ [m.found d.ataCode]), m') ∧ m.Kept m' := by
  obtain ⟨dr, hdrive⟩ := Option.isSome_iff_exists.mp hpresent
  obtain ⟨m', hrun, hkept⟩ := run_get_disk_info hready hdrive r.1
  refine ⟨r.1.copy 0 dr.identity 0 512, m', ?_, hkept⟩
  rw [recordDiskProgram, run_and_then, hrun, run_ret, sect_count_identity, Machine.found, hdrive,
    foundDisk, ← htype]
  rfl

/-- The drives of the codes that are there are recorded in the order of the codes. -/
theorem run_search_disks (granted : Nat → Bool) (stale : Nat → Disk) (codes : List Nat) :
    ∀ (m : Machine) (r : ByteMem × List Disk), m.Ready → ∃ buf m',
      run Machine.device (searchDisksProgram granted stale codes r) m =
        ((buf, r.2 ++ (codes.filter fun i => granted i && (m.drive (diskOf i)).isSome).map
          m.found), m') ∧ m.Kept m' := by
  induction codes with
  | nil =>
      intro m r hready
      exact ⟨r.1, m, by rw [searchDisksProgram, run_ret, List.filter_nil, List.map_nil,
        List.append_nil], hready, fun _ => rfl⟩
  | cons i codes ih =>
      intro m r hready
      obtain ⟨m₁, hcheck, hkept₁⟩ := run_check_disk hready (granted i) (stale i) i
      rw [searchDisksProgram, run_and_then, hcheck, List.filter_cons]
      by_cases hfound : granted i ∧ (m.drive (diskOf i)).isSome
      · have hpresent := (hkept₁.present _).trans hfound.2
        obtain ⟨buf₂, m₂, hrecord, hkept₂⟩ := run_record_disk hkept₁.ready
          (d := { stale i with ataCode := i, type := diskTypeReal }) rfl hpresent r
        obtain ⟨buf₃, m₃, hsearch, hkept₃⟩ :=
          ih m₂ (buf₂, r.2 ++ [m₁.found i]) hkept₂.ready
        have hkept := hkept₁.trans hkept₂
        refine ⟨buf₃, m₃, ?_, hkept.trans hkept₃⟩
        rw [if_pos hfound, if_pos (by rw [hfound.1, hfound.2]; rfl), List.map_cons]
        simp only
        rw [run_and_then, hrecord, hsearch]
        simp only [hkept.present, hkept.found, hkept₁.found, List.append_assoc,
          List.singleton_append]
      · obtain ⟨buf₂, m₂, hsearch, hkept₂⟩ := ih m₁ r hkept₁.ready
        refine ⟨buf₂, m₂, ?_, hkept₁.trans hkept₂⟩
        rw [if_neg hfound, if_neg (by rwa [Bool.and_eq_true])]
        simp only
        rw [hsearch]
        simp only [hkept₁.present, hkept₁.found]

/-- On a machine that is ready and has its boot drive `disk_search_and_init` records the drives
that are there, each once and with its own size, and the drives keep their contents. -/
theorem disk_search_finds (hready : m.Ready) {bootDrive : Nat}
    (hboot : (m.drive (diskOf bootDrive)).isSome) (granted : Nat → Bool) (stale : Nat → Disk)
    (buf : ByteMem) : ∃ m',
    run Machine.device (diskSearchProgram bootDrive granted stale buf) m =
      ((bootDrive :: [0x81, 0x82, 0x83].filter fun i =>
        granted i && (m.drive (diskOf i)).isSome).map m.found, m') ∧ m.Kept m' := by
  obtain ⟨buf₁, m₁, hrecord, hkept₁⟩ := run_record_disk hready
    (d := ⟨diskTypeReal, bootDrive, 0, 0, 0, 0, 0, false, 0, 0⟩) rfl hboot (buf, [])
  obtain ⟨buf₂, m₂, hsearch, hkept₂⟩ := run_search_disks granted stale [0x81, 0x82, 0x83] m₁
    (buf₁, [] ++ [m.found bootDrive]) hkept₁.ready
  refine ⟨m₂, ?_, hkept₁.trans hkept₂⟩
  rw [diskSearchProgram, run_and_then, hrecord]
  simp only
  rw [run_and_then, hsearch, run_ret]
  simp only [hkept₁.present, hkept₁.found]
  rfl

/-- The two drives of a machine with a blank master on each channel are found. -/
theorem disk_search_finds_blank : ∃ m',
    run Machine.device (diskSearchProgram 0x80 (fun _ => true)
        (fun _ => ⟨0, 0, 0, 0, 0, 0, 0, false, 0, 0⟩) fun _ => 0x00) (fun _ => blankChannel) =
      ([foundDisk 0x80 16, foundDisk 0x82 16], m') ∧
    Machine.Kept (fun _ => blankChannel) m' :=
  disk_search_finds (m := fun _ => blankChannel) (fun _ _ h =>
    blank_channel_drive h ▸ ⟨rfl, fun _ => show 0 < ataWait by rw [ataWait]; decide,
      fun _ => rfl⟩) rfl _ _ _

end Ata

end Genesis32
