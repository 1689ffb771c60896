import Genesis32.Disk.Driver
import Genesis32.Library.PortProgram

/-!
# The ATA driver as a port program

`read_disk_block` and `write_disk_block` of `disk/disk.c` once more, now with the port of every
input, so that a device that reacts to the port writes can answer them. Replayed on a sequence of
port inputs the programs do what `readDiskBlock` and `writeDiskBlock` do with it, so what holds of
these for all sequences holds of the programs on every device: `driver_on_any_device`.
-/

namespace Genesis32

open Word PortProgram

/-- A port input: `inb` or `in16`. -/
inductive PortInput where
  | byte (port : Nat)
  | word (port : Nat)
  deriving DecidableEq, Repr

/-- The port of an input. -/
def PortInput.port : PortInput → Nat
  | .byte port => port
  | .word port => port

/-- A program that talks to the ports of the machine. -/
abbrev DriverProgram := PortProgram PortInput PortWrite Nat

/-- What a call of the driver returns to its caller: the return value, the number of sectors that
its loop moved, and the buffer. -/
structure BlockResult where
  code : Int
  moved : Nat
  buf : ByteMem

/-- `inb`. -/
def inbProgram (port : Nat) : DriverProgram Nat :=
  .input (.byte (port % 65536)) fun v => .ret (v % 256)

/-- `in16`. -/
def in16Program (port : Nat) : DriverProgram Nat :=
  .input (.word (port % 65536)) fun v => .ret (v % 65536)

/-- A polling loop with `k` rounds left before it gives up: whether it ends in time. -/
def pollProgram (port : Nat) (ready : Nat → Bool) : Nat → DriverProgram Bool
  | 0 => (inbProgram port).andThen fun status => .ret (ready status)
  | k + 1 =>
      (inbProgram port).andThen fun status =>
        if ready status then .ret true else pollProgram port ready k

/-- `(inb(base+7)&0x01) || (inb(base+7)&0x20)`. -/
def statusErrorProgram (base : Nat) : DriverProgram Bool :=
  (inbProgram (base + 7)).andThen fun status =>
    if status &&& 0x01 ≠ 0 then .ret true
    else (inbProgram (base + 7)).andThen fun status => .ret (status &&& 0x20 ≠ 0)

/-- The loop over the words of a sector in `read_disk_block`. -/
def readWordsProgram (base curStart : Nat) : Nat → Nat → ByteMem → DriverProgram ByteMem
  | 0, _, buf => .ret buf
  | r + 1, j, buf =>
      (in16Program base).andThen fun v =>
        readWordsProgram base curStart r (j + 1) (buf.setWord16 (curStart + 2 * j) v)

/-- The loop over the sectors in `read_disk_block`, with `r` sectors left. -/
def readSectorsProgram (base : Nat) : Nat → Nat → ByteMem → DriverProgram BlockResult
  | 0, i, buf => .ret ⟨0, i, buf⟩
  | r + 1, i, buf =>
      (pollProgram (base + 7) dataRequest ataWait).andThen fun inTime =>
        if inTime then
          (statusErrorProgram base).andThen fun failed =>
            if failed then .ret ⟨diskReadErr, i, buf⟩
            else
              (readWordsProgram base (512 * i) 256 0 buf).andThen fun buf =>
                readSectorsProgram base r (i + 1) buf
        else .ret ⟨-timeOut, i, buf⟩

/-- The loop over the sectors in `write_disk_block` and the last check, with `r` sectors left. -/
def writeSectorsProgram (base : Nat) (buf : ByteMem) : Nat → Nat → DriverProgram BlockResult
  | 0, i =>
      (pollProgram (base + 7) notBusy ataWait).andThen fun inTime =>
        if inTime then
          (statusErrorProgram base).andThen fun failed =>
            .ret ⟨if failed then diskWriteErr else 0, i, buf⟩
        else .ret ⟨-timeOut, i, buf⟩
  | r + 1, i =>
      (pollProgram (base + 7) dataRequest ataWait).andThen fun inTime =>
        if inTime then
          (statusErrorProgram base).andThen fun failed =>
            if failed then .ret ⟨diskWriteErr, i, buf⟩
            else
              outputs (writeWords base buf (512 * i) 256 0) (writeSectorsProgram base buf r (i + 1))
        else .ret ⟨-timeOut, i, buf⟩

/-- What both functions do up to the command byte, and then `rest`. A call that returns before has
moved nothing. -/
def startCommandProgram (d : DiskPorts) (lba total command : Nat) (buf : ByteMem)
    (rest : DriverProgram BlockResult) : DriverProgram BlockResult :=
  if add32 lba total > d.sectCount then .ret ⟨-gen32Invarg, 0, buf⟩
  else
    outputs (selectDrive d lba) <|
      (pollProgram (d.baseDataPort + 7) notBusy ataWait).andThen fun inTime =>
        if inTime then
          outputs (loadTaskFile d lba total) <|
            (pollProgram (d.baseDataPort + 7) notBusy ataWait).andThen fun inTime =>
              if inTime then .output (outb (d.baseDataPort + 7) command) rest
              else .ret ⟨-timeOut, 0, buf⟩
        else .ret ⟨-timeOut, 0, buf⟩

/-- `read_disk_block`. -/
def readDiskBlockProgram (d : DiskPorts) (lba total : Nat) (buf : ByteMem) :
    DriverProgram BlockResult :=
  startCommandProgram d lba total 0x20 buf <|
    (pollProgram (d.baseDataPort + 7) notBusy ataWait).andThen fun inTime =>
      if inTime then readSectorsProgram d.baseDataPort total 0 buf
      else .ret ⟨-timeOut, 0, buf⟩

/-- `write_disk_block`. -/
def writeDiskBlockProgram (d : DiskPorts) (lba total : Nat) (buf : ByteMem) :
    DriverProgram BlockResult :=
  startCommandProgram d lba total 0x30 buf <| writeSectorsProgram d.baseDataPort buf total 0

/-! ## Replays -/

/-- What a transfer returns to the caller. -/
def Transfer.result (t : Transfer) : BlockResult := ⟨t.code, t.moved, t.buf⟩

/-- Replayed from input `n` on, a program does what a transfer says that goes on after the port
writes `before`. -/
def Replays (ports : PortReads) (p : DriverProgram BlockResult) (n : Nat) (before : List PortWrite)
    (t : Transfer) : Prop :=
  ∃ n' outs, replay ports p n = (t.result, n', outs) ∧ t.outs = before ++ outs

variable {ports : PortReads} {d : DiskPorts} {n : Nat} {before : List PortWrite} {t : Transfer}

theorem replays_ret (n : Nat) (t : Transfer) : Replays ports (.ret t.result) n t.outs t :=
  ⟨n, [], rfl, (List.append_nil _).symm⟩

theorem Replays.and_then {α : Type} {q : DriverProgram α} {f : α → DriverProgram BlockResult}
    {a : α} {n' : Nat} (hq : replay ports q n = (a, n', []))
    (hf : Replays ports (f a) n' before t) : Replays ports (q.andThen f) n before t := by
  obtain ⟨n'', outs, hrun, houts⟩ := hf
  refine ⟨n'', outs, ?_, houts⟩
  rw [replay_and_then, hq]
  simp only
  rw [hrun]
  rfl

theorem Replays.outputs {p : DriverProgram BlockResult} {os : List PortWrite}
    (hp : Replays ports p n (before ++ os) t) :
    Replays ports (PortProgram.outputs os p) n before t := by
  obtain ⟨n', outs, hrun, houts⟩ := hp
  refine ⟨n', os ++ outs, ?_, by rw [houts, List.append_assoc]⟩
  rw [replay_outputs, hrun]

/-- A poll that ends in time. -/
theorem poll_replay {port : Nat} {ready : Nat → Bool} : ∀ {k n n' : Nat},
    pollStatus ports ready k n = some n' →
      replay ports (pollProgram port ready k) n = (true, n', []) := by
  intro k
  induction k with
  | zero =>
      intro n n' h
      rw [pollStatus] at h
      split_ifs at h with hready
      obtain rfl := Option.some.inj h
      show (ready (ports n % 256), n + 1, []) = _
      rw [show ready (ports n % 256) = true from hready]
  | succ k ih =>
      intro n n' h
      rw [pollStatus] at h
      rw [pollProgram, replay_and_then]
      simp only [inbProgram, replay]
      by_cases hready : ready (inb ports n) = true
      · rw [if_pos hready] at h
        obtain rfl := Option.some.inj h
        rw [if_pos (show ready (ports n % 256) = true from hready)]
        rfl
      · rw [if_neg hready] at h
        rw [if_neg (show ¬ ready (ports n % 256) = true from hready), ih h]
        rfl

/-- A poll that does not. -/
theorem poll_replay_none (port : Nat) {ready : Nat → Bool} : ∀ {k n : Nat},
    pollStatus ports ready k n = none →
      ∃ n', replay ports (pollProgram port ready k) n = (false, n', []) := by
  intro k
  induction k with
  | zero =>
      intro n h
      rw [pollStatus] at h
      split_ifs at h with hready
      refine ⟨n + 1, ?_⟩
      show (ready (ports n % 256), n + 1, []) = _
      rw [show ready (ports n % 256) = false from eq_false_of_ne_true hready]
  | succ k ih =>
      intro n h
      rw [pollStatus] at h
      split_ifs at h with hready
      obtain ⟨n', hrun⟩ := ih h
      refine ⟨n', ?_⟩
      rw [pollProgram, replay_and_then]
      simp only [inbProgram, replay]
      rw [if_neg (show ¬ ready (ports n % 256) = true from hready), hrun]
      rfl

/-- The check of the error bits reads one input or two, and its caller goes on only after two. -/
theorem status_error_replay (ports : Nat → Nat) (base n : Nat) : ∃ n',
    replay ports (statusErrorProgram base) n = (statusError ports n, n', []) ∧
      (statusError ports n = false → n' = n + 2) := by
  have hfirst : ∀ {x : Nat}, decide (x ≠ 0) = true ↔ x ≠ 0 := decide_eq_true_iff
  rw [statusErrorProgram, replay_and_then]
  simp only [inbProgram, replay]
  by_cases herr : ports n % 256 &&& 0x01 ≠ 0
  · have hstatus : statusError ports n = true :=
      Bool.or_eq_true_iff.mpr (Or.inl (hfirst.mpr herr))
    rw [if_pos herr, hstatus]
    exact ⟨n + 1, rfl, Bool.noConfusion⟩
  · have hstatus : statusError ports n = decide (ports (n + 1) % 256 &&& 0x20 ≠ 0) := by
      rw [statusError, show decide (inb ports n &&& 0x01 ≠ 0) = false from decide_eq_false herr]
      rfl
    rw [if_neg herr, hstatus]
    exact ⟨n + 2, rfl, fun _ => rfl⟩

theorem read_words_replay (base curStart : Nat) : ∀ (r j : Nat) (buf : ByteMem) (n : Nat),
    replay ports (readWordsProgram base curStart r j buf) n =
      (readWords ports buf curStart r j n, n + r, []) := by
  intro r
  induction r with
  | zero => exact fun _ _ _ => rfl
  | succ r ih =>
      intro j buf n
      rw [readWordsProgram, replay_and_then]
      simp only [in16Program, replay]
      rw [ih, readWords, show n + 1 + r = n + (r + 1) by omega]
      rfl

theorem read_sectors_replay (base : Nat) (outs : List PortWrite) : ∀ (r i : Nat) (buf : ByteMem)
    (n : Nat), Replays ports (readSectorsProgram base r i buf) n outs
      (readSectors ports outs buf r i n) := by
  intro r
  induction r with
  | zero => exact fun i buf n => replays_ret n ⟨0, i, outs, buf⟩
  | succ r ih =>
      intro i buf n
      rw [readSectorsProgram, readSectors]
      cases hpoll : pollStatus ports dataRequest ataWait n with
      | none =>
          obtain ⟨n', hrun⟩ := poll_replay_none (base + 7) hpoll
          exact .and_then hrun (replays_ret n' ⟨-timeOut, i, outs, buf⟩)
      | some n' =>
          refine .and_then (poll_replay hpoll) ?_
          obtain ⟨n'', hstatus, hnext⟩ := status_error_replay ports base n'
          refine .and_then hstatus ?_
          simp only
          by_cases hfailed : statusError ports n' = true
          · rw [if_pos hfailed, if_pos hfailed]
            exact replays_ret n'' ⟨diskReadErr, i, outs, buf⟩
          · rw [if_neg hfailed, if_neg hfailed, hnext (eq_false_of_ne_true hfailed)]
            exact .and_then (read_words_replay base (512 * i) 256 0 buf (n' + 2)) (ih (i + 1) _ _)

theorem write_sectors_replay (base : Nat) (buf : ByteMem) : ∀ (r i : Nat) (outs : List PortWrite)
    (n : Nat), Replays ports (writeSectorsProgram base buf r i) n outs
      (writeSectors ports base buf r outs i n) := by
  intro r
  induction r with
  | zero =>
      intro i outs n
      rw [writeSectorsProgram, writeSectors]
      cases hpoll : pollStatus ports notBusy ataWait n with
      | none =>
          obtain ⟨n', hrun⟩ := poll_replay_none (base + 7) hpoll
          exact .and_then hrun (replays_ret n' ⟨-timeOut, i, outs, buf⟩)
      | some n' =>
          refine .and_then (poll_replay hpoll) ?_
          obtain ⟨n'', hstatus, _⟩ := status_error_replay ports base n'
          refine .and_then hstatus ?_
          simp only
          by_cases hfailed : statusError ports n' = true
          · rw [if_pos hfailed, if_pos hfailed]
            exact replays_ret n'' ⟨diskWriteErr, i, outs, buf⟩
          · rw [if_neg hfailed, if_neg hfailed]
            exact replays_ret n'' ⟨0, i, outs, buf⟩
  | succ r ih =>
      intro i outs n
      rw [writeSectorsProgram, writeSectors]
      cases hpoll : pollStatus ports dataRequest ataWait n with
      | none =>
          obtain ⟨n', hrun⟩ := poll_replay_none (base + 7) hpoll
          exact .and_then hrun (replays_ret n' ⟨-timeOut, i, outs, buf⟩)
      | some n' =>
          refine .and_then (poll_replay hpoll) ?_
          obtain ⟨n'', hstatus, hnext⟩ := status_error_replay ports base n'
          refine .and_then hstatus ?_
          simp only
          by_cases hfailed : statusError ports n' = true
          · rw [if_pos hfailed, if_pos hfailed]
            exact replays_ret n'' ⟨diskWriteErr, i, outs, buf⟩
          · rw [if_neg hfailed, if_neg hfailed, hnext (eq_false_of_ne_true hfailed)]
            exact .outputs (ih (i + 1) _ _)

/-- Up to the command byte the program does what `startCommand` does. -/
theorem start_command_replay {lba total command : Nat} {buf : ByteMem}
    {rest : DriverProgram BlockResult}
    (hrest : ∀ n outs, startCommand ports d lba total command = .ok (n, outs) →
      Replays ports rest n outs t)
    (hstop : ∀ code outs, startCommand ports d lba total command = .error (code, outs) →
      t = ⟨code, 0, outs, buf⟩) :
    Replays ports (startCommandProgram d lba total command buf rest) 0 [] t := by
  unfold startCommand at hrest hstop
  unfold startCommandProgram
  by_cases hbounds : add32 lba total > d.sectCount
  · rw [if_pos hbounds] at hstop ⊢
    rw [hstop _ _ rfl]
    exact replays_ret 0 ⟨-gen32Invarg, 0, [], buf⟩
  · rw [if_neg hbounds] at hrest hstop ⊢
    refine .outputs ?_
    rw [List.nil_append]
    cases hfirst : pollStatus ports notBusy ataWait 0 with
    | none =>
        simp only [hfirst] at hrest hstop
        obtain ⟨n', hrun⟩ := poll_replay_none (d.baseDataPort + 7) hfirst
        rw [hstop _ _ rfl]
        exact .and_then hrun (replays_ret n' ⟨-timeOut, 0, selectDrive d lba, buf⟩)
    | some n =>
        simp only [hfirst] at hrest hstop
        refine .and_then (poll_replay hfirst) ?_
        simp only [if_true]
        refine .outputs ?_
        cases hsecond : pollStatus ports notBusy ataWait n with
        | none =>
            simp only [hsecond] at hrest hstop
            obtain ⟨n', hrun⟩ := poll_replay_none (d.baseDataPort + 7) hsecond
            rw [hstop _ _ rfl]
            exact .and_then hrun
              (replays_ret n' ⟨-timeOut, 0, selectDrive d lba ++ loadTaskFile d lba total, buf⟩)
        | some n' =>
            simp only [hsecond] at hrest hstop
            refine .and_then (poll_replay hsecond) ?_
            simp only [if_true]
            have hcommand : Replays ports _ n' (_ ++ [outb (d.baseDataPort + 7) command]) _ :=
              hrest n' _ rfl
            exact hcommand.outputs

/-- On a sequence of port inputs the program is `readDiskBlock`. -/
theorem read_disk_block_replay (ports : PortReads) (d : DiskPorts) (lba total : Nat)
    (buf : ByteMem) : Replays ports (readDiskBlockProgram d lba total buf) 0 []
      (readDiskBlock ports d lba total buf) := by
  refine start_command_replay (fun n outs h => ?_) fun code outs h => ?_
  · rw [readDiskBlock, h]
    simp only
    cases hpoll : pollStatus ports notBusy ataWait n with
    | none =>
        obtain ⟨n', hrun⟩ := poll_replay_none (d.baseDataPort + 7) hpoll
        exact .and_then hrun (replays_ret n' ⟨-timeOut, 0, outs, buf⟩)
    | some n' => exact .and_then (poll_replay hpoll) (read_sectors_replay _ outs total 0 buf n')
  · rw [readDiskBlock, h]

/-- On a sequence of port inputs the program is `writeDiskBlock`. -/
theorem write_disk_block_replay (ports : PortReads) (d : DiskPorts) (lba total : Nat)
    (buf : ByteMem) : Replays ports (writeDiskBlockProgram d lba total buf) 0 []
      (writeDiskBlock ports d lba total buf) := by
  refine start_command_replay (fun n outs h => ?_) fun code outs h => ?_
  · rw [writeDiskBlock, h]
    exact write_sectors_replay _ buf total 0 outs n
  · rw [writeDiskBlock, h]

/-! ## The ports of a call -/

/-- The program uses the eight ports from `base` on, and no other one. -/
abbrev UsesPorts {α : Type} (base : Nat) (p : DriverProgram α) : Prop :=
  p.Uses (fun i => base ≤ i.port ∧ i.port < base + 8) fun w => base ≤ w.port ∧ w.port < base + 8

section

variable {base : Nat} {ready : Nat → Bool}

theorem uses_inb (hbase : base + 7 < 65536) : UsesPorts base (inbProgram (base + 7)) := by
  refine ⟨?_, fun _ => trivial⟩
  show base ≤ (base + 7) % 65536 ∧ (base + 7) % 65536 < base + 8
  omega

theorem uses_in16 (hbase : base + 7 < 65536) : UsesPorts base (in16Program base) := by
  refine ⟨?_, fun _ => trivial⟩
  show base ≤ base % 65536 ∧ base % 65536 < base + 8
  omega

theorem uses_outb (hbase : base + 7 < 65536) {r : Nat} (hr : r < 8) (v : Nat) :
    base ≤ (outb (base + r) v).port ∧ (outb (base + r) v).port < base + 8 := by
  simp only [outb]
  omega

theorem uses_poll (hbase : base + 7 < 65536) (k : Nat) :
    UsesPorts base (pollProgram (base + 7) ready k) := by
  induction k with
  | zero => exact (uses_inb hbase).and_then fun _ => trivial
  | succ k ih =>
      refine (uses_inb hbase).and_then fun status => ?_
      split_ifs
      · trivial
      · exact ih

theorem uses_status_error (hbase : base + 7 < 65536) :
    UsesPorts base (statusErrorProgram base) := by
  refine (uses_inb hbase).and_then fun status => ?_
  split_ifs
  · trivial
  · exact (uses_inb hbase).and_then fun _ => trivial

theorem uses_read_words (hbase : base + 7 < 65536) (curStart : Nat) : ∀ (r j : Nat)
    (buf : ByteMem), UsesPorts base (readWordsProgram base curStart r j buf) := by
  intro r
  induction r with
  | zero => exact fun _ _ => trivial
  | succ r ih => exact fun j buf => (uses_in16 hbase).and_then fun v => ih (j + 1) _

theorem uses_read_sectors (hbase : base + 7 < 65536) : ∀ (r i : Nat) (buf : ByteMem),
    UsesPorts base (readSectorsProgram base r i buf) := by
  intro r
  induction r with
  | zero => exact fun _ _ => trivial
  | succ r ih =>
      intro i buf
      refine (uses_poll hbase ataWait).and_then fun inTime => ?_
      split_ifs
      · refine (uses_status_error hbase).and_then fun failed => ?_
        split_ifs
        · trivial
        · exact (uses_read_words hbase _ 256 0 buf).and_then fun buf => ih (i + 1) buf
      · trivial

theorem uses_write_sectors (hbase : base + 7 < 65536) (buf : ByteMem) : ∀ r i : Nat,
    UsesPorts base (writeSectorsProgram base buf r i) := by
  intro r
  induction r with
  | zero =>
      refine fun i => (uses_poll hbase ataWait).and_then fun inTime => ?_
      split_ifs
      · exact (uses_status_error hbase).and_then fun _ => trivial
      · trivial
  | succ r ih =>
      refine fun i => (uses_poll hbase ataWait).and_then fun inTime => ?_
      split_ifs
      · refine (uses_status_error hbase).and_then fun failed => ?_
        split_ifs
        · trivial
        · refine .outputs (fun w hw => ?_) (ih (i + 1))
          rw [write_words_port _ _ w hw]
          omega
      · trivial

theorem uses_start_command {d : DiskPorts} (hbase : d.baseDataPort + 7 < 65536)
    (lba total command : Nat) (buf : ByteMem) {rest : DriverProgram BlockResult}
    (hrest : UsesPorts d.baseDataPort rest) :
    UsesPorts d.baseDataPort (startCommandProgram d lba total command buf rest) := by
  unfold startCommandProgram
  split_ifs
  · trivial
  · refine .outputs (fun w hw => ?_) ((uses_poll hbase ataWait).and_then fun inTime => ?_)
    · obtain rfl := List.mem_singleton.mp hw
      exact uses_outb hbase (by decide) _
    · split_ifs
      · refine .outputs (fun w hw => ?_) ((uses_poll hbase ataWait).and_then fun inTime => ?_)
        · simp only [loadTaskFile, List.mem_cons, List.not_mem_nil, or_false] at hw
          rcases hw with rfl | rfl | rfl | rfl <;> exact uses_outb hbase (by decide) _
        · split_ifs
          · exact ⟨uses_outb hbase (by decide) _, hrest⟩
          · trivial
      · trivial

/-- A read uses the ports of its channel only. -/
theorem uses_read_disk_block {d : DiskPorts} (hbase : d.baseDataPort + 7 < 65536)
    (lba total : Nat) (buf : ByteMem) :
    UsesPorts d.baseDataPort (readDiskBlockProgram d lba total buf) := by
  refine uses_start_command hbase lba total 0x20 buf ?_
  refine (uses_poll hbase ataWait).and_then fun inTime => ?_
  split_ifs
  · exact uses_read_sectors hbase total 0 buf
  · trivial

/-- So does a write. -/
theorem uses_write_disk_block {d : DiskPorts} (hbase : d.baseDataPort + 7 < 65536)
    (lba total : Nat) (buf : ByteMem) :
    UsesPorts d.baseDataPort (writeDiskBlockProgram d lba total buf) :=
  uses_start_command hbase lba total 0x30 buf (uses_write_sectors hbase buf total 0)

end

/-! ## Calls against a device -/

/-- What a call sends that returns `r`. Either it returns before the command byte, with a negative
code, the buffer as it was and nothing sent but the task file or a part of it. Or the bounds check
has passed, and it sends the task file, the command byte and the data of as many sectors as its loop
counts, which are all of them if it succeeds. -/
def CallSends (d : DiskPorts) (lba total command : Nat) (data : Nat → List PortWrite)
    (buf : ByteMem) (r : BlockResult) (outs : List PortWrite) : Prop :=
  (r.code < 0 ∧ r.moved = 0 ∧ r.buf = buf ∧ ∀ w ∈ outs, w ∈ taskFile d lba total) ∨
  (add32 lba total ≤ d.sectCount ∧
    outs = taskFile d lba total ++ [outb (d.baseDataPort + 7) command] ++ data r.moved ∧
    r.moved ≤ total ∧ (r.code = 0 → r.moved = total))

theorem read_disk_block_sends (ports : PortReads) (d : DiskPorts) (lba total : Nat)
    (buf : ByteMem) :
    CallSends d lba total 0x20 (fun _ => []) buf (readDiskBlock ports d lba total buf).result
        (readDiskBlock ports d lba total buf).outs ∧
      ∀ x, 512 * (readDiskBlock ports d lba total buf).moved ≤ x →
        (readDiskBlock ports d lba total buf).buf x = buf x := by
  rcases start_command_cases ports d lba total 0x20 with
    ⟨code, outs, heq, hneg, houts⟩ | ⟨n, heq, hbounds, _⟩
  · rw [readDiskBlock, heq]
    exact ⟨Or.inl ⟨hneg, rfl, rfl, houts⟩, fun x _ => rfl⟩
  · rw [readDiskBlock, heq]
    simp only
    cases pollStatus ports notBusy ataWait n with
    | none =>
        exact ⟨Or.inr ⟨hbounds, (List.append_nil _).symm, Nat.zero_le _,
          fun h => absurd h time_out_ne⟩, fun x _ => rfl⟩
    | some m =>
        obtain ⟨k, hk, _, hcount, start, hdeposits⟩ := read_sectors_deposits ports
          (taskFile d lba total ++ [outb (d.baseDataPort + 7) 0x20]) total 0 m
        obtain ⟨hmoved, hall⟩ := hcount buf
        rw [Nat.zero_add] at hmoved
        refine ⟨Or.inr ⟨hbounds, ?_, hmoved.trans_le hk, fun h => hmoved.trans (hall h)⟩,
          fun x hx => hdeposits.frame buf x (Or.inr ?_)⟩
        · exact (read_sectors_outs ports _ total buf 0 m).trans (List.append_nil _).symm
        · rwa [Nat.zero_add, ← hmoved]

theorem write_disk_block_sends (ports : PortReads) (d : DiskPorts) (lba total : Nat)
    (buf : ByteMem) :
    CallSends d lba total 0x30 (sectorWords d.baseDataPort buf 0) buf
      (writeDiskBlock ports d lba total buf).result
      (writeDiskBlock ports d lba total buf).outs := by
  rcases start_command_cases ports d lba total 0x30 with
    ⟨code, outs, heq, hneg, houts⟩ | ⟨n, heq, hbounds, _⟩
  · rw [writeDiskBlock, heq]
    exact Or.inl ⟨hneg, rfl, rfl, houts⟩
  · obtain ⟨k, hk, _, houts, hmoved, hall⟩ := write_sectors_sends ports d.baseDataPort buf total
      (taskFile d lba total ++ [outb (d.baseDataPort + 7) 0x30]) 0 n
    rw [Nat.zero_add] at hmoved
    rw [writeDiskBlock, heq]
    refine Or.inr ⟨hbounds, houts.trans ?_, hmoved.trans_le hk, fun h => hmoved.trans (hall h)⟩
    rw [← hmoved]
    rfl

variable {σ : Type} (D : Device σ PortInput PortWrite Nat)

/-- Against a device a program that replays a transfer on every sequence of inputs returns and sends
what the transfer does on the answers of the device. -/
theorem run_of_replays {p : DriverProgram BlockResult} {f : PortReads → Transfer}
    (h : ∀ ports, Replays ports p 0 [] (f ports)) (s : σ) :
    ∃ ports, (run D p s).1 = (f ports).result ∧ sent D p s = (f ports).outs := by
  obtain ⟨ports, hresult, hsent⟩ := exists_replay D p s
  obtain ⟨n', outs, hrun, houts⟩ := h ports
  refine ⟨ports, by rw [← hresult, hrun], ?_⟩
  rw [← hsent, hrun, houts, List.nil_append]

/-- Whatever device answers the ports, also one that reacts to what it has been sent: a read sends
nothing behind the command byte and leaves the buffer behind the sectors that it counts as it was,
and a write sends the words of as many sectors of the buffer as it counts. -/
theorem driver_on_any_device (d : DiskPorts) (lba total : Nat) (buf : ByteMem) (s : σ) :
    (CallSends d lba total 0x20 (fun _ => []) buf
        (run D (readDiskBlockProgram d lba total buf) s).1
        (sent D (readDiskBlockProgram d lba total buf) s) ∧
      ∀ x, 512 * (run D (readDiskBlockProgram d lba total buf) s).1.moved ≤ x →
        (run D (readDiskBlockProgram d lba total buf) s).1.buf x = buf x) ∧
    CallSends d lba total 0x30 (sectorWords d.baseDataPort buf 0) buf
      (run D (writeDiskBlockProgram d lba total buf) s).1
      (sent D (writeDiskBlockProgram d lba total buf) s) := by
  constructor
  · obtain ⟨ports, hresult, hsent⟩ :=
      run_of_replays D (fun ports => read_disk_block_replay ports d lba total buf) s
    rw [hresult, hsent]
    exact read_disk_block_sends ports d lba total buf
  · obtain ⟨ports, hresult, hsent⟩ :=
      run_of_replays D (fun ports => write_disk_block_replay ports d lba total buf) s
    rw [hresult, hsent]
    exact write_disk_block_sends ports d lba total buf

end Genesis32
