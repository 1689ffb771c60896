import Genesis32.Disk.Driver

/-!
# The search for disks

`disk_search_and_init`, `check_disk`, `set_disk_info` and `get_disk_info` of `disk/disk.c`. The
ports are one sequence of input values for the whole search. One buffer takes the IDENTIFY data of
every disk, and `get_disk_info` returns without a word about it when a poll times out, so the size
of a disk is read from what the buffer was last filled with: `disk_sizes_own_iff`.

With each recorded disk the model keeps where in the port inputs its `get_disk_info` began and the
transfer that last filled the buffer, which the code does not have. Which drives the search records,
and where, is a matter of the port inputs alone: `searchProbes`.
-/

namespace Genesis32

open Word

/-- `DISK_TYPE_REAL`. -/
abbrev diskTypeReal : Nat := 0

/-- `struct disk`, without the list of its partitions. -/
structure Disk where
  type : Nat
  ataCode : Nat
  baseDataPort : Nat
  controlPort : Nat
  commandStatusPort : Nat
  head : Nat
  driveHead : Nat
  isMaster : Bool
  sectSize : Nat
  sectCount : Nat

/-- A transfer of 256 words from a data port: the port, what was last written to the drive and the
command register of its channel, and the words. -/
structure Reply where
  dataPort : Nat
  drive : Nat
  command : Nat
  words : Nat → Nat

/-- The state of the search: the index of the next port input, the port writes, the buffer, and the
transfer that last filled it. -/
structure SearchState where
  next : Nat
  outs : List PortWrite
  buf : ByteMem
  reply : Option Reply

/-- A disk of `motherlobe`, with the index of the first port input of its `get_disk_info`, and the
transfer that had last filled the buffer when its size was read from it. -/
structure RecordedDisk where
  disk : Disk
  start : Nat
  reply : Option Reply

/-! ## The driver -/

/-- A polling loop with `k` more rounds before it gives up. A round is the inputs that the condition
of the loop reads from an index on: whether they end the loop, and the next index. -/
def statusLoop (round : Nat → Bool × Nat) : Nat → Nat → Bool × Nat
  | 0, n => round n
  | k + 1, n => if (round n).1 then round n else statusLoop round k (round n).2

/-- `inb(command_port)&0x80`. -/
def notBusyRound (ports : PortReads) (n : Nat) : Bool × Nat := (notBusy (inb ports n), n + 1)

/-- `(inb(command_port) & 0x80) || !(inb(command_port)&0x08)`: a busy drive is read once. -/
def dataRound (ports : PortReads) (n : Nat) : Bool × Nat :=
  if notBusy (inb ports n) then (inb ports (n + 1) &&& 0x08 ≠ 0, n + 2) else (false, n + 1)

/-- `set_disk_info`. -/
def setDiskInfo (d : Disk) : Disk :=
  let base := if d.ataCode &&& 0x02 = 0 then 0x1f0 else 0x170
  let drive := if d.ataCode &&& 0x01 = 0 then 0xa0 else 0xb0
  { d with
    driveHead := drive
    isMaster := drive &&& 0x10 = 0
    baseDataPort := base
    commandStatusPort := base + 0x07
    controlPort := base + 0x206
    head := base + 0x6 }

/-- `get_disk_info`. -/
def getDiskInfo (ports : PortReads) (d : Disk) (command : Nat) (s : SearchState) : SearchState :=
  let selected := s.outs ++ [outb d.controlPort 0, outb d.head d.driveHead]
  match statusLoop (notBusyRound ports) (ataWait - 1) (s.next + 4) with
  | (false, n) => { s with next := n, outs := selected }
  | (true, n) =>
      let outs := selected ++ [outb d.commandStatusPort command]
      match statusLoop (dataRound ports) (ataWait - 1) n with
      | (false, n) => { s with next := n, outs := outs }
      | (true, n) =>
          { next := n + 256
            outs := outs
            buf := readWords ports s.buf 0 256 0 n
            reply := some
              { dataPort := d.baseDataPort
                drive := lastOut outs (d.baseDataPort + 6)
                command := lastOut outs (d.baseDataPort + 7)
                words := fun i => in16 ports (n + i) } }

/-- The last loop of `check_disk`: the status that ends it, or `none`, and the next index. -/
def statusWait (ports : PortReads) : Nat → Nat → Nat → Option Nat × Nat
  | 0, status, n => if status &&& 0x08 ≠ 0 then (some status, n) else (none, n + 1)
  | k + 1, status, n =>
      if status &&& 0x08 ≠ 0 then (some status, n) else statusWait ports k (inb ports n) (n + 1)

/-- `check_disk`. `granted` says whether `heap_cream_malloc` returns memory, and `stale` is what
that memory holds. -/
def checkDisk (ports : PortReads) (granted : Bool) (stale : Disk) (ataVal : Nat) (s : SearchState) :
    Option Disk × SearchState :=
  let portNo := if ataVal &&& 0x02 ≠ 0 then 0x170 else 0x1f0
  let drive := if ataVal &&& 0x01 ≠ 0 then 0xb0 else 0xa0
  let outs := s.outs ++ [outb (portNo + 0x206) 0x00, outb (portNo + 6) drive]
  let stat := inb ports (s.next + 4)
  if stat = 0xff ∨ stat = 0x00 then (none, { s with next := s.next + 5, outs := outs })
  else
    match statusLoop (notBusyRound ports) ataWait (s.next + 5) with
    | (false, n) => (none, { s with next := n, outs := outs })
    | (true, n) =>
        let outs := outs ++ [outb (portNo + 7) 0xec]
        match statusLoop (dataRound ports) ataWait (n + 4) with
        | (false, n) => (none, { s with next := n, outs := outs })
        | (true, n) =>
            match statusWait ports ataWait (inb ports n) (n + 1) with
            | (none, n) => (none, { s with next := n, outs := outs })
            | (some status, n) =>
                let s := { s with next := n, outs := outs }
                if status = 0x00 ∨ status = 0x01 then (none, s)
                else if status &&& 0x08 ≠ 0 then
                  -- without memory the two fields are stored at address 0 and NULL is returned
                  (if granted then some { stale with ataCode := ataVal, type := diskTypeReal }
                    else none, s)
                else (none, s)

/-- `(uint32_t)(buf[61]<<16)|(uint32_t)buf[60]`. -/
def sectCountOf (buf : ByteMem) : Nat := buf.word16 (2 * 61) <<< 16 ||| buf.word16 (2 * 60)

/-- What `disk_search_and_init` does with the boot disk and with each disk that it finds. -/
def recordDisk (ports : PortReads) (d : Disk) (r : SearchState × List RecordedDisk) :
    SearchState × List RecordedDisk :=
  let d := setDiskInfo d
  let s := getDiskInfo ports d 0xec r.1
  (s, r.2 ++ [⟨{ d with sectCount := sectCountOf s.buf, sectSize := 512 }, r.1.next, s.reply⟩])

/-- The `for` of `disk_search_and_init` over the codes of the other drives. -/
def searchDisks (ports : PortReads) (granted : Nat → Bool) (stale : Nat → Disk) :
    List Nat → SearchState × List RecordedDisk → SearchState × List RecordedDisk
  | [], r => r
  | i :: codes, r =>
      match checkDisk ports (granted i) (stale i) i r.1 with
      | (none, s) => searchDisks ports granted stale codes (s, r.2)
      | (some val, s) =>
          searchDisks ports granted stale codes (recordDisk ports val (s, r.2))

/-- `disk_search_and_init`: the disks of `motherlobe`. The buffer from `heap_cream_malloc` holds
`buf`. -/
def diskSearchAndInit (ports : PortReads) (bootDrive : Nat) (granted : Nat → Bool)
    (stale : Nat → Disk) (buf : ByteMem) : List RecordedDisk :=
  let disk1 : Disk := ⟨diskTypeReal, bootDrive, 0, 0, 0, 0, 0, false, 0, 0⟩
  (searchDisks ports granted stale [0x81, 0x82, 0x83]
    (recordDisk ports disk1 (⟨0, [], buf, none⟩, []))).2

/-! ## What the sizes are read from -/

/-- A drive that the search records: its code, and the index of the first port input of its
`get_disk_info`. -/
structure Probe where
  code : Nat
  start : Nat

/-- Whether `check_disk` finds a disk when its port inputs begin at `n`, and the index behind
them. -/
def checkProbe (ports : PortReads) (granted : Bool) (n : Nat) : Bool × Nat :=
  let r := checkDisk ports granted ⟨0, 0, 0, 0, 0, 0, 0, false, 0, 0⟩ 0 ⟨n, [], fun _ => 0x00, none⟩
  (r.1.isSome, r.2.next)

/-- The index behind the port inputs of a `get_disk_info` that begins at `n`. -/
def infoEnd (ports : PortReads) (n : Nat) : Nat :=
  (getDiskInfo ports ⟨0, 0, 0, 0, 0, 0, 0, false, 0, 0⟩ 0xec ⟨n, [], fun _ => 0x00, none⟩).next

/-- The drives of the codes that the port inputs from `n` on let the search record. -/
def probesFrom (ports : PortReads) (granted : Nat → Bool) : List Nat → Nat → List Probe
  | [], _ => []
  | i :: codes, n =>
      let r := checkProbe ports (granted i) n
      if r.1 then ⟨i, r.2⟩ :: probesFrom ports granted codes (infoEnd ports r.2)
      else probesFrom ports granted codes r.2

/-- The drives that a sequence of port inputs lets the search record, the boot drive first. -/
def searchProbes (ports : PortReads) (bootDrive : Nat) (granted : Nat → Bool) : List Probe :=
  ⟨bootDrive, 0⟩ :: probesFrom ports granted [0x81, 0x82, 0x83] (infoEnd ports 0)

/-- The channel and the drive that a code stands for. -/
def driveOf (code : Nat) : Nat × Nat :=
  (if code &&& 0x02 = 0 then 0x1f0 else 0x170, if code &&& 0x01 = 0 then 0xa0 else 0xb0)

/-- Both polls of a `get_disk_info` whose port inputs begin at `n` end in time. -/
def Answers (ports : PortReads) (n : Nat) : Bool :=
  let busy := statusLoop (notBusyRound ports) (ataWait - 1) (n + 4)
  busy.1 && (statusLoop (dataRound ports) (ataWait - 1) busy.2).1

/-- The last of the drives whose `get_disk_info` comes to its transfer. -/
def lastAnswer (ports : PortReads) (ps : List Probe) : Option Probe :=
  (ps.filter fun p => Answers ports p.start).getLast?

/-- The size of every recorded disk is that of the IDENTIFY data that the disk itself returned. -/
def SizesOwn (ds : List RecordedDisk) : Prop :=
  ∀ r ∈ ds, ∃ reply, r.reply = some reply ∧ reply.dataPort = r.disk.baseDataPort ∧
    reply.drive = r.disk.driveHead ∧ reply.command = 0xec ∧
    r.disk.sectCount = reply.words 61 * 65536 + reply.words 60

/-- For every drive the last `get_disk_info` that comes to its transfer, its own included, is one
with this drive. -/
def AnswersOwn (ports : PortReads) (ps : List Probe) : Prop :=
  ∀ before p after, ps = before ++ p :: after →
    ∃ p', lastAnswer ports (before ++ [p]) = some p' ∧ driveOf p'.code = driveOf p.code

/-! ## One transfer -/

variable {ports : PortReads} {s : SearchState} {ds : List RecordedDisk} {d : Disk}

theorem sect_count_of_eq (buf : ByteMem) :
    sectCountOf buf = buf.word16 (2 * 61) * 65536 + buf.word16 (2 * 60) := by
  have hlow := ByteMem.word16_lt buf (2 * 60)
  rw [sectCountOf, Nat.shiftLeft_eq, lor_low (n := 16) (by omega) hlow]

/-- The size read from a buffer that a transfer has filled. -/
theorem sect_count_read_words (buf : ByteMem) (n : Nat) :
    sectCountOf (readWords ports buf 0 256 0 n) =
      in16 ports (n + 61) * 65536 + in16 ports (n + 60) := by
  obtain ⟨_, hwords⟩ := read_words_spec ports 0 256 0 n buf
  have hhigh := hwords 61 (by omega)
  have hlow := hwords 60 (by omega)
  rw [Nat.zero_add, Nat.zero_add] at hhigh hlow
  rw [sect_count_of_eq, hhigh, hlow]

theorem last_out_append (outs : List PortWrite) (port value q : Nat) :
    lastOut (outs ++ [outb port value]) q =
      if port % 65536 = q % 65536 then value % 256 else lastOut outs q := by
  rw [lastOut, List.foldl_append]
  rfl

/-- `set_disk_info` gives one of four drives. -/
theorem set_disk_info_ports (d : Disk) :
    ((setDiskInfo d).baseDataPort = 0x1f0 ∨ (setDiskInfo d).baseDataPort = 0x170) ∧
      ((setDiskInfo d).driveHead = 0xa0 ∨ (setDiskInfo d).driveHead = 0xb0) ∧
      (setDiskInfo d).controlPort = (setDiskInfo d).baseDataPort + 0x206 ∧
      (setDiskInfo d).head = (setDiskInfo d).baseDataPort + 6 ∧
      (setDiskInfo d).commandStatusPort = (setDiskInfo d).baseDataPort + 7 := by
  refine ⟨?_, ?_, rfl, rfl, rfl⟩
  · by_cases h : d.ataCode &&& 0x02 = 0
    · exact Or.inl (if_pos h)
    · exact Or.inr (if_neg h)
  · by_cases h : d.ataCode &&& 0x01 = 0
    · exact Or.inl (if_pos h)
    · exact Or.inr (if_neg h)

/-- A `get_disk_info` whose polls end in time fills the buffer from the drive of its disk. -/
theorem get_disk_info_answers (d : Disk) (h : Answers ports s.next = true) : ∃ reply,
    (getDiskInfo ports (setDiskInfo d) 0xec s).reply = some reply ∧
      reply.dataPort = (setDiskInfo d).baseDataPort ∧ reply.drive = (setDiskInfo d).driveHead ∧
      reply.command = 0xec ∧ sectCountOf (getDiskInfo ports (setDiskInfo d) 0xec s).buf =
        reply.words 61 * 65536 + reply.words 60 := by
  obtain ⟨hbase, hdrive, hcontrol, hhead, hcommand⟩ := set_disk_info_ports d
  obtain ⟨hbusy, hdata⟩ := Bool.and_eq_true_iff.mp h
  rw [getDiskInfo]
  -- both loops end with the drive ready
  generalize hfirst : statusLoop (notBusyRound ports) (ataWait - 1) (s.next + 4) = busy at *
  obtain ⟨ready, n⟩ := busy
  obtain rfl : ready = true := hbusy
  simp only
  simp only at hdata
  generalize hsecond : statusLoop (dataRound ports) (ataWait - 1) n = data at *
  obtain ⟨ready, n'⟩ := data
  obtain rfl : ready = true := hdata
  simp only
  refine ⟨_, rfl, rfl, ?_, ?_, ?_⟩
  · -- the command register is not the drive register
    simp only
    rw [last_out_append, if_neg (by rw [hcommand]; omega), List.append_cons, last_out_append,
      if_pos (by rw [hhead])]
    omega
  · simp only
    rw [last_out_append, if_pos (by rw [hcommand])]
  · exact sect_count_read_words s.buf n'

/-- One whose polls do not leaves the buffer as it was. -/
theorem get_disk_info_silent (d : Disk) (h : Answers ports s.next = false) :
    (getDiskInfo ports d 0xec s).reply = s.reply ∧ (getDiskInfo ports d 0xec s).buf = s.buf := by
  rw [getDiskInfo]
  rw [Answers] at h
  generalize hfirst : statusLoop (notBusyRound ports) (ataWait - 1) (s.next + 4) = busy at *
  obtain ⟨ready, n⟩ := busy
  cases ready with
  | false => exact ⟨rfl, rfl⟩
  | true =>
      simp only [Bool.true_and] at h ⊢
      generalize hsecond : statusLoop (dataRound ports) (ataWait - 1) n = data at *
      obtain ⟨ready, n'⟩ := data
      obtain rfl : ready = false := h
      exact ⟨rfl, rfl⟩

/-- `check_disk` leaves the buffer alone. What it reads, and whether it finds a disk, is a matter of
the port inputs. -/
theorem check_disk_spec (ports : PortReads) (granted : Bool) (stale : Disk) (ataVal : Nat)
    (s : SearchState) :
    (checkDisk ports granted stale ataVal s).2.reply = s.reply ∧
      (checkDisk ports granted stale ataVal s).2.buf = s.buf ∧
      (checkDisk ports granted stale ataVal s).1.isSome = (checkProbe ports granted s.next).1 ∧
      (checkDisk ports granted stale ataVal s).2.next = (checkProbe ports granted s.next).2 ∧
      ∀ d, (checkDisk ports granted stale ataVal s).1 = some d → d.ataCode = ataVal := by
  unfold checkProbe checkDisk
  simp only
  by_cases hstat : inb ports (s.next + 4) = 0xff ∨ inb ports (s.next + 4) = 0x00
  · rw [if_pos hstat, if_pos hstat]
    exact ⟨rfl, rfl, rfl, rfl, fun d h => nomatch h⟩
  · rw [if_neg hstat, if_neg hstat]
    -- a poll that ends in time leads to the next one
    rcases statusLoop (notBusyRound ports) ataWait (s.next + 5) with ⟨_ | _, n⟩
    · exact ⟨rfl, rfl, rfl, rfl, fun d h => nomatch h⟩
    simp only
    rcases statusLoop (dataRound ports) ataWait (n + 4) with ⟨_ | _, n⟩
    · exact ⟨rfl, rfl, rfl, rfl, fun d h => nomatch h⟩
    simp only
    rcases statusWait ports ataWait (inb ports n) (n + 1) with ⟨_ | status, n⟩
    · exact ⟨rfl, rfl, rfl, rfl, fun d h => nomatch h⟩
    simp only
    by_cases hnone : status = 0x00 ∨ status = 0x01
    · rw [if_pos hnone, if_pos hnone]
      exact ⟨rfl, rfl, rfl, rfl, fun d h => nomatch h⟩
    rw [if_neg hnone, if_neg hnone]
    by_cases hdisk : status &&& 0x08 ≠ 0
    · rw [if_pos hdisk, if_pos hdisk]
      -- the disk is found where there is memory for it
      cases granted with
      | false => exact ⟨rfl, rfl, rfl, rfl, fun d h => nomatch h⟩
      | true => exact ⟨rfl, rfl, rfl, rfl, fun d h => Option.some.inj h ▸ rfl⟩
    · rw [if_neg hdisk, if_neg hdisk]
      exact ⟨rfl, rfl, rfl, rfl, fun d h => nomatch h⟩

/-! ## The whole search -/

/-- The channel and the drive of a disk. -/
def Disk.drivePair (d : Disk) : Nat × Nat := (d.baseDataPort, d.driveHead)

/-- The channel and the drive that a transfer came from. -/
def Reply.drivePair (r : Reply) : Nat × Nat := (r.dataPort, r.drive)

/-- The drive of a recorded disk, and where its `get_disk_info` began. -/
def RecordedDisk.probe (r : RecordedDisk) : Probe := ⟨r.disk.ataCode, r.start⟩

/-- A transfer answered IDENTIFY and `sectCount` is the size in its words. -/
def Reply.Gives (r : Reply) (sectCount : Nat) : Prop :=
  r.command = 0xec ∧ sectCount = r.words 61 * 65536 + r.words 60

/-- What the search keeps: the buffer holds the transfer of the last drive that answered, and the
size of each disk was read from that of the last drive that had answered then. -/
structure SearchInv (ports : PortReads) (s : SearchState) (ds : List RecordedDisk) : Prop where
  last : s.reply.map Reply.drivePair =
    (lastAnswer ports (ds.map RecordedDisk.probe)).map fun p => driveOf p.code
  filled : ∀ reply, s.reply = some reply → reply.Gives (sectCountOf s.buf)
  drives : ∀ r ∈ ds, r.disk.drivePair = driveOf r.disk.ataCode
  sizes : ∀ before r after, ds = before ++ r :: after →
    r.reply.map Reply.drivePair =
      (lastAnswer ports (before.map RecordedDisk.probe ++ [r.probe])).map
        (fun p => driveOf p.code) ∧
    ∀ reply, r.reply = some reply → reply.Gives r.disk.sectCount

theorem last_answer_append (ports : PortReads) (ps : List Probe) (p : Probe) :
    lastAnswer ports (ps ++ [p]) =
      if Answers ports p.start = true then some p else lastAnswer ports ps := by
  rw [lastAnswer, List.filter_append, List.filter_singleton]
  cases Answers ports p.start with
  | true =>
      rw [if_pos rfl]
      exact List.getLast?_concat
  | false =>
      rw [if_neg Bool.false_ne_true]
      exact congrArg _ (List.append_nil _)

/-- An element of a list with one more at its end is an element of the list or that one. -/
theorem append_singleton_split {α : Type} {xs before after : List α} {x r : α}
    (h : xs ++ [x] = before ++ r :: after) :
    before = xs ∧ r = x ∨ ∃ after', xs = before ++ r :: after' := by
  rcases List.eq_nil_or_concat after with rfl | ⟨after', y, rfl⟩
  · obtain ⟨rfl, hr⟩ := List.append_inj' h rfl
    exact Or.inl ⟨rfl, (List.cons.inj hr).1.symm⟩
  · rw [List.concat_eq_append, ← List.cons_append, ← List.append_assoc] at h
    exact Or.inr ⟨after', (List.append_inj' h rfl).1⟩

/-- One more disk keeps the invariant. -/
theorem SearchInv.record (h : SearchInv ports s ds) (d : Disk) :
    SearchInv ports (recordDisk ports d (s, ds)).1 (recordDisk ports d (s, ds)).2 := by
  have hstep : (getDiskInfo ports (setDiskInfo d) 0xec s).reply.map Reply.drivePair =
        (lastAnswer ports (ds.map RecordedDisk.probe ++ [⟨d.ataCode, s.next⟩])).map
          (fun p => driveOf p.code) ∧
      ∀ reply, (getDiskInfo ports (setDiskInfo d) 0xec s).reply = some reply →
        reply.Gives (sectCountOf (getDiskInfo ports (setDiskInfo d) 0xec s).buf) := by
    rw [last_answer_append]
    by_cases hanswers : Answers ports s.next = true
    · obtain ⟨reply, hreply, hport, hdrive, hcommand, hcount⟩ := get_disk_info_answers d hanswers
      rw [if_pos hanswers, hreply]
      refine ⟨congrArg some (Prod.ext hport hdrive), fun reply' heq => ?_⟩
      cases heq
      exact ⟨hcommand, hcount⟩
    · obtain ⟨hreply, hbuf⟩ := get_disk_info_silent (setDiskInfo d) (eq_false_of_ne_true hanswers)
      rw [if_neg hanswers, hreply, hbuf]
      exact ⟨h.last, h.filled⟩
  refine ⟨?_, hstep.2, fun r hr => ?_, fun before r after heq => ?_⟩
  · rw [recordDisk, List.map_append]
    exact hstep.1
  · rcases List.mem_append.mp hr with hr | hr
    · exact h.drives r hr
    · rw [List.mem_singleton.mp hr]
      rfl
  · rcases append_singleton_split heq with ⟨rfl, rfl⟩ | ⟨after', heq'⟩
    · exact hstep
    · exact h.sizes before r after' heq'

theorem SearchInv.search (granted : Nat → Bool) (stale : Nat → Disk) :
    ∀ codes s ds, SearchInv ports s ds →
      ∃ s', SearchInv ports s' (searchDisks ports granted stale codes (s, ds)).2 := by
  intro codes
  induction codes with
  | nil => exact fun s ds h => ⟨s, h⟩
  | cons i codes ih =>
      intro s ds h
      obtain ⟨hreply, hbuf, _⟩ := check_disk_spec ports (granted i) (stale i) i s
      rw [searchDisks]
      simp only
      generalize checkDisk ports (granted i) (stale i) i s = found at hreply hbuf ⊢
      obtain ⟨val, s'⟩ := found
      simp only at hreply hbuf
      have h' : SearchInv ports s' ds := by
        refine ⟨?_, ?_, h.drives, h.sizes⟩
        · rw [hreply]
          exact h.last
        · rw [hreply, hbuf]
          exact h.filled
      cases val with
      | none => exact ih s' ds h'
      | some val => exact ih _ _ (h'.record val)

theorem disk_search_inv (ports : PortReads) (bootDrive : Nat) (granted : Nat → Bool)
    (stale : Nat → Disk) (buf : ByteMem) :
    ∃ s, SearchInv ports s (diskSearchAndInit ports bootDrive granted stale buf) := by
  have hempty : SearchInv ports ⟨0, [], buf, none⟩ [] := by
    refine ⟨rfl, fun reply h => ?_, fun r hr => absurd hr List.not_mem_nil,
      fun before r after h => ?_⟩
    · cases h
    · cases before <;> cases h
  exact SearchInv.search granted stale _ _ _ (hempty.record _)

/-! ## Which drives are recorded -/

theorem get_disk_info_end (d : Disk) (command : Nat) (s : SearchState) :
    (getDiskInfo ports d command s).next = infoEnd ports s.next := by
  rw [infoEnd, getDiskInfo, getDiskInfo]
  rcases statusLoop (notBusyRound ports) (ataWait - 1) (s.next + 4) with ⟨_ | _, n⟩
  · rfl
  simp only
  rcases statusLoop (dataRound ports) (ataWait - 1) n with ⟨_ | _, n⟩
  · rfl
  · rfl

/-- The search records the drives that the port inputs let it record. -/
theorem search_disks_probes (granted : Nat → Bool) (stale : Nat → Disk) : ∀ codes s ds,
    (searchDisks ports granted stale codes (s, ds)).2.map RecordedDisk.probe =
      ds.map RecordedDisk.probe ++ probesFrom ports granted codes s.next := by
  intro codes
  induction codes with
  | nil => exact fun s ds => (List.append_nil _).symm
  | cons i codes ih =>
      intro s ds
      obtain ⟨_, _, hfound, hnext, hcode⟩ := check_disk_spec ports (granted i) (stale i) i s
      rw [searchDisks, probesFrom]
      simp only
      generalize checkDisk ports (granted i) (stale i) i s = found at hfound hnext hcode ⊢
      obtain ⟨val, s'⟩ := found
      rw [← hfound, ← hnext]
      cases val with
      | none => exact ih s' ds
      | some val =>
          simp only [Option.isSome_some, if_true]
          rw [recordDisk, ih, List.map_append, List.append_assoc, get_disk_info_end]
          have hprobe : val.ataCode = i := hcode val rfl
          subst hprobe
          rfl

theorem disk_search_probes (ports : PortReads) (bootDrive : Nat) (granted : Nat → Bool)
    (stale : Nat → Disk) (buf : ByteMem) :
    (diskSearchAndInit ports bootDrive granted stale buf).map RecordedDisk.probe =
      searchProbes ports bootDrive granted := by
  rw [diskSearchAndInit, recordDisk, search_disks_probes, get_disk_info_end]
  rfl

/-- For every sequence of port values, every recorded disk has the size in its own IDENTIFY data
exactly when, for each of the drives that these values let the search record, the last
`get_disk_info` whose polls end in time is one with this drive. -/
theorem disk_sizes_own_iff (ports : PortReads) (bootDrive : Nat) (granted : Nat → Bool)
    (stale : Nat → Disk) (buf : ByteMem) :
    SizesOwn (diskSearchAndInit ports bootDrive granted stale buf) ↔
      AnswersOwn ports (searchProbes ports bootDrive granted) := by
  obtain ⟨s, h⟩ := disk_search_inv ports bootDrive granted stale buf
  rw [← disk_search_probes ports bootDrive granted stale buf]
  constructor
  · intro hsizes before p after heq
    obtain ⟨xs, ys, hds, rfl, hys⟩ := List.map_eq_append_iff.mp heq
    obtain ⟨r, zs, rfl, rfl, _⟩ := List.map_eq_cons_iff.mp hys
    have hr : r ∈ diskSearchAndInit ports bootDrive granted stale buf := by
      rw [hds]
      simp
    obtain ⟨reply, hreply, hport, hdrive, _⟩ := hsizes r hr
    obtain ⟨hlast, _⟩ := h.sizes xs r zs hds
    rw [hreply] at hlast
    obtain ⟨p', hp', hpair⟩ := Option.map_eq_some_iff.mp hlast.symm
    exact ⟨p', hp', hpair.trans ((Prod.ext hport hdrive).trans (h.drives r hr))⟩
  · intro hanswers r hr
    obtain ⟨before, after, heq⟩ := List.append_of_mem hr
    obtain ⟨p', hp', hsame⟩ := hanswers (before.map RecordedDisk.probe) r.probe
      (after.map RecordedDisk.probe) (by rw [heq, List.map_append, List.map_cons])
    obtain ⟨hlast, hgives⟩ := h.sizes before r after heq
    rw [hp'] at hlast
    obtain ⟨reply, hreply, hpair⟩ := Option.map_eq_some_iff.mp hlast
    obtain ⟨hport, hdrive⟩ := Prod.ext_iff.mp (hpair.trans (hsame.trans (h.drives r hr).symm))
    obtain ⟨hcommand, hcount⟩ := hgives reply hreply
    exact ⟨reply, hreply, hport, hdrive, hcommand, hcount⟩

/-- The search only adds disks. -/
theorem search_disks_append (ports : PortReads) (granted : Nat → Bool) (stale : Nat → Disk) :
    ∀ codes r, ∃ found, (searchDisks ports granted stale codes r).2 = r.2 ++ found := by
  intro codes
  induction codes with
  | nil => exact fun r => ⟨[], (List.append_nil _).symm⟩
  | cons i codes ih =>
      intro r
      rw [searchDisks]
      rcases checkDisk ports (granted i) (stale i) i r.1 with ⟨_ | val, s⟩
      · exact ih (s, r.2)
      · obtain ⟨found, hfound⟩ := ih (recordDisk ports val (s, r.2))
        exact ⟨_, hfound.trans (List.append_assoc ..)⟩

/-- A loop whose status never changes does not end in time. -/
theorem status_loop_never {round : Nat → Bool × Nat} (h : ∀ n, (round n).1 = false) :
    ∀ k n, (statusLoop round k n).1 = false := by
  intro k
  induction k with
  | zero => exact h
  | succ k ih =>
      intro n
      rw [statusLoop, h n]
      exact ih _

/-- A boot disk that stays busy is given a size from memory that nothing has filled. -/
theorem busy_boot_disk_sized :
    ¬ SizesOwn (diskSearchAndInit (fun _ => 0x80) 0x80 (fun _ => true)
      (fun _ => ⟨0, 0, 0, 0, 0, 0, 0, false, 0, 0⟩) fun _ => 0x5a) := by
  intro hsizes
  have hbusy : ∀ n, (notBusyRound (fun _ => 0x80) n).1 = false := fun n => by
    norm_num [notBusyRound, notBusy, inb]
  have hsilent : Answers (fun _ => 0x80) 0 = false := by
    rw [Answers, status_loop_never hbusy, Bool.false_and]
  obtain ⟨found, hfound⟩ := search_disks_append (fun _ => 0x80) (fun _ => true)
    (fun _ => ⟨0, 0, 0, 0, 0, 0, 0, false, 0, 0⟩) [0x81, 0x82, 0x83]
    (recordDisk (fun _ => 0x80) ⟨diskTypeReal, 0x80, 0, 0, 0, 0, 0, false, 0, 0⟩
      (⟨0, [], fun _ => 0x5a, none⟩, []))
  obtain ⟨reply, hreply, _⟩ := hsizes _ (by
    rw [diskSearchAndInit, hfound]
    exact List.mem_cons_self)
  have hnone := (get_disk_info_silent (s := ⟨0, [], fun _ => 0x5a, none⟩)
    (setDiskInfo ⟨diskTypeReal, 0x80, 0, 0, 0, 0, 0, false, 0, 0⟩) hsilent).1
  rw [hnone] at hreply
  cases hreply

end Genesis32
