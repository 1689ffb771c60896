import Genesis32.Disk.Driver
import Genesis32.Heap.PageHeapLaws

/-!
# The disk stream

`disk/disk_stream.c`: a position on a disk, and a read of any bytes from it. `get_bytes_from_disk`
reads one sector after the other to a page of the kernel heap and copies the part of it that belongs
to the request, with one index into the target and one into the sector. The stream and the target
are memory of the caller, so they lie neither in the kernel table nor in a free page.
-/

namespace Genesis32

open Word

/-! ## The model -/

/-- What `get_bytes_from_disk` meets: the disks by their address, and the port inputs of the `k`-th
read of the call. -/
structure StreamEnv where
  disks : Nat → DiskPorts
  ports : Nat → PortReads

/-- `disk_stream_seek`. The stream at `ds` holds `pos`, and behind it the address of the disk. -/
def diskStreamSeek (m : ByteMem) (ds position : Nat) : ByteMem := m.setWord32 ds position

/-- The inner `for` of `get_bytes_from_disk`: the memory and `i`. -/
def copySector (ramLocation buf noBytes : Nat) : Nat → Nat → Nat → ByteMem → ByteMem × Nat
  | 0, i, _, m => (m, i)
  | fuel + 1, i, index, m =>
      if i < noBytes ∧ index < 512 then
        copySector ramLocation buf noBytes fuel (i + 1) (index + 1)
          (Function.update m (ramLocation + i) (m (buf + index)))
      else (m, i)

/-- The outer `for` of `get_bytes_from_disk` and the `kfree` behind it, with `count` sectors left
and `k` reads made. -/
def copySectors (env : StreamEnv) (H : Heap) (ds noBytes ramLocation buf : Nat) :
    Nat → Nat → Nat → Nat → Nat → ByteMem → ByteMem
  | 0, _, _, _, _, m => kfree H m buf
  | count + 1, k, lba, i, index, m =>
      let r := readDiskBlock (env.ports k) (env.disks (m.word32 (ds + 4))) lba 1 (m.view buf)
      let m := m.copy buf r.buf 0 512
      if r.code ≠ 0 then kfree H m buf
      else
        match copySector ramLocation buf noBytes (512 - index) i index m with
        | (m, i) => copySectors env H ds noBytes ramLocation buf count (k + 1) (add32 lba 1) i 0 m

/-- `get_bytes_from_disk`. -/
def getBytesFromDisk (env : StreamEnv) (H : Heap) (m : ByteMem) (ds noBytes ramLocation : Nat) :
    ByteMem :=
  if noBytes = 0 then m
  else
    match kzalloc H m 512 with
    | (buf, m) =>
        let lba := m.word32 ds / 512
        let index := m.word32 ds % 512
        let count := add32 noBytes index / 512
        let count := if add32 noBytes index % 512 ≠ 0 then count + 1 else count
        copySectors env H ds noBytes ramLocation buf count 0 lba 0 index m

/-- A seek sets the position and leaves the address of the disk alone. -/
theorem disk_stream_seek_pos (m : ByteMem) (ds : Nat) {position : Nat}
    (hposition : position < 4294967296) :
    (diskStreamSeek m ds position).word32 ds = position ∧
      (diskStreamSeek m ds position).word32 (ds + 4) = m.word32 (ds + 4) := by
  rw [diskStreamSeek, ByteMem.word32_setWord32_same, Nat.mod_eq_of_lt hposition]
  exact ⟨rfl, ByteMem.word32_congr fun x hl hh => ByteMem.setWord32_outside (by omega)⟩

/-! ## One sector -/

/-- The device: a read of one sector that succeeds leaves in the buffer the sector of `disk` that
the task file of its command names. -/
def Delivers (disk : ByteMem) (d : DiskPorts) (r : Transfer) : Prop :=
  ∀ before after, r.outs = before ++ outb (d.baseDataPort + 7) 0x20 :: after → r.code = 0 →
    ∀ x < 512, r.buf x = disk (512 * taskFileLba d.baseDataPort before + x)

/-- The `k`-th read of a call at position `pos` succeeds. -/
def SectorRead (env : StreamEnv) (d : DiskPorts) (pos k : Nat) : Prop :=
  (readDiskBlock (env.ports k) d (pos / 512 + k) 1 fun _ => 0x00).code = 0

/-- Whether a read of one sector succeeds does not depend on the buffer. -/
theorem read_code_buf (ports : PortReads) (d : DiskPorts) (lba : Nat) (buf buf' : ByteMem) :
    (readDiskBlock ports d lba 1 buf).code = (readDiskBlock ports d lba 1 buf').code := by
  unfold readDiskBlock
  cases startCommand ports d lba 1 0x20 with
  | error e => rfl
  | ok r =>
      obtain ⟨n, outs⟩ := r
      simp only
      cases pollStatus ports notBusy ataWait n with
      | none => rfl
      | some n' =>
          simp only [readSectors]
          cases pollStatus ports dataRequest ataWait n' with
          | none => rfl
          | some n'' =>
              simp only
              split_ifs <;> rfl

/-- A read that succeeds brings the sector that was asked for, if its number has 28 bits. -/
theorem delivered {disk : ByteMem} {ports : PortReads} {d : DiskPorts} {lba : Nat} {buf : ByteMem}
    (hlba : lba < 268435456) (hdevice : Delivers disk d (readDiskBlock ports d lba 1 buf))
    (hcode : (readDiskBlock ports d lba 1 buf).code = 0) {x : Nat} (hx : x < 512) :
    (readDiskBlock ports d lba 1 buf).buf x = disk (512 * lba + x) := by
  have houts : (readDiskBlock ports d lba 1 buf).outs =
      taskFile d lba 1 ++ outb (d.baseDataPort + 7) 0x20 :: [] := by
    rcases start_command_cases ports d lba 1 0x20 with ⟨code, outs, heq, hneg, _⟩ | ⟨n, heq, _⟩
    · rw [readDiskBlock, heq] at hcode
      exact absurd hcode (Int.ne_of_lt hneg)
    · rw [readDiskBlock, heq]
      simp only
      cases pollStatus ports notBusy ataWait n with
      | none => rfl
      | some n' => exact read_sectors_outs ports _ 1 buf 0 n'
  have hsector := hdevice _ _ houts hcode x hx
  rwa [task_file_lba, Nat.mod_eq_of_lt hlba] at hsector

/-- The copy loop copies up to the end of the sector or of the request, if the target and the buffer
share no byte. -/
theorem copy_sector_eq {ram buf noBytes : Nat}
    (hapart : ∀ i < noBytes, ∀ j < 512, ram + i ≠ buf + j) :
    ∀ fuel i index m, index + fuel = 512 → i ≤ noBytes →
      copySector ram buf noBytes fuel i index m =
        (m.copy (ram + i) m (buf + index) (min (noBytes - i) fuel),
          i + min (noBytes - i) fuel) := by
  intro fuel
  induction fuel with
  | zero =>
      intro i index m _ _
      rw [copySector, Nat.min_zero, ByteMem.copy_zero, Nat.add_zero]
  | succ fuel ih =>
      intro i index m hindex hi
      rw [copySector]
      by_cases hlt : i < noBytes
      · have hmin : min (noBytes - i) (fuel + 1) = min (noBytes - (i + 1)) fuel + 1 := by omega
        rw [if_pos ⟨hlt, by omega⟩, ih (i + 1) (index + 1) _ (by omega) (by omega), hmin]
        have ht : min (noBytes - (i + 1)) fuel ≤ fuel := Nat.min_le_right _ _
        generalize min (noBytes - (i + 1)) fuel = t at ht
        refine Prod.ext (funext fun x => ?_) (by simp only; omega)
        simp only
        by_cases hfirst : x = ram + i
        · rw [ByteMem.copy_outside (by omega), hfirst, Function.update_self,
            ByteMem.copy_inside (by omega) (by omega), Nat.sub_self, Nat.add_zero]
        · by_cases hin : ram + i ≤ x ∧ x < ram + i + (t + 1)
          · have hne := hapart i hlt (index + 1 + (x - (ram + (i + 1)))) (by omega)
            rw [ByteMem.copy_inside (by omega) (by omega), Function.update_of_ne (by omega),
              ByteMem.copy_inside hin.1 hin.2]
            congr 1
            omega
          · rw [ByteMem.copy_outside (by omega), Function.update_of_ne hfirst,
              ByteMem.copy_outside (by omega)]
      · rw [if_neg (by omega), Nat.sub_eq_zero_of_le (by omega), Nat.zero_min, ByteMem.copy_zero,
          Nat.add_zero]

/-! ## The whole request -/

/-- A byte of the address space that belongs to a caller: it lies neither in the kernel table nor in
a free page. -/
structure CallerByte (P : PageHeap) (m : ByteMem) (x : Nat) : Prop where
  word : x < 4294967296
  outside : ¬ P.InTable x
  taken : ∀ k < P.table.total, P.page k ≤ x → x < P.page k + 4096 →
    P.tableOf m k ≠ blockMarks.free

/-- The number of bytes of a request that lie in its first `k` sectors. -/
def bytesOfSectors (pos noBytes k : Nat) : Nat := min noBytes (512 * k - pos % 512)

/-- The number of sectors of a request. -/
def sectorsOf (pos noBytes : Nat) : Nat := (noBytes + pos % 512 + 511) / 512

/-- From `m` to `m'` the `n` bytes of the disk from `pos` have been stored at `ram`, and nothing
else that belongs to a caller has changed; nor have the stream and the kernel table. -/
structure StreamRead (P : PageHeap) (m : ByteMem) (ds ram pos n : Nat) (disk m' : ByteMem) : Prop
    where
  stored : ∀ i < n, m' (ram + i) = disk (pos + i)
  past : ∀ x, CallerByte P m x → x < ram ∨ ram + n ≤ x → m' x = m x
  pos : m'.word32 ds = pos
  table : ∀ x, P.InTable x → m' x = m x

/-- What a request relies on: the stream and the target belong to callers and share no byte, and the
page for the sectors is free. -/
structure StreamRequest (P : PageHeap) (m : ByteMem) (ds ram pos noBytes kb : Nat) : Prop where
  pos : m.word32 ds = pos
  stream : ∀ j < 8, CallerByte P m (ds + j)
  target : ∀ i < noBytes, CallerByte P m (ram + i)
  apart : ∀ j < 8, ∀ i < noBytes, ds + j ≠ ram + i
  inTable : kb < P.table.total
  free : P.tableOf m kb = blockMarks.free

/-- The invariant of the outer loop with the first `k` sectors copied. -/
structure SectorsCopied (P : PageHeap) (m : ByteMem) (ram pos noBytes kb k : Nat)
    (disk m' : ByteMem) : Prop where
  stored : ∀ i < bytesOfSectors pos noBytes k, m' (ram + i) = disk (pos + i)
  past : ∀ x, CallerByte P m x → x < ram ∨ ram + bytesOfSectors pos noBytes k ≤ x → m' x = m x
  table : ∀ x, P.InTable x → m' x = blockMarks.put m (P.table.entries + kb) 1 x

variable {P : PageHeap} {m m' disk : ByteMem} {ds ram pos noBytes kb k : Nat}

/-- The page for the sectors belongs to no caller and is no part of the table. -/
theorem StreamRequest.page (h : StreamRequest P m ds ram pos noBytes kb) {x : Nat}
    (hl : P.page kb ≤ x) (hh : x < P.page kb + 4096) : ¬ CallerByte P m x ∧ ¬ P.InTable x := by
  have hbound := PageHeap.page_bound (P := P) (k := kb) (b := 1) (by have := h.inTable; omega)
  refine ⟨fun hcaller => hcaller.taken kb h.inTable hl hh h.free,
    PageHeap.not_in_table_of_in_pages ⟨?_, by omega⟩⟩
  simp only [PageHeap.page] at hl
  omega

/-- Storing in the page for the sectors keeps the invariant. -/
theorem SectorsCopied.page (h : SectorsCopied P m ram pos noBytes kb k disk m')
    (hreq : StreamRequest P m ds ram pos noBytes kb) (src : ByteMem) :
    SectorsCopied P m ram pos noBytes kb k disk (m'.copy (P.page kb) src 0 512) := by
  have hout : ∀ x, CallerByte P m x ∨ P.InTable x → m'.copy (P.page kb) src 0 512 x = m' x := by
    intro x hx
    refine ByteMem.copy_outside ?_
    by_contra hin
    have hpage := hreq.page (x := x) (by omega) (by omega)
    exact hx.elim hpage.1 hpage.2
  refine ⟨fun i hi => ?_, fun x hx hrange => ?_, fun x hx => ?_⟩
  · rw [hout _ (Or.inl (hreq.target i (lt_of_lt_of_le hi (Nat.min_le_left _ _))))]
    exact h.stored i hi
  · rw [hout x (Or.inl hx)]
    exact h.past x hx hrange
  · rw [hout x (Or.inr hx)]
    exact h.table x hx

/-- The index into the sector at which a round of the outer loop starts. -/
def startIndex (pos k : Nat) : Nat := if k = 0 then pos % 512 else 0

/-- Copying the part of the next sector that belongs to the request makes it one sector more. -/
theorem SectorsCopied.copy (h : SectorsCopied P m ram pos noBytes kb k disk m')
    (hreq : StreamRequest P m ds ram pos noBytes kb) (hk : k < sectorsOf pos noBytes)
    (hsector : ∀ x < 512, m' (P.page kb + x) = disk (512 * (pos / 512 + k) + x)) :
    bytesOfSectors pos noBytes k +
        min (noBytes - bytesOfSectors pos noBytes k) (512 - startIndex pos k) =
      bytesOfSectors pos noBytes (k + 1) ∧
    SectorsCopied P m ram pos noBytes kb (k + 1) disk
      (m'.copy (ram + bytesOfSectors pos noBytes k) m' (P.page kb + startIndex pos k)
        (min (noBytes - bytesOfSectors pos noBytes k) (512 - startIndex pos k))) := by
  have hpos := Nat.div_add_mod pos 512
  have hmod := Nat.mod_lt pos (show 0 < 512 by omega)
  -- the two indices are at the same byte of the request
  have hindex : 512 * (pos / 512 + k) + startIndex pos k = pos + bytesOfSectors pos noBytes k ∧
      startIndex pos k < 512 := by
    unfold startIndex bytesOfSectors
    unfold sectorsOf at hk
    split_ifs <;> omega
  have hnext : bytesOfSectors pos noBytes k +
      min (noBytes - bytesOfSectors pos noBytes k) (512 - startIndex pos k) =
        bytesOfSectors pos noBytes (k + 1) := by
    unfold startIndex bytesOfSectors
    unfold sectorsOf at hk
    split_ifs <;> omega
  have hle : bytesOfSectors pos noBytes (k + 1) ≤ noBytes := Nat.min_le_left _ _
  refine ⟨hnext, fun i hi => ?_, fun x hx hrange => ?_, fun x hx => ?_⟩
  · by_cases hold : i < bytesOfSectors pos noBytes k
    · rw [ByteMem.copy_outside (by omega)]
      exact h.stored i hold
    · rw [ByteMem.copy_inside (by omega) (by omega), Nat.add_assoc, hsector _ (by omega)]
      congr 1
      omega
  · rw [ByteMem.copy_outside (by omega)]
    exact h.past x hx (by omega)
  · rw [ByteMem.copy_outside ?_]
    · exact h.table x hx
    · by_contra hin
      refine (hreq.target (x - ram) (by omega)).outside ?_
      rwa [Nat.add_sub_cancel' (by omega)]

/-- The stream itself stays as it is. -/
theorem StreamRequest.stream_kept (h : StreamRequest P m ds ram pos noBytes kb) {n : Nat}
    (hn : n ≤ noBytes) (hpast : ∀ x, CallerByte P m x → x < ram ∨ ram + n ≤ x → m' x = m x) :
    m'.word32 ds = pos ∧ m'.word32 (ds + 4) = m.word32 (ds + 4) := by
  have hbyte : ∀ x, ds ≤ x → x < ds + 8 → m' x = m x := by
    intro x hl hh
    have hcaller := h.stream (x - ds) (by omega)
    rw [Nat.add_sub_cancel' hl] at hcaller
    refine hpast x hcaller ?_
    by_contra hin
    refine h.apart (x - ds) (by omega) (x - ram) (by omega) ?_
    omega
  refine ⟨?_, ByteMem.word32_congr fun x hl hh => hbyte x (by omega) (by omega)⟩
  rw [ByteMem.word32_congr fun x hl hh => hbyte x hl (by omega)]
  exact h.pos

/-- Giving the page back restores the kernel table. -/
theorem SectorsCopied.free (h : SectorsCopied P m ram pos noBytes kb k disk m')
    (hreq : StreamRequest P m ds ram pos noBytes kb) :
    StreamRead P m ds ram pos (bytesOfSectors pos noBytes k) disk
      (kfree P.toHeap m' (P.page kb)) := by
  have hin := hreq.inTable
  -- the page was one free entry, and it is owned since `kzalloc` marked it
  have hrun : blockMarks.FreeRun (P.tableOf m) P.table.total kb (pagesFor 512) := by
    rw [pages_for_sector]
    refine ⟨by omega, fun j hj => ?_⟩
    rw [show kb + j = kb by omega]
    exact hreq.free
  have howned : P.Owns m' ⟨P.page kb, 512⟩ := by
    have hnew : P.Owns (blockMarks.put m (P.table.entries + kb) (pagesFor 512))
        ⟨P.page kb, 512⟩ := PageHeap.owns_marked hrun (by rw [pages_for_sector]; omega) rfl
    exact hnew.congr h.table
  obtain ⟨l, hptr, _, hfree⟩ := howned.heap_free
  obtain rfl : kb = l := PageHeap.page_inj hptr
  have hout : ∀ x, ¬ P.InTable x → kfree P.toHeap m' (P.page kb) x = m' x := by
    intro x hx
    simp only [PageHeap.InTable] at hx
    rw [kfree, hfree, pages_for_sector]
    exact Marks.erase_outside (by omega)
  have hpast : ∀ x, CallerByte P m x → x < ram ∨ ram + bytesOfSectors pos noBytes k ≤ x →
      kfree P.toHeap m' (P.page kb) x = m x := by
    intro x hx hrange
    rw [hout x hx.outside]
    exact h.past x hx hrange
  have hle : bytesOfSectors pos noBytes k ≤ noBytes := Nat.min_le_left _ _
  refine ⟨fun i hi => ?_, hpast, (hreq.stream_kept hle hpast).1, fun x hx => ?_⟩
  · rw [hout _ (hreq.target i (by omega)).outside]
    exact h.stored i hi
  · -- the entry of the page is as free as before, and no other entry was touched
    rw [kfree, hfree, pages_for_sector]
    by_cases hentry : x = P.table.entries + kb
    · rw [hentry, Marks.erase_inside (by omega) (by omega)]
      exact hreq.free.symm
    · rw [Marks.erase_outside (by omega), h.table x hx, Marks.put_outside (by omega)]

/-- The outer loop copies sectors until a read fails, and gives the page back. -/
theorem copy_sectors_read {env : StreamEnv} {d : DiskPorts}
    (hreq : StreamRequest P m ds ram pos noBytes kb) (hdisk : env.disks (m.word32 (ds + 4)) = d)
    (hposlt : pos < 4294967296) (hno : noBytes + 511 < 4294967296)
    (hdevice : ∀ k < sectorsOf pos noBytes, ∀ buf,
      Delivers disk d (readDiskBlock (env.ports k) d (pos / 512 + k) 1 buf)) {l : Nat}
    (hl : l ≤ sectorsOf pos noBytes)
    (hstop : l = sectorsOf pos noBytes ∨ ¬ SectorRead env d pos l) :
    ∀ count k m', k + count = sectorsOf pos noBytes → k ≤ l →
      (∀ j < l, SectorRead env d pos j) → SectorsCopied P m ram pos noBytes kb k disk m' →
      StreamRead P m ds ram pos (bytesOfSectors pos noBytes l) disk
        (copySectors env P.toHeap ds noBytes ram (P.page kb) count k (pos / 512 + k)
          (bytesOfSectors pos noBytes k) (startIndex pos k) m') := by
  intro count
  induction count with
  | zero =>
      intro k m' hcount hkl _ h
      -- no sector is left: the loop ends where the copying does
      obtain rfl : k = l := by omega
      exact h.free hreq
  | succ count ih =>
      intro k m' hcount hkl hreads h
      have hle : bytesOfSectors pos noBytes k ≤ noBytes := Nat.min_le_left _ _
      have hfew : sectorsOf pos noBytes < 16777216 := by
        unfold sectorsOf
        omega
      have hsame : env.disks (m'.word32 (ds + 4)) = d := by
        rw [(hreq.stream_kept hle h.past).2, hdisk]
      have hcode :
          (readDiskBlock (env.ports k) d (pos / 512 + k) 1 (m'.view (P.page kb))).code = 0 ↔
          SectorRead env d pos k := by
        rw [SectorRead, read_code_buf _ _ _ _ fun _ => 0x00]
      rw [copySectors, hsame]
      simp only
      rcases Nat.eq_or_lt_of_le hkl with rfl | hlt
      · -- the read fails: what has been copied stays
        have hfails : ¬ SectorRead env d pos k := hstop.resolve_left (by omega)
        rw [if_pos (mt hcode.mp hfails)]
        exact (h.page hreq _).free hreq
      · have hread := hcode.mpr (hreads k hlt)
        rw [if_neg (not_not.mpr hread)]
        have hloaded : ∀ x < 512, m'.copy (P.page kb)
            (readDiskBlock (env.ports k) d (pos / 512 + k) 1 (m'.view (P.page kb))).buf 0 512
              (P.page kb + x) = disk (512 * (pos / 512 + k) + x) := by
          intro x hx
          rw [ByteMem.copy_inside (by omega) (by omega), Nat.zero_add, Nat.add_sub_cancel_left]
          exact delivered (by omega) (hdevice k (by omega) _) hread hx
        obtain ⟨hnext, hcopied⟩ := (h.page hreq _).copy hreq (by omega) hloaded
        -- the inner loop then copies these bytes, and the round that follows starts at byte 0
        have hstart : startIndex pos k < 512 := by
          unfold startIndex
          split_ifs <;> omega
        have hapart : ∀ i < noBytes, ∀ j < 512, ram + i ≠ P.page kb + j := by
          intro i hi j hj heq
          refine (hreq.page (x := ram + i) (by omega) (by omega)).1 (hreq.target i hi)
        rw [copy_sector_eq hapart _ _ _ _ (by omega) hle]
        simp only
        rw [hnext, add32_of_lt (by omega), Nat.add_assoc]
        exact ih (k + 1) _ (by omega) (by omega) hreads hcopied

/-- `get_bytes_from_disk` stores the bytes of the disk from the position on, all that were asked for
if every sector can be read, and those of the earlier sectors if one cannot. On every exit the
position and the kernel table are as before, and nothing else of a caller has changed. -/
theorem get_bytes_from_disk_reads {env : StreamEnv} {d : DiskPorts}
    (hbuf : (kzalloc P.toHeap m 512).1 ≠ 0) (hpos : m.word32 ds = pos)
    (hdisk : env.disks (m.word32 (ds + 4)) = d) (hstream : ∀ j < 8, CallerByte P m (ds + j))
    (htarget : ∀ i < noBytes, CallerByte P m (ram + i))
    (hapart : ∀ j < 8, ∀ i < noBytes, ds + j ≠ ram + i) (hno : noBytes + 511 < 4294967296)
    (hdevice : ∀ k < sectorsOf pos noBytes, ∀ buf,
      Delivers disk d (readDiskBlock (env.ports k) d (pos / 512 + k) 1 buf)) :
    ((∀ k < sectorsOf pos noBytes, SectorRead env d pos k) →
      StreamRead P m ds ram pos noBytes disk (getBytesFromDisk env P.toHeap m ds noBytes ram)) ∧
    ∀ k < sectorsOf pos noBytes, (∀ j < k, SectorRead env d pos j) → ¬ SectorRead env d pos k →
      StreamRead P m ds ram pos (bytesOfSectors pos noBytes k) disk
        (getBytesFromDisk env P.toHeap m ds noBytes ram) := by
  have hposlt : pos < 4294967296 := hpos ▸ ByteMem.word32_lt m ds
  have hall : bytesOfSectors pos noBytes (sectorsOf pos noBytes) = noBytes := by
    unfold bytesOfSectors sectorsOf
    omega
  -- both parts are one statement about the number `l` of sectors that can be read
  suffices hmain : ∀ l ≤ sectorsOf pos noBytes, (∀ j < l, SectorRead env d pos j) →
      (l = sectorsOf pos noBytes ∨ ¬ SectorRead env d pos l) →
      StreamRead P m ds ram pos (bytesOfSectors pos noBytes l) disk
        (getBytesFromDisk env P.toHeap m ds noBytes ram) by
    refine ⟨fun hreads => ?_, fun k hk hreads hfails => hmain k hk.le hreads (Or.inr hfails)⟩
    have hread := hmain _ le_rfl hreads (Or.inl rfl)
    rwa [hall] at hread
  intro l hl hreads hstop
  rw [getBytesFromDisk]
  by_cases hzero : noBytes = 0
  · subst hzero
    have hnone : bytesOfSectors pos 0 l = 0 := Nat.zero_min _
    rw [if_pos rfl, hnone]
    exact ⟨fun i hi => absurd hi (Nat.not_lt_zero i), fun _ _ _ => rfl, hpos, fun _ _ => rfl⟩
  · rw [if_neg hzero]
    rcases PageHeap.kzalloc_cases (P := P) m (show 512 < 4294967296 by omega) with
      ⟨kb, _, _, hfit, heq⟩ | heq
    swap
    · rw [heq] at hbuf
      exact absurd rfl hbuf
    rw [pages_for_sector] at hfit heq
    have hbound := hfit.run.bound
    have hreq : StreamRequest P m ds ram pos noBytes kb :=
      ⟨hpos, hstream, htarget, hapart, by omega, hfit.run.free 0 (by omega)⟩
    -- before the first round nothing is copied, and the page is a cleared page of the heap
    have hinit : SectorsCopied P m ram pos noBytes kb 0 disk
        (ByteMem.fill (blockMarks.put m (P.table.entries + kb) 1) (P.page kb) 512 0x00) := by
      have hout : ∀ x, CallerByte P m x ∨ P.InTable x →
          ByteMem.fill (blockMarks.put m (P.table.entries + kb) 1) (P.page kb) 512 0x00 x =
            blockMarks.put m (P.table.entries + kb) 1 x := by
        intro x hx
        refine ByteMem.fill_outside ?_
        by_contra hin
        have hpage := hreq.page (x := x) (by omega) (by omega)
        exact hx.elim hpage.1 hpage.2
      refine ⟨fun i hi => ?_, fun x hx _ => ?_, fun x hx => hout x (Or.inr hx)⟩
      · unfold bytesOfSectors at hi
        omega
      · have houtside := hx.outside
        simp only [PageHeap.InTable] at houtside
        rw [hout x (Or.inl hx), Marks.put_outside (by omega)]
    -- the source counts the sectors from the end of the request in its first sector
    have hcount : (if add32 noBytes (pos % 512) % 512 ≠ 0 then add32 noBytes (pos % 512) / 512 + 1
        else add32 noBytes (pos % 512) / 512) = sectorsOf pos noBytes := by
      rw [add32_of_lt (by omega)]
      unfold sectorsOf
      split_ifs <;> omega
    have hstart : bytesOfSectors pos noBytes 0 = 0 := by
      unfold bytesOfSectors
      omega
    rw [heq]
    simp only
    rw [(hreq.stream_kept (Nat.min_le_left _ _) hinit.past).1, hcount]
    have hloop := copy_sectors_read hreq hdisk hposlt hno hdevice hl hstop
      (sectorsOf pos noBytes) 0 _ (by omega) (by omega) hreads hinit
    rwa [hstart, Nat.add_zero] at hloop

/-! ## A disk of one byte -/

/-- A device that is ready at once and whose data port always reads `0x0808`. -/
def steadyPorts : PortReads := fun _ => 0x0808

def steadyDisk : DiskPorts := ⟨0x1f0, true, 1000⟩

def steadyEnv : StreamEnv := ⟨fun _ => steadyDisk, fun _ => steadyPorts⟩

theorem poll_status_ready {ports : PortReads} {ready : Nat → Bool} {n : Nat}
    (h : ready (inb ports n) = true) (k : Nat) : pollStatus ports ready k n = some (n + 1) := by
  cases k <;> rw [pollStatus, if_pos h]

theorem steady_inb (n : Nat) : inb steadyPorts n = 0x08 := by
  norm_num [inb, steadyPorts]

theorem steady_in16 (n : Nat) : in16 steadyPorts n = 0x0808 := by
  norm_num [in16, steadyPorts]

/-- The word loop fills a sector with the bytes of the port. -/
theorem steady_words (buf : ByteMem) (n : Nat) {x : Nat} (hx : x < 512) :
    readWords steadyPorts buf 0 256 0 n x = 0x08 := by
  obtain ⟨_, hwords⟩ := read_words_spec steadyPorts 0 256 0 n buf
  have hword := hwords (x / 2) (by omega)
  rw [Nat.zero_add, Nat.zero_add, steady_in16] at hword
  have hport : ByteMem.word16 (fun _ => 0x08) 0 = 0x0808 := rfl
  obtain ⟨hlow, hhigh⟩ := ByteMem.word16_inj (hword.trans hport.symm)
  obtain heven | hodd : x = 2 * (x / 2) ∨ x = 2 * (x / 2) + 1 := by omega
  · rw [heven]
    exact hlow
  · rw [hodd]
    exact hhigh

/-- A sector below the end of the disk is read without an error. -/
theorem steady_read {lba : Nat} (hlba : lba < 1000) (buf : ByteMem) :
    (readDiskBlock steadyPorts steadyDisk lba 1 buf).code = 0 ∧
      ∀ x < 512, (readDiskBlock steadyPorts steadyDisk lba 1 buf).buf x = 0x08 := by
  have hidle : ∀ n, notBusy (inb steadyPorts n) = true := fun n => by
    rw [steady_inb]
    decide
  have hrequest : ∀ n, dataRequest (inb steadyPorts n) = true := fun n => by
    rw [steady_inb]
    decide
  have hfine : ∀ n, statusError steadyPorts n = false := fun n => by
    rw [statusError, steady_inb, steady_inb]
    decide
  have hbounds : ¬ add32 lba 1 > steadyDisk.sectCount := by
    rw [add32_of_lt (by omega)]
    simp only [steadyDisk]
    omega
  simp only [readDiskBlock, startCommand, if_neg hbounds, poll_status_ready (hidle _),
    readSectors, poll_status_ready (hrequest _), hfine, Bool.false_eq_true, if_false]
  exact ⟨trivial, fun x hx => steady_words buf _ hx⟩

/-- Memory below the heap and behind the table belongs to callers. -/
theorem low_caller_byte {m : ByteMem} {x : Nat} (hl : 0x7e08 ≤ x) (hh : x < 0x1000000) :
    CallerByte smallPageHeap m x where
  word := by omega
  outside := by
    simp only [PageHeap.InTable, smallPageHeap, smallHeap]
    omega
  taken := by
    intro k _ hlow
    simp only [PageHeap.page, smallPageHeap, smallHeap] at hlow
    omega

/-- A seek to position 100, and a read of 600 bytes from there. -/
theorem get_bytes_from_disk_reads_steady :
    StreamRead smallPageHeap (diskStreamSeek (fun _ => 0x00) 0x9000 100) 0x9000 0x9100 100 600
      (fun _ => 0x08) (getBytesFromDisk steadyEnv smallHeap
        (diskStreamSeek (fun _ => 0x00) 0x9000 100) 0x9000 600 0x9100) := by
  have hfew : sectorsOf 100 600 = 2 := by decide
  refine (get_bytes_from_disk_reads (P := smallPageHeap) (by decide +kernel)
    (disk_stream_seek_pos _ _ (by decide)).1 (show steadyEnv.disks _ = steadyDisk from rfl)
    (fun j hj => low_caller_byte (by omega) (by omega))
    (fun i hi => low_caller_byte (by omega) (by omega)) (fun j hj i hi => by omega) (by decide)
    fun k hk buf before after _ _ x hx => ?_).1 fun k hk => ?_
  · exact (steady_read (by omega) buf).2 x hx
  · exact (steady_read (by omega) _).1

end Genesis32
