import Genesis32.Disk.Driver
import Genesis32.FileSyst.Partitions
import Genesis32.FileSyst.Bpb

/-!
# Failed reads

The callers of `read_disk_block` take a negative value for a failure. A time-out and a request
outside the disk are negative; an error that the device reports is `DISK_READ_ERR`, which is not.
`failed_read_iff` says for which devices and requests no failed read is interpreted.
-/

namespace Genesis32

open Word

/-- The device takes the command in time, announces the first sector in time, and then has its
error bit or its fault bit set. -/
def DeviceReportsError (ports : PortReads) : Prop :=
  ∃ a b c e, LeavesAt ports notBusy 0 a ∧ LeavesAt ports notBusy a b ∧
    LeavesAt ports notBusy b c ∧ LeavesAt ports dataRequest c e ∧ statusError ports e = true

/-- A failed read of one sector leaves the buffer as it was. Its return value is negative, unless
the request lies on the disk and the device reports an error. -/
theorem read_sector_cases (ports : PortReads) (d : DiskPorts) (lba : Nat) (buf : ByteMem) :
    (∃ outs code, readDiskBlock ports d lba 1 buf = ⟨code, 0, outs, buf⟩ ∧ code < 0 ∧
      (add32 lba 1 ≤ d.sectCount → ¬ DeviceReportsError ports)) ∨
    (∃ outs, readDiskBlock ports d lba 1 buf = ⟨diskReadErr, 0, outs, buf⟩ ∧
      add32 lba 1 ≤ d.sectCount ∧ DeviceReportsError ports) ∨
    (∃ outs buf', readDiskBlock ports d lba 1 buf = ⟨0, 1, outs, buf'⟩ ∧
      ¬ DeviceReportsError ports) := by
  have htimeOut : (-timeOut : Int) < 0 := by decide
  -- a loop that gives up never leaves, so the device does not come to report an error
  have hnever : ∀ {ready : Nat → Bool} {n n' : Nat},
      pollStatus ports ready ataWait n = none → ¬ LeavesAt ports ready n n' := by
    intro ready n n' hnone hleaves
    rw [poll_status_eq_some.mpr hleaves] at hnone
    cases hnone
  have honce : ∀ {ready : Nat → Bool} {n n₁ n₂ : Nat},
      pollStatus ports ready ataWait n = some n₁ → LeavesAt ports ready n n₂ → n₂ = n₁ := by
    intro ready n n₁ n₂ hsome hleaves
    rw [poll_status_eq_some.mpr hleaves] at hsome
    exact Option.some.inj hsome
  rw [readDiskBlock, startCommand]
  by_cases hbounds : add32 lba 1 > d.sectCount
  · rw [if_pos hbounds]
    exact Or.inl ⟨_, _, rfl, by decide, fun h => by omega⟩
  · rw [if_neg hbounds]
    cases ha : pollStatus ports notBusy ataWait 0 with
    | none =>
        refine Or.inl ⟨_, _, rfl, htimeOut, ?_⟩
        rintro _ ⟨a, b, c, e, hleaves, _⟩
        exact hnever ha hleaves
    | some a =>
    cases hb : pollStatus ports notBusy ataWait a with
    | none =>
        simp only [hb]
        refine Or.inl ⟨_, _, rfl, htimeOut, ?_⟩
        rintro _ ⟨a', b, c, e, hleaves, hleaves', _⟩
        obtain rfl := honce ha hleaves
        exact hnever hb hleaves'
    | some b =>
    simp only [hb]
    cases hc : pollStatus ports notBusy ataWait b with
    | none =>
        refine Or.inl ⟨_, _, rfl, htimeOut, ?_⟩
        rintro _ ⟨a', b', c, e, hleaves, hleaves', hleaves'', _⟩
        obtain rfl := honce ha hleaves
        obtain rfl := honce hb hleaves'
        exact hnever hc hleaves''
    | some c =>
    simp only [readSectors]
    cases he : pollStatus ports dataRequest ataWait c with
    | none =>
        refine Or.inl ⟨_, _, rfl, htimeOut, ?_⟩
        rintro _ ⟨a', b', c', e, hleaves, hleaves', hleaves'', hdata, _⟩
        obtain rfl := honce ha hleaves
        obtain rfl := honce hb hleaves'
        obtain rfl := honce hc hleaves''
        exact hnever he hdata
    | some e =>
    cases herror : statusError ports e with
    | true =>
        simp only [herror, if_true]
        exact Or.inr (Or.inl ⟨_, rfl, by omega, a, b, c, e, poll_status_eq_some.mp ha,
          poll_status_eq_some.mp hb, poll_status_eq_some.mp hc, poll_status_eq_some.mp he,
          herror⟩)
    | false =>
        simp only [herror, Bool.false_eq_true, if_false]
        refine Or.inr (Or.inr ⟨_, _, rfl, ?_⟩)
        intro hall
        obtain ⟨a', b', c', e', hleaves, hleaves', hleaves'', hdata, herror'⟩ := hall
        obtain rfl := honce ha hleaves
        obtain rfl := honce hb hleaves'
        obtain rfl := honce hc hleaves''
        obtain rfl := honce he hdata
        rw [herror] at herror'
        cases herror'

/-- A failed read of the sector `lba` into the buffer that the allocation returned is not
interpreted: whatever bytes the buffer had, the interpretation finds nothing. -/
def FailedReadIgnored (ports : PortReads) (d : DiskPorts) (lba : Nat)
    (ignored : Int → ByteMem → Prop) : Prop :=
  ∀ stale, (readDiskBlock ports d lba 1 stale).moved ≠ 1 →
    ignored (readDiskBlock ports d lba 1 stale).code (readDiskBlock ports d lba 1 stale).buf

/-- For a caller that ignores what it read exactly when the code is negative, on some stale
buffer. -/
theorem failed_read_ignored_iff (ports : PortReads) (d : DiskPorts) (lba : Nat)
    {ignored : Int → ByteMem → Prop} (hneg : ∀ code buf, code < 0 → ignored code buf)
    (hstale : ∃ buf, ¬ ignored diskReadErr buf) :
    FailedReadIgnored ports d lba ignored ↔
      (d.sectCount < add32 lba 1 ∨ ¬ DeviceReportsError ports) := by
  constructor
  · intro h
    by_contra hcond
    push Not at hcond
    obtain ⟨hbounds, herror⟩ := hcond
    obtain ⟨buf, hbuf⟩ := hstale
    have hignored := h buf
    rcases read_sector_cases ports d lba buf with ⟨_, _, _, _, hno⟩ | ⟨outs, heq, _⟩ |
      ⟨_, _, _, hno⟩
    · exact hno hbounds herror
    · rw [heq] at hignored
      exact hbuf (hignored Nat.zero_ne_one)
    · exact hno herror
  · intro hcond stale hfailed
    rcases read_sector_cases ports d lba stale with ⟨outs, code, heq, hcode, _⟩ |
      ⟨_, _, hbounds, herror⟩ | ⟨outs, buf', heq, _⟩
    · rw [heq]
      exact hneg _ _ hcode
    · rcases hcond with hcond | hcond
      · omega
      · exact absurd herror hcond
    · rw [heq] at hfailed
      exact absurd rfl hfailed

/-- A buffer that is a boot record with an accepted parameter block. -/
def staleBootRecord : ByteMem := fun x =>
  if x = 0x0c then 0x02
  else if x = 0x0d then 0x01
  else if x = 0x10 then 0x01
  else if x = 0x16 then 0x01
  else if x = 510 then 0x55
  else if x = 511 then 0xaa
  else 0x00

theorem stale_boot_record_scanned (sectCount : Nat) :
    singleDiskScan sectCount diskReadErr staleBootRecord =
      [⟨.fsUnknown, 0, sectCount, false⟩] := by
  have hmbr : checkMbr staleBootRecord 446 = false := by decide +kernel
  have hvbr : fixVbr staleBootRecord = .fsUnknown := by decide +kernel
  have hsign : ¬ (staleBootRecord 510 ≠ 0x55 ∨ staleBootRecord 511 ≠ 0xaa) := by decide +kernel
  rw [singleDiskScan, if_neg (by decide), if_neg hsign, createLinkedList, hmbr, hvbr]
  rfl

theorem stale_boot_record_parsed (startSect : Nat) :
    parsePartitionFillBpbFat16 startSect diskReadErr staleBootRecord =
      some (fillBpb startSect staleBootRecord) := by
  have hbytes : ¬ (get2Bytes staleBootRecord 0x0b ≠ 512 ∧ get2Bytes staleBootRecord 0x0b ≠ 1024 ∧
      get2Bytes staleBootRecord 0x0b ≠ 2048 ∧ get2Bytes staleBootRecord 0x0b ≠ 4096) := by
    decide +kernel
  have hclust : staleBootRecord 0x0d ≠ 0x00 := by decide +kernel
  have hfats : staleBootRecord 0x10 ≠ 0x00 := by decide +kernel
  have hsectors : get2Bytes staleBootRecord 0x16 ≠ 0 := by decide +kernel
  rw [parsePartitionFillBpbFat16, if_neg (by decide), if_neg hbytes, if_neg hclust, if_neg hfats,
    if_neg hsectors]

/-- `single_disk_scan` leaves no partition after a failed read exactly when the disk has no sector
or the device reports no error, and `parse_partition_fill_bpb_fat16` returns NULL after one exactly
when the partition starts outside the disk or the device reports no error. -/
theorem failed_read_iff (ports : PortReads) (d : DiskPorts) (startSect : Nat) :
    (FailedReadIgnored ports d 0 (fun code buf => singleDiskScan d.sectCount code buf = []) ↔
      (d.sectCount = 0 ∨ ¬ DeviceReportsError ports)) ∧
    (FailedReadIgnored ports d startSect
        (fun code buf => parsePartitionFillBpbFat16 startSect code buf = none) ↔
      (d.sectCount < add32 startSect 1 ∨ ¬ DeviceReportsError ports)) := by
  constructor
  · have hzero : d.sectCount < add32 0 1 ↔ d.sectCount = 0 := by
      unfold add32
      omega
    rw [← hzero]
    refine failed_read_ignored_iff ports d 0 (fun code buf hcode => ?_) ⟨staleBootRecord, ?_⟩
    · rw [singleDiskScan, if_pos hcode]
    · rw [stale_boot_record_scanned]
      exact List.cons_ne_nil _ _
  · refine failed_read_ignored_iff ports d startSect (fun code buf hcode => ?_)
      ⟨staleBootRecord, ?_⟩
    · rw [parsePartitionFillBpbFat16, if_pos hcode]
    · rw [stale_boot_record_parsed]
      exact Option.some_ne_none _

/-- A device that is never busy, announces data at once and has its error bit set. -/
def failingDevice : PortReads := fun _ => 0x09

theorem failing_device_reports : DeviceReportsError failingDevice := by
  have hnow : ∀ ready : Nat → Bool, ready 0x09 = true → ∀ n,
      LeavesAt failingDevice ready n (n + 1) :=
    fun ready hready n => ⟨by omega, by omega, hready, fun k _ _ => by omega⟩
  exact ⟨1, 2, 3, 4, hnow notBusy (by decide) 0, hnow notBusy (by decide) 1,
    hnow notBusy (by decide) 2, hnow dataRequest (by decide) 3, by decide⟩

/-- After an error on sector 0 of a disk, `single_disk_scan` lists what the stale buffer says. -/
theorem failed_read_scanned :
    ¬ FailedReadIgnored failingDevice ⟨0x1f0, true, 1000⟩ 0
      (fun code buf => singleDiskScan 1000 code buf = []) := by
  intro h
  rcases (failed_read_ignored_iff failingDevice ⟨0x1f0, true, 1000⟩ 0
    (fun code buf hcode => by rw [singleDiskScan, if_pos hcode])
    ⟨staleBootRecord, by rw [stale_boot_record_scanned]; exact List.cons_ne_nil _ _⟩).mp h with
    hbounds | hno
  · exact absurd hbounds (by decide)
  · exact hno failing_device_reports

end Genesis32
