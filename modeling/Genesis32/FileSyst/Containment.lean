import Mathlib.Data.Finset.Card
import Genesis32.FileSyst.FatEntries

/-!
# Writes stay in the partition

`write_fat16` computes its sectors from cluster numbers and never compares them with the partition.
They are in the partition as long as the numbers are: those of the chain as far as the write follows
it, and the free ones that it takes for what does not fit. `WritesInside` is the invariant of the
hops that are left, and `write_fat16_contained` what it says of a whole write.
-/

namespace Genesis32

open Word

/-- The volume has `e` clusters to give out; where it has any, its reserved entries are taken. -/
structure Fat16Mount.Room (m : Fat16Mount) (hi : Nat) (disk : ByteMem) (e : Nat) : Prop where
  reserved : 0 < e → ReservedTaken m disk
  clusters : ∃ l : Finset Nat, e ≤ l.card ∧ ∀ c ∈ l, m.Available hi disk c

variable {env : BlockEnv} {m : Fat16Mount} {f : Fat16File} {s s' s₀ : BlockState}
  {hi e h c cur : Nat} {disk disk' : ByteMem}

/-! ## Room -/

theorem Fat16Mount.Room.congr (hroom : m.Room hi disk e)
    (h : ∀ c < 256 * m.bpb.sectorsPerFat, fatEntry disk' m.fatSect c = fatEntry disk m.fatSect c)
    (hspf : 1 ≤ m.bpb.sectorsPerFat) : m.Room hi disk' e where
  reserved := fun hpos =>
    { zero := by rw [h 0 (by omega)]; exact (hroom.reserved hpos).zero
      one := by rw [h 1 (by omega)]; exact (hroom.reserved hpos).one }
  clusters := by
    obtain ⟨l, hcard, hl⟩ := hroom.clusters
    refine ⟨l, hcard, fun c hc => ?_⟩
    have hav := hl c hc
    exact ⟨hav.data, hav.notMark, by rw [h c hav.data.inFat]; exact hav.free⟩

/-- An allocation behind an end mark takes one cluster. -/
theorem Fat16Mount.Room.alloc (hroom : m.Room hi disk (e + 1)) (hfats : 1 ≤ m.bpb.fatCount)
    (hspf : 1 ≤ m.bpb.sectorsPerFat) (hcur : EndMark cur)
    (halloc : Allocated m.bpb m.fatSect cur c disk disk') : m.Room hi disk' e where
  reserved := fun _ =>
    (halloc.keeps hfats hcur).reserved hspf (hroom.reserved (Nat.succ_pos e))
  clusters := by
    classical
    obtain ⟨l, hcard, hl⟩ := hroom.clusters
    refine ⟨l.erase c, ?_, fun d hd => ?_⟩
    · have herase := Finset.pred_card_le_card_erase (s := l) (a := c)
      omega
    · obtain ⟨hdc, hdl⟩ := Finset.mem_erase.mp hd
      have hav := hl d hdl
      have hentry := halloc.entries 0 hfats d hav.data.inFat
      rw [Nat.zero_mul, Nat.add_zero, if_neg hdc, if_neg fun hlink => hlink.1 hcur, hav.free]
        at hentry
      exact ⟨hav.data, hav.notMark, hentry⟩

/-- Where there is room `get_free_cluster` gives a cluster out, and writes only to the FATs. -/
theorem get_free_cluster_room (hv : m.Volume env hi) (hroom : m.Room hi s.disk (e + 1))
    (hcur : EndMark cur) (hcur16 : cur < 65536) :
    ∃ c s', getFreeCluster env m.bpb (add32 m.startSect m.bpb.reservedSectors) cur s =
        some (c, s') ∧ m.Available hi s.disk c ∧
      Allocated m.bpb m.fatSect cur c s.disk s'.disk ∧ IoEffect m.fatSect hi s s' s'.disk ∧
      m.Room hi s'.disk e := by
  obtain ⟨l, hcard, hl⟩ := hroom.clusters
  obtain ⟨d, hd⟩ := Finset.card_pos.mp (show 0 < l.card by omega)
  have hav := hl d hd
  obtain ⟨c, hc, hzero⟩ := exists_first_zero ⟨d, hav.data.inFat, hav.free⟩
  have hfree := first_zero_free (hroom.reserved (Nat.succ_pos e)) hav hzero
  obtain ⟨s', hrun, heffect⟩ := get_free_cluster_edits hv.works hv.bytes hv.fats hfree.data.word
    hcur16 (Nat.le_add_right m.fatSect _) (by omega) (Or.inl hcur) (hv.fats_le.trans hv.onDisk)
    hzero
  have halloc := edits_allocated hc hfree.data.word (Or.inl hcur) (Or.inl hcur) hzero heffect.disk
  have hio := heffect.mono le_rfl hv.fats_le
  rw [← heffect.disk] at hio
  exact ⟨c, s', hv.fatSect_eq ▸ hrun, hfree, halloc, hio,
    hroom.alloc hv.fats (by omega) hcur halloc⟩

/-! ## The invariant -/

/-- A write at the cluster `c` with `h` hops left has written between the first FAT and `hi` and
kept the entries of the FAT. Of the clusters that it can still follow, those with `r` hops left or
less are data clusters, the entries of all but the last are on the disk, and for the hops behind
them there is room. -/
structure WritesInside (env : BlockEnv) (m : Fat16Mount) (hi r : Nat) (s₀ : BlockState) (h c : Nat)
    (s : BlockState) : Prop where
  io : IoEffect m.fatSect hi s₀ s s.disk
  kept : EntriesKept m s₀.disk s.disk
  entries : ∀ k < h, ∀ d, Chain.nth (m.nextCluster s.disk) (some c) k = some d →
    m.fatSect + d / 256 < env.sectCount
  chain : ∀ k ≤ h, h ≤ k + r → ∀ d, Chain.nth (m.nextCluster s.disk) (some c) k = some d →
    m.DataCluster hi d
  room : ∃ l e, h ≤ l + e ∧ (Chain.nth (m.nextCluster s.disk) (some c) l).isSome ∧
    m.Room hi s.disk e

namespace WritesInside

variable {r : Nat}

theorem cluster (hw : WritesInside env m hi r s₀ h c s) (hr : h ≤ r) : m.DataCluster hi c :=
  hw.chain 0 (Nat.zero_le h) (by omega) c rfl

/-- The chain from the next cluster. -/
theorem nth_next {next : Nat → Option Nat} {d : Nat} (hnext : next c = some d) (k : Nat) :
    Chain.nth next (some d) k = Chain.nth next (some c) (k + 1) := by
  rw [Nat.add_comm, Chain.nth_add]
  exact congrArg (Chain.nth next · k) hnext.symm

/-- A hop along the chain. -/
theorem hop (hw : WritesInside env m hi r s₀ (h + 1) c s) {v : Nat}
    (hnext : m.nextCluster s.disk c = some v) : WritesInside env m hi r s₀ h v s where
  io := hw.io
  kept := hw.kept
  entries := fun k hk d hd => hw.entries (k + 1) (by omega) d (by rwa [← nth_next hnext])
  chain := fun k hk hr d hd =>
    hw.chain (k + 1) (by omega) (by omega) d (by rwa [← nth_next hnext])
  room := by
    obtain ⟨l, e, hle, hl, hroom⟩ := hw.room
    cases l with
    | zero => exact ⟨0, e, by omega, rfl, hroom⟩
    | succ l => exact ⟨l, e, by omega, by rwa [nth_next hnext], hroom⟩

/-- Where the chain ends there is room. -/
theorem room_at_end (hw : WritesInside env m hi r s₀ (h + 1) c s)
    (hnext : m.nextCluster s.disk c = none) : ∃ e, h ≤ e ∧ m.Room hi s.disk (e + 1) := by
  obtain ⟨l, e, hle, hl, hroom⟩ := hw.room
  cases l with
  | zero =>
      obtain ⟨e, rfl⟩ : ∃ k, e = k + 1 := ⟨e - 1, by omega⟩
      exact ⟨e, by omega, hroom⟩
  | succ l =>
      have hone : Chain.nth (m.nextCluster s.disk) (some c) 1 = none := hnext
      rw [Chain.nth_none_of_le hone (by omega)] at hl
      cases hl

/-- The chain of a cluster that has just been allocated ends with it. -/
theorem alloc (hv : m.Volume env hi) (hio : IoEffect m.fatSect hi s₀ s s.disk)
    (hkept : EntriesKept m s₀.disk s.disk) (hcur : EndMark cur) (hc : m.Available hi s.disk c)
    (halloc : Allocated m.bpb m.fatSect cur c s.disk s'.disk)
    (hio' : IoEffect m.fatSect hi s s' s'.disk) (hh : h ≤ e) (hroom : m.Room hi s'.disk e) :
    WritesInside env m hi r s₀ h c s' := by
  have honly : ∀ k d, Chain.nth (m.nextCluster s'.disk) (some c) k = some d →
      m.DataCluster hi d := by
    intro k d hd
    have hentry := halloc.entries 0 hv.fats c hc.data.inFat
    rw [Nat.zero_mul, Nat.add_zero, if_pos rfl] at hentry
    have hnone : m.nextCluster s'.disk c = none := by
      unfold Fat16Mount.nextCluster
      rw [hentry]
      exact if_pos (by decide)
    cases k with
    | zero => exact Option.some.inj hd ▸ hc.data
    | succ k =>
        have hone : Chain.nth (m.nextCluster s'.disk) (some c) 1 = none := hnone
        rw [Chain.nth_none_of_le hone (by omega)] at hd
        cases hd
  exact
    { io := hio.trans hio'
      kept := hkept.trans (halloc.keeps hv.fats hcur)
      entries := fun k _ d hd => (hv.onDisk_cluster (honly k d hd)).entry
      chain := fun k _ _ d hd => honly k d hd
      room := ⟨0, e, by omega, rfl, hroom⟩ }

/-- Between the FATs and the end of the partition nothing but data changes. -/
theorem data (hv : m.Volume env hi) (hspf : 1 ≤ m.bpb.sectorsPerFat)
    (hw : WritesInside env m hi r s₀ h c s) (hr : h ≤ r)
    (hio : IoEffect m.dataSect hi s s' s'.disk)
    (hbefore : ∀ x < 512 * m.dataSect, s'.disk x = s.disk x) :
    WritesInside env m hi r s₀ h c s' := by
  have hentry : ∀ d < 256 * m.bpb.sectorsPerFat,
      fatEntry s'.disk m.fatSect d = fatEntry s.disk m.fatSect d := fun d hd =>
    fat_entry_same hv hbefore hd
  have hnth : ∀ k ≤ h, Chain.nth (m.nextCluster s'.disk) (some c) k =
      Chain.nth (m.nextCluster s.disk) (some c) k :=
    Chain.nth_congr fun k hk d hd => by
      unfold Fat16Mount.nextCluster
      rw [hentry d (hw.chain k (by omega) (by omega) d hd).inFat]
  have hle := fat_sect_le_data_sect hv.fats
  refine
    { io := hw.io.trans (hio.mono (by omega) le_rfl)
      kept := hw.kept.trans fun d hd _ => hentry d hd
      entries := fun k hk d hd => hw.entries k hk d (by rwa [hnth k (by omega)] at hd)
      chain := fun k hk hr' d hd => hw.chain k hk hr' d (by rwa [hnth k hk] at hd)
      room := ?_ }
  obtain ⟨l, e, hhops, hl, hroom⟩ := hw.room
  by_cases hlh : l ≤ h
  · exact ⟨l, e, hhops, by rwa [hnth l hlh], hroom.congr hentry hspf⟩
  · -- the chain is longer than the write
    refine ⟨h, e, by omega, ?_, hroom.congr hentry hspf⟩
    rw [hnth h le_rfl]
    exact Chain.nth_isSome_of_le hl (by omega)

/-- Every step of a write keeps the invariant. -/
theorem inv (hv : m.Volume env hi) (hspf : 1 ≤ m.bpb.sectorsPerFat) (s₀ : BlockState) :
    WriteInv env m r (WritesInside env m hi r s₀) where
  granted := hv.works.scratch
  idle := fun {h c s} commands mallocs hw =>
    { io := hw.io.trans (IoEffect.reads _ _ s commands mallocs)
      kept := hw.kept
      entries := hw.entries
      chain := hw.chain
      room := hw.room }
  hop := by
    intro h c v buf buf' s s' hw hhop hend
    obtain ⟨buf₁, hrun⟩ :=
      hop_cluster_ok hv.works hv.toSectors512 (hw.entries 0 (Nat.succ_pos h) c rfl) buf s
    rw [hhop] at hrun
    obtain ⟨rfl, hrest⟩ := Prod.mk.inj hrun
    obtain ⟨_, rfl⟩ := Prod.mk.inj hrest
    have hnext := hw.hop (v := fatEntry s.disk m.fatSect c) (if_neg hend)
    exact
      { io := hnext.io.trans (IoEffect.reads _ _ s (s.commands + 1) s.mallocs)
        kept := hnext.kept
        entries := hnext.entries
        chain := hnext.chain
        room := hnext.room }
  extend := by
    intro h c v buf buf' s s' hw hhop hend
    obtain ⟨buf₁, hrun⟩ :=
      hop_cluster_ok hv.works hv.toSectors512 (hw.entries 0 (Nat.succ_pos h) c rfl) buf s
    rw [hhop] at hrun
    obtain ⟨rfl, hrest⟩ := Prod.mk.inj hrun
    obtain ⟨_, rfl⟩ := Prod.mk.inj hrest
    -- where the chain ends, there is a free cluster for every hop that is left
    obtain ⟨e, hh, hroom⟩ := hw.room_at_end (if_pos hend)
    obtain ⟨d, t, hget, hd, halloc, hio, hroom'⟩ := get_free_cluster_room (m := m)
      (s := { s with commands := s.commands + 1 }) hv hroom hend (ByteMem.word16_lt _ _)
    exact ⟨d, t, hget, alloc hv (hw.io.trans (IoEffect.reads _ _ s (s.commands + 1) s.mallocs))
      hw.kept hend hd halloc hio hh hroom'⟩
  round := by
    intro h c temp temp' s s' buf hr hw hread
    have hcluster := hw.cluster hr
    have hdata := (hv.onDisk_cluster hcluster).data
    obtain ⟨temp₁, commands, hrun, _, _⟩ := read_cluster_ok hv.works hv.toSectors512 hdata
      m.bpb.sectPerClust 0 temp s (by omega)
    rw [hv.sector_eq hcluster] at hread ⊢
    rw [hread] at hrun
    obtain ⟨_, rfl⟩ := Prod.mk.inj hrun
    have hwrite := write_cluster_ok hv.works hv.toSectors512 hdata buf m.bpb.sectPerClust 0
      { s with commands := commands } (by omega)
    have hle : m.dataSect ≤ m.clusterSect c := Nat.le_add_right _ _
    -- a round writes the sectors of its cluster, which no FAT entry is in
    have hio := (IoEffect.reads m.dataSect hi s commands s.mallocs).trans
      (hwrite.mono hle hcluster.data)
    have hdisk := hio.disk
    rw [← hdisk] at hio
    refine hw.data hv hspf hr hio fun x hx => ?_
    rw [hdisk]
    exact ByteMem.copy_outside (by omega)

/-- The invariant does not depend on where the write has started. -/
theorem rebase (hw : WritesInside env m hi r s₀ h c s) : WritesInside env m hi r s h c s where
  io := IoEffect.refl _ _ s
  kept := fun _ _ _ => rfl
  entries := hw.entries
  chain := hw.chain
  room := hw.room

end WritesInside

/-! ## The write -/

/-- The clusters of a file and those that there is room for reach up to its block `last`. -/
def Fat16Mount.Suffices (m : Fat16Mount) (hi : Nat) (disk : ByteMem) (f : Fat16File)
    (last : Nat) : Prop :=
  ∃ l e, last < l + e ∧ (∀ k < l, (m.cluster disk f k).isSome) ∧ m.Room hi disk e

/-- A file with a first cluster, before it is written. -/
theorem writes_inside_start {last r : Nat} (hstart : ¬ EndMark (f.fsSpecific % 65536))
    (hentries : ∀ j < last, ∀ c, m.cluster s.disk f j = some c →
      m.fatSect + c / 256 < env.sectCount)
    (hchain : ∀ j ≤ last, last ≤ j + r → ∀ c, m.cluster s.disk f j = some c →
      m.DataCluster hi c)
    (hroom : m.Suffices hi s.disk f last) :
    WritesInside env m hi r s last (f.fsSpecific % 65536) s := by
  have hnth : ∀ k, Chain.nth (m.nextCluster s.disk) (some (f.fsSpecific % 65536)) k =
      m.cluster s.disk f k := fun k => by
    unfold Fat16Mount.cluster
    rw [show Fat16Mount.startCluster f = some (f.fsSpecific % 65536) from if_neg hstart]
  refine ⟨IoEffect.refl _ _ s, fun _ _ _ => rfl,
    fun k hk d hd => hentries k hk d (by rwa [← hnth]),
    fun k hk hr d hd => hchain k hk hr d (by rwa [← hnth]), ?_⟩
  obtain ⟨l, e, hle, hl, hroom⟩ := hroom
  cases l with
  | zero => exact ⟨0, e, by omega, rfl, hroom⟩
  | succ l => exact ⟨l, e, by omega, by rw [hnth]; exact hl l (Nat.lt_succ_self l), hroom⟩

/-- An empty file has no clusters, so that there is room for all that it needs. -/
theorem Fat16Mount.Suffices.room {last : Nat} (hsuff : m.Suffices hi disk f last)
    (hempty : EndMark (f.fsSpecific % 65536)) : ∃ e, last ≤ e ∧ m.Room hi disk (e + 1) := by
  obtain ⟨l, e, hle, hl, hroom⟩ := hsuff
  cases l with
  | zero =>
      obtain ⟨e, rfl⟩ : ∃ k, e = k + 1 := ⟨e - 1, by omega⟩
      exact ⟨e, by omega, hroom⟩
  | succ l =>
      have hfirst : Fat16Mount.startCluster f = none := if_pos hempty
      have hsome := hl 0 (Nat.succ_pos l)
      rw [Fat16Mount.cluster, Chain.nth, hfirst] at hsome
      cases hsome

/-- An empty file, after it has got its first cluster. -/
theorem writes_inside_first (hv : m.Volume env hi) {last : Nat}
    (hempty : EndMark (f.fsSpecific % 65536)) (hsuff : m.Suffices hi s.disk f last) :
    ∃ c s₁, firstCluster env m f s = some (f.withFirst c, s₁) ∧ m.Available hi s.disk c ∧
      Allocated m.bpb m.fatSect (f.fsSpecific % 65536) c s.disk s₁.disk ∧
      ∀ r, WritesInside env m hi r s last c s₁ := by
  obtain ⟨e, hh, hroom⟩ := hsuff.room hempty
  obtain ⟨c, s₁, hget, hc, halloc, hio, hroom'⟩ :=
    get_free_cluster_room hv hroom hempty (Nat.mod_lt f.fsSpecific (by decide))
  exact ⟨c, s₁, first_cluster_taken hempty hget, hc, halloc, fun _ =>
    WritesInside.alloc hv (IoEffect.refl _ _ s) (fun _ _ _ => rfl) hempty hc halloc hio hh hroom'⟩

/-- The write returns, and all sectors that it writes lie in `[start_sect, start_sect+sect_num)`. -/
def StaysInside (env : BlockEnv) (m : Fat16Mount) (sectNum k : Nat) (f : Fat16File)
    (buffer : ByteMem) (n : Nat) (s : BlockState) : Prop :=
  ∃ f' s' sectors, writeFat16 env m k f buffer n s = some (n, f', s') ∧
    s'.written = s.written ++ sectors ∧
    ∀ x ∈ sectors, m.startSect ≤ x ∧ x < m.startSect + sectNum

/-- A write to a volume that lies in its partition stays there, if the clusters of the file that its
range is in are data clusters and there are free ones for the rest of the range. Of the clusters
before them only the FAT entries are read, and these need not lie in the partition. -/
theorem write_fat16_contained (hworks : env.Works) (hb : m.bpb.Accepted m.startSect)
    (hbytes : m.bpb.bytesPerSect = 512) {sectNum : Nat}
    (hdata : m.dataSect ≤ m.startSect + sectNum) (hpart : m.startSect + sectNum ≤ env.sectCount)
    {n k : Nat} (hentries : ∀ j < (f.offset + n - 1) / m.clusterSize, ∀ c,
      m.cluster s.disk f j = some c → m.fatSect + c / 256 < env.sectCount)
    (hchain : ∀ j ≤ (f.offset + n - 1) / m.clusterSize, f.offset / m.clusterSize ≤ j → ∀ c,
      m.cluster s.disk f j = some c → m.DataCluster (m.startSect + sectNum) c)
    (hroom : 1 ≤ n →
      m.Suffices (m.startSect + sectNum) s.disk f ((f.offset + n - 1) / m.clusterSize))
    (hk : n ≤ k) (buffer : ByteMem) : StaysInside env m sectNum k f buffer n s := by
  have hv : m.Volume env (m.startSect + sectNum) :=
    ⟨⟨hbytes, hb.clust.1⟩, hworks, hb.fats.1, hdata, hpart⟩
  rcases Nat.eq_zero_or_pos n with rfl | hn
  · exact ⟨f, s, [], rfl, by simp, fun x hx => absurd hx List.not_mem_nil⟩
  have hle : f.offset / m.clusterSize ≤ (f.offset + n - 1) / m.clusterSize :=
    Nat.div_le_div_right (by omega)
  have hwrite : ∃ f' s' c r, writeFat16 env m k f buffer n s = some (n, f', s') ∧
      WritesInside env m (m.startSect + sectNum) r s 0 c s' := by
    by_cases hstart : EndMark (f.fsSpecific % 65536)
    · obtain ⟨c, s₁, hfirst, hc, _, hw⟩ := writes_inside_first hv hstart (hroom hn)
      obtain ⟨f', s', c', hrun, _, hw'⟩ := write_fat16_inv (WritesInside.inv hv hb.sectors.1 s)
        hv.clusterSize_pos hn hk buffer hfirst (by rw [Nat.mod_eq_of_lt hc.data.word]; exact hw _)
      exact ⟨f', s', c', _, hrun, hw'⟩
    · obtain ⟨f', s', c', hrun, _, hw'⟩ := write_fat16_inv (WritesInside.inv hv hb.sectors.1 s)
        hv.clusterSize_pos hn hk buffer (first_cluster_kept hstart)
        (writes_inside_start hstart hentries (fun j hj hr => hchain j hj (by omega)) (hroom hn))
      exact ⟨f', s', c', _, hrun, hw'⟩
  obtain ⟨f', s', c, _, hrun, hw⟩ := hwrite
  obtain ⟨sectors, hwritten, hin⟩ := hw.io.writes
  refine ⟨f', s', sectors, hrun, hwritten, fun x hx => ⟨?_, (hin x hx).2⟩⟩
  exact (Nat.le_add_right _ _).trans (hin x hx).1

/-- A disk that is larger than the partition of the small volume. -/
def spaciousEnv : BlockEnv := { smallEnv with sectCount := 100000 }

/-- The small disk with a link from cluster 2 to cluster 9. -/
def corruptDisk : BlockState :=
  { smallDisk with disk := fun x => if x = 516 then 0x09 else smallDisk.disk x }

/-- A volume with sectors of 1024 bytes whose FAT has one free entry, 300, in its second half, and
scratch memory with a zero where the entry 456 would be. -/
def largeMount : Fat16Mount := ⟨0, ⟨1024, 1, 1, 1, 1, 16, 1, 2, 3⟩⟩

def largeDisk : BlockState :=
  { smallDisk with
    disk := fun x => if 512 ≤ x ∧ x < 1536 ∧ (x - 512) / 2 ≠ 300 then 0xff else 0x00 }

def largeEnv : BlockEnv :=
  { spaciousEnv with scratch := fun _ => some fun x => if x / 2 = 456 then 0x00 else 0xff }

/-- Writes outside the partition: where the FAT links to a cluster that the partition does not have,
where no cluster is free, and where the sectors are larger than those that `get_free_cluster`
reads. -/
theorem partition_left :
    (smallMount.bpb.Accepted smallMount.startSect ∧
      ¬ StaysInside spaciousEnv smallMount 10 1 ⟨512, 2, 512, 0⟩ (fun _ => 0x41) 1 corruptDisk ∧
      ¬ StaysInside spaciousEnv smallMount 10 1 ⟨512, 2, 512, 0⟩ (fun _ => 0x41) 1 fullDisk) ∧
    largeMount.bpb.Accepted largeMount.startSect ∧
      ¬ StaysInside largeEnv largeMount 313 1 ⟨0, 0xffff, 0, 0⟩ (fun _ => 0x41) 1 largeDisk := by
  have hlink : (writeFat16 spaciousEnv smallMount 1 ⟨512, 2, 512, 0⟩ (fun _ => 0x41) 1
      corruptDisk).map (fun t => t.2.2.written) = some [11] := by decide +kernel
  have hfull : (writeFat16 spaciousEnv smallMount 1 ⟨512, 2, 512, 0⟩ (fun _ => 0x41) 1
      fullDisk).map (fun t => t.2.2.written) = some [2, 65537] := by decide +kernel
  have hlarge : (writeFat16 largeEnv largeMount 1 ⟨0, 0xffff, 0, 0⟩ (fun _ => 0x41) 1
      largeDisk).map (fun t => t.2.2.written) = some [1, 457, 458] := by decide +kernel
  have haccepted : largeMount.bpb.Accepted largeMount.startSect :=
    ⟨by decide, by decide, by decide, by decide, by decide, by decide, rfl, rfl, rfl⟩
  refine ⟨⟨small_accepted, fun ⟨f', s', sectors, hrun, hwritten, hin⟩ => ?_,
    fun ⟨f', s', sectors, hrun, hwritten, hin⟩ => ?_⟩, haccepted,
    fun ⟨f', s', sectors, hrun, hwritten, hin⟩ => ?_⟩
  · rw [hrun] at hlink
    obtain rfl : sectors = [11] := hwritten.symm.trans (Option.some.inj hlink)
    exact absurd (hin 11 (by decide)).2 (by decide)
  · rw [hrun] at hfull
    obtain rfl : sectors = [2, 65537] := hwritten.symm.trans (Option.some.inj hfull)
    exact absurd (hin 65537 (by decide)).2 (by decide)
  · rw [hrun] at hlarge
    obtain rfl : sectors = [1, 457, 458] := hwritten.symm.trans (Option.some.inj hlarge)
    exact absurd (hin 457 (by decide)).2 (by decide)

theorem small_room : smallMount.Room 10 nearlyFullDisk.disk 1 where
  reserved := fun _ => ⟨by decide +kernel, by decide +kernel⟩
  clusters := ⟨{3}, le_rfl, fun c hc => by
    obtain rfl := Finset.mem_singleton.mp hc
    exact ⟨⟨by decide, by decide, by decide, by decide⟩, by decide, by decide +kernel⟩⟩

/-- The last free cluster of the small disk takes a byte that does not fit into the chain. -/
theorem write_fat16_contained_small :
    StaysInside smallEnv smallMount 10 3 smallFile (fun _ => 0x41) 3 nearlyFullDisk := by
  have hfirst : smallMount.cluster nearlyFullDisk.disk smallFile 0 = some 2 := rfl
  have hlast : smallMount.cluster nearlyFullDisk.disk smallFile 1 = none := by decide +kernel
  have hchain : smallMount.ChainOk 10 nearlyFullDisk.disk smallFile :=
    chain_ok_single hfirst hlast ⟨by decide, by decide, by decide, by decide⟩
  exact write_fat16_contained small_volume.works small_accepted rfl
    (show smallMount.dataSect ≤ 0 + 10 by decide) (show 0 + 10 ≤ 10 by decide)
    (fun j _ c hc => (small_mounted.onDisk_cluster (hchain j c hc)).entry)
    (fun j _ _ c hc => hchain j c hc)
    (fun _ => ⟨1, 1, by decide, fun k hk => by
      obtain rfl : k = 0 := by omega
      exact Option.isSome_of_eq_some hfirst, small_room⟩) le_rfl _

end Genesis32
