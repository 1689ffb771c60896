import Genesis32.FileSyst.Containment

/-!
# Writing past the end of a chain

Where the chain of a file ends, `write_fat16` has already moved to the end mark when it calls
`get_free_cluster`, so that the new cluster is linked to nothing. `ExtendsChain` is what a write
past the end should do, and `chain_extended_iff` says that it does so only for an empty file, whose
first cluster is kept in its node, and only as far as that cluster goes.
-/

namespace Genesis32

open Word

/-- A write of `n` bytes past the `len` clusters of a file returns `n`, and its chain is then as
long as the range needs it: the old clusters, then clusters that were free, with an end mark in the
last one. The bytes of the buffer are in it in their order, and a read at the same offset returns
them. -/
structure ExtendsChain (env : BlockEnv) (m : Fat16Mount) (hi k len : Nat) (f : Fat16File)
    (buffer : ByteMem) (n : Nat) (s : BlockState) (f' : Fat16File) (s' : BlockState) : Prop where
  run : writeFat16 env m k f buffer n s = some (n, f', s')
  length : Chain.HasLength (m.nextCluster s'.disk) (Fat16Mount.startCluster f')
    (((f.offset + n - 1) / m.clusterSize + 1 : Nat) : ℕ∞)
  old : ∀ j < len, m.cluster s'.disk f' j = m.cluster s.disk f j
  new : ∀ j c, len ≤ j → m.cluster s'.disk f' j = some c → m.Available hi s.disk c
  mark : ∀ c, m.cluster s'.disk f' ((f.offset + n - 1) / m.clusterSize) = some c →
    0xfff8 ≤ fatEntry s'.disk m.fatSect c
  stored : ∀ i < n, m.chainByte s'.disk f' (f.offset + i) = some (buffer i)
  readBack : ∀ buffer₀, ∃ buffer' f'' s'',
    readFat16 env m k { f' with offset := f.offset } buffer₀ n s' = some (n, buffer', f'', s'') ∧
      ∀ i < n, buffer' i = buffer i

variable {env : BlockEnv} {m : Fat16Mount} {f f' : Fat16File} {s s' : BlockState}
  {hi k len n : Nat} {buffer : ByteMem}

/-- A file that has clusters gets no other one. -/
theorem ExtendsChain.empty (h : ExtendsChain env m hi k len f buffer n s f' s')
    (hv : m.Volume env hi) (hspf : 1 ≤ m.bpb.sectorsPerFat) (hfile : m.FileOk hi s.disk f)
    (hlen : Chain.HasLength (m.nextCluster s.disk) (Fat16Mount.startCluster f) ((len : Nat) : ℕ∞))
    (hn : 1 ≤ n) (hk : n ≤ k) (hpast : len * m.clusterSize < f.offset + n)
    (hroom : m.Suffices hi s.disk f ((f.offset + n - 1) / m.clusterSize)) :
    EndMark (f.fsSpecific % 65536) := by
  by_contra hstart
  obtain ⟨f'', s'', c, hrun, hfirst, hw⟩ := write_fat16_inv (WritesInside.inv hv hspf s)
    hv.clusterSize_pos hn hk buffer (first_cluster_kept hstart)
    (writes_inside_start hstart (fun j _ d hd => (hv.onDisk_cluster (hfile.chain j d hd)).entry)
      (fun j _ _ => hfile.chain j) hroom)
  simp only [h.run, Option.some.injEq, Prod.mk.injEq] at hrun
  obtain ⟨_, rfl, rfl⟩ := hrun
  have hsome := h.length.nth_isSome (Nat.lt_succ_self _)
  have hsame := hw.kept.cluster_after hfirst hfile.chain hfile.taken
    ((f.offset + n - 1) / m.clusterSize)
  have hle : len ≤ (f.offset + n - 1) / m.clusterSize :=
    (Nat.le_div_iff_mul_le hv.clusterSize_pos).mpr (by omega)
  unfold Fat16Mount.cluster at hsame
  rw [hsame, hlen.nth_none hle] at hsome
  cases hsome

/-- An empty file gets one cluster. -/
theorem ExtendsChain.one (h : ExtendsChain env m hi k len f buffer n s f' s')
    (hv : m.Volume env hi) (hspf : 1 ≤ m.bpb.sectorsPerFat) (hn : 1 ≤ n) (hk : n ≤ k)
    (hempty : EndMark (f.fsSpecific % 65536))
    (hroom : m.Suffices hi s.disk f ((f.offset + n - 1) / m.clusterSize)) :
    f.offset + n ≤ m.clusterSize := by
  obtain ⟨c, s₁, hfirst, hc, halloc, hw⟩ := writes_inside_first hv hempty hroom
  obtain ⟨f'', s'', _, hrun, hfirst', hw'⟩ := write_fat16_inv (WritesInside.inv hv hspf s₁)
    hv.clusterSize_pos hn hk buffer hfirst
    (by rw [Nat.mod_eq_of_lt hc.data.word]; exact (hw _).rebase)
  simp only [h.run, Option.some.injEq, Prod.mk.injEq] at hrun
  obtain ⟨_, rfl, rfl⟩ := hrun
  have hsome := h.length.nth_isSome (Nat.lt_succ_self _)
  have hzero := reached_one hv.fats hc halloc hfirst' hw'.kept hsome
  have hlt := (Nat.div_lt_iff_lt_mul hv.clusterSize_pos).mp
    (show (f.offset + n - 1) / m.clusterSize < 1 by omega)
  omega

/-- Inside the first cluster that it gets an empty file is written as it should be. -/
theorem extends_chain_first (hv : m.Volume env hi) (hempty : EndMark (f.fsSpecific % 65536))
    (hn : 1 ≤ n) (hk : n ≤ k) (hoffset : f.offset < 4294967296)
    (hin : f.offset + n ≤ m.clusterSize)
    (hroom : m.Suffices hi s.disk f ((f.offset + n - 1) / m.clusterSize)) (buffer : ByteMem) :
    ∃ f' s', ExtendsChain env m hi k 0 f buffer n s f' s' := by
  obtain ⟨c, s₁, hfirst, hc, halloc, _⟩ := writes_inside_first hv hempty hroom
  obtain ⟨hzero, hone⟩ := first_cluster_chain f hv.fats hc halloc
  have hchain := chain_ok_single hzero hone hc.data
  have hlen := first_cluster_length f hv.fats hc halloc
  obtain ⟨s', hwrite⟩ := written_in_place hv hlen hchain
    (show (f.withFirst c).offset < 4294967296 from hoffset) hn (by rw [Nat.one_mul]; exact hin) hk
    buffer
  have hrun := hwrite.run
  have hbefore := hwrite.before
  -- the write goes on as one to a file that had the new cluster from the start
  rw [← write_fat16_first hfirst hc.not_end_mark hn] at hrun
  have hblock : (f.offset + n - 1) / m.clusterSize = 0 := Nat.div_eq_of_lt (by omega)
  have hsame : ∀ j, m.cluster s'.disk (f.withFirst c) j = m.cluster s₁.disk (f.withFirst c) j :=
    cluster_same hv hbefore hchain
  refine ⟨_, s', hrun, ?_, fun j hj => absurd hj (Nat.not_lt_zero j), fun j d _ hd => ?_,
    fun d hd => ?_, hwrite.stored, fun buffer₀ => ?_⟩
  · rw [hblock]
    refine Chain.has_length_of_none (fun j hj => ?_) ((hsame 1).trans hone)
    obtain rfl : j = 0 := by omega
    exact Option.isSome_of_eq_some ((hsame 0).trans hzero)
  · have hd' : m.cluster s₁.disk (f.withFirst c) j = some d := (hsame j).symm.trans hd
    exact (first_cluster_only hv.fats hc halloc hd').2 ▸ hc
  · rw [hblock] at hd
    have hd' : m.cluster s₁.disk (f.withFirst c) 0 = some d := (hsame 0).symm.trans hd
    obtain rfl := Option.some.inj (hzero.symm.trans hd')
    have hentry := halloc.entries 0 hv.fats c hc.data.inFat
    rw [Nat.zero_mul, Nat.add_zero, if_pos rfl] at hentry
    rw [fat_entry_same hv hbefore hc.data.inFat, hentry]
    decide
  · obtain ⟨buffer', s'', hrun', hbytes⟩ := hwrite.read buffer₀
    exact ⟨buffer', _, s'', hrun', hbytes⟩

/-- For every file, every offset up to the end of its chain and every buffer that runs past it, a
write extends the chain exactly when the file is empty and the buffer fits into one cluster. -/
theorem chain_extended_iff (hv : m.Volume env hi) (hb : m.bpb.Accepted m.startSect)
    (hfile : m.FileOk hi s.disk f)
    (hlen : Chain.HasLength (m.nextCluster s.disk) (Fat16Mount.startCluster f) ((len : Nat) : ℕ∞))
    (hoffset : f.offset < 4294967296) (hend : f.offset ≤ len * m.clusterSize) (hn : 1 ≤ n)
    (hpast : len * m.clusterSize < f.offset + n)
    (hroom : m.Suffices hi s.disk f ((f.offset + n - 1) / m.clusterSize)) (hk : n ≤ k)
    (buffer : ByteMem) :
    (∃ f' s', ExtendsChain env m hi k len f buffer n s f' s') ↔
      EndMark (f.fsSpecific % 65536) ∧ n ≤ m.clusterSize := by
  have hspf := hb.sectors.1
  have hlenZero : EndMark (f.fsSpecific % 65536) → len = 0 := fun hempty => by
    by_contra hpos
    have hsome := hlen.nth_isSome (Nat.pos_of_ne_zero hpos)
    have hfirst : Fat16Mount.startCluster f = none := if_pos hempty
    rw [Chain.nth, hfirst] at hsome
    cases hsome
  constructor
  · intro hall
    obtain ⟨f', s', h⟩ := hall
    have hempty := h.empty hv hspf hfile hlen hn hk hpast hroom
    have hone := h.one hv hspf hn hk hempty hroom
    exact ⟨hempty, by omega⟩
  · intro hall
    obtain ⟨hempty, hfits⟩ := hall
    obtain rfl := hlenZero hempty
    rw [Nat.zero_mul] at hend
    exact extends_chain_first hv hempty hn hk hoffset (by omega) hroom buffer

/-- A third byte after the last two of a cluster is not in the chain of the file, although there is
a free cluster. -/
theorem chain_not_extended : smallMount.Room 10 nearlyFullDisk.disk 1 ∧
    ¬ ∃ f' s', ExtendsChain smallEnv smallMount 10 3 1 smallFile (fun _ => 0x41) 3 nearlyFullDisk
      f' s' := by
  refine ⟨small_room, fun ⟨f', s', h⟩ => ?_⟩
  have hnone : (writeFat16 smallEnv smallMount 3 smallFile (fun _ => 0x41) 3 nearlyFullDisk).map
      (fun t => smallMount.cluster t.2.2.disk t.2.1 1) = some none := by decide +kernel
  rw [h.run] at hnone
  have hsome := h.length.nth_isSome (show 1 < (510 + 3 - 1) / 512 + 1 by decide)
  rw [show Chain.nth (smallMount.nextCluster s'.disk) (Fat16Mount.startCluster f') 1 = none from
    Option.some.inj hnone] at hsome
  cases hsome

/-- Two bytes are written to an empty file. -/
theorem chain_extended_iff_small : ∃ f' s', ExtendsChain smallEnv smallMount 10 2 0
    ⟨0, 0xffff, 0, 0⟩ (fun _ => 0x41) 2 nearlyFullDisk f' s' := by
  have hnone : ∀ j, smallMount.cluster nearlyFullDisk.disk ⟨0, 0xffff, 0, 0⟩ j = none := fun j =>
    Chain.nth_none _ j
  have hlen : Chain.HasLength (smallMount.nextCluster nearlyFullDisk.disk)
      (Fat16Mount.startCluster ⟨0, 0xffff, 0, 0⟩) ((0 : Nat) : ℕ∞) :=
    Chain.has_length_of_none (fun j hj => absurd hj (Nat.not_lt_zero j)) rfl
  exact (chain_extended_iff small_mounted small_accepted
    { chain := fun j c hc => by rw [hnone] at hc; cases hc
      taken := fun j c hc => by rw [hnone] at hc; cases hc
      finite := ⟨0, hlen⟩ }
    hlen (by decide) (by decide) (show 1 ≤ 2 by decide) (by decide)
    ⟨0, 1, by decide, fun j hj => absurd hj (Nat.not_lt_zero j), small_room⟩ le_rfl _).mpr
    ⟨by decide, by decide⟩

end Genesis32
