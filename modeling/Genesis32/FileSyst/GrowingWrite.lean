import Genesis32.FileSyst.Containment

/-!
# Writes of any size

What `write_fat16` does to a volume with room for it, wherever the range lies. The part of the range
that is in the chain of the file is spliced into it. For every cluster behind the end a free one is
taken and written, but linked to nothing. All else on the disk stays, and so does every entry of the
first FAT that was not zero.
-/

namespace Genesis32

open Word

/-- A byte of one of the FATs. -/
def Fat16Mount.InFats (m : Fat16Mount) (x : Nat) : Prop :=
  512 * m.fatSect ≤ x ∧ x < 512 * (m.fatSect + m.bpb.fatCount * m.bpb.sectorsPerFat)

/-- A byte of a data cluster that the first FAT shows as free. -/
def Fat16Mount.InFree (m : Fat16Mount) (hi : Nat) (disk : ByteMem) (x : Nat) : Prop :=
  ∃ c y, m.DataCluster hi c ∧ fatEntry disk m.fatSect c = 0 ∧ y < m.clusterSize ∧
    x = m.clusterAddr c + y

/-- From `disk` to `disk'` those of the `n` bytes from position `p` on that a chain has have become
the bytes of `buffer` from `idx` on; else only FATs and free clusters have changed, and the entries
that were not zero have not. -/
structure Grown (m : Fat16Mount) (hi : Nat) (disk : ByteMem) (f : Fat16File) (p n idx : Nat)
    (buffer : ByteMem) (disk' : ByteMem) : Prop where
  inside : ∀ i < n, ∀ a, m.chainAddr disk f (p + i) = some a → disk' a = buffer (idx + i)
  outside : ∀ x, ¬ m.InFats x → ¬ m.InFree hi disk x →
    (∀ i < n, m.chainAddr disk f (p + i) ≠ some x) → disk' x = disk x
  kept : EntriesKept m disk disk'

variable {env : BlockEnv} {m : Fat16Mount} {f g : Fat16File} {s s' : BlockState}
  {hi e q h c cur len p n idx : Nat} {disk disk' disk'' buffer : ByteMem}

/-! ## Bytes of chains -/

/-- An address of a chain is one of a cluster of it. -/
theorem chain_addr_cluster (h512 : m.Sectors512) {a : Nat} (ha : m.chainAddr disk f p = some a) :
    ∃ c y, m.cluster disk f (p / m.clusterSize) = some c ∧ y < m.clusterSize ∧
      a = m.clusterAddr c + y := by
  obtain ⟨c, hc, rfl⟩ := Option.map_eq_some_iff.mp ha
  exact ⟨c, p % m.clusterSize, hc, Nat.mod_lt p h512.clusterSize_pos, rfl⟩

theorem chain_addr_not_in_fats {a : Nat} (ha : m.chainAddr disk f p = some a) : ¬ m.InFats a := by
  have hdata := data_le_chain_addr ha
  have hfats : m.fatSect + m.bpb.fatCount * m.bpb.sectorsPerFat ≤ m.dataSect := by
    rw [Nat.mul_comm]
    exact Nat.le_add_right _ _
  rintro ⟨_, hlt⟩
  omega

/-- No byte of a file whose clusters are taken is free. -/
theorem Fat16Mount.FileOk.not_in_free (hfile : m.FileOk hi disk f) (h512 : m.Sectors512) {a : Nat}
    (ha : m.chainAddr disk f p = some a) : ¬ m.InFree hi disk a := by
  obtain ⟨c, y, hc, hy, rfl⟩ := chain_addr_cluster h512 ha
  rintro ⟨d, z, hd, hzero, hz, heq⟩
  obtain ⟨rfl, _⟩ := cluster_addr_inj h512 (hfile.chain _ c hc).two hd.two hy hz heq
  exact hfile.taken _ c hc hzero

/-- What is free was free before. -/
theorem EntriesKept.in_free (h : EntriesKept m disk disk') {x : Nat}
    (hx : m.InFree hi disk' x) : m.InFree hi disk x := by
  obtain ⟨c, y, hc, hzero, hy, rfl⟩ := hx
  refine ⟨c, y, hc, ?_, hy, rfl⟩
  by_contra hne
  exact hne ((h c hc.inFat hne).symm.trans hzero)

/-- A chain that is the same is as long. -/
theorem has_length_same (h : ∀ k, m.cluster disk' f k = m.cluster disk f k) {len : ℕ∞}
    (hlen : Chain.HasLength (m.nextCluster disk) (Fat16Mount.startCluster f) len) :
    Chain.HasLength (m.nextCluster disk') (Fat16Mount.startCluster f) len := fun k => by
  have hk := hlen k
  rwa [show Chain.nth (m.nextCluster disk) (Fat16Mount.startCluster f) k =
    Chain.nth (m.nextCluster disk') (Fat16Mount.startCluster f) k from (h k).symm] at hk

/-- A file keeps what makes it one, as long as the entries are kept. -/
theorem Fat16Mount.FileOk.entries_kept (hfile : m.FileOk hi disk f)
    (h : EntriesKept m disk disk') : m.FileOk hi disk' f := by
  have hsame := h.cluster_eq hfile.chain hfile.taken
  refine ⟨fun k c hc => hfile.chain k c ((hsame k).symm.trans hc), fun k c hc => ?_, ?_⟩
  · have hc' := (hsame k).symm.trans hc
    have hne := hfile.taken k c hc'
    rwa [h c (hfile.chain k c hc').inFat hne]
  · obtain ⟨len, hlen⟩ := hfile.finite
    exact ⟨len, has_length_same hsame hlen⟩

theorem Fat16Mount.FileOk.addr_eq (hfile : m.FileOk hi disk f) (h : EntriesKept m disk disk')
    (p : Nat) : m.chainAddr disk' f p = m.chainAddr disk f p := by
  unfold Fat16Mount.chainAddr
  rw [h.cluster_eq hfile.chain hfile.taken]

theorem Fat16Mount.FileOk.addr_inj (hfile : m.FileOk hi disk f) (h512 : m.Sectors512) {p p' a : Nat}
    (h : m.chainAddr disk f p = some a) (h' : m.chainAddr disk f p' = some a) : p = p' := by
  obtain ⟨len, hlen⟩ := hfile.finite
  exact chain_addr_inj h512 hlen h h'

namespace Grown

/-- Nothing is written and no cluster is taken. -/
theorem refl (m : Fat16Mount) (hi : Nat) (disk : ByteMem) (f : Fat16File) (p idx : Nat)
    (buffer : ByteMem) : Grown m hi disk f p 0 idx buffer disk where
  inside := fun _ hi => absurd hi (Nat.not_lt_zero _)
  outside := fun _ _ _ _ => rfl
  kept := fun _ _ _ => rfl

/-- A write, and a write behind it. -/
theorem cons (hv : m.Volume env hi) (hfile : m.FileOk hi disk f) {t r : Nat}
    (h : Grown m hi disk f p t idx buffer disk')
    (h' : Grown m hi disk' f (p + t) r (idx + t) buffer disk'') :
    Grown m hi disk f p (t + r) idx buffer disk'' where
  inside := by
    intro i hi a ha
    rcases Nat.lt_or_ge i t with hlt | hge
    · -- the second write is behind this byte
      rw [h'.outside a (chain_addr_not_in_fats ha)
        (fun hfree => hfile.not_in_free hv.toSectors512 ha (h.kept.in_free hfree)) fun j _ hj => ?_]
      · exact h.inside i hlt a ha
      · rw [hfile.addr_eq h.kept] at hj
        have heq := hfile.addr_inj hv.toSectors512 ha hj
        omega
    · have hbyte := h'.inside (i - t) (by omega) a (by
        rw [hfile.addr_eq h.kept, show p + t + (i - t) = p + i by omega, ha])
      rwa [show idx + t + (i - t) = idx + i by omega] at hbyte
  outside := by
    intro x hfats hfree hx
    rw [h'.outside x hfats (fun hfree' => hfree (h.kept.in_free hfree')) fun j hj => ?_]
    · exact h.outside x hfats hfree fun i hi => hx i (by omega)
    · rw [hfile.addr_eq h.kept, Nat.add_assoc]
      exact hx (t + j) (by omega)
  kept := h.kept.trans h'.kept

/-- A splice of the chain. -/
theorem of_spliced (hv : m.Volume env hi) (hfile : m.FileOk hi disk f)
    (h : Spliced m disk f p n idx buffer disk') : Grown m hi disk f p n idx buffer disk' where
  inside := fun i hi a ha => h.inside i hi a ha fun j hij _ hj => by
    have heq := hfile.addr_inj hv.toSectors512 ha hj
    omega
  outside := fun x _ _ hx => h.outside x hx
  kept := fun _ hc _ => fat_entry_same hv (fun _ hx => h.before hx) hc

/-- Clusters that are taken and written behind the end of the chain. -/
theorem behind (hlen : Chain.HasLength (m.nextCluster disk) (Fat16Mount.startCluster f) len)
    (hsize : 0 < m.clusterSize) (hp : len * m.clusterSize ≤ p) (hkept : EntriesKept m disk disk')
    (h : ∀ x, ¬ m.InFats x → ¬ m.InFree hi disk x → disk' x = disk x) (n idx : Nat)
    (buffer : ByteMem) : Grown m hi disk f p n idx buffer disk' where
  inside := by
    intro i _ a ha
    obtain ⟨c, hc, _⟩ := Option.map_eq_some_iff.mp ha
    have hge : len ≤ (p + i) / m.clusterSize := (Nat.le_div_iff_mul_le hsize).mpr (by omega)
    rw [Fat16Mount.cluster, hlen.nth_none hge] at hc
    cases hc
  outside := fun x hfats hfree _ => h x hfats hfree
  kept := hkept

end Grown

/-! ## The hops -/

/-- The cluster `cur` at the block `q` of a write: one of the chain, or one behind its end that
links to nothing. -/
def AtBlock (m : Fat16Mount) (hi : Nat) (disk : ByteMem) (f : Fat16File) (len q cur : Nat) : Prop :=
  (q < len ∧ m.cluster disk f q = some cur) ∨
    (len ≤ q ∧ m.DataCluster hi cur ∧ EndMark (fatEntry disk m.fatSect cur))

theorem AtBlock.chain (h : AtBlock m hi disk f len q cur) (hq : q < len) :
    m.cluster disk f q = some cur := by
  rcases h with ⟨_, hc⟩ | ⟨hle, _⟩
  · exact hc
  · omega

theorem AtBlock.behind (h : AtBlock m hi disk f len q cur) (hq : len ≤ q) :
    m.DataCluster hi cur ∧ EndMark (fatEntry disk m.fatSect cur) := by
  rcases h with ⟨hlt, _⟩ | ⟨_, hcur⟩
  · omega
  · exact hcur

theorem AtBlock.data (h : AtBlock m hi disk f len q cur) (hfile : m.FileOk hi disk f) :
    m.DataCluster hi cur := by
  rcases h with ⟨_, hc⟩ | ⟨_, hc, _⟩
  · exact hfile.chain q cur hc
  · exact hc

/-- At the end of the chain and behind it a cluster links to nothing. -/
theorem AtBlock.end_mark (h : AtBlock m hi disk f len q cur)
    (hlen : Chain.HasLength (m.nextCluster disk) (Fat16Mount.startCluster f) ((len : Nat) : ℕ∞))
    (hq : len ≤ q + 1) : EndMark (fatEntry disk m.fatSect cur) := by
  rcases h with ⟨_, hc⟩ | ⟨_, _, hend⟩
  · have hnone : m.nextCluster disk cur = none :=
      (Chain.nth_succ_of_some hc).symm.trans (hlen.nth_none hq)
    by_contra hnot
    rw [Fat16Mount.nextCluster, if_neg hnot] at hnone
    cases hnone
  · exact hend

/-- Where no entry of a data cluster changes, a write stays at its block. -/
theorem AtBlock.congr (h : AtBlock m hi disk f len q cur) (hfile : m.FileOk hi disk f)
    (hsame : ∀ c < 256 * m.bpb.sectorsPerFat,
      fatEntry disk' m.fatSect c = fatEntry disk m.fatSect c) :
    AtBlock m hi disk' f len q cur := by
  rcases h with ⟨hq, hc⟩ | ⟨hq, hdata, hend⟩
  · refine Or.inl ⟨hq, ?_⟩
    rw [cluster_congr (fun k c hc => hsame c (hfile.chain k c hc).inFat), hc]
  · exact Or.inr ⟨hq, hdata, by rwa [hsame cur hdata.inFat]⟩

/-- The clusters that a write from the block `q` to the block `last` takes. -/
def needed (len last q : Nat) : Nat := last + 1 - max len (q + 1)

/-- The hops to a block that is not behind the last one, and the clusters that they take. -/
theorem write_hops_grow (hv : m.Volume env hi) {last : Nat} :
    ∀ (h q cur dirtyBit : Nat) (buf : ByteMem) (s : BlockState), m.FileOk hi s.disk f →
      Chain.HasLength (m.nextCluster s.disk) (Fat16Mount.startCluster f) ((len : Nat) : ℕ∞) →
      AtBlock m hi s.disk f len q cur → m.Room hi s.disk (e + needed len last q) → q + h ≤ last →
      ∃ (c dirtyBit' : Nat) (buf' : ByteMem) (s' : BlockState),
        writeHops env m h cur dirtyBit buf s = some (c, dirtyBit', buf', s') ∧
        AtBlock m hi s'.disk f len (q + h) c ∧ m.Room hi s'.disk (e + needed len last (q + h)) ∧
        EntriesKept m s.disk s'.disk ∧ IoEffect m.fatSect hi s s' s'.disk ∧
        (∀ x, ¬ m.InFats x → s'.disk x = s.disk x) ∧
        (len ≤ q + h → 1 ≤ h → fatEntry s.disk m.fatSect c = 0) := by
  intro h
  induction h with
  | zero =>
      intro q cur dirtyBit buf s _ _ hat hroom _
      exact ⟨cur, dirtyBit, buf, s, rfl, hat, hroom, fun _ _ _ => rfl, IoEffect.refl _ _ s,
        fun _ _ => rfl, fun _ h => by omega⟩
  | succ h ih =>
      intro q cur dirtyBit buf s hfile hlen hat hroom hlast
      obtain ⟨buf₁, hhop⟩ := hop_cluster_ok hv.works hv.toSectors512
        (hv.onDisk_cluster (hat.data hfile)).entry buf s
      rw [writeHops, hhop]
      simp only
      by_cases hq : q + 1 < len
      · -- the next cluster is one of the chain
        have hc := hat.chain (show q < len by omega)
        obtain ⟨a, ha⟩ := Option.isSome_iff_exists.mp (hlen.nth_isSome hq)
        obtain ⟨hend, hentry⟩ := not_end_mark_next ((Chain.nth_succ_of_some hc).symm.trans ha)
        rw [← hentry, if_neg hend]
        have hneed : needed len last (q + 1) = needed len last q := by
          simp only [needed]
          omega
        obtain ⟨c, dirtyBit', buf', s', hrun, hat', hroom', hkept, hio, hsame, hzero⟩ :=
          ih (q + 1) a dirtyBit buf₁ { s with commands := s.commands + 1 } hfile hlen
            (Or.inl ⟨hq, ha⟩) (by rw [hneed]; exact hroom) (by omega)
        rw [show q + (h + 1) = q + 1 + h by omega]
        exact ⟨c, dirtyBit', buf', s', hrun, hat', hroom', hkept,
          (IoEffect.reads _ _ s (s.commands + 1) s.mallocs).trans hio, hsame,
          fun hle _ => hzero hle (by omega)⟩
      · -- the chain ends here, and a cluster is taken
        have hend := hat.end_mark hlen (Nat.le_of_not_lt hq)
        have hneed : e + needed len last q = e + needed len last (q + 1) + 1 := by
          simp only [needed]
          omega
        rw [hneed] at hroom
        obtain ⟨d, t, hget, hd, halloc, hio, hroom₁⟩ := get_free_cluster_room (m := m)
          (s := { s with commands := s.commands + 1 }) hv hroom hend (ByteMem.word16_lt _ _)
        rw [if_pos hend, hget]
        have hkept : EntriesKept m s.disk t.disk := halloc.keeps hv.fats hend
        have hmark : EndMark (fatEntry t.disk m.fatSect d) := by
          have hentry := halloc.entries 0 hv.fats d halloc.inFat
          rw [Nat.zero_mul, Nat.add_zero, if_pos rfl] at hentry
          rw [hentry]
          exact Or.inl (by omega)
        have hsame : ∀ x, ¬ m.InFats x → t.disk x = s.disk x := fun x hx =>
          halloc.rest x (by
            by_contra hnot
            exact hx ⟨by omega, by omega⟩)
        obtain ⟨c, dirtyBit', buf', s', hrun, hat', hroom', hkept', hio', hsame', hzero⟩ :=
          ih (q + 1) d 1 buf₁ t (hfile.entries_kept hkept)
            (has_length_same (hkept.cluster_eq hfile.chain hfile.taken) hlen)
            (Or.inr ⟨by omega, hd.data, hmark⟩) hroom₁ (by omega)
        rw [show q + (h + 1) = q + 1 + h by omega]
        refine ⟨c, dirtyBit', buf', s', hrun, hat', hroom', hkept.trans hkept',
          ((IoEffect.reads _ _ s (s.commands + 1) s.mallocs).trans hio).trans hio',
          fun x hx => (hsame' x hx).trans (hsame x hx), fun hle _ => ?_⟩
        rcases Nat.eq_zero_or_pos h with rfl | hpos
        · obtain ⟨rfl, _⟩ := Prod.mk.inj (Option.some.inj hrun)
          exact hd.free
        · by_contra hne
          exact hne ((hkept c (hat'.behind hle).1.inFat hne).symm.trans (hzero hle hpos))

/-! ## The rounds -/

/-- A round at a block: the bytes of the buffer that belong there, and what stays. -/
theorem write_round_grow (hv : m.Volume env hi) (hfile : m.FileOk hi s.disk f)
    (hlen : Chain.HasLength (m.nextCluster s.disk) (Fat16Mount.startCluster f) ((len : Nat) : ℕ∞))
    {s₁ : BlockState} (hkept : EntriesKept m s.disk s₁.disk)
    (hsame : ∀ x, ¬ m.InFats x → s₁.disk x = s.disk x) (hat : AtBlock m hi s₁.disk f len q c)
    (hfree : len ≤ q → fatEntry s.disk m.fatSect c = 0) {x t : Nat} (hx : x + t ≤ m.clusterSize)
    {temp : ByteMem} (htemp : ∀ y < m.clusterSize, temp y = s₁.disk (m.clusterAddr c + y))
    (idx : Nat) (buffer : ByteMem) :
    Grown m hi s.disk f (q * m.clusterSize + x) t idx buffer
      (s₁.disk.copy (m.clusterAddr c) (temp.copy x buffer idx t) 0 m.clusterSize) := by
  have hfile₁ := hfile.entries_kept hkept
  by_cases hq : q < len
  · have hblock := Spliced.block idx buffer (hat.chain hq) hx htemp
    have hhops : Grown m hi s.disk f (q * m.clusterSize + x) 0 idx buffer s₁.disk :=
      ⟨fun _ hi => absurd hi (Nat.not_lt_zero _), fun y hy _ _ => hsame y hy, hkept⟩
    have hjoin := hhops.cons hv hfile (r := t) (Grown.of_spliced hv hfile₁ hblock)
    rwa [Nat.zero_add] at hjoin
  · have hq := Nat.le_of_not_lt hq
    have hmul := Nat.mul_le_mul_right m.clusterSize hq
    have hdata := (hat.behind hq).1
    refine Grown.behind hlen hv.clusterSize_pos (by omega) (hkept.trans fun d hd _ => ?_)
      (fun y hfats hnot => ?_) t idx buffer
    · refine fat_entry_same hv (fun y hy => ByteMem.copy_outside ?_) hd
      have hle := data_le_cluster_addr (m := m) c
      omega
    · -- the cluster was free before the write took it
      rw [ByteMem.copy_outside, hsame y hfats]
      by_contra hin
      exact hnot ⟨c, y - m.clusterAddr c, hdata, hfree hq, by omega, by omega⟩

/-- The outer loop of a write to a volume with room for it. -/
theorem write_loop_grow (hv : m.Volume env hi) (hspf : 1 ≤ m.bpb.sectorsPerFat) (buffer : ByteMem)
    (p size : Nat) :
    ∀ (k h q cur x idx : Nat) (file : Fat16File) (buf temp : ByteMem) (s : BlockState),
      m.FileOk hi s.disk f →
      Chain.HasLength (m.nextCluster s.disk) (Fat16Mount.startCluster f) ((len : Nat) : ℕ∞) →
      AtBlock m hi s.disk f len q cur → (len ≤ q → 1 ≤ h) →
      m.Room hi s.disk (e + needed len ((p + size - 1) / m.clusterSize) q) → x < m.clusterSize →
      (q + h) * m.clusterSize + x = p + idx → idx < size → size - idx ≤ k →
      ∃ (file' : Fat16File) (s' : BlockState),
        writeLoop env m buffer size k h x cur idx file buf temp s = some (size, file', s') ∧
        file'.fsSpecific = file.fsSpecific ∧ file'.offset = add32 file.offset (size - idx) ∧
        m.Room hi s'.disk e ∧ IoEffect m.fatSect hi s s' s'.disk ∧
        Grown m hi s.disk f (p + idx) (size - idx) idx buffer s'.disk := by
  intro k
  induction k with
  | zero => omega
  | succ k ih =>
      intro h q cur x idx file buf temp s hfile hlen hat hpast hroom hx hpos hidx hk
      have hsize := hv.clusterSize_pos
      have hle : q + h ≤ (p + size - 1) / m.clusterSize :=
        (Nat.le_div_iff_mul_le hsize).mpr (by omega)
      obtain ⟨c, dirtyBit, buf₁, s₁, hhops, hat₁, hroom₁, hkept₁, hio₁, hsame₁, hfree⟩ :=
        write_hops_grow hv h q cur file.dirtyBit buf s hfile hlen hat hroom hle
      have hfile₁ := hfile.entries_kept hkept₁
      rw [writeLoop, hhops]
      simp only
      generalize ht : min (size - idx) (m.clusterSize - x) = t
      obtain ⟨temp₁, s₂, s₃, hread, hwrite, htemp, hio₂⟩ :=
        write_round_ok hv (hat₁.data hfile₁) buffer x t idx temp s₁
      rw [hread]
      simp only
      rw [hwrite]
      have hround := write_round_grow hv hfile hlen hkept₁ hsame₁ hat₁
        (fun hq => hfree hq (by omega)) (show x + t ≤ m.clusterSize by omega) htemp idx buffer
      -- a round writes data sectors, so it changes no entry
      have hbefore : ∀ y < 512 * m.dataSect, s₃.disk y = s₁.disk y := fun y hy => by
        have hle := data_le_cluster_addr (m := m) c
        rw [hio₂.disk, ByteMem.copy_outside (by omega)]
      have hentries : ∀ d < 256 * m.bpb.sectorsPerFat,
          fatEntry s₃.disk m.fatSect d = fatEntry s₁.disk m.fatSect d := fun d hd =>
        fat_entry_same hv hbefore hd
      have hdata := fat_sect_le_data_sect hv.fats
      rw [← hio₂.disk] at hround
      rw [hpos] at hround
      have hio : IoEffect m.fatSect hi s s₃ s₃.disk := by
        have hwhole := hio₂.mono (show m.fatSect ≤ m.dataSect by omega) (Nat.le_refl hi)
        rw [← hio₂.disk] at hwhole
        exact hio₁.trans hwhole
      have hroom₃ := hroom₁.congr hentries hspf
      by_cases hdone : idx + t ≥ size
      · have hall : t = size - idx := by omega
        have hlast : (p + size - 1) / m.clusterSize < q + h + 1 :=
          (Nat.div_lt_iff_lt_mul hsize).mpr (by rw [Nat.add_mul, Nat.one_mul]; omega)
        rw [if_pos hdone, show idx + t = size by omega]
        rw [hall] at hround ⊢
        refine ⟨_, s₃, rfl, rfl, rfl, ?_, hio, hround⟩
        rwa [show needed len ((p + size - 1) / m.clusterSize) (q + h) = 0 by
          simp only [needed]; omega] at hroom₃
      · rw [if_neg hdone]
        have hkept := hround.kept
        obtain ⟨file', s', hrun, hfirst, hoffset, hroom', hio', hrest⟩ := ih 1 (q + h) c 0 (idx + t)
          { file with
            offset := add32 file.offset t
            size := max file.size (idx + t)
            dirtyBit := dirtyBit } buf₁ (temp₁.copy x buffer idx t) s₃
          (hfile.entries_kept hkept)
          (has_length_same (hkept.cluster_eq hfile.chain hfile.taken) hlen)
          (hat₁.congr hfile₁ hentries) (fun _ => Nat.le_refl 1) hroom₃ hsize
          (by rw [Nat.add_mul (q + h) 1, Nat.one_mul]; omega) (by omega) (by omega)
        refine ⟨file', s', hrun, hfirst, ?_, hroom', hio.trans hio', ?_⟩
        · rw [hoffset, add32_add32]
          congr 1
          omega
        · rw [← Nat.add_assoc] at hrest
          have hjoin := hround.cons hv hfile hrest
          rwa [show t + (size - (idx + t)) = size - idx by omega] at hjoin

/-! ## Whole writes -/

/-- What a write of `n` bytes from the offset on leaves of a file that has clusters, if there is
room for those behind its end. -/
theorem write_fat16_grows (hv : m.Volume env hi) (hspf : 1 ≤ m.bpb.sectorsPerFat)
    (hfile : m.FileOk hi s.disk f)
    (hlen : Chain.HasLength (m.nextCluster s.disk) (Fat16Mount.startCluster f) ((len : Nat) : ℕ∞))
    (hpos : 0 < len) {k : Nat} (hn : 1 ≤ n) (hk : n ≤ k)
    (hroom : m.Room hi s.disk (e + ((f.offset + n - 1) / m.clusterSize + 1 - len)))
    (buffer : ByteMem) :
    ∃ (f' : Fat16File) (s' : BlockState), writeFat16 env m k f buffer n s = some (n, f', s') ∧
      f'.fsSpecific = f.fsSpecific ∧ f'.offset = add32 f.offset n ∧ m.Room hi s'.disk e ∧
      IoEffect m.fatSect hi s s' s'.disk ∧ Grown m hi s.disk f f.offset n 0 buffer s'.disk := by
  obtain ⟨c, hc⟩ := Option.isSome_iff_exists.mp (hlen.nth_isSome hpos)
  have hend : ¬ EndMark (f.fsSpecific % 65536) := fun hend => by
    have hnone : Fat16Mount.startCluster f = none := if_pos hend
    rw [Chain.nth, hnone] at hc
    cases hc
  have hfirst : m.cluster s.disk f 0 = some (f.fsSpecific % 65536) := if_neg hend
  obtain ⟨buf, hbuf⟩ := malloc_ok hv.works s
  obtain ⟨temp, htemp⟩ := malloc_ok hv.works { s with mallocs := s.mallocs + 1 }
  have hdiv := Nat.div_add_mod' f.offset m.clusterSize
  have hneed : needed len ((f.offset + n - 1) / m.clusterSize) 0 =
      (f.offset + n - 1) / m.clusterSize + 1 - len := by
    simp only [needed]
    omega
  obtain ⟨f', s', hrun, hspecific, hoffset, hroom', hio, hgrown⟩ := write_loop_grow hv hspf buffer
    f.offset n k (f.offset / m.clusterSize) 0 (f.fsSpecific % 65536) (f.offset % m.clusterSize) 0 f
    buf temp { s with mallocs := s.mallocs + 1 + 1 } hfile hlen (Or.inl ⟨hpos, hfirst⟩)
    (fun hle => by omega) (by rw [hneed]; exact hroom) (Nat.mod_lt _ hv.clusterSize_pos)
    (by rw [Nat.zero_add]; omega) (by omega) (by omega)
  refine ⟨f', s', ?_, hspecific, hoffset, hroom',
    (IoEffect.reads _ _ s s.commands (s.mallocs + 1 + 1)).trans hio, hgrown⟩
  unfold writeFat16
  rw [if_neg (by omega), first_cluster_kept hend]
  simp only [Option.bind_eq_bind, Option.bind_some]
  rw [hbuf]
  simp only [Option.bind_some]
  rw [htemp]
  simp only [Option.bind_some]
  exact hrun

/-- The first write to an empty file takes a cluster for it and goes on as a write to the file of
that cluster. -/
theorem write_fat16_first_grows (hv : m.Volume env hi) (hspf : 1 ≤ m.bpb.sectorsPerFat)
    (hempty : EndMark (f.fsSpecific % 65536)) {k : Nat} (hn : 1 ≤ n) (hk : n ≤ k)
    (hroom : m.Room hi s.disk (e + ((f.offset + n - 1) / m.clusterSize + 1))) (buffer : ByteMem) :
    ∃ (c : Nat) (s₁ : BlockState) (f' : Fat16File) (s' : BlockState),
      writeFat16 env m k f buffer n s = some (n, f', s') ∧ m.Available hi s.disk c ∧
      EntriesKept m s.disk s₁.disk ∧ (∀ x, ¬ m.InFats x → s₁.disk x = s.disk x) ∧
      m.FileOk hi s₁.disk (f.withFirst c) ∧
      Chain.HasLength (m.nextCluster s₁.disk) (Fat16Mount.startCluster (f.withFirst c))
        ((1 : Nat) : ℕ∞) ∧
      m.cluster s₁.disk (f.withFirst c) 0 = some c ∧
      f'.fsSpecific = c ∧ f'.offset = add32 f.offset n ∧ m.Room hi s'.disk e ∧
      IoEffect m.fatSect hi s s' s'.disk ∧
      Grown m hi s₁.disk (f.withFirst c) f.offset n 0 buffer s'.disk := by
  rw [← Nat.add_assoc] at hroom
  obtain ⟨c, s₁, hget, hc, halloc, hio, hroom₁⟩ :=
    get_free_cluster_room hv hroom hempty (Nat.mod_lt f.fsSpecific (by decide))
  have hfirst := first_cluster_taken hempty hget
  obtain ⟨hzero, hone⟩ := first_cluster_chain f hv.fats hc halloc
  have hlen := first_cluster_length f hv.fats hc halloc
  have hfile : m.FileOk hi s₁.disk (f.withFirst c) :=
    ⟨chain_ok_single hzero hone hc.data, first_cluster_taken_entry hv.fats hc halloc, 1, hlen⟩
  obtain ⟨f', s', hrun, hspecific, hoffset, hroom', hio', hgrown⟩ := write_fat16_grows hv hspf hfile
    hlen Nat.one_pos hn hk (by rwa [Nat.add_sub_cancel]) buffer
  rw [← write_fat16_first hfirst hc.not_end_mark hn] at hrun
  exact ⟨c, s₁, f', s', hrun, hc, halloc.keeps hv.fats hempty, fun x hx => halloc.rest x (by
    by_contra hnot
    exact hx ⟨by omega, by omega⟩), hfile, hlen, hzero, hspecific, hoffset, hroom',
    hio.trans hio', hgrown⟩

/-! ## What a write does to files -/

/-- The bytes of the file itself. -/
theorem Grown.own (hfile : m.FileOk hi disk f) (h512 : m.Sectors512)
    (h : Grown m hi disk f p n idx buffer disk') (j : Nat) :
    m.chainByte disk' f j = (m.chainAddr disk f j).map fun a =>
      if p ≤ j ∧ j < p + n then buffer (idx + (j - p)) else disk a := by
  rw [Fat16Mount.chainByte, hfile.addr_eq h.kept]
  cases ha : m.chainAddr disk f j with
  | none => rfl
  | some a =>
      rw [Option.map_some, Option.map_some]
      split_ifs with hin
      · rw [h.inside (j - p) (by omega) a (by rw [show p + (j - p) = j by omega, ha])]
      · rw [h.outside a (chain_addr_not_in_fats ha) (hfile.not_in_free h512 ha) fun i _ hi => ?_]
        have heq := hfile.addr_inj h512 ha hi
        omega

/-- The bytes of another file. -/
theorem Grown.other (hg : m.FileOk hi disk g) (h512 : m.Sectors512)
    (h : Grown m hi disk f p n idx buffer disk') (hapart : ChainsApart m disk f g) (j : Nat) :
    m.chainByte disk' g j = m.chainByte disk g j := by
  rw [Fat16Mount.chainByte, Fat16Mount.chainByte, hg.addr_eq h.kept]
  cases ha : m.chainAddr disk g j with
  | none => rfl
  | some a =>
      rw [Option.map_some, Option.map_some,
        h.outside a (chain_addr_not_in_fats ha) (hg.not_in_free h512 ha) fun i _ hi => ?_]
      obtain ⟨c, y, hc, hy, rfl⟩ := chain_addr_cluster h512 ha
      obtain ⟨d, z, hd, hz, heq⟩ := chain_addr_cluster h512 hi
      obtain ⟨rfl, _⟩ := cluster_addr_inj h512 (cluster_lt hc).1 (cluster_lt hd).1 hy hz heq
      exact hapart _ _ _ hd hc

/-- Files that share no cluster share none after a write. -/
theorem chains_apart_kept (hf : m.FileOk hi disk f) (hg : m.FileOk hi disk g)
    (hkept : EntriesKept m disk disk') (h : ChainsApart m disk f g) : ChainsApart m disk' f g :=
  fun i j c hi hj => h i j c ((hkept.cluster_eq hf.chain hf.taken i).symm.trans hi)
    ((hkept.cluster_eq hg.chain hg.taken j).symm.trans hj)

end Genesis32
